import Cromwell.Flash.Conventions

/-!
# A successful reflash is written

Erasing and programming keep to the region, however often they are tried and
wherever they are cut off. The chip is in array mode when the verify loop reads,
so the bytes it compares are those of the array.
-/

namespace Cromwell.Flash

open Cromwell.Std

variable {chip : FlashChip} {region : Region} {contents : Memory}

/-! ## The object and the callback -/

/-- The object describes the region. -/
structure Covers (pof : ObjectFlash) (region : Region) : Prop where
  start : pof.dwStartOffset.toNat = region.start
  length : pof.dwLengthUsedArea.toNat = region.length
  fits : region.start + region.length < 2 ^ 32

/-- It also describes the chip the region lies on, and its conventions. -/
structure Describes (pof : ObjectFlash) (chip : FlashChip) (region : Region) : Prop
    extends Covers pof region where
  chipLength : pof.dwLengthInBytes.toNat = chip.lengthInBytes
  conventions : pof.fDetectedUsing28xxxConventions = chip.is28xxx

section Object

variable {state : FlashState FlashDevice} {fuel : Nat} {pof : ObjectFlash} {dw : UInt32}

/-- The callback does not touch the chip. -/
theorem deliver_ensures {ee : EnumEvents} {dwPos dwExtent : UInt32}
    {cut : FlashState FlashDevice → Prop} :
    (deliver pof ee dwPos dwExtent).Ensures state cut
      fun _ after => after.flash = state.flash := by
  unfold deliver
  cases pof.pcallbackFlash with
  | none => exact rfl
  | some pcallbackFlash => exact rfl

theorem deliverUpdate_ensures {ee : EnumEvents} {dwPos : UInt32} {aborted : String}
    {cut : FlashState FlashDevice → Prop} :
    (deliverUpdate pof dw ee dwPos aborted).Ensures state cut
      fun _ after => after.flash = state.flash := by
  unfold deliverUpdate
  split
  · refine deliver_ensures.andThen ?_
    intro accepted after same
    cases accepted with
    | true => exact same
    | false => exact same
  · exact rfl

/-- In array mode a read returns the array. -/
theorem readFlash_idle (idle : Idle chip region contents state.flash) :
    (readFlash chip.bus dw).Ensures state (Safe chip region contents) fun b after =>
      Idle chip region contents after.flash ∧ after.flash.array = state.flash.array ∧
        b = state.flash.array dw.toNat := by
  refine ⟨⟨confined_read idle.confined dw.toNat, ?_⟩, rfl, ?_⟩
  · simp [FlashChip.bus, FlashChip.read, idle.array, FlashChip.afterRead]
  · simp [FlashChip.bus, FlashChip.read, idle.array, FlashChip.value]

theorem deliverError_ensures {ee eeEnd : EnumEvents} {dwPos : UInt32} {dwExtent : Byte → UInt32}
    (idle : Idle chip region contents state.flash) :
    (deliverError chip.bus pof dw ee eeEnd dwPos dwExtent).Ensures state
      (Safe chip region contents) fun _ after => Idle chip region contents after.flash := by
  unfold deliverError
  cases pof.pcallbackFlash with
  | none => exact idle
  | some pcallbackFlash =>
      refine (readFlash_idle idle).andThen ?_
      rintro b read ⟨idle, -, -⟩
      refine deliver_ensures.andThen ?_
      intro _ reported same
      rw [← same] at idle
      refine deliver_ensures.andThen ?_
      intro _ ended same
      rw [← same] at idle
      exact idle

theorem setErrorInfo_ensures {text : String} {cut : FlashState FlashDevice → Prop} :
    (setErrorInfo text).Ensures state cut fun _ after => after.flash = state.flash := rfl

/-- The whole chip is erased only when the region is the whole chip. -/
theorem erase29xxx_ensures {nCountEraseRetryIn4KBlock : Int} (is29xxx : chip.is28xxx = false)
    (describes : Describes pof chip region) (idle : Idle chip region contents state.flash)
    (inside : region.Contains dw.toNat) :
    (erase29xxx chip.bus fuel pof dw nCountEraseRetryIn4KBlock).Ensures state
      (Safe chip region contents) fun _ after => Idle chip region contents after.flash := by
  refine (eraseBlock_ensures is29xxx idle inside).andThen ?_
  intro dwCountTries erased idle
  split
  next guarded =>
    obtain ⟨-, -, start, length⟩ := guarded
    have whole : region.IsWhole chip := by
      constructor
      · rw [← describes.start, start]
        rfl
      · rw [← describes.length, length, describes.chipLength]
    refine (resetCommand_ensures is29xxx idle).andThen ?_
    intro _ reset idle
    refine (eraseCommand_ensures is29xxx .chipErase idle
      (by simp [FlashChip.decode_29xxx is29xxx, FlashChip.decode29xxx]) whole).andThen ?_
    intro _ issued settling
    refine (pollToggle_ensures settling).andThen ?_
    intro _ polled idle
    exact idle
  next => exact idle

/-! ## The loops -/

/-- The part of the region that is left, when the work is at `dw`. -/
structure Left (region : Region) (dw dwLen : UInt32) : Prop where
  started : region.start ≤ dw.toNat
  left : dw.toNat + dwLen.toNat = region.start + region.length

theorem Left.contains {dwLen : UInt32} (left : Left region dw dwLen) (more : dwLen ≠ 0) :
    region.Contains dw.toNat := by
  have positive : 0 < dwLen.toNat := Nat.pos_of_ne_zero fun zero => more (UInt32.toNat_inj.mp zero)
  have total := left.left
  exact ⟨left.started, by omega⟩

theorem Left.advance {dwLen : UInt32} (left : Left region dw dwLen) (more : dwLen ≠ 0)
    (fits : region.start + region.length < 2 ^ 32) : Left region (dw + 1) (dwLen - 1) := by
  obtain ⟨lower, upper⟩ := left.contains more
  have total := left.left
  have next : (dw + 1).toNat = dw.toNat + 1 := toNat_succ (by omega)
  constructor
  · omega
  · rw [next, toNat_pred more]
    omega

/-- The object starts with the whole region left. -/
theorem Covers.left (covers : Covers pof region) :
    Left region pof.dwStartOffset pof.dwLengthUsedArea where
  started := by rw [covers.start]
  left := by rw [covers.start, covers.length]

theorem eraseRound_ensures {locals : EraseLocals} (describes : Describes pof chip region)
    (idle : Idle chip region contents state.flash) (left : Left region locals.dw locals.dwLen)
    (more : locals.dwLen ≠ 0) :
    (eraseRound chip.bus fuel pof locals).Ensures state (Safe chip region contents)
      fun ended after => Idle chip region contents after.flash ∧
        ended.Ends (fun next => Left region next.dw next.dwLen) fun _ => True := by
  have dw := locals.countRetry_dw
  have dwLen := locals.countRetry_dwLen
  have inside := left.contains more
  rw [← dw] at inside
  rw [← dw, ← dwLen] at left
  unfold eraseRound
  generalize locals.countRetry = counted at inside left
  dsimp only
  split
  · refine (deliverError_ensures idle).andThen ?_
    intro _ reported idle
    refine (readFlash_idle idle).andThen ?_
    rintro b read ⟨idle, -, -⟩
    refine setErrorInfo_ensures.andThen ?_
    intro _ told same
    rw [← same] at idle
    exact ⟨idle, trivial⟩
  · split
    next detected =>
      have is28xxx : chip.is28xxx = true := describes.conventions ▸ detected
      refine (erase28xxx_ensures is28xxx idle inside).andThen ?_
      intro b erased idle
      split
      · refine (deliverError_ensures idle).andThen ?_
        intro _ reported idle
        refine setErrorInfo_ensures.andThen ?_
        intro _ told same
        rw [← same] at idle
        exact ⟨idle, trivial⟩
      · exact ⟨idle, left⟩
    next undetected =>
      have is29xxx : chip.is28xxx = false := by
        rw [← describes.conventions]
        exact Bool.eq_false_of_not_eq_true undetected
      refine (erase29xxx_ensures is29xxx describes idle inside).andThen ?_
      intro _ erased idle
      exact ⟨idle, left⟩

theorem eraseLoop_ensures (describes : Describes pof chip region)
    (idle : Idle chip region contents state.flash) :
    (eraseLoop chip.bus fuel pof).Ensures state (Safe chip region contents)
      fun _ after => Idle chip region contents after.flash := by
  refine Program.loop_ensures
    (fun _ locals current => Idle chip region contents current.flash ∧
      Left region locals.dw locals.dwLen)
    (fun _ _ held => held.1.confined) ?_ ⟨idle, describes.left⟩
  rintro _ locals current ⟨idle, left⟩
  unfold erasePass
  split
  · exact idle
  next more =>
    refine (readFlash_idle idle).andThen ?_
    rintro b read ⟨idle, -, -⟩
    split
    · refine (eraseRound_ensures describes idle left more).mono (fun _ held => held) ?_
      rintro ended after ⟨idle, left⟩
      cases ended with
      | next locals => exact ⟨idle, left⟩
      | leave erased => exact idle
    · refine deliverUpdate_ensures.andThen ?_
      intro accepted told same
      rw [← same] at idle
      cases accepted with
      | true => exact ⟨idle, left.advance more describes.fits⟩
      | false => exact idle

/-- Erasing keeps to the region, whether it succeeds or not. -/
theorem bootFlashEraseMinimalRegion_ensures (describes : Describes pof chip region)
    (idle : Idle chip region contents state.flash) :
    (bootFlashEraseMinimalRegion chip.bus fuel pof).Ensures state (Safe chip region contents)
      fun _ after => Idle chip region contents after.flash := by
  refine setErrorInfo_ensures.andThen ?_
  intro _ cleared same
  rw [← same] at idle
  refine deliver_ensures.andThen ?_
  intro accepted started same
  rw [← same] at idle
  cases accepted with
  | false => exact idle
  | true =>
      refine (eraseLoop_ensures describes idle).andThen ?_
      intro erased looped idle
      cases erased with
      | false => exact idle
      | true =>
          refine deliver_ensures.mono (fun _ held => held) ?_
          intro _ ended same
          rwa [← same] at idle

theorem programRound_ensures {pba : Memory} {locals : ProgramLocals}
    (describes : Describes pof chip region) (idle : Idle chip region contents state.flash)
    (left : Left region locals.dw locals.dwLen) (more : locals.dwLen ≠ 0) :
    (programRound chip.bus fuel pof pba locals).Ensures state (Safe chip region contents)
      fun ended after => Idle chip region contents after.flash ∧
        ended.Ends (fun next => Left region next.dw next.dwLen) fun _ => True := by
  have dw := locals.countRetry_dw
  have dwLen := locals.countRetry_dwLen
  have inside := left.contains more
  rw [← dw] at inside
  rw [← dw, ← dwLen] at left
  unfold programRound
  generalize locals.countRetry = counted at inside left
  dsimp only
  split
  · refine (deliverError_ensures idle).andThen ?_
    intro _ reported idle
    refine (readFlash_idle idle).andThen ?_
    rintro b read ⟨idle, -, -⟩
    refine setErrorInfo_ensures.andThen ?_
    intro _ told same
    rw [← same] at idle
    exact ⟨idle, trivial⟩
  · split
    next detected =>
      have is28xxx : chip.is28xxx = true := describes.conventions ▸ detected
      refine (program28xxx_ensures is28xxx idle inside).andThen ?_
      rintro ⟨b, dwTimeToLive⟩ programmed idle
      dsimp only
      split
      · refine (deliverError_ensures idle).andThen ?_
        intro _ reported idle
        refine setErrorInfo_ensures.andThen ?_
        intro _ told same
        rw [← same] at idle
        exact ⟨idle, trivial⟩
      · exact ⟨idle, left⟩
    next undetected =>
      have is29xxx : chip.is28xxx = false := by
        rw [← describes.conventions]
        exact Bool.eq_false_of_not_eq_true undetected
      refine (program29xxx_ensures is29xxx idle inside).andThen ?_
      intro _ programmed idle
      exact ⟨idle, left⟩

theorem programLoop_ensures {pba : Memory} (describes : Describes pof chip region)
    (idle : Idle chip region contents state.flash) :
    (programLoop chip.bus fuel pof pba).Ensures state (Safe chip region contents)
      fun _ after => Idle chip region contents after.flash := by
  refine Program.loop_ensures
    (fun _ locals current => Idle chip region contents current.flash ∧
      Left region locals.dw locals.dwLen)
    (fun _ _ held => held.1.confined) ?_ ⟨idle, describes.left⟩
  rintro _ locals current ⟨idle, left⟩
  unfold programPass
  split
  · exact idle
  next more =>
    refine (readFlash_idle idle).andThen ?_
    rintro b read ⟨idle, -, -⟩
    split
    · refine (programRound_ensures describes idle left more).mono (fun _ held => held) ?_
      rintro ended after ⟨idle, left⟩
      cases ended with
      | next locals => exact ⟨idle, left⟩
      | leave programmed => exact idle
    · refine deliverUpdate_ensures.andThen ?_
      intro accepted told same
      rw [← same] at idle
      cases accepted with
      | true => exact ⟨idle, left.advance more describes.fits⟩
      | false => exact idle

/-! ## Verifying -/

/-- The first bytes of the region are those of the data. -/
def WrittenUpTo (region : Region) (pba array : Memory) (count : Nat) : Prop :=
  ∀ i < count, array (region.start + i) = pba i

theorem verifyError_ensures {value : Byte} (idle : Idle chip region contents state.flash) :
    (verifyError chip.bus pof dw value).Ensures state (Safe chip region contents)
      fun _ after => Idle chip region contents after.flash := by
  unfold verifyError
  cases pof.pcallbackFlash with
  | none => exact idle
  | some pcallbackFlash =>
      refine (readFlash_idle idle).andThen ?_
      rintro b read ⟨idle, -, -⟩
      refine deliver_ensures.andThen ?_
      intro accepted reported same
      rw [← same] at idle
      cases accepted with
      | false => exact idle
      | true =>
          refine deliver_ensures.andThen ?_
          intro _ ended same
          rw [← same] at idle
          exact idle

/-- Where the verify loop gets to: the bytes before it are those of the data. -/
structure Verified (region : Region) (pba array : Memory) (locals : VerifyLocals) : Prop where
  left : Left region locals.dw locals.dwLen
  position : locals.dw.toNat = region.start + locals.dwSrc.toNat
  written : WrittenUpTo region pba array locals.dwSrc.toNat

theorem verifyLoop_ensures {pba : Memory} (describes : Describes pof chip region)
    (idle : Idle chip region contents state.flash) :
    (verifyLoop chip.bus fuel pof pba).Ensures state (Safe chip region contents)
      fun verified after => Idle chip region contents after.flash ∧
        (verified = true → WrittenUpTo region pba after.flash.array region.length) := by
  have fits := describes.fits
  refine Program.loop_ensures
    (fun _ locals current => Idle chip region contents current.flash ∧
      Verified region pba current.flash.array locals)
    (fun _ _ held => held.1.confined) ?_ ⟨idle, ?_⟩
  · rintro _ locals current ⟨idle, verified⟩
    have total := verified.left.left
    have position := verified.position
    unfold verifyPass
    split
    next finished =>
      refine ⟨idle, fun _ => ?_⟩
      have length : locals.dwSrc.toNat = region.length := by
        rw [finished] at total
        simp only [UInt32.toNat_zero] at total
        omega
      rw [← length]
      exact verified.written
    next more =>
      refine (readFlash_idle idle).andThen ?_
      rintro b read ⟨idle, same, value⟩
      split
      next differs =>
        refine (verifyError_ensures idle).andThen ?_
        intro _ reported idle
        exact ⟨idle, fun wrong => by cases wrong⟩
      next equal =>
        obtain ⟨lower, upper⟩ := verified.left.contains more
        have next : (locals.dwSrc + 1).toNat = locals.dwSrc.toNat + 1 := toNat_succ (by omega)
        refine ⟨idle, verified.left.advance more fits, ?_, ?_⟩
        · dsimp only
          rw [next, toNat_succ (by omega)]
          omega
        · dsimp only
          rw [next, same]
          intro i below
          rcases Nat.lt_succ_iff_lt_or_eq.mp below with earlier | last
          · exact verified.written i earlier
          · rw [last, ← position, ← value]
            exact not_not.mp equal
  · exact ⟨describes.left, describes.start, fun i below => absurd below (Nat.not_lt_zero i)⟩

/-- Programming keeps to the region, and when it succeeds the region holds the data. -/
theorem bootFlashProgram_ensures {pba : Memory} (describes : Describes pof chip region)
    (idle : Idle chip region contents state.flash) :
    (bootFlashProgram chip.bus fuel pof pba).Ensures state (Safe chip region contents)
      fun programmed after => Idle chip region contents after.flash ∧
        (programmed = true → WrittenUpTo region pba after.flash.array region.length) := by
  refine setErrorInfo_ensures.andThen ?_
  intro _ cleared same
  rw [← same] at idle
  refine deliver_ensures.andThen ?_
  intro accepted started same
  rw [← same] at idle
  cases accepted with
  | false => exact ⟨idle, fun wrong => by cases wrong⟩
  | true =>
      refine (programLoop_ensures describes idle).andThen ?_
      intro programmed looped idle
      cases programmed with
      | false => exact ⟨idle, fun wrong => by cases wrong⟩
      | true =>
          refine deliver_ensures.andThen ?_
          intro accepted ended same
          rw [← same] at idle
          cases accepted with
          | false => exact ⟨idle, fun wrong => by cases wrong⟩
          | true =>
              refine deliver_ensures.andThen ?_
              intro accepted verifying same
              rw [← same] at idle
              cases accepted with
              | false => exact ⟨idle, fun wrong => by cases wrong⟩
              | true =>
                  refine (verifyLoop_ensures describes idle).andThen ?_
                  rintro verified compared ⟨idle, written⟩
                  cases verified with
                  | false => exact ⟨idle, fun wrong => by cases wrong⟩
                  | true =>
                      refine deliver_ensures.mono (fun _ held => held) ?_
                      intro _ after same
                      rw [same]
                      exact ⟨idle, fun _ => written rfl⟩

end Object

end Cromwell.Flash
