import Cromwell.Flash.Masked

/-!
# Flash success means written

Identification finds the IDs of the chip, whichever conventions it follows, and
so its length. From there on `BootReflashAndReset` is a loop around erasing and
programming. A 28xxx chip whose array begins with its manufacturer ID is driven as a
29xxx while it shows its IDs, and a region that reads as erased there may be reported
written and is not.
-/

namespace Cromwell.Flash

open Cromwell.Std

variable {chip : FlashChip} {region : Region} {contents : Memory}

/-! ## Identification -/

/-- Nothing that happens in identification is confined to less than nothing. -/
theorem InMode.confined {start device : FlashDevice} {mode : FlashMode}
    (held : InMode start mode device) (confined : Confined chip region contents start) :
    Confined chip region contents device where
  untouched address inside apart := by
    rw [held.array]
    exact confined.untouched address inside apart
  wholeChip issued := confined.wholeChip (held.issued ▸ issued)

/-- The object filled in has the length of the chip, if the chip is known, and its
conventions, if the contents do not hide them. -/
theorem bootFlashGetDescriptor_ensures {state : FlashState FlashDevice} {fuel : Nat}
    {pof : ObjectFlash} (unmasked : ¬chip.Masked state.flash.array)
    (idle : Idle chip region contents state.flash) :
    (bootFlashGetDescriptor chip.bus fuel pof aknownflashtypesDefault).Ensures state
      (Safe chip region contents) fun found after => Idle chip region contents after.flash ∧
        (found.1 = true → found.2.dwLengthInBytes.toNat = chip.lengthInBytes) ∧
        found.2.fDetectedUsing28xxxConventions = chip.is28xxx ∧
        found.2.dwStartOffset = pof.dwStartOffset ∧
        found.2.dwLengthUsedArea = pof.dwLengthUsedArea := by
  have array : chip.leftMode state.flash.array = .array := if_neg unmasked
  have conventions : decide (chip.SeenAs28xxx state.flash.array) = chip.is28xxx := by
    cases convention : chip.is28xxx with
    | false => simp [FlashChip.SeenAs28xxx, convention]
    | true =>
        have told : state.flash.array 0 ≠ chip.bManufacturerId :=
          fun same => unmasked ⟨convention, same⟩
        simp [FlashChip.SeenAs28xxx, convention, told]
  refine (bootFlashGetDescriptor_finds ⟨idle.array, rfl, rfl⟩).mono ?_ ?_
  · rintro cutOff ⟨-, mode, held⟩
    exact held.confined idle.confined
  · rintro found after ⟨held, described⟩
    rw [array] at held
    exact ⟨⟨held.confined idle.confined, held.mode⟩, described.chipLength,
      described.conventions.trans conventions, described.start, described.used⟩

/-! ## Reflashing -/

theorem reflashPass_ensures {state : FlashState FlashDevice} {fuel : Nat} {pof : ObjectFlash}
    {pbNewData : Memory} (describes : Describes pof chip region)
    (idle : Idle chip region contents state.flash) :
    (reflashPass chip.bus fuel pof pbNewData ()).Ensures state (Safe chip region contents)
      fun ended after => Idle chip region contents after.flash ∧ ended.Ends (fun _ => True)
        fun _ => WrittenUpTo region pbNewData after.flash.array region.length := by
  refine (bootFlashEraseMinimalRegion_ensures describes idle).andThen ?_
  intro erased after idle
  cases erased with
  | false => exact ⟨idle, trivial⟩
  | true =>
      refine (bootFlashProgram_ensures describes idle).andThen ?_
      rintro programmed after ⟨idle, written⟩
      cases programmed with
      | false => exact ⟨idle, trivial⟩
      | true => exact ⟨idle, written rfl⟩

/-- The way into the reflash loop is the only one that returns 0. -/
theorem bootReflashAndReset_ensures {state : FlashState FlashDevice} {fuel : Nat}
    {dwStartOffset dwLength : UInt32} {pbNewData : Memory}
    (unmasked : ¬chip.Masked state.flash.array)
    (start : region.start = dwStartOffset.toNat) (length : region.length = dwLength.toNat)
    (inside : region.start + region.length ≤ chip.lengthInBytes)
    (idle : Idle chip region contents state.flash) :
    (bootReflashAndReset chip.bus fuel pbNewData dwStartOffset dwLength).Ensures state
      (Safe chip region contents) fun result after => Idle chip region contents after.flash ∧
        (result = 0 → WrittenUpTo region pbNewData after.flash.array region.length) := by
  refine (bootFlashGetDescriptor_ensures unmasked idle).andThen ?_
  rintro ⟨known, pof⟩ identified ⟨idle, chipLength, conventions, offset, used⟩
  dsimp only at chipLength conventions offset used ⊢
  split
  · exact ⟨idle, nofun⟩
  next seen =>
    split
    · exact ⟨idle, nofun⟩
    · split
      · exact ⟨idle, nofun⟩
      · have chipLength := chipLength (by simpa using seen)
        have bounded := pof.dwLengthInBytes.toNat_lt
        have describes : Describes pof chip region := {
          start := by rw [offset, start]; rfl
          length := by rw [used, length]; rfl
          chipLength
          conventions
          fits := by omega }
        rw [Program.ensures_bind]
        refine Program.loop_ensures (fun _ _ current => Idle chip region contents current.flash)
          (fun _ _ held => held.confined) ?_ idle
        intro _ _ current idle
        refine (reflashPass_ensures describes idle).mono (fun _ held => held) ?_
        rintro ended after ⟨idle, written⟩
        cases ended with
        | next _ => exact idle
        | leave _ => exact ⟨idle, fun _ => written⟩

/-! ## The checks -/

section Checks

variable {start : FlashDevice} {state : FlashState FlashDevice} {fuel : Nat}
  {dwStartOffset dwLength : UInt32} {pbNewData : Memory}

/-- The object describes the region where the call comes to the loop. -/
theorem Describing.covers {pof : ObjectFlash}
    (described : Describing chip start (freshObject dwStartOffset dwLength) (true, pof))
    (first : region.start = dwStartOffset.toNat) (length : region.length = dwLength.toNat)
    (inside : region.start + region.length ≤ chip.lengthInBytes) : Covers pof region where
  start := by rw [described.start, first]; rfl
  length := by rw [described.used, length]; rfl
  fits := by
    have chipLength : pof.dwLengthInBytes.toNat = chip.lengthInBytes := described.chipLength rfl
    have bounded := pof.dwLengthInBytes.toNat_lt
    omega

/-- A chip that passes the checks, with a region inside it, comes to the loop. -/
theorem bootReflashAndReset_enters {cut : FlashState FlashDevice → Prop}
    {returned : Nat → FlashState FlashDevice → Prop} (accepted : chip.Accepted start.array)
    (held : InMode start .array state.flash)
    (inside : dwStartOffset.toNat + dwLength.toNat ≤ chip.lengthInBytes)
    (cutOff : ∀ after, Unidentified start fuel after → cut after)
    (reflashes : ∀ pof identified, InMode start (chip.leftMode start.array) identified.flash →
      Describing chip start (freshObject dwStartOffset dwLength) (true, pof) →
      (Program.loop (reflashPass chip.bus fuel pof pbNewData) fuel ()).Ensures identified cut
        fun _ after => returned 0 after) :
    (bootReflashAndReset chip.bus fuel pbNewData dwStartOffset dwLength).Ensures state cut
      returned := by
  refine ((bootFlashGetDescriptor_finds held).mono cutOff fun _ _ found => found).andThen ?_
  rintro ⟨known, pof⟩ identified ⟨held, described⟩
  obtain rfl : known = true := described.known.trans accepted.1
  have capable := (described.capable rfl).mpr accepted
  have length := described.chipLength rfl
  have bounded := pof.dwLengthInBytes.toNat_lt
  dsimp only at capable length ⊢
  have total : (dwStartOffset + dwLength).toNat = dwStartOffset.toNat + dwLength.toNat := by
    rw [UInt32.toNat_add]
    omega
  have roomy : ¬pof.dwLengthInBytes < dwStartOffset + dwLength := by
    rw [UInt32.lt_iff_toNat_lt, total, length]
    omega
  rw [if_neg (not_not.mpr rfl), if_neg (not_not.mpr capable), if_neg roomy, Program.ensures_bind]
  exact reflashes pof identified held described

/-- From a chip that does not pass the checks the call returns an error, and nothing is
written. -/
theorem bootReflashAndReset_rejected (rejected : ¬chip.Accepted start.array)
    (held : InMode start .array state.flash) :
    (bootReflashAndReset chip.bus fuel pbNewData dwStartOffset dwLength).Ensures state
      (Unidentified start fuel) fun result after =>
        result ≠ 0 ∧ InMode start (chip.leftMode start.array) after.flash := by
  refine (bootFlashGetDescriptor_finds held).andThen ?_
  rintro ⟨known, pof⟩ identified ⟨held, described⟩
  dsimp only
  cases known with
  | false => exact ⟨Nat.one_ne_zero, held⟩
  | true =>
      have incapable : ¬pof.fIsBelievedCapableOfWriteAndErase = true :=
        mt (described.capable rfl).mp rejected
      rw [if_neg (not_not.mpr rfl), if_pos incapable]
      exact ⟨Nat.succ_ne_zero 1, held⟩

/-- So does a further call, from the mode the first one leaves. -/
theorem bootReflashAndReset_again (rejected : ¬chip.Accepted start.array)
    (held : InMode start (chip.leftMode start.array) state.flash) :
    (bootReflashAndReset chip.bus fuel pbNewData dwStartOffset dwLength).Ensures state
      (fun _ => fuel < 33) fun result after =>
        result ≠ 0 ∧ ∃ mode, InMode start mode after.flash := by
  by_cases masked : chip.Masked start.array
  · have unknown : knownFlashType aknownflashtypesDefault chip.bManufacturerId chip.bDeviceId =
        none := by
      rw [← Option.not_isSome_iff_eq_none]
      exact fun known => rejected ⟨known, fun seen => absurd masked.2 seen.2⟩
    have left : chip.leftMode start.array = .ident := if_pos masked
    rw [left] at held
    refine (bootFlashGetDescriptor_again masked.1 unknown held).andThen ?_
    rintro ⟨known, pof⟩ identified ⟨rfl, held⟩
    exact ⟨Nat.one_ne_zero, held⟩
  · have left : chip.leftMode start.array = .array := if_neg masked
    rw [left] at held
    refine (bootReflashAndReset_rejected rejected held).mono (fun _ cutOff => cutOff.1) ?_
    rintro result after ⟨failed, held⟩
    exact ⟨failed, _, held⟩

end Checks

/-! ## A chip whose contents hide its conventions -/

section Masked

variable {start : FlashDevice} {state : FlashState FlashDevice} {fuel : Nat}
  {dwStartOffset dwLength : UInt32} {pbNewData : Memory}

/-- Identification leaves a chip of a known type showing its IDs, and there the region, which
is not empty, reads as erased. -/
structure FlashChip.Misread (chip : FlashChip) (contents : Memory) (region : Region) : Prop where
  masked : chip.Masked contents
  known : (knownFlashType aknownflashtypesDefault chip.bManufacturerId chip.bDeviceId).isSome
  nonempty : region.length ≠ 0
  erased : chip.ReadsErased region

/-- Nothing is written to a chip that shows its IDs, and 0 is returned for an empty region
only, or for one that reads as erased. -/
theorem bootReflashAndReset_shows (masked : chip.Masked start.array)
    (first : region.start = dwStartOffset.toNat) (length : region.length = dwLength.toNat)
    (inside : region.start + region.length ≤ chip.lengthInBytes)
    (sound : ¬chip.Misread start.array region) (held : InMode start .array state.flash) :
    (bootReflashAndReset chip.bus fuel pbNewData dwStartOffset dwLength).Ensures state
      (fun cutOff => ∃ mode, InMode start mode cutOff.flash) fun result after =>
        (∃ mode, InMode start mode after.flash) ∧ (result = 0 → region.length = 0) := by
  have left : chip.leftMode start.array = .ident := if_pos masked
  refine ((bootFlashGetDescriptor_finds held).mono (fun _ cutOff => cutOff.2)
    fun _ _ found => found).andThen ?_
  rintro ⟨known, pof⟩ identified ⟨shows, described⟩
  rw [left] at shows
  cases known with
  | false => exact ⟨⟨_, shows⟩, nofun⟩
  | true =>
      have undetected : pof.fDetectedUsing28xxxConventions = false :=
        described.conventions.trans (decide_eq_false fun seen => seen.2 masked.2)
      have other (nonempty : region.length ≠ 0) : ¬chip.ReadsErased region := fun erased =>
        sound ⟨masked, described.known.symm, nonempty, erased⟩
      dsimp only
      rw [if_neg (not_not.mpr rfl)]
      split
      · exact ⟨⟨_, shows⟩, nofun⟩
      split
      · exact ⟨⟨_, shows⟩, nofun⟩
      rw [Program.ensures_bind]
      refine Program.loop_ensures (fun _ _ current => Shows start current)
        (fun _ _ shows => ⟨_, shows⟩) ?_ shows
      intro _ _ current shows
      refine (reflashPass_shows masked.1 (described.covers first length inside) undetected other
        shows).mono (fun _ shows => ⟨_, shows⟩) ?_
      rintro ended after ⟨shows, ends⟩
      cases ended with
      | next _ => exact shows
      | leave _ => exact ⟨⟨_, shows⟩, fun _ => ends⟩

/-- Where the region reads as erased, the right status has 0 returned for a region that is
not written. -/
theorem bootReflashAndReset_misread {data : Byte} {cut : FlashState FlashDevice → Prop}
    (misread : chip.Misread start.array region)
    (setup : data = 0x20 ∨ data = 0x40) (status : ∀ count, chip.statusByte count = data)
    (first : region.start = dwStartOffset.toNat) (length : region.length = dwLength.toNat)
    (inside : region.start + region.length ≤ chip.lengthInBytes)
    (enough : region.length + 33 ≤ fuel) (held : InMode start .array state.flash) :
    (bootReflashAndReset chip.bus fuel (fun _ => data) dwStartOffset dwLength).Ensures state cut
      fun result after => result = 0 ∧ after.flash.array = start.array := by
  have accepted : chip.Accepted start.array :=
    ⟨misread.known, fun seen => absurd misread.masked.2 seen.2⟩
  have left : chip.leftMode start.array = .ident := if_pos misread.masked
  refine bootReflashAndReset_enters accepted held (by omega) ?_ ?_
  · rintro after ⟨few, -⟩
    omega
  · intro pof identified shows described
    rw [left] at shows
    have undetected : pof.fDetectedUsing28xxxConventions = false :=
      described.conventions.trans (decide_eq_false fun seen => seen.2 misread.masked.2)
    have covers := described.covers first length inside
    refine Program.loop_ensures (fun passes _ current => passes = fuel ∧ Shows start current)
      (fun _ _ wrong => by omega) ?_ ⟨rfl, shows⟩
    rintro _ _ current ⟨-, shows⟩
    refine (reflashPass_awaits misread.masked.1 setup status covers described.callback undetected
      misread.nonempty misread.erased (by omega) shows).mono (fun _ held => held) ?_
    rintro _ after ⟨rfl, mode, -, held⟩
    exact ⟨rfl, held.array⟩

end Masked

/-- A chip that passes the checks is written from the start on, if the call comes to an end:
every known type has room for a region of 256 Kbyte, and a manufacturer ID that does not read
as erased. -/
theorem bootReflashAndReset_accepted {state : FlashState FlashDevice} {fuel : Nat}
    {dwLength : UInt32} {pbNewData : Memory}
    (accepted : chip.Accepted state.flash.array) (normal : state.flash.mode = .array)
    (untouched : state.flash.issued = []) (nonempty : dwLength.toNat ≠ 0)
    (fits : dwLength.toNat ≤ 0x40000) :
    (bootReflashAndReset chip.bus fuel pbNewData 0 dwLength).Ensures state
      (fun _ => True) fun _ after => after.flash.mode = .array ∧
        ∀ i < dwLength.toNat, after.flash.array i = pbNewData i := by
  obtain ⟨entry, known⟩ := Option.isSome_iff_exists.mp accepted.1
  have room := (knownFlashType_length (Option.mem_def.mpr known)).1
  rw [chip.known_length entry (Option.mem_def.mpr known)] at room
  have inside : (0 : UInt32).toNat + dwLength.toNat ≤ chip.lengthInBytes := by
    rw [UInt32.toNat_zero]
    omega
  have success : (bootReflashAndReset chip.bus fuel pbNewData 0 dwLength).Ensures state
      (fun _ => True) fun result _ => result = 0 :=
    bootReflashAndReset_enters accepted ⟨normal, rfl, rfl⟩ inside (fun _ _ => trivial)
      fun _ _ _ _ => (Program.ensures_true _ _).mono (fun _ _ => trivial) fun _ _ _ => rfl
  by_cases masked : chip.Masked state.flash.array
  · have sound : ¬chip.Misread state.flash.array ⟨(0 : UInt32).toNat, dwLength.toNat⟩ := by
      intro misread
      have reads := misread.erased 0 (Nat.pos_of_ne_zero nonempty)
      exact knownFlashType_manufacturer (Option.mem_def.mpr known) reads
    refine (success.and (bootReflashAndReset_shows masked rfl rfl inside sound
      ⟨normal, rfl, rfl⟩)).mono (fun _ _ => trivial) ?_
    rintro result after ⟨zero, -, empty⟩
    exact absurd (empty zero) nonempty
  · have powered : Idle chip ⟨(0 : UInt32).toNat, dwLength.toNat⟩ state.flash.array
        state.flash := {
      confined := ⟨fun _ _ _ => rfl, fun issued => by rw [untouched] at issued; cases issued⟩
      array := normal }
    refine (success.and (bootReflashAndReset_ensures masked rfl rfl inside powered)).mono
      (fun _ _ => trivial) ?_
    rintro result after ⟨zero, idle, data⟩
    refine ⟨idle.array, fun i below => ?_⟩
    have written := data zero i below
    rwa [UInt32.toNat_zero, Nat.zero_add] at written

/-! ## Success means written -/

/-- When `BootReflashAndReset` returns 0 the region holds the data, and sectors that
do not meet the region are as they were. A chip erase is issued only when the
region is the whole chip, also in runs that do not come to an end. -/
def FlashChip.SuccessMeansWritten (chip : FlashChip) (contents pbNewData : Memory)
    (dwStartOffset dwLength : UInt32) (fuel : Nat) : Prop :=
  (bootReflashAndReset chip.bus fuel pbNewData dwStartOffset dwLength).Ensures
    (poweredUp contents)
    (fun cutOff => FlashCommand.chipErase ∈ cutOff.flash.issued →
      dwStartOffset.toNat = 0 ∧ dwLength.toNat = chip.lengthInBytes)
    (fun result after =>
      (FlashCommand.chipErase ∈ after.flash.issued →
        dwStartOffset.toNat = 0 ∧ dwLength.toNat = chip.lengthInBytes) ∧
      (result = 0 →
        (∀ i < dwLength.toNat, after.flash.array (dwStartOffset.toNat + i) = pbNewData i) ∧
        ∀ address < chip.lengthInBytes,
          (∀ i < dwLength.toNat,
            chip.sectorOf (dwStartOffset.toNat + i) ≠ chip.sectorOf address) →
          after.flash.array address = contents address))

section Success

variable {dwStartOffset dwLength : UInt32}

/-- The region of a call. -/
def callRegion (dwStartOffset dwLength : UInt32) : Region :=
  ⟨dwStartOffset.toNat, dwLength.toNat⟩

theorem successMeansWritten_unmasked {pbNewData : Memory} {fuel : Nat}
    (unmasked : ¬chip.Masked contents)
    (inside : dwStartOffset.toNat + dwLength.toNat ≤ chip.lengthInBytes) :
    chip.SuccessMeansWritten contents pbNewData dwStartOffset dwLength fuel := by
  have powered : Idle chip (callRegion dwStartOffset dwLength) contents
      (poweredUp contents).flash :=
    ⟨⟨fun _ _ _ => rfl, fun issued => by cases issued⟩, rfl⟩
  refine (bootReflashAndReset_ensures unmasked rfl rfl inside powered).mono ?_ ?_
  · intro cutOff confined
    exact confined.wholeChip
  · rintro result after ⟨idle, written⟩
    refine ⟨idle.confined.wholeChip, fun success => ⟨written success, ?_⟩⟩
    intro address within apart
    refine idle.confined.untouched address within ?_
    rintro ⟨x, ⟨lower, upper⟩, same⟩
    have position : dwStartOffset.toNat + (x - dwStartOffset.toNat) = x := Nat.add_sub_cancel' lower
    refine apart (x - dwStartOffset.toNat) ?_ ?_
    · dsimp only [callRegion] at lower upper
      omega
    · rw [position]
      exact same

/-- Of a chip that is not misread nothing is lost: the region is empty, or 0 is not
returned. -/
theorem successMeansWritten_masked {pbNewData : Memory} {fuel : Nat}
    (masked : chip.Masked contents)
    (inside : dwStartOffset.toNat + dwLength.toNat ≤ chip.lengthInBytes)
    (sound : ¬chip.Misread contents (callRegion dwStartOffset dwLength)) :
    chip.SuccessMeansWritten contents pbNewData dwStartOffset dwLength fuel := by
  have held : InMode (poweredUp contents).flash .array (poweredUp contents).flash :=
    ⟨rfl, rfl, rfl⟩
  have none {mode : FlashMode} {device : FlashDevice}
      (held : InMode (poweredUp contents).flash mode device) :
      FlashCommand.chipErase ∈ device.issued →
        dwStartOffset.toNat = 0 ∧ dwLength.toNat = chip.lengthInBytes := by
    intro issued
    rw [held.issued] at issued
    cases issued
  refine (bootReflashAndReset_shows masked rfl rfl inside sound held).mono ?_ ?_
  · rintro cutOff ⟨mode, held⟩
    exact none held
  · rintro result after ⟨⟨mode, held⟩, empty⟩
    refine ⟨none held, fun zero => ⟨fun i below => ?_, fun address _ _ => ?_⟩⟩
    · have length : dwLength.toNat = 0 := empty zero
      omega
    · rw [held.array]
      rfl

/-- A misread chip passes for written when its status is the data. -/
theorem not_successMeansWritten {data : Byte} {fuel : Nat}
    (misread : chip.Misread contents (callRegion dwStartOffset dwLength))
    (inside : dwStartOffset.toNat + dwLength.toNat ≤ chip.lengthInBytes)
    (setup : data = 0x20 ∨ data = 0x40) (status : ∀ count, chip.statusByte count = data)
    (other : contents dwStartOffset.toNat ≠ data) (enough : dwLength.toNat + 33 ≤ fuel) :
    ¬chip.SuccessMeansWritten contents (fun _ => data) dwStartOffset dwLength fuel := by
  intro written
  have held : InMode (poweredUp contents).flash .array (poweredUp contents).flash :=
    ⟨rfl, rfl, rfl⟩
  have lost : (bootReflashAndReset chip.bus fuel (fun _ => data) dwStartOffset dwLength).Ensures
      (poweredUp contents) (fun _ => False) fun result after =>
        result = 0 ∧ after.flash.array = contents :=
    bootReflashAndReset_misread misread setup status rfl rfl inside enough held
  refine other ((written.and lost).mono (fun _ wrong => wrong.2.elim) ?_).const
  rintro result after ⟨⟨-, kept⟩, zero, same⟩
  have first := (kept zero).1 0 (Nat.pos_of_ne_zero misread.nonempty)
  rwa [same, Nat.add_zero] at first

end Success

/-- Success means written, for every conduct of the chip and all data, exactly if the chip is
not misread. -/
theorem bootReflashAndReset_written_iff (chip : FlashChip) (contents : Memory)
    (dwStartOffset dwLength : UInt32)
    (inside : dwStartOffset.toNat + dwLength.toNat ≤ chip.lengthInBytes) :
    (∀ (conduct : FlashConduct) (pbNewData : Memory) (fuel : Nat),
      FlashChip.SuccessMeansWritten { chip with toFlashConduct := conduct } contents pbNewData
        dwStartOffset dwLength fuel) ↔
      ¬chip.Misread contents (callRegion dwStartOffset dwLength) := by
  constructor
  · intro written misread
    obtain ⟨data, setup, other⟩ : ∃ data : Byte, (data = 0x20 ∨ data = 0x40) ∧
        contents dwStartOffset.toNat ≠ data := by
      by_cases same : contents dwStartOffset.toNat = 0x20
      · exact ⟨0x40, .inr rfl, by rw [same]; decide⟩
      · exact ⟨0x20, .inl rfl, same⟩
    let conduct : FlashConduct := { chip.toFlashConduct with statusByte := fun _ => data }
    have again : FlashChip.Misread { chip with toFlashConduct := conduct } contents
        (callRegion dwStartOffset dwLength) :=
      ⟨misread.masked, misread.known, misread.nonempty, misread.erased⟩
    exact not_successMeansWritten again inside setup (fun _ => rfl) other
      (Nat.le_refl _) (written conduct _ _)
  · intro sound conduct pbNewData fuel
    by_cases masked : chip.Masked contents
    · refine successMeansWritten_masked masked inside fun misread => sound ?_
      exact ⟨misread.masked, misread.known, misread.nonempty, misread.erased⟩
    · exact successMeansWritten_unmasked masked inside

/-- A W49F020 with sectors of 4 Kbyte whose first command does nothing. -/
def w49f020 : FlashChip where
  bManufacturerId := 0xda
  bDeviceId := 0x8c
  lengthInBytes := 0x40000
  known_length := by decide
  sectorOf address := address / 0x1000
  is28xxx := false
  identByte _ := 0
  takesEffect count := count ≠ 0
  busyReads _ := 4
  busyToggle _ := false
  busyByte _ := 0
  statusByte _ := 0

/-- Two bytes between others are written although a command was lost. -/
theorem bootReflashAndReset_written_w49f020 :
    ∃ fuel after, bootReflashAndReset w49f020.bus fuel (fun i => if i = 0 then 0x12 else 0x34)
        0x2000 2 (poweredUp fun _ => 0) = .leave (0, after) ∧
      after.flash.array 0x2001 = 0x34 ∧ after.flash.array 0x1fff = 0 := by
  obtain ⟨fuel, returns⟩ : ∃ fuel, (bootReflashAndReset w49f020.bus fuel
      (fun i => if i = 0 then 0x12 else 0x34) 0x2000 2).result (poweredUp fun _ => 0) = some 0 :=
    ⟨20, by decide +kernel⟩
  have sound : ¬w49f020.Misread (fun _ => 0) (callRegion 0x2000 2) :=
    fun misread => Bool.false_ne_true misread.masked.1
  obtain ⟨after, run, -, success⟩ := ((bootReflashAndReset_written_iff w49f020 (fun _ => 0) 0x2000
    2 (by decide)).mpr sound w49f020.toFlashConduct (fun i => if i = 0 then 0x12 else 0x34)
      fuel).of_result returns
  obtain ⟨written, untouched⟩ := success rfl
  exact ⟨fuel, after, run, written 1 (by decide), untouched 0x1fff (by decide) (by decide)⟩

/-- A Sharp LHF08CH1 with sectors of 64 Kbyte that shows erased bytes behind its IDs. -/
def lhf08ch1 : FlashChip where
  bManufacturerId := 0x89
  bDeviceId := 0xa6
  lengthInBytes := 0x100000
  known_length := by decide
  sectorOf address := address / 0x10000
  is28xxx := true
  identByte _ := 0xff
  takesEffect _ := true
  busyReads _ := 0
  busyToggle _ := false
  busyByte _ := 0
  statusByte _ := 0x40

/-- Its array begins with its manufacturer ID, and a write of the third byte is lost. -/
theorem reflash_lost_lhf08ch1 :
    ¬lhf08ch1.SuccessMeansWritten (fun address => if address = 0 then 0x89 else 0)
      (fun _ => 0x40) 2 1 34 := by
  have erased : lhf08ch1.ReadsErased (callRegion 2 1) := by
    intro i below
    obtain rfl : i = 0 := Nat.lt_one_iff.mp below
    decide
  exact not_successMeansWritten ⟨⟨rfl, rfl⟩, by decide, by decide, erased⟩ (by decide)
    (.inr rfl) (fun _ => rfl) (by decide) (by decide)

end Cromwell.Flash
