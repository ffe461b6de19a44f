import Cromwell.Flash.Retries
import Cromwell.Flash.Traces

/-!
# Bounded retries

In a region whose addresses do not wrap, `BootFlashEraseMinimalRegion` and
`BootFlashProgram` come to an end unless a polling loop does not, they make at most
four erase rounds in a 4K block and program a byte at most four times, and they never
go back to a lower address. In a region that wraps they do go back.
-/

namespace Cromwell.Flash

open Cromwell.Std Cromwell.Std.Program

section Functions

variable {σ : Type} {bus : FlashBus σ} {pof : ObjectFlash} {fuel : Nat}

/-- The end of the region. -/
def ObjectFlash.finish (pof : ObjectFlash) : Nat :=
  pof.dwStartOffset.toNat + pof.dwLengthUsedArea.toNat

/-- A loop over the region that has issued operations; the last one may not be complete. -/
def Issuing (rule : RetryRule) (pof : ObjectFlash) (cycles : List Cycle) : Prop :=
  ∃ operations,
    Kept pof.dwStartOffset.toNat pof.finish rule.group rule.kind operations (reads cycles) ∧
      writes cycles <+: operations.flatMap Operation.cycles

/-- A loop over the region that has completed what it issued. -/
def Issued (rule : RetryRule) (pof : ObjectFlash) (cycles : List Cycle) : Prop :=
  ∃ operations,
    Kept pof.dwStartOffset.toNat pof.finish rule.group rule.kind operations (reads cycles) ∧
      writes cycles = operations.flatMap Operation.cycles

theorem Issued.issuing {rule : RetryRule} {cycles : List Cycle}
    (issued : Issued rule pof cycles) : Issuing rule pof cycles := by
  obtain ⟨operations, kept, same⟩ := issued
  exact ⟨operations, kept, same ▸ List.prefix_rfl⟩

theorem issued_nil (rule : RetryRule) : Issued rule pof [] :=
  ⟨[], ⟨fun _ member => absurd member List.not_mem_nil,
    fun _ member => absurd member List.not_mem_nil, fun _ => Nat.zero_le 4, .nil, .nil⟩, rfl⟩

/-- A loop stands at the start of the region. -/
theorem progressed_start (rule : RetryRule) (pof : ObjectFlash) {counter : RetryCounter Nat}
    (live : counter.Live 4) :
    rule.Progressed pof.dwStartOffset.toNat pof.finish pof.dwStartOffset.toNat
      { dw := pof.dwStartOffset, dwLen := pof.dwLengthUsedArea, counter } [] [] where
  left := rfl
  lower := Nat.le_refl _
  dw _ := rfl
  passed _ member := absurd member List.not_mem_nil
  counts := RetryCounter.Counts.start live _
  ofKind _ member := absurd member List.not_mem_nil
  inside _ member := absurd member List.not_mem_nil
  rising := List.Pairwise.nil

theorem live_four (place : Nat) : (⟨place, 4⟩ : RetryCounter Nat).Live 4 :=
  ⟨Int.natCast_pos.mpr (by decide), Int.le_refl 4⟩

theorem setErrorInfo_silent {cut : List Cycle → Prop} (text : String) :
    Emits FlashState.cycles (setErrorInfo (σ := σ × List Cycle) text) cut
      fun _ emitted => emitted = [] :=
  Emits.unchanged (fun _ => rfl) fun _ => rfl

theorem deliver_silent {cut : List Cycle → Prop} (ee : EnumEvents) (dwPos dwExtent : UInt32) :
    Emits FlashState.cycles (deliver (σ := σ × List Cycle) pof ee dwPos dwExtent) cut
      fun _ emitted => emitted = [] := by
  unfold deliver
  cases pof.pcallbackFlash with
  | none => exact Emits.pure rfl
  | some _ => exact Emits.unchanged (fun _ => rfl) fun _ => rfl

theorem eraseLoop_emits (bounded : pof.finish ≤ 2 ^ 32) :
    Emits FlashState.cycles (eraseLoop bus.traced fuel pof) (Issuing eraseRule pof)
      fun _ => Issued eraseRule pof :=
  erasePass_follows.emits bounded (progressed_start eraseRule pof (live_four 0xffffffff)) fuel

theorem programLoop_emits (bounded : pof.finish ≤ 2 ^ 32) (pba : Memory) :
    Emits FlashState.cycles (programLoop bus.traced fuel pof pba) (Issuing programRule pof)
      fun _ => Issued programRule pof :=
  (programPass_follows pba).emits bounded (progressed_start programRule pof (live_four 0xffffffff))
    fuel

theorem verifyLoop_emits (bounded : pof.finish ≤ 2 ^ 32) (pba : Memory) :
    Emits FlashState.cycles (verifyLoop bus.traced fuel pof pba) (Issuing verifyRule pof)
      fun _ => Issued verifyRule pof :=
  (verifyPass_follows pba).emits bounded (progressed_start verifyRule pof (live_four 0)) fuel

/-- `BootFlashEraseMinimalRegion` in a region that does not wrap. -/
theorem bootFlashEraseMinimalRegion_emits (bounded : pof.finish ≤ 2 ^ 32) :
    Emits FlashState.cycles (bootFlashEraseMinimalRegion bus.traced fuel pof)
      (Issuing eraseRule pof) fun _ => Issued eraseRule pof := by
  refine Emits.silently (setErrorInfo_silent "") fun _ =>
    Emits.silently (deliver_silent _ _ _) fun accepted => ?_
  cases accepted with
  | false =>
      exact Emits.silently (setErrorInfo_silent _) fun _ => Emits.pure (issued_nil eraseRule)
  | true =>
      refine Emits.andThen (eraseLoop_emits bounded) ?_
      intro erased cycles issued
      have kept : Issued eraseRule pof (cycles ++ []) := (List.append_nil cycles).symm ▸ issued
      cases erased with
      | true =>
          refine Emits.mono (deliver_silent _ _ _) (fun _ held => held) ?_
          rintro _ _ rfl
          exact kept
      | false => exact Emits.pure kept

/-- A program loop, and a verify loop behind it that writes nothing. -/
def Programming (programmed : List Cycle → Prop) (cycles : List Cycle) : Prop :=
  ∃ working verifying, cycles = working ++ verifying ∧ programmed working ∧
    writes verifying = [] ∧ (reads verifying).Pairwise (· ≤ ·)

theorem Issuing.verifying {programmed : List Cycle → Prop} {working verifying : List Cycle}
    (done : programmed working) (verified : Issuing verifyRule pof verifying) :
    Programming programmed (working ++ verifying) := by
  obtain ⟨operations, kept, front⟩ := verified
  have none : operations = [] := List.eq_nil_iff_forall_not_mem.mpr kept.ofKind
  refine ⟨working, verifying, rfl, done, ?_, kept.rising⟩
  rw [none] at front
  exact List.prefix_nil.mp front

theorem Programming.working {programmed : List Cycle → Prop} {working : List Cycle}
    (done : programmed working) : Programming programmed working :=
  ⟨working, [], (List.append_nil working).symm, done, rfl, .nil⟩

theorem Programming.mono {programmed programmed' : List Cycle → Prop} {cycles : List Cycle}
    (weaker : ∀ cycles, programmed cycles → programmed' cycles)
    (programming : Programming programmed cycles) : Programming programmed' cycles := by
  obtain ⟨working, verifying, same, done, rest⟩ := programming
  exact ⟨working, verifying, same, weaker working done, rest⟩

theorem bootFlashVerify_emits (bounded : pof.finish ≤ 2 ^ 32) (pba : Memory) :
    Emits FlashState.cycles (bootFlashVerify bus.traced fuel pof pba) (Issuing verifyRule pof)
      fun _ => Issuing verifyRule pof := by
  refine Emits.silently (deliver_silent _ _ _) fun accepted => ?_
  cases accepted with
  | false => exact Emits.pure (issued_nil verifyRule).issuing
  | true =>
      refine Emits.andThen (verifyLoop_emits bounded pba) ?_
      intro verified cycles issued
      have kept : Issuing verifyRule pof (cycles ++ []) :=
        (List.append_nil cycles).symm ▸ issued.issuing
      cases verified with
      | true =>
          refine Emits.mono (deliver_silent _ _ _) (fun _ held => held) ?_
          rintro _ _ rfl
          exact kept
      | false => exact Emits.pure kept

/-- `BootFlashProgram` in a region that does not wrap. -/
theorem bootFlashProgram_emits (bounded : pof.finish ≤ 2 ^ 32) (pba : Memory) :
    Emits FlashState.cycles (bootFlashProgram bus.traced fuel pof pba)
      (Programming (Issuing programRule pof))
      fun _ => Programming (Issued programRule pof) := by
  refine Emits.silently (setErrorInfo_silent "") fun _ =>
    Emits.silently (deliver_silent _ _ _) fun accepted => ?_
  cases accepted with
  | false =>
      exact Emits.silently (setErrorInfo_silent _) fun _ =>
        Emits.pure (.working (issued_nil programRule))
  | true =>
      refine Emits.andThen (Emits.mono (programLoop_emits bounded pba)
        (fun _ issuing => .working issuing) fun _ _ held => held) ?_
      intro programmed cycles issued
      have kept : Programming (Issued programRule pof) (cycles ++ []) :=
        (List.append_nil cycles).symm ▸ .working issued
      cases programmed with
      | false => exact Emits.pure kept
      | true =>
          refine Emits.andThen (deliver_silent _ _ _) ?_
          rintro answer _ rfl
          cases answer with
          | false => exact Emits.pure kept
          | true =>
              refine Emits.mono (bootFlashVerify_emits bounded pba) ?_ ?_
              · exact fun verifying verified => verified.verifying issued.issuing
              · exact fun _ verifying verified => verified.verifying issued

/-- The loops need no more passes than their bytes and tries. -/
theorem passes_start (rule : RetryRule) (place : Nat)
    (enough : 6 * pof.dwLengthUsedArea.toNat + 5 < fuel) :
    rule.passes { dw := pof.dwStartOffset, dwLen := pof.dwLengthUsedArea, counter := ⟨place, 4⟩ } <
      fuel := by
  have tries : (⟨place, 4⟩ : RetryCounter Nat).tries rule.group 4 pof.dwStartOffset.toNat ≤ 4 + 1 :=
    (live_four place).tries_le _
  unfold RetryRule.passes
  dsimp only
  omega

theorem deliver_waits (ee : EnumEvents) (dwPos dwExtent : UInt32) :
    Waits fuel (deliver (σ := σ × List Cycle) pof ee dwPos dwExtent) :=
  .of_returns (deliver_returns ee dwPos dwExtent)

theorem setErrorInfo_waits (text : String) :
    Waits fuel (setErrorInfo (σ := σ × List Cycle) text) :=
  .of_returns (setErrorInfo_returns text)

theorem bootFlashEraseMinimalRegion_waits
    (enough : 6 * pof.dwLengthUsedArea.toNat + 5 < fuel) :
    Waits fuel (bootFlashEraseMinimalRegion bus.traced fuel pof) := by
  refine (setErrorInfo_waits "").bind fun _ => (deliver_waits _ _ _).bind fun accepted => ?_
  cases accepted with
  | false => exact (setErrorInfo_waits _).bind fun _ => .of_returns (.pure _)
  | true =>
      refine Waits.bind (erasePass_follows.waits erasePass_waits (live_four 0xffffffff)
        (passes_start eraseRule 0xffffffff enough)) fun erased => ?_
      cases erased with
      | true => exact deliver_waits _ _ _
      | false => exact .of_returns (.pure _)

theorem bootFlashVerify_waits (pba : Memory)
    (enough : 6 * pof.dwLengthUsedArea.toNat + 5 < fuel) :
    Waits fuel (bootFlashVerify bus.traced fuel pof pba) := by
  refine (deliver_waits _ _ _).bind fun accepted => ?_
  cases accepted with
  | false => exact .of_returns (.pure _)
  | true =>
      refine Waits.bind ((verifyPass_follows pba).waits
        (fun locals => .of_returns (verifyPass_returns pba locals)) (live_four 0)
        (passes_start verifyRule 0 enough)) fun verified => ?_
      cases verified with
      | true => exact deliver_waits _ _ _
      | false => exact .of_returns (.pure _)

theorem bootFlashProgram_waits (pba : Memory)
    (enough : 6 * pof.dwLengthUsedArea.toNat + 5 < fuel) :
    Waits fuel (bootFlashProgram bus.traced fuel pof pba) := by
  refine (setErrorInfo_waits "").bind fun _ => (deliver_waits _ _ _).bind fun accepted => ?_
  cases accepted with
  | false => exact (setErrorInfo_waits _).bind fun _ => .of_returns (.pure _)
  | true =>
      refine Waits.bind ((programPass_follows pba).waits (programPass_waits pba)
        (live_four 0xffffffff) (passes_start programRule 0xffffffff enough)) fun programmed => ?_
      cases programmed with
      | false => exact .of_returns (.pure _)
      | true =>
          refine (deliver_waits _ _ _).bind fun answer => ?_
          cases answer with
          | true => exact bootFlashVerify_waits pba enough
          | false => exact .of_returns (.pure _)

/-! ## The bounds -/

/-- At most four operations in a group, and no step back. -/
def Tried (group : Nat → Nat) (kind : Operation → Prop) (cycles : List Cycle) : Prop :=
  ∃ operations : List Operation, writes cycles <+: operations.flatMap Operation.cycles ∧
    (∀ operation ∈ operations, kind operation) ∧
    (∀ g, (operations.countP fun operation => group operation.address = g) ≤ 4) ∧
    (operations.map Operation.address).Pairwise (· ≤ ·) ∧ (reads cycles).Pairwise (· ≤ ·)

theorem Issuing.tried {rule : RetryRule} {cycles : List Cycle} (issuing : Issuing rule pof cycles) :
    Tried rule.group rule.kind cycles := by
  obtain ⟨operations, kept, front⟩ := issuing
  exact ⟨operations, front, kept.ofKind, kept.few, kept.ordered, kept.rising⟩

/-- An empty record in front of the flash. -/
def FlashState.recording (state : FlashState σ) : FlashState (σ × List Cycle) :=
  { state with flash := (state.flash, []) }

/-- What a step has recorded of its own. -/
theorem ensures_recording {α : Type} {step : Driver (σ × List Cycle) α}
    {cut : List Cycle → Prop} {returned : α → List Cycle → Prop}
    (emits : Emits FlashState.cycles step cut returned) (state : FlashState σ) :
    step.Ensures state.recording (fun cutOff => cut cutOff.cycles)
      fun result after => returned result after.cycles := by
  refine (emits state.recording).mono ?_ ?_
  · rintro cutOff ⟨emitted, same, held⟩
    exact same.symm ▸ held
  · rintro result after ⟨emitted, same, held⟩
    exact same.symm ▸ held

/-- The runs of both functions come to an end or wait in a polling loop, and keep to the
bounds until then. -/
structure RetriesBounded (bus : FlashBus σ) (pof : ObjectFlash) (pba : Memory)
    (state : FlashState σ) (fuel : Nat) : Prop where
  erase : (bootFlashEraseMinimalRegion bus.traced fuel pof).Ensures state.recording
    (fun cutOff => StuckPolling fuel cutOff.cycles ∧
      Tried (fun address => address / 0x1000) (·.isErase) cutOff.cycles)
    fun _ after => Tried (fun address => address / 0x1000) (·.isErase) after.cycles
  program : (bootFlashProgram bus.traced fuel pof pba).Ensures state.recording
    (fun cutOff => StuckPolling fuel cutOff.cycles ∧
      Programming (Tried id (!·.isErase)) cutOff.cycles)
    fun _ after => Programming (Tried id (!·.isErase)) after.cycles

theorem retriesBounded (bus : FlashBus σ) (bounded : pof.finish ≤ 2 ^ 32) (pba : Memory)
    (state : FlashState σ) (enough : 6 * pof.dwLengthUsedArea.toNat + 5 < fuel) :
    RetriesBounded bus pof pba state fuel where
  erase := by
    refine ((bootFlashEraseMinimalRegion_waits enough state.recording).and
      (ensures_recording (bootFlashEraseMinimalRegion_emits bounded) state)).mono ?_ ?_
    · rintro cutOff ⟨polling, issuing⟩
      exact ⟨polling, issuing.tried⟩
    · rintro _ after ⟨-, issued⟩
      exact issued.issuing.tried
  program := by
    refine ((bootFlashProgram_waits pba enough state.recording).and
      (ensures_recording (bootFlashProgram_emits bounded pba) state)).mono ?_ ?_
    · rintro cutOff ⟨polling, programming⟩
      exact ⟨polling, programming.mono fun _ issuing => issuing.tried⟩
    · rintro _ after ⟨-, programming⟩
      exact programming.mono fun _ issued => issued.issuing.tried

end Functions

/-! ## Regions that wrap -/

/-- A blank flash. -/
def blankBus : FlashBus Unit where
  read _ _ := (0xff, ())
  write _ _ _ := ()

/-- The first addresses of the region, in the order of the loops. -/
def addresses (pof : ObjectFlash) (count : Nat) : List Nat :=
  (List.range count).map fun i => (pof.dwStartOffset + UInt32.ofNat i).toNat

/-- Behind the top of the address space the loops go on at its bottom. -/
theorem addresses_fall {pof : ObjectFlash} (wraps : 2 ^ 32 < pof.finish) :
    ¬(addresses pof pof.dwLengthUsedArea.toNat).Pairwise (· ≤ ·) := by
  have start := pof.dwStartOffset.toNat_lt
  have length := pof.dwLengthUsedArea.toNat_lt
  unfold ObjectFlash.finish at wraps
  have bottom : (pof.dwStartOffset +
      UInt32.ofNat (2 ^ 32 - pof.dwStartOffset.toNat)).toNat = 0 := by
    rw [UInt32.toNat_add, UInt32.toNat_ofNat']
    omega
  have first : (pof.dwStartOffset + UInt32.ofNat 0).toNat = pof.dwStartOffset.toNat :=
    congrArg UInt32.toNat (UInt32.add_zero _)
  rw [addresses, List.pairwise_map, List.pairwise_iff_getElem]
  intro rising
  have falls := rising 0 (2 ^ 32 - pof.dwStartOffset.toNat) (by rw [List.length_range]; omega)
    (by rw [List.length_range]; omega) (by omega)
  rw [List.getElem_range, List.getElem_range, first, bottom] at falls
  omega

theorem addresses_succ (pof : ObjectFlash) (count : Nat) : addresses pof (count + 1) =
    addresses pof count ++ [(pof.dwStartOffset + UInt32.ofNat count).toNat] := by
  rw [addresses, List.range_succ, List.map_append]
  rfl

section Blank

variable {pof : ObjectFlash} {fuel : Nat} {state : FlashState (Unit × List Cycle)}
  {cut : FlashState (Unit × List Cycle) → Prop}

theorem readFlash_blank (dw : UInt32) :
    (readFlash blankBus.traced dw).Ensures state cut fun b after =>
      b = 0xff ∧ after.cycles = state.cycles ++ [.read dw.toNat] := ⟨rfl, rfl⟩

/-- Without a callback the work always goes on. -/
theorem deliver_unattended (unattended : pof.pcallbackFlash = none) (ee : EnumEvents)
    (dwPos dwExtent : UInt32) :
    (deliver pof ee dwPos dwExtent).Ensures state cut fun accepted after =>
      accepted = true ∧ after = state := by
  unfold deliver
  rw [unattended]
  exact ⟨rfl, rfl⟩

theorem eraseAdvance_unattended (unattended : pof.pcallbackFlash = none) (locals : EraseLocals) :
    (eraseAdvance pof locals).Ensures state cut fun ended after => after = state ∧
      ended = .next { locals with dw := locals.dw + 1, dwLen := locals.dwLen - 1 } := by
  unfold eraseAdvance deliverUpdate
  split
  · refine ensures_bind.mpr ((deliver_unattended unattended _ _ _).andThen ?_)
    rintro _ _ ⟨rfl, rfl⟩
    exact ⟨rfl, rfl⟩
  · exact ⟨rfl, rfl⟩

/-- On a blank flash the erase loop looks at every byte of the region once. -/
theorem eraseLoop_reads (unattended : pof.pcallbackFlash = none)
    (nothing : reads state.cycles = []) (enough : pof.dwLengthUsedArea.toNat < fuel) :
    (eraseLoop blankBus.traced fuel pof).Ensures state (fun _ => False) fun _ after =>
      reads after.cycles = addresses pof pof.dwLengthUsedArea.toNat := by
  refine loop_ensures (fun passes locals current => ∃ count,
    AtPosition pof count locals.dw locals.dwLen ∧ pof.dwLengthUsedArea.toNat < count + passes ∧
      reads current.cycles = addresses pof count) ?_ ?_ ⟨0, .start pof, by omega, nothing⟩
  · rintro locals current ⟨count, position, short, -⟩
    have left := position.left
    omega
  · rintro passes locals current ⟨count, position, short, seen⟩
    unfold erasePass
    split
    next finished => exact position.finished finished ▸ seen
    next more =>
      refine (readFlash_blank locals.dw).andThen ?_
      rintro b after ⟨blank, looked⟩
      rw [if_neg (not_not.mpr blank)]
      refine (eraseAdvance_unattended unattended locals).mono (fun _ held => held) ?_
      rintro ended last ⟨rfl, rfl⟩
      refine ⟨count + 1, position.next more, by omega, ?_⟩
      rw [looked, reads_append, seen, addresses_succ, position.dw]
      rfl

theorem bootFlashEraseMinimalRegion_reads (unattended : pof.pcallbackFlash = none)
    (nothing : reads state.cycles = []) (enough : pof.dwLengthUsedArea.toNat < fuel) :
    (bootFlashEraseMinimalRegion blankBus.traced fuel pof).Ensures state (fun _ => False)
      fun _ after => reads after.cycles = addresses pof pof.dwLengthUsedArea.toNat := by
  unfold bootFlashEraseMinimalRegion
  refine ensures_bind.mpr (ensures_update.mpr ?_)
  refine (deliver_unattended unattended _ _ _).andThen ?_
  rintro _ _ ⟨rfl, rfl⟩
  rw [if_pos rfl]
  refine (eraseLoop_reads unattended (by exact nothing) enough).andThen ?_
  intro erased after seen
  cases erased with
  | false => exact seen
  | true =>
      refine (deliver_unattended unattended _ _ _).mono (fun _ held => held) ?_
      rintro _ _ ⟨-, rfl⟩
      exact seen

end Blank

/-- In a region that wraps a blank flash is enough to break the bounds. -/
theorem not_retriesBounded {pof : ObjectFlash} (unattended : pof.pcallbackFlash = none)
    (wraps : 2 ^ 32 < pof.finish) (pba : Memory) (state : FlashState Unit) :
    ¬RetriesBounded blankBus pof pba state (6 * pof.dwLengthUsedArea.toNat + 6) := by
  rintro ⟨erase, -⟩
  have nothing : reads state.recording.cycles = [] := rfl
  have seen := bootFlashEraseMinimalRegion_reads unattended nothing
    (by omega : pof.dwLengthUsedArea.toNat < 6 * pof.dwLengthUsedArea.toNat + 6)
  obtain ⟨result, after, -, looked, operations, -, -, -, -, rising⟩ :=
    ((seen.and erase).mono (fun _ held => held.1) fun _ _ held => held).returns
  exact addresses_fall wraps (looked ▸ rising)

/-- A region for the functions, with nobody to report to. -/
def unattendedObject (dwStartOffset dwLength : UInt32) : ObjectFlash where
  bManufacturerId := 0
  bDeviceId := 0
  szFlashDescription := ""
  dwLengthInBytes := 0
  dwStartOffset := dwStartOffset
  dwLengthUsedArea := dwLength
  pcallbackFlash := none
  fDetectedUsing28xxxConventions := false
  fIsBelievedCapableOfWriteAndErase := true

/-- Retries are bounded on every flash exactly in the regions whose addresses do not wrap. -/
theorem flashRetries_bounded_iff (dwStartOffset dwLength : UInt32) :
    (∀ (σ : Type) (bus : FlashBus σ) (pof : ObjectFlash) (pba : Memory) (state : FlashState σ)
      (fuel : Nat), pof.dwStartOffset = dwStartOffset → pof.dwLengthUsedArea = dwLength →
        6 * dwLength.toNat + 5 < fuel → RetriesBounded bus pof pba state fuel) ↔
      dwStartOffset.toNat + dwLength.toNat ≤ 2 ^ 32 := by
  constructor
  · intro bounded
    by_contra beyond
    have wraps : 2 ^ 32 < (unattendedObject dwStartOffset dwLength).finish :=
      Nat.lt_of_not_le beyond
    exact not_retriesBounded rfl wraps (fun _ => 0) ⟨(), [], ""⟩
      (bounded Unit blankBus _ _ _ (6 * dwLength.toNat + 6) rfl rfl (by omega))
  · intro inside σ bus pof pba state fuel start length enough
    subst start length
    exact retriesBounded bus inside pba state enough

/-- Two bytes at the top of the address space. -/
theorem not_flashRetries_bounded : ¬∀ (σ : Type) (bus : FlashBus σ) (pof : ObjectFlash)
    (pba : Memory) (state : FlashState σ) (fuel : Nat),
      6 * pof.dwLengthUsedArea.toNat + 5 < fuel → RetriesBounded bus pof pba state fuel := by
  intro bounded
  have wraps : 2 ^ 32 < (unattendedObject 0xffffffff 2).finish := by decide
  exact not_retriesBounded rfl wraps (fun _ => 0) ⟨(), [], ""⟩
    (bounded Unit blankBus _ _ _ _ (Nat.lt_succ_self _))

end Cromwell.Flash
