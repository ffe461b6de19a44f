import Cromwell.Xcodes.XDecode

/-!
# From the macros to the decompiler and back

A decompiled call is assembled to the same record unless it is a jump whose distance, taken
modulo 2^32, is no multiple of a record's length any more. The decompiler prints the records
of an image up to the first end marker.
-/

namespace Cromwell.Xcodes

open Cromwell.Std

/-! ## Calls -/

/-- The line printed for what a call is assembled to is assembled to the same bytes. -/
def Macro.RoundTrips (call : Macro) : Prop :=
  assemble (xcodeLine call.record) = some call.record.bytes

/-- The call is no jump, or one forward over no more records than 32 bits count bytes of. -/
def Macro.Forward : Macro → Prop
  | ifgoto _ target => 1 ≤ target.toNat ∧ target.toNat ≤ 477218589
  | goto target => 1 ≤ target.toNat ∧ target.toNat ≤ 477218589
  | _ => True

instance (call : Macro) : Decidable call.Forward := by
  unfold Macro.Forward
  split <;> infer_instance

theorem roundTrips_iff_reassembled {call : Macro} :
    call.RoundTrips ↔ reassembled call.record = some call.record := by
  unfold Macro.RoundTrips
  rw [assemble_xcodeLine]
  cases reassembled call.record with
  | none => simp
  | some code =>
      simp only [Option.map_some, Option.some.injEq]
      exact ⟨Xcode.bytes_injective, congrArg Xcode.bytes⟩

/-- Nine times a number is still a multiple of nine modulo 2^32 if nothing of it was lost:
2^32 is prime to nine, and what is lost are fewer than nine times 2^32. -/
theorem multiple_iff {records : Nat} (bound : records < 4294967296) :
    9 * (9 * records % 4294967296 / 9) = 9 * records % 4294967296 ↔
      9 * records < 4294967296 := by
  have whole : 9 * records % 4294967296 + 4294967296 * (9 * records / 4294967296) =
      9 * records := Nat.mod_add_div _ _
  constructor
  · intro multiple
    have total : 9 ∣ 9 * records % 4294967296 + 4294967296 * (9 * records / 4294967296) := by
      rw [whole]
      exact Nat.dvd_mul_right 9 records
    have lost : 9 ∣ 4294967296 * (9 * records / 4294967296) :=
      (Nat.dvd_add_right ⟨_, multiple.symm⟩).mp total
    have few : 9 * records / 4294967296 < 9 := by
      refine Nat.div_lt_of_lt_mul ?_
      rw [Nat.mul_comm]
      exact Nat.mul_lt_mul_of_pos_right bound (by decide)
    exact Nat.lt_of_div_eq_zero (by decide)
      (Nat.eq_zero_of_dvd_of_lt (Nat.Coprime.dvd_of_dvd_mul_left (by decide) lost) few)
  · intro short
    rw [Nat.mod_eq_of_lt short, Nat.mul_div_cancel_left records (by decide)]

/-- The division gives the distance back exactly if nothing of it was lost. -/
theorem distance_iff (target : UInt32) :
    9 * (9 * (target - 1) / 9 + 1 - 1) = 9 * (target - 1) ↔
      1 ≤ target.toNat ∧ target.toNat ≤ 477218589 := by
  have bound := target.toNat_lt
  have one : (1 : UInt32).toNat = 1 := rfl
  have nine : (9 : UInt32).toNat = 9 := rfl
  have back (quotient : UInt32) : quotient + 1 - 1 = quotient := UInt32.add_sub_cancel quotient 1
  have before : (target - 1).toNat = (4294967295 + target.toNat) % 4294967296 := by
    rw [UInt32.toNat_sub, one]
  have distance : (9 * (target - 1)).toNat = 9 * (target - 1).toNat % 4294967296 := by
    rw [UInt32.toNat_mul, nine]
  have small : 9 * ((9 * (target - 1)).toNat / 9) % 4294967296 =
      9 * ((9 * (target - 1)).toNat / 9) :=
    Nat.mod_eq_of_lt (Nat.lt_of_le_of_lt (Nat.mul_div_le _ _) (UInt32.toNat_lt _))
  rw [back, ← UInt32.toNat_inj, UInt32.toNat_mul, UInt32.toNat_div, nine, small, distance,
    multiple_iff (UInt32.toNat_lt _), before]
  rcases Nat.eq_zero_or_pos target.toNat with zero | positive
  · rw [zero]
    decide
  · have shifted : (4294967295 + target.toNat) % 4294967296 = target.toNat - 1 := by omega
    rw [shifted]
    omega

/-- Jumps aside, every call comes back. -/
theorem roundTrips_iff (call : Macro) : call.RoundTrips ↔ call.Forward := by
  rw [roundTrips_iff_reassembled]
  cases call with
  | ifgoto val1 target =>
      refine Iff.trans ?_ (distance_iff target)
      change some (xcodeIfgoto val1 (9 * (target - 1) / 9 + 1)) = some (xcodeIfgoto val1 target) ↔ _
      simp [xcodeIfgoto]
  | goto target =>
      refine Iff.trans ?_ (distance_iff target)
      change some (xcodeGoto (9 * (target - 1) / 9 + 1)) = some (xcodeGoto target) ↔ _
      simp [xcodeGoto]
  | _ => exact ⟨fun _ => trivial, fun _ => rfl⟩

/-! ## The loop -/

/-- The record of that number in an image. -/
def imageXcode (image : List Byte) (xcodeIndex : Nat) : Xcode :=
  xcodeAt (fun i => image.getD (xcodeStartOffset + i) 0) xcodeIndex

/-- A record that is in the image as a whole, and in reach, is read. -/
theorem xcodeAt_segment {image : List Byte} {allocated : Memory} {xcodeIndex : Nat}
    (reached : xcodeIndex < maxXcodes)
    (whole : xcodeStartOffset + xcodeLength * (xcodeIndex + 1) ≤ image.length) :
    xcodeAt (xcodeSegment image allocated) xcodeIndex = imageXcode image xcodeIndex := by
  unfold maxXcodes at reached
  unfold xcodeStartOffset xcodeLength at whole
  have byte (i : Nat) (inside : i < 9) :
      xcodeSegment image allocated (xcodeLength * xcodeIndex + i) =
        image.getD (xcodeStartOffset + (xcodeLength * xcodeIndex + i)) 0 := by
    have short : xcodeLength * xcodeIndex + i < maxXcodes * xcodeLength := by
      unfold xcodeLength maxXcodes
      omega
    have present : xcodeStartOffset + (xcodeLength * xcodeIndex + i) < image.length := by
      unfold xcodeStartOffset xcodeLength
      omega
    unfold xcodeSegment
    rw [if_pos short, List.getD_eq_getElem _ _ present, List.getD_eq_getElem _ _ present]
  have word (i : Nat) (inside : i + 4 ≤ 9) :
      (xcodeSegment image allocated).dword (xcodeLength * xcodeIndex + i) =
        Memory.dword (fun i => image.getD (xcodeStartOffset + i) 0)
          (xcodeLength * xcodeIndex + i) :=
    Memory.dword_congr fun k bound => by
      rw [Nat.add_assoc]
      exact byte (i + k) (by omega)
  unfold imageXcode xcodeAt
  rw [word 1 (by decide), word 5 (by decide)]
  congr 1
  exact byte 0 (by decide)

/-- The loop prints the records up to the first end marker. -/
theorem decompile_prints {insertOverflowTrick : Bool} {segment : Memory}
    {more count xcodeIndex : Nat} (reached : more < count)
    (marker : (xcodeAt segment (xcodeIndex + more)).op = 0xEE)
    (before : ∀ i < more, (xcodeAt segment (xcodeIndex + i)).op ≠ 0xEE) :
    decompile insertOverflowTrick segment count xcodeIndex =
      ((List.range more).map (fun i => xcodeLine (xcodeAt segment (xcodeIndex + i))) ++
        (if insertOverflowTrick then overflowTrick else []) ++
        [xcodeLine (xcodeAt segment (xcodeIndex + more))], 0) := by
  induction more generalizing count xcodeIndex with
  | zero =>
      obtain ⟨count, rfl⟩ := Nat.exists_eq_succ_of_ne_zero (Nat.ne_of_gt reached)
      rw [Nat.add_zero] at marker ⊢
      rw [decompile]
      dsimp only
      rw [if_pos marker]
      rfl
  | succ more ih =>
      obtain ⟨count, rfl⟩ :=
        Nat.exists_eq_succ_of_ne_zero (Nat.ne_of_gt (Nat.zero_lt_of_lt reached))
      have next (i : Nat) : xcodeIndex + (i + 1) = xcodeIndex + 1 + i := by omega
      have notYet : (xcodeAt segment xcodeIndex).op ≠ 0xEE := before 0 (Nat.succ_pos more)
      rw [next] at marker ⊢
      have rest := ih (Nat.lt_of_succ_lt_succ reached) marker fun i earlier => by
        rw [← next]
        exact before (i + 1) (Nat.succ_lt_succ earlier)
      have shifted : (fun i => xcodeLine (xcodeAt segment (xcodeIndex + i))) ∘ Nat.succ =
          fun i => xcodeLine (xcodeAt segment (xcodeIndex + 1 + i)) :=
        funext fun i => congrArg (fun i => xcodeLine (xcodeAt segment i)) (next i)
      rw [decompile]
      dsimp only
      rw [if_neg notYet, rest, List.range_succ_eq_map, List.map_cons, List.map_map, shifted]
      rfl

/-- A call comes back from the decompiler exactly if it is no jump backwards or out of reach,
and of an image the records up to the first end marker are printed. -/
theorem xdecode_roundTrips (call : Macro) :
    (call.RoundTrips ↔ call.Forward) ∧
      ∀ (insertOverflowTrick : Bool) (image : List Byte) (allocated : Memory) (last : Nat),
        last < maxXcodes → xcodeStartOffset + xcodeLength * (last + 1) ≤ image.length →
        (imageXcode image last).op = 0xEE → (∀ i < last, (imageXcode image i).op ≠ 0xEE) →
          processXcodes insertOverflowTrick image allocated =
            ((List.range last).map (fun i => xcodeLine (imageXcode image i)) ++
              (if insertOverflowTrick then overflowTrick else []) ++
              [xcodeLine (imageXcode image last)], 0) := by
  refine ⟨roundTrips_iff call, fun insertOverflowTrick image allocated last reached whole marker
    before => ?_⟩
  have read (i : Nat) (inside : i ≤ last) :
      xcodeAt (xcodeSegment image allocated) (0 + i) = imageXcode image i := by
    rw [Nat.zero_add]
    refine xcodeAt_segment (Nat.lt_of_le_of_lt inside reached) (Nat.le_trans ?_ whole)
    unfold xcodeLength
    omega
  rw [← read last le_rfl] at marker
  have printed : processXcodes insertOverflowTrick image allocated = _ :=
    decompile_prints reached marker fun i earlier => by
      rw [read i earlier.le]
      exact before i earlier
  have lines : (List.range last).map (fun i =>
      xcodeLine (xcodeAt (xcodeSegment image allocated) (0 + i))) =
        (List.range last).map fun i => xcodeLine (imageXcode image i) :=
    List.map_congr_left fun i member => by rw [read i (List.mem_range.mp member).le]
  rw [lines, read last le_rfl] at printed
  exact printed

/-- An image of a write to memory, a jump and the end record. -/
def smallImage : List Byte :=
  List.replicate 0x80 0 ++
    ((xcodePoke 0x10 0x5d).bytes ++ (xcodeGoto 11).bytes ++ (xcodeEnd 0x806).bytes)

theorem smallImage_records : imageXcode smallImage 0 = xcodePoke 0x10 0x5d ∧
    imageXcode smallImage 1 = xcodeGoto 11 ∧ imageXcode smallImage 2 = xcodeEnd 0x806 := by
  decide +kernel

/-- A jump forward comes back, and an image is printed record by record, with the trick before
its last one. -/
theorem xdecode_roundTrips_smallImage :
    (Macro.goto 11).RoundTrips ∧
      processXcodes true smallImage (fun _ => 0) =
        ([xcodeLine (xcodePoke 0x10 0x5d), xcodeLine (xcodeGoto 11)] ++ overflowTrick ++
          [xcodeLine (xcodeEnd 0x806)], 0) := by
  obtain ⟨jump, printed⟩ := xdecode_roundTrips (.goto 11)
  obtain ⟨poke, goto, marker⟩ := smallImage_records
  refine ⟨jump.mpr (by decide), ?_⟩
  have whole : xcodeStartOffset + xcodeLength * (2 + 1) ≤ smallImage.length := by
    decide +kernel
  have before : ∀ i < 2, (imageXcode smallImage i).op ≠ 0xEE := by
    intro i below
    match i with
    | 0 => simp [poke, xcodePoke]
    | 1 => simp [goto, xcodeGoto]
  rw [printed true smallImage _ 2 (by decide) whole (by rw [marker]; rfl) before]
  simp [List.range_succ, poke, goto, marker]

/-- A jump back by one record, as the wait for the bus has it, comes back as another jump. -/
theorem backward_lost : ¬∀ call : Macro, call.RoundTrips := by
  intro all
  exact absurd ((roundTrips_iff (.ifgoto 0x10 (-1))).mp (all _)) (by decide)

end Cromwell.Xcodes
