import Cromwell.Std.Memory

/-!
# Copying forward in units

The library copies memory upward in double words and what is left of them. A unit is read
before it is written, so that a byte of the source is lost if an earlier unit has been
written over it. What each byte of the destination becomes is stated for any overlap.
-/

namespace Cromwell.Lib

open Cromwell.Std

/-- The units that `n` bytes are moved in. -/
def units (n : Nat) : List Extent :=
  (List.range (n / 4)).map (fun k => ⟨4 * k, 4⟩) ++
    ((if n / 2 % 2 = 1 then [⟨n / 4 * 4, 2⟩] else []) ++
      (if n % 2 = 1 then [⟨n / 2 * 2, 1⟩] else []))

/-- Move one unit. -/
def movs (dest src : Nat) (memory : Memory) (unit : Extent) : Memory :=
  memory.memcpy (dest + unit.start) memory (src + unit.start) unit.length

def memcpy (memory : Memory) (dest src n : Nat) : Memory := (units n).foldl (movs dest src) memory

/-- Where the unit of a byte starts. -/
def unitStart (n k : Nat) : Nat :=
  if k < n / 4 * 4 then k / 4 * 4 else if k < n / 2 * 2 then n / 4 * 4 else n / 2 * 2

/-- The byte is read from where an earlier unit has been written. -/
def Overwritten (dest src n k : Nat) : Prop := dest ≤ src + k ∧ src + k < dest + unitStart n k

instance (dest src n k : Nat) : Decidable (Overwritten dest src n k) :=
  inferInstanceAs (Decidable (_ ∧ _))

section Copy

variable {memory current : Memory} {dest src n moved length : Nat}

theorem unitStart_le (k : Nat) : unitStart n k ≤ k := by
  unfold unitStart
  split
  · omega
  · split <;> omega

/-- The first bytes have been moved: each is the byte that was read for it then. -/
structure Moved (memory : Memory) (dest src n moved : Nat) (current : Memory) : Prop where
  outside : ∀ x, x < dest ∨ dest + moved ≤ x → current x = memory x
  inside : ∀ k, k < moved → current (dest + k) =
    if Overwritten dest src n k then current (src + k) else memory (src + k)

theorem moved_zero : Moved memory dest src n 0 memory := ⟨fun _ _ => rfl, nofun⟩

/-- One more unit. -/
theorem Moved.next (done : Moved memory dest src n moved current)
    (unit : ∀ k, moved ≤ k → k < moved + length → unitStart n k = moved) :
    Moved memory dest src n (moved + length) (movs dest src current ⟨moved, length⟩) := by
  refine ⟨fun x beyond => ?_, fun k bound => ?_⟩
  · unfold movs
    rw [Memory.memcpy_outside _ _ (by dsimp only; omega)]
    exact done.outside x (by omega)
  · by_cases earlier : k < moved
    · have before := unitStart_le (n := n) k
      unfold movs
      rw [Memory.memcpy_outside _ _ (by dsimp only; omega), done.inside k earlier]
      by_cases overwritten : Overwritten dest src n k
      · have ⟨_, _⟩ := overwritten
        rw [if_pos overwritten, if_pos overwritten,
          Memory.memcpy_outside _ _ (by dsimp only; omega)]
      · rw [if_neg overwritten, if_neg overwritten]
    · have start := unit k (by omega) bound
      have place : src + moved + (dest + k - (dest + moved)) = src + k := by omega
      have read : movs dest src current ⟨moved, length⟩ (dest + k) = current (src + k) := by
        unfold movs
        rw [Memory.memcpy_inside _ _ (by dsimp only; omega) (by dsimp only; omega)]
        dsimp only
        rw [place]
      rw [read]
      by_cases overwritten : Overwritten dest src n k
      · have ⟨_, _⟩ := overwritten
        unfold movs
        rw [if_pos overwritten, Memory.memcpy_outside _ _ (by dsimp only; omega)]
      · rw [if_neg overwritten]
        refine done.outside (src + k) ?_
        rw [Overwritten, start] at overwritten
        omega

theorem moved_range (count : Nat) (bound : count ≤ n / 4) :
    Moved memory dest src n (4 * count)
      (((List.range count).map fun k => (⟨4 * k, 4⟩ : Extent)).foldl (movs dest src) memory) := by
  induction count with
  | zero => exact moved_zero
  | succ count ih =>
      rw [List.range_succ, List.map_append, List.foldl_append]
      refine (ih (by omega)).next fun k lower upper => ?_
      have inner : k < n / 4 * 4 := by omega
      rw [unitStart, if_pos inner]
      omega

/-- What is left of a double word is moved as a unit or not at all. -/
theorem Moved.rest {next : Nat} {used : Prop} [Decidable used]
    (done : Moved memory dest src n moved current)
    (used_iff : if used then next = moved + length else next = moved)
    (unit : used → ∀ k, moved ≤ k → k < moved + length → unitStart n k = moved) :
    Moved memory dest src n next
      ((if used then [(⟨moved, length⟩ : Extent)] else []).foldl (movs dest src) current) := by
  by_cases condition : used
  · rw [if_pos condition] at used_iff ⊢
    rw [used_iff]
    exact done.next (unit condition)
  · rw [if_neg condition] at used_iff ⊢
    rw [used_iff]
    exact done

/-- The copy moves all its bytes. -/
theorem memcpy_moved (memory : Memory) (dest src n : Nat) :
    Moved memory dest src n n (memcpy memory dest src n) := by
  unfold memcpy units
  rw [List.foldl_append, List.foldl_append]
  have quads : Moved memory dest src n (n / 4 * 4) (((List.range (n / 4)).map fun k =>
      (⟨4 * k, 4⟩ : Extent)).foldl (movs dest src) memory) := by
    rw [Nat.mul_comm]
    exact moved_range (n / 4) (Nat.le_refl _)
  generalize ((List.range (n / 4)).map _).foldl (movs dest src) memory = current at quads ⊢
  have words : Moved memory dest src n (n / 2 * 2)
      ((if n / 2 % 2 = 1 then [(⟨n / 4 * 4, 2⟩ : Extent)] else []).foldl (movs dest src)
        current) :=
    quads.rest (by split <;> omega) fun odd k lower upper => by
      have behind : ¬k < n / 4 * 4 := by omega
      have inner : k < n / 2 * 2 := by omega
      rw [unitStart, if_neg behind, if_pos inner]
  exact words.rest (by split <;> omega) fun odd k lower upper => by
    have behind : ¬k < n / 4 * 4 := by omega
    have last : ¬k < n / 2 * 2 := by omega
    rw [unitStart, if_neg behind, if_neg last]

theorem memcpy_outside {x : Nat} (outside : x < dest ∨ dest + n ≤ x) :
    memcpy memory dest src n x = memory x :=
  (memcpy_moved memory dest src n).outside x outside

/-- The first bytes are those that are wanted if and only if every one of them is read where
it is still wanted. -/
theorem memcpy_iff (wanted : Nat → Byte) (bound : length ≤ n) :
    (∀ k, k < length → memcpy memory dest src n (dest + k) = wanted k) ↔
      ∀ k, k < length → (if Overwritten dest src n k then wanted (src + k - dest)
        else memory (src + k)) = wanted k := by
  have done := memcpy_moved memory dest src n
  have earlier : ∀ k, k < length → Overwritten dest src n k →
      src + k = dest + (src + k - dest) ∧ src + k - dest < k := by
    rintro k _ ⟨lower, upper⟩
    have before := unitStart_le (n := n) k
    omega
  constructor
  · intro copied k inside
    have here := copied k inside
    rw [done.inside k (by omega)] at here
    by_cases overwritten : Overwritten dest src n k
    · obtain ⟨place, before⟩ := earlier k inside overwritten
      rw [if_pos overwritten] at here ⊢
      rw [place, copied _ (by omega)] at here
      exact here
    · rw [if_neg overwritten] at here ⊢
      exact here
  · intro read k
    induction k using Nat.strong_induction_on with
    | _ k ih =>
        intro inside
        have here := read k inside
        rw [done.inside k (by omega)]
        by_cases overwritten : Overwritten dest src n k
        · obtain ⟨place, before⟩ := earlier k inside overwritten
          rw [if_pos overwritten] at here ⊢
          rw [place, ih _ before (by omega)]
          exact here
        · rw [if_neg overwritten] at here ⊢
          exact here

/-- Memory that is copied to its own place stays as it is. -/
theorem memcpy_self (memory : Memory) (dest n : Nat) : memcpy memory dest dest n = memory := by
  funext x
  by_cases inside : dest ≤ x ∧ x < dest + n
  · have same : ∀ k, k < n → memcpy memory dest dest n (dest + k) = memory (dest + k) := by
      apply (memcpy_iff (fun k => memory (dest + k)) (Nat.le_refl n)).mpr
      rintro k -
      have fresh : ¬Overwritten dest dest n k := by
        rintro ⟨-, upper⟩
        have before := unitStart_le (n := n) k
        omega
      rw [if_neg fresh]
    have place : dest + (x - dest) = x := by omega
    have copied := same (x - dest) (by omega)
    rwa [place] at copied
  · exact memcpy_outside (by omega)

end Copy

end Cromwell.Lib
