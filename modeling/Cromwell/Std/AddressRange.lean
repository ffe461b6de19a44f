import Mathlib.Tactic.Ring

/-!
# Ranges of addresses that wrap around

An address has `w` bits, and what is added to it wraps around. Where a thing is laid down
at several offsets from one address, it lies in a range just if its first and its last
offset do, provided that the thing and the range together are smaller than the address space.
-/

namespace Cromwell.Std

/-- The `size` addresses from `first` on. -/
structure AddressRange (w : Nat) where
  first : BitVec w
  size : Nat

namespace AddressRange

variable {w : Nat} {range : AddressRange w} {address start : BitVec w} {offsets : List Nat}

/-- The address is one of the range. -/
def Contains (range : AddressRange w) (address : BitVec w) : Prop :=
  (address - range.first).toNat < range.size

/-- From where the first of the offsets lies, there is room in the range for the others. -/
def HasRoom (range : AddressRange w) (start : BitVec w) (offsets : List Nat) : Prop :=
  ∀ first ∈ offsets.min?, ∀ last ∈ offsets.max?,
    (start + BitVec.ofNat w first - range.first).toNat + (last - first) < range.size

instance : Decidable (range.HasRoom start offsets) := by
  unfold HasRoom
  infer_instance

/-- A range that does not wrap around is an interval. -/
theorem contains_iff (fits : range.first.toNat + range.size ≤ 2 ^ w) :
    range.Contains address ↔
      range.first.toNat ≤ address.toNat ∧ address.toNat < range.first.toNat + range.size := by
  have bounded := address.isLt
  unfold Contains
  rw [BitVec.toNat_sub]
  rcases Nat.lt_or_ge address.toNat range.first.toNat with before | behind
  · have distance : 2 ^ w - range.first.toNat + address.toNat < 2 ^ w := by omega
    rw [Nat.mod_eq_of_lt distance]
    omega
  · have wrapped : 2 ^ w - range.first.toNat + address.toNat =
        address.toNat - range.first.toNat + 2 ^ w := by omega
    rw [wrapped, Nat.add_mod_right, Nat.mod_eq_of_lt (by omega)]
    omega

/-- How far into the range an address lies that is `gap` bytes behind another. -/
theorem distance_add (first gap : Nat) :
    (start + BitVec.ofNat w (first + gap) - range.first).toNat =
      ((start + BitVec.ofNat w first - range.first).toNat + gap) % 2 ^ w := by
  have regrouped : start + BitVec.ofNat w (first + gap) - range.first =
      start + BitVec.ofNat w first - range.first + BitVec.ofNat w gap := by
    rw [BitVec.ofNat_add, BitVec.sub_add_comm, BitVec.add_assoc]
  rw [regrouped, BitVec.toNat_add, BitVec.toNat_ofNat, Nat.add_mod_mod]

/-- There is room for the offsets just if the range contains what they lead to. -/
theorem hasRoom_iff (small : ∀ offset ∈ offsets, offset + range.size ≤ 2 ^ w) :
    range.HasRoom start offsets ↔
      ∀ offset ∈ offsets, range.Contains (start + BitVec.ofNat w offset) := by
  unfold HasRoom Contains
  constructor
  · intro room offset member
    obtain ⟨first, isFirst⟩ := Option.isSome_iff_exists.mp (List.isSome_min?_of_mem member)
    obtain ⟨last, isLast⟩ := Option.isSome_iff_exists.mp (List.isSome_max?_of_mem member)
    have lower := (List.min?_eq_some_iff.mp isFirst).2 offset member
    have upper := (List.max?_eq_some_iff.mp isLast).2 offset member
    have inside := room first isFirst last isLast
    have bound := small offset member
    have behind : offset = first + (offset - first) := by omega
    rw [behind, distance_add, Nat.mod_eq_of_lt (by omega)]
    omega
  · intro contained first isFirst last isLast
    obtain ⟨firstMember, least⟩ := List.min?_eq_some_iff.mp isFirst
    obtain ⟨lastMember, _⟩ := List.max?_eq_some_iff.mp isLast
    have inside := contained first firstMember
    have reached := contained last lastMember
    have bound := small last lastMember
    have ordered := least last lastMember
    have behind : last = first + (last - first) := by omega
    rw [behind, distance_add, Nat.mod_eq_of_lt (by omega)] at reached
    exact reached

end AddressRange

end Cromwell.Std
