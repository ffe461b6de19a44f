import Mathlib.Data.List.Basic
import Mathlib.Data.Nat.Bitwise
import Mathlib.Tactic.Ring

/-!
# Byte memories and machine words

A memory is a total map from addresses to bytes. The bulk operations are the
usual C ones; every one of them is described by which addresses it changes, so
that layout arguments reduce to comparisons of address ranges. Fixed-width
words are natural numbers, with the little-endian byte order made explicit.
-/

namespace Cromwell.Std

/-- The unit of storage. -/
abbrev Byte := UInt8

/-- A memory assigns a byte to every address. -/
abbrev Memory := Nat → Byte

/-- What holds of the members of a list is decided for these, not for all bytes there are. -/
instance (priority := 1100) decidableForallMem {α : Type} (p : α → Prop) [DecidablePred p]
    (list : List α) : Decidable (∀ item ∈ list, p item) := List.decidableBAll p list

/-! ## Words -/

/-- The four bytes of a 32-bit word, least significant first. -/
def dwordBytes (value : Nat) : List Byte :=
  [UInt8.ofNat value, UInt8.ofNat (value / 0x100), UInt8.ofNat (value / 0x10000),
    UInt8.ofNat (value / 0x1000000)]

@[simp] theorem length_dwordBytes (value : Nat) : (dwordBytes value).length = 4 := rfl

/-- Masking off the `low` least significant bits of a `width`-bit word rounds it
down to a multiple of `2 ^ low`. -/
theorem and_highMask (width low : Nat) {value : Nat} (ordered : low ≤ width)
    (bounded : value < 2 ^ width) :
    value &&& (2 ^ width - 2 ^ low) = value / 2 ^ low * 2 ^ low := by
  have mask : 2 ^ width - 2 ^ low = (2 ^ (width - low) - 1) * 2 ^ low := by
    rw [Nat.sub_mul, one_mul, ← pow_add, Nat.sub_add_cancel ordered]
  rw [mask]
  apply Nat.eq_of_testBit_eq
  intro index
  rw [Nat.testBit_and, Nat.testBit_mul_two_pow, Nat.testBit_mul_two_pow,
    Nat.testBit_two_pow_sub_one, Nat.testBit_div_two_pow]
  by_cases high : low ≤ index
  · by_cases inside : index < width
    · have below : index - low < width - low := by omega
      simp [high, below]
    · have zero : value.testBit index = false :=
        Nat.testBit_lt_two_pow (lt_of_lt_of_le bounded (Nat.pow_le_pow_right (by omega) (by omega)))
      simp [high, zero]
  · simp [high]

theorem toNat_pred {value : UInt32} (more : value ≠ 0) : (value - 1).toNat = value.toNat - 1 := by
  have positive : 0 < value.toNat := Nat.pos_of_ne_zero fun zero => more (UInt32.toNat_inj.mp zero)
  have ordered : (1 : UInt32) ≤ value := by
    rw [UInt32.le_iff_toNat_le]
    exact positive
  rw [UInt32.toNat_sub_of_le _ _ ordered]
  rfl

theorem toNat_succ {value : UInt32} (bounded : value.toNat + 1 < 2 ^ 32) :
    (value + 1).toNat = value.toNat + 1 := by
  rw [UInt32.toNat_add]
  exact Nat.mod_eq_of_lt bounded

/-! ## Memories -/

/-- A range of addresses. -/
structure Extent where
  start : Nat
  length : Nat
  deriving Repr, DecidableEq

/-- One range lies in another. -/
def Extent.Within (inner outer : Extent) : Prop :=
  outer.start ≤ inner.start ∧ inner.start + inner.length ≤ outer.start + outer.length

namespace Memory

/-- Store one byte. -/
def set (memory : Memory) (address : Nat) (value : Byte) : Memory :=
  fun x => if x = address then value else memory x

/-- Fill `count` bytes from `address` with one value. -/
def memset (memory : Memory) (address : Nat) (value : Byte) (count : Nat) : Memory :=
  fun x => if address ≤ x ∧ x < address + count then value else memory x

/-- Store a list of bytes from `address` on. -/
def store (memory : Memory) (address : Nat) (values : List Byte) : Memory :=
  fun x => if address ≤ x then values.getD (x - address) (memory x) else memory x

/-- Copy `count` bytes of `source` from `origin` on to `address`. -/
def memcpy (memory : Memory) (address : Nat) (source : Memory) (origin count : Nat) : Memory :=
  fun x => if address ≤ x ∧ x < address + count then source (origin + (x - address)) else memory x

/-- The `count` bytes from `address` on. -/
def bytes (memory : Memory) (address count : Nat) : List Byte :=
  (List.range count).map fun k => memory (address + k)

/-- The little-endian 32-bit word at `address`. -/
def dword (memory : Memory) (address : Nat) : Nat :=
  (memory address).toNat + (memory (address + 1)).toNat * 0x100 +
    (memory (address + 2)).toNat * 0x10000 + (memory (address + 3)).toNat * 0x1000000

section Pointwise

variable (memory source : Memory) {address origin count x : Nat} {value : Byte}
  {values : List Byte}

@[simp] theorem set_same : memory.set address value address = value := by
  simp [set]

theorem set_other (different : x ≠ address) : memory.set address value x = memory x := by
  simp [set, different]

theorem memset_inside (lower : address ≤ x) (upper : x < address + count) :
    memory.memset address value count x = value := by
  simp [memset, lower, upper]

theorem memset_outside (outside : x < address ∨ address + count ≤ x) :
    memory.memset address value count x = memory x := by
  have separate : ¬(address ≤ x ∧ x < address + count) := by omega
  simp [memset, separate]

@[simp] theorem memset_nothing : memory.memset address value 0 = memory := by
  funext x
  exact memset_outside _ (by omega)

theorem memcpy_inside (lower : address ≤ x) (upper : x < address + count) :
    memory.memcpy address source origin count x = source (origin + (x - address)) := by
  simp [memcpy, lower, upper]

theorem memcpy_outside (outside : x < address ∨ address + count ≤ x) :
    memory.memcpy address source origin count x = memory x := by
  have separate : ¬(address ≤ x ∧ x < address + count) := by omega
  simp [memcpy, separate]

theorem store_inside (lower : address ≤ x) (upper : x - address < values.length) :
    memory.store address values x = values[x - address] := by
  simp [store, lower, upper]

theorem store_outside (outside : x < address ∨ address + values.length ≤ x) :
    memory.store address values x = memory x := by
  unfold store
  split
  · next lower =>
    have beyond : values.length ≤ x - address := by omega
    simp [beyond]
  · rfl

@[simp] theorem store_nil : memory.store address [] = memory := by
  funext x
  simp [store]

/-- A list is stored byte by byte. -/
theorem store_cons : memory.store address (value :: values) =
    (memory.set address value).store (address + 1) values := by
  funext x
  rcases Nat.lt_trichotomy x address with before | rfl | behind
  · rw [store_outside _ (.inl before), store_outside _ (.inl (by omega)), set_other _ (by omega)]
  · rw [store_inside _ (Nat.le_refl x) (by simp), store_outside _ (.inl (by omega)), set_same]
    simp
  · have offset : x - address = x - (address + 1) + 1 := by omega
    have later : address + 1 ≤ x := behind
    simp [store, offset, later, Nat.le_of_lt behind, set_other memory (Nat.ne_of_gt behind)]

theorem store_singleton : memory.store address [value] = memory.set address value := by
  rw [store_cons, store_nil]

/-- One list stored behind another. -/
theorem store_append {rest : List Byte} : memory.store address (values ++ rest) =
    (memory.store address values).store (address + values.length) rest := by
  induction values generalizing memory address with
  | nil => rw [List.nil_append, store_nil, List.length_nil, Nat.add_zero]
  | cons first values ih =>
      have behind : address + 1 + values.length = address + (first :: values).length := by
        rw [List.length_cons]
        omega
      rw [List.cons_append, store_cons, store_cons, ih, behind]

/-- Filling is lost where as much is stored. -/
theorem store_memset (covered : count ≤ values.length) :
    (memory.memset address value count).store address values = memory.store address values := by
  funext x
  by_cases inside : address ≤ x ∧ x - address < values.length
  · rw [store_inside _ inside.1 inside.2, store_inside _ inside.1 inside.2]
  · rw [store_outside _ (by omega), store_outside _ (by omega), memset_outside _ (by omega)]

theorem set_set : (memory.set address value).set address value = memory.set address value := by
  funext x
  by_cases same : x = address
  · rw [same, set_same, set_same]
  · rw [set_other _ same]

theorem store_dwordBytes_outside {word : Nat} (outside : x < address ∨ address + 4 ≤ x) :
    memory.store address (dwordBytes word) x = memory x :=
  store_outside memory (by simpa using outside)

end Pointwise

section Ranges

variable {memory other : Memory} {address place count : Nat} {values : List Byte}

@[simp] theorem length_bytes (memory : Memory) (address count : Nat) :
    (memory.bytes address count).length = count := by
  simp [bytes]

@[simp] theorem getElem_bytes (memory : Memory) (address count k : Nat)
    (bound : k < (memory.bytes address count).length) :
    (memory.bytes address count)[k] = memory (address + k) := by
  simp [bytes]

/-- What a range holds is found byte by byte. -/
theorem getElem?_bytes (memory : Memory) (address : Nat) {count k : Nat} (bound : k < count) :
    (memory.bytes address count)[k]? = some (memory (address + k)) := by
  simp [bytes, bound]

/-- Two ranges that agree byte by byte have the same contents. -/
theorem bytes_congr (same : ∀ k, k < count → memory (address + k) = other (place + k)) :
    memory.bytes address count = other.bytes place count := by
  apply List.map_congr_left
  intro k member
  exact same k (List.mem_range.mp member)

/-- Equal contents mean equal bytes at every position. -/
theorem eq_of_bytes_eq (same : memory.bytes address count = other.bytes place count)
    {k : Nat} (bound : k < count) : memory (address + k) = other (place + k) := by
  have item := List.getElem_of_eq same (by simpa using bound : k < _)
  simpa using item

/-- A stored list is read back unchanged. -/
@[simp] theorem bytes_store (memory : Memory) (address : Nat) (values : List Byte) :
    (memory.store address values).bytes address values.length = values := by
  apply List.ext_getElem (by simp)
  intro k left right
  rw [getElem_bytes, store_inside _ (by omega) (by omega)]
  simp

/-- Copying a range stores what it holds. -/
theorem memcpy_eq_store (memory source : Memory) (address origin count : Nat) :
    memory.memcpy address source origin count =
      memory.store address (source.bytes origin count) := by
  funext x
  by_cases inside : address ≤ x ∧ x < address + count
  · have bound : x - address < (source.bytes origin count).length := by
      rw [length_bytes]
      omega
    rw [memcpy_inside _ _ inside.1 inside.2, store_inside _ inside.1 bound, getElem_bytes]
  · rw [memcpy_outside _ _ (by omega), store_outside _ (by rw [length_bytes]; omega)]

/-- A range is the concatenation of its two parts. -/
theorem bytes_add (memory : Memory) (address first second : Nat) :
    memory.bytes address (first + second) =
      memory.bytes address first ++ memory.bytes (address + first) second := by
  simp [bytes, List.range_add, Nat.add_assoc]

/-- The beginning of a range is a shorter range. -/
theorem take_bytes (memory : Memory) (address count some : Nat) :
    (memory.bytes address count).take some = memory.bytes address (min some count) := by
  simp [bytes, ← List.map_take, List.take_range]

/-- Words that agree on their four bytes are equal. -/
theorem dword_congr (same : ∀ k, k < 4 → memory (address + k) = other (place + k)) :
    memory.dword address = other.dword place := by
  have first := same 0 (by omega)
  rw [Nat.add_zero, Nat.add_zero] at first
  simp only [dword, first, same 1 (by omega), same 2 (by omega), same 3 (by omega)]

theorem dword_lt (memory : Memory) (address : Nat) : memory.dword address < 2 ^ 32 := by
  have first := (memory address).toNat_lt
  have second := (memory (address + 1)).toNat_lt
  have third := (memory (address + 2)).toNat_lt
  have fourth := (memory (address + 3)).toNat_lt
  unfold dword
  omega

/-- A word is made of its bytes. -/
theorem bytes_dword (memory : Memory) (address : Nat) :
    memory.bytes address 4 = dwordBytes (memory.dword address) := by
  have same : ∀ (byte : Byte) (n : Nat), n % 256 = byte.toNat → byte = UInt8.ofNat n := by
    intro byte n equal
    rw [← UInt8.toNat_inj, UInt8.toNat_ofNat', equal]
  have first := (memory address).toNat_lt
  have second := (memory (address + 1)).toNat_lt
  have third := (memory (address + 2)).toNat_lt
  have fourth := (memory (address + 3)).toNat_lt
  have listed : memory.bytes address 4 = [memory address, memory (address + 1),
    memory (address + 2), memory (address + 3)] := rfl
  rw [listed]
  unfold dwordBytes dword
  refine List.cons_eq_cons.mpr ⟨same _ _ (by omega), List.cons_eq_cons.mpr ⟨same _ _ (by omega),
    List.cons_eq_cons.mpr ⟨same _ _ (by omega), List.cons_eq_cons.mpr ⟨same _ _ (by omega), rfl⟩⟩⟩⟩

/-- A stored word is read back, cut to 32 bits. -/
theorem dword_store_mod (memory : Memory) (address value : Nat) :
    (memory.store address (dwordBytes value)).dword address = value % 2 ^ 32 := by
  have lowByte : ∀ n : Nat, (UInt8.ofNat n).toNat = n % 256 := fun n => by
    simp [UInt8.toNat_ofNat']
  have zero : (memory.store address (dwordBytes value)) address = UInt8.ofNat value := by
    rw [store_inside _ (by omega) (by simp)]
    simp [dwordBytes]
  have one : (memory.store address (dwordBytes value)) (address + 1) =
      UInt8.ofNat (value / 0x100) := by
    rw [store_inside _ (by omega) (by simp)]
    simp [dwordBytes]
  have two : (memory.store address (dwordBytes value)) (address + 2) =
      UInt8.ofNat (value / 0x10000) := by
    rw [store_inside _ (by omega) (by simp)]
    simp [dwordBytes]
  have three : (memory.store address (dwordBytes value)) (address + 3) =
      UInt8.ofNat (value / 0x1000000) := by
    rw [store_inside _ (by omega) (by simp)]
    simp [dwordBytes]
  rw [dword, zero, one, two, three, lowByte, lowByte, lowByte, lowByte]
  omega

/-- A stored 32-bit word is read back unchanged. -/
theorem dword_store (memory : Memory) (address : Nat) {value : Nat} (bounded : value < 2 ^ 32) :
    (memory.store address (dwordBytes value)).dword address = value := by
  rw [dword_store_mod, Nat.mod_eq_of_lt bounded]

/-- A store elsewhere leaves a word alone. -/
theorem dword_store_other (memory : Memory) {address place : Nat} {values : List Byte}
    (outside : address + 4 ≤ place ∨ place + values.length ≤ address) :
    (memory.store place values).dword address = memory.dword address :=
  dword_congr fun k bound => store_outside _ (by omega)

/-- Every one of a list of stored words is read back. -/
theorem dword_store_words (memory : Memory) (address : Nat) (words : List Nat) {i : Nat}
    (inside : i < words.length) :
    (memory.store address (words.flatMap dwordBytes)).dword (address + 4 * i) =
      words[i] % 2 ^ 32 := by
  induction words generalizing memory address i with
  | nil => exact absurd inside (Nat.not_lt_zero i)
  | cons word words ih =>
      rw [List.flatMap_cons, store_append, length_dwordBytes]
      cases i with
      | zero =>
          have first : address + 4 * 0 = address := rfl
          rw [first, dword_store_other _ (.inl (Nat.le_refl _)), dword_store_mod]
          rfl
      | succ i =>
          have place : address + 4 * (i + 1) = address + 4 + 4 * i := by omega
          rw [place, ih _ _ (Nat.lt_of_succ_lt_succ inside)]
          rfl

theorem dword_memset_other (memory : Memory) {address place count : Nat} {value : Byte}
    (outside : address + 4 ≤ place ∨ place + count ≤ address) :
    (memory.memset place value count).dword address = memory.dword address :=
  dword_congr fun k bound => memset_outside _ (by omega)

theorem dword_memset_zero (memory : Memory) {address place count : Nat} (lower : place ≤ address)
    (upper : address + 4 ≤ place + count) : (memory.memset place 0 count).dword address = 0 := by
  have zeros : (memory.memset place 0 count).dword address = dword (fun _ => 0) address :=
    dword_congr fun k bound => memset_inside _ (by omega) (by omega)
  rw [zeros]
  simp [dword]

end Ranges

end Memory

end Cromwell.Std
