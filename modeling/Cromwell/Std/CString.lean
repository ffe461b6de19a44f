import Mathlib.Order.Nat
import Cromwell.Std.Memory

/-!
# Strings that end with a zero byte

A memory holds a string at its start when the bytes of the string come first, none
of them is zero, and a zero byte follows. A list of bytes that may contain a zero
stands for the string up to the first one.
-/

namespace Cromwell.Std

/-- A memory in which a zero byte follows somewhere, so that the length of its string is found. -/
structure Terminated where
  bytes : Memory
  ends : ∃ k, bytes k = 0

/-- The length of the string. -/
def Terminated.strlen (memory : Terminated) : Nat := Nat.find memory.ends

/-- The string in front of the first zero byte. -/
def cut : List Byte → List Byte
  | [] => []
  | byte :: rest => if byte = 0 then [] else byte :: cut rest

/-- The memory holds the string at its start. -/
structure HoldsString (memory : Memory) (text : List Byte) : Prop where
  nonzero : 0 ∉ text
  bytes : memory.bytes 0 text.length = text
  ends : memory text.length = 0

section Cut

variable {first second : List Byte}

theorem cut_of_notMem (nonzero : 0 ∉ first) : cut first = first := by
  induction first with
  | nil => rfl
  | cons byte first ih =>
      rw [List.mem_cons, not_or] at nonzero
      rw [cut, if_neg (Ne.symm nonzero.1), ih nonzero.2]

/-- A list with a zero byte is its string, the zero byte and a rest. -/
theorem exists_cut_append (zero : 0 ∈ first) : ∃ rest, first = cut first ++ 0 :: rest := by
  induction first with
  | nil => exact absurd zero List.not_mem_nil
  | cons byte first ih =>
      unfold cut
      by_cases here : byte = 0
      · exact ⟨first, by simp [here]⟩
      · obtain ⟨rest, split⟩ := ih (by simpa [Ne.symm here] using zero)
        refine ⟨rest, ?_⟩
        rw [if_neg here, List.cons_append, ← split]

theorem zero_notMem_cut (bytes : List Byte) : 0 ∉ cut bytes := by
  induction bytes with
  | nil => exact List.not_mem_nil
  | cons byte bytes ih =>
      unfold cut
      by_cases here : byte = 0
      · simp [here]
      · simp [here, Ne.symm here, ih]

theorem cut_append (nonzero : 0 ∉ first) : cut (first ++ second) = first ++ cut second := by
  induction first with
  | nil => rfl
  | cons byte first ih =>
      rw [List.mem_cons, not_or] at nonzero
      rw [List.cons_append, cut, if_neg (Ne.symm nonzero.1), ih nonzero.2, List.cons_append]

theorem cut_append_of_mem (zero : 0 ∈ first) : cut (first ++ second) = cut first := by
  obtain ⟨rest, split⟩ := exists_cut_append zero
  rw [split, List.append_assoc, cut_append (zero_notMem_cut first),
    cut_append (zero_notMem_cut first)]
  simp [cut]

theorem length_cut_le (bytes : List Byte) : (cut bytes).length ≤ bytes.length := by
  induction bytes with
  | nil => exact Nat.le_refl 0
  | cons byte bytes ih =>
      unfold cut
      split_ifs
      · exact Nat.zero_le _
      · simpa using ih

/-- More bytes change nothing about a string when a zero byte stands at their first place or
before it. -/
theorem cut_bytes_add_iff (memory : Memory) (start short : Nat) {more : Nat} (positive : 0 < more) :
    cut (memory.bytes start short) = cut (memory.bytes start (short + more)) ↔
      ∃ k ≤ short, memory (start + k) = 0 := by
  obtain ⟨more, rfl⟩ : ∃ m, more = m + 1 := ⟨more - 1, by omega⟩
  have next : memory.bytes (start + short) (more + 1) =
      memory (start + short) :: memory.bytes (start + short + 1) more := by
    rw [Nat.add_comm more, Memory.bytes_add]
    rfl
  rw [Memory.bytes_add, next]
  by_cases zero : 0 ∈ memory.bytes start short
  · rw [cut_append_of_mem zero]
    obtain ⟨k, inside, here⟩ : ∃ k < short, memory (start + k) = 0 := by
      simpa [Memory.bytes] using zero
    exact iff_of_true rfl ⟨k, Nat.le_of_lt inside, here⟩
  · rw [cut_append zero, cut_of_notMem zero, List.self_eq_append_right]
    have none : ∀ k < short, memory (start + k) ≠ 0 := by
      simpa [Memory.bytes] using zero
    unfold cut
    constructor
    · intro empty
      refine ⟨short, Nat.le_refl short, ?_⟩
      by_contra nonzero
      simp [nonzero] at empty
    · rintro ⟨k, inside, here⟩
      have last : k = short := by
        by_contra different
        exact none k (by omega) here
      rw [last] at here
      simp [here]

/-- Two pieces from one place stand for the same string when they are equally long, or a zero
byte stands where the shorter one has ended at the latest. -/
theorem cut_bytes_eq_iff (memory : Memory) (start count count' : Nat) :
    cut (memory.bytes start count) = cut (memory.bytes start count') ↔
      count = count' ∨ ∃ k ≤ min count count', memory (start + k) = 0 := by
  rcases Nat.lt_trichotomy count count' with less | same | greater
  · have split := cut_bytes_add_iff memory start count (Nat.sub_pos_of_lt less)
    rw [Nat.add_sub_cancel' (Nat.le_of_lt less)] at split
    rw [split, Nat.min_eq_left (Nat.le_of_lt less)]
    simp [Nat.ne_of_lt less]
  · simp [same]
  · have split := cut_bytes_add_iff memory start count' (Nat.sub_pos_of_lt greater)
    rw [Nat.add_sub_cancel' (Nat.le_of_lt greater)] at split
    rw [eq_comm, split, Nat.min_eq_right (Nat.le_of_lt greater)]
    simp [Nat.ne_of_gt greater]

end Cut

section Holds

variable {memory : Memory} {text other : List Byte}

theorem HoldsString.apply (holds : HoldsString memory text) {k : Nat} (inside : k < text.length) :
    memory k = text[k] := by
  have same := congrArg (fun bytes => bytes[k]?) holds.bytes
  simpa [Memory.getElem?_bytes memory 0 inside, inside] using same

/-- A memory holds one string. -/
theorem HoldsString.unique (holds : HoldsString memory text) (holds' : HoldsString memory other) :
    text = other := by
  have ends : ∀ {first second : List Byte}, HoldsString memory first → HoldsString memory second →
      ¬first.length < second.length := by
    intro first second held held' shorter
    apply held'.nonzero
    rw [← held.ends, held'.apply shorter]
    exact List.getElem_mem shorter
  have length : text.length = other.length :=
    Nat.le_antisymm (Nat.not_lt.mp (ends holds' holds)) (Nat.not_lt.mp (ends holds holds'))
  rw [← holds.bytes, ← holds'.bytes, length]

/-- Bytes with a zero behind them are held up to their first zero. -/
theorem holdsString_cut (bytes : memory.bytes 0 text.length = text)
    (ends : memory text.length = 0) : HoldsString memory (cut text) := by
  by_cases zero : 0 ∈ text
  · obtain ⟨rest, split⟩ := exists_cut_append zero
    have length : text.length = (cut text).length + (rest.length + 1) := by
      simpa using congrArg List.length split
    have held : memory.bytes 0 text.length = cut text ++ 0 :: rest := bytes.trans split
    rw [length, Memory.bytes_add] at held
    obtain ⟨front, back⟩ := List.append_inj held (by simp)
    refine ⟨zero_notMem_cut text, front, ?_⟩
    have next := congrArg List.head? back
    simpa [Memory.bytes, List.range_succ_eq_map] using next
  · rw [cut_of_notMem zero]
    exact ⟨zero, bytes, ends⟩

theorem Terminated.strlen_eq (memory : Terminated) (holds : HoldsString memory.bytes text) :
    memory.strlen = text.length := by
  unfold Terminated.strlen
  rw [Nat.find_eq_iff]
  refine ⟨holds.ends, fun k inside zero => holds.nonzero ?_⟩
  rw [← zero, holds.apply inside]
  exact List.getElem_mem inside

end Holds

/-! ## Lines -/

/-- A line is not longer than the text it is a line of. -/
theorem length_le_of_mem_splitOn {line text : List Byte} {newline : Byte}
    (member : line ∈ text.splitOn newline) : line.length ≤ text.length := by
  induction text generalizing line with
  | nil =>
      rw [List.splitOn_nil, List.mem_singleton] at member
      rw [member]
  | cons character text ih =>
      rw [List.splitOn_cons_eq_if_modifyHead] at member
      split at member
      · rcases List.mem_cons.mp member with rfl | later
        · exact Nat.zero_le _
        · exact (ih later).trans (Nat.le_succ _)
      · cases lines : text.splitOn newline with
        | nil => exact absurd lines (List.splitOn_ne_nil _ _)
        | cons first others =>
            rw [lines, List.modifyHead_cons] at member
            rcases List.mem_cons.mp member with rfl | later
            · have shorter := ih (lines ▸ List.mem_cons_self)
              rw [List.length_cons, List.length_cons]
              omega
            · exact (ih (lines ▸ List.mem_cons_of_mem _ later)).trans (Nat.le_succ _)

end Cromwell.Std
