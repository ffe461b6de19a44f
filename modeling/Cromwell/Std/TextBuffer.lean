import Cromwell.Std.Memory
import Cromwell.Std.Program
import Mathlib.Data.List.Induction

/-!
# Strings in a buffer

A buffer is the memory from some place on to its end. Strings in it are scanned byte by
byte, and every range that is read or written is recorded. A program that runs off the end
of memory is cut off. What a scan does is stated for a buffer that is split around it.
-/

namespace Cromwell.Std

/-- The characters of a text without its terminator. -/
def text (characters : String) : List Byte := characters.toList.map fun c => UInt8.ofNat c.toNat

/-- The bytes from the start of a buffer on, and what has been used of them, the latest
first. -/
structure TextBuffer where
  bytes : List Byte
  accesses : List Extent

namespace TextBuffer

open Program

/-- Nothing from a place on has been used. -/
def Within (bound : Nat) (buffer : TextBuffer) : Prop :=
  ∀ extent ∈ buffer.accesses, extent.start + extent.length ≤ bound

/-- An access to a range is recorded. -/
def access (buffer : TextBuffer) (start length : Nat) : TextBuffer :=
  { buffer with accesses := ⟨start, length⟩ :: buffer.accesses }

/-- A byte is read. -/
def read (p : Nat) : Program TextBuffer Byte := fun buffer =>
  match buffer.bytes[p]? with
  | none => .next (buffer.access p 1)
  | some byte => .leave (byte, buffer.access p 1)

/-- A byte is written. -/
def put (p : Nat) (byte : Byte) : Program TextBuffer Unit := fun buffer =>
  if p < buffer.bytes.length then
    .leave ((), { buffer with bytes := buffer.bytes.set p byte }.access p 1)
  else .next (buffer.access p 1)

/-- The first place from `p` on with a byte that stops the scan. -/
def scan (stop : Byte → Bool) (p : Nat) : Program TextBuffer Nat := fun buffer =>
  match (buffer.bytes.drop p).findIdx? stop with
  | none => .next (buffer.access p (buffer.bytes.length - p + 1))
  | some count => .leave (p + count, buffer.access p (count + 1))

/-- The last place from `p` down to `low` with a byte that is not skipped; `low` itself
stops the scan, but a scan that begins below it does not meet it. -/
def scanBack (skip : Byte → Bool) (low : Nat) : (p : Nat) → Program TextBuffer Nat
  | 0 => do
    if 0 = low then return 0
    else
      let byte ← read 0
      if skip byte then stuck else return 0
  | p + 1 => do
    if p + 1 = low then return p + 1
    else
      let byte ← read (p + 1)
      if skip byte then scanBack skip low p else return p + 1

/-- The string at `p`. -/
def string (p : Nat) : Program TextBuffer (List Byte) := do
  let stop ← scan (· = 0) p
  .update fun buffer => ((buffer.bytes.take stop).drop p, buffer)

/-- Change every character of the string at `p`. -/
def mapString (change : Byte → Byte) (p : Nat) : Program TextBuffer Unit := do
  let stop ← scan (· = 0) p
  .update fun buffer => ((), { buffer with
    bytes := buffer.bytes.take p ++ ((buffer.bytes.take stop).drop p).map change ++
      buffer.bytes.drop stop })

section Rules

variable {buffer : TextBuffer} {bound p : Nat} {stop skip : Byte → Bool}
  {before middle after : List Byte} {c : Byte}

/-- An access within the bound leaves all accesses within it. -/
theorem Within.access (within : buffer.Within bound) {start length : Nat}
    (fits : start + length ≤ bound) : (buffer.access start length).Within bound := by
  intro extent member
  rcases List.mem_cons.mp member with rfl | earlier
  · exact fits
  · exact within extent earlier

/-- One beyond the bound does not. -/
theorem not_within_access {start length : Nat} (beyond : bound < start + length) :
    ¬(buffer.access start length).Within bound := by
  intro within
  have fits := within ⟨start, length⟩ List.mem_cons_self
  dsimp only at fits
  omega

/-- A byte of the text is read at its place. -/
theorem read_spec (shape : buffer.bytes = before ++ c :: after) (place : before.length = p)
    (within : buffer.Within bound) (fits : p + 1 ≤ bound) :
    (read p).Ensures buffer (fun _ => False) fun byte state =>
      byte = c ∧ state.bytes = buffer.bytes ∧ state.Within bound := by
  have found : buffer.bytes[p]? = some c := by
    rw [shape, ← place, List.getElem?_append_right (Nat.le_refl _), Nat.sub_self]
    rfl
  have run : read p buffer = .leave (c, buffer.access p 1) := by
    simp only [read, found]
  exact ensures_of_run run ⟨rfl, rfl, within.access fits⟩

/-- A byte of the text is changed at its place. -/
theorem put_spec {byte : Byte} (shape : buffer.bytes = before ++ c :: after)
    (place : before.length = p) (within : buffer.Within bound) (fits : p + 1 ≤ bound) :
    (put p byte).Ensures buffer (fun _ => False) fun _ state =>
      state.bytes = before ++ byte :: after ∧ state.Within bound := by
  have inside : p < buffer.bytes.length := by
    rw [shape, List.length_append, List.length_cons]
    omega
  have bytes : buffer.bytes.set p byte = before ++ byte :: after := by
    rw [shape, ← place, List.set_append_right _ _ (Nat.le_refl _), Nat.sub_self]
    rfl
  exact ensures_of_run (if_pos inside) ⟨bytes, within.access fits⟩

/-- A scan stops behind what does not stop it. -/
theorem scan_spec (stop : Byte → Bool) (shape : buffer.bytes = before ++ (middle ++ c :: after))
    (place : before.length = p) (going : ∀ byte ∈ middle, stop byte = false)
    (stopped : stop c = true) (within : buffer.Within bound)
    (fits : p + middle.length + 1 ≤ bound) :
    (scan stop p).Ensures buffer (fun _ => False) fun result state =>
      result = p + middle.length ∧ state.bytes = buffer.bytes ∧ state.Within bound := by
  have none : middle.findIdx? stop = none := List.findIdx?_eq_none_iff.mpr going
  have found : (buffer.bytes.drop p).findIdx? stop = some middle.length := by
    rw [shape, ← place, List.drop_left, List.findIdx?_append, none, List.findIdx?_cons,
      if_pos stopped]
    simp
  have run : scan stop p buffer =
      .leave (p + middle.length, buffer.access p (middle.length + 1)) := by
    simp only [scan, found]
  exact ensures_of_run run ⟨rfl, rfl, within.access (by omega)⟩

/-- A scan backwards ends at the place it may go to. -/
theorem scanBack_low {low : Nat} : scanBack skip low low = pure low := by
  cases low with
  | zero => exact if_pos rfl
  | succ low => exact if_pos rfl

/-- It ends at a byte that is not skipped. -/
theorem scanBack_stop {low : Nat} (different : p ≠ low)
    (shape : buffer.bytes = before ++ c :: after) (place : before.length = p)
    (stopped : skip c = false) (within : buffer.Within bound) (fits : p + 1 ≤ bound) :
    (scanBack skip low p).Ensures buffer (fun _ => False) fun result state =>
      result = p ∧ state.bytes = buffer.bytes ∧ state.Within bound := by
  have byte_read := read_spec shape place within fits
  cases p with
  | zero =>
      rw [scanBack, if_neg different]
      refine byte_read.andThen ?_
      rintro byte state ⟨read, same, within⟩
      rw [read, if_neg (ne_true_of_eq_false stopped)]
      exact ⟨rfl, same, within⟩
  | succ p =>
      rw [scanBack, if_neg different]
      refine byte_read.andThen ?_
      rintro byte state ⟨read, same, within⟩
      rw [read, if_neg (ne_true_of_eq_false stopped)]
      exact ⟨rfl, same, within⟩

/-- A scan backwards stops before what it skips. -/
theorem scanBack_spec {low : Nat} (shape : buffer.bytes = before ++ c :: (middle ++ after))
    (place : before.length + middle.length = p) (skipped : ∀ byte ∈ middle, skip byte = true)
    (stopped : before.length = low ∨ skip c = false)
    (apart : low ≤ before.length ∨ p < low) (within : buffer.Within bound)
    (fits : p + 1 ≤ bound) :
    (scanBack skip low p).Ensures buffer (fun _ => False) fun result state =>
      result = before.length ∧ state.bytes = buffer.bytes ∧ state.Within bound := by
  induction middle using List.reverseRecOn generalizing p buffer after with
  | nil =>
      obtain rfl : before.length = p := place
      by_cases reached : before.length = low
      · rw [← reached, scanBack_low]
        exact ⟨rfl, rfl, within⟩
      · exact scanBack_stop reached shape rfl (stopped.resolve_left reached) within fits
  | append_singleton middle byte ih =>
      rw [List.length_append, List.length_singleton] at place
      obtain ⟨p, rfl⟩ : ∃ previous, p = previous + 1 := ⟨before.length + middle.length, by omega⟩
      have last : buffer.bytes = (before ++ c :: middle) ++ byte :: after := by
        rw [shape]
        simp
      have byte_read := read_spec last (by simp; omega) within fits
      rw [scanBack, if_neg (by omega)]
      refine byte_read.andThen ?_
      rintro value state ⟨read, same, within⟩
      rw [read, if_pos (skipped byte (by simp)), ← same]
      have shorter : state.bytes = before ++ c :: (middle ++ byte :: after) := by
        rw [same, shape]
        simp
      have skipped : ∀ byte ∈ middle, skip byte = true := fun other member =>
        skipped other (List.mem_append_left _ member)
      exact ih shorter (by omega) skipped (by omega) within (by omega)

/-- The string at a place. -/
theorem string_spec (shape : buffer.bytes = before ++ (middle ++ 0 :: after))
    (place : before.length = p) (going : ∀ byte ∈ middle, byte ≠ 0)
    (within : buffer.Within bound) (fits : p + middle.length + 1 ≤ bound) :
    (string p).Ensures buffer (fun _ => False) fun result state =>
      result = middle ∧ state.bytes = buffer.bytes ∧ state.Within bound := by
  have scanned := scan_spec (· = 0) shape place (by simpa using going) (by simp)
    within fits
  refine scanned.andThen ?_
  rintro _ state ⟨rfl, same, within⟩
  refine ⟨?_, same, within⟩
  change (state.bytes.take (p + middle.length)).drop p = middle
  rw [same, shape, ← place, List.drop_take, List.drop_left, Nat.add_sub_cancel_left,
    List.take_left]

/-- The bytes of a string are changed up to its zero. -/
theorem mapString_spec {change : Byte → Byte}
    (shape : buffer.bytes = before ++ (middle ++ 0 :: after)) (place : before.length = p)
    (going : ∀ byte ∈ middle, byte ≠ 0) (within : buffer.Within bound)
    (fits : p + middle.length + 1 ≤ bound) :
    (mapString change p).Ensures buffer (fun _ => False) fun _ state =>
      state.bytes = before ++ (middle.map change ++ 0 :: after) ∧ state.Within bound := by
  have scanned := scan_spec (· = 0) shape place (by simpa using going) (by simp)
    within fits
  refine scanned.andThen ?_
  rintro _ state ⟨rfl, same, within⟩
  refine ⟨?_, within⟩
  change state.bytes.take p ++ ((state.bytes.take (p + middle.length)).drop p).map change ++
    state.bytes.drop (p + middle.length) = _
  rw [same, shape, ← place, List.drop_take, List.drop_left, Nat.add_sub_cancel_left,
    List.take_left, List.take_left, ← List.drop_drop, List.drop_left, List.drop_left,
    List.append_assoc]

/-- Whatever is in the buffer, a string has no terminator inside. -/
theorem string_nonzero (p : Nat) (buffer : TextBuffer) :
    (string p).Ensures buffer (fun _ => True) fun result _ => ∀ c ∈ result, c ≠ 0 := by
  have passed : (scan (· = 0) p).Ensures buffer (fun _ => True) fun place state =>
      ∀ c ∈ (state.bytes.take place).drop p, c ≠ 0 := by
    unfold scan Ensures
    dsimp only
    cases found : (buffer.bytes.drop p).findIdx? (· = 0) with
    | none => trivial
    | some count =>
        intro c member
        change c ∈ (buffer.bytes.take (p + count)).drop p at member
        rw [List.drop_take, Nat.add_sub_cancel_left] at member
        obtain ⟨k, bound, rfl⟩ := List.mem_take_iff_getElem.mp member
        obtain ⟨_, _, before⟩ := List.findIdx?_eq_some_iff_getElem.mp found
        simpa using before k (by omega)
  exact passed.andThen fun _ _ held => held

end Rules

/-! ## Accesses beyond a place -/

section Beyond

variable {bound : Nat} {stop skip : Byte → Bool}

/-- What lies beyond the bound stays recorded. -/
theorem not_within_grows {buffer : TextBuffer} (beyond : ¬buffer.Within bound)
    (start length : Nat) : ¬(buffer.access start length).Within bound :=
  fun within => beyond fun extent member => within extent (List.mem_cons_of_mem _ member)

/-- No read takes an access beyond the bound back. -/
theorem stable_read (p : Nat) : Stable (¬Within bound ·) (read p) := by
  intro buffer beyond
  unfold Program.Ensures TextBuffer.read
  dsimp only
  split
  · exact not_within_grows beyond p 1
  · exact not_within_grows beyond p 1

/-- No write does. -/
theorem stable_put (p : Nat) (byte : Byte) : Stable (¬Within bound ·) (put p byte) := by
  intro buffer beyond
  unfold Program.Ensures put
  split
  · exact not_within_grows beyond p 1
  · exact not_within_grows beyond p 1

/-- No scan does. -/
theorem stable_scan (p : Nat) : Stable (¬Within bound ·) (scan stop p) := by
  intro buffer beyond
  unfold Program.Ensures scan
  dsimp only
  split
  · exact not_within_grows beyond p _
  · exact not_within_grows beyond p _

/-- No scan backwards does. -/
theorem stable_scanBack (low p : Nat) : Stable (¬Within bound ·) (scanBack skip low p) := by
  induction p with
  | zero =>
      refine .ite (.pure 0) (.bind (stable_read 0) fun byte => .ite ?_ (.pure 0))
      exact fun _ beyond => beyond
  | succ p ih =>
      exact .ite (.pure (p + 1)) (.bind (stable_read (p + 1)) fun byte => .ite ih (.pure (p + 1)))

/-- Reading a string does not. -/
theorem stable_string (p : Nat) : Stable (¬Within bound ·) (string p) :=
  .bind (stable_scan p) fun _ _ beyond => beyond

/-- Changing a string does not. -/
theorem stable_mapString (change : Byte → Byte) (p : Nat) :
    Stable (¬Within bound ·) (mapString change p) :=
  .bind (stable_scan p) fun _ _ beyond => beyond

/-- A scan that begins behind the bound reads beyond it. -/
theorem scan_beyond {p : Nat} (behind : bound ≤ p) (buffer : TextBuffer) :
    (scan stop p).Ensures buffer (¬Within bound ·) fun _ => (¬Within bound ·) := by
  unfold Program.Ensures scan
  dsimp only
  split
  · exact not_within_access (by omega)
  · exact not_within_access (by omega)

end Beyond

end TextBuffer

end Cromwell.Std
