import Cromwell.Config.Runs

/-!
# The strings of an entry

Every string of an entry is written from the beginning of its array, titles and command
lines without a terminator. A directive is recorded faithfully if and only if its value
fits the array and no longer value is left behind it.
-/

namespace Cromwell.Config

open Cromwell.Std Cromwell.Std.TextBuffer Cromwell.Std.Program Cromwell.Lib

/-! ## Strings in a list -/

/-- The bytes begin with a terminated string. -/
def Holds (bytes s : List Byte) : Prop := (∀ c ∈ s, c ≠ 0) ∧ ∃ rest, bytes = s ++ 0 :: rest

/-- Behind the string there is nothing but zeros. -/
def Padded (bytes s : List Byte) : Prop :=
  (∀ c ∈ s, c ≠ 0) ∧ ∃ count, bytes = s ++ List.replicate (count + 1) 0

section Lists

variable {bytes s value : List Byte}

theorem Holds.mem (holds : Holds bytes s) : 0 ∈ bytes := by
  obtain ⟨-, rest, rfl⟩ := holds
  simp

theorem Holds.takeWhile (holds : Holds bytes s) : bytes.takeWhile (· ≠ 0) = s := by
  obtain ⟨nonzero, rest, rfl⟩ := holds
  rw [List.takeWhile_append_of_pos (by simpa using nonzero)]
  simp

theorem Padded.holds (padded : Padded bytes s) : Holds bytes s := by
  obtain ⟨nonzero, count, rfl⟩ := padded
  exact ⟨nonzero, _, rfl⟩

theorem holds_terminated (nonzero : ∀ c ∈ value, c ≠ 0) (rest : List Byte) :
    Holds (value ++ [0] ++ rest) value :=
  ⟨nonzero, rest, by simp⟩

/-- A value that reaches the padding keeps it. -/
theorem Padded.replace (padded : Padded bytes s) (nonzero : ∀ c ∈ value, c ≠ 0)
    (reaches : s.length ≤ value.length) (short : value.length < bytes.length) :
    Padded (value ++ bytes.drop value.length) value := by
  obtain ⟨-, count, rfl⟩ := padded
  rw [List.length_append, List.length_replicate] at short
  refine ⟨nonzero, count - (value.length - s.length), ?_⟩
  rw [List.drop_append, List.drop_eq_nil_of_le reaches, List.nil_append, List.drop_replicate]
  congr 2
  omega

/-- A shorter value is followed by what it leaves of the string. -/
theorem Padded.residue (padded : Padded bytes s) (nonzero : ∀ c ∈ value, c ≠ 0)
    (shorter : value.length ≤ s.length) :
    Holds (value ++ bytes.drop value.length) (value ++ s.drop value.length) := by
  obtain ⟨solid, count, rfl⟩ := padded
  refine ⟨?_, List.replicate count 0, ?_⟩
  · intro c member
    rcases List.mem_append.mp member with first | second
    · exact nonzero c first
    · exact solid c (List.mem_of_mem_drop second)
  · rw [List.drop_append_of_le_length shorter, List.append_assoc]
    rfl

end Lists

/-! ## Arrays -/

/-- The bytes of an array. -/
def ConfigEntry.contents (entry : ConfigEntry) (field : Field) : List Byte :=
  Memory.bytes entry field.array.start field.array.length

/-- The array holds a terminator. -/
def ConfigEntry.Terminated (entry : ConfigEntry) (field : Field) : Prop :=
  0 ∈ ConfigEntry.contents entry field

section Contents

variable {entry : ConfigEntry} {field other : Field} {bytes s : List Byte}

@[simp] theorem length_contents (entry : ConfigEntry) (field : Field) :
    (ConfigEntry.contents entry field).length = field.array.length :=
  Memory.length_bytes ..

@[simp] theorem getElem_contents (entry : ConfigEntry) (field : Field) {k : Nat}
    (bound : k < (ConfigEntry.contents entry field).length) :
    (ConfigEntry.contents entry field)[k] = entry (field.array.start + k) :=
  Memory.getElem_bytes ..

/-- What has been written, and what it has left of the array. -/
theorem contents_store (short : bytes.length ≤ field.array.length) :
    ConfigEntry.contents (Memory.store entry field.array.start bytes) field =
      bytes ++ (ConfigEntry.contents entry field).drop bytes.length := by
  apply List.ext_getElem
  · rw [length_contents, List.length_append, List.length_drop, length_contents]
    omega
  · intro k bound _
    rw [length_contents] at bound
    rw [List.getElem_append, getElem_contents]
    split
    · next inside =>
      rw [Memory.store_inside _ (by omega) (by omega)]
      simp
    · next outside =>
      rw [Memory.store_outside _ (by omega), List.getElem_drop, getElem_contents]
      congr 1
      omega

/-- What does not fit an array fills it. -/
theorem contents_store_long (long : field.array.length ≤ bytes.length) :
    ConfigEntry.contents (Memory.store entry field.array.start bytes) field =
      bytes.take field.array.length := by
  apply List.ext_getElem
  · rw [length_contents, List.length_take]
    omega
  · intro k bound _
    rw [length_contents] at bound
    rw [getElem_contents, Memory.store_inside _ (by omega) (by omega), List.getElem_take]
    simp

theorem arrays_apart (different : other ≠ field) :
    other.array.start + other.array.length ≤ field.array.start ∨
      field.array.start + field.array.length ≤ other.array.start := by
  revert different
  cases other <;> cases field <;> decide

/-- What fits one array leaves the others alone. -/
theorem contents_store_other (different : other ≠ field)
    (short : bytes.length ≤ field.array.length) :
    ConfigEntry.contents (Memory.store entry field.array.start bytes) other =
      ConfigEntry.contents entry other := by
  have apart := arrays_apart different
  apply Memory.bytes_congr
  intro k bound
  exact Memory.store_outside _ (by omega)

/-- The structure's other members are in front of the arrays. -/
theorem contents_store_front {address : Nat} (front : address + bytes.length ≤ 20) :
    ConfigEntry.contents (Memory.store entry address bytes) field =
      ConfigEntry.contents entry field := by
  have lower : 20 ≤ field.array.start := by cases field <;> decide
  apply Memory.bytes_congr
  intro k bound
  exact Memory.store_outside _ (by omega)

@[simp] theorem contents_emptyEntry (field : Field) :
    ConfigEntry.contents emptyEntry field = List.replicate field.array.length 0 := by
  apply List.ext_getElem
  · simp
  · intro k _ _
    rw [getElem_contents, List.getElem_replicate]
    rfl

end Contents

/-! ## Directives -/

/-- The entries once the one that a directive goes to is the last. -/
def Entries.opened (entries : Entries) (keyword : Keyword) : Entries :=
  if keyword = .title ∧ entries.currentEntry Field.title.array.start ≠ 0 then
    entries.nextConfigEntry
  else entries

/-- The string that a directive sets, and its value. -/
def target (szPath : Option (List Byte)) : Keyword × List Byte → Option (Field × List Byte)
  | (.title, paramdata) => some (.title, paramdata)
  | (.kernel, paramdata) => some (.szKernel, fileName szPath paramdata)
  | (.initrd, paramdata) =>
    if strncmp paramdata (text "no") 2 then none else some (.szInitrd, fileName szPath paramdata)
  | (.append, paramdata) => some (.szAppend, paramdata)
  | (.default, _) => none

/-- The bytes that are written for a value. Titles and command lines are not terminated. -/
def Field.written (field : Field) (value : List Byte) : List Byte :=
  if field = .title ∨ field = .szAppend then value else value ++ [0]

/-- What a directive should do: every string stays in its array, only the directive's own
one changes, and it becomes the value as far as that fits. -/
structure Recorded (szPath : Option (List Byte)) (entries : Entries)
    (directive : Keyword × List Byte) : Prop where
  terminated : ∀ entry ∈ (entries.handle szPath directive).toList, ∀ field,
    ConfigEntry.Terminated entry field
  earlier : (entries.handle szPath directive).earlier = (entries.opened directive.1).earlier
  others : ∀ field, (target szPath directive).map Prod.fst ≠ some field →
    ConfigEntry.contents (entries.handle szPath directive).currentEntry field =
      ConfigEntry.contents (entries.opened directive.1).currentEntry field
  value : ∀ field value, target szPath directive = some (field, value) →
    ConfigEntry.string (entries.handle szPath directive).currentEntry field =
      value.take (field.array.length - 1)

/-- The value leaves room for the terminator, and a command line is not shorter than the
one that it replaces. -/
def Fits (szPath : Option (List Byte)) (entries : Entries) (directive : Keyword × List Byte) :
    Prop :=
  ∀ field value, target szPath directive = some (field, value) →
    value.length < field.array.length ∧
      (field = .szAppend →
        (ConfigEntry.string entries.currentEntry .szAppend).length ≤ value.length)

section Handling

variable {szPath : Option (List Byte)} {entries : Entries} {directive : Keyword × List Byte}
  {field : Field} {value : List Byte}

theorem strncpy_length (value : List Byte) : strncpy value value.length = value := by
  unfold strncpy
  rw [Nat.sub_self, List.replicate_zero, List.append_nil, List.take_length]

theorem opened_other (keyword : Keyword) (other : keyword ≠ .title) :
    entries.opened keyword = entries := if_neg fun both => other both.1

theorem handle_title (paramdata : List Byte) :
    entries.handle szPath (.title, paramdata) =
      ⟨(entries.opened .title).earlier, Memory.store (Memory.store
        (entries.opened .title).currentEntry Field.title.array.start paramdata) bootSystemOffset
          (dwordBytes sysLinux)⟩ := by
  have same : entries.opened .title =
      if entries.currentEntry Field.title.array.start = 0 then entries
        else entries.nextConfigEntry := by
    unfold Entries.opened
    by_cases fresh : entries.currentEntry Field.title.array.start = 0
    · rw [if_neg fun both => both.2 fresh, if_pos fresh]
    · rw [if_pos ⟨rfl, fresh⟩, if_neg fresh]
  rw [same, ← strncpy_length paramdata]
  nth_rewrite 1 [strncpy_length]
  rfl

theorem handle_initrd (paramdata : List Byte) :
    entries.handle szPath (.initrd, paramdata) =
      if strncmp paramdata (text "no") 2 then entries
      else entries.write .szInitrd (fileName szPath paramdata ++ [0]) := rfl

theorem target_initrd (paramdata : List Byte) :
    target szPath (.initrd, paramdata) = if strncmp paramdata (text "no") 2 then none
      else some (.szInitrd, fileName szPath paramdata) := rfl

theorem handle_none (untargeted : target szPath directive = none) :
    entries.handle szPath directive = entries.opened directive.1 := by
  obtain ⟨keyword, paramdata⟩ := directive
  cases keyword with
  | title => cases untargeted
  | kernel => cases untargeted
  | initrd =>
      have same : entries.opened (Keyword.initrd, paramdata).1 = entries := opened_other _ nofun
      rw [handle_initrd, same]
      rw [target_initrd] at untargeted
      split at untargeted
      · next skipped => rw [if_pos skipped]
      · cases untargeted
  | append => cases untargeted
  | default => rfl

/-- What a directive with a value writes. -/
theorem handle_some (entries : Entries) (targeted : target szPath directive = some (field, value)) :
    (entries.handle szPath directive).earlier = (entries.opened directive.1).earlier ∧
      ∀ other, ConfigEntry.contents (entries.handle szPath directive).currentEntry other =
        ConfigEntry.contents (Memory.store (entries.opened directive.1).currentEntry
          field.array.start (field.written value)) other := by
  obtain ⟨keyword, paramdata⟩ := directive
  cases keyword with
  | title =>
      cases targeted
      rw [handle_title]
      exact ⟨rfl, fun _ => contents_store_front (Nat.le_refl 20)⟩
  | kernel =>
      cases targeted
      exact ⟨rfl, fun _ => rfl⟩
  | initrd =>
      have same : entries.opened (Keyword.initrd, paramdata).1 = entries := opened_other _ nofun
      rw [target_initrd] at targeted
      rw [handle_initrd, same]
      split at targeted
      · cases targeted
      · next used =>
        cases targeted
        rw [if_neg used]
        exact ⟨rfl, fun _ => rfl⟩
  | append =>
      cases targeted
      have same : entries.opened (Keyword.append, value).1 = entries := opened_other _ nofun
      rw [Entries.handle, strncpy_length, same]
      exact ⟨rfl, fun _ => rfl⟩
  | default => cases targeted

/-- Before a directive every string is terminated, and those that are written without a
terminator have nothing behind them. -/
structure Sound (entries : Entries) : Prop where
  terminated : ∀ entry ∈ entries.toList, ∀ field, ConfigEntry.Terminated entry field
  title : ∃ s, Padded (ConfigEntry.contents entries.currentEntry .title) s
  append : ∃ s, Padded (ConfigEntry.contents entries.currentEntry .szAppend) s

/-- An array of zeros. -/
theorem padded_emptyEntry (field : Field) :
    Padded (ConfigEntry.contents emptyEntry field) [] := by
  have positive : field.array.length = field.array.length - 1 + 1 := by
    cases field <;> rfl
  rw [contents_emptyEntry, positive]
  exact ⟨nofun, _, rfl⟩

theorem sound_root : Sound rootParsed.entries := by
  refine ⟨?_, ⟨_, padded_emptyEntry _⟩, ⟨_, padded_emptyEntry _⟩⟩
  intro entry member field
  have same : entry = emptyEntry := List.mem_singleton.mp member
  rw [same]
  exact (padded_emptyEntry field).holds.mem

theorem Sound.opened (sound : Sound entries) (keyword : Keyword) :
    Sound (entries.opened keyword) := by
  unfold Entries.opened
  split
  · refine ⟨?_, ⟨_, padded_emptyEntry _⟩, ⟨_, padded_emptyEntry _⟩⟩
    intro entry member field
    rcases List.mem_append.mp member with old | new
    · exact sound.terminated entry old field
    · rw [List.mem_singleton.mp new]
      exact (padded_emptyEntry field).holds.mem
  · exact sound

/-- A title is written where there is none. -/
theorem Sound.opened_title (sound : Sound entries) :
    Padded (ConfigEntry.contents (entries.opened .title).currentEntry .title) [] := by
  unfold Entries.opened
  split
  · exact padded_emptyEntry _
  · next same =>
    have fresh : entries.currentEntry Field.title.array.start = 0 := by
      by_contra used
      exact same ⟨rfl, used⟩
    obtain ⟨s, nonzero, count, bytes⟩ := sound.title
    cases s with
    | nil => exact ⟨nofun, count, bytes⟩
    | cons c s =>
        have positive : 0 < (ConfigEntry.contents entries.currentEntry .title).length := by
          rw [length_contents]
          decide
        have first := List.getElem_of_eq bytes positive
        rw [getElem_contents, Nat.add_zero, fresh] at first
        exact absurd first.symm (nonzero c List.mem_cons_self)

theorem handle_earlier (szPath : Option (List Byte)) (entries : Entries)
    (directive : Keyword × List Byte) :
    (entries.handle szPath directive).earlier = (entries.opened directive.1).earlier := by
  cases targeted : target szPath directive with
  | none => rw [handle_none targeted]
  | some pair => exact (handle_some _ targeted).1

/-- What a directive of a fitting length writes, and what it leaves. -/
theorem handle_short (entries : Entries) (targeted : target szPath directive = some (field, value))
    (short : value.length < field.array.length) :
    (∀ other, other ≠ field →
      ConfigEntry.contents (entries.handle szPath directive).currentEntry other =
        ConfigEntry.contents (entries.opened directive.1).currentEntry other) ∧
      ConfigEntry.contents (entries.handle szPath directive).currentEntry field =
        field.written value ++ (ConfigEntry.contents (entries.opened directive.1).currentEntry
          field).drop (field.written value).length := by
  have fits : (field.written value).length ≤ field.array.length := by
    unfold Field.written
    split
    · omega
    · rw [List.length_append]
      exact short
  have written := (handle_some entries targeted).2
  refine ⟨fun other different => ?_, ?_⟩
  · rw [written, contents_store_other different fits]
  · rw [written, contents_store fits]

/-- A value that is too long leaves no terminator. -/
theorem handle_long (targeted : target szPath directive = some (field, value))
    (nonzero : ∀ c ∈ value, c ≠ 0) (long : field.array.length ≤ value.length) :
    ¬ConfigEntry.Terminated (entries.handle szPath directive).currentEntry field := by
  intro terminated
  unfold ConfigEntry.Terminated at terminated
  have reaches : field.array.length ≤ (field.written value).length := by
    unfold Field.written
    split
    · exact long
    · rw [List.length_append]
      omega
  rw [(handle_some _ targeted).2, contents_store_long reaches] at terminated
  have same : (field.written value).take field.array.length = value.take field.array.length := by
    unfold Field.written
    split
    · rfl
    · rw [List.take_append_of_le_length long]
  rw [same] at terminated
  exact nonzero 0 (List.mem_of_mem_take terminated) rfl

/-- What is left behind a value. -/
def residue (entries : Entries) (field : Field) (value : List Byte) : List Byte :=
  if field = .szAppend then (ConfigEntry.string entries.currentEntry .szAppend).drop value.length
  else []

theorem keyword_of_target_title (targeted : target szPath directive = some (.title, value)) :
    directive.1 = .title := by
  obtain ⟨keyword, paramdata⟩ := directive
  cases keyword with
  | title => rfl
  | kernel => cases targeted
  | initrd =>
      rw [target_initrd] at targeted
      split at targeted <;> cases targeted
  | append => cases targeted
  | default => cases targeted

theorem keyword_of_target_append (targeted : target szPath directive = some (.szAppend, value)) :
    directive.1 = .append := by
  obtain ⟨keyword, paramdata⟩ := directive
  cases keyword with
  | title => cases targeted
  | kernel => cases targeted
  | initrd =>
      rw [target_initrd] at targeted
      split at targeted <;> cases targeted
  | append => rfl
  | default => cases targeted

/-- A title is written over zeros. -/
theorem handle_padded_title (sound : Sound entries)
    (targeted : target szPath directive = some (.title, value)) (nonzero : ∀ c ∈ value, c ≠ 0)
    (short : value.length < Field.title.array.length) :
    Padded (ConfigEntry.contents (entries.handle szPath directive).currentEntry .title) value := by
  rw [(handle_short _ targeted short).2, keyword_of_target_title targeted]
  refine sound.opened_title.replace nonzero (Nat.zero_le _) ?_
  rw [length_contents]
  exact short

/-- A command line is written over the one before it. -/
theorem handle_append (targeted : target szPath directive = some (.szAppend, value))
    (short : value.length < Field.szAppend.array.length) :
    ConfigEntry.contents (entries.handle szPath directive).currentEntry .szAppend =
      value ++ (ConfigEntry.contents entries.currentEntry .szAppend).drop value.length := by
  rw [(handle_short _ targeted short).2, keyword_of_target_append targeted,
    opened_other .append nofun]
  rfl

theorem handle_padded_append (sound : Sound entries)
    (targeted : target szPath directive = some (.szAppend, value)) (nonzero : ∀ c ∈ value, c ≠ 0)
    (short : value.length < Field.szAppend.array.length)
    (reaches : (ConfigEntry.string entries.currentEntry .szAppend).length ≤ value.length) :
    Padded (ConfigEntry.contents (entries.handle szPath directive).currentEntry .szAppend)
      value := by
  obtain ⟨s, padded⟩ := sound.append
  have same : ConfigEntry.string entries.currentEntry .szAppend = s := padded.holds.takeWhile
  rw [same] at reaches
  rw [handle_append targeted short]
  exact padded.replace nonzero reaches (by rw [length_contents]; exact short)

/-- The string that a directive of a fitting length makes. -/
theorem handle_holds (sound : Sound entries)
    (targeted : target szPath directive = some (field, value)) (nonzero : ∀ c ∈ value, c ≠ 0)
    (short : value.length < field.array.length) :
    Holds (ConfigEntry.contents (entries.handle szPath directive).currentEntry field)
      (value ++ residue entries field value) := by
  unfold residue
  cases field with
  | title =>
      rw [if_neg nofun, List.append_nil]
      exact (handle_padded_title sound targeted nonzero short).holds
  | szAppend =>
      obtain ⟨s, padded⟩ := sound.append
      have same : ConfigEntry.string entries.currentEntry .szAppend = s := padded.holds.takeWhile
      rw [if_pos rfl, same]
      rcases Nat.le_total s.length value.length with reaches | shorter
      · rw [List.drop_eq_nil_of_le reaches, List.append_nil]
        rw [← same] at reaches
        exact (handle_padded_append sound targeted nonzero short reaches).holds
      · rw [handle_append targeted short]
        exact padded.residue nonzero shorter
  | szPath =>
      rw [if_neg nofun, List.append_nil, (handle_short _ targeted short).2]
      exact holds_terminated nonzero _
  | szKernel =>
      rw [if_neg nofun, List.append_nil, (handle_short _ targeted short).2]
      exact holds_terminated nonzero _
  | szInitrd =>
      rw [if_neg nofun, List.append_nil, (handle_short _ targeted short).2]
      exact holds_terminated nonzero _

/-- Directives that fit keep the entries sound. -/
theorem Sound.handle (sound : Sound entries) (fits : Fits szPath entries directive)
    (nonzero : ∀ field value, target szPath directive = some (field, value) → ∀ c ∈ value, c ≠ 0) :
    Sound (entries.handle szPath directive) := by
  have opened := sound.opened directive.1
  cases targeted : target szPath directive with
  | none =>
      rw [handle_none targeted]
      exact opened
  | some pair =>
      obtain ⟨field, value⟩ := pair
      have solid := nonzero field value targeted
      obtain ⟨short, reaches⟩ := fits field value targeted
      have others := (handle_short entries targeted short).1
      have holds := handle_holds sound targeted solid short
      refine ⟨?_, ?_, ?_⟩
      · intro entry member other
        rcases List.mem_append.mp member with old | new
        · rw [handle_earlier] at old
          exact opened.terminated entry (List.mem_append_left _ old) other
        · rw [List.mem_singleton.mp new]
          by_cases same : other = field
          · rw [same]
            exact holds.mem
          · rw [ConfigEntry.Terminated, others other same]
            exact opened.terminated _ (List.mem_append_right _ List.mem_cons_self) other
      · by_cases same : field = .title
        · subst same
          exact ⟨value, handle_padded_title sound targeted solid short⟩
        · rw [others .title (Ne.symm same)]
          exact opened.title
      · by_cases same : field = .szAppend
        · subst same
          exact ⟨value, handle_padded_append sound targeted solid short (reaches rfl)⟩
        · rw [others .szAppend (Ne.symm same)]
          exact opened.append

/-- A directive is recorded if and only if its value fits. -/
theorem recorded_iff_fits (sound : Sound entries)
    (nonzero : ∀ field value, target szPath directive = some (field, value) → ∀ c ∈ value, c ≠ 0) :
    Recorded szPath entries directive ↔ Fits szPath entries directive := by
  constructor
  · intro recorded field value targeted
    have solid := nonzero field value targeted
    have short : value.length < field.array.length := by
      by_contra long
      exact handle_long targeted solid (Nat.not_lt.mp long)
        (recorded.terminated _ (List.mem_append_right _ List.mem_cons_self) field)
    refine ⟨short, ?_⟩
    rintro rfl
    have made := recorded.value _ value targeted
    have holds := (handle_holds sound targeted solid short).takeWhile
    have whole : value.take (Field.szAppend.array.length - 1) = value :=
      List.take_of_length_le (by omega)
    rw [whole] at made
    have same := congrArg List.length (holds.symm.trans made)
    rw [residue, if_pos rfl, List.length_append, List.length_drop] at same
    omega
  · intro fits
    have kept := sound.handle fits nonzero
    refine ⟨kept.terminated, handle_earlier szPath entries directive, ?_, ?_⟩
    · intro other different
      cases targeted : target szPath directive with
      | none => rw [handle_none targeted]
      | some pair =>
          obtain ⟨field, value⟩ := pair
          rw [targeted] at different
          exact (handle_short _ targeted (fits field value targeted).1).1 other
            fun same => different (congrArg some same.symm)
    · intro field value targeted
      obtain ⟨short, reaches⟩ := fits field value targeted
      have made := (handle_holds sound targeted (nonzero field value targeted) short).takeWhile
      have none : residue entries field value = [] := by
        unfold residue
        split
        · next same => exact List.drop_eq_nil_of_le (reaches same)
        · rfl
      rw [none, List.append_nil] at made
      rw [List.take_of_length_le (by omega)]
      exact made

end Handling

end Cromwell.Config
