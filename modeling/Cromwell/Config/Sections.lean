import Cromwell.Config.Fields

/-!
# Entries by their lines

What a configuration file is for: every title but the first begins another entry, and a
string of an entry is the last value that one of its lines gives it. The parser's entries
have these strings, if all values fit and there is one command line to an entry at most.
-/

namespace Cromwell.Config

open Cromwell.Std Cromwell.Std.TextBuffer Cromwell.Std.Program Cromwell.Lib

/-! ## What lines mean -/

/-- The lines up to the next one that begins an entry, and those of each entry behind. -/
def entryLines : (titled : Bool) → List (Keyword × List Byte) →
    List (Keyword × List Byte) × List (List (Keyword × List Byte))
  | _, [] => ([], [])
  | titled, line :: more =>
    if line.1 = .title ∧ titled then
      let (own, others) := entryLines true more
      ([], (line :: own) :: others)
    else
      let (own, others) := entryLines (titled || line.1 = .title) more
      (line :: own, others)

/-- The lines of every entry. Those before the first title belong to the first entry. -/
def sections (lines : List (Keyword × List Byte)) : List (List (Keyword × List Byte)) :=
  (entryLines false lines).1 :: (entryLines false lines).2

/-- A file name with slashes. -/
def slashes (name : List Byte) : List Byte :=
  name.map fun c => if c = backslashChar then slashChar else c

/-- A file name in a directory, or in the root directory. -/
def pathName (szPath : Option (List Byte)) (name : List Byte) : List Byte :=
  match szPath with
  | some szPath => szPath ++ [slashChar] ++ name
  | none => if [slashChar] <+: name then name else [slashChar] ++ name

/-- The string that a line sets. An image that is not wanted is not one. -/
def setting (szPath : Option (List Byte)) : Keyword × List Byte → Option (Field × List Byte)
  | (.title, value) => some (.title, value)
  | (.kernel, value) => some (.szKernel, pathName szPath (slashes value))
  | (.initrd, value) =>
    if text "no" <+: value then none else some (.szInitrd, pathName szPath (slashes value))
  | (.append, value) => some (.szAppend, value)
  | (.default, _) => none

/-- The last value that lines give a string. -/
def stringOf (szPath : Option (List Byte)) (lines : List (Keyword × List Byte)) (field : Field) :
    List Byte :=
  (((lines.filterMap (setting szPath)).filter (·.1 = field)).getLast?.map Prod.snd).getD []

section Meaning

variable {szPath : Option (List Byte)} {lines : List (Keyword × List Byte)}
  {line : Keyword × List Byte} {field other : Field} {value : List Byte}

theorem stringOf_append_none (unset : setting szPath line = none) :
    stringOf szPath (lines ++ [line]) field = stringOf szPath lines field := by
  simp [stringOf, unset]

theorem stringOf_append_same (set : setting szPath line = some (field, value)) :
    stringOf szPath (lines ++ [line]) field = value := by
  simp [stringOf, set]

theorem stringOf_append_other (set : setting szPath line = some (field, value))
    (different : other ≠ field) :
    stringOf szPath (lines ++ [line]) other = stringOf szPath lines other := by
  simp [stringOf, set, Ne.symm different]

end Meaning

/-! ## Lines and directives -/

/-- The directive of a line, with the value that the parser hands on. -/
def edited (line : Keyword × List Byte) : Keyword × List Byte :=
  (line.1, if line.1 = .kernel ∨ line.1 = .initrd then slashes line.2 else line.2)

section Lines

variable {szPath : Option (List Byte)} {lines : List (Keyword × List Byte)}
  {line : Keyword × List Byte}

theorem fileName_eq_pathName (name : List Byte) : fileName szPath name = pathName szPath name := by
  cases szPath with
  | none =>
      cases name with
      | nil => rfl
      | cons c name =>
          by_cases slash : c = slashChar
          · simp [fileName, pathName, slash]
          · simp [fileName, pathName, slash, Ne.symm slash]
  | some szPath => simp [fileName, pathName]

theorem prefix_slashes (name : List Byte) : text "no" <+: slashes name ↔ text "no" <+: name := by
  have kept : ∀ c d : Byte, d ≠ slashChar → d ≠ backslashChar →
      (d = (if c = backslashChar then slashChar else c) ↔ d = c) := by
    intro c d slash backslash
    split
    · next same => simp [slash, same, backslash]
    · exact Iff.rfl
  have letters : text "no" = [0x6e, 0x6f] := rfl
  rw [letters]
  rcases name with _ | ⟨c, _ | ⟨d, name⟩⟩
  · exact Iff.rfl
  · simp [slashes]
  · simp only [slashes, List.map_cons, List.cons_prefix_cons, List.nil_prefix, and_true]
    rw [kept c _ (by decide) (by decide), kept d _ (by decide) (by decide)]

/-- The parser writes the strings that lines set. -/
theorem target_edited (line : Keyword × List Byte) :
    target szPath (edited line) = setting szPath line := by
  obtain ⟨keyword, value⟩ := line
  cases keyword with
  | title => rfl
  | kernel =>
      change some (Field.szKernel, fileName szPath (slashes value)) = _
      rw [fileName_eq_pathName]
      rfl
  | initrd =>
      change target szPath (.initrd, slashes value) = _
      have skips : strncmp (slashes value) (text "no") 2 = true ↔ text "no" <+: value :=
        strncmp_iff_prefix.trans (prefix_slashes value)
      rw [target_initrd, fileName_eq_pathName, setting]
      exact if_congr skips rfl rfl
  | append => rfl
  | default => rfl

/-- Without a command line there is an empty one. -/
theorem stringOf_szAppend (absent : ∀ line ∈ lines, line.1 ≠ .append) :
    stringOf szPath lines .szAppend = [] := by
  have none : (lines.filterMap (setting szPath)).filter (·.1 = .szAppend) = [] := by
    apply List.filter_eq_nil_iff.mpr
    rintro ⟨field, value⟩ member set
    obtain ⟨line, present, found⟩ := List.mem_filterMap.mp member
    have same : field = .szAppend := by simpa using set
    rw [same, ← target_edited] at found
    have append : (edited line).1 = .append := keyword_of_target_append found
    exact absent line present append
  rw [stringOf, none]
  rfl

end Lines

/-! ## The parser's entries -/

/-- A line whose value is a string that fits its array; a title is not empty. -/
structure Proper (szPath : Option (List Byte)) (line : Keyword × List Byte) : Prop where
  fits : ∀ field value, setting szPath line = some (field, value) →
    (∀ c ∈ value, c ≠ 0) ∧ value.length < field.array.length
  title : line.1 = .title → line.2 ≠ []

/-- No entry has a second command line. -/
def AppendOnce (lines : List (Keyword × List Byte)) : Prop :=
  lines.countP (·.1 = .append) ≤ 1

section Entries

variable {szPath : Option (List Byte)} {entries : Entries} {line : Keyword × List Byte}
  {front own : List (Keyword × List Byte)}

theorem absent_of_appendOnce (once : AppendOnce (front ++ line :: own))
    (append : line.1 = .append) :
    ∀ line ∈ front, line.1 ≠ .append := by
  intro other member same
  have positive : 0 < front.countP (·.1 = .append) :=
    List.countP_pos_iff.mpr ⟨other, member, by simpa using same⟩
  rw [AppendOnce, List.countP_append, List.countP_cons_of_pos (by simpa using append)] at once
  omega

/-- A string is empty if its array begins with a terminator. -/
theorem string_eq_nil_iff {entry : ConfigEntry} {field : Field} :
    ConfigEntry.string entry field = [] ↔ entry field.array.start = 0 := by
  have positive : 0 < (ConfigEntry.contents entry field).length := by
    rw [length_contents]
    cases field <;> decide
  obtain ⟨c, rest, split⟩ := List.exists_cons_of_length_pos positive
  have first := List.getElem_of_eq split positive
  rw [getElem_contents, Nat.add_zero] at first
  change (ConfigEntry.contents entry field).takeWhile (· ≠ 0) = [] ↔ _
  rw [split, first]
  by_cases zero : c = 0
  · simp [zero]
  · simp [zero]

/-- Once its entry is the last one, a line adds its string. -/
theorem handle_strings (sound : Sound entries) (proper : Proper szPath line)
    (fits : Fits szPath entries (edited line))
    (strings : ∀ field, ConfigEntry.string (entries.opened line.1).currentEntry field =
      stringOf szPath front field) (field : Field) :
    ConfigEntry.string (entries.handle szPath (edited line)).currentEntry field =
      stringOf szPath (front ++ [line]) field := by
  cases set : setting szPath line with
  | none =>
      rw [stringOf_append_none set, handle_none ((target_edited line).trans set)]
      exact strings field
  | some pair =>
      obtain ⟨target, value⟩ := pair
      have targeted := (target_edited line).trans set
      have solid := (proper.fits target value set).1
      have recorded := (recorded_iff_fits sound fun _ _ found => by
        rw [target_edited] at found
        exact (proper.fits _ _ found).1).mpr fits
      by_cases same : field = target
      · rw [same, stringOf_append_same set, recorded.value target value targeted]
        exact List.take_of_length_le (Nat.le_sub_one_of_lt (proper.fits target value set).2)
      · rw [stringOf_append_other set same, ← strings field]
        refine congrArg (List.takeWhile (· ≠ 0)) (recorded.others field ?_)
        rw [targeted]
        exact fun found => same (Option.some.inj found).symm

/-- An entry has a title once a line has set one. -/
theorem titled_append (proper : Proper szPath line) :
    stringOf szPath (front ++ [line]) .title ≠ [] ↔
      stringOf szPath front .title ≠ [] ∨ line.1 = .title := by
  obtain ⟨keyword, value⟩ := line
  by_cases title : keyword = .title
  · subst title
    rw [stringOf_append_same rfl]
    exact iff_of_true (proper.title rfl) (.inr rfl)
  · have same : stringOf szPath (front ++ [(keyword, value)]) .title =
        stringOf szPath front .title := by
      cases set : setting szPath (keyword, value) with
      | none => exact stringOf_append_none set
      | some pair =>
          obtain ⟨field, string⟩ := pair
          refine stringOf_append_other set fun same => title ?_
          have targeted := (target_edited (keyword, value)).trans set
          rw [← same] at targeted
          exact keyword_of_target_title targeted
    rw [same]
    exact (or_iff_left title).symm

/-- What is proper about a line fits, if its entry has no command line yet. -/
theorem Proper.fits_edited (proper : Proper szPath line)
    (absent : line.1 = .append → ConfigEntry.string entries.currentEntry .szAppend = []) :
    Fits szPath entries (edited line) := by
  intro field value targeted
  refine ⟨(proper.fits field value ((target_edited line).symm.trans targeted)).2, ?_⟩
  rintro rfl
  have append : (edited line).1 = .append := keyword_of_target_append targeted
  rw [absent append]
  exact Nat.zero_le _

theorem Proper.nonzero (proper : Proper szPath line) {field : Field} {value : List Byte}
    (targeted : target szPath (edited line) = some (field, value)) : ∀ c ∈ value, c ≠ 0 :=
  (proper.fits field value ((target_edited line).symm.trans targeted)).1

/-- The last entry is what the lines in front have set, and its title is known of. -/
structure LastEntry (szPath : Option (List Byte)) (front : List (Keyword × List Byte))
    (titled : Bool) (entries : Entries) : Prop where
  sound : Sound entries
  strings : ∀ field, ConfigEntry.string entries.currentEntry field = stringOf szPath front field
  title : titled = true ↔ stringOf szPath front .title ≠ []

section LastEntry

variable {titled : Bool}

theorem LastEntry.opened (last : LastEntry szPath front titled entries) (keyword : Keyword) :
    entries.opened keyword =
      if keyword = .title ∧ titled = true then entries.nextConfigEntry else entries := by
  have used : entries.currentEntry Field.title.array.start ≠ 0 ↔ titled = true := by
    rw [last.title, ← last.strings .title, ne_eq, ne_eq, string_eq_nil_iff]
  exact if_congr (and_congr_right fun _ => used) rfl rfl

/-- A second title begins an entry. -/
theorem LastEntry.begins (last : LastEntry szPath front titled entries)
    (proper : Proper szPath line) (title : line.1 = .title) (second : titled = true) :
    LastEntry szPath [line] true (entries.handle szPath (edited line)) ∧
      (entries.handle szPath (edited line)).earlier = entries.nextConfigEntry.earlier := by
  have opened := last.opened line.1
  rw [if_pos ⟨title, second⟩] at opened
  have fits : Fits szPath entries (edited line) := proper.fits_edited fun append => by
    rw [append] at title
    cases title
  have fresh : ∀ field, ConfigEntry.string (entries.opened line.1).currentEntry field =
      stringOf szPath [] field := by
    intro field
    rw [opened]
    exact string_eq_nil_iff.mpr rfl
  have own : stringOf szPath ([] ++ [line]) .title ≠ [] := (titled_append proper).mpr (.inr title)
  constructor
  · exact ⟨last.sound.handle fits fun _ _ targeted => proper.nonzero targeted,
      handle_strings last.sound proper fits fresh, iff_of_true rfl own⟩
  · rw [← opened]
    exact handle_earlier szPath entries (edited line)

/-- Any other line adds to the entry. -/
theorem LastEntry.follows (last : LastEntry szPath front titled entries)
    (proper : Proper szPath line) (follows : ¬(line.1 = .title ∧ titled = true))
    (absent : line.1 = .append → ∀ other ∈ front, other.1 ≠ .append) :
    LastEntry szPath (front ++ [line]) (titled || line.1 = .title)
        (entries.handle szPath (edited line)) ∧
      (entries.handle szPath (edited line)).earlier = entries.earlier := by
  have opened := last.opened line.1
  rw [if_neg follows] at opened
  have fits : Fits szPath entries (edited line) := proper.fits_edited fun append => by
    rw [last.strings, stringOf_szAppend (absent append)]
  have strings : ∀ field, ConfigEntry.string (entries.opened line.1).currentEntry field =
      stringOf szPath front field := by
    rw [opened]
    exact last.strings
  have title : (titled || line.1 = .title) = true ↔
      stringOf szPath (front ++ [line]) .title ≠ [] := by
    rw [titled_append proper, ← last.title, Bool.or_eq_true, decide_eq_true_iff]
  have earlier := handle_earlier szPath entries (edited line)
  change (entries.handle szPath (edited line)).earlier = (entries.opened line.1).earlier at earlier
  rw [opened] at earlier
  exact ⟨⟨last.sound.handle fits fun _ _ targeted => proper.nonzero targeted,
    handle_strings last.sound proper fits strings, title⟩, earlier⟩

end LastEntry

/-- The entries that lines make, from an entry on that lines in front have made. -/
theorem foldl_entryLines (lines : List (Keyword × List Byte)) :
    ∀ {front : List (Keyword × List Byte)} {entries : Entries} {titled : Bool},
      LastEntry szPath front titled entries → (∀ line ∈ lines, Proper szPath line) →
      AppendOnce (front ++ (entryLines titled lines).1) →
      (∀ others ∈ (entryLines titled lines).2, AppendOnce others) →
      ((lines.map edited).foldl (Entries.handle szPath) entries).toList.map ConfigEntry.string =
        entries.earlier.map ConfigEntry.string ++
          stringOf szPath (front ++ (entryLines titled lines).1) ::
            (entryLines titled lines).2.map (stringOf szPath) := by
  induction lines with
  | nil =>
      intro front entries titled last _ _ _
      have current := funext last.strings
      simp [entryLines, Entries.toList, current]
  | cons line more ih =>
      intro front entries titled last proper once others
      have here := proper line List.mem_cons_self
      have later : ∀ line ∈ more, Proper szPath line := fun line member =>
        proper line (List.mem_cons_of_mem _ member)
      rw [List.map_cons, List.foldl_cons]
      by_cases begins : line.1 = .title ∧ titled = true
      · rw [entryLines, if_pos begins] at once others ⊢
        obtain ⟨next, earlier⟩ := last.begins here begins.1 begins.2
        have started := ih next later (others _ List.mem_cons_self) fun lines member =>
          others lines (List.mem_cons_of_mem _ member)
        have current := funext last.strings
        rw [started, earlier]
        simp [Entries.nextConfigEntry, Entries.toList, current]
      · rw [entryLines, if_neg begins] at once others ⊢
        have together : front ++ line :: (entryLines (titled || line.1 = .title) more).1 =
            (front ++ [line]) ++ (entryLines (titled || line.1 = .title) more).1 := by simp
        change AppendOnce (front ++ line :: (entryLines (titled || line.1 = .title) more).1) at once
        obtain ⟨next, earlier⟩ := last.follows here begins (absent_of_appendOnce once)
        rw [together] at once
        rw [ih next later once others, earlier, ← together]

/-- The entries that lines make. -/
theorem entriesOf_sections {lines : List (Keyword × List Byte)}
    (proper : ∀ line ∈ lines, Proper szPath line)
    (once : ∀ own ∈ sections lines, AppendOnce own) :
    (entriesOf szPath (lines.map edited)).toList.map ConfigEntry.string =
      (sections lines).map (stringOf szPath) := by
  have fresh : ∀ field, ConfigEntry.string rootParsed.entries.currentEntry field =
      stringOf szPath [] field := fun field => string_eq_nil_iff.mpr rfl
  have root : LastEntry szPath [] false rootParsed.entries :=
    ⟨sound_root, fresh, iff_of_false nofun fun titled => titled rfl⟩
  exact foldl_entryLines lines root proper (once _ List.mem_cons_self)
    fun others member => once others (List.mem_cons_of_mem _ member)

end Entries

end Cromwell.Config
