import Cromwell.Config.Recording
import Cromwell.Config.Sections

/-!
# Well-formed files

The lines of a well-formed file are blank, or a keyword and a value of a length that fits,
with whitespace behind each. Such a file is parsed to the entries of its lines.
-/

namespace Cromwell.Config

open Cromwell.Std Cromwell.Std.TextBuffer Cromwell.Std.Program Cromwell.Lib

/-! ## Lines and files -/

/-- A line of a file, taken apart. -/
inductive Line where
  | blank (spaces : List Byte)
  | directive (key : Keyword) (gap value trail : List Byte)

namespace Line

/-- The characters of a line. -/
def bytes : Line → List Byte
  | blank spaces => spaces
  | directive key gap value trail => key.name ++ (gap ++ (value ++ trail))

/-- The keyword and the value on a line. -/
def content : Line → Option (Keyword × List Byte)
  | blank _ => none
  | directive key _ value _ => some (key, value)

/-- The space for a value, which shares its array with a path unless it is a title. -/
def room (szPath : Option (List Byte)) (key : Keyword) : Nat :=
  if key = .title then 15 else 2047 - (szPath.getD []).length

/-- A value begins and ends with something else than whitespace and leaves room for the
terminator. -/
def WellFormed (szPath : Option (List Byte)) : Line → Prop
  | blank spaces => ∀ c ∈ spaces, c ∈ text " \t\r"
  | directive key gap value trail =>
    (gap ≠ [] ∧ ∀ c ∈ gap, c ∈ text " \t") ∧
      (∃ c more, value = c :: more ∧ isspace c = false) ∧
      (∃ front c, value = front ++ [c] ∧ isspace c = false) ∧
      (∀ c ∈ value, c ≠ 0 ∧ c ≠ newlineChar) ∧ value.length < room szPath key ∧
      ∀ c ∈ trail, c ∈ text " \t\r"

end Line

/-- The lines of a file with newlines between them. -/
def fileBytes (file : List Line) : List Byte := [newlineChar].intercalate (file.map Line.bytes)

/-- The lines that are not blank. -/
def fileLines (file : List Line) : List (Keyword × List Byte) := file.filterMap Line.content

structure WellFormed (szPath : Option (List Byte)) (file : List Line) : Prop where
  lines : ∀ line ∈ file, line.WellFormed szPath
  once : ∀ own ∈ sections (fileLines file), AppendOnce own

/-! ## The directives of a well-formed file -/

section Lines

variable {szPath : Option (List Byte)} {line : Line}

theorem blank_of_spaces {spaces : List Byte} (blank : ∀ c ∈ spaces, c ∈ text " \t\r") :
    Blank spaces := by
  have space : ∀ c ∈ text " \t\r", isspace c = true := by decide
  exact fun c member => space c (blank c member)

theorem keyword_name (key : Keyword) : keyword key.name = some key := by
  cases key <;> decide

theorem separated_name (key : Keyword) : separated key.name = false := by
  cases key <;> decide

theorem keyword_of_blank {t : List Byte} (blank : Blank t) : keyword t = none := by
  have spaces : keyword ([] ++ t) = keyword [] := keyword_append_blank blank
  rw [List.nil_append] at spaces
  exact spaces.trans rfl

/-- A text that begins and ends with something else is what is stripped out of whitespace. -/
theorem value_between {before v after : List Byte} (blank : Blank before) (blank' : Blank after)
    (first : ∃ c more, v = c :: more ∧ isspace c = false)
    (last : ∃ front c, v = front ++ [c] ∧ isspace c = false) :
    value (before ++ (v ++ after)) = v := by
  obtain ⟨front, d, ends, solid'⟩ := last
  have whole : body v = v := by
    rw [ends]
    exact List.rdropWhile_concat_neg isspace front d (by simp [solid'])
  have some_body : body v ≠ [] := by
    rw [whole, ends]
    exact List.append_ne_nil_of_right_ne_nil front (List.cons_ne_nil d [])
  obtain ⟨c, more, begins, solid⟩ := first
  rw [← List.append_assoc, value_append_blank blank', value, body_append, if_neg some_body, whole,
    List.dropWhile_append_of_pos blank, begins, List.dropWhile_cons_of_neg (by simp [solid])]

/-- The first word of a directive is its keyword, and the rest goes on in the gap. -/
theorem word_directive {gap : List Byte} (others : List Byte) (key : Keyword)
    (some_gap : gap ≠ []) (separators : ∀ c ∈ gap, c ∈ text " \t") :
    word (key.name ++ (gap ++ others)) = key.name ∧
      rest (key.name ++ (gap ++ others)) = gap.tail ++ others := by
  obtain ⟨space, gap, rfl⟩ := List.exists_cons_of_ne_nil some_gap
  have separator : isSeparator space = true := by
    simpa [isSeparator] using separators space List.mem_cons_self
  have parts : word (key.name ++ (space :: gap ++ others)) =
      key.name ++ word (space :: gap ++ others) ∧
        rest (key.name ++ (space :: gap ++ others)) = rest (space :: gap ++ others) :=
    word_append_of_not_separated _ (separated_name key)
  rw [parts.1, parts.2]
  simp [word, rest, separator]

theorem map_edit (key : Keyword) (t : List Byte) :
    t.map (edit key.name) = if key = .kernel ∨ key = .initrd then slashes t else t := by
  unfold edit
  simp only [keyword_name, Option.some.injEq]
  split
  · next image =>
    simp only [image, true_and]
    rfl
  · next other => simp only [other, false_and, if_false, List.map_id']

/-- The directive on a line is its keyword and its value. -/
theorem Line.WellFormed.directive (wellFormed : line.WellFormed szPath) :
    Config.directive line.bytes = line.content.map edited := by
  cases line with
  | blank spaces =>
      have none := keyword_of_blank (blank_word (blank_of_spaces wellFormed))
      change (keyword (word spaces)).map _ = _
      rw [none]
      rfl
  | directive key gap value trail =>
      obtain ⟨⟨some_gap, separators⟩, first, last, -, -, spaces⟩ := wellFormed
      have separator_blank : ∀ c ∈ text " \t", isspace c = true := by decide
      have blank : Blank gap.tail := fun c member =>
        separator_blank c (separators c (List.mem_of_mem_tail member))
      obtain ⟨name, behind⟩ := word_directive (value ++ trail) key some_gap separators
      have found := value_between blank (blank_of_spaces spaces) first last
      have whole : (Line.directive key gap value trail).bytes =
          key.name ++ (gap ++ (value ++ trail)) := rfl
      rw [Config.directive, whole, name, behind, found, keyword_name, Option.map_some, map_edit]
      rfl

/-- A line of a well-formed file is independent of the others. -/
theorem Line.WellFormed.isolated (wellFormed : line.WellFormed szPath) :
    separated line.bytes = true ∨ keyword (word line.bytes) = none := by
  cases line with
  | blank spaces => exact .inr (keyword_of_blank (blank_word (blank_of_spaces wellFormed)))
  | directive key gap value trail =>
      obtain ⟨⟨some_gap, separators⟩, -⟩ := wellFormed
      obtain ⟨space, gap, rfl⟩ := List.exists_cons_of_ne_nil some_gap
      have separator : isSeparator space = true := by
        simpa [isSeparator] using separators space List.mem_cons_self
      exact .inl (List.any_eq_true.mpr ⟨space, by simp [bytes], separator⟩)

/-- A line has neither terminators nor newlines inside. -/
theorem Line.WellFormed.inner (wellFormed : line.WellFormed szPath) :
    ∀ c ∈ line.bytes, c ≠ 0 ∧ c ≠ newlineChar := by
  have space_inner : ∀ c ∈ text " \t\r", c ≠ 0 ∧ c ≠ newlineChar := by decide
  have gap_inner : ∀ c ∈ text " \t", c ≠ 0 ∧ c ≠ newlineChar := by decide
  intro c member
  cases line with
  | blank spaces => exact space_inner c (wellFormed c member)
  | directive key gap value trail =>
      obtain ⟨⟨-, separators⟩, -, -, inner, -, spaces⟩ := wellFormed
      rcases List.mem_append.mp member with name | member
      · have name_inner : ∀ c ∈ key.name, c ≠ 0 ∧ c ≠ newlineChar := by
          cases key <;> decide
        exact name_inner c name
      rcases List.mem_append.mp member with blank | member
      · exact gap_inner c (separators c blank)
      rcases List.mem_append.mp member with own | behind
      · exact inner c own
      · exact space_inner c (spaces c behind)

end Lines

/-! ## Files -/

section Files

variable {szPath : Option (List Byte)} {file : List Line}

/-- An empty file is one blank line. -/
theorem lines_fileBytes (wellFormed : ∀ line ∈ file, line.WellFormed szPath) :
    lines (fileBytes file) = if file = [] then [[]] else file.map Line.bytes := by
  split
  · next empty =>
    rw [empty]
    rfl
  · next some_file =>
    refine List.splitOn_intercalate newlineChar ?_ (by simpa using some_file)
    intro bytes member
    obtain ⟨line, present, rfl⟩ := List.mem_map.mp member
    exact fun newline => ((wellFormed line present).inner newlineChar newline).2 rfl

theorem directives_fileBytes (wellFormed : ∀ line ∈ file, line.WellFormed szPath) :
    directives (fileBytes file) = (fileLines file).map edited := by
  rw [directives, lines_fileBytes wellFormed]
  split
  · next empty =>
    rw [empty]
    decide
  · rw [fileLines, List.map_filterMap, List.filterMap_map]
    apply List.filterMap_congr
    intro line member
    exact (wellFormed line member).directive

theorem isolated_fileBytes (wellFormed : ∀ line ∈ file, line.WellFormed szPath) :
    Isolated (lines (fileBytes file)) := by
  rw [lines_fileBytes wellFormed]
  split
  · trivial
  · apply isolated_of_forall
    intro bytes member
    obtain ⟨line, present, rfl⟩ := List.mem_map.mp member
    exact (wellFormed line present).isolated

theorem solid_fileBytes (wellFormed : ∀ line ∈ file, line.WellFormed szPath) :
    Solid (fileBytes file) := by
  induction file with
  | nil => exact nofun
  | cons line more ih =>
      have own : Solid line.bytes := fun c member =>
        ((wellFormed line List.mem_cons_self).inner c member).1
      cases more with
      | nil => simpa [fileBytes] using own
      | cons next more =>
          have later := ih fun line member => wellFormed line (List.mem_cons_of_mem _ member)
          intro c member
          have split : fileBytes (line :: next :: more) =
              line.bytes ++ ([newlineChar] ++ fileBytes (next :: more)) := by
            simp [fileBytes]
          rw [split] at member
          rcases List.mem_append.mp member with here | member
          · exact own c here
          rcases List.mem_append.mp member with newline | there
          · rw [List.mem_singleton.mp newline]
            decide
          · exact later c there

theorem length_pathName (name : List Byte) :
    (pathName szPath name).length ≤ (szPath.getD []).length + 1 + name.length := by
  unfold pathName
  cases szPath with
  | none =>
      dsimp only
      split
      · omega
      · rw [List.length_append]
        exact Nat.le_refl _
  | some szPath =>
      simp
      omega

/-- What a value leaves room for fits. -/
theorem setting_fits {key : Keyword} {value s : List Byte} {field : Field}
    (room : value.length < Line.room szPath key)
    (set : setting szPath (key, value) = some (field, s)) : s.length < field.array.length := by
  have image : (pathName szPath (slashes value)).length ≤
      (szPath.getD []).length + 1 + (slashes value).length := length_pathName _
  have same : (slashes value).length = value.length := List.length_map ..
  rw [same] at image
  unfold Line.room at room
  cases key with
  | title =>
      cases set
      exact room
  | kernel =>
      rw [if_neg nofun] at room
      cases set
      change _ < 2048
      omega
  | initrd =>
      rw [if_neg nofun] at room
      unfold setting at set
      dsimp only at set
      split at set
      · cases set
      · cases set
        change _ < 2048
        omega
  | append =>
      rw [if_neg nofun] at room
      cases set
      change _ < 2048
      omega
  | default => cases set

/-- The values of a well-formed file fit. -/
theorem proper_fileLines (path : ∀ s, szPath = some s → Solid s)
    (wellFormed : ∀ line ∈ file, line.WellFormed szPath) :
    ∀ line ∈ fileLines file, Proper szPath line := by
  intro content member
  obtain ⟨line, present, found⟩ := List.mem_filterMap.mp member
  have form := wellFormed line present
  cases line with
  | blank _ => cases found
  | directive key gap value trail =>
      cases found
      obtain ⟨-, ⟨c, more, first, -⟩, -, inner, room, -⟩ := form
      have solid : Solid value := fun c member => (inner c member).1
      have solid_edited : Solid (edited (key, value)).2 := by
        rw [edited, ← map_edit]
        intro c member
        obtain ⟨d, present, rfl⟩ := List.mem_map.mp member
        exact edit_ne_zero (solid d present)
      refine ⟨fun field s set => ⟨?_, ?_⟩, fun _ => ?_⟩
      · exact target_nonzero path solid_edited field s ((target_edited _).trans set)
      · exact setting_fits room set
      · rw [first]
        exact List.cons_ne_nil c more

end Files

/-- A well-formed file with two zeros behind it is parsed to the strings of its lines. -/
theorem parseConfig_wellFormed (szPath : Option (List Byte)) (file : List Line) (spare : Byte)
    (beyond : List Byte) (path : ∀ s, szPath = some s → Solid s)
    (wellFormed : WellFormed szPath file) :
    (parseConfig (fileBytes file).length szPath).Ensures
      ⟨fileBytes file ++ spare :: 0 :: beyond, []⟩ (fun _ => False) fun result _ =>
        result.1.map ConfigEntry.string =
          (sections (fileLines file)).map (stringOf szPath) := by
  have room : Room (fileBytes file) (0 :: beyond) ((fileBytes file).length + 1)
      ((fileBytes file).length + 2) :=
    ⟨Nat.le_succ _, .inr ⟨[], beyond, rfl, fun _ => nofun, Nat.le_refl _⟩⟩
  refine (parseConfig_isolated (solid_fileBytes wellFormed.lines)
    (isolated_fileBytes wellFormed.lines) room).mono (fun _ never => never) ?_
  rintro _ state ⟨rfl, -⟩
  rw [← entriesOf_sections (proper_fileLines path wellFormed.lines) wellFormed.once,
    ← directives_fileBytes wellFormed.lines]
  unfold outcome
  cases defaultOf (directives (fileBytes file)) with
  | none => rfl
  | some title =>
      refine markDefault_map (fun entry => funext fun field => ?_) title _
      have front : isDefaultOffset + (dwordBytes 1).length ≤ 20 := by decide
      exact congrArg (List.takeWhile (· ≠ 0)) (contents_store_front front)

theorem parseConfig_wellFormed_two_lines :
    (parseConfig (fileBytes [.directive .title (text " ") (text "Xbox") (text "\r"),
        .directive .kernel (text "\t") (text "boot\\vmlinuz") []]).length
      (some (text "/linux"))).Ensures
      ⟨fileBytes [.directive .title (text " ") (text "Xbox") (text "\r"),
        .directive .kernel (text "\t") (text "boot\\vmlinuz") []] ++ 0 :: 0 :: [], []⟩
      (fun _ => False) fun result _ => result.1.map ConfigEntry.string =
        (sections [(.title, text "Xbox"), (.kernel, text "boot\\vmlinuz")]).map
          (stringOf (some (text "/linux"))) := by
  apply parseConfig_wellFormed
  · intro s path
    cases path
    unfold Solid
    decide
  · refine ⟨?_, ?_⟩
    · intro line member
      simp only [List.mem_cons, List.not_mem_nil, or_false] at member
      rcases member with rfl | rfl
      · exact ⟨by decide, ⟨_, _, rfl, by decide⟩, ⟨text "Xbo", _, rfl, by decide⟩, by decide,
          by decide, by decide⟩
      · exact ⟨by decide, ⟨_, _, rfl, by decide⟩, ⟨text "boot\\vmlinu", _, rfl, by decide⟩,
          by decide, by decide, by decide⟩
    · unfold AppendOnce
      decide

end Cromwell.Config
