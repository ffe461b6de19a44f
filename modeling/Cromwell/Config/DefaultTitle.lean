import Cromwell.Config.WellFormed

/-!
# The title of the default entry

The title of the last default directive is kept as a place in the buffer, and looked up when
the file has been parsed. By then it is what was written there, unless a file name without a
blank in front of it stands on an earlier line: all the text behind such a line gets slashes.
-/

namespace Cromwell.Config

open Cromwell.Std Cromwell.Std.TextBuffer Cromwell.Std.Program Cromwell.Lib

/-! ## Titles by lines -/

/-- A line after which the rest of the file is taken for a file name. -/
def joins (line : List Byte) : Bool :=
  !separated line && (keyword (word line) = some .kernel || keyword (word line) = some .initrd)

/-- The title of the default entry after a line. -/
def titleAfter (slashed : Bool) (title : Option (List Byte)) (line : List Byte) :
    Option (List Byte) :=
  match directive line with
  | some (.default, written) => some (if slashed then slashes written else written)
  | _ => title

/-- The title of the default entry as it is found behind the lines. -/
def foundTitle : (slashed : Bool) → (title : Option (List Byte)) → List (List Byte) →
    Option (List Byte)
  | _, title, [] => title
  | slashed, title, line :: more =>
    foundTitle (slashed || joins line) (titleAfter slashed title line) more

section Titles

variable {line others t : List Byte} {slashed : Bool} {title : Option (List Byte)}

theorem foundTitle_last (single : newlineChar ∉ line) :
    foundTitle slashed title (lines line) = titleAfter slashed title line := by
  rw [lines_last single]
  rfl

theorem foundTitle_cons (single : newlineChar ∉ line) :
    foundTitle slashed title (lines (line ++ newlineChar :: others)) =
      foundTitle (slashed || joins line) (titleAfter slashed title line) (lines others) := by
  rw [lines_cons single]
  rfl

theorem titleAfter_body : titleAfter slashed title (body line) = titleAfter slashed title line := by
  unfold titleAfter
  rw [directive_body]

/-- The title on a line is its value, with slashes if there is a file name in front of it. -/
theorem titleAfter_eq (slashed : Bool) (title : Option (List Byte)) (line : List Byte) :
    titleAfter slashed title line = if keyword (word line) = some .default then
      some (if slashed then slashes (value (rest line)) else value (rest line)) else title := by
  unfold titleAfter directive
  cases known : keyword (word line) with
  | none => rfl
  | some key =>
      cases key with
      | default =>
          have unchanged : edit (word line) = id := funext fun c => by simp [edit, known]
          rw [if_pos rfl, Option.map_some, unchanged, List.map_id]
      | title => rfl
      | kernel => rfl
      | initrd => rfl
      | append => rfl

/-- Blank lines have no title. -/
theorem foundTitle_blank (blank : Blank t) : foundTitle slashed title (lines t) = title := by
  have all := (blank_iff_lines t).mp blank
  generalize lines t = ls at all
  induction ls generalizing slashed with
  | nil => rfl
  | cons line more ih =>
      have none : titleAfter slashed title line = title := by
        unfold titleAfter directive
        rw [keyword_of_blank (blank_word (all line List.mem_cons_self))]
        rfl
      rw [foundTitle, none]
      exact ih fun later member => all later (List.mem_cons_of_mem _ member)

/-- Whitespace at the end of a text does not matter. -/
theorem foundTitle_body (t : List Byte) (slashed : Bool) (title : Option (List Byte)) :
    foundTitle slashed title (lines (body t)) = foundTitle slashed title (lines t) := by
  induction t using text_induction generalizing slashed title with
  | last line single =>
      rw [foundTitle_last single, foundTitle_last (not_mem_body single), titleAfter_body]
  | more line others single ih =>
      rw [foundTitle_cons single]
      by_cases blank : body others = []
      · rw [body_cons_blank blank, foundTitle_last (not_mem_body single), titleAfter_body,
          foundTitle_blank (body_eq_nil_iff.mp blank)]
      · rw [body_cons blank, foundTitle_cons single]
        exact ih others (Nat.le_refl _) _ _

end Titles

/-! ## Slashes -/

section Slashes

variable {t line others name : List Byte}

/-- The change of one character. -/
def slash (c : Byte) : Byte := if c = backslashChar then slashChar else c

theorem slashes_eq_map (t : List Byte) : slashes t = t.map slash := rfl

theorem slash_slash (c : Byte) : slash (slash c) = slash c := by
  unfold slash
  by_cases backslash : c = backslashChar
  · rw [if_pos backslash]
    rfl
  · rw [if_neg backslash, if_neg backslash]

theorem slashes_slashes (t : List Byte) : slashes (slashes t) = slashes t := by
  rw [slashes_eq_map, slashes_eq_map, List.map_map]
  exact List.map_congr_left fun c _ => slash_slash c

/-- Characters other than the two slashes are told as before. -/
theorem slash_eq_iff {c mark : Byte} (slash_other : mark ≠ slashChar)
    (other : mark ≠ backslashChar) :
    slash c = mark ↔ c = mark := by
  unfold slash
  split
  · next same =>
    rw [same]
    exact iff_of_false (Ne.symm slash_other) (Ne.symm other)
  · exact Iff.rfl

theorem isSeparator_slash (c : Byte) : isSeparator (slash c) = isSeparator c := by
  unfold slash
  split
  · next same =>
    rw [same]
    decide
  · rfl

theorem isspace_slash (c : Byte) : isspace (slash c) = isspace c := by
  unfold slash
  split
  · next same =>
    rw [same]
    decide
  · rfl

theorem word_slashes (line : List Byte) : word (slashes line) = slashes (word line) := by
  have same : (fun c => !isSeparator c) ∘ slash = fun c => !isSeparator c :=
    funext fun c => congrArg not (isSeparator_slash c)
  rw [word, slashes_eq_map, List.takeWhile_map, same]
  rfl

theorem rest_slashes (line : List Byte) : rest (slashes line) = slashes (rest line) := by
  have same : (fun c => !isSeparator c) ∘ slash = fun c => !isSeparator c :=
    funext fun c => congrArg not (isSeparator_slash c)
  rw [rest, slashes_eq_map, List.dropWhile_map, same, ← List.map_tail]
  rfl

theorem value_slashes (t : List Byte) : value (slashes t) = slashes (value t) := by
  have same : isspace ∘ slash = isspace := funext isspace_slash
  have stripped : body (slashes t) = slashes (body t) := by
    rw [body, body, List.rdropWhile, List.rdropWhile, slashes_eq_map, slashes_eq_map,
      ← List.map_reverse, List.dropWhile_map, same, ← List.map_reverse]
  rw [value, stripped, slashes_eq_map, List.dropWhile_map, same]
  rfl

theorem strncmp_slashes {name : List Byte} (plain : ∀ c ∈ name, c ≠ slashChar ∧ c ≠ backslashChar)
    (t : List Byte) (count : Nat) : strncmp (slashes t) name count = strncmp t name count := by
  induction count generalizing t name with
  | zero => simp [strncmp]
  | succ count ih =>
      cases t with
      | nil => rfl
      | cons c t =>
          cases name with
          | nil => rfl
          | cons d name =>
              obtain ⟨slash_other, other⟩ := plain d List.mem_cons_self
              have first : decide (slash c = d) = decide (c = d) := by
                simp only [slash_eq_iff slash_other other]
              have later := ih (fun e member => plain e (List.mem_cons_of_mem d member)) t
              change (decide (slash c = d) && strncmp (slashes t) name count) = _
              rw [first, later]
              rfl

theorem keyword_slashes (t : List Byte) : keyword (slashes t) = keyword t := by
  have plain : ∀ key : Keyword, ∀ c ∈ key.name, c ≠ slashChar ∧ c ≠ backslashChar := by
    intro key
    cases key <;> decide
  unfold keyword
  simp only [strncmp_slashes (plain _)]

/-- On a changed line the title is the changed one. -/
theorem titleAfter_slashes (slashed : Bool) (title : Option (List Byte)) (line : List Byte) :
    titleAfter slashed title (slashes line) = titleAfter true title line := by
  rw [titleAfter_eq, titleAfter_eq, word_slashes, keyword_slashes, rest_slashes, value_slashes]
  cases slashed with
  | false => rfl
  | true => rw [if_pos rfl, slashes_slashes, if_pos rfl]

theorem not_mem_slashes (single : newlineChar ∉ line) : newlineChar ∉ slashes line := by
  intro member
  obtain ⟨c, inside, same⟩ := List.mem_map.mp member
  have newline : slash c = newlineChar := same
  rw [slash_eq_iff (by decide) (by decide)] at newline
  exact single (newline ▸ inside)

/-- Behind a file name without a blank every title gets slashes. -/
theorem foundTitle_slashes (t : List Byte) (slashed : Bool) (title : Option (List Byte)) :
    foundTitle slashed title (lines (slashes t)) = foundTitle true title (lines t) := by
  induction t using text_induction generalizing slashed title with
  | last line single =>
      rw [foundTitle_last single, foundTitle_last (not_mem_slashes single), titleAfter_slashes]
  | more line others single ih =>
      have split : slashes (line ++ newlineChar :: others) =
          slashes line ++ newlineChar :: slashes others := List.map_append
      rw [split, foundTitle_cons single, foundTitle_cons (not_mem_slashes single),
        titleAfter_slashes, ih others (Nat.le_refl _), Bool.true_or]

/-- What is left of the text behind a line without a blank has the titles that are found
there. -/
theorem foundTitle_joined (solid : separated line = false) (title : Option (List Byte))
    (others : List Byte) : foundTitle false title (lines ((body others).map (edit line))) =
      foundTitle (joins line) title (lines others) := by
  obtain ⟨all_word, -⟩ := word_of_not_separated solid
  unfold joins
  rw [solid, all_word, Bool.not_false, Bool.true_and]
  by_cases file : keyword line = some .kernel ∨ keyword line = some .initrd
  · have change : edit line = slash := by
      funext c
      simp only [edit, slash, file, true_and]
    have joined : (decide (keyword line = some .kernel) || decide (keyword line = some .initrd)) =
        true := by simpa using file
    rw [change, ← slashes_eq_map, foundTitle_slashes, foundTitle_body, joined]
  · have change : edit line = id := by
      funext c
      simp only [edit, file, false_and, if_false, id]
    have apart : (decide (keyword line = some .kernel) || decide (keyword line = some .initrd)) =
        false := by simpa using file
    rw [change, List.map_id, foundTitle_body, apart]

/-- The title that is found is the one that is written, or that with slashes. -/
theorem rel_foundTitle (ls : List (List Byte)) (slashed : Bool) {written found : Option (List Byte)}
    (related : Option.Rel (fun written found => found = written ∨ found = slashes written)
      written found) :
    Option.Rel (fun written found => found = written ∨ found = slashes written)
      ((ls.filterMap directive).foldl (fun title directive =>
        if directive.1 = .default then some directive.2 else title) written)
      (foundTitle slashed found ls) := by
  induction ls generalizing slashed written found with
  | nil => exact related
  | cons line more ih =>
      rw [foundTitle, List.filterMap_cons]
      cases own : directive line with
      | none =>
          have same : titleAfter slashed found line = found := by
            unfold titleAfter
            rw [own]
          rw [same]
          exact ih _ related
      | some pair =>
          obtain ⟨key, value⟩ := pair
          apply ih
          dsimp only
          unfold titleAfter
          rw [own]
          cases key with
          | default =>
              rw [if_pos rfl]
              cases slashed with
              | false => exact .some (.inl rfl)
              | true => exact .some (.inr rfl)
          | title => exact related
          | kernel => exact related
          | initrd => exact related
          | append => exact related

theorem foundTitle_of_defaultOf {title : List Byte} (last : defaultOf (directives t) = some title) :
    ∃ found, foundTitle false none (lines t) = some found ∧
      (found = title ∨ found = slashes title) := by
  have related := rel_foundTitle (lines t) false Option.Rel.none
  change Option.Rel _ (defaultOf (directives t)) _ at related
  rw [last] at related
  generalize foundTitle false none (lines t) = found at related ⊢
  cases related with
  | some same => exact ⟨_, rfl, same⟩

end Slashes

/-! ## Runs -/

/-- The title, if it is not empty, is where the parser has noted it. -/
def Noted (bytes : List Byte) (limit bound : Nat) (title : Option (List Byte)) (parsed : Parsed) :
    Prop :=
  ∀ written, title = some written → written ≠ [] →
    ∃ place, parsed.defaultTitle = some place ∧ StringAt bytes limit bound place written

section Runs

variable {szPath : Option (List Byte)} {parsed result : Parsed} {old state : TextBuffer}
  {before word t after : List Byte} {d e : Byte} {limit bound : Nat}
  {title : Option (List Byte)}

theorem Noted.mono {bytes : List Byte} (noted : Noted bytes limit bound title parsed) {limit' : Nat}
    (later : limit ≤ limit') : Noted bytes limit' bound title parsed := by
  intro written found some_written
  obtain ⟨place, here, string⟩ := noted written found some_written
  exact ⟨place, here, string.mono later⟩

theorem add_defaultTitle (word : List Byte) (place : Nat) (t : List Byte) :
    (parsed.add szPath word place t).defaultTitle =
      if keyword word = some .default then some place else parsed.defaultTitle := by
  unfold Parsed.add
  cases known : keyword word with
  | none => rfl
  | some key =>
      change (if key = .default then some place else parsed.defaultTitle) = _
      simp only [Option.some.injEq]

/-- A line notes its own title or leaves the one that is noted. -/
theorem Noted.after_line {own : List Byte} {limit' : Nat}
    (noted : Noted old.bytes before.length bound title parsed)
    (shape : old.bytes = before ++ (word ++ d :: (t ++ e :: after)))
    (done : LineParsed szPath parsed before word t after bound result state)
    (nonzero : ∀ c ∈ t, c ≠ 0) (later : before.length ≤ limit')
    (fits : before.length + word.length + 1 + t.length + 1 ≤ bound)
    (early : own ≠ [] → own = value t ∧ before.length + word.length + 1 + t.length + 1 ≤ limit') :
    Noted state.bytes limit' bound (if keyword word = some .default then some own else title)
      result := by
  intro written found some_written
  rw [done.result, add_defaultTitle]
  by_cases default : keyword word = some .default
  · rw [if_pos default] at found ⊢
    cases found
    obtain ⟨rfl, behind⟩ := early some_written
    have unchanged : edit word = id := funext fun c => by simp [edit, default]
    have string := done.string nonzero fits (.inl behind)
    rw [unchanged, List.map_id] at string
    exact ⟨_, rfl, string⟩
  · rw [if_neg default] at found ⊢
    obtain ⟨place, here, string⟩ := noted written found some_written
    exact ⟨place, here, (string.after_line shape done nonzero).mono later⟩

/-- Where nothing stops a scan it runs off the end of the buffer. -/
theorem scan_cut {stop : Byte → Bool} {p : Nat}
    (going : ∀ c ∈ old.bytes.drop p, stop c = false) :
    (scan stop p).Ensures old (fun _ => True) fun _ _ => False := by
  have none : (old.bytes.drop p).findIdx? stop = none := List.findIdx?_eq_none_iff.mpr going
  unfold Program.Ensures scan
  rw [none]
  trivial

theorem scan_onwards (stop : Byte → Bool) (p : Nat) (old : TextBuffer) :
    (scan stop p).Ensures old (fun _ => True) fun place state =>
      p ≤ place ∧ state.bytes = old.bytes := by
  unfold Program.Ensures scan
  dsimp only
  split
  · trivial
  · exact ⟨Nat.le_add_right _ _, rfl⟩

/-- Without a zero behind it a value is not found the end of. -/
theorem stripData_cut {p : Nat} (endless : 0 ∉ old.bytes.drop p) :
    (stripData p).Ensures old (fun _ => True) fun _ _ => False := by
  refine (scan_onwards _ p old).andThen ?_
  rintro place scanned ⟨behind, same⟩
  have measured : (strlen place).Ensures scanned (fun _ => True) fun _ _ => False := by
    have unended : (scan (· = 0) place).Ensures scanned (fun _ => True) fun _ _ => False := by
      apply scan_cut
      intro c member
      rw [same] at member
      have later : c ∈ old.bytes.drop p := by
        obtain ⟨more, rfl⟩ := Nat.exists_eq_add_of_le behind
        rw [← List.drop_drop] at member
        exact List.mem_of_mem_drop member
      have nonzero : c ≠ 0 := fun zero => endless (zero ▸ later)
      simpa using nonzero
    exact unended.andThen fun _ _ never => never.elim
  exact measured.andThen fun _ _ never => never.elim

/-- A last line without a blank takes the parser out of the buffer, if no zero follows. -/
theorem linePass_cut (szPath : Option (List Byte)) (parsed : Parsed) {line : List Byte}
    (shape : old.bytes = before ++ (line ++ 0 :: after))
    (solid : separated line = false) (inner : ∀ byte ∈ line, byte ≠ 0 ∧ byte ≠ newlineChar)
    (within : old.Within bound) (fits : before.length + line.length + 1 ≤ bound)
    (endless : 0 ∉ after) :
    (linePass szPath (before.length, parsed)).Ensures old (fun _ => True) fun _ _ => False := by
  obtain ⟨all_word, -⟩ := word_of_not_separated solid
  have unseparated : ∀ byte ∈ line, byte ∉ text " \t" := by
    rw [← all_word]
    exact fun _ => not_separator_of_mem_word
  have nonzero : ∀ byte ∈ line, byte ≠ 0 := fun byte member => (inner byte member).1
  have lines_end : ∀ byte ∈ line, byte ≠ 0 ∧ byte ∉ [newlineChar] := by simpa using inner
  have ended := strsep_spec shape rfl lines_end (.inl rfl) within fits
  refine (ended.mono (fun _ never => never.elim) fun _ _ held => held).andThen ?_
  rintro _ closed ⟨-, bytes, within⟩
  have parsing : (parseLine szPath before.length parsed).Ensures closed (fun _ => True)
      fun _ _ => False := by
    have first := strsep_spec bytes rfl (fun byte member => ⟨nonzero byte member,
      unseparated byte member⟩) (.inl rfl) within fits
    refine (first.mono (fun _ never => never.elim) fun _ _ held => held).andThen ?_
    rintro _ split ⟨-, bytes, within⟩
    have measured := strlen_spec bytes rfl nonzero within fits
    refine (measured.mono (fun _ never => never.elim) fun _ _ held => held).andThen ?_
    rintro _ state ⟨rfl, same, -⟩
    have behind : state.bytes.drop (before.length + line.length + 1) = after := by
      rw [same, bytes, Nat.add_assoc, ← List.drop_drop, List.drop_left, ← List.drop_drop,
        List.drop_left, List.drop_one, List.tail_cons]
    have stripping := stripData_cut (by rwa [behind])
    exact stripping.andThen fun _ _ never => never.elim
  exact parsing.andThen fun _ _ never => never.elim

/-- A line has been handled, and the text from `next` on is `tail`. -/
structure NotedLine (title : Option (List Byte)) (next bound : Nat) (tail : List Byte)
    (parsed' : Parsed) (state : TextBuffer) : Prop where
  bytes : ∃ before, before.length = next ∧ state.bytes = before ++ tail
  noted : Noted state.bytes next bound title parsed'
  within : state.Within bound

theorem linePass_noted_separated {line tail : List Byte} {c : Byte} {buffer : TextBuffer}
    (blank : separated line = true) (shape : buffer.bytes = before ++ (line ++ c :: tail))
    (inner : ∀ byte ∈ line, byte ≠ 0 ∧ byte ≠ newlineChar) (stopped : c = 0 ∨ c = newlineChar)
    (within : buffer.Within bound) (fits : before.length + line.length + 1 ≤ bound)
    (noted : Noted buffer.bytes before.length bound title parsed) :
    (linePass szPath (before.length, parsed)).Ensures buffer (fun _ => False) fun result state =>
      ∃ parsed', result = ended c (before.length + line.length + 1) parsed' ∧
        NotedLine (titleAfter false title line) (before.length + line.length + 1) bound tail
          parsed' state := by
  obtain ⟨d, split, separator⟩ := exists_separator blank
  have length : line.length = (word line).length + 1 + (rest line).length := by
    have total := congrArg List.length split
    rw [List.length_append, List.length_cons] at total
    omega
  have nonzero : ∀ byte ∈ rest line, byte ≠ 0 := by
    intro byte member
    rw [split] at inner
    exact (inner byte (List.mem_append_right _ (List.mem_cons_of_mem d member))).1
  have parts : buffer.bytes = before ++ (word line ++ d :: (rest line ++ c :: tail)) := by
    rw [shape]
    nth_rewrite 1 [split]
    simp
  refine (linePass_separated split shape (fun _ => not_separator_of_mem_word) separator inner
    stopped within fits).mono (fun _ never => never) ?_
  rintro result state ⟨parsed', ends, done⟩
  obtain ⟨before', place, bytes⟩ := done.behind
  refine ⟨parsed', ends, ⟨before', by omega, bytes⟩, ?_, done.within⟩
  rw [titleAfter_eq]
  exact noted.after_line parts done nonzero (by omega) (by omega) fun _ => ⟨rfl, by omega⟩

theorem linePass_noted_joined {line t after : List Byte} {c : Byte} {buffer : TextBuffer}
    (solid : separated line = false)
    (shape : buffer.bytes = before ++ (line ++ c :: (t ++ 0 :: after)))
    (inner : ∀ byte ∈ line, byte ≠ 0 ∧ byte ≠ newlineChar) (nonzero : ∀ byte ∈ t, byte ≠ 0)
    (stopped : c = 0 ∨ c = newlineChar) (within : buffer.Within bound)
    (fits : before.length + line.length + 1 + t.length + 1 ≤ bound)
    (noted : Noted buffer.bytes before.length bound title parsed) :
    (linePass szPath (before.length, parsed)).Ensures buffer (fun _ => False) fun result state =>
      ∃ parsed', result = ended c (before.length + line.length + 1) parsed' ∧
        NotedLine (titleAfter false title line) (before.length + line.length + 1) bound
          ((body t).map (edit line) ++ 0 :: (trail t ++ 0 :: after).tail) parsed' state := by
  obtain ⟨all_word, no_rest⟩ := word_of_not_separated solid
  have unseparated : ∀ byte ∈ line, byte ∉ text " \t" := by
    rw [← all_word]
    exact fun _ => not_separator_of_mem_word
  refine (linePass_joined shape unseparated inner nonzero stopped within fits).mono
    (fun _ never => never) ?_
  rintro result state ⟨parsed', ends, done⟩
  refine ⟨parsed', ends, ⟨before ++ (line ++ [0]), by simp; omega, ?_⟩, ?_, done.within⟩
  · rw [done.bytes]
    simp
  · -- Nothing is behind the word, so the line itself has no title.
    have empty : value (rest line) = [] := by
      rw [no_rest]
      rfl
    rw [titleAfter_eq, empty, all_word]
    exact noted.after_line shape done nonzero (by omega) fits fun some_title =>
      absurd rfl some_title

/-- From any place of a buffer that holds the text, the loop notes what its lines give. -/
def NotesTitles (szPath : Option (List Byte)) (bound : Nat) (text : List Byte) : Prop :=
  ∀ ⦃before after : List Byte⦄ ⦃parsed : Parsed⦄ ⦃buffer : TextBuffer⦄ ⦃fuel : Nat⦄
    ⦃title : Option (List Byte)⦄, buffer.bytes = before ++ (text ++ 0 :: after) →
    (∀ c ∈ text, c ≠ 0) → before.length + text.length + 1 + after.length ≤ bound →
    buffer.Within bound → Noted buffer.bytes before.length bound title parsed →
    (Program.loop (linePass szPath) fuel (before.length, parsed)).Ensures buffer
      (fun _ => True) fun result state =>
        Noted state.bytes bound bound (foundTitle false title (lines text)) result ∧
          state.Within bound

/-- Behind a line the loop goes on with the text that is left. -/
theorem NotesTitles.onwards {text : List Byte} (notes : NotesTitles szPath bound text)
    {next fuel : Nat} (handled : NotedLine title next bound (text ++ 0 :: after) parsed state)
    (nonzero : ∀ c ∈ text, c ≠ 0) (room : next + text.length + 1 + after.length ≤ bound) :
    (Program.loop (linePass szPath) fuel (next, parsed)).Ensures state
      (fun _ => True) fun result final =>
        Noted final.bytes bound bound (foundTitle false title (lines text)) result ∧
          final.Within bound := by
  obtain ⟨before, rfl, bytes⟩ := handled.bytes
  exact notes bytes nonzero room handled.within handled.noted

theorem notesTitles_last {line : List Byte} (single : newlineChar ∉ line) :
    NotesTitles szPath bound line := by
  intro before after parsed buffer fuel title shape nonzero room within noted
  have inner : ∀ c ∈ line, c ≠ 0 ∧ c ≠ newlineChar := fun c member =>
    ⟨nonzero c member, fun newline => single (newline ▸ member)⟩
  rw [foundTitle_last single]
  cases fuel with
  | zero => trivial
  | succ fuel =>
      cases blank : separated line with
      | true =>
          refine loop_ended (linePass_noted_separated blank shape inner (.inl rfl) within
            (by omega) noted) (fun _ parsed' state handled => ?_) fun more => absurd rfl more
          exact ⟨handled.noted.mono (by omega), handled.within⟩
      | false =>
          by_cases closed : 0 ∈ after
          · obtain ⟨junk, beyond, rfl, first⟩ := List.eq_append_cons_of_mem closed
            rw [List.length_append, List.length_cons] at room
            have junk_nonzero : ∀ c ∈ junk, c ≠ 0 := fun c member zero => first (zero ▸ member)
            refine loop_ended (linePass_noted_joined blank shape inner junk_nonzero (.inl rfl)
              within (by omega) noted) (fun _ parsed' state handled => ?_)
              fun more => absurd rfl more
            exact ⟨handled.noted.mono (by omega), handled.within⟩
          · have cut := linePass_cut szPath parsed shape blank inner within (by omega) closed
            exact cut.andThen fun _ _ never => never.elim

theorem notesTitles_more {line others : List Byte} (single : newlineChar ∉ line)
    (ih : ∀ text : List Byte, text.length ≤ others.length → NotesTitles szPath bound text) :
    NotesTitles szPath bound (line ++ newlineChar :: others) := by
  intro before after parsed buffer fuel title shape nonzero room within noted
  rw [List.length_append, List.length_cons] at room
  have shape : buffer.bytes = before ++ (line ++ newlineChar :: (others ++ 0 :: after)) :=
    shape.trans (by simp)
  have inner : ∀ c ∈ line, c ≠ 0 ∧ c ≠ newlineChar := fun c member =>
    ⟨nonzero c (List.mem_append_left _ member), fun newline => single (newline ▸ member)⟩
  have others_nonzero : ∀ c ∈ others, c ≠ 0 := fun c member =>
    nonzero c (List.mem_append_right _ (List.mem_cons_of_mem _ member))
  rw [foundTitle_cons single, Bool.false_or]
  cases fuel with
  | zero => trivial
  | succ fuel =>
      cases blank : separated line with
      | true =>
          have apart : joins line = false := by simp [joins, blank]
          rw [apart]
          refine loop_ended (linePass_noted_separated blank shape inner (.inr rfl) within
            (by omega) noted) nofun fun _ parsed' state handled => ?_
          exact (ih others (Nat.le_refl _)).onwards handled others_nonzero (by omega)
      | false =>
          rw [← foundTitle_joined blank]
          refine loop_ended (linePass_noted_joined blank shape inner others_nonzero (.inr rfl)
            within (by omega) noted) nofun fun _ parsed' state handled => ?_
          have total := congrArg List.length (body_append_trail others)
          rw [List.length_append] at total
          have changed_nonzero : ∀ c ∈ (body others).map (edit line), c ≠ 0 := by
            intro c member
            obtain ⟨original, inside, rfl⟩ := List.mem_map.mp member
            exact edit_ne_zero (others_nonzero original
              ((List.rdropWhile_prefix isspace others).subset inside))
          refine (ih _ (by rw [List.length_map]; omega)).onwards handled changed_nonzero ?_
          simp only [List.length_map, List.length_tail, List.length_append, List.length_cons]
          omega

/-- What the loop has noted when it returns. -/
theorem loop_noted (text : List Byte) : NotesTitles szPath bound text := by
  induction text using text_induction with
  | last line single => exact notesTitles_last single
  | more line others single ih => exact notesTitles_more single ih

/-- A file is read up to its first zero. -/
theorem exists_text (file beyond : List Byte) : ∃ after,
    file ++ 0 :: beyond = file.takeWhile (· ≠ 0) ++ 0 :: after ∧
      (file.takeWhile (· ≠ 0)).length + 1 + after.length = file.length + 1 + beyond.length := by
  have split := List.takeWhile_append_dropWhile (p := fun c : Byte => decide (c ≠ 0)) (l := file)
  have total := congrArg List.length split
  rw [List.length_append] at total
  cases behind : file.dropWhile (· ≠ 0) with
  | nil =>
      rw [behind, List.append_nil] at split
      exact ⟨beyond, by rw [split], by rw [split]⟩
  | cons c others =>
      have zero := List.head?_dropWhile_not (fun c : Byte => decide (c ≠ 0)) file
      rw [behind] at zero total split
      obtain rfl : c = 0 := by simpa using zero
      refine ⟨others ++ 0 :: beyond, ?_, ?_⟩
      · nth_rewrite 1 [← split]
        simp
      · rw [List.length_cons] at total
        rw [List.length_append, List.length_cons]
        omega

/-- Whatever a file holds, an entry is marked by the title that is found in it, a string. -/
theorem parseConfig_marks {file beyond : List Byte} {spare : Byte} {written : List Byte}
    (found : foundTitle false none (lines (file.takeWhile (· ≠ 0))) = some written)
    (some_written : written ≠ []) :
    (parseConfig file.length szPath).Ensures ⟨file ++ spare :: beyond, []⟩ (fun _ => True)
      fun result _ => result.1 = markDefault written (entriesOf szPath result.2).toList ∧
        Solid written := by
  have fresh : Within (file.length + 1 + beyond.length) ⟨file ++ spare :: beyond, []⟩ :=
    fun _ member => absurd member List.not_mem_nil
  have ended : (put file.length 0).Ensures ⟨file ++ spare :: beyond, []⟩ (fun _ => False)
      fun _ state => state.bytes = file ++ 0 :: beyond ∧
        state.Within (file.length + 1 + beyond.length) :=
    put_spec rfl rfl fresh (Nat.le_add_right _ _)
  refine (ended.mono (fun _ never => never.elim) fun _ _ held => held).andThen ?_
  rintro _ buffer ⟨bytes, within⟩
  obtain ⟨after, split, total⟩ := exists_text file beyond
  have nonzero : ∀ c ∈ file.takeWhile (· ≠ 0), c ≠ 0 := fun c member => by
    simpa using List.mem_takeWhile_imp member
  have shape : buffer.bytes = [] ++ (file.takeWhile (· ≠ 0) ++ 0 :: after) := bytes.trans split
  have start : Noted buffer.bytes (List.length ([] : List Byte))
      (file.length + 1 + beyond.length) none rootParsed := nofun
  have room : List.length ([] : List Byte) + (file.takeWhile (· ≠ 0)).length + 1 + after.length ≤
      file.length + 1 + beyond.length := by
    rw [List.length_nil, Nat.zero_add]
    exact Nat.le_of_eq total
  have noted : (Program.loop (linePass szPath) (file.length + 1) (0, rootParsed)).Ensures buffer
      (fun _ => True) _ := loop_noted _ shape nonzero room within start
  have both := noted.and (loop_logged (file.length + 1) logged_root buffer)
  refine (both.mono (fun _ _ => trivial) fun _ _ held => held).andThen ?_
  rintro parsed state ⟨⟨noted, within⟩, logged⟩
  obtain ⟨place, here, front, rear, shape, length, solid, fits, -⟩ :=
    noted written found some_written
  rw [here]
  have looked := string_spec shape length solid within fits
  refine (looked.mono (fun _ never => never.elim) fun _ _ held => held).andThen ?_
  rintro _ final ⟨rfl, -, -⟩
  exact ⟨congrArg (fun entries : Entries => markDefault _ entries.toList) logged.entries, solid⟩

end Runs

end Cromwell.Config
