import Cromwell.Config.Lines

/-!
# The directives of a file

Taken line by line, a file is a list of directives: a line whose first word begins with a
keyword is one, with what is stripped of the rest of the line as its value. The parser
agrees with this reading on files whose lines are isolated, and it stays in its buffer on
files that do not overrun.
-/

namespace Cromwell.Config

open Cromwell.Std Cromwell.Lib

/-! ## Lines by themselves -/

/-- A space or a tab ends the word of a line. -/
def isSeparator (c : Byte) : Bool := (text " \t").contains c

/-- The first word of a line. -/
def word (line : List Byte) : List Byte := line.takeWhile (!isSeparator ·)

/-- What is behind the blank that ends the first word. -/
def rest (line : List Byte) : List Byte := (line.dropWhile (!isSeparator ·)).tail

/-- There is a blank behind the first word. -/
def separated (line : List Byte) : Bool := line.any isSeparator

/-- The directive on a line, if there is one. -/
def directive (line : List Byte) : Option (Keyword × List Byte) :=
  (keyword (word line)).map fun keyword => (keyword, (value (rest line)).map (edit (word line)))

/-- The lines of a text, the last one without a newline. -/
def lines (text : List Byte) : List (List Byte) := text.splitOn newlineChar

/-- The directives of a file. -/
def directives (text : List Byte) : List (Keyword × List Byte) :=
  (lines text).filterMap directive

/-- Nothing but whitespace. -/
def Blank (text : List Byte) : Prop := ∀ c ∈ text, isspace c = true

/-- Every directive has a blank behind its keyword, or nothing but blank lines behind it. -/
def Isolated : List (List Byte) → Prop
  | line :: next :: more =>
    (separated line = true ∨ keyword (word line) = none ∨ ∀ later ∈ next :: more, Blank later) ∧
      Isolated (next :: more)
  | _ => True

/-- The last line has no blank, and no earlier line without one has cut whitespace off the
end of the file. -/
def Overruns : List (List Byte) → Prop
  | [] => False
  | [line] => separated line = false
  | line :: next :: more =>
    (separated line = true ∨ trail ([newlineChar].intercalate (next :: more)) = []) ∧
      Overruns (next :: more)

/-! ## Texts by their first line -/

section FirstLine

variable {line others : List Byte}

/-- There is always a line. -/
theorem exists_lines (text : List Byte) : ∃ line more, lines text = line :: more :=
  List.exists_cons_of_ne_nil (List.splitOn_ne_nil newlineChar text)

/-- A text without a newline is one line. -/
theorem lines_last (single : newlineChar ∉ line) : lines line = [line] :=
  List.splitOn_eq_singleton single

/-- A newline ends the first line. -/
theorem lines_cons (single : newlineChar ∉ line) :
    lines (line ++ newlineChar :: others) = line :: lines others :=
  List.splitOn_append_cons_self_of_not_mem single others

/-- One line gives one directive at most. -/
theorem directives_last (single : newlineChar ∉ line) :
    directives line = (directive line).toList := by
  rw [directives, lines_last single]
  cases found : directive line <;> simp [found]

/-- The directive of the first line comes before the others. -/
theorem directives_cons (single : newlineChar ∉ line) :
    directives (line ++ newlineChar :: others) = (directive line).toList ++ directives others := by
  rw [directives, lines_cons single]
  cases found : directive line <;> simp [found, directives]

/-- Texts are taken apart line by line; behind a line any text that is not longer may
follow. -/
theorem text_induction {P : List Byte → Prop} (last : ∀ line, newlineChar ∉ line → P line)
    (more : ∀ line others, newlineChar ∉ line →
      (∀ text : List Byte, text.length ≤ others.length → P text) →
        P (line ++ newlineChar :: others))
    (text : List Byte) : P text := by
  induction size : text.length using Nat.strong_induction_on generalizing text with
  | _ size ih =>
      by_cases single : newlineChar ∈ text
      · obtain ⟨line, others, rfl, first⟩ := List.eq_append_cons_of_mem single
        rw [List.length_append, List.length_cons] at size
        exact more line others first fun text short => ih text.length (by omega) text rfl
      · exact last text single

/-- A text is blank if and only if its lines are. -/
theorem blank_iff_lines (text : List Byte) : Blank text ↔ ∀ line ∈ lines text, Blank line := by
  induction text using text_induction with
  | last line single => simp [lines_last single]
  | more line others single ih =>
      have space : isspace newlineChar = true := rfl
      have later := ih others (Nat.le_refl _)
      rw [lines_cons single, List.forall_mem_cons, ← later]
      unfold Blank
      rw [List.forall_mem_append, List.forall_mem_cons]
      simp only [space, true_and]

/-- A single line has none behind it to run into. -/
theorem isolated_last (single : newlineChar ∉ line) : Isolated (lines line) := by
  rw [lines_last single]
  trivial

/-- A line is isolated if it has a separator or no keyword, or if blank text follows. -/
theorem isolated_cons (single : newlineChar ∉ line) :
    Isolated (lines (line ++ newlineChar :: others)) ↔
      (separated line = true ∨ keyword (word line) = none ∨ Blank others) ∧
        Isolated (lines others) := by
  obtain ⟨next, more, split⟩ := exists_lines others
  rw [lines_cons single, blank_iff_lines others, split]
  exact Iff.rfl

/-- The last line is overrun if its word has no separator behind it. -/
theorem overruns_last (single : newlineChar ∉ line) :
    Overruns (lines line) ↔ separated line = false := by
  rw [lines_last single]
  exact Iff.rfl

/-- The lines behind it decide, unless a word without a separator is cut off by space at the end. -/
theorem overruns_cons (single : newlineChar ∉ line) :
    Overruns (lines (line ++ newlineChar :: others)) ↔
      (separated line = true ∨ trail others = []) ∧ Overruns (lines others) := by
  obtain ⟨next, more, split⟩ := exists_lines others
  have joined : [newlineChar].intercalate (next :: more) = others := by
    rw [← split]
    exact List.intercalate_splitOn newlineChar
  rw [lines_cons single, split, Overruns, joined]

/-- Lines are isolated if each of them is by itself. -/
theorem isolated_of_forall {ls : List (List Byte)}
    (each : ∀ line ∈ ls, separated line = true ∨ keyword (word line) = none) : Isolated ls := by
  induction ls with
  | nil => trivial
  | cons line more ih =>
      cases more with
      | nil => trivial
      | cons next more =>
          refine ⟨?_, ih fun line member => each line (List.mem_cons_of_mem _ member)⟩
          exact (each line List.mem_cons_self).imp_right .inl

/-- A file whose last line has a blank does not overrun. -/
theorem not_overruns_of_forall {ls : List (List Byte)}
    (each : ∀ line ∈ ls, separated line = true) : ¬Overruns ls := by
  induction ls with
  | nil => exact id
  | cons line more ih =>
      cases more with
      | nil => simp [Overruns, each line List.mem_cons_self]
      | cons next more =>
          rintro ⟨-, later⟩
          exact ih (fun line member => each line (List.mem_cons_of_mem _ member)) later

end FirstLine

/-! ## Whitespace at the end -/

section Body

variable {t line others spaces : List Byte}

/-- Only a blank text has nothing left without its trailing space. -/
theorem body_eq_nil_iff : body t = [] ↔ Blank t := List.rdropWhile_eq_nil_iff

/-- Without trailing space there is nothing to cut. -/
theorem body_of_trail (none : trail t = []) : body t = t := by
  have whole := body_append_trail t
  rwa [none, List.append_nil] at whole

/-- Trailing space is blank. -/
theorem blank_trail (t : List Byte) : Blank (trail t) := fun _ => isspace_of_mem_trail

/-- Of two texts the trailing space of the second is cut, and of the first only where the
second is blank. -/
theorem body_append (first second : List Byte) :
    body (first ++ second) = if body second = [] then body first else first ++ body second := by
  simp only [body, List.rdropWhile, List.reverse_append, List.dropWhile_append,
    List.isEmpty_iff, List.reverse_eq_nil_iff]
  split
  · rfl
  · rw [List.reverse_append, List.reverse_reverse]

/-- More trailing space changes nothing. -/
theorem body_append_blank (blank : Blank spaces) : body (t ++ spaces) = body t := by
  rw [body_append, if_pos (body_eq_nil_iff.mpr blank)]

/-- Trailing space is cut once. -/
theorem body_body (t : List Byte) : body (body t) = body t :=
  List.rdropWhile_idempotent isspace t

/-- Cutting adds no byte. -/
theorem not_mem_body {c : Byte} (absent : c ∉ t) : c ∉ body t :=
  fun member => absent ((List.rdropWhile_prefix isspace t).subset member)

/-- The value of a line does not depend on space behind it. -/
theorem value_append_blank (blank : Blank spaces) : value (t ++ spaces) = value t := by
  rw [value, value, body_append_blank blank]

/-- The value of a blank text is empty. -/
theorem value_eq_nil (blank : Blank t) : value t = [] := value_of_blank (body_eq_nil_iff.mpr blank)

/-- A word without whitespace in it is found before whitespace or not at all. -/
theorem strncmp_append_blank {name : List Byte} (solid : ∀ c ∈ name, isspace c = false)
    (blank : Blank spaces) :
    strncmp (t ++ spaces) name name.length = strncmp t name name.length := by
  induction name generalizing t with
  | nil => simp [strncmp]
  | cons c name ih =>
      cases t with
      | cons d t =>
          have later := ih (t := t) fun byte member => solid byte (List.mem_cons_of_mem c member)
          simp [strncmp, later]
      | nil =>
          cases spaces with
          | nil => rfl
          | cons space spaces =>
              have different : space ≠ c := by
                rintro rfl
                have here := solid space List.mem_cons_self
                have there := blank space List.mem_cons_self
                exact Bool.false_ne_true (here.symm.trans there)
              simp [strncmp, different]

/-- Keywords hold no space. -/
theorem keyword_solid (keyword : Keyword) : ∀ c ∈ keyword.name, isspace c = false := by
  cases keyword <;> decide

/-- The keyword of a word is found with space behind it as well. -/
theorem keyword_append_blank (blank : Blank spaces) : keyword (t ++ spaces) = keyword t := by
  unfold keyword
  simp only [strncmp_append_blank (keyword_solid _) blank]

/-- With a separator the word ends where it did. -/
theorem word_append_of_separated (spaces : List Byte) (blank : separated t = true) :
    word (t ++ spaces) = word t ∧ rest (t ++ spaces) = rest t ++ spaces := by
  have stops : t.dropWhile (!isSeparator ·) ≠ [] := by
    intro none
    obtain ⟨c, member, separator⟩ := List.any_eq_true.mp blank
    have skipped := List.dropWhile_eq_nil_iff.mp none c member
    simp [separator] at skipped
  constructor
  · have shorter : (t.takeWhile (!isSeparator ·)).length ≠ t.length := by
      intro whole
      have total := congrArg List.length
        (List.takeWhile_append_dropWhile (p := (!isSeparator ·)) (l := t))
      rw [List.length_append, whole] at total
      exact stops (List.length_eq_zero_iff.mp (by omega))
    rw [word, word, List.takeWhile_append, if_neg shorter]
  · rw [rest, rest, List.dropWhile_append, if_neg (by simpa using stops),
      List.tail_append_of_ne_nil stops]

/-- Without one it goes on in what follows. -/
theorem word_append_of_not_separated (spaces : List Byte) (solid : separated t = false) :
    word (t ++ spaces) = t ++ word spaces ∧ rest (t ++ spaces) = rest spaces := by
  have passed : ∀ c ∈ t, (!isSeparator c) = true := by
    intro c member
    simpa using List.any_eq_false.mp solid c member
  exact ⟨List.takeWhile_append_of_pos passed,
    congrArg List.tail (List.dropWhile_append_of_pos passed)⟩

/-- A line without a blank is all word. -/
theorem word_of_not_separated (solid : separated t = false) : word t = t ∧ rest t = [] := by
  have whole := word_append_of_not_separated [] solid
  simpa [word, rest] using whole

/-- A line with a blank is its first word, the blank and the rest. -/
theorem exists_separator (blank : separated t = true) :
    ∃ d, t = word t ++ d :: rest t ∧ d ∈ text " \t" := by
  have stops : t.dropWhile (!isSeparator ·) ≠ [] := by
    intro none
    obtain ⟨c, member, separator⟩ := List.any_eq_true.mp blank
    have skipped := List.dropWhile_eq_nil_iff.mp none c member
    simp [separator] at skipped
  obtain ⟨d, others, split⟩ := List.exists_cons_of_ne_nil stops
  have first := List.head?_dropWhile_not (!isSeparator ·) t
  rw [split] at first
  refine ⟨d, ?_, by simpa [isSeparator] using first⟩
  rw [word, rest, split, List.tail_cons, ← split, List.takeWhile_append_dropWhile]

/-- A word holds no separator. -/
theorem not_separator_of_mem_word {c : Byte} (member : c ∈ word t) : c ∉ text " \t" := by
  simpa [isSeparator] using List.mem_takeWhile_imp member

/-- The word of a blank text is blank. -/
theorem blank_word (blank : Blank t) : Blank (word t) :=
  fun c member => blank c ((List.takeWhile_prefix _).subset member)

/-- So is what follows it. -/
theorem blank_rest (blank : Blank t) : Blank (rest t) :=
  fun c member => blank c ((List.dropWhile_suffix _).subset (List.mem_of_mem_tail member))

/-- Whitespace at the end of a line does not matter. -/
theorem directive_body (line : List Byte) : directive (body line) = directive line := by
  have whole := body_append_trail line
  cases solid : separated (body line) with
  | true =>
      obtain ⟨same_word, same_rest⟩ := word_append_of_separated (trail line) solid
      rw [whole] at same_word same_rest
      unfold directive
      rw [same_word, same_rest, value_append_blank (blank_trail line)]
  | false =>
      obtain ⟨same_word, same_rest⟩ := word_append_of_not_separated (trail line) solid
      rw [whole] at same_word same_rest
      obtain ⟨all_word, no_rest⟩ := word_of_not_separated solid
      unfold directive
      rw [all_word, no_rest, same_word, same_rest,
        keyword_append_blank (blank_word (blank_trail line)),
        value_eq_nil (blank_rest (blank_trail line))]
      rfl

/-- The space behind the last line is cut, not that of the first. -/
theorem body_cons (some_body : body others ≠ []) :
    body (line ++ newlineChar :: others) = line ++ newlineChar :: body others := by
  rw [← List.singleton_append, ← List.append_assoc, body_append, if_neg some_body,
    List.append_assoc, List.singleton_append]

/-- With blank lines behind it the space of the first line is cut as well. -/
theorem body_cons_blank (blank : body others = []) :
    body (line ++ newlineChar :: others) = body line := by
  apply body_append_blank
  intro c member
  rcases List.mem_cons.mp member with rfl | later
  · rfl
  · exact body_eq_nil_iff.mp blank c later

/-- Whitespace at the end of a text does not matter. -/
theorem directives_body (t : List Byte) : directives (body t) = directives t := by
  induction t using text_induction with
  | last line single =>
      rw [directives_last single, directives_last (not_mem_body single), directive_body]
  | more line others single ih =>
      have later := ih others (Nat.le_refl _)
      rw [directives_cons single]
      by_cases blank : body others = []
      · rw [blank] at later
        rw [body_cons_blank blank, directives_last (not_mem_body single), directive_body, ← later]
        exact (List.append_nil _).symm
      · rw [body_cons blank, directives_cons single, later]

/-- Space at the end of a file isolates nothing. -/
theorem isolated_body (t : List Byte) : Isolated (lines (body t)) ↔ Isolated (lines t) := by
  induction t using text_induction with
  | last line single =>
      exact iff_of_true (isolated_last (not_mem_body single)) (isolated_last single)
  | more line others single ih =>
      have later := ih others (Nat.le_refl _)
      rw [isolated_cons single]
      by_cases blank : body others = []
      · rw [blank] at later
        rw [body_cons_blank blank]
        exact iff_of_true (isolated_last (not_mem_body single))
          ⟨.inr (.inr (body_eq_nil_iff.mp blank)), later.mp (isolated_last List.not_mem_nil)⟩
      · rw [body_cons blank, isolated_cons single, later, ← body_eq_nil_iff, ← body_eq_nil_iff,
          body_body]

end Body

end Cromwell.Config
