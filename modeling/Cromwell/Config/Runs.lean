import Cromwell.Config.Directives
import Mathlib.Data.List.Forall2

/-!
# Runs of the parser

What the parser has made of the directives so far is their outcome: the entries they are
folded to, and the text of the last default title, which stays where it is in the buffer.
A run over isolated lines handles exactly the directives of the file.
-/

namespace Cromwell.Config

open Cromwell.Std Cromwell.Std.TextBuffer Cromwell.Std.Program Cromwell.Lib

/-! ## Outcomes -/

/-- The entries that directives make. -/
def entriesOf (szPath : Option (List Byte)) (directives : List (Keyword × List Byte)) : Entries :=
  directives.foldl (Entries.handle szPath) rootParsed.entries

/-- The title of the last default directive. -/
def defaultOf (directives : List (Keyword × List Byte)) : Option (List Byte) :=
  directives.foldl (fun title directive =>
    if directive.1 = .default then some directive.2 else title) none

/-- The list that directives lead to. -/
def outcome (szPath : Option (List Byte)) (directives : List (Keyword × List Byte)) :
    List ConfigEntry :=
  match defaultOf directives with
  | none => (entriesOf szPath directives).toList
  | some title => markDefault title (entriesOf szPath directives).toList

/-- A string in the buffer, before a limit unless it is empty. -/
def StringAt (bytes : List Byte) (limit bound place : Nat) (s : List Byte) : Prop :=
  ∃ front rear, bytes = front ++ (s ++ 0 :: rear) ∧ front.length = place ∧ (∀ c ∈ s, c ≠ 0) ∧
    place + s.length + 1 ≤ bound ∧ (place + s.length + 1 ≤ limit ∨ s = [])

/-- What has been parsed is the outcome of the directives handled. -/
structure Represents (szPath : Option (List Byte)) (bytes : List Byte) (limit bound : Nat)
    (parsed : Parsed) : Prop where
  entries : parsed.entries = entriesOf szPath parsed.directives
  default : Option.Rel (fun title place => StringAt bytes limit bound place title)
    (defaultOf parsed.directives) parsed.defaultTitle

/-! ## Zeros stay -/

/-- The bytes of a buffer that have been changed keep their zeros. -/
def KeepsZeros (old new : List Byte) : Prop := List.Forall₂ (fun c d => c = 0 → d = 0) old new

theorem KeepsZeros.refl (bytes : List Byte) : KeepsZeros bytes bytes :=
  List.forall₂_same.mpr fun _ _ zero => zero

theorem KeepsZeros.append {first second first' second' : List Byte}
    (left : KeepsZeros first first') (right : KeepsZeros second second') :
    KeepsZeros (first ++ second) (first' ++ second') :=
  List.rel_append left right

theorem keepsZeros_map {t : List Byte} (change : Byte → Byte) (nonzero : ∀ c ∈ t, c ≠ 0) :
    KeepsZeros t (t.map change) :=
  List.forall₂_map_right_iff.mpr (List.forall₂_same.mpr fun c member zero =>
    absurd zero (nonzero c member))

section Strings

variable {szPath : Option (List Byte)} {parsed result : Parsed} {old state : TextBuffer}
  {before word t after s : List Byte} {d e : Byte} {limit bound place : Nat}

theorem lineParsed_keepsZeros
    (done : LineParsed szPath parsed before word t after bound result state)
    (nonzero : ∀ c ∈ t, c ≠ 0) :
    KeepsZeros (before ++ (word ++ d :: (t ++ e :: after))) state.bytes := by
  have body_nonzero : ∀ c ∈ body t, c ≠ 0 := fun c member =>
    nonzero c ((List.rdropWhile_prefix isspace t).subset member)
  have ends : KeepsZeros (trail t ++ e :: after) (0 :: (trail t ++ 0 :: after).tail) := by
    cases trail t with
    | nil => exact .cons (fun _ => rfl) (KeepsZeros.refl after)
    | cons c spaces =>
        exact .cons (fun _ => rfl)
          ((KeepsZeros.refl spaces).append (.cons (fun _ => rfl) (KeepsZeros.refl after)))
  rw [done.bytes]
  nth_rewrite 1 [← body_append_trail t]
  rw [List.append_assoc]
  refine (KeepsZeros.refl before).append ((KeepsZeros.refl word).append ?_)
  exact .cons (fun _ => rfl) ((keepsZeros_map _ body_nonzero).append ends)

/-- The end of a string stays one. -/
theorem StringAt.kept {bytes bytes' : List Byte} (string : StringAt bytes limit bound place [])
    (kept : KeepsZeros bytes bytes') : StringAt bytes' limit bound place [] := by
  obtain ⟨front, rear, shape, length, nonzero, fits, before⟩ := string
  have behind := List.forall₂_drop place kept
  rw [shape, ← length, List.drop_left] at behind
  obtain ⟨c, rear', zero, -, split⟩ := List.forall₂_cons_left_iff.mp behind
  have same := List.Forall₂.length_eq kept
  refine ⟨bytes'.take place, rear', ?_, ?_, nonzero, fits, before⟩
  · rw [List.nil_append, ← zero rfl, ← split, length, List.take_append_drop]
  · rw [shape, List.length_append] at same
    rw [List.length_take]
    simp at same
    omega

/-- A string before the line that is parsed stays where it is. -/
theorem StringAt.after_line (string : StringAt old.bytes before.length bound place s)
    (shape : old.bytes = before ++ (word ++ d :: (t ++ e :: after)))
    (done : LineParsed szPath parsed before word t after bound result state)
    (nonzero : ∀ c ∈ t, c ≠ 0) : StringAt state.bytes before.length bound place s := by
  obtain ⟨front, rear, split, length, solid, fits, early | empty⟩ := string
  · have prefixed : front ++ (s ++ [0]) <+: before := by
      have first : front ++ (s ++ [0]) <+: old.bytes := ⟨rear, by simp [split]⟩
      have second : before <+: old.bytes := ⟨_, shape.symm⟩
      refine List.prefix_of_prefix_length_le first second ?_
      simp
      omega
    obtain ⟨others, whole⟩ := prefixed
    obtain ⟨tail, bytes⟩ : ∃ tail, state.bytes = before ++ tail := ⟨_, done.bytes⟩
    refine ⟨front, others ++ tail, ?_, length, solid, fits, .inl early⟩
    rw [bytes]
    nth_rewrite 1 [← whole]
    simp
  · subst empty
    refine StringAt.kept ⟨front, rear, split, length, solid, fits, .inr rfl⟩ ?_
    rw [shape]
    exact lineParsed_keepsZeros done nonzero

theorem StringAt.mono {bytes : List Byte} {limit' : Nat}
    (string : StringAt bytes limit bound place s) (later : limit ≤ limit') :
    StringAt bytes limit' bound place s := by
  obtain ⟨front, rear, split, length, solid, fits, before⟩ := string
  exact ⟨front, rear, split, length, solid, fits, before.imp_left fun early => by omega⟩

theorem Represents.mono {bytes : List Byte} {limit' : Nat}
    (represents : Represents szPath bytes limit bound parsed) (later : limit ≤ limit') :
    Represents szPath bytes limit' bound parsed := by
  refine ⟨represents.entries, ?_⟩
  have before := represents.default
  generalize defaultOf parsed.directives = title, parsed.defaultTitle = place at before ⊢
  cases before with
  | none => exact .none
  | some string => exact .some (string.mono later)

/-- The value of the line that has been parsed. -/
theorem LineParsed.string (done : LineParsed szPath parsed before word t after bound result state)
    (nonzero : ∀ c ∈ t, c ≠ 0)
    (fits : before.length + word.length + 1 + t.length + 1 ≤ bound)
    (early : before.length + word.length + 1 + t.length + 1 ≤ limit ∨ value t = []) :
    StringAt state.bytes limit bound (before.length + word.length + 1 + (lead t).length)
      ((value t).map (edit word)) := by
  obtain ⟨front, rear, length, split⟩ := stripped_split (before ++ word) t after
  have short := length_lead_value t
  refine ⟨front, rear, ?_, ?_, ?_, ?_, ?_⟩
  · rw [done.bytes, ← split (edit word) (edit_isspace word), List.append_assoc]
  · rw [length, List.length_append]
  · simp only [List.mem_map, forall_exists_index, and_imp]
    rintro _ c member rfl
    exact edit_ne_zero (nonzero c ((value_sublist t).subset member))
  · rw [List.length_map]
    omega
  · rw [List.length_map]
    exact early.imp (fun early => by omega) fun none => by rw [none]; rfl

/-- What follows a text that has been parsed is where it was. -/
theorem LineParsed.behind (done : LineParsed szPath parsed before word t after bound result state) :
    ∃ before', before'.length = before.length + word.length + 1 + t.length + 1 ∧
      state.bytes = before' ++ after := by
  have body_length := congrArg List.length (body_append_trail t)
  rw [List.length_append] at body_length
  rw [done.bytes]
  cases spaces : trail t with
  | nil =>
      rw [spaces, List.length_nil] at body_length
      refine ⟨before ++ (word ++ 0 :: ((body t).map (edit word) ++ [0])), ?_, by simp⟩
      simp
      omega
  | cons space spaces' =>
      rw [spaces, List.length_cons] at body_length
      refine ⟨before ++ (word ++ 0 :: ((body t).map (edit word) ++ 0 :: (spaces' ++ [0]))), ?_,
        by simp⟩
      simp
      omega

theorem entriesOf_append (directives : List (Keyword × List Byte))
    (directive : Keyword × List Byte) :
    entriesOf szPath (directives ++ [directive]) =
      (entriesOf szPath directives).handle szPath directive := by
  rw [entriesOf, List.foldl_append]
  rfl

theorem defaultOf_append (directives : List (Keyword × List Byte))
    (directive : Keyword × List Byte) :
    defaultOf (directives ++ [directive]) =
      if directive.1 = .default then some directive.2 else defaultOf directives := by
  rw [defaultOf, List.foldl_append]
  rfl

/-- A line that has been parsed adds its directive to the outcome. -/
theorem Represents.after_line {limit' : Nat}
    (represents : Represents szPath old.bytes before.length bound parsed)
    (shape : old.bytes = before ++ (word ++ d :: (t ++ e :: after)))
    (done : LineParsed szPath parsed before word t after bound result state)
    (nonzero : ∀ c ∈ t, c ≠ 0) (later : before.length ≤ limit')
    (fits : before.length + word.length + 1 + t.length + 1 ≤ bound)
    (early : before.length + word.length + 1 + t.length + 1 ≤ limit' ∨
      (keyword word = some .default → value t = [])) :
    Represents szPath state.bytes limit' bound result := by
  have kept : Option.Rel (fun title place => StringAt state.bytes limit' bound place title)
      (defaultOf parsed.directives) parsed.defaultTitle := by
    have before := represents.default
    generalize defaultOf parsed.directives = title, parsed.defaultTitle = place at before ⊢
    cases before with
    | none => exact .none
    | some string => exact .some ((string.after_line shape done nonzero).mono later)
  have added := done.result
  unfold Parsed.add at added
  cases known : keyword word with
  | none =>
      rw [known] at added
      rw [added]
      exact ⟨represents.entries, kept⟩
  | some keyword' =>
      rw [known] at added
      rw [added]
      refine ⟨?_, ?_⟩
      · change parsed.entries.handle szPath _ = entriesOf szPath (parsed.directives ++ [_])
        rw [entriesOf_append, represents.entries]
      · change Option.Rel _ (defaultOf (parsed.directives ++ [_]))
          (if keyword' = .default then some _ else parsed.defaultTitle)
        rw [defaultOf_append]
        by_cases default : keyword' = .default
        · rw [if_pos default, if_pos default]
          rw [default] at known
          exact .some (done.string nonzero fits (early.imp_right fun none => none known))
        · rw [if_neg default, if_neg default]
          exact kept

theorem add_directives :
    (parsed.add szPath word place t).directives = parsed.directives ++
      ((keyword word).map fun keyword => (keyword, (value t).map (edit word))).toList := by
  unfold Parsed.add
  cases keyword word with
  | none => exact (List.append_nil _).symm
  | some keyword => rfl

end Strings

/-! ## Isolated lines -/

/-- Behind a text there is only whitespace before the next zero, which is within the bound. -/
def Guarded (after : List Byte) (limit bound : Nat) : Prop :=
  ∃ junk beyond, after = junk ++ 0 :: beyond ∧ Blank junk ∧ limit + junk.length + 1 ≤ bound

/-- The run over a text stays within the bound. -/
def Room (text after : List Byte) (limit bound : Nat) : Prop :=
  limit ≤ bound ∧ (¬Overruns (lines text) ∨ Guarded after limit bound)

/-- What a run ends with. -/
structure Finished (szPath : Option (List Byte)) (bound : Nat)
    (directives : List (Keyword × List Byte)) (result : Parsed) (state : TextBuffer) : Prop where
  directives : result.directives = directives
  represents : Represents szPath state.bytes bound bound result
  within : state.Within bound

section Isolated

variable {szPath : Option (List Byte)} {bound : Nat}

/-- The loop makes one pass, and goes on or ends. -/
theorem loop_ended {fuel next : Nat} {locals : Nat × Parsed} {buffer : TextBuffer} {c : Byte}
    {cut : TextBuffer → Prop} {returned Held : Parsed → TextBuffer → Prop}
    (pass : (linePass szPath locals).Ensures buffer (fun _ => False) fun result state =>
      ∃ parsed', result = ended c next parsed' ∧ Held parsed' state)
    (atEnd : c = 0 → ∀ parsed' state, Held parsed' state → returned parsed' state)
    (goes_on : c ≠ 0 → ∀ parsed' state, Held parsed' state →
      (Program.loop (linePass szPath) fuel (next, parsed')).Ensures state cut returned) :
    (Program.loop (linePass szPath) (fuel + 1) locals).Ensures buffer cut returned := by
  refine (pass.mono (fun _ never => never.elim) fun _ _ held => held).andThen ?_
  rintro _ state ⟨parsed', rfl, held⟩
  unfold ended
  by_cases last : c = 0
  · rw [if_pos last]
    exact atEnd last parsed' state held
  · rw [if_neg last]
    exact goes_on last parsed' state held

/-- A line has been handled by itself; the next line is at `next`, where `tail` begins. -/
structure Stepped (szPath : Option (List Byte)) (parsed : Parsed) (line : List Byte)
    (next bound : Nat) (tail : List Byte) (parsed' : Parsed) (state : TextBuffer) : Prop where
  directives : parsed'.directives = parsed.directives ++ (directive line).toList
  bytes : ∃ before, before.length = next ∧ state.bytes = before ++ tail
  represents : Represents szPath state.bytes next bound parsed'
  within : state.Within bound

theorem pass_separated {line before tail : List Byte} {c : Byte} {parsed : Parsed}
    {buffer : TextBuffer} (blank : separated line = true)
    (shape : buffer.bytes = before ++ (line ++ c :: tail))
    (inner : ∀ byte ∈ line, byte ≠ 0 ∧ byte ≠ newlineChar) (stopped : c = 0 ∨ c = newlineChar)
    (within : buffer.Within bound) (fits : before.length + line.length + 1 ≤ bound)
    (represents : Represents szPath buffer.bytes before.length bound parsed) :
    (linePass szPath (before.length, parsed)).Ensures buffer (fun _ => False) fun result state =>
      ∃ parsed', result = ended c (before.length + line.length + 1) parsed' ∧
        Stepped szPath parsed line (before.length + line.length + 1) bound tail parsed' state := by
  obtain ⟨d, split, separator⟩ := exists_separator blank
  have length : line.length = (word line).length + 1 + (rest line).length := by
    have total := congrArg List.length split
    rw [List.length_append, List.length_cons] at total
    omega
  have nonzero : ∀ byte ∈ rest line, byte ≠ 0 := by
    intro byte member
    rw [split] at inner
    exact (inner byte (List.mem_append_right _ (List.mem_cons_of_mem d member))).1
  have parts : buffer.bytes = before ++ (word line ++ d :: (rest line ++ c :: tail)) := by
    rw [shape]
    nth_rewrite 1 [split]
    simp
  refine (linePass_separated split shape (fun _ => not_separator_of_mem_word) separator inner
    stopped within fits).mono (fun _ never => never) ?_
  rintro result state ⟨parsed', ends, done⟩
  refine ⟨parsed', ends, ?_, ?_, ?_, done.within⟩
  · rw [done.result, add_directives]
    rfl
  · obtain ⟨before', place, bytes⟩ := done.behind
    exact ⟨before', by omega, bytes⟩
  · exact represents.after_line parts done nonzero (by omega) (by omega) (.inl (by omega))

theorem pass_joined {line before t after : List Byte} {c : Byte} {parsed : Parsed}
    {buffer : TextBuffer} (solid : separated line = false)
    (quiet : keyword (word line) = none ∨ Blank t)
    (shape : buffer.bytes = before ++ (line ++ c :: (t ++ 0 :: after)))
    (inner : ∀ byte ∈ line, byte ≠ 0 ∧ byte ≠ newlineChar) (nonzero : ∀ byte ∈ t, byte ≠ 0)
    (stopped : c = 0 ∨ c = newlineChar) (within : buffer.Within bound)
    (fits : before.length + line.length + 1 + t.length + 1 ≤ bound)
    (represents : Represents szPath buffer.bytes before.length bound parsed) :
    (linePass szPath (before.length, parsed)).Ensures buffer (fun _ => False) fun result state =>
      ∃ parsed', result = ended c (before.length + line.length + 1) parsed' ∧
        Stepped szPath parsed line (before.length + line.length + 1) bound
          (body t ++ 0 :: (trail t ++ 0 :: after).tail) parsed' state := by
  obtain ⟨all_word, no_rest⟩ := word_of_not_separated solid
  have unseparated : ∀ byte ∈ line, byte ∉ text " \t" := by
    rw [← all_word]
    exact fun _ => not_separator_of_mem_word
  refine (linePass_joined shape unseparated inner nonzero stopped within fits).mono
    (fun _ never => never) ?_
  rintro result state ⟨parsed', ends, done⟩
  rw [all_word] at quiet
  have same : (body t).map (edit line) = body t := by
    rcases quiet with none | blank
    · have kept : edit line = id := funext fun c => by simp [edit, none]
      rw [kept, List.map_id]
    · rw [body_eq_nil_iff.mpr blank]
      rfl
  refine ⟨parsed', ends, ?_, ?_, ?_, done.within⟩
  · rw [done.result, add_directives, directive, all_word, no_rest]
    rcases quiet with none | blank
    · rw [none]
      rfl
    · have empty : Blank ([] : List Byte) := fun _ member => absurd member List.not_mem_nil
      rw [value_eq_nil blank, value_eq_nil empty]
  · refine ⟨before ++ (line ++ [0]), by simp; omega, ?_⟩
    rw [done.bytes, same]
    simp
  · refine represents.after_line shape done nonzero (by omega) fits (.inr fun default => ?_)
    rcases quiet with none | blank
    · rw [none] at default
      cases default
    · exact value_eq_nil blank

/-- A text that is still to be parsed, from `position` on. -/
structure Unparsed (szPath : Option (List Byte)) (bound position : Nat) (text after : List Byte)
    (parsed : Parsed) (buffer : TextBuffer) : Prop where
  bytes : ∃ before, before.length = position ∧ buffer.bytes = before ++ (text ++ 0 :: after)
  nonzero : ∀ c ∈ text, c ≠ 0
  represents : Represents szPath buffer.bytes position bound parsed
  within : buffer.Within bound

/-- What is left of the text behind a line. It has been cut off at its end by a line without a
blank. -/
inductive LeftBehind (line others after : List Byte) : List Byte → List Byte → Prop
  | whole (blank : separated line = true) : LeftBehind line others after others after
  | cut (solid : separated line = false) :
      LeftBehind line others after (body others) (trail others ++ 0 :: after).tail

section Left

variable {line others text after beyond : List Byte} {position : Nat}

theorem LeftBehind.length_le (left : LeftBehind line others after text beyond) :
    text.length ≤ others.length := by
  cases left with
  | whole => exact Nat.le_refl _
  | cut => exact (List.rdropWhile_prefix isspace others).length_le

theorem LeftBehind.directives (left : LeftBehind line others after text beyond) :
    directives text = directives others := by
  cases left with
  | whole => rfl
  | cut => exact directives_body others

theorem LeftBehind.isolated (left : LeftBehind line others after text beyond) :
    Isolated (lines text) ↔ Isolated (lines others) := by
  cases left with
  | whole => exact Iff.rfl
  | cut => exact isolated_body others

/-- Where nothing has been cut off, the text that is left is all that was there. -/
theorem LeftBehind.kept (left : LeftBehind line others after text beyond)
    (cuts : separated line = true ∨ trail others = []) : text = others ∧ beyond = after := by
  cases left with
  | whole => exact ⟨rfl, rfl⟩
  | cut solid =>
      have kept := cuts.resolve_left (Bool.not_eq_true _ ▸ solid)
      rw [body_of_trail kept, kept]
      exact ⟨rfl, rfl⟩

/-- Whitespace that is cut off guards the text in front of it. -/
theorem LeftBehind.room (left : LeftBehind line others after text beyond)
    (single : newlineChar ∉ line) (room : Room (line ++ newlineChar :: others) after
      (position + (line ++ newlineChar :: others).length + 1) bound) :
    Room text beyond (position + line.length + 1 + text.length + 1) bound := by
  obtain ⟨limit, guarded⟩ := room
  have shorter := left.length_le
  rw [List.length_append, List.length_cons] at limit guarded
  have all_of_others (cuts : separated line = true ∨ trail others = []) :
      ¬Overruns (lines others) ∨
        Guarded after (position + line.length + 1 + others.length + 1) bound := by
    have same : position + line.length + 1 + others.length + 1 =
        position + (line.length + (others.length + 1)) + 1 := by omega
    rw [same]
    exact guarded.imp_left fun safe overrun => safe ((overruns_cons single).mpr ⟨cuts, overrun⟩)
  refine ⟨by omega, ?_⟩
  cases left with
  | whole blank => exact all_of_others (.inl blank)
  | cut solid =>
      cases spaces : trail others with
      | nil =>
          rw [body_of_trail spaces]
          exact all_of_others (.inr spaces)
      | cons space junk =>
          have total := congrArg List.length (body_append_trail others)
          rw [List.length_append, spaces, List.length_cons] at total
          have blank_junk : Blank junk := fun c member =>
            blank_trail others c (spaces ▸ List.mem_cons_of_mem space member)
          exact .inr ⟨junk, after, rfl, blank_junk, by omega⟩

/-- A line that takes nothing from the others has been handled by itself, and the loop goes on
with what is left behind it. -/
theorem loop_line {parsed : Parsed} {buffer : TextBuffer} {fuel : Nat}
    {cut : TextBuffer → Prop} {returned : Parsed → TextBuffer → Prop} (single : newlineChar ∉ line)
    (own : separated line = true ∨ keyword (word line) = none ∨ Blank others)
    (ahead : Unparsed szPath bound position (line ++ newlineChar :: others) after parsed buffer)
    (fits : position + (line ++ newlineChar :: others).length + 1 ≤ bound)
    (goes_on : ∀ text beyond parsed' state, LeftBehind line others after text beyond →
      parsed'.directives = parsed.directives ++ (directive line).toList →
      Unparsed szPath bound (position + line.length + 1) text beyond parsed' state →
      (Program.loop (linePass szPath) fuel (position + line.length + 1, parsed')).Ensures state
        cut returned) :
    (Program.loop (linePass szPath) (fuel + 1) (position, parsed)).Ensures buffer cut returned := by
  obtain ⟨⟨before, rfl, bytes⟩, nonzero, represents, within⟩ := ahead
  rw [List.length_append, List.length_cons] at fits
  have shape : buffer.bytes = before ++ (line ++ newlineChar :: (others ++ 0 :: after)) :=
    bytes.trans (by simp)
  have inner : ∀ c ∈ line, c ≠ 0 ∧ c ≠ newlineChar := fun c member =>
    ⟨nonzero c (List.mem_append_left _ member), fun newline => single (newline ▸ member)⟩
  have others_nonzero : ∀ c ∈ others, c ≠ 0 := fun c member =>
    nonzero c (List.mem_append_right _ (List.mem_cons_of_mem _ member))
  cases blank : separated line with
  | true =>
      refine loop_ended (pass_separated blank shape inner (.inr rfl) within (by omega)
        represents) nofun fun _ parsed' state stepped => ?_
      exact goes_on _ _ parsed' state (.whole blank) stepped.directives
        ⟨stepped.bytes, others_nonzero, stepped.represents, stepped.within⟩
  | false =>
      have quiet := own.resolve_left (Bool.not_eq_true _ ▸ blank)
      have body_nonzero : ∀ c ∈ body others, c ≠ 0 := fun c member =>
        others_nonzero c ((List.rdropWhile_prefix isspace others).subset member)
      refine loop_ended (pass_joined blank quiet shape inner others_nonzero (.inr rfl) within
        (by omega) represents) nofun fun _ parsed' state stepped => ?_
      exact goes_on _ _ parsed' state (.cut blank) stepped.directives
        ⟨stepped.bytes, body_nonzero, stepped.represents, stepped.within⟩

end Left

/-- The last line ends the loop. -/
theorem loop_last {line after : List Byte} {position fuel : Nat} {parsed : Parsed}
    {buffer : TextBuffer} (single : newlineChar ∉ line)
    (ahead : Unparsed szPath bound position line after parsed buffer)
    (room : Room line after (position + line.length + 1) bound) :
    (Program.loop (linePass szPath) (fuel + 1) (position, parsed)).Ensures buffer
      (fun _ => False) (Finished szPath bound (parsed.directives ++ directives line)) := by
  obtain ⟨⟨before, rfl, shape⟩, nonzero, represents, within⟩ := ahead
  have inner : ∀ c ∈ line, c ≠ 0 ∧ c ≠ newlineChar := fun c member =>
    ⟨nonzero c member, fun newline => single (newline ▸ member)⟩
  rw [directives_last single]
  cases blank : separated line with
  | true =>
      refine loop_ended (pass_separated blank shape inner (.inl rfl) within room.1 represents)
        (fun _ parsed' state stepped => ?_) fun more => absurd rfl more
      exact ⟨stepped.directives, stepped.represents.mono room.1, stepped.within⟩
  | false =>
      have overrun : Overruns (lines line) := (overruns_last single).mpr blank
      obtain ⟨junk, beyond, rfl, spaces, fits⟩ := room.2.resolve_left (not_not.mpr overrun)
      have junk_nonzero : ∀ c ∈ junk, c ≠ 0 := by
        rintro c member rfl
        exact absurd (spaces 0 member) (by decide)
      refine loop_ended (pass_joined blank (.inr spaces) shape inner junk_nonzero (.inl rfl)
        within fits represents) (fun _ parsed' state stepped => ?_) fun more => absurd rfl more
      exact ⟨stepped.directives, stepped.represents.mono room.1, stepped.within⟩

theorem loop_isolated (text : List Byte) :
    ∀ {after : List Byte} {position : Nat} {parsed : Parsed} {buffer : TextBuffer} {fuel : Nat},
      text.length + 1 ≤ fuel → Unparsed szPath bound position text after parsed buffer →
      Isolated (lines text) → Room text after (position + text.length + 1) bound →
      (Program.loop (linePass szPath) fuel (position, parsed)).Ensures buffer
        (fun _ => False) (Finished szPath bound (parsed.directives ++ directives text)) := by
  induction text using text_induction with
  | last line single =>
      intro after position parsed buffer fuel enough ahead _ room
      obtain ⟨fuel, rfl⟩ : ∃ previous, fuel = previous + 1 := ⟨fuel - 1, by omega⟩
      exact loop_last single ahead room
  | more line others single ih =>
      intro after position parsed buffer fuel enough ahead isolated room
      obtain ⟨fuel, rfl⟩ : ∃ previous, fuel = previous + 1 := ⟨fuel - 1, by omega⟩
      obtain ⟨own, later⟩ := (isolated_cons single).mp isolated
      refine loop_line single own ahead room.1
        fun text beyond parsed' state left handled ahead' => ?_
      have shorter := left.length_le
      rw [List.length_append, List.length_cons] at enough
      rw [directives_cons single, ← List.append_assoc, ← handled, ← left.directives]
      exact ih text shorter (by omega) ahead' (left.isolated.mpr later) (left.room single room)

/-- The last default title is looked up, wherever it has been found. -/
theorem select_spec {directives : List (Keyword × List Byte)} {parsed : Parsed}
    {buffer : TextBuffer} (finished : Finished szPath bound directives parsed buffer) :
    (match parsed.defaultTitle with
    | none => pure (parsed.entries.toList, parsed.directives)
    | some defaultTitle => do
      let defaultTitle ← string defaultTitle
      return (markDefault defaultTitle parsed.entries.toList, parsed.directives) :
      Program TextBuffer (List ConfigEntry × List (Keyword × List Byte))).Ensures buffer
        (fun _ => False) fun result state =>
          result = (outcome szPath directives, directives) ∧ state.Within bound := by
  obtain ⟨handled, ⟨entries, default⟩, within⟩ := finished
  rw [handled] at entries default
  rw [handled, entries, outcome]
  generalize defaultOf directives = title, parsed.defaultTitle = place at default ⊢
  cases default with
  | none => exact ⟨rfl, within⟩
  | some found =>
      obtain ⟨front, rear, shape, length, nonzero, fits, -⟩ := found
      refine (string_spec shape length nonzero within fits).andThen ?_
      rintro _ state ⟨rfl, -, within⟩
      exact ⟨rfl, within⟩

/-- A file with isolated lines is parsed to the outcome of its directives. -/
theorem parseConfig_isolated {file beyond : List Byte} {spare : Byte}
    (nonzero : ∀ c ∈ file, c ≠ 0) (isolated : Isolated (lines file))
    (room : Room file beyond (file.length + 1) bound) :
    (parseConfig file.length szPath).Ensures ⟨file ++ spare :: beyond, []⟩ (fun _ => False)
      fun result state =>
        result = (outcome szPath (directives file), directives file) ∧ state.Within bound := by
  have fresh : Within bound ⟨file ++ spare :: beyond, []⟩ :=
    fun _ member => absurd member List.not_mem_nil
  refine (put_spec rfl rfl fresh room.1).andThen ?_
  rintro _ buffer ⟨bytes, within⟩
  have started : Unparsed szPath bound 0 file beyond rootParsed buffer :=
    ⟨⟨[], rfl, bytes⟩, nonzero, ⟨rfl, .none⟩, within⟩
  have room : Room file beyond (0 + file.length + 1) bound := by
    rwa [Nat.zero_add]
  refine (loop_isolated file (Nat.le_refl _) started isolated room).andThen
    fun parsed state finished => ?_
  exact select_spec finished

end Isolated

end Cromwell.Config
