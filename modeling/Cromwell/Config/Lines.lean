import Cromwell.Config.BootParser
import Mathlib.Data.List.DropRight

/-!
# What is found on a line

A line is taken apart into its first word and what is stripped of the rest. A line with a
blank behind its first word is parsed on its own; on any other line the rest is what comes
behind the line.
-/

namespace Cromwell.Config

open Cromwell.Std Cromwell.Std.TextBuffer Cromwell.Std.Program Cromwell.Lib

/-! ## Stripped texts -/

/-- The text without whitespace at its end. -/
def body (text : List Byte) : List Byte := text.rdropWhile isspace

/-- The whitespace at the end of a text. -/
def trail (text : List Byte) : List Byte := text.rtakeWhile isspace

/-- The text without whitespace at both ends. -/
def value (text : List Byte) : List Byte := (body text).dropWhile isspace

/-- The whitespace at the start of a text. -/
def lead (text : List Byte) : List Byte := text.takeWhile isspace

variable {t : List Byte}

/-- A text is its body and its trailing space. -/
theorem body_append_trail (t : List Byte) : body t ++ trail t = t :=
  List.rdropWhile_append_rtakeWhile

/-- Trailing space is space. -/
theorem isspace_of_mem_trail {c : Byte} (member : c ∈ trail t) : isspace c = true :=
  List.mem_rtakeWhile_imp member

/-- Leading space is space. -/
theorem isspace_of_mem_lead {c : Byte} (member : c ∈ lead t) : isspace c = true :=
  List.mem_takeWhile_imp member

/-- A body ends with no space. -/
theorem body_last (some_body : body t ≠ []) : isspace ((body t).getLast some_body) = false :=
  Bool.eq_false_iff.mpr (List.rdropWhile_last_not isspace t some_body)

/-- A text that is not all whitespace begins with the whitespace before its value. -/
theorem lead_append_value (some_body : body t ≠ []) : lead t ++ value t = body t := by
  have partial_lead : ((body t).takeWhile isspace).length ≠ (body t).length := by
    intro whole
    have all := (List.takeWhile_prefix isspace).eq_of_length whole
    have last := List.takeWhile_eq_self_iff.mp all _ (List.getLast_mem some_body)
    exact Bool.false_ne_true ((body_last some_body).symm.trans last)
  have same : lead t = (body t).takeWhile isspace := by
    rw [lead, ← body_append_trail t, List.takeWhile_append, body_append_trail,
      if_neg partial_lead]
  rw [same, value]
  exact List.takeWhile_append_dropWhile

/-- A text that is not blank has a value. -/
theorem value_ne_nil (some_body : body t ≠ []) : value t ≠ [] := by
  intro none
  have spaces := List.dropWhile_eq_nil_iff.mp none _ (List.getLast_mem some_body)
  exact Bool.false_ne_true ((body_last some_body).symm.trans spaces)

/-- A value begins with no space. -/
theorem isspace_value_first {c : Byte} {rest : List Byte} (split : value t = c :: rest) :
    isspace c = false := by
  have first := List.head?_dropWhile_not isspace (body t)
  rw [← value, split] at first
  simpa using first

/-- A value ends with no space. -/
theorem exists_value_last (some_body : body t ≠ []) :
    ∃ front last, value t = front ++ [last] ∧ isspace last = false := by
  have some_value := value_ne_nil some_body
  refine ⟨(value t).dropLast, (value t).getLast some_value,
    (List.dropLast_append_getLast some_value).symm, ?_⟩
  have ends : (body t).getLast some_body = (value t).getLast some_value := by
    have both : lead t ++ value t ≠ [] := by simp [some_value]
    have last := List.getLast_append_of_ne_nil both some_value
    simpa [lead_append_value some_body] using last
  rw [← ends]
  exact body_last some_body

/-- A blank text has no value. -/
theorem value_of_blank (blank : body t = []) : value t = [] := by
  rw [value, blank]
  rfl

/-- All of a blank text is trailing space. -/
theorem trail_of_blank (blank : body t = []) : trail t = t := by
  have whole := body_append_trail t
  rwa [blank, List.nil_append] at whole

/-- All of it is leading space. -/
theorem lead_of_blank (blank : body t = []) : lead t = t := by
  have spaces := List.rdropWhile_eq_nil_iff.mp blank
  exact List.takeWhile_eq_self_iff.mpr spaces

/-- The value is what is left of the text. -/
theorem value_sublist (t : List Byte) : (value t).Sublist t :=
  (List.dropWhile_sublist isspace).trans (List.rdropWhile_prefix isspace t).sublist

/-- Before the value there is at most the whitespace that leads to it. -/
theorem length_lead_value (t : List Byte) : (lead t).length + (value t).length ≤ t.length := by
  by_cases blank : body t = []
  · rw [value_of_blank blank, lead_of_blank blank]
    exact Nat.le_refl _
  · have prefixed := (List.rdropWhile_prefix isspace t).length_le
    rwa [← body, ← lead_append_value blank, List.length_append] at prefixed

/-- What a stripped text leaves in the buffer: the body ends where the whitespace behind it
has begun. -/
def stripped (before t after : List Byte) : List Byte :=
  before ++ 0 :: (body t ++ 0 :: (trail t ++ 0 :: after).tail)

section Strip

variable {buffer : TextBuffer} {before after : List Byte} {bound p : Nat}

/-- A blank text is left as it is, and its value begins at its zero. -/
theorem stripData_blank (shape : buffer.bytes = before ++ 0 :: (t ++ 0 :: after))
    (place : before.length + 1 = p) (blank : body t = []) (within : buffer.Within bound)
    (fits : p + t.length + 1 ≤ bound) :
    (stripData p).Ensures buffer (fun _ => False) fun paramdata state =>
      paramdata = p + (lead t).length ∧ state.bytes = stripped before t after ∧
        state.Within bound := by
  have spaces : ∀ c ∈ t, isspace c = true := List.rdropWhile_eq_nil_iff.mp blank
  have behind : buffer.bytes = (before ++ [0]) ++ (t ++ 0 :: after) := by simp [shape]
  have reached : (before ++ [0]).length = p := by simp [place]
  refine (scan_spec _ behind reached (by simpa using spaces) (by decide) within fits).andThen ?_
  rintro paramdata scanned ⟨at_end, same, within⟩
  have ended : scanned.bytes = (before ++ 0 :: t) ++ ([] ++ 0 :: after) := by simp [same, shape]
  have place_end : (before ++ 0 :: t).length = paramdata := by
    simp only [List.length_append, List.length_cons]
    omega
  refine (strlen_spec ended place_end (by simp) within (by simp; omega)).andThen ?_
  rintro length measured ⟨rfl, same', within⟩
  have back : measured.bytes = before ++ 0 :: (t ++ 0 :: after) := by rw [same', same, shape]
  refine (scanBack_spec back (by simp; omega) spaces (.inr (by decide)) (by simp; omega) within
    (by simp; omega)).andThen ?_
  rintro _ walked ⟨rfl, same'', within⟩
  obtain ⟨c, rest, split⟩ : ∃ c rest, t ++ 0 :: after = c :: rest :=
    List.exists_cons_of_ne_nil (by simp)
  have first : walked.bytes = (before ++ [0]) ++ c :: rest := by
    rw [same'', back, split]
    simp
  refine (put_spec first (by simp) within (by omega)).andThen ?_
  rintro _ state ⟨bytes, within⟩
  refine ⟨?_, ?_, within⟩
  · rw [at_end, lead_of_blank blank]
  · rw [bytes, stripped, blank, trail_of_blank blank, split]
    simp

/-- A zero is set behind the last byte that is no space. -/
theorem stripData_text (shape : buffer.bytes = before ++ 0 :: (t ++ 0 :: after))
    (place : before.length + 1 = p) (some_body : body t ≠ []) (nonzero : ∀ c ∈ t, c ≠ 0)
    (within : buffer.Within bound) (fits : p + t.length + 1 ≤ bound) :
    (stripData p).Ensures buffer (fun _ => False) fun paramdata state =>
      paramdata = p + (lead t).length ∧ state.bytes = stripped before t after ∧
        state.Within bound := by
  have whole : lead t ++ (value t ++ trail t) = t := by
    rw [← List.append_assoc, lead_append_value some_body, body_append_trail]
  have total : (lead t).length + ((value t).length + (trail t).length) = t.length := by
    rw [← List.length_append, ← List.length_append, whole]
  obtain ⟨c, rest, split⟩ : ∃ c rest, value t = c :: rest :=
    List.exists_cons_of_ne_nil (value_ne_nil some_body)
  have begun : buffer.bytes =
      (before ++ [0]) ++ (lead t ++ c :: (rest ++ (trail t ++ 0 :: after))) := by
    rw [shape]
    nth_rewrite 1 [← whole]
    simp [split]
  have stops : !isspace c := by simp [isspace_value_first split]
  refine (scan_spec _ begun (by simp [place]) (by simpa using fun _ => isspace_of_mem_lead) stops
    within (by omega)).andThen ?_
  rintro _ scanned ⟨rfl, same, within⟩
  have data : scanned.bytes =
      (before ++ 0 :: lead t) ++ ((value t ++ trail t) ++ 0 :: after) := by
    rw [same, begun, split]
    simp
  have at_data : (before ++ 0 :: lead t).length = p + (lead t).length := by
    simp only [List.length_append, List.length_cons]
    omega
  have nonzero_data : ∀ byte ∈ value t ++ trail t, byte ≠ 0 := fun byte member =>
    nonzero byte (whole ▸ List.mem_append_right _ member)
  refine (strlen_spec data at_data nonzero_data within (by simp; omega)).andThen ?_
  rintro _ measured ⟨rfl, same', within⟩
  obtain ⟨front, last, ends, nonspace⟩ := exists_value_last some_body
  have value_length : (value t).length = front.length + 1 := by simp [ends]
  have back : measured.bytes =
      (before ++ 0 :: (lead t ++ front)) ++ last :: (trail t ++ 0 :: after) := by
    rw [same', data, ends]
    simp
  refine (scanBack_spec back (by simp; omega) (fun _ => isspace_of_mem_trail) (.inr nonspace)
    (.inl (by simp; omega)) within (by simp; omega)).andThen ?_
  rintro _ walked ⟨rfl, same'', within⟩
  obtain ⟨d, others, tail⟩ : ∃ d others, trail t ++ 0 :: after = d :: others :=
    List.exists_cons_of_ne_nil (by simp)
  have here : walked.bytes = (before ++ 0 :: body t) ++ d :: others := by
    rw [same'', back, tail, ← lead_append_value some_body, ends]
    simp
  have at_end : (before ++ 0 :: body t).length = (before ++ 0 :: (lead t ++ front)).length + 1 := by
    simp [← lead_append_value some_body, ends]
    omega
  refine (put_spec here at_end within (by simp; omega)).andThen ?_
  rintro _ state ⟨bytes, within⟩
  refine ⟨rfl, ?_, within⟩
  rw [bytes, stripped, tail]
  simp

/-- In either case the string at the place returned is the value. -/
theorem stripData_spec (shape : buffer.bytes = before ++ 0 :: (t ++ 0 :: after))
    (place : before.length + 1 = p) (nonzero : ∀ c ∈ t, c ≠ 0) (within : buffer.Within bound)
    (fits : p + t.length + 1 ≤ bound) :
    (stripData p).Ensures buffer (fun _ => False) fun paramdata state =>
      paramdata = p + (lead t).length ∧ state.bytes = stripped before t after ∧
        state.Within bound := by
  by_cases blank : body t = []
  · exact stripData_blank shape place blank within fits
  · exact stripData_text shape place blank nonzero within fits

end Strip

/-! ## One line -/

/-- The change that is made to the text of a line in the buffer. -/
def edit (param : List Byte) (c : Byte) : Byte :=
  if (keyword param = some .kernel ∨ keyword param = some .initrd) ∧ c = backslashChar then
    slashChar
  else c

/-- What a word and the text behind it are parsed to. -/
def Parsed.add (szPath : Option (List Byte)) (parsed : Parsed) (param : List Byte) (place : Nat)
    (t : List Byte) : Parsed :=
  match keyword param with
  | none => parsed
  | some keyword => parsed.handle szPath keyword place ((value t).map (edit param))

section Line

variable {szPath : Option (List Byte)} {parsed : Parsed} {buffer : TextBuffer}
  {before word after : List Byte} {d : Byte} {bound : Nat}

/-- A word at the end of `before` has been parsed with the text `t` behind it. -/
structure LineParsed (szPath : Option (List Byte)) (parsed : Parsed)
    (before word t after : List Byte) (bound : Nat) (result : Parsed) (state : TextBuffer) :
    Prop where
  result : result =
    parsed.add szPath word (before.length + word.length + 1 + (lead t).length) t
  bytes : state.bytes = before ++ (word ++
    0 :: ((body t).map (edit word) ++ 0 :: (trail t ++ 0 :: after).tail))
  within : state.Within bound

/-- A stripped text, split around its value. -/
theorem stripped_split (before t after : List Byte) :
    ∃ front rear, front.length = before.length + 1 + (lead t).length ∧
      ∀ change : Byte → Byte, (∀ c, isspace c = true → change c = c) →
        before ++ 0 :: ((body t).map change ++ 0 :: (trail t ++ 0 :: after).tail) =
          front ++ ((value t).map change ++ 0 :: rear) := by
  by_cases blank : body t = []
  · rw [blank, value_of_blank blank, trail_of_blank blank, lead_of_blank blank]
    cases t with
    | nil => exact ⟨before ++ [0], after, by simp, by simp⟩
    | cons c rest => exact ⟨before ++ 0 :: 0 :: rest, after, by simp; omega, by simp⟩
  · refine ⟨before ++ 0 :: lead t, (trail t ++ 0 :: after).tail, by simp; omega, ?_⟩
    intro change kept
    have same : (lead t).map change = (lead t).map id :=
      List.map_congr_left fun c member => kept c (isspace_of_mem_lead member)
    rw [← lead_append_value blank, List.map_append, same]
    simp

/-- Space is never turned. -/
theorem edit_isspace (param : List Byte) (c : Byte) (space : isspace c = true) :
    edit param c = c := by
  have other : c ≠ backslashChar := by
    rintro rfl
    exact absurd space (by decide)
  exact if_neg fun both => other both.2

/-- No byte is turned into a zero. -/
theorem edit_ne_zero {param : List Byte} {c : Byte} (nonzero : c ≠ 0) : edit param c ≠ 0 := by
  unfold edit
  split
  · decide
  · exact nonzero

/-- Of a kernel or an initrd the backslashes are turned. -/
theorem slashData_spec {front rear v : List Byte} {keyword' : Keyword} {param : List Byte}
    {paramdata : Nat} (known : keyword param = some keyword')
    (shape : buffer.bytes = front ++ (v ++ 0 :: rear)) (place : front.length = paramdata)
    (nonzero : ∀ c ∈ v, c ≠ 0) (within : buffer.Within bound)
    (fits : paramdata + v.length + 1 ≤ bound) :
    (slashData keyword' paramdata).Ensures buffer (fun _ => False) fun _ state =>
      state.bytes = front ++ (v.map (edit param) ++ 0 :: rear) ∧ state.Within bound := by
  unfold slashData edit
  simp only [known, Option.some.injEq]
  split
  · next file =>
    simpa [file] using chrreplace_spec shape place nonzero within fits
  · next other =>
    simp only [other, false_and, if_false, List.map_id']
    exact ⟨shape, within⟩

/-- One line: its word and its value are found, and its directive is recorded. -/
theorem parseLine_spec {t : List Byte}
    (shape : buffer.bytes = before ++ (word ++ d :: (t ++ 0 :: after)))
    (unseparated : ∀ c ∈ word, c ≠ 0 ∧ c ∉ text " \t")
    (separator : d = 0 ∨ d ∈ text " \t") (nonzero : ∀ c ∈ t, c ≠ 0)
    (within : buffer.Within bound)
    (fits : before.length + word.length + 1 + t.length + 1 ≤ bound) :
    (parseLine szPath before.length parsed).Ensures buffer (fun _ => False)
      (LineParsed szPath parsed before word t after bound) := by
  refine (strsep_spec shape rfl unseparated separator within (by omega)).andThen ?_
  rintro _ ended ⟨-, bytes, within⟩
  have word_nonzero : ∀ c ∈ word, c ≠ 0 := fun c member => (unseparated c member).1
  refine (strlen_spec bytes rfl word_nonzero within (by omega)).andThen ?_
  rintro _ measured ⟨rfl, same, within⟩
  have behind : measured.bytes = (before ++ word) ++ 0 :: (t ++ 0 :: after) := by
    rw [same, bytes, List.append_assoc]
  refine (stripData_spec behind (by simp) nonzero within (by omega)).andThen ?_
  rintro paramdata state ⟨rfl, stripped_bytes, within⟩
  have param_bytes : state.bytes =
      before ++ (word ++ 0 :: (body t ++ 0 :: (trail t ++ 0 :: after).tail)) := by
    rw [stripped_bytes, stripped, List.append_assoc]
  refine (string_spec param_bytes rfl word_nonzero within (by omega)).andThen ?_
  rintro param reading ⟨param_word, same, within⟩
  rw [param_word]
  cases known : keyword word with
  | none =>
      have kept : edit word = id := funext fun c => by simp [edit, known]
      refine ⟨?_, ?_, within⟩
      · simp only [Parsed.add, known]
      · rw [same, param_bytes, kept, List.map_id]
  | some keyword' =>
      obtain ⟨front, rear, front_length, split⟩ := stripped_split (before ++ word) t after
      have value_bytes : reading.bytes = front ++ (value t ++ 0 :: rear) := by
        have unchanged := split id fun _ _ => rfl
        rw [List.map_id, List.map_id] at unchanged
        rw [same, stripped_bytes, stripped, unchanged]
      have front_place : front.length = before.length + word.length + 1 + (lead t).length := by
        rw [front_length, List.length_append]
      have value_nonzero : ∀ c ∈ value t, c ≠ 0 :=
        fun c member => nonzero c ((value_sublist t).subset member)
      have value_fits : before.length + word.length + 1 + (lead t).length + (value t).length + 1 ≤
          bound := by
        have short := length_lead_value t
        omega
      refine (slashData_spec known value_bytes front_place value_nonzero within
        value_fits).andThen ?_
      rintro _ slashed ⟨slashed_bytes, within⟩
      have data_nonzero : ∀ c ∈ (value t).map (edit word), c ≠ 0 := by
        simp only [List.mem_map, forall_exists_index, and_imp]
        rintro _ c member rfl
        exact edit_ne_zero (value_nonzero c member)
      refine (string_spec slashed_bytes front_place data_nonzero within (by simpa using
        value_fits)).andThen ?_
      rintro data final ⟨rfl, same', within⟩
      refine ⟨?_, ?_, within⟩
      · simp only [Parsed.add, known]
      · rw [same', slashed_bytes, ← split (edit word) (edit_isspace word), List.append_assoc]

/-- How a pass ends: the loop goes on behind a line that a newline has ended. -/
def ended (c : Byte) (next : Nat) (parsed : Parsed) : Pass (Nat × Parsed) Parsed :=
  if c = 0 then .leave parsed else .next (next, parsed)

/-- A pass over a line, given what it makes of the line. -/
theorem linePass_spec {line tail : List Byte} {c : Byte} {Held : Parsed → TextBuffer → Prop}
    (shape : buffer.bytes = before ++ (line ++ c :: tail))
    (inner : ∀ byte ∈ line, byte ≠ 0 ∧ byte ≠ newlineChar) (stopped : c = 0 ∨ c = newlineChar)
    (within : buffer.Within bound) (fits : before.length + line.length + 1 ≤ bound)
    (parsing : ∀ ended : TextBuffer, ended.bytes = before ++ (line ++ 0 :: tail) →
      ended.Within bound →
      (parseLine szPath before.length parsed).Ensures ended (fun _ => False) Held) :
    (linePass szPath (before.length, parsed)).Ensures buffer (fun _ => False) fun result state =>
      ∃ parsed', result = ended c (before.length + line.length + 1) parsed' ∧
        Held parsed' state := by
  have separators : ∀ byte ∈ line, byte ≠ 0 ∧ byte ∉ [newlineChar] := by simpa using inner
  have stops : c = 0 ∨ c ∈ [newlineChar] := by simpa using stopped
  refine (strsep_spec shape rfl separators stops within fits).andThen ?_
  rintro currentPos state ⟨next, bytes, within⟩
  refine (parsing state bytes within).andThen ?_
  intro parsed' final held
  refine ensures_of_run ?_ ⟨parsed', rfl, held⟩
  unfold ended
  rw [next]
  split
  · rfl
  · rfl

/-- A line with a blank behind its first word is parsed on its own. -/
theorem linePass_separated {line rest tail : List Byte} {c : Byte}
    (split : line = word ++ d :: rest)
    (shape : buffer.bytes = before ++ (line ++ c :: tail))
    (unseparated : ∀ byte ∈ word, byte ∉ text " \t") (separator : d ∈ text " \t")
    (inner : ∀ byte ∈ line, byte ≠ 0 ∧ byte ≠ newlineChar)
    (stopped : c = 0 ∨ c = newlineChar) (within : buffer.Within bound)
    (fits : before.length + line.length + 1 ≤ bound) :
    (linePass szPath (before.length, parsed)).Ensures buffer (fun _ => False) fun result state =>
      ∃ parsed', result = ended c (before.length + line.length + 1) parsed' ∧
        LineParsed szPath parsed before word rest tail bound parsed' state := by
  refine linePass_spec shape inner stopped within fits fun ended bytes within => ?_
  subst split
  have nonzero : ∀ byte ∈ rest, byte ≠ 0 := fun byte member =>
    (inner byte (List.mem_append_right _ (List.mem_cons_of_mem _ member))).1
  have word_inner : ∀ byte ∈ word, byte ≠ 0 ∧ byte ∉ text " \t" := fun byte member =>
    ⟨(inner byte (List.mem_append_left _ member)).1, unseparated byte member⟩
  rw [List.length_append, List.length_cons] at fits
  exact parseLine_spec (bytes.trans (by simp)) word_inner (.inr separator) nonzero within
    (by omega)

/-- On a line without a blank the text behind the line is taken for the value. -/
theorem linePass_joined {t : List Byte} {c : Byte}
    (shape : buffer.bytes = before ++ (word ++ c :: (t ++ 0 :: after)))
    (unseparated : ∀ byte ∈ word, byte ∉ text " \t")
    (inner : ∀ byte ∈ word, byte ≠ 0 ∧ byte ≠ newlineChar) (nonzero : ∀ byte ∈ t, byte ≠ 0)
    (stopped : c = 0 ∨ c = newlineChar) (within : buffer.Within bound)
    (fits : before.length + word.length + 1 + t.length + 1 ≤ bound) :
    (linePass szPath (before.length, parsed)).Ensures buffer (fun _ => False) fun result state =>
      ∃ parsed', result = ended c (before.length + word.length + 1) parsed' ∧
        LineParsed szPath parsed before word t after bound parsed' state := by
  refine linePass_spec shape inner stopped within (by omega) fun ended bytes within => ?_
  have word_inner : ∀ byte ∈ word, byte ≠ 0 ∧ byte ∉ text " \t" := fun byte member =>
    ⟨(inner byte member).1, unseparated byte member⟩
  exact parseLine_spec bytes word_inner (.inl rfl) nonzero within fits

end Line

end Cromwell.Config
