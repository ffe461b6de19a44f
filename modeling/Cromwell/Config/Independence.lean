import Cromwell.Config.Runs

/-!
# Independence of lines

A file is parsed line by line, within its buffer, if and only if its lines are isolated and
it does not overrun. Otherwise a directive takes its value from the lines behind it, or the
last line is looked for behind the end of the file.
-/

namespace Cromwell.Config

open Cromwell.Std Cromwell.Std.TextBuffer Cromwell.Std.Program Cromwell.Lib

variable {szPath : Option (List Byte)} {bound : Nat}

/-! ## Directives are only added -/

/-- A line adds its directives behind those before it. -/
theorem parseLine_adds (linePtr : Nat) (parsed : Parsed) (buffer : TextBuffer) :
    (parseLine szPath linePtr parsed).Ensures buffer (fun _ => True)
      fun result _ => parsed.directives <+: result.directives := by
  refine (ensures_true _ _).andThen fun _ _ _ => (ensures_true _ _).andThen fun _ _ _ =>
    (ensures_true _ _).andThen fun _ _ _ => (ensures_true _ _).andThen fun param _ _ => ?_
  cases keyword param with
  | none => exact List.prefix_rfl
  | some keyword =>
      exact (ensures_true _ _).andThen fun _ _ _ => (ensures_true _ _).andThen fun _ _ _ =>
        List.prefix_append _ _

/-- So do all lines. -/
theorem loop_adds (fuel : Nat) (locals : Nat × Parsed) (buffer : TextBuffer) :
    (Program.loop (linePass szPath) fuel locals).Ensures buffer (fun _ => True)
      fun result _ => locals.2.directives <+: result.directives := by
  refine loop_ensures (fun _ current _ => locals.2.directives <+: current.2.directives)
    (fun _ _ _ => trivial) ?_ List.prefix_rfl
  rintro _ ⟨linePtr, parsed⟩ state added
  refine (ensures_true _ _).andThen fun currentPos _ _ =>
    (parseLine_adds linePtr parsed _).andThen fun parsed' _ more => ?_
  cases currentPos with
  | none => exact added.trans more
  | some currentPos => exact added.trans more

/-! ## Lines that are not isolated -/

/-- A directive takes its value from the lines behind it. -/
theorem pass_takes {line before others after : List Byte} {parsed : Parsed}
    {buffer : TextBuffer} {fuel : Nat} {keyword' : Keyword} (solid : separated line = false)
    (known : keyword (word line) = some keyword') (taken : ¬Blank others)
    (shape : buffer.bytes = before ++ (line ++ newlineChar :: (others ++ 0 :: after)))
    (inner : ∀ byte ∈ line, byte ≠ 0 ∧ byte ≠ newlineChar) (nonzero : ∀ byte ∈ others, byte ≠ 0)
    (within : buffer.Within bound)
    (fits : before.length + line.length + 1 + others.length + 1 ≤ bound) :
    (Program.loop (linePass szPath) (fuel + 1) (before.length, parsed)).Ensures buffer
      (fun _ => True) fun result _ => ∃ found,
        result.directives = parsed.directives ++ found ∧
          ∀ tail, found ≠ (directive line).toList ++ tail := by
  obtain ⟨all_word, no_rest⟩ := word_of_not_separated solid
  have unseparated : ∀ byte ∈ line, byte ∉ text " \t" := by
    rw [← all_word]
    exact fun _ => not_separator_of_mem_word
  refine loop_ended (linePass_joined shape unseparated inner nonzero (.inr rfl) within fits)
    nofun fun _ parsed' state done => ?_
  refine (loop_adds fuel _ state).mono (fun _ _ => trivial) ?_
  rintro result _ ⟨more, adds⟩
  rw [done.result, add_directives, ← all_word, known, List.append_assoc] at adds
  refine ⟨_, adds.symm, fun tail same => ?_⟩
  have some_value := value_ne_nil fun none => taken (body_eq_nil_iff.mp none)
  rw [directive, known, no_rest] at same
  have values := (Prod.mk.inj (List.cons.inj same).1).2
  exact some_value (List.map_eq_nil_iff.mp values)

/-- Some directive takes its value from the lines behind it. -/
theorem loop_not_isolated (text : List Byte) :
    ∀ {after : List Byte} {position : Nat} {parsed : Parsed} {buffer : TextBuffer} {fuel : Nat},
      text.length + 1 ≤ fuel → Unparsed szPath bound position text after parsed buffer →
      ¬Isolated (lines text) → position + text.length + 1 ≤ bound →
      (Program.loop (linePass szPath) fuel (position, parsed)).Ensures buffer
        (fun _ => True) fun result _ => ∃ found,
          result.directives = parsed.directives ++ found ∧ found ≠ directives text := by
  induction text using text_induction with
  | last line single =>
      intro after position parsed buffer fuel _ _ joined _
      exact absurd (isolated_last single) joined
  | more line others single ih =>
      intro after position parsed buffer fuel enough ahead joined fits
      obtain ⟨fuel, rfl⟩ : ∃ previous, fuel = previous + 1 := ⟨fuel - 1, by omega⟩
      rw [isolated_cons single, not_and_or] at joined
      rw [directives_cons single]
      by_cases own : separated line = true ∨ keyword (word line) = none ∨ Blank others
      · have later := joined.resolve_left (not_not.mpr own)
        refine loop_line single own ahead fits
          fun text beyond parsed' state left handled ahead' => ?_
        have shorter := left.length_le
        rw [List.length_append, List.length_cons] at enough fits
        refine (ih text shorter (by omega) ahead' (mt left.isolated.mp later) (by omega)).mono
          (fun _ _ => trivial) ?_
        rintro result _ ⟨found, added, different⟩
        refine ⟨(directive line).toList ++ found, ?_, fun same => different ?_⟩
        · rw [added, handled, List.append_assoc]
        · rw [left.directives]
          exact List.append_cancel_left same
      · obtain ⟨⟨before, rfl, bytes⟩, nonzero, -, within⟩ := ahead
        obtain ⟨solid, known, taken⟩ := not_or.mp own |>.imp_right not_or.mp
        obtain ⟨keyword', known⟩ := Option.ne_none_iff_exists'.mp known
        have inner : ∀ c ∈ line, c ≠ 0 ∧ c ≠ newlineChar := fun c member =>
          ⟨nonzero c (List.mem_append_left _ member), fun newline => single (newline ▸ member)⟩
        have others_nonzero : ∀ c ∈ others, c ≠ 0 := fun c member =>
          nonzero c (List.mem_append_right _ (List.mem_cons_of_mem _ member))
        have shape : buffer.bytes = before ++ (line ++ newlineChar :: (others ++ 0 :: after)) :=
          bytes.trans (by simp)
        rw [List.length_append, List.length_cons] at fits
        refine (pass_takes (Bool.not_eq_true _ ▸ solid) known taken shape inner others_nonzero
          within (by omega)).mono (fun _ _ => trivial) ?_
        rintro result _ ⟨found, handled, different⟩
        exact ⟨found, handled, different _⟩

/-! ## Files that overrun -/

/-- Stripping takes no access beyond the bound back. -/
theorem stable_stripData (p : Nat) : Stable (¬Within bound ·) (stripData p) :=
  .bind (stable_scan p) fun paramdata => .bind (stable_strlen paramdata) fun _ =>
    .bind (stable_scanBack paramdata _) fun p => .bind (stable_put (p + 1) 0) fun _ =>
      .pure paramdata

/-- Nor does turning slashes. -/
theorem stable_slashData (keyword : Keyword) (paramdata : Nat) :
    Stable (¬Within bound ·) (slashData keyword paramdata) :=
  .ite (stable_mapString _ paramdata) (.pure ())

/-- What is left of a line once its text has been stripped. -/
theorem stable_handle (linePtr paramdata : Nat) (parsed : Parsed) :
    Stable (¬Within bound ·) (do
      let param ← string linePtr
      match keyword param with
      | none => return parsed
      | some keyword =>
        slashData keyword paramdata
        let data ← string paramdata
        return parsed.handle szPath keyword paramdata data) := by
  refine .bind (stable_string linePtr) fun param => ?_
  cases keyword param with
  | none => exact .pure parsed
  | some keyword =>
      exact .bind (stable_slashData keyword paramdata) fun _ =>
        .bind (stable_string paramdata) fun data => .pure _

/-- Nor does a line. -/
theorem stable_linePass (locals : Nat × Parsed) :
    Stable (¬Within bound ·) (linePass szPath locals) := by
  refine .bind (stable_strsep locals.1 _) fun currentPos => .bind ?_ fun parsed => ?_
  · exact .bind (stable_strsep _ _) fun _ => .bind (stable_strlen _) fun _ =>
      .bind (stable_stripData _) fun paramdata => stable_handle _ _ _
  · cases currentPos with
    | none => exact .pure _
    | some currentPos => exact .pure _

/-- The value of a last line without a blank is looked for behind the end of the file. -/
theorem linePass_overruns {line before after : List Byte} {parsed : Parsed} {buffer : TextBuffer}
    (solid : separated line = false) (shape : buffer.bytes = before ++ (line ++ 0 :: after))
    (inner : ∀ byte ∈ line, byte ≠ 0 ∧ byte ≠ newlineChar)
    (last : before.length + line.length + 1 = bound) (within : buffer.Within bound) :
    (linePass szPath (before.length, parsed)).Ensures buffer (¬Within bound ·)
      fun _ => (¬Within bound ·) := by
  obtain ⟨all_word, -⟩ := word_of_not_separated solid
  have unseparated : ∀ byte ∈ line, byte ≠ 0 ∧ byte ∉ text " \t" := by
    intro byte member
    have in_word : byte ∈ word line := by rwa [all_word]
    exact ⟨(inner byte member).1, not_separator_of_mem_word in_word⟩
  have solid_line : ∀ byte ∈ line, byte ≠ 0 ∧ byte ∉ [newlineChar] := by simpa using inner
  refine ((strsep_spec shape rfl solid_line (.inl rfl) within (by omega)).mono
    (fun _ never => never.elim) fun _ _ held => held).andThen ?_
  rintro _ ended ⟨rfl, bytes, within⟩
  refine Ensures.andThen ?_ fun parsed' => Stable.pure (Pass.leave parsed')
  refine ((strsep_spec bytes rfl unseparated (.inl rfl) within (by omega)).mono
    (fun _ never => never.elim) fun _ _ held => held).andThen ?_
  rintro _ ended ⟨-, bytes, within⟩
  refine ((strlen_spec bytes rfl (fun byte member => (inner byte member).1) within
    (by omega)).mono (fun _ never => never.elim) fun _ _ held => held).andThen ?_
  rintro _ measured ⟨rfl, -, -⟩
  refine Ensures.andThen ?_ fun paramdata => stable_handle _ _ _
  refine (scan_beyond (by omega) measured).andThen fun paramdata => ?_
  exact Stable.bind (stable_strlen paramdata) fun _ => .bind (stable_scanBack paramdata _) fun p =>
    .bind (stable_put (p + 1) 0) fun _ => .pure paramdata

/-- Where the last line is overrun, the loop goes on behind the file. -/
theorem loop_overruns (text : List Byte) :
    ∀ {after : List Byte} {position : Nat} {parsed : Parsed} {buffer : TextBuffer} {fuel : Nat},
      text.length + 1 ≤ fuel → Unparsed szPath bound position text after parsed buffer →
      Isolated (lines text) → Overruns (lines text) → position + text.length + 1 = bound →
      (Program.loop (linePass szPath) fuel (position, parsed)).Ensures buffer
        (¬Within bound ·) fun _ => (¬Within bound ·) := by
  induction text using text_induction with
  | last line single =>
      intro after position parsed buffer fuel enough ahead _ overruns last
      obtain ⟨⟨before, rfl, shape⟩, nonzero, -, within⟩ := ahead
      obtain ⟨fuel, rfl⟩ : ∃ previous, fuel = previous + 1 := ⟨fuel - 1, by omega⟩
      have inner : ∀ c ∈ line, c ≠ 0 ∧ c ≠ newlineChar := fun c member =>
        ⟨nonzero c member, fun newline => single (newline ▸ member)⟩
      refine (linePass_overruns ((overruns_last single).mp overruns) shape inner last
        within).andThen fun result => ?_
      cases result with
      | next locals => exact Stable.loop stable_linePass fuel locals
      | leave parsed' => exact Stable.pure parsed'
  | more line others single ih =>
      intro after position parsed buffer fuel enough ahead isolated overruns last
      obtain ⟨fuel, rfl⟩ : ∃ previous, fuel = previous + 1 := ⟨fuel - 1, by omega⟩
      obtain ⟨own, isolated⟩ := (isolated_cons single).mp isolated
      obtain ⟨cuts, overruns⟩ := (overruns_cons single).mp overruns
      refine loop_line single own ahead (Nat.le_of_eq last)
        fun text beyond parsed' state left _ ahead' => ?_
      obtain ⟨rfl, rfl⟩ := left.kept cuts
      rw [List.length_append, List.length_cons] at enough last
      exact ih text (Nat.le_refl _) (by omega) ahead' isolated overruns (by omega)

/-! ## All files -/

/-- A file of `fileLen` bytes is parsed to the outcome of its own directives, and nothing
behind the byte that follows it is used. -/
def Independent (szPath : Option (List Byte)) (file : List Byte) (spare : Byte)
    (beyond : List Byte) : Prop :=
  (parseConfig file.length szPath).Ensures ⟨file ++ spare :: beyond, []⟩ (fun _ => False)
    fun result state => result = (outcome szPath (directives file), directives file) ∧
      state.Within (file.length + 1)

/-- Nor does choosing the default entry. -/
theorem stable_select (parsed : Parsed) :
    Stable (¬Within bound ·) (match parsed.defaultTitle with
    | none => pure (parsed.entries.toList, parsed.directives)
    | some defaultTitle => do
      let defaultTitle ← string defaultTitle
      return (markDefault defaultTitle parsed.entries.toList, parsed.directives) :
      Program TextBuffer (List ConfigEntry × List (Keyword × List Byte))) := by
  cases parsed.defaultTitle with
  | none => exact .pure _
  | some place => exact .bind (stable_string place) fun _ => .pure _

/-- The parser begins with the loop over the terminated file. -/
theorem parseConfig_ensures {file beyond : List Byte} {spare : Byte} {cut : TextBuffer → Prop}
    {returned : List ConfigEntry × List (Keyword × List Byte) → TextBuffer → Prop}
    {Held : Parsed → TextBuffer → Prop}
    (nonzero : ∀ c ∈ file, c ≠ 0)
    (runs : ∀ {buffer : TextBuffer},
      Unparsed szPath (file.length + 1) 0 file beyond rootParsed buffer →
      (Program.loop (linePass szPath) (file.length + 1) (0, rootParsed)).Ensures buffer cut Held)
    (selects : ∀ parsed state, Held parsed state → (match parsed.defaultTitle with
      | none => pure (parsed.entries.toList, parsed.directives)
      | some defaultTitle => do
        let defaultTitle ← string defaultTitle
        return (markDefault defaultTitle parsed.entries.toList, parsed.directives) :
        Program TextBuffer (List ConfigEntry × List (Keyword × List Byte))).Ensures state cut
          returned) :
    (parseConfig file.length szPath).Ensures ⟨file ++ spare :: beyond, []⟩ cut returned := by
  have fresh : Within (file.length + 1) ⟨file ++ spare :: beyond, []⟩ :=
    fun _ member => absurd member List.not_mem_nil
  refine ((put_spec rfl rfl fresh (Nat.le_refl _)).mono (fun _ never => never.elim)
    fun _ _ held => held).andThen ?_
  rintro _ buffer ⟨bytes, within⟩
  exact (runs ⟨⟨[], rfl, bytes⟩, nonzero, ⟨rfl, .none⟩, within⟩).andThen selects

/-- Lines that run into each other do not give the directives of the file. -/
theorem parseConfig_not_isolated {file beyond : List Byte} {spare : Byte}
    (nonzero : ∀ c ∈ file, c ≠ 0) (joined : ¬Isolated (lines file)) :
    (parseConfig file.length szPath).Ensures ⟨file ++ spare :: beyond, []⟩ (fun _ => True)
      fun result _ => result.2 ≠ directives file := by
  refine parseConfig_ensures nonzero (fun started =>
    loop_not_isolated file (Nat.le_refl _) started joined (by omega)) ?_
  rintro parsed state ⟨found, handled, different⟩
  have other : parsed.directives ≠ directives file := by
    rwa [handled]
  cases parsed.defaultTitle with
  | none => exact other
  | some place => exact (ensures_true _ _).andThen fun _ _ _ => other

/-- A file whose last line is overrun is read beyond its zero. -/
theorem parseConfig_overruns {file beyond : List Byte} {spare : Byte}
    (nonzero : ∀ c ∈ file, c ≠ 0) (isolated : Isolated (lines file))
    (overruns : Overruns (lines file)) :
    (parseConfig file.length szPath).Ensures ⟨file ++ spare :: beyond, []⟩
      (¬Within (file.length + 1) ·) fun _ => (¬Within (file.length + 1) ·) :=
  parseConfig_ensures nonzero (fun started => loop_overruns file (Nat.le_refl _) started
    isolated overruns (by omega)) stable_select

/-- Lines parsed on their own are isolated. -/
theorem isolated_of_independent {file beyond : List Byte} {spare : Byte}
    (nonzero : ∀ c ∈ file, c ≠ 0) (independent : Independent szPath file spare beyond) :
    Isolated (lines file) := by
  by_contra joined
  obtain ⟨result, state, run, handled, -⟩ := independent.returns
  exact (parseConfig_not_isolated nonzero joined).of_returned run (congrArg Prod.snd handled)

/-- Lines are independent if and only if they are isolated and the file does not overrun. -/
theorem independent_iff (szPath : Option (List Byte)) (file : List Byte) (spare : Byte)
    (beyond : List Byte) (nonzero : ∀ c ∈ file, c ≠ 0) :
    Independent szPath file spare beyond ↔ Isolated (lines file) ∧ ¬Overruns (lines file) := by
  constructor
  · intro independent
    have isolated := isolated_of_independent nonzero independent
    obtain ⟨result, state, run, -, within⟩ := independent.returns
    exact ⟨isolated, fun overruns =>
      (parseConfig_overruns nonzero isolated overruns).of_returned run within⟩
  · rintro ⟨isolated, safe⟩
    exact parseConfig_isolated nonzero isolated ⟨Nat.le_refl _, .inl safe⟩

theorem independent_iff_three_lines :
    (∀ c ∈ text "title Linux\nkernel vmlinuz\nappend ro", c ≠ 0) ∧
      (Independent none (text "title Linux\nkernel vmlinuz\nappend ro") 0 [] ↔
        Isolated (lines (text "title Linux\nkernel vmlinuz\nappend ro")) ∧
          ¬Overruns (lines (text "title Linux\nkernel vmlinuz\nappend ro"))) :=
  ⟨by decide, independent_iff none (text "title Linux\nkernel vmlinuz\nappend ro") 0 []
    (by decide)⟩

/-- A kernel line without a value takes the title line behind it. -/
theorem kernel_takes_title : ¬Independent none (text "kernel\ntitle Linux") 0 [] := by
  intro independent
  have isolated := isolated_of_independent (by decide) independent
  have split : lines (text "kernel\ntitle Linux") = [text "kernel", text "title Linux"] := by
    decide
  rw [split] at isolated
  rcases isolated.1 with blank | other | blank
  · exact absurd blank (by decide)
  · exact absurd other (by decide)
  · exact absurd (blank (text "title Linux") List.mem_cons_self 0x74) (by decide)

end Cromwell.Config
