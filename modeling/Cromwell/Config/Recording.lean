import Cromwell.Config.Fields

/-!
# Recording directives

Wherever the parser has come to, its entries are those of the directives that it has
handled, and these are terminated strings. All of them have been recorded if and only if
each of them fitted what the ones before it had made.
-/

namespace Cromwell.Config

open Cromwell.Std Cromwell.Std.TextBuffer Cromwell.Std.Program Cromwell.Lib

variable {szPath : Option (List Byte)}

/-! ## Sequences of directives -/

/-- A condition on every directive and the entries that it is handled with. -/
def EachStep (condition : Entries → Keyword × List Byte → Prop) (szPath : Option (List Byte))
    (directives : List (Keyword × List Byte)) : Prop :=
  ∀ front directive back, directives = front ++ directive :: back →
    condition (entriesOf szPath front) directive

theorem eachStep_append {condition : Entries → Keyword × List Byte → Prop}
    {directives : List (Keyword × List Byte)} {directive : Keyword × List Byte} :
    EachStep condition szPath (directives ++ [directive]) ↔
      EachStep condition szPath directives ∧ condition (entriesOf szPath directives) directive := by
  constructor
  · intro each
    refine ⟨?_, each directives directive [] rfl⟩
    rintro front inner back rfl
    exact each front inner (back ++ [directive]) (by simp)
  · rintro ⟨each, last⟩ front inner back split
    rcases List.eq_nil_or_concat back with rfl | ⟨back, final, rfl⟩
    · obtain ⟨rfl, same⟩ := List.append_inj' split rfl
      cases same
      exact last
    · rw [List.concat_eq_append, ← List.cons_append, ← List.append_assoc] at split
      exact each front inner back (List.append_inj' split rfl).1

/-- The characters of a path and of values are not terminators. -/
def Solid (s : List Byte) : Prop := ∀ c ∈ s, c ≠ 0

theorem fileName_nonzero {paramdata : List Byte} (path : ∀ s, szPath = some s → Solid s)
    (nonzero : Solid paramdata) : Solid (fileName szPath paramdata) := by
  have slash : ∀ s, Solid s → Solid (slashChar :: s) := by
    intro s solid c member
    rcases List.mem_cons.mp member with rfl | later
    · decide
    · exact solid c later
  unfold fileName
  cases szPath with
  | none =>
      dsimp only
      split
      · exact nonzero
      · exact slash _ nonzero
  | some szPath =>
      intro c member
      rcases List.mem_append.mp member with first | second
      · exact path szPath rfl c first
      · exact slash _ nonzero c second

theorem target_nonzero {directive : Keyword × List Byte} (path : ∀ s, szPath = some s → Solid s)
    (nonzero : Solid directive.2) (field : Field) (value : List Byte)
    (targeted : target szPath directive = some (field, value)) : Solid value := by
  obtain ⟨keyword, paramdata⟩ := directive
  cases keyword with
  | title =>
      cases targeted
      exact nonzero
  | kernel =>
      cases targeted
      exact fileName_nonzero path nonzero
  | initrd =>
      rw [target_initrd] at targeted
      split at targeted
      · cases targeted
      · cases targeted
        exact fileName_nonzero path nonzero
  | append =>
      cases targeted
      exact nonzero
  | default => cases targeted

section Sequences

variable {directives : List (Keyword × List Byte)}

/-- Directives that all fit keep the entries sound. -/
theorem sound_entriesOf (path : ∀ s, szPath = some s → Solid s)
    (nonzero : ∀ directive ∈ directives, Solid directive.2)
    (fits : EachStep (Fits szPath) szPath directives) : Sound (entriesOf szPath directives) := by
  induction directives using List.reverseRecOn with
  | nil => exact sound_root
  | append_singleton directives directive ih =>
      obtain ⟨earlier, last⟩ := eachStep_append.mp fits
      rw [entriesOf_append]
      exact (ih (fun d member => nonzero d (List.mem_append_left _ member)) earlier).handle last
        (target_nonzero path (nonzero directive (List.mem_append_right _ List.mem_cons_self)))

/-- All directives are recorded if and only if all of them fit. -/
theorem eachStep_recorded_iff (path : ∀ s, szPath = some s → Solid s)
    (nonzero : ∀ directive ∈ directives, Solid directive.2) :
    EachStep (Recorded szPath) szPath directives ↔ EachStep (Fits szPath) szPath directives := by
  induction directives using List.reverseRecOn with
  | nil =>
      exact iff_of_true (fun front directive back split => by simp at split)
        fun front directive back split => by simp at split
  | append_singleton directives directive ih =>
      have earlier := fun d member => nonzero d (List.mem_append_left _ member)
      have last := nonzero directive (List.mem_append_right _ List.mem_cons_self)
      rw [eachStep_append, eachStep_append, ih earlier]
      exact and_congr_right fun fits =>
        recorded_iff_fits (sound_entriesOf path earlier fits) (target_nonzero path last)

end Sequences

/-! ## What no directive changes -/

section Each

/-- All entries meet a condition. -/
def Entries.Each (condition : ConfigEntry → Prop) (entries : Entries) : Prop :=
  ∀ entry ∈ entries.toList, condition entry

/-- The condition holds of a new entry, and no write to the strings or to what is in front of
them up to the kind of the system makes a difference to it. -/
structure Untouched (condition : ConfigEntry → Prop) : Prop where
  empty : condition emptyEntry
  store : ∀ {entry address bytes}, 12 ≤ address → condition entry →
    condition (Memory.store entry address bytes)

variable {condition : ConfigEntry → Prop} {entries : Entries}

theorem Entries.Each.store (each : entries.Each condition) (untouched : Untouched condition)
    {address : Nat} {bytes : List Byte} (behind : 12 ≤ address) :
    Entries.Each condition
      { entries with currentEntry := Memory.store entries.currentEntry address bytes } := by
  intro entry member
  rcases List.mem_append.mp member with earlier | current
  · exact each entry (List.mem_append_left _ earlier)
  · rw [List.mem_singleton.mp current]
    exact untouched.store behind (each _ (List.mem_append_right _ (List.mem_singleton_self _)))

theorem Entries.Each.write (each : entries.Each condition) (untouched : Untouched condition)
    (field : Field) (bytes : List Byte) : (entries.write field bytes).Each condition := by
  have behind : 12 ≤ field.array.start := by cases field <;> decide
  exact each.store untouched behind

theorem Entries.Each.nextConfigEntry (each : entries.Each condition)
    (untouched : Untouched condition) : entries.nextConfigEntry.Each condition := by
  intro entry member
  rcases List.mem_append.mp member with earlier | current
  · exact each entry earlier
  · rw [List.mem_singleton.mp current]
    exact untouched.empty

theorem Entries.Each.handle (each : entries.Each condition) (untouched : Untouched condition)
    (szPath : Option (List Byte)) (directive : Keyword × List Byte) :
    (entries.handle szPath directive).Each condition := by
  obtain ⟨key, paramdata⟩ := directive
  cases key with
  | title =>
      apply Entries.Each.store _ untouched (by decide)
      apply Entries.Each.write _ untouched
      split
      · exact each
      · exact each.nextConfigEntry untouched
  | kernel => exact each.write untouched _ _
  | initrd =>
      change Entries.Each condition (if strncmp paramdata (text "no") 2 then entries else _)
      split
      · exact each
      · exact each.write untouched _ _
  | append => exact each.write untouched _ _
  | default => exact each

theorem each_entriesOf (untouched : Untouched condition) (szPath : Option (List Byte))
    (directives : List (Keyword × List Byte)) : (entriesOf szPath directives).Each condition := by
  induction directives using List.reverseRecOn with
  | nil =>
      intro entry member
      rw [List.mem_singleton.mp member]
      exact untouched.empty
  | append_singleton directives directive ih =>
      rw [entriesOf_append]
      exact ih.handle untouched szPath directive

end Each

/-! ## Points of a run -/

/-- What the parser has made of its directives, which are strings. -/
structure Logged (szPath : Option (List Byte)) (parsed : Parsed) : Prop where
  entries : parsed.entries = entriesOf szPath parsed.directives
  nonzero : ∀ directive ∈ parsed.directives, Solid directive.2

theorem Logged.handle {parsed : Parsed} {keyword : Keyword} {place : Nat} {paramdata : List Byte}
    (logged : Logged szPath parsed) (nonzero : Solid paramdata) :
    Logged szPath (parsed.handle szPath keyword place paramdata) := by
  refine ⟨?_, fun directive member => ?_⟩
  · change parsed.entries.handle szPath _ = entriesOf szPath (parsed.directives ++ [_])
    rw [entriesOf_append, logged.entries]
  · rcases List.mem_append.mp member with earlier | last
    · exact logged.nonzero directive earlier
    · rw [List.mem_singleton.mp last]
      exact nonzero

theorem parseLine_logged {parsed : Parsed} (logged : Logged szPath parsed) (linePtr : Nat)
    (buffer : TextBuffer) :
    (parseLine szPath linePtr parsed).Ensures buffer (fun _ => True)
      fun result _ => Logged szPath result := by
  refine (ensures_true _ _).andThen fun _ _ _ => (ensures_true _ _).andThen fun _ _ _ =>
    (ensures_true _ _).andThen fun paramdata _ _ => (ensures_true _ _).andThen fun param _ _ => ?_
  cases keyword param with
  | none => exact logged
  | some keyword =>
      exact (ensures_true _ _).andThen fun _ _ _ =>
        (string_nonzero paramdata _).andThen fun _ _ nonzero => logged.handle nonzero

/-- What a pass hands on or leaves the loop with. -/
def Pass.parsed : Pass (Nat × Parsed) Parsed → Parsed
  | .next locals => locals.2
  | .leave parsed => parsed

theorem linePass_logged {locals : Nat × Parsed} (logged : Logged szPath locals.2)
    (buffer : TextBuffer) :
    (linePass szPath locals).Ensures buffer (fun _ => True)
      fun result _ => Logged szPath (Pass.parsed result) := by
  refine (ensures_true _ _).andThen fun currentPos state _ =>
    (parseLine_logged logged locals.1 state).andThen fun parsed _ logged => ?_
  cases currentPos with
  | none => exact logged
  | some currentPos => exact logged

theorem loop_logged (fuel : Nat) {locals : Nat × Parsed} (logged : Logged szPath locals.2)
    (buffer : TextBuffer) :
    (Program.loop (linePass szPath) fuel locals).Ensures buffer (fun _ => True)
      fun result _ => Logged szPath result := by
  refine loop_ensures (fun _ current _ => Logged szPath current.2) (fun _ _ _ => trivial) ?_ logged
  intro _ current state logged
  refine (linePass_logged logged state).mono (fun _ _ => trivial) fun result _ logged => ?_
  cases result with
  | next _ => exact logged
  | leave _ => exact logged

theorem logged_root : Logged szPath rootParsed := ⟨rfl, nofun⟩

/-- Marking an entry as the default one changes none of its arrays. -/
theorem markDefault_map {α : Type} {view : ConfigEntry → α}
    (unchanged : ∀ entry, view (Memory.store entry isDefaultOffset (dwordBytes 1)) = view entry)
    (defaultTitle : List Byte) (entries : List ConfigEntry) :
    (markDefault defaultTitle entries).map view = entries.map view := by
  induction entries with
  | nil => rfl
  | cons entry rest ih =>
      unfold markDefault
      dsimp only
      split
      · rw [List.map_cons, List.map_cons, unchanged]
      · rw [List.map_cons, List.map_cons, ih]

/-- What marking leaves alone is in the entries returned as in those that directives make. -/
theorem parseConfig_viewed {α : Type} {view : ConfigEntry → α}
    (unchanged : ∀ entry, view (Memory.store entry isDefaultOffset (dwordBytes 1)) = view entry)
    (fileLen : Nat) (buffer : TextBuffer) :
    (parseConfig fileLen szPath).Ensures buffer (fun _ => True) fun result _ =>
      result.1.map view = (entriesOf szPath result.2).toList.map view ∧
        ∀ directive ∈ result.2, Solid directive.2 := by
  refine (ensures_true _ _).andThen fun _ started _ =>
    (loop_logged (fileLen + 1) logged_root started).andThen fun parsed _ logged => ?_
  have made := congrArg (fun entries => entries.toList.map view) logged.entries
  cases parsed.defaultTitle with
  | none => exact ⟨made, logged.nonzero⟩
  | some place =>
      refine (ensures_true _ _).andThen fun title _ _ => ⟨?_, logged.nonzero⟩
      exact (markDefault_map unchanged title _).trans made

/-- The entries that are returned have the arrays of those that directives make. -/
theorem parseConfig_logged (fileLen : Nat) (buffer : TextBuffer) :
    (parseConfig fileLen szPath).Ensures buffer (fun _ => True) fun result _ =>
      result.1.map ConfigEntry.contents =
          (entriesOf szPath result.2).toList.map ConfigEntry.contents ∧
        ∀ directive ∈ result.2, Solid directive.2 :=
  parseConfig_viewed (fun _ => funext fun _ => contents_store_front (by decide)) fileLen buffer

/-- The passes that a run of the parser makes. -/
inductive Passes (szPath : Option (List Byte)) (fileLen : Nat) (bytes : List Byte) :
    Pass (Nat × Parsed) Parsed → TextBuffer → Prop where
  | start {buffer} (run : put fileLen 0 ⟨bytes, []⟩ = .leave ((), buffer)) :
      Passes szPath fileLen bytes (.next (0, rootParsed)) buffer
  | line {locals buffer result after} (prior : Passes szPath fileLen bytes (.next locals) buffer)
      (run : linePass szPath locals buffer = .leave (result, after)) :
      Passes szPath fileLen bytes result after

/-- The entries at a point of the parser, and the directives that it has handled. -/
inductive Point (szPath : Option (List Byte)) (fileLen : Nat) (bytes : List Byte) :
    List ConfigEntry → List (Keyword × List Byte) → Prop where
  | pass {result buffer} (passes : Passes szPath fileLen bytes result buffer) :
      Point szPath fileLen bytes (Pass.parsed result).entries.toList (Pass.parsed result).directives
  | returned {entries directives after}
      (run : parseConfig fileLen szPath ⟨bytes, []⟩ = .leave ((entries, directives), after)) :
      Point szPath fileLen bytes entries directives

section Points

variable {fileLen : Nat} {bytes : List Byte} {result : Pass (Nat × Parsed) Parsed}
  {buffer : TextBuffer} {entries : List ConfigEntry} {directives : List (Keyword × List Byte)}

theorem Passes.logged (passes : Passes szPath fileLen bytes result buffer) :
    Logged szPath (Pass.parsed result) := by
  induction passes with
  | start _ => exact logged_root
  | line _ run ih => exact (linePass_logged ih _).of_returned run

theorem Point.logged (point : Point szPath fileLen bytes entries directives) :
    entries.map ConfigEntry.contents =
        (entriesOf szPath directives).toList.map ConfigEntry.contents ∧
      ∀ directive ∈ directives, Solid directive.2 := by
  cases point with
  | pass passes =>
      rw [← passes.logged.entries]
      exact ⟨rfl, passes.logged.nonzero⟩
  | returned run => exact (parseConfig_logged fileLen _).of_returned run

/-- Entries that are those of directives which fit are terminated. -/
theorem Point.terminated (point : Point szPath fileLen bytes entries directives)
    (path : ∀ s, szPath = some s → Solid s) (fits : EachStep (Fits szPath) szPath directives) :
    ∀ entry ∈ entries, ∀ field, ConfigEntry.Terminated entry field := by
  obtain ⟨same, nonzero⟩ := point.logged
  intro entry member field
  have contents := List.mem_map_of_mem (f := ConfigEntry.contents) member
  rw [same] at contents
  obtain ⟨original, present, equal⟩ := List.mem_map.mp contents
  rw [ConfigEntry.Terminated, ← congrFun equal field]
  exact (sound_entriesOf path nonzero fits).terminated original present field

/-- The parser returns from a file with a blank in every line. -/
theorem point_of_separated {file : List Byte} (nonzero : Solid file)
    (each : ∀ line ∈ lines file, separated line = true) :
    Point szPath file.length (file ++ [0]) (outcome szPath (Config.directives file))
      (Config.directives file) := by
  have isolated := isolated_of_forall fun line member => .inl (each line member)
  have parsed : (parseConfig file.length szPath).Ensures ⟨file ++ 0 :: [], []⟩ (fun _ => False)
      fun result state => result = (outcome szPath (Config.directives file),
        Config.directives file) ∧ state.Within (file.length + 1) :=
    parseConfig_isolated nonzero isolated ⟨Nat.le_refl _, .inl (not_overruns_of_forall each)⟩
  obtain ⟨result, after, run, rfl, -⟩ := parsed.returns
  exact .returned run

end Points

/-- At every point of the parser all strings are terminated and all directives recorded, if
and only if every directive so far fitted. -/
theorem recorded_iff (szPath : Option (List Byte)) (path : ∀ s, szPath = some s → Solid s)
    {fileLen : Nat} {bytes : List Byte} {entries : List ConfigEntry}
    {directives : List (Keyword × List Byte)}
    (point : Point szPath fileLen bytes entries directives) :
    ((∀ entry ∈ entries, ∀ field, ConfigEntry.Terminated entry field) ∧
      EachStep (Recorded szPath) szPath directives) ↔
      EachStep (Fits szPath) szPath directives := by
  rw [eachStep_recorded_iff path point.logged.2]
  exact ⟨And.right, fun fits => ⟨point.terminated path fits, fits⟩⟩

/-- A configuration file with one entry. -/
def linuxFile : List Byte := text "title Linux\nkernel vmlinuz\nappend root=/dev/hda1"

theorem solid_linuxFile : Solid linuxFile := by
  unfold Solid
  decide

theorem recorded_iff_linuxFile :
    ((∀ entry ∈ outcome (some (text "/linux")) (directives linuxFile), ∀ field,
        ConfigEntry.Terminated entry field) ∧
      EachStep (Recorded (some (text "/linux"))) (some (text "/linux"))
        (directives linuxFile)) ↔
      EachStep (Fits (some (text "/linux"))) (some (text "/linux")) (directives linuxFile) :=
  recorded_iff (some (text "/linux"))
    (fun s path => by
      cases path
      unfold Solid
      decide)
    (point_of_separated solid_linuxFile (by decide))

/-- A title of fifteen characters fills its array. -/
theorem long_title_unterminated :
    ¬∀ (fileLen : Nat) (bytes : List Byte) (entries : List ConfigEntry)
      (directives : List (Keyword × List Byte)), fileLen ≤ maxConfigFilesize →
        Point none fileLen bytes entries directives →
        (∀ entry ∈ entries, ∀ field, ConfigEntry.Terminated entry field) ∧
          EachStep (Recorded none) none directives := by
  intro recorded
  have nonzero : Solid (text "title 123456789012345") := by
    unfold Solid
    decide
  have value : Solid (text "123456789012345") := by
    unfold Solid
    decide
  have path : ∀ s, (none : Option (List Byte)) = some s → Solid s := nofun
  obtain ⟨-, each⟩ := recorded _ _ _ _ (by decide) (point_of_separated nonzero (by decide))
  have first := each [] (.title, text "123456789012345") [] (by decide)
  have fits := (recorded_iff_fits sound_root (target_nonzero path value)).mp first
  exact absurd (fits .title (text "123456789012345") rfl).1 (by decide)

end Cromwell.Config
