import Cromwell.Config.DefaultTitle
import Cromwell.Menu.BootMenu

/-!
# The default entry

A default title selects the first entry whose title begins with it, not the first one that
has it. On timeout the entry that is marked is booted.
-/

namespace Cromwell.Menu

open Cromwell.Std Cromwell.Std.Program Cromwell.Config Cromwell.Lib

/-! ## Titles -/

section Titles

variable (title : List Byte) (entry : ConfigEntry)

/-- The title of the entry equals this one. -/
def Titled : Prop :=
  Memory.bytes entry Field.title.array.start (title.length + 1) = title ++ [0]

/-- The title of the entry begins with this one. -/
def Begins : Prop := Memory.bytes entry Field.title.array.start title.length = title

instance : Decidable (Titled title entry) := inferInstanceAs (Decidable (_ = _))

instance : Decidable (Begins title entry) := inferInstanceAs (Decidable (_ = _))

/-- The entry with the mark of the default one. -/
def marked : ConfigEntry := Memory.store entry isDefaultOffset (dwordBytes 1)

end Titles

section Marks

variable {title : List Byte} {entry : ConfigEntry} {front back entries : List ConfigEntry}

theorem Titled.begins (titled : Titled title entry) : Begins title entry := by
  have shorter := congrArg (List.take title.length) titled
  rwa [Memory.take_bytes, List.take_left, Nat.min_eq_left (Nat.le_succ _)] at shorter

/-- Titles are not where the mark is. -/
theorem bytes_marked (entry : ConfigEntry) (count : Nat) :
    Memory.bytes (marked entry) Field.title.array.start count =
      Memory.bytes entry Field.title.array.start count := by
  apply Memory.bytes_congr
  intro k _
  apply Memory.store_outside
  right
  change 8 + 4 ≤ 20 + k
  omega

theorem titled_marked_iff : Titled title (marked entry) ↔ Titled title entry := by
  unfold Titled
  rw [bytes_marked]

theorem isDefault_marked (entry : ConfigEntry) : isDefault (marked entry) = true := by
  unfold isDefault marked
  rw [Memory.dword_store _ _ (by decide)]
  rfl

/-- What the parser compares is the beginning of the title. -/
theorem strncmp_title_iff (solid : Solid title) :
    strncmp ((Memory.bytes entry Field.title.array.start title.length).takeWhile (· ≠ 0)) title
      title.length = true ↔ Begins title entry := by
  rw [ strncmp_iff_prefix]
  constructor
  · intro prefixed
    have inside := prefixed.trans (List.takeWhile_prefix _)
    exact (inside.eq_of_length (Memory.length_bytes _ _ _).symm).symm
  · intro begins
    have whole : title.takeWhile (· ≠ 0) = title :=
      List.takeWhile_eq_self_iff.mpr fun c member => by simpa using solid c member
    exact ⟨[], by rw [show Memory.bytes entry _ _ = title from begins, whole, List.append_nil]⟩

/-- The first entry whose title begins with the default one is marked. -/
theorem markDefault_split (solid : Solid title) (none : ∀ other ∈ front, ¬Begins title other)
    (begins : Begins title entry) :
    markDefault title (front ++ entry :: back) = front ++ marked entry :: back := by
  induction front with
  | nil =>
      rw [List.nil_append, markDefault]
      exact if_pos ((strncmp_title_iff solid).mpr begins)
  | cons other front ih =>
      have passed := mt (strncmp_title_iff solid).mp (none other List.mem_cons_self)
      have later := ih fun later member => none later (List.mem_cons_of_mem _ member)
      rw [List.cons_append, markDefault, if_neg passed, later]
      rfl

theorem markDefault_none (solid : Solid title) (none : ∀ other ∈ entries, ¬Begins title other) :
    markDefault title entries = entries := by
  induction entries with
  | nil => rfl
  | cons other entries ih =>
      have passed := mt (strncmp_title_iff solid).mp (none other List.mem_cons_self)
      have later := ih fun later member => none later (List.mem_cons_of_mem _ member)
      rw [markDefault, if_neg passed, later]

/-- Marking changes no title. -/
theorem exists_titled_markDefault_iff (default : List Byte) :
    (∃ entry ∈ markDefault default entries, Titled title entry) ↔
      ∃ entry ∈ entries, Titled title entry := by
  have same : (markDefault default entries).map (fun entry => decide (Titled title entry)) =
      entries.map fun entry => decide (Titled title entry) :=
    markDefault_map (fun entry => decide_eq_decide.mpr titled_marked_iff) default entries
  have any : ∀ entries : List ConfigEntry, (∃ entry ∈ entries, Titled title entry) ↔
      true ∈ entries.map fun entry => decide (Titled title entry) := by
    intro entries
    simp
  rw [any, any, same]

/-- No entry is marked yet. -/
def Unmarked (entries : Entries) : Prop := ∀ entry ∈ entries.toList, isDefault entry = false

theorem isDefault_store {address : Nat} {bytes : List Byte} (behind : 12 ≤ address) :
    isDefault (Memory.store entry address bytes) = isDefault entry := by
  have same : Memory.dword (Memory.store entry address bytes) isDefaultOffset =
      Memory.dword entry isDefaultOffset := Memory.dword_store_other _ (.inl behind)
  unfold isDefault
  rw [same]

theorem isDefault_emptyEntry : isDefault emptyEntry = false := by decide

/-- Directives mark no entry. -/
theorem unmarked_entriesOf (szPath : Option (List Byte)) (directives : List (Keyword × List Byte)) :
    Unmarked (entriesOf szPath directives) := by
  have untouched : Untouched fun entry => isDefault entry = false := by
    refine ⟨isDefault_emptyEntry, fun behind unmarked => ?_⟩
    rw [isDefault_store behind, unmarked]
  exact each_entriesOf untouched szPath directives

end Marks

/-! ## The entry that is selected -/

/-- Exactly one entry is marked, and it is the first with this title. -/
structure Selected (title : List Byte) (entries : List ConfigEntry) (entry : ConfigEntry) :
    Prop where
  titled : Titled title entry
  marked : isDefault entry = true
  alone : ∃ front back, entries = front ++ entry :: back ∧
    (∀ other ∈ front, ¬Titled title other) ∧ (∀ other ∈ front, isDefault other = false) ∧
    ∀ other ∈ back, isDefault other = false

/-- If some entry has the title, the first one is the default entry, and it is booted on
timeout. -/
def SelectsFirst (title : List Byte) (entries : List ConfigEntry) : Prop :=
  (∃ entry ∈ entries, Titled title entry) → ∃ entry, Selected title entries entry ∧
    ∀ unset, drawBootMenu true unset entries = some (.boot entry)

section Selection

variable {title found : List Byte} {entry : ConfigEntry} {front back entries : List ConfigEntry}

theorem drawBootMenu_timedOut (unset : Nat → TextMenuItem Nat)
    (first : entries.find? isDefault = some entry) :
    drawBootMenu true unset entries = some (.boot entry) := by
  match entries with
  | [] => cases first
  | [only] =>
      rw [List.mem_singleton.mp (List.mem_of_find?_eq_some first)]
      rfl
  | configEntry :: next :: rest => simp [drawBootMenu, first]

/-- An entry that is marked behind others that are not is the first one. -/
theorem find?_isDefault (unmarked : ∀ other ∈ front, isDefault other = false)
    (isMarked : isDefault entry = true) :
    (front ++ entry :: back).find? isDefault = some entry := by
  have none : front.find? isDefault = none := by
    rw [List.find?_eq_none]
    intro other member
    simp [unmarked other member]
  rw [List.find?_append, none, List.find?_cons_of_pos isMarked]
  rfl

/-- A list is split at the first entry with a property. -/
theorem exists_first {p : ConfigEntry → Bool} (some_entry : ∃ entry ∈ entries, p entry = true) :
    ∃ front entry back, entries = front ++ entry :: back ∧ p entry = true ∧
      ∀ other ∈ front, p other = false := by
  obtain ⟨entry, member, holds⟩ := some_entry
  have found : (entries.find? p).isSome := List.find?_isSome.mpr ⟨entry, member, holds⟩
  obtain ⟨first, here⟩ := Option.isSome_iff_exists.mp found
  obtain ⟨holds, front, back, split, none⟩ := List.find?_eq_some_iff_append.mp here
  exact ⟨front, first, back, split, holds, fun other member => by simpa using none other member⟩

theorem takeWhile_first {p : ConfigEntry → Bool} (before : ∀ other ∈ front, p other = true)
    (here : p entry = false) : (front ++ entry :: back).takeWhile p = front := by
  rw [List.takeWhile_append_of_pos before, List.takeWhile_cons_of_neg (by simp [here]),
    List.append_nil]

/-- Where the titles in front are others, they end at the first entry with the title. -/
theorem takeWhile_untitled (untitled : ∀ other ∈ front, ¬Titled title other)
    (titled : Titled title entry) :
    (front ++ entry :: back).takeWhile (¬Titled title ·) = front :=
  takeWhile_first (fun other member => decide_eq_true (untitled other member))
    (by simpa using titled)

/-- A list is split in one way at its first marked entry. -/
theorem first_marked_unique {passed rest : List ConfigEntry} {first : ConfigEntry}
    (same : passed ++ first :: rest = front ++ entry :: back)
    (passed_unmarked : ∀ other ∈ passed, isDefault other = false)
    (first_marked : isDefault first = true)
    (front_unmarked : ∀ other ∈ front, isDefault other = false)
    (entry_marked : isDefault entry = true) : passed = front ∧ first = entry := by
  have left : (passed ++ first :: rest).takeWhile (fun entry => !isDefault entry) = passed :=
    takeWhile_first (fun other member => by simp [passed_unmarked other member])
      (by simp [first_marked])
  have right : (front ++ entry :: back).takeWhile (fun entry => !isDefault entry) = front :=
    takeWhile_first (fun other member => by simp [front_unmarked other member])
      (by simp [entry_marked])
  rw [same, right] at left
  subst left
  exact ⟨rfl, (List.cons.inj (List.append_cancel_left same)).1⟩

/-- A title of the same length that marks the first entry with the one that is written is the
one that is written, and it marks no entry in front. -/
theorem Selected.found_eq (solid : Solid found) (same_length : found.length = title.length)
    (unmarked : ∀ entry ∈ entries, isDefault entry = false)
    (selected : Selected title (markDefault found entries) entry) :
    found = title ∧ ∀ entry ∈ entries.takeWhile (¬Titled title ·), ¬Begins title entry := by
  obtain ⟨front, back, same, untitled, before, -⟩ := selected.alone
  by_cases looked : ∃ other ∈ entries, decide (Begins found other) = true
  · obtain ⟨passed, first, rest, rfl, begins, none⟩ := exists_first looked
    have begins : Begins found first := of_decide_eq_true begins
    have none : ∀ other ∈ passed, ¬Begins found other := fun other member =>
      of_decide_eq_false (none other member)
    rw [markDefault_split solid none begins] at same
    have passed_unmarked : ∀ other ∈ passed, isDefault other = false := fun other member =>
      unmarked other (List.mem_append_left _ member)
    obtain ⟨rfl, rfl⟩ := first_marked_unique same passed_unmarked (isDefault_marked first) before
      selected.marked
    have titled : Titled title first := titled_marked_iff.mp selected.titled
    have same_title : found = title := by
      have written := titled.begins
      unfold Begins at begins written
      rw [same_length, written] at begins
      exact begins.symm
    refine ⟨same_title, ?_⟩
    rw [takeWhile_untitled untitled titled, ← same_title]
    exact none
  · have none : ∀ other ∈ entries, ¬Begins found other := fun other member begins =>
      looked ⟨other, member, decide_eq_true begins⟩
    rw [markDefault_none solid none] at same
    have member : entry ∈ entries := by
      rw [same]
      exact List.mem_append_right _ List.mem_cons_self
    have not_marked := unmarked entry member
    rw [selected.marked] at not_marked
    cases not_marked

/-- The title that is written selects the first entry that has it, if none in front begins
with it. -/
theorem exists_selected (solid : Solid title)
    (unmarked : ∀ entry ∈ entries, isDefault entry = false)
    (some_entry : ∃ entry ∈ entries, Titled title entry)
    (none : ∀ entry ∈ entries.takeWhile (¬Titled title ·), ¬Begins title entry) :
    ∃ entry, Selected title (markDefault title entries) entry ∧
      ∀ unset, drawBootMenu true unset (markDefault title entries) = some (.boot entry) := by
  obtain ⟨entry, member, titled⟩ := some_entry
  obtain ⟨front, first, back, rfl, here, others⟩ :=
    exists_first (p := fun entry => decide (Titled title entry))
      ⟨entry, member, decide_eq_true titled⟩
  have here : Titled title first := of_decide_eq_true here
  have untitled : ∀ other ∈ front, ¬Titled title other := fun other member =>
    of_decide_eq_false (others other member)
  have front_unmarked : ∀ other ∈ front, isDefault other = false := fun other member =>
    unmarked other (List.mem_append_left _ member)
  have back_unmarked : ∀ other ∈ back, isDefault other = false := fun other member =>
    unmarked other (List.mem_append_right _ (List.mem_cons_of_mem _ member))
  rw [takeWhile_untitled untitled here] at none
  rw [markDefault_split solid none here.begins]
  refine ⟨marked first, ⟨titled_marked_iff.mpr here, isDefault_marked first, front, back, rfl,
    untitled, front_unmarked, back_unmarked⟩, fun unset => ?_⟩
  exact drawBootMenu_timedOut unset (find?_isDefault front_unmarked (isDefault_marked first))

/-- What is marked by a title is the first entry with the one that is written exactly if
that is looked for, and no entry in front of the first one begins with it. -/
theorem selectsFirst_iff (solid : Solid found) (same_length : found.length = title.length)
    (unmarked : ∀ entry ∈ entries, isDefault entry = false)
    (some_entry : ∃ entry ∈ entries, Titled title entry) :
    (∃ entry, Selected title (markDefault found entries) entry ∧
      ∀ unset, drawBootMenu true unset (markDefault found entries) = some (.boot entry)) ↔
      found = title ∧ ∀ entry ∈ entries.takeWhile (¬Titled title ·), ¬Begins title entry := by
  constructor
  · rintro ⟨entry, selected, -⟩
    exact selected.found_eq solid same_length unmarked
  · rintro ⟨rfl, none⟩
    exact exists_selected solid unmarked some_entry none

end Selection

/-! ## Files -/

section Files

variable {szPath : Option (List Byte)} {file beyond : List Byte} {spare : Byte}

/-- Whatever a file holds whose last default line has a title, that selects the first entry
with it exactly if it is found as it is written, and no title in front of the first one that
equals it begins with it. -/
theorem parseConfig_selects_iff {entries : List ConfigEntry}
    {handled : List (Keyword × List Byte)} {after : TextBuffer} {title : List Byte}
    (run : parseConfig file.length szPath ⟨file ++ spare :: beyond, []⟩ =
      .leave ((entries, handled), after))
    (last : defaultOf (directives (file.takeWhile (· ≠ 0))) = some title)
    (some_title : title ≠ []) :
    SelectsFirst title entries ↔
      ((∃ entry ∈ (entriesOf szPath handled).toList, Titled title entry) →
        foundTitle false none (lines (file.takeWhile (· ≠ 0))) = some title ∧
          ∀ entry ∈ (entriesOf szPath handled).toList.takeWhile (¬Titled title ·),
            ¬Begins title entry) := by
  obtain ⟨found, at_end, same⟩ := foundTitle_of_defaultOf last
  have same_length : found.length = title.length := by
    rcases same with rfl | rfl
    · rfl
    · exact List.length_map _
  have some_found : found ≠ [] := by
    rintro rfl
    exact some_title (List.length_eq_zero_iff.mp same_length.symm)
  have made : entries = markDefault found (entriesOf szPath handled).toList ∧ Solid found :=
    (parseConfig_marks at_end some_found).of_returned run
  obtain ⟨rfl, solid⟩ := made
  rw [at_end, Option.some.injEq]
  unfold SelectsFirst
  rw [exists_titled_markDefault_iff]
  exact imp_congr_right fun some_entry =>
    selectsFirst_iff solid same_length (unmarked_entriesOf szPath handled) some_entry

/-- Isolated lines are parsed to the outcome of their directives. -/
theorem exists_run (isolated : Isolated (lines file)) (safe : ¬Overruns (lines file))
    (nonzero : Solid file) : ∃ after, parseConfig file.length szPath ⟨file ++ 0 :: [], []⟩ =
      .leave ((outcome szPath (directives file), directives file), after) := by
  have parsed : (parseConfig file.length szPath).Ensures ⟨file ++ 0 :: [], []⟩ (fun _ => False)
      fun result state => result = (outcome szPath (directives file), directives file) ∧
        state.Within (file.length + 1) :=
    parseConfig_isolated nonzero isolated ⟨Nat.le_refl _, .inl safe⟩
  obtain ⟨result, after, run, rfl, -⟩ := parsed.returns
  exact ⟨after, run⟩

/-- Two titles, the longer one first. -/
def twoTitles : List Byte := text "title Linux-old\ntitle Linux\ndefault Linux"

theorem lines_twoTitles : lines twoTitles =
    [text "title Linux-old", text "title Linux", text "default Linux"] := by decide

theorem directives_twoTitles : directives twoTitles =
    [(.title, text "Linux-old"), (.title, text "Linux"), (.default, text "Linux")] := by decide

theorem exists_run_twoTitles : ∃ after,
    parseConfig twoTitles.length none ⟨twoTitles ++ 0 :: [], []⟩ =
      .leave ((outcome none (directives twoTitles), directives twoTitles), after) := by
  apply exists_run
  · rw [lines_twoTitles]
    exact ⟨.inl (by decide), .inl (by decide), trivial⟩
  · rw [lines_twoTitles]
    rintro ⟨-, -, unseparated⟩
    have blank : separated (text "default Linux") = false := unseparated
    exact absurd blank (by decide)
  · unfold Solid
    decide

theorem default_twoTitles : defaultOf (directives (twoTitles.takeWhile (· ≠ 0))) =
    some (text "Linux") := by decide

/-- The two titles are both looked at. -/
theorem parseConfig_selects_iff_twoTitles :
    SelectsFirst (text "Linux") (outcome none (directives twoTitles)) ↔
      ((∃ entry ∈ (entriesOf none (directives twoTitles)).toList, Titled (text "Linux") entry) →
        foundTitle false none (lines (twoTitles.takeWhile (· ≠ 0))) = some (text "Linux") ∧
          ∀ entry ∈ (entriesOf none (directives twoTitles)).toList.takeWhile
            (¬Titled (text "Linux") ·), ¬Begins (text "Linux") entry) := by
  obtain ⟨after, run⟩ := exists_run_twoTitles
  exact parseConfig_selects_iff run default_twoTitles (by decide)

/-- The entries of the two titles. -/
def twoEntries : List ConfigEntry :=
  (entriesOf none [(.title, text "Linux-old"), (.title, text "Linux"),
    (.default, text "Linux")]).toList

/-- The entry with the longer title becomes the default one. -/
theorem parseConfig_selects_longer : ¬∀ (szPath : Option (List Byte)) (file beyond : List Byte)
    (spare : Byte) (entries : List ConfigEntry) (handled : List (Keyword × List Byte))
    (after : TextBuffer) (title : List Byte),
    parseConfig file.length szPath ⟨file ++ spare :: beyond, []⟩ =
      .leave ((entries, handled), after) →
    defaultOf (directives (file.takeWhile (· ≠ 0))) = some title → title ≠ [] →
    SelectsFirst title entries := by
  intro selects
  obtain ⟨after, run⟩ := exists_run_twoTitles
  have selected := selects _ _ _ _ _ _ _ _ run default_twoTitles (by decide)
  have marks : outcome none (directives twoTitles) = markDefault (text "Linux") twoEntries := by
    rw [directives_twoTitles]
    rfl
  have titled : ∃ entry ∈ twoEntries, Titled (text "Linux") entry := by decide
  have unmarked : ∀ entry ∈ twoEntries, isDefault entry = false := unmarked_entriesOf _ _
  have solid : Solid (text "Linux") := by
    unfold Solid
    decide
  rw [marks] at selected
  have first := (selectsFirst_iff solid rfl unmarked titled).mp
    (selected (exists_titled_markDefault_iff _ |>.mpr titled))
  exact absurd first.2 (by decide)

end Files

end Cromwell.Menu
