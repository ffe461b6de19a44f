import Cromwell.Config.Recording
import Cromwell.Menu.DefaultEntry
import Cromwell.Std.Nested

/-!
# Booting without a user

The systems found on a medium are two levels of entries: one for each kind of system, with
the entries of its configuration nested in it. Once the time is out, `DrawBootMenu` and
`BootMenuEntry` call each other down to an entry with nothing nested in it. They boot that
one, and go on to no other if it cannot be loaded.
-/

namespace Cromwell.Boot

open Cromwell.Std Cromwell.Config Cromwell.Lib
open Cromwell.Menu (isDefault)

/-! ## Menus -/

section Menus

variable {α : Type}

/-- What happens while a system is chosen. -/
inductive BootEvent (α : Type)
  | bootFromDevice (config : α)
  | textMenu (rootEntry : Nested α)
  | nullPointer

/-- The events so far; a cut is a system that has taken over. -/
abbrev Booting (α : Type) := Program (List (BootEvent α))

def emit (event : BootEvent α) : Booting α Unit := .update fun events => ((), events ++ [event])

variable (isDefault : α → Bool) (bootFromDevice : α → Booting α Unit)

mutual

/-- `DrawBootMenu`. -/
def drawBootMenu (timedOut : Bool) : (rootEntry : Nested α) → Booting α Unit
  | .null => emit .nullPointer
  | .entry configEntry next nested =>
    if next.isNull then bootMenuEntry timedOut configEntry nested
    else if timedOut then
      let entries := (Nested.entry configEntry next nested).nodes
      match entries.attach.find? fun currentConfigEntry => isDefault currentConfigEntry.1.1 with
      | some ⟨(currentConfigEntry, nested), _⟩ =>
        bootMenuEntry timedOut currentConfigEntry nested
      | none => bootMenuEntry timedOut configEntry nested
    else emit (.textMenu (.entry configEntry next nested))
termination_by rootEntry => (rootEntry.depth, 0)
decreasing_by
  · exact .left _ _ (@Nested.depth_nested _ _ (configEntry, nested) List.mem_cons_self)
  · exact .left _ _ (Nested.depth_nested ‹_›)
  · exact .left _ _ (@Nested.depth_nested _ _ (configEntry, nested) List.mem_cons_self)

/-- `BootMenuEntry`. -/
def bootMenuEntry (timedOut : Bool) (config : α) (nested : Nested α) : Booting α Unit :=
  if nested.isNull then bootFromDevice config else drawBootMenu timedOut nested
termination_by (nested.depth, 1)
decreasing_by exact .right _ (Nat.lt_succ_self 0)

end

section TimedOut

variable {isDefault bootFromDevice} {rootEntry : Nested α}

theorem find?_attach {β : Type} (p : β → Bool) (list : List β) :
    (list.attach.find? fun item => p item.1).map Subtype.val = list.find? p := by
  have whole := List.find?_map (p := p) (f := Subtype.val) (l := list.attach)
  rw [List.attach_map_subtype_val] at whole
  exact whole.symm

/-- With the time out, one of the entries of a list is gone on with. -/
theorem drawBootMenu_taken (some : rootEntry ≠ .null) :
    ∃ node, Nested.Taken isDefault rootEntry.nodes node ∧
      drawBootMenu isDefault bootFromDevice true rootEntry =
        bootMenuEntry isDefault bootFromDevice true node.1 node.2 := by
  cases rootEntry with
  | null => exact absurd rfl some
  | entry configEntry next nested =>
      rw [drawBootMenu]
      cases next with
      | null => exact ⟨(configEntry, nested), .only _, rfl⟩
      | entry second later nested' =>
          have found := find?_attach (isDefault ·.1)
            (Nested.entry configEntry (.entry second later nested') nested).nodes
          cases chosen : (Nested.entry configEntry (.entry second later nested') nested).nodes
              |>.attach.find? fun currentConfigEntry => isDefault currentConfigEntry.1.1 with
          | none =>
              rw [chosen] at found
              refine ⟨(configEntry, nested), .first (by simp [Nested.nodes]) ?_, ?_⟩
              · intro other member
                simpa using List.find?_eq_none.mp found.symm other member
              · simp [Nested.isNull, chosen]
          | some node =>
              rw [chosen] at found
              refine ⟨node.1, .marked (by simp [Nested.nodes]) found.symm, ?_⟩
              simp [Nested.isNull, chosen]

/-- With the time out, the leaf that a list leads to is booted and nothing else is done. -/
theorem drawBootMenu_target (some : rootEntry ≠ .null) :
    ∃ leaf, Nested.Target isDefault rootEntry leaf ∧
      drawBootMenu isDefault bootFromDevice true rootEntry = bootFromDevice leaf := by
  induction levels : rootEntry.depth using Nat.strong_induction_on generalizing rootEntry with
  | _ levels ih =>
      obtain ⟨⟨config, nested⟩, taken, entered⟩ := drawBootMenu_taken some
      rw [entered, bootMenuEntry]
      cases nested with
      | null => exact ⟨config, .here taken, rfl⟩
      | entry first next inner =>
          have fewer := Nested.depth_nested taken.mem
          rw [levels] at fewer
          have nonempty : Nested.entry first next inner ≠ .null := by simp
          obtain ⟨leaf, target, booted⟩ := ih _ fewer nonempty rfl
          exact ⟨leaf, .nested taken nonempty target, booted⟩

/-- There is no other leaf that the marks lead to. -/
theorem drawBootMenu_of_target {leaf : α} (target : Nested.Target isDefault rootEntry leaf) :
    drawBootMenu isDefault bootFromDevice true rootEntry = bootFromDevice leaf := by
  have some : rootEntry ≠ .null := by
    rintro rfl
    exact Nested.not_leaf_null target.leaf
  obtain ⟨other, target', booted⟩ := @drawBootMenu_target _ isDefault bootFromDevice _ some
  rw [target.unique target', booted]

end TimedOut

end Menus

/-- For entries with nothing nested in them this is the choice of a single boot menu. -/
theorem drawBootMenu_ofList {entries : List ConfigEntry} {leaf : ConfigEntry}
    (target : (Nested.ofList entries).Target isDefault leaf)
    (unset : Nat → Menu.TextMenuItem Nat) :
    Menu.drawBootMenu true unset entries = some (.boot leaf) := by
  have flat : ∀ {node}, Nested.Taken isDefault (Nested.ofList entries).nodes node →
      Menu.drawBootMenu true unset entries = some (.boot node.1) := by
    intro node taken
    rw [Nested.nodes_ofList] at taken
    match entries with
    | [] => cases taken.mem
    | [only] =>
        rw [List.mem_singleton.mp taken.mem]
        rfl
    | first :: second :: rest =>
        cases taken with
        | marked _ found =>
            rw [List.find?_map] at found
            obtain ⟨entry, here, rfl⟩ := Option.map_eq_some_iff.mp found
            exact Menu.drawBootMenu_timedOut unset here
        | first _ unmarked =>
            have none : (first :: second :: rest).find? isDefault = none := by
              rw [List.find?_eq_none]
              intro other member
              have present := List.mem_map_of_mem
                (f := fun entry : ConfigEntry => (entry, (.null : Nested ConfigEntry))) member
              simp [unmarked (other, .null) present]
            simp [Menu.drawBootMenu, none]
  cases target with
  | here taken => exact flat taken
  | nested taken some _ =>
      have member := taken.mem
      rw [Nested.nodes_ofList] at member
      obtain ⟨entry, -, same⟩ := List.mem_map.mp member
      exact absurd (Prod.mk.inj same).2.symm some

/-! ## Media -/

def driveOffset : Nat := 0
def partitionOffset : Nat := 4
def bootTypeOffset : Nat := 12

/-- `enum BootTypes`. -/
inductive BootTypes
  | bootCdrom
  | bootFATX
  | bootNative
  deriving Repr, DecidableEq

def BootTypes.code : BootTypes → Nat
  | bootCdrom => 0
  | bootFATX => 1
  | bootNative => 2

def sysReactos : Nat := 1

/-- An entry after a pass of `FillConfigEntries`. -/
def fillConfigEntry (bootType : BootTypes) (drive partition : Int32) (entry : ConfigEntry) :
    ConfigEntry :=
  let entry := Memory.store entry bootTypeOffset (dwordBytes bootType.code)
  match bootType with
  | .bootNative =>
    let entry := Memory.store entry driveOffset (dwordBytes drive.toUInt32.toNat)
    Memory.store entry partitionOffset (dwordBytes partition.toUInt32.toNat)
  | .bootFATX => entry
  | .bootCdrom => Memory.store entry driveOffset (dwordBytes drive.toUInt32.toNat)

def fillConfigEntries (config : Nested ConfigEntry) (bootType : BootTypes)
    (drive partition : Int32) : Nested ConfigEntry :=
  config.map (fillConfigEntry bootType drive partition)

def addNestedConfigEntry (config nested : Nested ConfigEntry) (title : List Byte) :
    Nested ConfigEntry :=
  let entry := Memory.store emptyEntry Field.title.array.start
    (strncpy title Field.title.array.length)
  config.append (.entry entry .null nested)

/-- What `DetectLinuxNative` and `DetectLinuxFATX` return, given the configuration that has
been parsed if there is one. -/
def detectLinux : Option (List ConfigEntry) → Nested ConfigEntry
  | none => .null
  | some entries => .ofList entries

/-- The entry that `DetectReactOSNative` and `DetectReactOSFATX` fill. -/
def reactOSEntry : ConfigEntry :=
  let config := Memory.store emptyEntry bootSystemOffset (dwordBytes sysReactos)
  let config := Memory.store config Field.title.array.start (text "ReactOS" ++ [0])
  Memory.store config Field.szPath.array.start (text "/freeldr.sys" ++ [0])

/-- What they return, where `found` says whether the file can be opened. -/
def detectReactOS (found : Bool) : Nested ConfigEntry :=
  if found then .ofList [reactOSEntry] else .null

/-- The systems of a medium, as both functions below put them together. -/
def nestSystems (bootType : BootTypes) (drive partition : Int32)
    (cfgLinux cfgReactOS : Nested ConfigEntry) : Nested ConfigEntry :=
  let config :=
    if cfgLinux.isNull then .null
    else
      addNestedConfigEntry .null (fillConfigEntries cfgLinux bootType drive partition)
        (text "Linux")
  if cfgReactOS.isNull then config
  else
    addNestedConfigEntry config (fillConfigEntries cfgReactOS bootType drive partition)
      (text "ReactOS")

def detectSystemNative (drive partition : Int32) (cfgLinux cfgReactOS : Nested ConfigEntry) :
    Nested ConfigEntry :=
  nestSystems .bootNative drive partition cfgLinux cfgReactOS

/-- `opened` says whether the partition can be opened. -/
def detectSystemFatX (opened : Bool) (cfgLinux cfgReactOS : Nested ConfigEntry) :
    Nested ConfigEntry :=
  if opened then nestSystems .bootFATX 0 0 cfgLinux cfgReactOS else .null

/-- `BootFromDevice`: `load` says whether the loader of the medium succeeds. The system of
the entry is started then, which does not return. -/
def bootFromDevice (load : List (BootEvent ConfigEntry) → ConfigEntry → Bool)
    (config : ConfigEntry) : Booting ConfigEntry Unit := fun events =>
  let events := events ++ [.bootFromDevice config]
  let bootType := Memory.dword config bootTypeOffset
  let bootSystem := Memory.dword config bootSystemOffset
  let result :=
    (bootType = BootTypes.bootCdrom.code || bootType = BootTypes.bootFATX.code ||
      bootType = BootTypes.bootNative.code) &&
      (bootSystem = sysLinux || bootSystem = sysReactos) && load events config
  if result then .next events else .leave ((), events)

/-- The loader of an entry is called once, whether it fails or not. -/
theorem bootFromDevice_once (load : List (BootEvent ConfigEntry) → ConfigEntry → Bool)
    (config : ConfigEntry) :
    (bootFromDevice load config).Ensures [] (fun events => events = [.bootFromDevice config])
      fun _ events => events = [.bootFromDevice config] := by
  unfold bootFromDevice Program.Ensures
  dsimp only
  split
  · rfl
  · rfl

/-! ## What is booted -/

/-- The entry is one of this medium. -/
structure OnMedium (bootType : BootTypes) (drive partition : Int32) (entry : ConfigEntry) :
    Prop where
  bootType : Memory.dword entry bootTypeOffset = bootType.code
  drive : Memory.dword entry driveOffset = drive.toUInt32.toNat
  partition : Memory.dword entry partitionOffset = partition.toUInt32.toNat

/-- A configuration as the parser returns it, with whatever marks on its entries. -/
def Configured (entries : List ConfigEntry) : Prop :=
  ∃ fileLen szPath buffer parsed handled after,
    parseConfig fileLen szPath buffer = .leave ((parsed, handled), after) ∧
      ∃ marks : Nat → Nat, entries = parsed.mapIdx fun k entry =>
        Memory.store entry isDefaultOffset (dwordBytes (marks k))

/-- Once the time is out, there is one leaf to boot, it is one of the medium, and its
loader is called once, whether it fails or not. Nothing else happens. -/
def Unattended (load : List (BootEvent ConfigEntry) → ConfigEntry → Bool) (bootType : BootTypes)
    (drive partition : Int32) (rootEntry : Nested ConfigEntry) : Prop :=
  ∃ leaf, rootEntry.Target isDefault leaf ∧ rootEntry.Leaf leaf ∧
    OnMedium bootType drive partition leaf ∧
    (drawBootMenu isDefault (bootFromDevice load) true rootEntry).Ensures []
      (fun events => events = [.bootFromDevice leaf])
      fun _ events => events = [.bootFromDevice leaf]

/-- The drive and the partition have not been filled in. -/
def Unplaced (entry : ConfigEntry) : Prop :=
  Memory.dword entry driveOffset = 0 ∧ Memory.dword entry partitionOffset = 0

section Detection

variable {bootType : BootTypes} {drive partition : Int32} {entry : ConfigEntry}
  {entries : List ConfigEntry} {cfgLinux cfgReactOS : Nested ConfigEntry}

theorem unplaced_store {address : Nat} {bytes : List Byte} (behind : 8 ≤ address) :
    Unplaced (Memory.store entry address bytes) ↔ Unplaced entry := by
  have first : Memory.dword (Memory.store entry address bytes) driveOffset =
      Memory.dword entry driveOffset :=
    Memory.dword_store_other _ (.inl (Nat.le_trans (by decide) behind))
  have second : Memory.dword (Memory.store entry address bytes) partitionOffset =
      Memory.dword entry partitionOffset := Memory.dword_store_other _ (.inl behind)
  rw [Unplaced, first, second]
  rfl

theorem unplaced_emptyEntry : Unplaced emptyEntry := by
  constructor
  · rfl
  · rfl

theorem unplaced_reactOSEntry : Unplaced reactOSEntry := by
  unfold reactOSEntry
  rw [unplaced_store (by decide), unplaced_store (by decide), unplaced_store (by decide)]
  exact unplaced_emptyEntry

/-- The parser returns at least one entry, and places none. -/
theorem Configured.unplaced (configured : Configured entries) :
    entries ≠ [] ∧ ∀ entry ∈ entries, Unplaced entry := by
  obtain ⟨fileLen, szPath, buffer, parsed, handled, after, run, marks, rfl⟩ := configured
  have unchanged : ∀ entry, Unplaced (Memory.store entry isDefaultOffset (dwordBytes 1)) =
      Unplaced entry := fun entry => propext (unplaced_store (Nat.le_refl 8))
  obtain ⟨same, -⟩ := (parseConfig_viewed unchanged fileLen buffer).of_returned run
  have untouched : Untouched Unplaced :=
    ⟨unplaced_emptyEntry, fun behind => (unplaced_store (Nat.le_trans (by decide) behind)).mpr⟩
  constructor
  · intro empty
    rw [List.mapIdx_eq_nil_iff.mp empty] at same
    have lengths := congrArg List.length same
    simp [Entries.toList] at lengths
  · intro entry member
    obtain ⟨k, inside, rfl⟩ := List.mem_mapIdx.mp member
    refine (unplaced_store (Nat.le_refl 8)).mpr ?_
    have viewed := List.mem_map_of_mem (f := Unplaced) (List.getElem_mem inside)
    rw [same] at viewed
    obtain ⟨made, present, equal⟩ := List.mem_map.mp viewed
    rw [← equal]
    exact each_entriesOf untouched szPath handled made present

/-- What has been filled in is what is on the medium, where the parser has placed nothing. -/
theorem onMedium_fillConfigEntry (unplaced : Unplaced entry)
    (whole : bootType = .bootNative ∨ drive = 0 ∧ partition = 0) :
    OnMedium bootType drive partition (fillConfigEntry bootType drive partition entry) := by
  have code : bootType.code < 2 ^ 32 := by cases bootType <;> decide
  have typed : Memory.dword (Memory.store entry bootTypeOffset (dwordBytes bootType.code))
      bootTypeOffset = bootType.code := Memory.dword_store _ _ code
  have unplaced : Unplaced (Memory.store entry bootTypeOffset (dwordBytes bootType.code)) :=
    (unplaced_store (by decide)).mpr unplaced
  have zero : (0 : Int32).toUInt32.toNat = 0 := rfl
  cases bootType with
  | bootNative =>
      refine ⟨?_, ?_, ?_⟩
      · unfold fillConfigEntry
        dsimp only
        rw [Memory.dword_store_other _ (.inr (by simp [bootTypeOffset, partitionOffset])),
          Memory.dword_store_other _ (.inr (by simp [bootTypeOffset, driveOffset])), typed]
      · unfold fillConfigEntry
        dsimp only
        rw [Memory.dword_store_other _ (.inl (by decide)),
          Memory.dword_store _ _ (UInt32.toNat_lt _)]
      · unfold fillConfigEntry
        dsimp only
        rw [Memory.dword_store _ _ (UInt32.toNat_lt _)]
  | bootFATX =>
      obtain ⟨rfl, rfl⟩ := whole.resolve_left BootTypes.noConfusion
      exact ⟨typed, unplaced.1.trans zero.symm, unplaced.2.trans zero.symm⟩
  | bootCdrom =>
      obtain ⟨rfl, rfl⟩ := whole.resolve_left BootTypes.noConfusion
      refine ⟨?_, ?_, ?_⟩
      · exact (Memory.dword_store_other _ (.inr (by decide))).trans typed
      · exact Memory.dword_store _ _ (UInt32.toNat_lt _)
      · exact (Memory.dword_store_other _ (.inr (by decide))).trans (unplaced.2.trans zero.symm)

/-- An entry for a kind of system has entries nested in it, the ones that were found. -/
theorem nested_nestSystems {linux reactOS : List ConfigEntry}
    {node : ConfigEntry × Nested ConfigEntry}
    (member : node ∈
      (nestSystems bootType drive partition (.ofList linux) (.ofList reactOS)).nodes) :
    ∃ entries, entries ≠ [] ∧ entries ⊆ linux ++ reactOS ∧
      node.2 = fillConfigEntries (.ofList entries) bootType drive partition := by
  cases linux with
  | nil =>
      cases reactOS with
      | nil => cases member
      | cons entry rest =>
          rw [List.mem_singleton.mp member]
          exact ⟨entry :: rest, by simp, by simp, rfl⟩
  | cons first others =>
      cases reactOS with
      | nil =>
          rw [List.mem_singleton.mp member]
          exact ⟨first :: others, by simp, by simp, rfl⟩
      | cons entry rest =>
          rcases List.mem_cons.mp member with rfl | later
          · exact ⟨first :: others, by simp, List.subset_append_left _ _, rfl⟩
          · rw [List.mem_singleton.mp later]
            exact ⟨entry :: rest, by simp, List.subset_append_right _ _, rfl⟩

theorem nestSystems_ne_null {linux reactOS : List ConfigEntry} (some : linux ++ reactOS ≠ []) :
    nestSystems bootType drive partition (.ofList linux) (.ofList reactOS) ≠ .null := by
  cases linux with
  | nil =>
      cases reactOS with
      | nil => exact absurd rfl some
      | cons entry rest => simp [nestSystems, Nested.ofList, Nested.isNull, addNestedConfigEntry,
          Nested.append]
  | cons first others =>
      cases reactOS with
      | nil => simp [nestSystems, Nested.ofList, Nested.isNull, addNestedConfigEntry,
          Nested.append]
      | cons entry rest => simp [nestSystems, Nested.ofList, Nested.isNull, addNestedConfigEntry,
          Nested.append]

/-- Every leaf is an entry of one of the systems, filled in. -/
theorem leaf_nestSystems {linux reactOS : List ConfigEntry} {leaf : ConfigEntry}
    (found : (nestSystems bootType drive partition (.ofList linux) (.ofList reactOS)).Leaf leaf) :
    ∃ entry ∈ linux ++ reactOS, leaf = fillConfigEntry bootType drive partition entry := by
  cases found with
  | here member =>
      obtain ⟨entries, some, -, same⟩ := nested_nestSystems member
      cases entries with
      | nil => exact absurd rfl some
      | cons entry rest => cases same
  | nested member inner =>
      obtain ⟨entries, -, inside, rfl⟩ := nested_nestSystems member
      have flat : ∀ {node}, node ∈ (fillConfigEntries (.ofList entries) bootType drive
          partition).nodes → node.2 = .null ∧ ∃ entry ∈ linux ++ reactOS,
            node.1 = fillConfigEntry bootType drive partition entry := by
        intro node member
        rw [fillConfigEntries, Nested.nodes_map, Nested.nodes_ofList, List.map_map] at member
        obtain ⟨entry, present, rfl⟩ := List.mem_map.mp member
        exact ⟨rfl, entry, inside present, rfl⟩
      cases inner with
      | here member => exact (flat member).2
      | nested member deeper =>
          obtain ⟨none, -⟩ := flat member
          dsimp only at none
          rw [none] at deeper
          exact absurd deeper Nested.not_leaf_null

theorem unattended_nestSystems {linux reactOS : List ConfigEntry}
    (load : List (BootEvent ConfigEntry) → ConfigEntry → Bool)
    (unplaced : ∀ entry ∈ linux ++ reactOS, Unplaced entry) (some : linux ++ reactOS ≠ [])
    (whole : bootType = .bootNative ∨ drive = 0 ∧ partition = 0) :
    Unattended load bootType drive partition
      (nestSystems bootType drive partition (.ofList linux) (.ofList reactOS)) := by
  obtain ⟨leaf, target, booted⟩ : ∃ leaf, Nested.Target isDefault (nestSystems bootType drive
      partition (.ofList linux) (.ofList reactOS)) leaf ∧
        drawBootMenu isDefault (bootFromDevice load) true _ = bootFromDevice load leaf :=
    drawBootMenu_target (nestSystems_ne_null some)
  obtain ⟨entry, present, rfl⟩ := leaf_nestSystems target.leaf
  refine ⟨_, target, target.leaf, onMedium_fillConfigEntry (unplaced entry present) whole, ?_⟩
  rw [booted]
  exact bootFromDevice_once load _

end Detection

/-- Whatever systems are found on a medium, and whichever of the configured ones are marked,
once the time is out the first default entry is booted, else the first one, at each level
that has more than one. -/
theorem drawBootMenu_unattended (load : List (BootEvent ConfigEntry) → ConfigEntry → Bool)
    (drive partition : Int32) (linux : Option (List ConfigEntry)) (reactOS : Bool)
    (parsed : ∀ entries, linux = some entries → Configured entries)
    (found : linux ≠ none ∨ reactOS = true) :
    Unattended load .bootNative drive partition
        (detectSystemNative drive partition (detectLinux linux) (detectReactOS reactOS)) ∧
      Unattended load .bootFATX 0 0
        (detectSystemFatX true (detectLinux linux) (detectReactOS reactOS)) := by
  obtain ⟨systems, same, placed, some_linux⟩ : ∃ systems, detectLinux linux = .ofList systems ∧
      (∀ entry ∈ systems, Unplaced entry) ∧ (linux ≠ none → systems ≠ []) := by
    cases linux with
    | none => exact ⟨[], rfl, by simp, by simp⟩
    | some entries =>
        obtain ⟨some, unplaced⟩ := (parsed entries rfl).unplaced
        exact ⟨entries, rfl, unplaced, fun _ => some⟩
  obtain ⟨others, same', placed', some_reactOS⟩ : ∃ others,
      detectReactOS reactOS = .ofList others ∧ (∀ entry ∈ others, Unplaced entry) ∧
        (reactOS = true → others ≠ []) := by
    cases reactOS with
    | false => exact ⟨[], rfl, by simp, by simp⟩
    | true => exact ⟨[reactOSEntry], rfl, by simpa using unplaced_reactOSEntry, by simp⟩
  have unplaced : ∀ entry ∈ systems ++ others, Unplaced entry := by
    intro entry member
    rcases List.mem_append.mp member with first | second
    · exact placed entry first
    · exact placed' entry second
  have some : systems ++ others ≠ [] := by
    rcases found with linux | reactOS
    · simp [some_linux linux]
    · simp [some_reactOS reactOS]
  rw [same, same']
  exact ⟨unattended_nestSystems load unplaced some (.inl rfl),
    unattended_nestSystems load unplaced some (.inr ⟨rfl, rfl⟩)⟩

/-- Two titles, the second of them marked. -/
def markedTitles : List ConfigEntry :=
  (outcome none (directives Menu.twoTitles)).mapIdx fun k entry =>
    Memory.store entry isDefaultOffset (dwordBytes k)

theorem configured_markedTitles : Configured markedTitles := by
  obtain ⟨after, run⟩ := Menu.exists_run_twoTitles
  exact ⟨_, _, _, _, _, after, run, id, rfl⟩

/-- No loader succeeds. -/
theorem drawBootMenu_unattended_markedTitles :
    Unattended (fun _ _ => false) .bootNative 0 1
        (detectSystemNative 0 1 (detectLinux (some markedTitles)) (detectReactOS true)) ∧
      Unattended (fun _ _ => false) .bootFATX 0 0
        (detectSystemFatX true (detectLinux (some markedTitles)) (detectReactOS true)) := by
  have parsed : ∀ entries, some markedTitles = some entries → Configured entries := by
    intro entries same
    rw [← Option.some.inj same]
    exact configured_markedTitles
  exact drawBootMenu_unattended (fun _ _ => false) 0 1 (some markedTitles) true parsed (.inr rfl)

end Cromwell.Boot
