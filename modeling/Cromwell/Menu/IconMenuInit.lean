import Cromwell.Ide.BootIde
import Cromwell.Menu.IconMenu
import Cromwell.Std.TextBuffer

/-!
# Setting up the icon menu

Icons are added in a fixed order: those of CD drives, that of a FATX configuration, those
of configurations on native partitions, and the two that are always there. An icon of a
configuration becomes the selected one when it is added, so the last of them stays
selected. What the drives hold is a parameter, and so is what the search for
configurations finds there. Icons are known by the number of their allocation.
-/

namespace Cromwell.Menu

open Cromwell.Std Cromwell.Ide Cromwell.Std.TextBuffer

/-! ## Adding icons -/

section AddIcon

variable {α : Type} [DecidableEq α]

/-- `AddIcon`, to a list of less than `fuel` icons. -/
def addIcon (fuel : Nat) (state : IconState α) (newIcon : α) : Option (IconState α) := do
  let currentIcon ← (iconLinks state.icons).last fuel state.firstIcon none
  let firstIcon := if currentIcon = none then some newIcon else state.firstIcon
  let icons := fun icon =>
    if icon = newIcon then
      { state.icons icon with nextIcon := none, previousIcon := currentIcon }
    else if some icon = currentIcon then { state.icons icon with nextIcon := some newIcon }
    else state.icons icon
  some { state with firstIcon, icons }

/-- The icons stay a list, with the new one behind the others. -/
theorem addIcon_chain {fuel : Nat} (state : IconState α) {nodes : List α} {newIcon : α}
    (chain : (iconLinks state.icons).Chain state.firstIcon nodes) (fresh : newIcon ∉ nodes)
    (enough : nodes.length < fuel) :
    ∃ firstIcon icons, addIcon fuel state newIcon = some { state with firstIcon, icons } ∧
      (iconLinks icons).Chain firstIcon (nodes ++ [newIcon]) := by
  unfold addIcon
  rw [chain.last_eq enough, Option.bind_eq_bind, Option.bind_some]
  refine ⟨_, _, rfl, ?_⟩
  have links : ∀ current, iconLinks (fun icon =>
      if icon = newIcon then
        { state.icons icon with nextIcon := none, previousIcon := current }
      else if some icon = current then { state.icons icon with nextIcon := some newIcon }
      else state.icons icon) = (iconLinks state.icons).append current newIcon := by
    intro current
    simp only [iconLinks, Links.append, Links.mk.injEq]
    constructor
    · funext icon
      split_ifs with same last
      · rfl
      · rfl
      · rfl
    · funext icon
      split_ifs with same last
      · rfl
      · rfl
      · rfl
  rw [links]
  exact chain.append fresh

end AddIcon

/-- What is set in an icon before it is added, and whether it becomes the selected one. -/
structure NewIcon where
  iconSlot : Nat
  szCaption : List Byte
  functionPtr : Option Nat
  functionDataPtr : Nat
  select : Bool

/-- An icon that is set up but not yet in the list. -/
def NewIcon.setUp (newIcon : NewIcon) (icon : Icon Nat) : Icon Nat :=
  { icon with
    iconSlot := newIcon.iconSlot
    szCaption := newIcon.szCaption
    functionPtr := newIcon.functionPtr
    functionDataPtr := newIcon.functionDataPtr }

/-- The icons are added in their order; `iconPtr` is the number of the first of them. -/
def addIcons : List NewIcon → (iconPtr : Nat) → IconState Nat → Option (IconState Nat)
  | [], _, state => some state
  | newIcon :: rest, iconPtr, state => do
    let icons := Function.update state.icons iconPtr (newIcon.setUp (state.icons iconPtr))
    let state ← addIcon (iconPtr + 1) { state with icons } iconPtr
    let selectedIcon := if newIcon.select then some iconPtr else state.selectedIcon
    addIcons rest (iconPtr + 1) { state with selectedIcon }

/-! ## The icons -/

def iconWidth : Nat := 64

/-- `ICON_SOURCE_SLOT0` and those after it. -/
def iconSourceSlot (n : Nat) : Nat := iconWidth * n

/-- The functions of icons. -/
def prepareBootFromCD : Nat := 0
def drawBootMenuIcon : Nat := 1
def bootFromEtherboot : Nat := 2
def advancedMenu : Nat := 3

section Icons

variable (tsaHarddiskInfo : Int → DriveInfo) (readSector : Nat → Nat → Memory)
  (detectSystemFatX : Option Nat) (detectSystemNative : Nat → Nat → Option Nat)

/-- One icon for each CD drive. -/
def cdIcons : List NewIcon :=
  (List.range 2).flatMap fun (i : Nat) =>
    if (tsaHarddiskInfo i).mFAtapi then
      [{ iconSlot := iconSourceSlot 2
         szCaption := text (if i ≠ 0 then "CD-ROM (hdb)" else "CD-ROM (hda)")
         functionPtr := prepareBootFromCD
         functionDataPtr := i
         select := false }]
    else []

/-- The drive is there and is a hard disk. -/
def isHarddisk (driveId : Nat) : Bool :=
  (tsaHarddiskInfo driveId).mFDriveExists && !(tsaHarddiskInfo driveId).mFAtapi

/-- `InitFatXIcons`. If there is FATX, it is marked as default; natives get priority. -/
def initFatXIcons : List NewIcon :=
  let driveId := 0
  if isHarddisk tsaHarddiskInfo driveId then
    let ba := readSector driveId 3
    if Memory.bytes ba 0 4 = text "BRFR" then
      match detectSystemFatX with
      | some entry =>
        [{ iconSlot := iconSourceSlot 4
           szCaption := text "FatX (E:)"
           functionPtr := drawBootMenuIcon
           functionDataPtr := entry
           select := true }]
      | none => []
    else []
  else []

/-- The caption of a partition. -/
def partitionCaption (driveId n : Nat) : List Byte :=
  text "hd" ++ [UInt8.ofNat (driveId + 0x61), UInt8.ofNat (n + 1 + 0x30)]

/-- `InitNativeIcons`: the primary partitions that are bootable and have a configuration. -/
def initNativeIcons : List NewIcon :=
  (List.range 2).flatMap fun driveId =>
    if isHarddisk tsaHarddiskInfo driveId then
      let ba := readSector driveId 0
      -- No MBR means no native boot options for this drive.
      if ba 0x1fe ≠ 0x55 ∨ ba 0x1ff ≠ 0xaa then []
      else
        (List.range 4).flatMap fun n =>
          if ba (0x1be + 16 * n) &&& 0x80 ≠ 0 then
            match detectSystemNative driveId n with
            | some entry =>
              [{ iconSlot := iconSourceSlot 1
                 szCaption := partitionCaption driveId n
                 functionPtr := drawBootMenuIcon
                 functionDataPtr := entry
                 select := true }]
            | none => []
          else []
    else []

/-- The icons that are compiled in: Etherboot and the advanced menu. -/
def builtinIcons (textMenu unset : Nat) : List NewIcon :=
  [{ iconSlot := iconSourceSlot 3
     szCaption := text "Etherboot"
     functionPtr := bootFromEtherboot
     functionDataPtr := unset
     select := false },
   { iconSlot := iconSourceSlot 0
     szCaption := text "Advanced"
     functionPtr := advancedMenu
     functionDataPtr := textMenu
     select := false }]

/-- The globals of the menu before it is set up. -/
def noIcons (unset : Nat → Icon Nat) : IconState Nat where
  icons := unset
  firstIcon := none
  selectedIcon := none
  firstVisibleIcon := none
  lastVisibleIcon := none
  timedOut := false
  ticks := 0
  log := []

/-- `IconMenuInit`. `unset` is what allocated icons happen to hold. -/
def iconMenuInit (textMenu : Nat) (unset : Nat → Icon Nat) : Option (IconState Nat) :=
  addIcons (cdIcons tsaHarddiskInfo ++
    (initFatXIcons tsaHarddiskInfo readSector detectSystemFatX ++
      (initNativeIcons tsaHarddiskInfo readSector detectSystemNative ++
        builtinIcons textMenu (unset 0).functionDataPtr))) 0 (noIcons unset)

end Icons

/-! ## The list that is built -/

/-- Setting up an icon before it is added. -/
theorem iconLinks_update {icons : Nat → Icon Nat} {iconPtr : Nat} {icon : Icon Nat}
    (previous : icon.previousIcon = (icons iconPtr).previousIcon)
    (next : icon.nextIcon = (icons iconPtr).nextIcon) :
    iconLinks (Function.update icons iconPtr icon) = iconLinks icons := by
  simp only [iconLinks, Links.mk.injEq]
  constructor
  · funext other
    by_cases same : other = iconPtr
    · rw [same, Function.update_self, previous]
    · rw [Function.update_of_ne same]
  · funext other
    by_cases same : other = iconPtr
    · rw [same, Function.update_self, next]
    · rw [Function.update_of_ne same]

/-- Adding icons: the list gets longer by them, the last one that is to be selected is, and
nothing else changes. -/
theorem addIcons_chain (newIcons : List NewIcon) (iconPtr : Nat) (state : IconState Nat)
    (chain : (iconLinks state.icons).Chain state.firstIcon (List.range iconPtr)) :
    ∃ firstIcon icons selectedIcon, addIcons newIcons iconPtr state =
        some { state with firstIcon, icons, selectedIcon } ∧
      (iconLinks icons).Chain firstIcon (List.range (iconPtr + newIcons.length)) ∧
      ∀ icon, selectedIcon = some icon ↔
        (∃ k, icon = iconPtr + k ∧ IsLast NewIcon.select newIcons k) ∨
          state.selectedIcon = some icon ∧ ∀ newIcon ∈ newIcons, newIcon.select = false := by
  induction newIcons generalizing iconPtr state with
  | nil =>
      refine ⟨_, _, _, rfl, chain, fun icon => ⟨fun kept => .inr ⟨kept, nofun⟩, ?_⟩⟩
      rintro (⟨k, -, marked, -⟩ | ⟨kept, -⟩)
      · obtain ⟨newIcon, here, -⟩ := marked
        cases here
      · exact kept
  | cons newIcon rest ih =>
      let icons := Function.update state.icons iconPtr (newIcon.setUp (state.icons iconPtr))
      have unlinked : iconLinks icons = iconLinks state.icons := iconLinks_update rfl rfl
      have fresh : iconPtr ∉ List.range iconPtr := List.not_mem_range_self
      have enough : (List.range iconPtr).length < iconPtr + 1 := by simp
      rw [← unlinked] at chain
      obtain ⟨front, linked, added, longer⟩ := addIcon_chain { state with icons } chain fresh enough
      rw [← List.range_succ] at longer
      rw [addIcons, added, Option.bind_eq_bind, Option.bind_some]
      obtain ⟨firstIcon, icons, selectedIcon, built, whole, selection⟩ := ih (iconPtr + 1)
        { state with
          firstIcon := front
          icons := linked
          selectedIcon := if newIcon.select then some iconPtr else state.selectedIcon } longer
      refine ⟨firstIcon, icons, selectedIcon, built, ?_, fun icon => (selection icon).trans ?_⟩
      · rwa [List.length_cons, Nat.add_comm rest.length, ← Nat.add_assoc]
      · exact isLast_cons_iff

/-- A menu of such icons stays visible exactly if the last one that is to be selected, where
there is one, is in a bay. -/
theorem addIcons_visible_iff {newIcons : List NewIcon} (nonempty : newIcons ≠ [])
    (unset : Nat → Icon Nat) (countStart : UInt32) (inputs : List IconInput) :
    ∃ state, addIcons newIcons 0 (noIcons unset) = some state ∧
      ((∃ pass, iconMenu countStart state inputs = some pass ∧
        pass.Ends (fun next => Visible next.log) fun left => Visible left.log) ↔
          ∀ k, IsLast NewIcon.select newIcons k → k < 3) := by
  obtain ⟨firstIcon, icons, selectedIcon, built, chain, selection⟩ :=
    addIcons_chain newIcons 0 (noIcons unset) (Links.chain_nil _)
  rw [Nat.zero_add] at chain
  have chosen : ∀ icon, selectedIcon = some icon ↔ IsLast NewIcon.select newIcons icon := by
    intro icon
    refine (selection icon).trans ?_
    simp [noIcons]
  refine ⟨_, built, ?_⟩
  cases preset : selectedIcon with
  | none =>
      have positive := List.length_pos_iff.mpr nonempty
      have top : (List.range newIcons.length)[0]? = some 0 := List.getElem?_range positive
      refine (iconMenu_shown_iff chain top (.inr ⟨rfl, rfl⟩) rfl rfl rfl countStart inputs).trans ?_
      refine iff_of_true (by decide) fun k last => ?_
      rw [(chosen k).mpr last] at preset
      cases preset
  | some icon =>
      have last := (chosen icon).mp preset
      obtain ⟨newIcon, here, -⟩ := last.isMarked
      have inRange := (List.getElem?_eq_some_iff.mp here).1
      have place : (List.range newIcons.length)[icon]? = some icon := List.getElem?_range inRange
      refine (iconMenu_shown_iff chain place (.inl rfl) rfl rfl rfl countStart inputs).trans ?_
      constructor
      · intro below k lastK
        have same := (chosen k).mpr lastK
        rw [preset] at same
        injection same with same
        omega
      · exact fun all => all icon last

/-! ## The icon that is selected first -/

section Preselected

variable {tsaHarddiskInfo : Int → DriveInfo} {readSector : Nat → Nat → Memory}
  {detectSystemFatX : Option Nat} {detectSystemNative : Nat → Nat → Option Nat}

theorem cdIcons_unselected : ∀ icon ∈ cdIcons tsaHarddiskInfo, icon.select = false := by
  intro icon member
  obtain ⟨i, -, member⟩ := List.mem_flatMap.mp member
  split at member
  · rw [List.mem_singleton.mp member]
  · cases member

/-- There is a second CD icon only where the first drive is one. -/
theorem cdIcons_of_harddisk (first : isHarddisk tsaHarddiskInfo 0 = true) :
    (cdIcons tsaHarddiskInfo).length ≤ 1 := by
  have disk : (tsaHarddiskInfo 0).mFAtapi = false := by
    simp only [isHarddisk, Bool.and_eq_true, Bool.not_eq_true'] at first
    exact first.2
  simp only [cdIcons, List.range_succ, List.range_zero, List.nil_append, List.flatMap_append,
    List.flatMap_cons, List.flatMap_nil, List.append_nil, Nat.cast_zero, disk,
    Bool.false_eq_true, if_false]
  split
  · exact Nat.le_refl 1
  · exact Nat.zero_le 1

theorem initFatXIcons_selected :
    ∀ icon ∈ initFatXIcons tsaHarddiskInfo readSector detectSystemFatX, icon.select = true := by
  intro icon member
  cases detectSystemFatX with
  | none => simp [initFatXIcons] at member
  | some entry =>
      simp only [initFatXIcons] at member
      split_ifs at member with disk fatX
      · rw [List.mem_singleton.mp member]
      · cases member
      · cases member

theorem initFatXIcons_length :
    (initFatXIcons tsaHarddiskInfo readSector detectSystemFatX).length ≤ 1 := by
  cases detectSystemFatX with
  | none => simp [initFatXIcons]
  | some entry =>
      simp only [initFatXIcons]
      split_ifs with disk fatX
      · exact Nat.le_refl 1
      · exact Nat.zero_le 1
      · exact Nat.zero_le 1

theorem initFatXIcons_harddisk
    (found : initFatXIcons tsaHarddiskInfo readSector detectSystemFatX ≠ []) :
    isHarddisk tsaHarddiskInfo 0 = true := by
  by_contra other
  exact found (if_neg other)

theorem initNativeIcons_selected :
    ∀ icon ∈ initNativeIcons tsaHarddiskInfo readSector detectSystemNative,
      icon.select = true := by
  intro icon member
  obtain ⟨driveId, -, member⟩ := List.mem_flatMap.mp member
  split at member
  · dsimp only at member
    split at member
    · cases member
    · obtain ⟨n, -, member⟩ := List.mem_flatMap.mp member
      split at member
      · cases found : detectSystemNative driveId n with
        | none =>
            rw [found] at member
            cases member
        | some entry =>
            rw [found] at member
            rw [List.mem_singleton.mp member]
      · cases member
  · cases member

theorem builtinIcons_unselected (textMenu unset : Nat) :
    ∀ icon ∈ builtinIcons textMenu unset, icon.select = false := by
  simp [builtinIcons]

/-- The icon that is selected first is in a bay unless native icons push it out. -/
theorem preselected_iff (textMenu unset : Nat) :
    (∀ k, IsLast NewIcon.select (cdIcons tsaHarddiskInfo ++
      (initFatXIcons tsaHarddiskInfo readSector detectSystemFatX ++
        (initNativeIcons tsaHarddiskInfo readSector detectSystemNative ++
          builtinIcons textMenu unset))) k → k < 3) ↔
    initNativeIcons tsaHarddiskInfo readSector detectSystemNative = [] ∨
      (cdIcons tsaHarddiskInfo).length +
        (initFatXIcons tsaHarddiskInfo readSector detectSystemFatX).length +
          (initNativeIcons tsaHarddiskInfo readSector detectSystemNative).length ≤ 3 := by
  generalize natives : initNativeIcons tsaHarddiskInfo readSector detectSystemNative = kernels
  have unmarked := builtinIcons_unselected textMenu unset
  by_cases noNative : kernels = []
  · subst noNative
    refine iff_of_true ?_ (.inl rfl)
    intro k last
    generalize fatXs : initFatXIcons tsaHarddiskInfo readSector detectSystemFatX = fatX at last
    by_cases noFatX : fatX = []
    · subst noFatX
      obtain ⟨icon, here, selected⟩ := last.isMarked
      rcases List.mem_append.mp (List.mem_of_getElem? here) with cd | builtin
      · rw [cdIcons_unselected icon cd] at selected
        cases selected
      · rw [unmarked icon builtin] at selected
        cases selected
    · have found : initFatXIcons tsaHarddiskInfo readSector detectSystemFatX ≠ [] := by rwa [fatXs]
      have single : fatX.length ≤ 1 := fatXs ▸ initFatXIcons_length
      have cds := cdIcons_of_harddisk (initFatXIcons_harddisk found)
      have place := (isLast_append_iff noFatX (fatXs ▸ initFatXIcons_selected) unmarked).mp last
      omega
  · rw [← List.append_assoc]
    have all : ∀ icon ∈ kernels, icon.select = true := natives ▸ initNativeIcons_selected
    simp only [isLast_append_iff noNative all unmarked, List.length_append]
    constructor
    · intro within
      have positive := List.length_pos_iff.mpr noNative
      refine .inr ?_
      have last := within ((cdIcons tsaHarddiskInfo).length +
        (initFatXIcons tsaHarddiskInfo readSector detectSystemFatX).length + kernels.length - 1)
        (by omega)
      omega
    · rintro (empty | few) k place
      · exact absurd empty noNative
      · omega

/-- For whatever the drives hold and all answers of the buttons and the timer: every
drawing of the menu shows the icon that is selected, and the timeout runs the icon of the
drawing just before, exactly if there is no native icon or the icons up to the last
native one fit the three bays. -/
theorem iconMenu_visible_iff (tsaHarddiskInfo : Int → DriveInfo)
    (readSector : Nat → Nat → Memory) (detectSystemFatX : Option Nat)
    (detectSystemNative : Nat → Nat → Option Nat) (textMenu : Nat) (unset : Nat → Icon Nat)
    (countStart : UInt32) (inputs : List IconInput) :
    ∃ state, iconMenuInit tsaHarddiskInfo readSector detectSystemFatX detectSystemNative textMenu
      unset = some state ∧
    ((∃ pass, iconMenu countStart state inputs = some pass ∧
      pass.Ends (fun next => Visible next.log) fun left => Visible left.log) ↔
        initNativeIcons tsaHarddiskInfo readSector detectSystemNative = [] ∨
          (cdIcons tsaHarddiskInfo).length +
            (initFatXIcons tsaHarddiskInfo readSector detectSystemFatX).length +
              (initNativeIcons tsaHarddiskInfo readSector detectSystemNative).length ≤ 3) := by
  have builtins : cdIcons tsaHarddiskInfo ++
      (initFatXIcons tsaHarddiskInfo readSector detectSystemFatX ++
        (initNativeIcons tsaHarddiskInfo readSector detectSystemNative ++
          builtinIcons textMenu (unset 0).functionDataPtr)) ≠ [] := by
    simp [builtinIcons]
  obtain ⟨state, built, visible⟩ := addIcons_visible_iff builtins unset countStart inputs
  exact ⟨state, built, visible.trans (preselected_iff textMenu (unset 0).functionDataPtr)⟩

end Preselected

/-! ## Four native entries -/

/-- A hard disk on its own. -/
def oneDisk : Int → DriveInfo := fun driveId =>
  { mFwPortBase := 0x1F0
    mWCountHeads := 16
    mWCountCylinders := 16383
    mWCountSectorsPerTrack := 63
    mDwCountSectorsTotal := 0x1000000
    mBLbaMode := ideDhLba
    mFDriveExists := decide (driveId = 0)
    mFAtapi := false }

/-- Sectors with the signature of an MBR and every partition bootable. -/
def bootableSectors : Nat → Nat → Memory := fun _ _ address =>
  if address = 0x1fe then 0x55 else if address = 0x1ff then 0xaa else 0x80

/-- Icons that happen to hold zeros when they are allocated. -/
def zeroedIcons : Nat → Icon Nat := fun _ =>
  { iconSlot := 0
    szCaption := []
    functionPtr := none
    functionDataPtr := 0
    previousIcon := none
    nextIcon := none }

/-- With a configuration on each of its four partitions the icon menu is drawn without
the icon that is selected. -/
theorem fourNatives_hidden :
    ∃ state, iconMenuInit oneDisk bootableSectors none (fun _ n => some n) 0 zeroedIcons =
      some state ∧
    ¬∃ pass, iconMenu 0 state [] = some pass ∧
      pass.Ends (fun next => Visible next.log) fun left => Visible left.log := by
  have builtins : cdIcons oneDisk ++ (initFatXIcons oneDisk bootableSectors none ++
      (initNativeIcons oneDisk bootableSectors (fun _ n => some n) ++ builtinIcons 0 0)) ≠ [] := by
    simp [builtinIcons]
  obtain ⟨state, built, visible⟩ := addIcons_visible_iff builtins zeroedIcons 0 []
  refine ⟨state, built, fun seen => ?_⟩
  have few := (preselected_iff 0 0).mp (visible.mp seen)
  have four : ¬(initNativeIcons oneDisk bootableSectors (fun _ n => some n) = [] ∨
      (cdIcons oneDisk).length + (initFatXIcons oneDisk bootableSectors none).length +
        (initNativeIcons oneDisk bootableSectors fun _ n => some n).length ≤ 3) := by
    simp only [← List.length_eq_zero_iff]
    decide
  exact four few

end Cromwell.Menu
