import Cromwell.Config.BootParser
import Cromwell.Menu.TextMenu

/-!
# The menu of a configuration

An item is added to a menu at its end. The boot menu has one item for each entry of the
configuration, in their order, and hands the item of the default entry over as the one
to be selected first. Items are known by the number of their allocation.
-/

namespace Cromwell.Menu

open Cromwell.Std Cromwell.Config

/-! ## Adding items -/

section AddItem

variable {α : Type} [DecidableEq α]

/-- `TextMenuAddItem`, for a menu of less than `fuel` items. -/
def textMenuAddItem (fuel : Nat) (menu : TextMenu α) (items : α → TextMenuItem α)
    (newMenuItem : α) : Option (TextMenu α × (α → TextMenuItem α)) := do
  let currentMenuItem ← (menuLinks items).last fuel menu.firstMenuItem none
  let menu :=
    if currentMenuItem = none then { menu with firstMenuItem := some newMenuItem } else menu
  let items := fun item =>
    if item = newMenuItem then
      { items item with nextMenuItem := none, previousMenuItem := currentMenuItem }
    else if some item = currentMenuItem then
      { items item with nextMenuItem := some newMenuItem }
    else items item
  some (menu, items)

/-- A menu stays a list, with the new item behind the others. -/
theorem textMenuAddItem_chain {fuel : Nat} {menu : TextMenu α} {items : α → TextMenuItem α}
    {nodes : List α} {newMenuItem : α}
    (chain : (menuLinks items).Chain menu.firstMenuItem nodes) (fresh : newMenuItem ∉ nodes)
    (enough : nodes.length < fuel) :
    ∃ menu' items', textMenuAddItem fuel menu items newMenuItem = some (menu', items') ∧
      (menuLinks items').Chain menu'.firstMenuItem (nodes ++ [newMenuItem]) := by
  unfold textMenuAddItem
  rw [chain.last_eq enough, Option.bind_eq_bind, Option.bind_some]
  refine ⟨_, _, rfl, ?_⟩
  have links : ∀ current, menuLinks (fun item =>
      if item = newMenuItem then
        { items item with nextMenuItem := none, previousMenuItem := current }
      else if some item = current then { items item with nextMenuItem := some newMenuItem }
      else items item) = (menuLinks items).append current newMenuItem := by
    intro current
    simp only [menuLinks, Links.append, Links.mk.injEq]
    constructor
    · funext item
      split_ifs with same last
      · rfl
      · rfl
      · rfl
    · funext item
      split_ifs with same last
      · rfl
      · rfl
      · rfl
  rw [links]
  have longer := chain.append fresh
  split at longer
  · rename_i empty
    simpa [empty] using longer
  · rename_i ended
    simpa [ended] using longer

end AddItem

/-! ## The boot menu -/

/-- The entry is marked as the default one. -/
def isDefault (entry : ConfigEntry) : Bool := Memory.dword entry isDefaultOffset ≠ 0

/-- `BootMenuEntry`, as the function of an item. -/
def bootMenuEntry : Nat := 0

/-- A menu that is being set up. -/
structure BootMenu where
  menu : TextMenu Nat
  items : Nat → TextMenuItem Nat
  defaultMenuItem : Option Nat

/-- The items of the entries, from the one numbered `menuPtr` on. -/
def addEntries : List ConfigEntry → (menuPtr : Nat) → BootMenu → Option BootMenu
  | [], _, bootMenu => some bootMenu
  | currentConfigEntry :: rest, menuPtr, bootMenu => do
    let menuItem : TextMenuItem Nat :=
      { bootMenu.items menuPtr with
        szCaption := (Memory.bytes currentConfigEntry Field.title.array.start 50).takeWhile (· ≠ 0)
        functionPtr := bootMenuEntry
        functionDataPtr := menuPtr }
    let defaultMenuItem :=
      if isDefault currentConfigEntry then some menuPtr else bootMenu.defaultMenuItem
    let (menu, items) ← textMenuAddItem (menuPtr + 1) bootMenu.menu
      (Function.update bootMenu.items menuPtr menuItem) menuPtr
    addEntries rest (menuPtr + 1) { menu, items, defaultMenuItem }

/-- What `DrawBootMenu` comes to. -/
inductive BootChoice where
  | boot (entry : ConfigEntry)
  | menu (bootMenu : BootMenu)

/-- `DrawBootMenu`, up to the call of `TextMenu`. `unset` is what allocated items happen to
hold. -/
def drawBootMenu (timedOut : Bool) (unset : Nat → TextMenuItem Nat) :
    (rootEntry : List ConfigEntry) → Option BootChoice
  | [] => none
  | [only] => some (.boot only)
  | configEntry :: entries =>
    if timedOut then
      match (configEntry :: entries).find? isDefault with
      | some currentConfigEntry => some (.boot currentConfigEntry)
      | none => some (.boot configEntry)
    else do
      let menu : TextMenu Nat := { szCaption := text "Boot menu", firstMenuItem := none }
      let bootMenu ← addEntries (configEntry :: entries) 0
        { menu, items := unset, defaultMenuItem := none }
      some (.menu bootMenu)

/-! ## The menu that is shown -/

/-- Setting up an item before it is added. -/
theorem menuLinks_update {items : Nat → TextMenuItem Nat} {menuPtr : Nat}
    {menuItem : TextMenuItem Nat}
    (previous : menuItem.previousMenuItem = (items menuPtr).previousMenuItem)
    (next : menuItem.nextMenuItem = (items menuPtr).nextMenuItem) :
    menuLinks (Function.update items menuPtr menuItem) = menuLinks items := by
  simp only [menuLinks, Links.mk.injEq]
  constructor
  · funext item
    by_cases same : item = menuPtr
    · rw [same, Function.update_self, previous]
    · rw [Function.update_of_ne same]
  · funext item
    by_cases same : item = menuPtr
    · rw [same, Function.update_self, next]
    · rw [Function.update_of_ne same]

/-- The items are those of the entries, in their order, and the last default entry decides
which item is handed over. -/
theorem addEntries_chain (entries : List ConfigEntry) (menuPtr : Nat) (bootMenu : BootMenu)
    (chain : (menuLinks bootMenu.items).Chain bootMenu.menu.firstMenuItem (List.range menuPtr)) :
    ∃ result, addEntries entries menuPtr bootMenu = some result ∧
      (menuLinks result.items).Chain result.menu.firstMenuItem
        (List.range (menuPtr + entries.length)) ∧
      ∀ item, result.defaultMenuItem = some item ↔
        (∃ k, item = menuPtr + k ∧ IsLast isDefault entries k) ∨
          bootMenu.defaultMenuItem = some item ∧ ∀ entry ∈ entries, isDefault entry = false := by
  induction entries generalizing menuPtr bootMenu with
  | nil =>
      refine ⟨bootMenu, rfl, chain, fun item => ⟨fun default => .inr ⟨default, nofun⟩, ?_⟩⟩
      rintro (⟨k, -, marked, -⟩ | ⟨default, -⟩)
      · obtain ⟨entry, here, -⟩ := marked
        cases here
      · exact default
  | cons entry rest ih =>
      have unlinked : menuLinks (Function.update bootMenu.items menuPtr
          { bootMenu.items menuPtr with
            szCaption := (Memory.bytes entry Field.title.array.start 50).takeWhile (· ≠ 0)
            functionPtr := bootMenuEntry
            functionDataPtr := menuPtr }) = menuLinks bootMenu.items := menuLinks_update rfl rfl
      rw [← unlinked] at chain
      have fresh : menuPtr ∉ List.range menuPtr := List.not_mem_range_self
      have enough : (List.range menuPtr).length < menuPtr + 1 := by simp
      obtain ⟨menu, items, added, longer⟩ := textMenuAddItem_chain chain fresh enough
      rw [← List.range_succ] at longer
      rw [addEntries, added, Option.bind_eq_bind, Option.bind_some]
      obtain ⟨result, built, whole, default⟩ := ih (menuPtr + 1)
        ⟨menu, items, if isDefault entry then some menuPtr else bootMenu.defaultMenuItem⟩ longer
      refine ⟨result, built, ?_, fun item => (default item).trans ?_⟩
      · rwa [List.length_cons, Nat.add_comm rest.length, ← Nat.add_assoc]
      · exact isLast_cons_iff

/-- A configuration of several entries is shown as a menu of as many items. -/
theorem drawBootMenu_menu {entries : List ConfigEntry} (several : 2 ≤ entries.length)
    (unset : Nat → TextMenuItem Nat) :
    ∃ bootMenu, drawBootMenu false unset entries = some (.menu bootMenu) ∧
      (menuLinks bootMenu.items).Chain bootMenu.menu.firstMenuItem (List.range entries.length) ∧
      ∀ item, bootMenu.defaultMenuItem = some item ↔ IsLast isDefault entries item := by
  obtain ⟨bootMenu, built, chain, default⟩ := addEntries_chain entries 0
    ⟨⟨text "Boot menu", none⟩, unset, none⟩ (Links.chain_nil _)
  refine ⟨bootMenu, ?_, by rwa [Nat.zero_add] at chain, fun item => (default item).trans ?_⟩
  · match entries, several with
    | first :: second :: rest, _ =>
        simp only [drawBootMenu, Bool.false_eq_true, if_false, built, Option.bind_eq_bind,
          Option.bind_some]
  · simp

/-- The boot menu shows what it has selected, whenever it is drawn, exactly if its last
default entry, where it has one, is among its first eight. -/
theorem bootMenu_visible_iff {entries : List ConfigEntry} (several : 2 ≤ entries.length)
    (unset : Nat → TextMenuItem Nat) (breakOutOfMenu : Bool) (inputs : List (Input Nat)) :
    ∃ bootMenu, drawBootMenu false unset entries = some (.menu bootMenu) ∧
      ((∃ pass, textMenu bootMenu.menu bootMenu.items bootMenu.defaultMenuItem breakOutOfMenu
        inputs = some pass ∧ pass.Ends MenuState.AllShown MenuState.AllShown) ↔
          ∀ k, IsLast isDefault entries k → k < 8) := by
  obtain ⟨bootMenu, drawn, chain, default⟩ := drawBootMenu_menu several unset
  refine ⟨bootMenu, drawn, ?_⟩
  cases handed : bootMenu.defaultMenuItem with
  | none =>
      have none : ∀ k, ¬IsLast isDefault entries k := by
        intro k last
        rw [(default k).mpr last] at handed
        cases handed
      have top : (List.range entries.length)[0]? = some 0 :=
        List.getElem?_range (by omega)
      refine (textMenu_shown_iff chain top (.inr ⟨rfl, rfl⟩) breakOutOfMenu inputs).trans ?_
      exact iff_of_true (by decide) fun k last => absurd last (none k)
  | some item =>
      have last := (default item).mp handed
      obtain ⟨entry, here, -⟩ := last.isMarked
      have inRange := (List.getElem?_eq_some_iff.mp here).1
      have place : (List.range entries.length)[item]? = some item := by simp [inRange]
      refine (textMenu_shown_iff chain place (.inl rfl) breakOutOfMenu inputs).trans ?_
      constructor
      · intro below k lastK
        have same := (default k).mpr lastK
        rw [handed] at same
        injection same with same
        omega
      · exact fun all => all item last

/-! ## A default entry behind the eighth -/

/-- Eight entries that are not the default one, and one that is. -/
def nineEntries : List ConfigEntry :=
  List.replicate 8 emptyEntry ++ [Memory.store emptyEntry isDefaultOffset (dwordBytes 1)]

/-- Items that happen to hold zeros when they are allocated. -/
def zeroedItems : Nat → TextMenuItem Nat := fun _ =>
  { szCaption := []
    functionPtr := none
    functionDataPtr := 0
    previousMenuItem := none
    nextMenuItem := none }

theorem nineEntries_lastDefault : IsLast isDefault nineEntries 8 where
  isMarked := ⟨_, rfl, by decide⟩
  last {j entry} behind here := by
    have inRange := (List.getElem?_eq_some_iff.mp here).1
    have length : nineEntries.length = 9 := rfl
    omega

/-- The boot menu of these entries is drawn without the item that is selected. -/
theorem nineEntries_hidden :
    ∃ bootMenu, drawBootMenu false zeroedItems nineEntries = some (.menu bootMenu) ∧
      (menuLinks bootMenu.items).Chain bootMenu.menu.firstMenuItem (List.range 9) ∧
      bootMenu.defaultMenuItem = some 8 ∧
      ¬∃ pass, textMenu bootMenu.menu bootMenu.items bootMenu.defaultMenuItem false [] =
        some pass ∧ pass.Ends MenuState.AllShown MenuState.AllShown := by
  have several : 2 ≤ nineEntries.length := by decide
  obtain ⟨bootMenu, drawn, chain, default⟩ := drawBootMenu_menu several zeroedItems
  have chosen := (default 8).mpr nineEntries_lastDefault
  refine ⟨bootMenu, drawn, chain, chosen, ?_⟩
  rw [chosen]
  have place : (List.range nineEntries.length)[8]? = some 8 := by decide
  exact mt (textMenu_shown_iff chain place (.inl rfl) false []).mp (by decide)

end Cromwell.Menu
