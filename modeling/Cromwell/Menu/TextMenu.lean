import Cromwell.Std.Loop
import Cromwell.Std.Memory
import Cromwell.Std.Window

/-!
# Text menus

The items of a menu are a doubly linked list, of which eight are shown at a time. The
menu reads the buttons pass by pass; what happens inside the function of an item does not
touch the links of the menu, but may change its captions and may ask the menu to end.
-/

namespace Cromwell.Menu

open Cromwell.Std

/-- `TEXTMENUITEM`, with the addresses of items in `α`. -/
structure TextMenuItem (α : Type) where
  szCaption : List Byte
  functionPtr : Option Nat
  functionDataPtr : Nat
  previousMenuItem : Option α
  nextMenuItem : Option α

/-- `TEXTMENU`. -/
structure TextMenu (α : Type) where
  szCaption : List Byte
  firstMenuItem : Option α

/-- The links of the items. -/
def menuLinks {α : Type} (items : α → TextMenuItem α) : Links α where
  previous item := (items item).previousMenuItem
  next item := (items item).nextMenuItem

/-! ## Drawing -/

/-- What is printed: the title, and items with their colour. -/
inductive Printed (α : Type) where
  | title (szCaption : List Byte) (videoAttr : UInt32)
  | item (item : α) (szCaption : List Byte) (videoAttr : UInt32)
  deriving DecidableEq

/-- One call of `TextMenuDraw`. -/
structure Drawing (α : Type) where
  firstVisibleMenuItem : Option α
  selectedItem : Option α
  printed : List (Printed α)

section Menu

variable {α : Type} [DecidableEq α]

/-- The colour of the selected item. -/
def selectedAttr : UInt32 := 0xffef37

/-- The items from `item` on, up to `count` of them. -/
def drawItems (items : α → TextMenuItem α) (selectedItem : Option α) :
    (count : Nat) → (item : Option α) → List (Printed α)
  | 0, _ => []
  | _ + 1, none => []
  | count + 1, some item =>
    .item item (items item).szCaption (if some item = selectedItem then selectedAttr else 0xffffff)
      :: drawItems items selectedItem count (items item).nextMenuItem

def textMenuDraw (items : α → TextMenuItem α) (menu : TextMenu α)
    (firstVisibleMenuItem selectedItem : Option α) : Drawing α where
  firstVisibleMenuItem := firstVisibleMenuItem
  selectedItem := selectedItem
  printed := .title menu.szCaption 0xff00ff :: drawItems items selectedItem 8 firstVisibleMenuItem

/-! ## The event loop -/

/-- What the buttons answer in one pass, and what the function of an item leaves if it is
run in it. -/
structure Input (α : Type) where
  padUp : Bool
  padDown : Bool
  keyA : Bool
  keyStart : Bool
  keyB : Bool
  keyBack : Bool
  captions : α → List Byte
  breakOutOfMenu : Bool

/-- What a menu changes as it runs, and the calls of `TextMenuDraw` so far. -/
structure MenuState (α : Type) where
  items : α → TextMenuItem α
  firstVisibleMenuItem : Option α
  selectedMenuItem : Option α
  breakOutOfMenu : Bool
  drawings : List (Drawing α)

/-- Draw the menu as it is. -/
def MenuState.draw (menu : TextMenu α) (state : MenuState α) : MenuState α :=
  { state with
    drawings := state.drawings ++
      [textMenuDraw state.items menu state.firstVisibleMenuItem state.selectedMenuItem] }

/-- The function of the selected item is run, if it has one. -/
def MenuState.run (state : MenuState α) (selected : α) (input : Input α) : MenuState α :=
  match (state.items selected).functionPtr with
  | none => state
  | some _ =>
    { state with
      items := fun item => { state.items item with szCaption := input.captions item }
      breakOutOfMenu := input.breakOutOfMenu }

/-- One pass of the loop, that goes on or returns; `none` where `NULL` is dereferenced. -/
def textMenuPass (menu : TextMenu α) (state : MenuState α) (input : Input α) :
    Option (Pass (MenuState α) (MenuState α)) :=
  if input.padUp then do
    let selectedMenuItem ← state.selectedMenuItem
    match (state.items selectedMenuItem).previousMenuItem with
    | none => some (.next state)
    | some previous =>
      let firstVisibleMenuItem :=
        if state.firstVisibleMenuItem = some selectedMenuItem then some previous
        else state.firstVisibleMenuItem
      some (.next ({ state with firstVisibleMenuItem, selectedMenuItem := previous }.draw menu))
  else if input.padDown then do
    let selectedMenuItem ← state.selectedMenuItem
    match (state.items selectedMenuItem).nextMenuItem with
    | none => some (.next state)
    | some next =>
      let first ← state.firstVisibleMenuItem
      let lastVisibleMenuItem := (menuLinks state.items).forward 7 first
      let firstVisibleMenuItem :=
        if selectedMenuItem = lastVisibleMenuItem then (state.items first).nextMenuItem
        else some first
      some (.next ({ state with firstVisibleMenuItem, selectedMenuItem := next }.draw menu))
  else if input.keyA || input.keyStart then do
    let selectedMenuItem ← state.selectedMenuItem
    let state := state.run selectedMenuItem input
    if state.breakOutOfMenu then some (.leave { state with breakOutOfMenu := false })
    else some (.next (state.draw menu))
  else if input.keyB || input.keyBack then some (.leave state)
  else some (.next state)

/-- The passes of a menu, one for each input. -/
def textMenuLoop (menu : TextMenu α) :
    List (Input α) → MenuState α → Option (Pass (MenuState α) (MenuState α))
  | [], state => some (.next state)
  | input :: inputs, state => do
    match ← textMenuPass menu state input with
    | .next state => textMenuLoop menu inputs state
    | .leave state => some (.leave state)

/-- The menu as it first appears. -/
def textMenuStart (menu : TextMenu α) (items : α → TextMenuItem α) (selectedItem : Option α)
    (breakOutOfMenu : Bool) : MenuState α :=
  MenuState.draw menu
    { items
      firstVisibleMenuItem := menu.firstMenuItem
      selectedMenuItem := if selectedItem ≠ none then selectedItem else menu.firstMenuItem
      breakOutOfMenu
      drawings := [] }

/-- `TextMenu`, run for as many passes as there are inputs. -/
def textMenu (menu : TextMenu α) (items : α → TextMenuItem α) (selectedItem : Option α)
    (breakOutOfMenu : Bool) (inputs : List (Input α)) :
    Option (Pass (MenuState α) (MenuState α)) :=
  textMenuLoop menu inputs (textMenuStart menu items selectedItem breakOutOfMenu)

/-- The selected item is one of those that are drawn, and has its colour. -/
def Drawing.ShowsSelected (drawing : Drawing α) : Prop :=
  ∃ item szCaption, drawing.selectedItem = some item ∧
    Printed.item item szCaption selectedAttr ∈ drawing.printed

/-! ## What is drawn -/

section Draw

variable {items : α → TextMenuItem α} {menu : TextMenu α} {nodes : List α} {window : Window}
  {first selected : α}

/-- The items that are drawn are those from the first visible one on. -/
theorem mem_drawItems (chain : (menuLinks items).Chain menu.firstMenuItem nodes)
    (selectedItem : Option α) (count index : Nat) (line : Printed α) :
    line ∈ drawItems items selectedItem count nodes[index]? ↔
      ∃ k < count, ∃ item, nodes[index + k]? = some item ∧
        line = .item item (items item).szCaption
          (if some item = selectedItem then selectedAttr else 0xffffff) := by
  induction count generalizing index with
  | zero => simp [drawItems]
  | succ count ih =>
      cases here : nodes[index]? with
      | none =>
          have ended := List.getElem?_eq_none_iff.mp here
          constructor
          · exact nofun
          · rintro ⟨k, _, item, there, -⟩
            have inRange := (List.getElem?_eq_some_iff.mp there).1
            omega
      | some item =>
          have next : (items item).nextMenuItem = nodes[index + 1]? := chain.next here
          rw [drawItems, next, List.mem_cons, ih (index + 1)]
          constructor
          · rintro (rfl | ⟨k, below, other, there, rfl⟩)
            · exact ⟨0, Nat.succ_pos count, item, here, rfl⟩
            · exact ⟨k + 1, by omega, other, by rwa [← Nat.add_assoc, Nat.add_right_comm], rfl⟩
          · rintro ⟨k, below, other, there, rfl⟩
            cases k with
            | zero =>
                have same : item = other := by simpa [here] using there
                exact .inl (by rw [same])
            | succ k =>
                refine .inr ⟨k, by omega, other, ?_, rfl⟩
                rwa [Nat.add_right_comm, Nat.add_assoc]

/-- A menu shows its selected item exactly if its window does. -/
theorem textMenuDraw_shows_iff (chain : (menuLinks items).Chain menu.firstMenuItem nodes)
    (located : Located nodes window first selected) :
    (textMenuDraw items menu (some first) (some selected)).ShowsSelected ↔ window.Shows 8 := by
  have drawn := mem_drawItems chain (some selected) 8 window.first
  rw [located.first] at drawn
  constructor
  · rintro ⟨item, szCaption, same, member⟩
    injection same with same
    subst same
    have listed := List.mem_of_ne_of_mem (by exact nofun) member
    obtain ⟨k, below, other, there, line⟩ := (drawn _).mp listed
    injection line with same
    subst same
    have place := chain.index_unique located.selected there
    exact ⟨by omega, by omega⟩
  · rintro ⟨lower, upper⟩
    refine ⟨selected, (items selected).szCaption, rfl, List.mem_cons_of_mem _ ((drawn _).mpr ?_)⟩
    refine ⟨window.selected - window.first, by omega, selected, ?_, ?_⟩
    · rw [show window.first + (window.selected - window.first) = window.selected by omega]
      exact located.selected
    · rw [if_pos rfl]

end Draw

/-! ## What one pass does -/

/-- The two pointers of the menu are where the window says. -/
structure Tracks (menu : TextMenu α) (nodes : List α) (window : Window) (state : MenuState α) :
    Prop where
  chain : (menuLinks state.items).Chain menu.firstMenuItem nodes
  located : ∃ first selected, state.firstVisibleMenuItem = some first ∧
    state.selectedMenuItem = some selected ∧ Located nodes window first selected

/-- A state that follows another one, with what it has drawn since. -/
inductive Follows (menu : TextMenu α) (nodes : List α) (window : Window) (state : MenuState α) :
    MenuState α → Prop where
  | same {next : MenuState α} (tracks : Tracks menu nodes window next)
      (quiet : next.drawings = state.drawings) : Follows menu nodes window state next
  | drawn {next : MenuState α} (drawing : Drawing α) (tracks : Tracks menu nodes window next)
      (drew : next.drawings = state.drawings ++ [drawing])
      (shows : drawing.ShowsSelected ↔ window.Shows 8) : Follows menu nodes window state next

section Pass

variable {menu : TextMenu α} {nodes : List α} {window : Window} {state moved : MenuState α}

/-- Drawing changes neither pointer. -/
theorem Tracks.draw (tracks : Tracks menu nodes window moved)
    (quiet : moved.drawings = state.drawings) :
    Follows menu nodes window state (moved.draw menu) := by
  obtain ⟨first, selected, visible, chosen, located⟩ := tracks.located
  refine .drawn (textMenuDraw moved.items menu moved.firstVisibleMenuItem moved.selectedMenuItem)
    ⟨tracks.chain, first, selected, visible, chosen, located⟩ ?_ ?_
  · rw [MenuState.draw, quiet]
  · rw [visible, chosen]
    exact textMenuDraw_shows_iff tracks.chain located

omit [DecidableEq α] in
/-- The function of an item leaves the pointers and the links alone. -/
theorem Tracks.run (tracks : Tracks menu nodes window state) (selected : α) (input : Input α) :
    Tracks menu nodes window (state.run selected input) ∧
      (state.run selected input).drawings = state.drawings := by
  unfold MenuState.run
  split
  · exact ⟨tracks, rfl⟩
  · exact ⟨⟨⟨tracks.chain.nodup, tracks.chain.head, tracks.chain.next, tracks.chain.start,
      tracks.chain.previous⟩, tracks.located⟩, rfl⟩

/-- The pass goes on with its window moved, or returns without drawing. -/
def Continues (menu : TextMenu α) (nodes : List α) (window : Window) (state : MenuState α)
    (pass : Pass (MenuState α) (MenuState α)) : Prop :=
  pass.Ends (fun next => ∃ moved, Window.Moved 8 nodes.length window moved ∧
    Follows menu nodes moved state next) fun left => left.drawings = state.drawings

omit [DecidableEq α] in
theorem Tracks.continues (tracks : Tracks menu nodes window state) :
    Continues menu nodes window state (.next state) :=
  ⟨window, .inl rfl, .same tracks rfl⟩

theorem Tracks.up (tracks : Tracks menu nodes window state) {input : Input α}
    (pressed : input.padUp = true) : ∃ pass, textMenuPass menu state input = some pass ∧
      Continues menu nodes window state pass := by
  obtain ⟨first, selected, visible, chosen, located⟩ := tracks.located
  rw [textMenuPass, if_pos pressed, chosen, visible, Option.bind_eq_bind, Option.bind_some]
  split
  · exact ⟨_, rfl, tracks.continues⟩
  · rename_i previous before
    have moved := located.up tracks.chain before
    refine ⟨_, rfl, window.up, .inr (.inl rfl), Tracks.draw ⟨tracks.chain, ?_⟩ rfl⟩
    refine ⟨if first = selected then previous else first, previous, ?_, rfl, moved⟩
    by_cases top : first = selected
    · simp [top]
    · simp [top]

theorem Tracks.down (tracks : Tracks menu nodes window state) {input : Input α}
    (notUp : input.padUp ≠ true) (pressed : input.padDown = true) :
    ∃ pass, textMenuPass menu state input = some pass ∧
      Continues menu nodes window state pass := by
  obtain ⟨first, selected, visible, chosen, located⟩ := tracks.located
  rw [textMenuPass, if_neg notUp, if_pos pressed, chosen, visible, Option.bind_eq_bind,
    Option.bind_some]
  split
  · exact ⟨_, rfl, tracks.continues⟩
  · rename_i next behind
    have onward : (menuLinks state.items).next selected = some next := behind
    obtain ⟨atEnd, within⟩ := located.down tracks.chain onward 7
    refine ⟨_, rfl, window.down 8 nodes.length, .inr (.inr rfl),
      Tracks.draw ⟨tracks.chain, ?_⟩ rfl⟩
    by_cases bottom : selected = (menuLinks state.items).forward 7 first
    · obtain ⟨second, behindFirst, moved⟩ := atEnd bottom
      refine ⟨second, next, ?_, rfl, moved⟩
      simp only [if_pos bottom]
      exact behindFirst
    · exact ⟨first, next, by simp [bottom], rfl, within bottom⟩

/-- One pass of the menu. -/
theorem Tracks.pass (tracks : Tracks menu nodes window state) (input : Input α) :
    ∃ pass, textMenuPass menu state input = some pass ∧
      Continues menu nodes window state pass := by
  by_cases up : input.padUp = true
  · exact tracks.up up
  by_cases down : input.padDown = true
  · exact tracks.down up down
  obtain ⟨first, selected, visible, chosen, located⟩ := tracks.located
  obtain ⟨kept, quiet⟩ := tracks.run selected input
  rw [textMenuPass, if_neg up, if_neg down, chosen, Option.bind_eq_bind, Option.bind_some]
  split
  · dsimp only
    split
    · exact ⟨_, rfl, quiet⟩
    · exact ⟨_, rfl, window, .inl rfl, kept.draw quiet⟩
  · split
    · exact ⟨_, rfl, rfl⟩
    · exact ⟨_, rfl, tracks.continues⟩

end Pass

/-! ## Whole runs -/

/-- Every call of `TextMenuDraw` so far showed the selected item. -/
def MenuState.AllShown (state : MenuState α) : Prop :=
  ∀ drawing ∈ state.drawings, drawing.ShowsSelected

section Run

variable {menu : TextMenu α} {items : α → TextMenuItem α} {nodes : List α} {window moved : Window}
  {state : MenuState α}

omit [DecidableEq α] in
/-- What has been drawn stays drawn. -/
theorem Follows.keeps {next : MenuState α} (follows : Follows menu nodes window state next)
    {drawing : Drawing α} (drawn : drawing ∈ state.drawings) : drawing ∈ next.drawings := by
  cases follows with
  | same _ quiet => rwa [quiet]
  | drawn other _ drew _ =>
      rw [drew]
      exact List.mem_append_left _ drawn

omit [DecidableEq α] in
theorem Follows.tracks {next : MenuState α} (follows : Follows menu nodes window state next) :
    Tracks menu nodes window next := by
  cases follows with
  | same tracks _ => exact tracks
  | drawn _ tracks _ _ => exact tracks

omit [DecidableEq α] in
theorem Follows.allShown {next : MenuState α} (follows : Follows menu nodes window state next)
    (shows : window.Shows 8) (shown : state.AllShown) : next.AllShown := by
  cases follows with
  | same _ quiet =>
      intro drawing drawn
      rw [quiet] at drawn
      exact shown drawing drawn
  | drawn other _ drew showsOther =>
      intro drawing drawn
      rw [drew] at drawn
      cases List.mem_append.mp drawn with
      | inl before => exact shown drawing before
      | inr last =>
          rw [List.mem_singleton.mp last]
          exact showsOther.mpr shows

/-- From a window that shows the selection, every later drawing does. -/
theorem textMenuLoop_shows (inputs : List (Input α)) (tracks : Tracks menu nodes window state)
    (shows : window.Shows 8) (shown : state.AllShown) :
    ∃ pass, textMenuLoop menu inputs state = some pass ∧
      pass.Ends MenuState.AllShown MenuState.AllShown := by
  induction inputs generalizing window state with
  | nil => exact ⟨_, rfl, shown⟩
  | cons input inputs ih =>
      obtain ⟨pass, ended, continues⟩ := tracks.pass input
      rw [textMenuLoop, ended, Option.bind_eq_bind, Option.bind_some]
      cases pass with
      | next state =>
          obtain ⟨moved, step, follows⟩ := continues
          exact ih follows.tracks (step.shows shows) (follows.allShown (step.shows shows) shown)
      | leave left =>
          refine ⟨_, rfl, fun drawing drawn => shown drawing ?_⟩
          rwa [continues] at drawn

/-- A drawing that was made is among those of every run that goes on from there. -/
theorem textMenuLoop_keeps (inputs : List (Input α)) {drawing : Drawing α}
    (tracks : Tracks menu nodes window state) (drawn : drawing ∈ state.drawings) :
    ∃ pass, textMenuLoop menu inputs state = some pass ∧
      pass.Ends (fun next => drawing ∈ next.drawings) fun left => drawing ∈ left.drawings := by
  induction inputs generalizing window state with
  | nil => exact ⟨_, rfl, drawn⟩
  | cons input inputs ih =>
      obtain ⟨pass, ended, continues⟩ := tracks.pass input
      rw [textMenuLoop, ended, Option.bind_eq_bind, Option.bind_some]
      cases pass with
      | next state =>
          obtain ⟨moved, _, follows⟩ := continues
          exact ih follows.tracks (follows.keeps drawn)
      | leave left =>
          refine ⟨_, rfl, ?_⟩
          rwa [Pass.Ends, continues]

/-- The menu begins with its first item at the top. -/
theorem textMenuStart_follows (chain : (menuLinks items).Chain menu.firstMenuItem nodes)
    {selectedItem : Option α} {index : Nat} {selected : α} (here : nodes[index]? = some selected)
    (asked : selectedItem = some selected ∨ selectedItem = none ∧ index = 0)
    (breakOutOfMenu : Bool) :
    ∃ drawing, (textMenuStart menu items selectedItem breakOutOfMenu).drawings = [drawing] ∧
      Tracks menu nodes ⟨0, index⟩ (textMenuStart menu items selectedItem breakOutOfMenu) ∧
      (drawing.ShowsSelected ↔ index < 8) := by
  obtain ⟨inRange, _⟩ := List.getElem?_eq_some_iff.mp here
  have top : nodes[0]? = some nodes[0] := List.getElem?_eq_getElem (by omega)
  have visible : menu.firstMenuItem = some nodes[0] := chain.head.trans top
  have chosen : (if selectedItem ≠ none then selectedItem else menu.firstMenuItem) =
      some selected := by
    rcases asked with rfl | ⟨rfl, rfl⟩
    · rfl
    · exact chain.head.trans here
  have located : Located nodes ⟨0, index⟩ nodes[0] selected := ⟨top, here⟩
  have shows := textMenuDraw_shows_iff chain located
  rw [← visible, ← chosen] at shows
  refine ⟨_, rfl, ⟨chain, nodes[0], selected, visible, chosen, located⟩, shows.trans ?_⟩
  simp [Window.Shows]

/-- A run shows the selected item whenever the menu is drawn exactly if the first drawing
does. -/
theorem textMenu_shown_iff (chain : (menuLinks items).Chain menu.firstMenuItem nodes)
    {selectedItem : Option α} {index : Nat} {selected : α} (here : nodes[index]? = some selected)
    (asked : selectedItem = some selected ∨ selectedItem = none ∧ index = 0)
    (breakOutOfMenu : Bool) (inputs : List (Input α)) :
    (∃ pass, textMenu menu items selectedItem breakOutOfMenu inputs = some pass ∧
      pass.Ends MenuState.AllShown MenuState.AllShown) ↔ index < 8 := by
  obtain ⟨drawing, drawings, tracks, shows⟩ := textMenuStart_follows chain here asked breakOutOfMenu
  constructor
  · rintro ⟨pass, ended, shown⟩
    have drawn : drawing ∈ (textMenuStart menu items selectedItem breakOutOfMenu).drawings := by
      rw [drawings]
      exact List.mem_singleton.mpr rfl
    obtain ⟨pass', ended', kept⟩ := textMenuLoop_keeps inputs tracks drawn
    rw [textMenu, ended'] at ended
    injection ended with same
    subst same
    cases pass' with
    | next state => exact shows.mp (shown drawing kept)
    | leave left => exact shows.mp (shown drawing kept)
  · intro inside
    refine textMenuLoop_shows inputs tracks ⟨Nat.zero_le index, by simpa using inside⟩ ?_
    intro other drawn
    rw [drawings] at drawn
    rw [List.mem_singleton.mp drawn]
    exact shows.mpr inside

/-- For every menu with an item, every item of it that is selected at first and all
answers of the buttons: the selected item is among those that are drawn, whenever the
menu is drawn, exactly if it is one of the first eight to begin with. -/
theorem textMenu_visible_iff (chain : (menuLinks items).Chain menu.firstMenuItem nodes)
    (nonempty : nodes ≠ []) (selectedItem : Option α)
    (listed : ∀ item, selectedItem = some item → item ∈ nodes) (breakOutOfMenu : Bool)
    (inputs : List (Input α)) :
    (∃ pass, textMenu menu items selectedItem breakOutOfMenu inputs = some pass ∧
      pass.Ends MenuState.AllShown MenuState.AllShown) ↔
        ∀ item, selectedItem = some item → item ∈ nodes.take 8 := by
  cases selectedItem with
  | none =>
      have positive := List.length_pos_iff.mpr nonempty
      have top : nodes[0]? = some nodes[0] := List.getElem?_eq_getElem positive
      refine (textMenu_shown_iff chain top (.inr ⟨rfl, rfl⟩) breakOutOfMenu inputs).trans ?_
      exact iff_of_true (by decide) nofun
  | some item =>
      obtain ⟨index, here⟩ := List.mem_iff_getElem?.mp (listed item rfl)
      refine (textMenu_shown_iff chain here (.inl rfl) breakOutOfMenu inputs).trans ?_
      simpa using (chain.mem_take_iff here 8).symm

end Run

/-! ## A menu of ten items -/

/-- Items at the addresses from 0 to 9, each of which has a function. -/
def tenItems : Nat → TextMenuItem Nat := fun item =>
  { szCaption := [UInt8.ofNat item]
    functionPtr := some item
    functionDataPtr := 0
    previousMenuItem := if item = 0 then none else some (item - 1)
    nextMenuItem := if item < 9 then some (item + 1) else none }

theorem tenItems_chain : (menuLinks tenItems).Chain (some 0) (List.range 10) where
  nodup := List.nodup_range
  head := rfl
  next {index node} here := by
    obtain ⟨inside, rfl⟩ := List.getElem?_eq_some_iff.mp here
    simp only [List.length_range] at inside
    by_cases more : index < 9
    · have after : index + 1 < 10 := by omega
      simp [menuLinks, tenItems, more, List.getElem?_range after]
    · simp [menuLinks, tenItems, more]
      omega
  start {node} here := by
    obtain ⟨_, rfl⟩ := List.getElem?_eq_some_iff.mp here
    rfl
  previous {index node} here := by
    obtain ⟨inside, rfl⟩ := List.getElem?_eq_some_iff.mp here
    simp only [List.length_range] at inside
    simp [menuLinks, tenItems, Nat.lt_of_succ_lt inside]

/-- DOWN is pressed. -/
def pressedDown : Input Nat :=
  { padUp := false
    padDown := true
    keyA := false
    keyStart := false
    keyB := false
    keyBack := false
    captions := fun _ => []
    breakOutOfMenu := false }

/-- A is pressed, and the function of the item renames all items. -/
def pressedA : Input Nat := { pressedDown with padDown := false, keyA := true }

/-- From the third item on down to the end of the menu and past it, where A is pressed: the
selected item is always drawn. With the ninth item selected first it is not. -/
theorem textMenu_visible_iff_tenItems :
    (∃ pass, textMenu ⟨[], some 0⟩ tenItems (some 2) false
        (List.replicate 8 pressedDown ++ [pressedA]) = some pass ∧
      pass.Ends MenuState.AllShown MenuState.AllShown) ∧
    ¬∃ pass, textMenu ⟨[], some 0⟩ tenItems (some 8) false [pressedDown, pressedA] = some pass ∧
      pass.Ends MenuState.AllShown MenuState.AllShown := by
  have visible_iff {selected : Nat} (listed : selected < 10) (inputs : List (Input Nat)) :
      (∃ pass, textMenu ⟨[], some 0⟩ tenItems (some selected) false inputs = some pass ∧
        pass.Ends MenuState.AllShown MenuState.AllShown) ↔
          ∀ item, some selected = some item → item ∈ (List.range 10).take 8 :=
    textMenu_visible_iff tenItems_chain (by decide) (some selected) (by simpa using listed)
      false inputs
  refine ⟨(visible_iff (by decide) _).mpr ?_, fun shown => ?_⟩
  · simp
  · simpa using (visible_iff (by decide) _).mp shown 8 rfl

end Menu

end Cromwell.Menu
