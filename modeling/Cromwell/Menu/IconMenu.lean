import Cromwell.Std.Loop
import Cromwell.Std.Memory
import Cromwell.Std.Window

/-!
# The icon menu

Three icons of a doubly linked list are shown at a time. The selected one is drawn opaque,
with its caption. It is run when a button says so, and when nothing was touched until the
menu timed out.
-/

namespace Cromwell.Menu

open Cromwell.Std

/-- `ICON`, with the addresses of icons in `α`. -/
structure Icon (α : Type) where
  iconSlot : Nat
  szCaption : List Byte
  functionPtr : Option Nat
  functionDataPtr : Nat
  previousIcon : Option α
  nextIcon : Option α

/-- The links of the icons. -/
def iconLinks {α : Type} (icons : α → Icon α) : Links α where
  previous icon := (icons icon).previousIcon
  next icon := (icons icon).nextIcon

def transparentness : Byte := 0x30
def selectedTransparentness : Byte := 0xff
def timerFreq : UInt32 := 0x369E99
def bootTimewait : UInt32 := 15

/-- What is put on the screen: captions and icons in their bays, and the arrows beside
them. -/
inductive Shown (α : Type) where
  | caption (iconcount : Nat) (szCaption : List Byte)
  | icon (iconcount : Nat) (icon : α) (iconSlot : Nat) (opaqueness : Byte)
  | leftArrow
  | rightArrow
  deriving DecidableEq

/-- One call of `IconMenuDraw`. -/
structure IconDrawing (α : Type) where
  firstVisibleIcon : Option α
  selectedIcon : Option α
  shown : List (Shown α)

/-- What the menu does that can be seen. -/
inductive IconEvent (α : Type) where
  | drawn (drawing : IconDrawing α)
  | run (icon : α) (timedOut : Bool)

/-- The globals of the menu, `ticks`, and what has happened so far. -/
structure IconState (α : Type) where
  icons : α → Icon α
  firstIcon : Option α
  selectedIcon : Option α
  firstVisibleIcon : Option α
  lastVisibleIcon : Option α
  timedOut : Bool
  ticks : UInt32
  log : List (IconEvent α)

section Menu

variable {α : Type} [DecidableEq α]

/-! ## Drawing -/

/-- An icon in a bay. -/
def drawIcon (icons : α → Icon α) (selectedIcon : Option α) (iconcount : Nat) (icon : α) :
    List (Shown α) :=
  if some icon = selectedIcon then
    [.caption iconcount (icons icon).szCaption,
      .icon iconcount icon (icons icon).iconSlot selectedTransparentness]
  else [.icon iconcount icon (icons icon).iconSlot transparentness]

/-- What is drawn in the bays, `lastVisibleIcon`, and whether there was an icon for each. -/
def drawBays (icons : α → Icon α) (selectedIcon : Option α) :
    (count iconcount : Nat) → (iconPtr lastVisibleIcon : Option α) →
      List (Shown α) × Option α × Bool
  | 0, _, _, lastVisibleIcon => ([], lastVisibleIcon, true)
  | _ + 1, _, none, lastVisibleIcon => ([], lastVisibleIcon, false)
  | count + 1, iconcount, some iconPtr, _ =>
    let rest := drawBays icons selectedIcon count (iconcount + 1) (icons iconPtr).nextIcon iconPtr
    (drawIcon icons selectedIcon iconcount iconPtr ++ rest.1, rest.2)

/-- The icon has another one beside it. -/
def hasNeighbour (side : α → Option α) (icon : Option α) : Bool := (icon.bind side).isSome

def iconMenuDraw (state : IconState α) : IconState α :=
  let firstVisibleIcon := if state.firstVisibleIcon = none then state.firstIcon
    else state.firstVisibleIcon
  let selectedIcon := if state.selectedIcon = none then state.firstIcon else state.selectedIcon
  let (bays, lastVisibleIcon, full) :=
    drawBays state.icons selectedIcon 3 0 firstVisibleIcon state.lastVisibleIcon
  -- With a bay left empty the function has already returned.
  let left := full && hasNeighbour (iconLinks state.icons).previous firstVisibleIcon
  let right := full && hasNeighbour (iconLinks state.icons).next lastVisibleIcon
  let shown := bays ++ (if left then [.leftArrow] else []) ++ if right then [.rightArrow] else []
  { state with
    selectedIcon, firstVisibleIcon, lastVisibleIcon
    log := state.log ++ [.drawn { firstVisibleIcon, selectedIcon, shown }] }

/-! ## The event loop -/

/-- What the buttons and the timer answer in one pass, and whether the function of an icon
comes back if it is run in it. -/
structure IconInput where
  padRight : Bool
  padLeft : Bool
  keyA : Bool
  keyStart : Bool
  timerTicks : UInt32
  comesBack : Bool

/-- Right and left: the state, and whether the selection has changed. `none` where `NULL`
is dereferenced. -/
def iconMenuMove (state : IconState α) (input : IconInput) : Option (IconState α × Bool) :=
  if input.padRight then do
    let selectedIcon ← state.selectedIcon
    match (state.icons selectedIcon).nextIcon with
    | none => some ({ state with ticks := 0 }, false)
    | some next =>
      let first ← state.firstVisibleIcon
      let lastVisibleIcon := (iconLinks state.icons).forward 2 first
      let firstVisibleIcon :=
        if selectedIcon = lastVisibleIcon ∧ (state.icons lastVisibleIcon).nextIcon ≠ none then
          (state.icons first).nextIcon
        else some first
      some ({ state with
        firstVisibleIcon, lastVisibleIcon, selectedIcon := next, ticks := 0 }, true)
  else if input.padLeft then do
    let selectedIcon ← state.selectedIcon
    match (state.icons selectedIcon).previousIcon with
    | none => some ({ state with ticks := 0 }, false)
    | some previous =>
      let firstVisibleIcon :=
        if state.firstVisibleIcon = some selectedIcon ∧
            (state.icons selectedIcon).previousIcon ≠ none then
          (state.icons selectedIcon).previousIcon
        else state.firstVisibleIcon
      some ({ state with firstVisibleIcon, selectedIcon := previous, ticks := 0 }, true)
  else some (state, false)

/-- The timeout is only looked at until left or right was pressed. -/
def iconMenuTimer (countStart : UInt32) (state : IconState α) (input : IconInput) : IconState α :=
  if state.ticks ≠ 0 then
    let ticks := input.timerTicks - countStart
    { state with ticks, timedOut := state.timedOut || decide (ticks > timerFreq * bootTimewait) }
  else state

/-- The function of an icon is run, if it has one. -/
def iconMenuRun (state : IconState α) (icon : α) : IconState α :=
  match (state.icons icon).functionPtr with
  | none => state
  | some _ => { state with log := state.log ++ [.run icon state.timedOut] }

/-- One pass of the loop, that goes on unless the function of an icon stays away. -/
def iconMenuPass (countStart : UInt32) (state : IconState α) (input : IconInput) :
    Option (Pass (IconState α) (IconState α)) := do
  let (state, changed) ← iconMenuMove state input
  let state := iconMenuTimer countStart state input
  if input.keyA || input.keyStart || state.timedOut then
    let selectedIcon ← state.selectedIcon
    if (state.icons selectedIcon).functionPtr ≠ none ∧ input.comesBack = false then
      some (.leave (iconMenuRun state selectedIcon))
    else
      let state := iconMenuRun state selectedIcon
      some (.next (iconMenuDraw { state with ticks := 0, timedOut := false }))
  else if changed then some (.next (iconMenuDraw state))
  else some (.next state)

def iconMenuLoop (countStart : UInt32) :
    List IconInput → IconState α → Option (Pass (IconState α) (IconState α))
  | [], state => some (.next state)
  | input :: inputs, state => do
    match ← iconMenuPass countStart state input with
    | .next state => iconMenuLoop countStart inputs state
    | .leave state => some (.leave state)

/-- `IconMenu`, without `SILENT_MODE`, run for as many passes as there are inputs. -/
def iconMenu (countStart : UInt32) (state : IconState α) (inputs : List IconInput) :
    Option (Pass (IconState α) (IconState α)) :=
  iconMenuLoop countStart inputs (iconMenuDraw { state with ticks := 1 })

/-- The selected icon is in a bay, opaque and with its caption. -/
def IconDrawing.ShowsSelected (drawing : IconDrawing α) : Prop :=
  ∃ icon iconcount iconSlot szCaption, drawing.selectedIcon = some icon ∧
    Shown.icon iconcount icon iconSlot selectedTransparentness ∈ drawing.shown ∧
    Shown.caption iconcount szCaption ∈ drawing.shown

/-! ## What is drawn -/

section Draw

variable {icons : α → Icon α} {front : Option α} {nodes : List α} {window : Window}
  {first selected : α}

/-- The bays hold the icons from the first visible one on. -/
theorem mem_drawBays (chain : (iconLinks icons).Chain front nodes) (selectedIcon : Option α)
    (count iconcount index : Nat) (last : Option α) (item : Shown α) :
    item ∈ (drawBays icons selectedIcon count iconcount nodes[index]? last).1 ↔
      ∃ k < count, ∃ icon, nodes[index + k]? = some icon ∧
        item ∈ drawIcon icons selectedIcon (iconcount + k) icon := by
  induction count generalizing iconcount index last with
  | zero => simp [drawBays]
  | succ count ih =>
      cases here : nodes[index]? with
      | none =>
          have ended := List.getElem?_eq_none_iff.mp here
          constructor
          · exact nofun
          · rintro ⟨k, _, icon, there, -⟩
            have inRange := (List.getElem?_eq_some_iff.mp there).1
            omega
      | some icon =>
          have next : (icons icon).nextIcon = nodes[index + 1]? := chain.next here
          simp only [drawBays, next, List.mem_append, ih]
          constructor
          · rintro (drawn | ⟨k, below, other, there, drawn⟩)
            · exact ⟨0, Nat.succ_pos count, icon, here, drawn⟩
            · refine ⟨k + 1, by omega, other, by rwa [← Nat.add_assoc, Nat.add_right_comm], ?_⟩
              rwa [← Nat.add_assoc, Nat.add_right_comm]
          · rintro ⟨k, below, other, there, drawn⟩
            cases k with
            | zero =>
                have same : icon = other := by simpa [here] using there
                exact .inl (same ▸ drawn)
            | succ k =>
                refine .inr ⟨k, by omega, other, ?_, ?_⟩
                · rwa [Nat.add_right_comm, Nat.add_assoc]
                · rwa [Nat.add_right_comm, Nat.add_assoc]

/-- Only the selected icon is drawn opaque, and only it has a caption. -/
theorem mem_drawIcon {selectedIcon : Option α} {iconcount place slot : Nat} {icon other : α} :
    Shown.icon place other slot selectedTransparentness ∈
        drawIcon icons selectedIcon iconcount icon ↔
      some icon = selectedIcon ∧ place = iconcount ∧ other = icon ∧
        slot = (icons icon).iconSlot := by
  have unlike : selectedTransparentness ≠ transparentness := by decide
  unfold drawIcon
  split_ifs with same
  · simp [same]
  · simp [same, unlike]

omit [DecidableEq α] in
/-- The arrows are no icons. -/
theorem mem_shown {bays : List (Shown α)} {left right : Bool} {item : Shown α}
    (noLeft : item ≠ .leftArrow) (noRight : item ≠ .rightArrow) :
    item ∈ bays ++ (if left then [.leftArrow] else []) ++ (if right then [.rightArrow] else []) ↔
      item ∈ bays := by
  cases left
  all_goals
    cases right
    all_goals simp [noLeft, noRight]

/-- What the menu draws, and what drawing changes. -/
theorem iconMenuDraw_spec {state : IconState α}
    (chain : (iconLinks state.icons).Chain state.firstIcon nodes)
    (visible : (if state.firstVisibleIcon = none then state.firstIcon
      else state.firstVisibleIcon) = some first)
    (chosen : (if state.selectedIcon = none then state.firstIcon else state.selectedIcon) =
      some selected)
    (located : Located nodes window first selected) :
    ∃ drawing lastVisibleIcon, iconMenuDraw state =
      { state with
        firstVisibleIcon := first, selectedIcon := selected, lastVisibleIcon
        log := state.log ++ [.drawn drawing] } ∧
      drawing.selectedIcon = some selected ∧ (drawing.ShowsSelected ↔ window.Shows 3) := by
  have drawn := mem_drawBays chain (some selected) 3 0 window.first state.lastVisibleIcon
  rw [located.first] at drawn
  unfold iconMenuDraw
  rw [visible, chosen]
  refine ⟨_, _, rfl, rfl, ?_⟩
  constructor
  · rintro ⟨icon, iconcount, slot, szCaption, same, opaqueIcon, -⟩
    injection same with same
    subst same
    obtain ⟨k, below, other, there, member⟩ :=
      (drawn _).mp ((mem_shown (by exact nofun) (by exact nofun)).mp opaqueIcon)
    obtain ⟨-, -, same, -⟩ := mem_drawIcon.mp member
    subst same
    have place := chain.index_unique located.selected there
    exact ⟨by omega, by omega⟩
  · rintro ⟨lower, upper⟩
    have there : nodes[window.first + (window.selected - window.first)]? = some selected := by
      rw [show window.first + (window.selected - window.first) = window.selected by omega]
      exact located.selected
    refine ⟨selected, 0 + (window.selected - window.first), (state.icons selected).iconSlot,
      (state.icons selected).szCaption, rfl, ?_, ?_⟩
    · refine (mem_shown (by exact nofun) (by exact nofun)).mpr ((drawn _).mpr ?_)
      exact ⟨window.selected - window.first, by omega, selected, there, by simp [drawIcon]⟩
    · refine (mem_shown (by exact nofun) (by exact nofun)).mpr ((drawn _).mpr ?_)
      exact ⟨window.selected - window.first, by omega, selected, there, by simp [drawIcon]⟩

end Draw

/-! ## What one pass does -/

/-- The pointers of the menu are where the window says. -/
structure IconTracks (nodes : List α) (window : Window) (state : IconState α) : Prop where
  chain : (iconLinks state.icons).Chain state.firstIcon nodes
  located : ∃ first selected, state.firstVisibleIcon = some first ∧
    state.selectedIcon = some selected ∧ Located nodes window first selected

/-- Between two passes the selected icon is that of the last thing that happened, a
drawing. -/
structure Settled (nodes : List α) (window : Window) (state : IconState α) : Prop where
  tracks : IconTracks nodes window state
  calm : state.timedOut = false
  last : ∃ earlier drawing, state.log = earlier ++ [.drawn drawing] ∧
    drawing.selectedIcon = state.selectedIcon

/-- What left and right do to the state. -/
structure Shifted (nodes : List α) (window : Window) (state moved : IconState α)
    (changed : Bool) : Prop where
  tracks : ∃ next, Window.Moved 3 nodes.length window next ∧ IconTracks nodes next moved
  log : moved.log = state.log
  calm : moved.timedOut = state.timedOut
  stopped : changed = true → moved.ticks = 0
  same : changed = false → moved.selectedIcon = state.selectedIcon

section Pass

variable {nodes : List α} {window : Window} {state : IconState α}

omit [DecidableEq α] in
theorem IconTracks.unmoved (tracks : IconTracks nodes window state) (ticks : UInt32) :
    Shifted nodes window state { state with ticks } false where
  tracks := ⟨window, .inl rfl, tracks.chain, tracks.located⟩
  log := rfl
  calm := rfl
  stopped := nofun
  same _ := rfl

theorem IconTracks.right (tracks : IconTracks nodes window state) {input : IconInput}
    (pressed : input.padRight = true) : ∃ moved changed,
      iconMenuMove state input = some (moved, changed) ∧
        Shifted nodes window state moved changed := by
  obtain ⟨first, selected, visible, chosen, located⟩ := tracks.located
  rw [iconMenuMove, if_pos pressed, chosen, visible, Option.bind_eq_bind, Option.bind_some]
  split
  · refine ⟨_, _, rfl, ?_⟩
    rw [← chosen, ← visible]
    exact tracks.unmoved 0
  · rename_i next behind
    have onward : (iconLinks state.icons).next selected = some next := behind
    obtain ⟨atEnd, within⟩ := located.down tracks.chain onward 2
    refine ⟨_, _, rfl, ⟨window.down 3 nodes.length, .inr (.inr rfl), tracks.chain, ?_⟩, rfl, rfl,
      fun _ => rfl, nofun⟩
    by_cases bottom : selected = (iconLinks state.icons).forward 2 first
    · obtain ⟨second, behindFirst, moved⟩ := atEnd bottom
      refine ⟨second, next, ?_, rfl, moved⟩
      have more : (state.icons ((iconLinks state.icons).forward 2 first)).nextIcon ≠ none := by
        rw [← bottom, behind]
        exact nofun
      simp only [if_pos (And.intro bottom more)]
      exact behindFirst
    · exact ⟨first, next, by simp [bottom], rfl, within bottom⟩

theorem IconTracks.left (tracks : IconTracks nodes window state) {input : IconInput}
    (notRight : input.padRight ≠ true) (pressed : input.padLeft = true) : ∃ moved changed,
      iconMenuMove state input = some (moved, changed) ∧
        Shifted nodes window state moved changed := by
  obtain ⟨first, selected, visible, chosen, located⟩ := tracks.located
  rw [iconMenuMove, if_neg notRight, if_pos pressed, chosen, visible, Option.bind_eq_bind,
    Option.bind_some]
  split
  · refine ⟨_, _, rfl, ?_⟩
    rw [← chosen, ← visible]
    exact tracks.unmoved 0
  · rename_i previous before
    have moved := located.up tracks.chain before
    refine ⟨_, _, rfl, ⟨window.up, .inr (.inl rfl), tracks.chain, ?_⟩, rfl, rfl,
      fun _ => rfl, nofun⟩
    refine ⟨if first = selected then previous else first, previous, ?_, rfl, moved⟩
    by_cases top : first = selected
    · simp [top, before]
    · simp [top]

theorem IconTracks.move (tracks : IconTracks nodes window state) (input : IconInput) :
    ∃ moved changed, iconMenuMove state input = some (moved, changed) ∧
      Shifted nodes window state moved changed := by
  by_cases right : input.padRight = true
  · exact tracks.right right
  by_cases left : input.padLeft = true
  · exact tracks.left right left
  rw [iconMenuMove, if_neg right, if_neg left]
  exact ⟨_, _, rfl, tracks.unmoved state.ticks⟩

/-- Drawing changes no pointer that is set, and settles the menu. -/
theorem IconTracks.draw (tracks : IconTracks nodes window state) (calm : state.timedOut = false) :
    ∃ drawing, (iconMenuDraw state).log = state.log ++ [.drawn drawing] ∧
      Settled nodes window (iconMenuDraw state) ∧
      (drawing.ShowsSelected ↔ window.Shows 3) := by
  obtain ⟨first, selected, visible, chosen, located⟩ := tracks.located
  obtain ⟨drawing, last, drew, selection, shows⟩ := iconMenuDraw_spec tracks.chain
    (by simp [visible]) (by simp [chosen]) located
  rw [drew]
  exact ⟨drawing, rfl, ⟨⟨tracks.chain, first, selected, rfl, rfl, located⟩, calm,
    state.log, drawing, rfl, selection⟩, shows⟩

omit [DecidableEq α] in
/-- The timer moves nothing, and times out only while it is looked at. -/
theorem IconTracks.timer (tracks : IconTracks nodes window state) (countStart : UInt32)
    (input : IconInput) : IconTracks nodes window (iconMenuTimer countStart state input) ∧
      (iconMenuTimer countStart state input).log = state.log ∧
      (iconMenuTimer countStart state input).selectedIcon = state.selectedIcon ∧
      ((iconMenuTimer countStart state input).timedOut = true →
        state.timedOut = true ∨ state.ticks ≠ 0) := by
  unfold iconMenuTimer
  split
  · rename_i running
    exact ⟨⟨tracks.chain, tracks.located⟩, rfl, rfl, fun _ => .inr running⟩
  · exact ⟨tracks, rfl, rfl, .inl⟩

omit [DecidableEq α] in
/-- The function of an icon leaves the menu alone. -/
theorem IconTracks.run (tracks : IconTracks nodes window state) (icon : α) :
    IconTracks nodes window (iconMenuRun state icon) ∧
      ((state.icons icon).functionPtr = none ∧ (iconMenuRun state icon).log = state.log ∨
        (state.icons icon).functionPtr ≠ none ∧
          (iconMenuRun state icon).log = state.log ++ [.run icon state.timedOut]) := by
  unfold iconMenuRun
  split
  · rename_i absent
    exact ⟨tracks, .inl ⟨absent, rfl⟩⟩
  · rename_i function present
    refine ⟨⟨tracks.chain, tracks.located⟩, .inr ⟨?_, rfl⟩⟩
    rw [present]
    exact nofun

/-- How the log grows in a pass that goes on. -/
inductive Grows (state : IconState α) (window : Window) : List (IconEvent α) → Prop where
  | same : Grows state window state.log
  | drawn (drawing : IconDrawing α) (shows : drawing.ShowsSelected ↔ window.Shows 3) :
      Grows state window (state.log ++ [.drawn drawing])
  | ran (icon : α) (timedOut : Bool) (drawing : IconDrawing α)
      (shows : drawing.ShowsSelected ↔ window.Shows 3)
      (asked : timedOut = true → state.selectedIcon = some icon) :
      Grows state window (state.log ++ [.run icon timedOut] ++ [.drawn drawing])

/-- The pass goes on with its window moved, or ends in the function of an icon. -/
def IconContinues (nodes : List α) (window : Window) (state : IconState α)
    (pass : Pass (IconState α) (IconState α)) : Prop :=
  pass.Ends (fun next => ∃ moved, Window.Moved 3 nodes.length window moved ∧
    Settled nodes moved next ∧ Grows state moved next.log)
    fun left => ∃ icon timedOut, left.log = state.log ++ [.run icon timedOut] ∧
      (timedOut = true → state.selectedIcon = some icon)

/-- One pass of the menu. -/
theorem Settled.pass (settled : Settled nodes window state) (countStart : UInt32)
    (input : IconInput) : ∃ pass, iconMenuPass countStart state input = some pass ∧
      IconContinues nodes window state pass := by
  obtain ⟨moved, changed, ended, shifted⟩ := settled.tracks.move input
  obtain ⟨next, step, tracks⟩ := shifted.tracks
  have timer := tracks.timer countStart input
  rw [iconMenuPass, ended, Option.bind_eq_bind, Option.bind_some]
  dsimp only
  generalize iconMenuTimer countStart moved input = timed at timer ⊢
  obtain ⟨tracks, log, selection, running⟩ := timer
  obtain ⟨first, selected, visible, chosen, located⟩ := tracks.located
  have logged : timed.log = state.log := log.trans shifted.log
  have asked : timed.timedOut = true → state.selectedIcon = some selected := by
    intro out
    have counting : moved.ticks ≠ 0 := by
      refine (running out).resolve_left ?_
      rw [shifted.calm, settled.calm]
      exact Bool.false_ne_true
    have still : changed = false := by
      by_contra turned
      exact counting (shifted.stopped (by simpa using turned))
    rw [← shifted.same still, ← selection, chosen]
  split
  · rw [chosen]
    simp only [Option.bind_eq_bind, Option.bind_some]
    obtain ⟨ranTracks, ran⟩ := tracks.run selected
    split
    · rename_i away
      have log := (ran.resolve_left fun absent => away.1 absent.1).2
      rw [logged] at log
      exact ⟨_, rfl, selected, timed.timedOut, log, asked⟩
    · have back : IconTracks nodes next
          { iconMenuRun timed selected with ticks := 0, timedOut := false } :=
        ⟨ranTracks.chain, ranTracks.located⟩
      obtain ⟨drawing, drew, settled, shows⟩ := back.draw rfl
      refine ⟨_, rfl, next, step, settled, ?_⟩
      rw [drew]
      rcases ran with ⟨-, log⟩ | ⟨-, log⟩
      · simp only [log, logged]
        exact .drawn drawing shows
      · simp only [log, logged]
        exact .ran selected timed.timedOut drawing shows asked
  · rename_i quiet
    have calm : timed.timedOut = false := by
      simp only [Bool.or_eq_true, not_or] at quiet
      simpa using quiet.2
    split
    · obtain ⟨drawing, drew, settled, shows⟩ := tracks.draw calm
      refine ⟨_, rfl, next, step, settled, ?_⟩
      rw [drew, logged]
      exact .drawn drawing shows
    · rename_i turned
      have still : changed = false := by simpa using turned
      have same : timed.selectedIcon = state.selectedIcon := selection.trans (shifted.same still)
      obtain ⟨earlier, drawing, last, shown⟩ := settled.last
      refine ⟨_, rfl, next, step, ⟨tracks, calm, earlier, drawing, ?_, ?_⟩, ?_⟩
      · rw [logged, last]
      · rw [shown, same]
      · rw [logged]
        exact .same

end Pass

/-! ## Whole runs -/

/-- Every drawing shows the icon that is selected, and the icon that is run by the timeout
is that of the drawing just before. -/
inductive Visible : List (IconEvent α) → Prop where
  | start : Visible []
  | drawn {log : List (IconEvent α)} {drawing : IconDrawing α} (visible : Visible log)
      (shows : drawing.ShowsSelected) : Visible (log ++ [.drawn drawing])
  | asked {log : List (IconEvent α)} (icon : α) (visible : Visible log) :
      Visible (log ++ [.run icon false])
  | timedOut {log : List (IconEvent α)} {drawing : IconDrawing α} {icon : α}
      (visible : Visible (log ++ [.drawn drawing])) (selected : drawing.selectedIcon = some icon) :
      Visible (log ++ [.drawn drawing] ++ [.run icon true])

section Run

variable {nodes : List α} {window moved : Window} {state next : IconState α}
  {log : List (IconEvent α)} {drawing : IconDrawing α} {icon : α} {timedOut : Bool}

omit [DecidableEq α] in
theorem Visible.shows (visible : Visible log) (member : .drawn drawing ∈ log) :
    drawing.ShowsSelected := by
  induction visible with
  | start => cases member
  | drawn _ shows ih =>
      rcases List.mem_append.mp member with before | last
      · exact ih before
      · injection List.mem_singleton.mp last with same
        rwa [same]
  | asked icon _ ih =>
      rcases List.mem_append.mp member with before | last
      · exact ih before
      · cases List.mem_singleton.mp last
  | timedOut _ _ ih =>
      rcases List.mem_append.mp member with before | last
      · exact ih before
      · cases List.mem_singleton.mp last

omit [DecidableEq α] in
theorem Settled.ran (settled : Settled nodes window state) (visible : Visible state.log)
    (asked : timedOut = true → state.selectedIcon = some icon) :
    Visible (state.log ++ [.run icon timedOut]) := by
  cases timedOut with
  | false => exact .asked icon visible
  | true =>
      obtain ⟨earlier, drawing, last, selected⟩ := settled.last
      rw [last] at visible ⊢
      exact .timedOut visible (selected.trans (asked rfl))

omit [DecidableEq α] in
theorem Grows.visible (grows : Grows state moved log) (settled : Settled nodes window state)
    (visible : Visible state.log) (shows : moved.Shows 3) : Visible log := by
  cases grows with
  | same => exact visible
  | drawn drawing showsDrawing => exact .drawn visible (showsDrawing.mpr shows)
  | ran icon timedOut drawing showsDrawing asked =>
      exact .drawn (settled.ran visible asked) (showsDrawing.mpr shows)

omit [DecidableEq α] in
theorem Grows.keeps (grows : Grows state moved log) {event : IconEvent α}
    (member : event ∈ state.log) : event ∈ log := by
  cases grows with
  | same => exact member
  | drawn _ _ => exact List.mem_append_left _ member
  | ran _ _ _ _ _ => exact List.mem_append_left _ (List.mem_append_left _ member)

/-- From a window that shows the selection the menu stays visible. -/
theorem iconMenuLoop_visible (countStart : UInt32) (inputs : List IconInput)
    (settled : Settled nodes window state) (shows : window.Shows 3) (visible : Visible state.log) :
    ∃ pass, iconMenuLoop countStart inputs state = some pass ∧
      pass.Ends (fun next => Visible next.log) fun left => Visible left.log := by
  induction inputs generalizing window state with
  | nil => exact ⟨_, rfl, visible⟩
  | cons input inputs ih =>
      obtain ⟨pass, ended, continues⟩ := settled.pass countStart input
      rw [iconMenuLoop, ended, Option.bind_eq_bind, Option.bind_some]
      cases pass with
      | next next =>
          obtain ⟨moved, step, settledNext, grows⟩ := continues
          exact ih settledNext (step.shows shows)
            (grows.visible settled visible (step.shows shows))
      | leave left =>
          obtain ⟨icon, timedOut, log, asked⟩ := continues
          refine ⟨_, rfl, ?_⟩
          rw [Pass.Ends, log]
          exact settled.ran visible asked

/-- What has happened stays in the log. -/
theorem iconMenuLoop_keeps (countStart : UInt32) (inputs : List IconInput)
    (settled : Settled nodes window state) {event : IconEvent α} (member : event ∈ state.log) :
    ∃ pass, iconMenuLoop countStart inputs state = some pass ∧
      pass.Ends (fun next => event ∈ next.log) fun left => event ∈ left.log := by
  induction inputs generalizing window state with
  | nil => exact ⟨_, rfl, member⟩
  | cons input inputs ih =>
      obtain ⟨pass, ended, continues⟩ := settled.pass countStart input
      rw [iconMenuLoop, ended, Option.bind_eq_bind, Option.bind_some]
      cases pass with
      | next next =>
          obtain ⟨moved, _, settledNext, grows⟩ := continues
          exact ih settledNext (grows.keeps member)
      | leave left =>
          obtain ⟨icon, timedOut, log, -⟩ := continues
          refine ⟨_, rfl, ?_⟩
          rw [Pass.Ends, log]
          exact List.mem_append_left _ member

/-- A run of the menu stays visible exactly if its first drawing shows the icon that is
selected. -/
theorem iconMenu_shown_iff (chain : (iconLinks state.icons).Chain state.firstIcon nodes)
    {index : Nat} {selected : α} (here : nodes[index]? = some selected)
    (asked : state.selectedIcon = some selected ∨ state.selectedIcon = none ∧ index = 0)
    (unseen : state.firstVisibleIcon = none) (calm : state.timedOut = false)
    (silent : state.log = []) (countStart : UInt32) (inputs : List IconInput) :
    (∃ pass, iconMenu countStart state inputs = some pass ∧
      pass.Ends (fun next => Visible next.log) fun left => Visible left.log) ↔ index < 3 := by
  obtain ⟨inRange, _⟩ := List.getElem?_eq_some_iff.mp here
  have top : nodes[0]? = some nodes[0] := List.getElem?_eq_getElem (by omega)
  have front : state.firstIcon = some nodes[0] := chain.head.trans top
  have located : Located nodes ⟨0, index⟩ nodes[0] selected := ⟨top, here⟩
  obtain ⟨begun, begins⟩ : ∃ begun : IconState α, { state with ticks := 1 } = begun := ⟨_, rfl⟩
  have visible : (if begun.firstVisibleIcon = none then begun.firstIcon
      else begun.firstVisibleIcon) = some nodes[0] := by simp [← begins, unseen, front]
  have chosen : (if begun.selectedIcon = none then begun.firstIcon else begun.selectedIcon) =
      some selected := by
    rcases asked with preset | ⟨unset, rfl⟩
    · simp [← begins, preset]
    · simp [← begins, unset, front, ← here, top]
  have chain' : (iconLinks begun.icons).Chain begun.firstIcon nodes := by rwa [← begins]
  obtain ⟨drawing, last, drew, selection, shows⟩ :=
    iconMenuDraw_spec chain' visible chosen located
  have log : (iconMenuDraw begun).log = [.drawn drawing] := by
    rw [drew, ← begins]
    simp [silent]
  have settled : Settled nodes ⟨0, index⟩ (iconMenuDraw begun) := by
    refine ⟨?_, ?_, [], drawing, log, ?_⟩
    · rw [drew]
      exact ⟨chain', nodes[0], selected, rfl, rfl, located⟩
    · rw [drew, ← begins]
      exact calm
    · rw [drew]
      exact selection
  rw [iconMenu, begins]
  constructor
  · rintro ⟨pass, ended, stays⟩
    have member : .drawn drawing ∈ (iconMenuDraw begun).log := by
      rw [log]
      exact List.mem_singleton.mpr rfl
    obtain ⟨pass', ended', kept⟩ := iconMenuLoop_keeps countStart inputs settled member
    rw [ended'] at ended
    injection ended with same
    subst same
    have shown : drawing.ShowsSelected := by
      cases pass' with
      | next next => exact Visible.shows stays kept
      | leave left => exact Visible.shows stays kept
    simpa using (shows.mp shown).2
  · intro inside
    have within : Window.Shows 3 ⟨0, index⟩ := ⟨Nat.zero_le index, by simpa using inside⟩
    refine iconMenuLoop_visible countStart inputs settled within ?_
    rw [log]
    exact .drawn .start (shows.mpr within)

end Run

end Menu

end Cromwell.Menu
