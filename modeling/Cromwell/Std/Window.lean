import Cromwell.Std.Chain

/-!
# A window that follows a selection

A list longer than its window shows a part of it, from the first visible entry on. The
selection moves by one entry, and the window by one where the selection would leave it.
A window that shows the selection keeps doing so; where one starts that does not, no
move is needed to see it.
-/

namespace Cromwell.Std

universe u

/-- The places of the first visible entry and of the selected one. -/
structure Window where
  first : Nat
  selected : Nat
  deriving Repr, DecidableEq

namespace Window

/-- The selected entry is one of the `page` entries from the first visible one on. -/
def Shows (page : Nat) (window : Window) : Prop :=
  window.first ≤ window.selected ∧ window.selected < window.first + page

/-- The selection moves to the entry before it, if there is one. -/
def up (window : Window) : Window :=
  if window.selected = 0 then window
  else
    { first := if window.first = window.selected then window.selected - 1 else window.first
      selected := window.selected - 1 }

/-- The selection moves to the entry behind it, if there is one. -/
def down (page count : Nat) (window : Window) : Window :=
  if window.selected + 1 < count then
    { first :=
        if window.selected = min (window.first + (page - 1)) (count - 1) then window.first + 1
        else window.first
      selected := window.selected + 1 }
  else window

variable {page count : Nat} {window : Window}

theorem Shows.up (shows : window.Shows page) : window.up.Shows page := by
  obtain ⟨lower, upper⟩ := shows
  unfold Window.up Shows
  split_ifs with start same
  · exact ⟨lower, upper⟩
  · simp only
    omega
  · simp only
    omega

theorem Shows.down (shows : window.Shows page) : (window.down page count).Shows page := by
  obtain ⟨lower, upper⟩ := shows
  unfold Window.down Shows
  split_ifs with inside atEnd
  · simp only
    omega
  · simp only
    omega
  · exact ⟨lower, upper⟩

/-- The windows one move may lead to. -/
def Moved (page count : Nat) (window next : Window) : Prop :=
  next = window ∨ next = window.up ∨ next = window.down page count

theorem Moved.shows {next : Window} (moved : Moved page count window next)
    (shows : window.Shows page) : next.Shows page := by
  rcases moved with rfl | rfl | rfl
  · exact shows
  · exact shows.up
  · exact shows.down

end Window

/-! ## Windows on linked lists -/

section Linked

variable {α : Type u} {links : Links α} {front : Option α} {nodes : List α} {window : Window}
  {first selected : α}

/-- The nodes the two places of a window stand for. -/
structure Located (nodes : List α) (window : Window) (first selected : α) : Prop where
  first : nodes[window.first]? = some first
  selected : nodes[window.selected]? = some selected

theorem Located.up [DecidableEq α] (chain : links.Chain front nodes)
    (located : Located nodes window first selected) {previous : α}
    (before : links.previous selected = some previous) :
    Located nodes window.up (if first = selected then previous else first) previous := by
  obtain ⟨start, selected'⟩ := window
  obtain ⟨visible, chosen⟩ := located
  simp only at visible chosen
  cases selected' with
  | zero =>
      rw [chain.start chosen] at before
      cases before
  | succ above =>
      have there : nodes[above]? = some previous := (chain.previous chosen).symm.trans before
      have same : first = selected ↔ start = above + 1 :=
        ⟨fun equal => chain.index_unique visible (equal ▸ chosen),
          fun equal => Option.some.inj (visible.symm.trans (equal ▸ chosen))⟩
      by_cases top : start = above + 1
      · simpa [Window.up, same, top] using Located.mk there there
      · simpa [Window.up, same, top] using Located.mk visible there

/-- Down: the window moves exactly if the selection was its last entry. -/
theorem Located.down (chain : links.Chain front nodes)
    (located : Located nodes window first selected) {next : α}
    (behind : links.next selected = some next) (more : Nat) :
    (selected = links.forward more first → ∃ second, links.next first = some second ∧
      Located nodes (window.down (more + 1) nodes.length) second next) ∧
    (selected ≠ links.forward more first →
      Located nodes (window.down (more + 1) nodes.length) first next) := by
  have there := (chain.next located.selected).symm.trans behind
  have inside := (List.getElem?_eq_some_iff.mp there).1
  have bottom := chain.forward_eq located.first more
  have visible := located.first
  have last : selected = links.forward more first ↔
      window.selected = min (window.first + more) (nodes.length - 1) :=
    ⟨fun equal => chain.index_unique located.selected (equal ▸ bottom),
      fun equal => Option.some.inj ((equal ▸ located.selected).symm.trans bottom)⟩
  constructor
  · intro atEnd
    have place := last.mp atEnd
    have onward : nodes[window.first + 1]? = some nodes[window.first + 1] :=
      List.getElem?_eq_getElem (by omega)
    refine ⟨nodes[window.first + 1], (chain.next visible).trans onward, ?_⟩
    simpa [Window.down, inside, ← place] using Located.mk onward there
  · intro within
    have place := mt last.mpr within
    have moved : Located nodes ⟨window.first, window.selected + 1⟩ first next := ⟨visible, there⟩
    simpa [Window.down, inside, place] using moved

end Linked

end Cromwell.Std
