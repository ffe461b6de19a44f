import Mathlib.Data.List.Basic
import Mathlib.Order.Lattice

/-!
# Nested lists

An item of a list may have a list of its own nested in it. On the way down from a list one
item of it is taken, then one of the list nested in that, until nothing is nested. Every
list that is not empty leads to one leaf.
-/

namespace Cromwell.Std

/-- A list by its first item, what is behind it and what is nested in it. -/
inductive Nested (α : Type) : Type
  | null
  | entry (item : α) (next nested : Nested α)

namespace Nested

variable {α : Type}

def isNull : Nested α → Bool
  | null => true
  | entry .. => false

/-- The items of a list, each with what is nested in it. -/
def nodes : Nested α → List (α × Nested α)
  | null => []
  | entry item next nested => (item, nested) :: next.nodes

/-- A list with nothing nested in it. -/
def ofList : List α → Nested α
  | [] => null
  | item :: rest => entry item (ofList rest) null

def append : Nested α → Nested α → Nested α
  | null, other => other
  | entry item next nested, other => entry item (next.append other) nested

/-- A change of the items of a list, though not of those that are nested in it. -/
def map (change : α → α) : Nested α → Nested α
  | null => null
  | entry item next nested => entry (change item) (next.map change) nested

/-- How many levels there are. -/
def depth : Nested α → Nat
  | null => 0
  | entry _ next nested => max next.depth (nested.depth + 1)

section Nodes

variable {list : Nested α} {node : α × Nested α}

@[simp] theorem nodes_ofList (items : List α) :
    (ofList items).nodes = items.map fun item => (item, null) := by
  induction items with
  | nil => rfl
  | cons item rest ih => simp [ofList, nodes, ih]

@[simp] theorem nodes_map (change : α → α) (list : Nested α) :
    (list.map change).nodes = list.nodes.map fun node => (change node.1, node.2) := by
  induction list with
  | null => rfl
  | entry item next nested ih _ => simp [map, nodes, ih]

@[simp] theorem isNull_iff : list.isNull = true ↔ list = null := by
  cases list with
  | null => simp [isNull]
  | entry item next nested => simp [isNull]

@[simp] theorem nodes_eq_nil : list.nodes = [] ↔ list = null := by
  cases list with
  | null => simp [nodes]
  | entry item next nested => simp [nodes]

/-- What is nested in an item of a list has fewer levels. -/
theorem depth_nested (member : node ∈ list.nodes) : node.2.depth < list.depth := by
  induction list with
  | null => cases member
  | entry item next nested ih _ =>
      rcases List.mem_cons.mp member with rfl | later
      · exact Nat.lt_of_lt_of_le (Nat.lt_succ_self _) (Nat.le_max_right _ _)
      · exact Nat.lt_of_lt_of_le (ih later) (Nat.le_max_left _ _)

end Nodes

/-! ## The way down -/

/-- An item in which nothing is nested. -/
inductive Leaf : Nested α → α → Prop
  | here {list : Nested α} {item : α} (member : (item, null) ∈ list.nodes) : Leaf list item
  | nested {list inner : Nested α} {outer item : α} (member : (outer, inner) ∈ list.nodes)
      (leaf : Leaf inner item) : Leaf list item

theorem not_leaf_null {item : α} : ¬Leaf null item := by
  intro leaf
  cases leaf with
  | here member => cases member
  | nested member _ => cases member

variable {marked : α → Bool}

/-- At each level the only item is taken, else the first one that is marked, else the first
one. -/
inductive Taken (marked : α → Bool) : List (α × Nested α) → α × Nested α → Prop
  | only (node : α × Nested α) : Taken marked [node] node
  | marked {nodes : List (α × Nested α)} {node : α × Nested α} (several : 2 ≤ nodes.length)
      (first : nodes.find? (marked ·.1) = some node) : Taken marked nodes node
  | first {node : α × Nested α} {rest : List (α × Nested α)} (several : rest ≠ [])
      (none : ∀ other ∈ node :: rest, marked other.1 = false) : Taken marked (node :: rest) node

/-- The leaf that a list leads to. -/
inductive Target (marked : α → Bool) : Nested α → α → Prop
  | here {list : Nested α} {leaf : α} (taken : Taken marked list.nodes (leaf, null)) :
      Target marked list leaf
  | nested {list inner : Nested α} {outer leaf : α} (taken : Taken marked list.nodes (outer, inner))
      (some : inner ≠ null) (target : Target marked inner leaf) : Target marked list leaf

section Taken

variable {nodes : List (α × Nested α)} {node other : α × Nested α} {list : Nested α} {item : α}

theorem Taken.mem (taken : Taken marked nodes node) : node ∈ nodes := by
  cases taken with
  | only => exact List.mem_singleton_self _
  | marked _ first => exact List.mem_of_find?_eq_some first
  | first _ _ => exact List.mem_cons_self

theorem Taken.unique (first : Taken marked nodes node) (second : Taken marked nodes other) :
    node = other := by
  cases first with
  | only =>
      cases second with
      | only => rfl
      | marked several _ => exact absurd several (by simp)
      | first several _ => exact absurd rfl several
  | marked several found =>
      cases second with
      | only => exact absurd several (by simp)
      | marked _ found' => exact Option.some.inj (found.symm.trans found')
      | first _ none =>
          have passed := none _ (List.mem_of_find?_eq_some found)
          rw [List.find?_some found] at passed
          cases passed
  | first several none =>
      cases second with
      | only => exact absurd rfl several
      | marked _ found =>
          have passed := none _ (List.mem_of_find?_eq_some found)
          rw [List.find?_some found] at passed
          cases passed
      | first _ _ => rfl

theorem Target.leaf (target : Target marked list item) : Leaf list item := by
  induction target with
  | here taken => exact .here taken.mem
  | nested taken _ _ ih => exact .nested taken.mem ih

/-- A list leads to no more than one leaf. -/
theorem Target.unique {item' : α} (first : Target marked list item)
    (second : Target marked list item') : item = item' := by
  induction first generalizing item' with
  | here taken =>
      cases second with
      | here taken' => exact (Prod.mk.inj (taken.unique taken')).1
      | nested taken' some _ => exact absurd (Prod.mk.inj (taken.unique taken')).2.symm some
  | nested taken some _ ih =>
      cases second with
      | here taken' => exact absurd (Prod.mk.inj (taken.unique taken')).2 some
      | nested taken' _ target =>
          obtain ⟨-, same⟩ := Prod.mk.inj (taken.unique taken')
          rw [← same] at target
          exact ih target

end Taken

end Nested

end Cromwell.Std
