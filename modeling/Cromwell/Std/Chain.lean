import Mathlib.Data.List.Nodup

/-!
# Doubly linked lists

The nodes of a list are known by their addresses, and each has the address of the
node before it and of the one behind it. `Links.Chain` says that the links from a first
node on are those of a given list of nodes. A node is put at the end by going there, and
what is some nodes further on is found by following the links as far as they lead.
-/

namespace Cromwell.Std

universe u

/-- The links of the nodes. `NULL` is `none`. -/
structure Links (α : Type u) where
  previous : α → Option α
  next : α → Option α

namespace Links

variable {α : Type u}

/-- From `first` on the links are those of the list. -/
structure Chain (links : Links α) (first : Option α) (nodes : List α) : Prop where
  nodup : nodes.Nodup
  head : first = nodes[0]?
  next : ∀ {index node}, nodes[index]? = some node → links.next node = nodes[index + 1]?
  start : ∀ {node}, nodes[0]? = some node → links.previous node = none
  previous : ∀ {index node}, nodes[index + 1]? = some node → links.previous node = nodes[index]?

theorem chain_nil (links : Links α) : links.Chain none [] where
  nodup := List.nodup_nil
  head := rfl
  next := nofun
  start := nofun
  previous := nofun

variable {links : Links α} {first : Option α} {nodes : List α}

/-- A node is at one place only. -/
theorem Chain.index_unique (chain : links.Chain first nodes) {i j : Nat} {node : α}
    (here : nodes[i]? = some node) (there : nodes[j]? = some node) : i = j := by
  obtain ⟨bounded, _⟩ := List.getElem?_eq_some_iff.mp here
  exact (List.getElem?_inj bounded chain.nodup).mp (here.trans there.symm)

/-- A node is among the first ones exactly if its place is. -/
theorem Chain.mem_take_iff (chain : links.Chain first nodes) {index : Nat} {node : α}
    (here : nodes[index]? = some node) (count : Nat) : node ∈ nodes.take count ↔ index < count := by
  constructor
  · intro member
    obtain ⟨other, there⟩ := List.mem_iff_getElem?.mp member
    rw [List.getElem?_take] at there
    split at there
    · rwa [chain.index_unique here there]
    · cases there
  · intro below
    refine List.mem_iff_getElem?.mpr ⟨index, ?_⟩
    rw [List.getElem?_take, if_pos below, here]

/-! ## The end of a list -/

/-- `while (node != NULL) { current = node; node = node->next; }`, for at most `fuel` passes. -/
def last (links : Links α) : (fuel : Nat) → (node current : Option α) → Option (Option α)
  | 0, _, _ => none
  | _ + 1, none, current => some current
  | fuel + 1, some node, _ => last links fuel (links.next node) (some node)

/-- The way to the end comes to the last node. -/
theorem Chain.last_eq (chain : links.Chain first nodes) {fuel : Nat}
    (enough : nodes.length < fuel) :
    links.last fuel first none = some nodes[nodes.length - 1]? := by
  have onward : ∀ rest index fuel current, index + rest = nodes.length → rest < fuel →
      current = (if index = 0 then none else nodes[index - 1]?) →
        links.last fuel nodes[index]? current = some nodes[nodes.length - 1]? := by
    intro rest
    induction rest with
    | zero =>
        rintro index fuel current here enough rfl
        obtain ⟨fuel, rfl⟩ : ∃ fewer, fuel = fewer + 1 := ⟨fuel - 1, by omega⟩
        have ended : nodes[index]? = none := List.getElem?_eq_none (by omega)
        rw [ended, last]
        split
        · rw [List.getElem?_eq_none (by omega)]
        · rw [show index - 1 = nodes.length - 1 by omega]
    | succ rest ih =>
        rintro index fuel current here enough rfl
        obtain ⟨fuel, rfl⟩ : ∃ fewer, fuel = fewer + 1 := ⟨fuel - 1, by omega⟩
        have inside : nodes[index]? = some nodes[index] := List.getElem?_eq_getElem (by omega)
        rw [inside, last, chain.next inside]
        exact ih (index + 1) fuel _ (by omega) (by omega) (by simp [inside])
  rw [chain.head]
  exact onward nodes.length 0 fuel none (by omega) enough rfl

/-! ## Going on from a node -/

/-- The node `count` further on, or the last one there is. -/
def forward (links : Links α) : (count : Nat) → α → α
  | 0, node => node
  | count + 1, node =>
    match links.next node with
    | none => node
    | some next => forward links count next

theorem Chain.forward_eq (chain : links.Chain first nodes) {index : Nat} {node : α}
    (here : nodes[index]? = some node) (count : Nat) :
    nodes[min (index + count) (nodes.length - 1)]? = some (links.forward count node) := by
  induction count generalizing index node with
  | zero =>
      obtain ⟨inRange, _⟩ := List.getElem?_eq_some_iff.mp here
      rw [show min (index + 0) (nodes.length - 1) = index by omega, here, forward]
  | succ count ih =>
      have onward := chain.next here
      obtain ⟨inRange, _⟩ := List.getElem?_eq_some_iff.mp here
      rw [forward]
      cases behind : links.next node with
      | none =>
          rw [behind] at onward
          have ended := List.getElem?_eq_none_iff.mp onward.symm
          rw [show min (index + (count + 1)) (nodes.length - 1) = index by omega]
          exact here
      | some next =>
          rw [behind] at onward
          rw [show index + (count + 1) = index + 1 + count by omega]
          exact ih onward.symm

/-! ## Adding a node -/

variable [DecidableEq α]

/-- A new node behind the one the list ended with, if there was one. -/
def append (links : Links α) (current : Option α) (new : α) : Links α where
  next node := if node = new then none else if some node = current then some new
    else links.next node
  previous node := if node = new then current else links.previous node

/-- With a node that was not there before, the list is longer by that one. -/
theorem Chain.append (chain : links.Chain first nodes) {new : α} (fresh : new ∉ nodes) :
    (links.append nodes[nodes.length - 1]? new).Chain
      (if nodes[nodes.length - 1]? = none then some new else first) (nodes ++ [new]) := by
  have other : ∀ {index : Nat} {node : α}, nodes[index]? = some node → node ≠ new := by
    rintro index node here rfl
    exact fresh (List.mem_of_getElem? here)
  have split : ∀ {index : Nat} {node : α}, (nodes ++ [new])[index]? = some node →
      nodes[index]? = some node ∨ index = nodes.length ∧ node = new := by
    intro index node here
    by_cases inside : index < nodes.length
    · rw [List.getElem?_append_left inside] at here
      exact .inl here
    · rw [List.getElem?_append_right (by omega)] at here
      obtain ⟨bounded, same⟩ := List.getElem?_eq_some_iff.mp here
      have single : index - nodes.length = 0 := by simpa using bounded
      simp only [single, List.getElem_cons_zero] at same
      exact .inr ⟨by omega, same.symm⟩
  have before : ∀ {index : Nat}, index < nodes.length →
      (nodes ++ [new])[index]? = nodes[index]? := List.getElem?_append_left
  have bounded : ∀ {index : Nat} {node : α}, nodes[index]? = some node → index < nodes.length :=
    fun here => (List.getElem?_eq_some_iff.mp here).1
  refine ⟨?_, ?_, ?_, ?_, ?_⟩
  · simpa [List.nodup_append] using ⟨chain.nodup, fun _ member same => fresh (same ▸ member)⟩
  · rw [chain.head]
    cases nodes with
    | nil => rfl
    | cons node rest => simp
  · intro index node here
    rcases split here with inside | ⟨rfl, rfl⟩
    · by_cases final : index = nodes.length - 1
      · have ended : nodes[nodes.length - 1]? = some node := final ▸ inside
        have behind : index + 1 = nodes.length := by
          have inRange := bounded inside
          omega
        simp [Links.append, other inside, ended, behind]
      · have onward : some node ≠ nodes[nodes.length - 1]? :=
          fun same => final (chain.index_unique inside same.symm)
        have inRange := bounded inside
        simp only [Links.append, if_neg (other inside), if_neg onward]
        rw [chain.next inside, before (by omega)]
    · simp [Links.append]
  · intro node here
    rcases split here with inside | ⟨empty, rfl⟩
    · simp only [Links.append, if_neg (other inside)]
      exact chain.start inside
    · simp [Links.append, List.length_eq_zero_iff.mp empty.symm]
  · intro index node here
    rcases split here with inside | ⟨final, rfl⟩
    · have inRange := bounded inside
      simp only [Links.append, if_neg (other inside)]
      rw [chain.previous inside, before (by omega)]
    · have same : nodes.length - 1 = index := by omega
      simp only [Links.append, if_true, same]
      rw [before (by omega)]

end Links

/-! ## The last of its kind -/

section IsLast

variable {β : Type u} {marked : β → Bool} {entry : β} {entries : List β}

/-- Entry `k` is the last one that is marked. -/
structure IsLast (marked : β → Bool) (entries : List β) (k : Nat) : Prop where
  isMarked : ∃ entry, entries[k]? = some entry ∧ marked entry = true
  last : ∀ {j entry}, k < j → entries[j]? = some entry → marked entry = false

theorem isLast_zero : IsLast marked (entry :: entries) 0 ↔
    marked entry = true ∧ ∀ other ∈ entries, marked other = false := by
  constructor
  · rintro ⟨⟨_, here, isMarked⟩, last⟩
    injection here with same
    subst same
    refine ⟨isMarked, fun other member => ?_⟩
    obtain ⟨j, there⟩ := List.mem_iff_getElem?.mp member
    exact last (Nat.succ_pos j) there
  · rintro ⟨isMarked, none⟩
    refine ⟨⟨entry, rfl, isMarked⟩, ?_⟩
    intro j other behind there
    obtain ⟨j, rfl⟩ : ∃ before, j = before + 1 := ⟨j - 1, by omega⟩
    exact none other (List.mem_of_getElem? there)

theorem isLast_succ {k : Nat} :
    IsLast marked (entry :: entries) (k + 1) ↔ IsLast marked entries k := by
  constructor
  · rintro ⟨isMarked, last⟩
    exact ⟨isMarked, fun behind there => last (Nat.succ_lt_succ behind) there⟩
  · rintro ⟨isMarked, last⟩
    refine ⟨isMarked, ?_⟩
    intro j other behind there
    obtain ⟨j, rfl⟩ : ∃ before, j = before + 1 := ⟨j - 1, by omega⟩
    exact last (Nat.lt_of_succ_lt_succ behind) there

/-- A search that keeps the number of the last marked entry, starting from `number`. -/
theorem isLast_cons_iff {number item : Nat} {found : Option Nat} :
    ((∃ k, item = number + 1 + k ∧ IsLast marked entries k) ∨
      (if marked entry then some number else found) = some item ∧
        ∀ other ∈ entries, marked other = false) ↔
    (∃ k, item = number + k ∧ IsLast marked (entry :: entries) k) ∨
      found = some item ∧ ∀ other ∈ entry :: entries, marked other = false := by
  constructor
  · rintro (⟨k, rfl, last⟩ | ⟨kept, none⟩)
    · exact .inl ⟨k + 1, by omega, isLast_succ.mpr last⟩
    · split at kept
      · rename_i isMarked
        injection kept with same
        exact .inl ⟨0, same.symm, isLast_zero.mpr ⟨isMarked, none⟩⟩
      · rename_i unmarked
        exact .inr ⟨kept, List.forall_mem_cons.mpr ⟨by simpa using unmarked, none⟩⟩
  · rintro (⟨k, rfl, last⟩ | ⟨kept, none⟩)
    · cases k with
      | zero =>
          obtain ⟨isMarked, none⟩ := isLast_zero.mp last
          exact .inr ⟨if_pos isMarked, none⟩
      | succ k => exact .inl ⟨k, by omega, isLast_succ.mp last⟩
    · have unmarked := none entry List.mem_cons_self
      refine .inr ⟨?_, fun other member => none other (List.mem_cons_of_mem _ member)⟩
      rw [unmarked]
      exact kept

/-- Where all of a part are marked and none behind it, the last is the end of the part. -/
theorem isLast_append_iff {front part tail : List β} (nonempty : part ≠ [])
    (all : ∀ entry ∈ part, marked entry = true) (none : ∀ entry ∈ tail, marked entry = false)
    {k : Nat} : IsLast marked (front ++ (part ++ tail)) k ↔
      k + 1 = front.length + part.length := by
  have positive := List.length_pos_iff.mpr nonempty
  have atEnd : IsLast marked (front ++ (part ++ tail)) (front.length + part.length - 1) := by
    have inside : front.length + part.length - 1 - front.length < part.length := by omega
    refine ⟨⟨part[part.length - 1], ?_, all _ (List.getElem_mem _)⟩, ?_⟩
    · rw [List.getElem?_append_right (by omega), List.getElem?_append_left inside]
      rw [show front.length + part.length - 1 - front.length = part.length - 1 by omega]
      exact List.getElem?_eq_getElem (by omega)
    · intro j entry behind there
      rw [List.getElem?_append_right (by omega), List.getElem?_append_right (by omega)] at there
      exact none entry (List.mem_of_getElem? there)
  constructor
  · rintro ⟨⟨entry, here, isMarked⟩, last⟩
    obtain ⟨⟨ending, there, endMarked⟩, lastEnd⟩ := atEnd
    rcases Nat.lt_trichotomy k (front.length + part.length - 1) with before | same | behind
    · rw [last before there] at endMarked
      cases endMarked
    · omega
    · rw [lastEnd behind here] at isMarked
      cases isMarked
  · intro place
    rwa [show k = front.length + part.length - 1 by omega]

end IsLast

end Cromwell.Std
