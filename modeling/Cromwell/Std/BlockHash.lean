import Mathlib.Data.List.Basic

/-!
# Iterated block hashes

A hash of this kind keeps a state and a partial block. Input is collected until
a block is full, which is then compressed into the state. How the input is cut
into pieces does not matter, and the length of the partial block is the length of
the input modulo the block size. Padding appends whatever completes the last
block.
-/

namespace Cromwell.Std

universe u v

/-- A state and the input collected since the last full block. -/
@[ext] structure Absorbing (σ : Type u) (α : Type v) where
  state : σ
  pending : List α

namespace Absorbing

variable {σ : Type u} {α : Type v} (size : Nat) (compress : σ → List α → σ)

/-- Nothing collected yet. -/
def fresh (state : σ) : Absorbing σ α := { state, pending := [] }

/-- Take one item; a full block is compressed. -/
def absorbOne (hash : Absorbing σ α) (item : α) : Absorbing σ α :=
  if hash.pending.length + 1 = size then
    fresh (compress hash.state (hash.pending ++ [item]))
  else
    { hash with pending := hash.pending ++ [item] }

/-- Take a list of items. -/
def absorb (hash : Absorbing σ α) (items : List α) : Absorbing σ α :=
  items.foldl (absorbOne size compress) hash

variable {size} {compress} {hash : Absorbing σ α}

@[simp] theorem absorb_nil : hash.absorb size compress [] = hash := rfl

@[simp] theorem absorb_cons (item : α) (items : List α) :
    hash.absorb size compress (item :: items) =
      (hash.absorbOne size compress item).absorb size compress items := rfl

/-- Input may be cut anywhere. -/
theorem absorb_append (first second : List α) :
    hash.absorb size compress (first ++ second) =
      (hash.absorb size compress first).absorb size compress second :=
  List.foldl_append

theorem length_absorbOne (compress : σ → List α → σ) (item : α)
    (room : hash.pending.length < size) :
    (hash.absorbOne size compress item).pending.length = (hash.pending.length + 1) % size := by
  unfold absorbOne
  split
  · next full => simp [full, fresh]
  · next partBlock =>
    have short : hash.pending.length + 1 < size := by omega
    simp [Nat.mod_eq_of_lt short]

/-- The partial block is what is left of the input after its full blocks. -/
theorem length_absorb (items : List α) (room : hash.pending.length < size) :
    (hash.absorb size compress items).pending.length =
      (hash.pending.length + items.length) % size := by
  induction items generalizing hash with
  | nil => simp [Nat.mod_eq_of_lt room]
  | cons item items ih =>
      have step := length_absorbOne compress item room
      have positive : 0 < size := by omega
      have next : (hash.absorbOne size compress item).pending.length < size := by
        rw [step]
        exact Nat.mod_lt _ positive
      rw [absorb_cons, ih next, step, List.length_cons, Nat.mod_add_mod]
      congr 1
      omega

/-- The partial block never fills up. -/
theorem length_absorb_lt (items : List α) (room : hash.pending.length < size) :
    (hash.absorb size compress items).pending.length < size := by
  rw [length_absorb items room]
  exact Nat.mod_lt _ (by omega)

end Absorbing

end Cromwell.Std
