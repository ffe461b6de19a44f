import Cromwell.Std.PermutedWords

/-!
# RC4

The stream cipher of `rc4.c`. A buffer may be processed in pieces with the key carried from
one piece to the next. What it computes is the cipher of permuted words for bytes: the vector
holds a permutation, the key schedule makes the one that belongs to the key, and the buffer is
masked with the stream that this gives.
-/

namespace Cromwell.Crypt

open Cromwell.Std

/-- `rc4_key`. -/
structure Rc4Key where
  state : Vector Byte 256
  x : Byte
  y : Byte
  deriving Repr, DecidableEq

/-- `state[index]`. -/
def stateAt (state : Vector Byte 256) (index : Byte) : Byte :=
  state.get ⟨index.toNat, index.toNat_lt⟩

/-- `swap_byte(&state[a], &state[b])`. -/
def swapByte (state : Vector Byte 256) (a b : Byte) : Vector Byte 256 :=
  state.swap a.toNat b.toNat a.toNat_lt b.toNat_lt

/-- The loop variables of the key schedule. -/
structure KeySchedule where
  state : Vector Byte 256
  index1 : Byte
  index2 : Byte

/-- One pass of the key schedule. -/
def scheduleStep (keyData : List Byte) (schedule : KeySchedule) (counter : Nat) : KeySchedule :=
  let index2 := keyData.getD schedule.index1.toNat 0 + stateAt schedule.state (.ofNat counter) +
    schedule.index2
  { state := swapByte schedule.state (.ofNat counter) index2
    index1 := .ofNat ((schedule.index1.toNat + 1) % keyData.length)
    index2 }

/-- `rc4_prepare_key`. -/
def rc4PrepareKey (keyData : List Byte) : Rc4Key :=
  let schedule := (List.range 256).foldl (scheduleStep keyData)
    { state := Vector.ofFn fun counter : Fin 256 => .ofNat counter, index1 := 0, index2 := 0 }
  { state := schedule.state, x := 0, y := 0 }

/-- One pass of `rc4_crypt`: the key it leaves and the byte of the key stream. -/
def rc4Next (key : Rc4Key) : Rc4Key × Byte :=
  let x := key.x + 1
  let y := stateAt key.state x + key.y
  let state := swapByte key.state x y
  let xorIndex := stateAt state x + stateAt state y
  ({ state, x, y }, stateAt state xorIndex)

/-- `rc4_crypt`: the buffer and the key it leaves. -/
def rc4Crypt : List Byte → Rc4Key → List Byte × Rc4Key
  | [], key => ([], key)
  | byte :: buffer, key =>
    let (key, stream) := rc4Next key
    let (rest, key) := rc4Crypt buffer key
    ((byte ^^^ stream) :: rest, key)

@[simp] theorem rc4Crypt_nil (key : Rc4Key) : rc4Crypt [] key = ([], key) := rfl

theorem rc4Crypt_cons (byte : Byte) (buffer : List Byte) (key : Rc4Key) :
    rc4Crypt (byte :: buffer) key =
      ((byte ^^^ (rc4Next key).2) :: (rc4Crypt buffer (rc4Next key).1).1,
        (rc4Crypt buffer (rc4Next key).1).2) := rfl

/-- A buffer may be processed in two pieces. -/
theorem rc4Crypt_append (first second : List Byte) (key : Rc4Key) :
    rc4Crypt (first ++ second) key =
      ((rc4Crypt first key).1 ++ (rc4Crypt second (rc4Crypt first key).2).1,
        (rc4Crypt second (rc4Crypt first key).2).2) := by
  induction first generalizing key with
  | nil => rfl
  | cons byte first ih => simp [rc4Crypt_cons, ih]

/-! ## What the code computes -/

/-- The cipher of permuted words with bytes for words. -/
def rc4 (keyData data : List Byte) : List Byte :=
  masked (fun position => .ofFin
    ((PermutedWords.keyed (keyData.map UInt8.toFin)).stream position)) data

@[simp] theorem length_rc4 (keyData data : List Byte) :
    (rc4 keyData data).length = data.length :=
  length_masked _ _

/-- Decryption undoes encryption. -/
theorem rc4_rc4 (keyData data : List Byte) : rc4 keyData (rc4 keyData data) = data :=
  masked_masked _ _

/-- The vector holds the permutation. -/
def HoldsWords (state : Vector Byte 256) (words : Equiv.Perm (Fin 256)) : Prop :=
  ∀ index, stateAt state index = .ofFin (words index.toFin)

theorem stateAt_swapByte (state : Vector Byte 256) (a b index : Byte) :
    stateAt (swapByte state a b) index =
      if index = a then stateAt state b else if index = b then stateAt state a
        else stateAt state index := by
  refine (Vector.getElem_swap a.toNat_lt b.toNat_lt index.toNat_lt).trans ?_
  simp only [UInt8.toNat_inj]
  rfl

/-- An exchange of bytes is an exchange of words. -/
theorem HoldsWords.swapByte {state : Vector Byte 256} {words : Equiv.Perm (Fin 256)}
    (held : HoldsWords state words) (a b : Byte) :
    HoldsWords (swapByte state a b) (words * Equiv.swap a.toFin b.toFin) := by
  intro index
  rw [stateAt_swapByte, held a, held b, held index, Equiv.Perm.mul_apply]
  by_cases first : index = a
  · rw [if_pos first, first, Equiv.swap_apply_left]
  · rw [if_neg first]
    by_cases second : index = b
    · rw [if_pos second, second, Equiv.swap_apply_right]
    · rw [if_neg second, Equiv.swap_apply_of_ne_of_ne (UInt8.toFin_inj.not.mpr first)
        (UInt8.toFin_inj.not.mpr second)]

/-! ### The key schedule -/

/-- What the passes of the key schedule so far have made. -/
structure Scheduled (keyData : List Byte) (steps : Nat) (schedule : KeySchedule) : Prop where
  held : HoldsWords schedule.state
    (keySchedule (fun step => (keyData.map UInt8.toFin).getD (step % keyData.length) 0) steps).1
  index1 : schedule.index1.toNat = steps % keyData.length
  index2 : schedule.index2.toFin =
    (keySchedule (fun step => (keyData.map UInt8.toFin).getD (step % keyData.length) 0) steps).2

/-- One more pass. -/
theorem Scheduled.step {keyData : List Byte} {steps : Nat} {schedule : KeySchedule}
    (scheduled : Scheduled keyData steps schedule) (some : 0 < keyData.length)
    (short : keyData.length ≤ 256) :
    Scheduled keyData (steps + 1) (scheduleStep keyData schedule steps) := by
  have counter : (UInt8.ofNat steps).toFin = Fin.ofNat 256 steps := rfl
  have keyByte : (keyData.getD schedule.index1.toNat 0).toFin =
      (keyData.map UInt8.toFin).getD (steps % keyData.length) 0 := by
    rw [scheduled.index1]
    have inside : steps % keyData.length < keyData.length := Nat.mod_lt _ some
    rw [List.getD_eq_getElem _ _ inside, List.getD_eq_getElem _ _ (by simpa using inside),
      List.getElem_map]
  have index2 : (keyData.getD schedule.index1.toNat 0 +
      stateAt schedule.state (.ofNat steps) + schedule.index2).toFin =
      (keySchedule (fun step => (keyData.map UInt8.toFin).getD (step % keyData.length) 0)
        (steps + 1)).2 := by
    rw [UInt8.add_comm, UInt8.add_comm (keyData.getD _ _), ← UInt8.add_assoc, UInt8.toFin_add,
      UInt8.toFin_add, scheduled.held, UInt8.toFin_ofFin, scheduled.index2, keyByte, counter,
      keySchedule_succ]
  refine ⟨?_, ?_, index2⟩
  · have swapped := scheduled.held.swapByte (.ofNat steps) (keyData.getD schedule.index1.toNat 0 +
      stateAt schedule.state (.ofNat steps) + schedule.index2)
    rw [index2] at swapped
    exact swapped
  · have next : (steps % keyData.length + 1) % keyData.length = (steps + 1) % keyData.length := by
      rw [Nat.mod_add_mod]
    change (UInt8.ofNat ((schedule.index1.toNat + 1) % keyData.length)).toNat = _
    rw [scheduled.index1, next, UInt8.toNat_ofNat_of_lt']
    exact Nat.lt_of_lt_of_le (Nat.mod_lt _ some) short

/-- All passes up to a step. -/
theorem scheduled_foldl {keyData : List Byte} (some : 0 < keyData.length)
    (short : keyData.length ≤ 256) (steps : Nat) :
    Scheduled keyData steps ((List.range steps).foldl (scheduleStep keyData)
      { state := Vector.ofFn fun counter : Fin 256 => .ofNat counter, index1 := 0,
        index2 := 0 }) := by
  induction steps with
  | zero =>
      refine ⟨?_, (Nat.zero_mod _).symm, rfl⟩
      intro index
      have filled : stateAt (Vector.ofFn fun counter : Fin 256 => .ofNat counter) index =
          .ofNat index.toNat := Vector.getElem_ofFn index.toNat_lt
      rw [List.range_zero, List.foldl_nil, filled, UInt8.ofNat_toNat]
      rfl
  | succ steps ih =>
      rw [List.range_succ, List.foldl_append]
      exact ih.step some short

/-! ### The stream -/

/-- The key of the code is a state of the generator. -/
structure Rc4Key.Is (key : Rc4Key) (state : PermutedWords 256) : Prop where
  held : HoldsWords key.state state.words
  x : key.x.toFin = state.i
  y : key.y.toFin = state.j

/-- A prepared key is the state its bytes lead to, for keys that `index1` can count through. -/
theorem rc4PrepareKey_is {keyData : List Byte} (some : 0 < keyData.length)
    (short : keyData.length ≤ 256) :
    (rc4PrepareKey keyData).Is (PermutedWords.keyed (keyData.map UInt8.toFin)) where
  held := by
    rw [PermutedWords.keyed_words, List.length_map]
    exact (scheduled_foldl some short 256).held
  x := rfl
  y := rfl

/-- One pass advances the generator and brings out its word. -/
theorem Rc4Key.Is.next {key : Rc4Key} {state : PermutedWords 256} (is : key.Is state) :
    (rc4Next key).1.Is state.advance ∧ (rc4Next key).2 = .ofFin state.advance.output := by
  have x : (key.x + 1).toFin = state.i + 1 := by
    rw [UInt8.toFin_add, is.x]
    rfl
  have y : (stateAt key.state (key.x + 1) + key.y).toFin =
      state.j + state.words (state.i + 1) := by
    rw [UInt8.add_comm, UInt8.toFin_add, is.held, UInt8.toFin_ofFin, x, is.y]
  have swapped := is.held.swapByte (key.x + 1) (stateAt key.state (key.x + 1) + key.y)
  rw [x, y] at swapped
  have now : (rc4Next key).1.Is state.advance := ⟨swapped, x, y⟩
  refine ⟨now, ?_⟩
  change stateAt (rc4Next key).1.state (stateAt (rc4Next key).1.state (rc4Next key).1.x +
    stateAt (rc4Next key).1.state (rc4Next key).1.y) = _
  rw [now.held, UInt8.toFin_add, now.held, now.held, UInt8.toFin_ofFin, UInt8.toFin_ofFin, now.x,
    now.y]
  rfl

/-- A buffer is masked with the stream from the state of the key on. -/
theorem rc4Crypt_eq_masked {key : Rc4Key} {state : PermutedWords 256} (is : key.Is state)
    (buffer : List Byte) :
    (rc4Crypt buffer key).1 = masked (fun position => .ofFin (state.stream position)) buffer := by
  induction buffer generalizing key state with
  | nil => rfl
  | cons byte buffer ih =>
      obtain ⟨later, word⟩ := is.next
      simp only [rc4Crypt_cons, masked_cons, word, ih later, PermutedWords.stream_zero,
        PermutedWords.stream_succ]

/-- `rc4_prepare_key` and `rc4_crypt` are the cipher. -/
theorem rc4Crypt_prepared {keyData : List Byte} (some : 0 < keyData.length)
    (short : keyData.length ≤ 256) (buffer : List Byte) :
    (rc4Crypt buffer (rc4PrepareKey keyData)).1 = rc4 keyData buffer :=
  rc4Crypt_eq_masked (rc4PrepareKey_is some short) buffer

end Cromwell.Crypt
