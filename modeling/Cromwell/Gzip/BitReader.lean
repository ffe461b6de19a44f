import Cromwell.Gzip.Gunzip

/-!
# The bit buffer

The buffer holds the bits of the input between a position and the byte that is read
next. Reading moves bytes into it and dropping bits moves the position on; nothing else
changes, so what the decoder does with the bits can be said of positions in the input.
-/

namespace Cromwell.Gzip

open Cromwell.Std Program

/-- The buffer stands at a bit of the input. -/
structure ReadsAt (s : State) (position : Nat) : Prop where
  opened : s.insize = s.inputLen
  place : 8 * s.inptr = position + s.bk
  buffer : s.bb = fieldAt s.inputData position s.bk
  small : s.bk ≤ 23

/-- The state without what reading bits changes. -/
def State.unread (s : State) : State := { s with inptr := 0, bb := 0, bk := 0 }

section Unread

variable {s s' : State} (same : s'.unread = s.unread)

include same

theorem inputData_of_unread : s'.inputData = s.inputData := by
  have field := congrArg State.inputData same
  exact field

theorem inputLen_of_unread : s'.inputLen = s.inputLen := by
  have field := congrArg State.inputLen same
  exact field

theorem insize_of_unread : s'.insize = s.insize := by
  have field := congrArg State.insize same
  exact field

theorem tables_of_unread : s'.tables = s.tables := by
  have field := congrArg State.tables same
  exact field

theorem window_of_unread : s'.window = s.window := by
  have field := congrArg State.window same
  exact field

theorem outcnt_of_unread : s'.outcnt = s.outcnt := by
  have field := congrArg State.outcnt same
  exact field

theorem output_of_unread : s'.output = s.output := by
  have field := congrArg State.output same
  exact field

end Unread

section Bits

variable {s : State} {position n : Nat}

theorem maskBits_eq (small : n ≤ 16) : maskBits.getD n 0 = 2 ^ n - 1 := by
  have all : ∀ k ≤ 16, maskBits.getD k 0 = 2 ^ k - 1 := by decide
  exact all n small

/-- A byte joins the buffer. -/
theorem ReadsAt.byte (reads : ReadsAt s position) (room : s.bk ≤ 15) :
    ReadsAt { s with
      inptr := s.inptr + 1
      bb := (s.bb ||| (s.inputData s.inptr).toNat <<< s.bk) % 2 ^ 32
      bk := s.bk + 8 } position := by
  have below : s.bb < 2 ^ s.bk := by
    rw [reads.buffer]
    exact fieldAt_lt position s.bk
  have byteBelow := (s.inputData s.inptr).toNat_lt
  have joined : s.bb ||| (s.inputData s.inptr).toNat <<< s.bk =
      s.bb + 2 ^ s.bk * (s.inputData s.inptr).toNat := by
    rw [Nat.lor_comm, ← Nat.shiftLeft_add_eq_or_of_lt below, Nat.shiftLeft_eq]
    ring
  have next : fieldAt s.inputData (position + s.bk) 8 = (s.inputData s.inptr).toNat := by
    rw [← reads.place, fieldAt_byte]
  have field : s.bb + 2 ^ s.bk * (s.inputData s.inptr).toNat =
      fieldAt s.inputData position (s.bk + 8) := by
    rw [fieldAt_add, next, reads.buffer]
  have bound : fieldAt s.inputData position (s.bk + 8) < 2 ^ 32 :=
    lt_of_lt_of_le (fieldAt_lt position _) (Nat.pow_le_pow_right (by omega) (by omega))
  have place := reads.place
  refine ⟨reads.opened, ?_, ?_, ?_⟩
  · dsimp only
    omega
  · dsimp only
    rw [joined, field, Nat.mod_eq_of_lt bound]
  · dsimp only
    omega

/-- `NEEDBITS(n)` moves bytes into the buffer until it holds `n` bits. -/
theorem needBits_reads (reads : ReadsAt s position) (small : n ≤ 16)
    (enough : position + n ≤ 8 * s.inputLen) :
    (needBits n).Ensures s (fun _ => False) fun _ after =>
      ReadsAt after position ∧ n ≤ after.bk ∧ after.unread = s.unread := by
  apply loop_ensures fun fuel _ state =>
    ReadsAt state position ∧ state.unread = s.unread ∧ n < state.bk + fuel ∧ 0 < fuel
  · rintro _ state ⟨_, _, _, positive⟩
    exact Nat.lt_irrefl 0 positive
  · rintro fuel _ state ⟨reads, same, measure, -⟩
    unfold needByte
    rw [ensures_bind, ensures_look, ensures_ite]
    constructor
    · intro less
      have more : decide (state.inptr < state.insize) = true := by
        have place := reads.place
        rw [decide_eq_true_iff, insize_of_unread same, ← insize_of_unread same, reads.opened,
          inputLen_of_unread same]
        omega
      unfold getByte
      simp only [ensures_bind, ensures_look, more, if_true]
      exact ⟨reads.byte (by omega), same, by dsimp only; omega, by omega⟩
    · intro enough
      exact ⟨reads, Nat.le_of_not_lt enough, same⟩
  · exact ⟨reads, rfl, by omega, by omega⟩

/-- `DUMPBITS(n)` moves the position on. -/
theorem dumpBits_reads (reads : ReadsAt s position) (held : n ≤ s.bk) :
    (dumpBits n).Ensures s (fun _ => False) fun _ after =>
      ReadsAt after (position + n) ∧ after.bk = s.bk - n ∧ after.unread = s.unread := by
  have small := reads.small
  have place := reads.place
  have left : (s.bk + 2 ^ 32 - n) % 2 ^ 32 = s.bk - n := by
    rw [show s.bk + 2 ^ 32 - n = s.bk - n + 2 ^ 32 by omega, Nat.add_mod_right]
    exact Nat.mod_eq_of_lt (by omega)
  unfold dumpBits
  rw [ensures_alter]
  refine ⟨⟨reads.opened, ?_, ?_, ?_⟩, left, rfl⟩
  · dsimp only
    omega
  · dsimp only
    rw [left, reads.buffer, Nat.shiftRight_eq_div_pow, fieldAt_div position held]
  · dsimp only
    omega

/-- `b & mask_bits[n]` is the field at the position. -/
theorem peekBits_reads (reads : ReadsAt s position) (small : n ≤ 16) (held : n ≤ s.bk) :
    (peekBits n).Ensures s (fun _ => False) fun value after =>
      value = fieldAt s.inputData position n ∧ after = s := by
  unfold peekBits
  rw [ensures_look, maskBits_eq small, Nat.and_two_pow_sub_one_eq_mod, reads.buffer,
    fieldAt_mod position held]
  exact ⟨rfl, rfl⟩

/-- The next `n` bits. -/
theorem takeBits_reads (reads : ReadsAt s position) (small : n ≤ 16)
    (enough : position + n ≤ 8 * s.inputLen) :
    (takeBits n).Ensures s (fun _ => False) fun value after =>
      value = fieldAt s.inputData position n ∧ ReadsAt after (position + n) ∧
        after.unread = s.unread := by
  apply (needBits_reads reads small enough).andThen
  rintro _ s₁ ⟨reads₁, held, same₁⟩
  apply (peekBits_reads reads₁ small held).andThen
  rintro _ s₂ ⟨rfl, rfl⟩
  apply (dumpBits_reads reads₁ held).andThen
  rintro _ s₃ ⟨reads₃, -, same₃⟩
  rw [ensures_pure, inputData_of_unread same₁]
  exact ⟨rfl, reads₃, same₃.trans same₁⟩

end Bits

end Cromwell.Gzip
