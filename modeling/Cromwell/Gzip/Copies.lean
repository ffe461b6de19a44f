import Cromwell.Gzip.BitReader

/-!
# The window as a history

The window holds the last 32 Kbytes of a history: what it held at the start, and then
every byte put out. The part that has been flushed is the output. A copy repeats the
history from some distance back, whichever way `inflate_codes` cuts it into pieces and
copies them.
-/

namespace Cromwell.Gzip

open Cromwell.Std Program

/-- The window and the output belong to a history that begins with what the window held at
the start; a whole number of windows has been flushed. -/
structure Written (history : List Byte) (flushed : Nat) (s : State) : Prop where
  holds : WindowHolds wsize s.window history
  length : history.length = wsize + flushed + s.outcnt
  room : s.outcnt ≤ wsize
  aligned : wsize ∣ flushed
  output : s.output = (history.take (wsize + flushed)).drop wsize

/-- The window is not full. -/
def Ready (history : List Byte) (s : State) : Prop :=
  ∃ flushed, Written history flushed s ∧ s.outcnt < wsize

/-- The state without what putting bytes out changes. -/
def State.unwritten (s : State) : State :=
  { s with window := fun _ => 0, outcnt := 0, output := [], crc := 0, bytesOut := 0 }

section Frame

variable {s s' : State}

section Unwritten

variable (same : s'.unwritten = s.unwritten)

include same

/-- What reads bits does not see the window. -/
theorem ReadsAt.of_unwritten {position : Nat} (reads : ReadsAt s position) :
    ReadsAt s' position := by
  have insize : s.unwritten.insize = s.unwritten.inputLen := reads.opened
  have place : 8 * s.unwritten.inptr = position + s.unwritten.bk := reads.place
  have buffer : s.unwritten.bb = fieldAt s.unwritten.inputData position s.unwritten.bk :=
    reads.buffer
  have small : s.unwritten.bk ≤ 23 := reads.small
  rw [← same] at insize place buffer small
  exact ⟨insize, place, buffer, small⟩

end Unwritten

/-- What puts bytes out does not see the bit buffer. -/
theorem Ready.of_unread {history : List Byte} (ready : Ready history s)
    (same : s'.unread = s.unread) : Ready history s' := by
  obtain ⟨flushed, written, short⟩ := ready
  have window : s'.window = s.window := window_of_unread same
  have outcnt : s'.outcnt = s.outcnt := outcnt_of_unread same
  have output : s'.output = s.output := output_of_unread same
  refine ⟨flushed, ⟨?_, ?_, ?_, written.aligned, ?_⟩, ?_⟩
  · rw [window]
    exact written.holds
  · rw [outcnt, written.length]
  · rw [outcnt]
    exact written.room
  · rw [output, written.output]
  · rw [outcnt]
    exact short

end Frame

section Output

variable {history : List Byte} {flushed : Nat} {s : State}

/-- What has not been flushed is the beginning of the window. -/
theorem Written.pending (written : Written history flushed s) :
    s.window.bytes 0 s.outcnt = history.drop (wsize + flushed) := by
  have length := written.length
  have room := written.room
  apply List.ext_getElem
  · rw [Memory.length_bytes, List.length_drop]
    omega
  · intro k left right
    rw [Memory.length_bytes] at left
    have inside : wsize + flushed + k < history.length := by omega
    have place : (wsize + flushed + k) % wsize = k := by
      obtain ⟨windows, rfl⟩ := written.aligned
      rw [Nat.add_assoc, Nat.add_mod_left, Nat.mul_add_mod]
      exact Nat.mod_eq_of_lt (by omega)
    have held := written.holds (wsize + flushed + k) inside (by omega)
    rw [place] at held
    rw [Memory.getElem_bytes, Nat.zero_add, held, List.getElem_drop]

/-- Flushing completes the output. -/
theorem flushWindow_output (written : Written history flushed s) :
    flushWindow.Ensures s (fun _ => False) fun _ after =>
      after.output = history.drop wsize ∧ after.outcnt = 0 ∧ after.window = s.window ∧
        after.unwritten = s.unwritten := by
  unfold flushWindow
  rw [ensures_alter]
  refine ⟨?_, rfl, rfl, rfl⟩
  dsimp only
  have split := List.take_append_drop (wsize + flushed) history
  have length := written.length
  rw [written.output, written.pending]
  conv => rhs; rw [← split]
  rw [List.drop_append_of_le_length (by rw [List.length_take]; omega)]

/-- The window is flushed when it is full. -/
theorem flushFull_ready (written : Written history flushed s) :
    flushFull.Ensures s (fun _ => False) fun _ after =>
      Ready history after ∧ after.unwritten = s.unwritten := by
  unfold flushFull
  rw [ensures_bind, ensures_look, ensures_ite]
  constructor
  · intro full
    apply (flushWindow_output written).mono (fun _ held => held)
    rintro _ after ⟨output, outcnt, window, same⟩
    have length := written.length
    refine ⟨⟨flushed + wsize, ⟨?_, by omega, by omega, ?_, ?_⟩, ?_⟩, same⟩
    · rw [window]
      exact written.holds
    · exact Nat.dvd_add written.aligned (Nat.dvd_refl wsize)
    · rw [output, List.take_of_length_le (by omega)]
    · rw [outcnt]
      decide
  · intro short
    have room := written.room
    exact ⟨⟨flushed, written, Nat.lt_of_le_of_ne room short⟩, rfl⟩

/-- A longer history in the window. -/
theorem Written.extend {more : List Byte} {window : Memory} {count : Nat}
    (written : Written history flushed s) (holds : WindowHolds wsize window (history ++ more))
    (length : more.length = count) (room : s.outcnt + count ≤ wsize) :
    Written (history ++ more) flushed { s with window, outcnt := s.outcnt + count } where
  holds := holds
  length := by
    rw [List.length_append, written.length, length, Nat.add_assoc]
  room := room
  aligned := written.aligned
  output := by
    have total := written.length
    rw [List.take_append_of_le_length (by omega)]
    exact written.output

theorem Written.place (written : Written history flushed s) (short : s.outcnt < wsize) :
    history.length % wsize = s.outcnt := by
  obtain ⟨windows, rfl⟩ := written.aligned
  rw [written.length, Nat.add_assoc, Nat.add_mod_left, Nat.mul_add_mod]
  exact Nat.mod_eq_of_lt short

/-- A byte is put out. -/
theorem putByte_ready (ready : Ready history s) (byte : Byte) :
    (putByte byte).Ensures s (fun _ => False) fun _ after =>
      Ready (history ++ [byte]) after ∧ after.unwritten = s.unwritten := by
  obtain ⟨flushed, written, short⟩ := ready
  have pushed := written.holds.push byte
  rw [written.place short] at pushed
  unfold putByte
  rw [ensures_bind, ensures_alter]
  exact flushFull_ready (written.extend pushed rfl short)

end Output

/-! ## Copies -/

section Copy

variable {w d n : Nat}

/-- The pieces are never copied in a way that differs from copying byte by byte. -/
theorem copyPiece_eq (window : Memory) {e : Nat} (wInside : w < wsize) (dInside : d < wsize) :
    copyPiece w d e window = copyForward w d e window := by
  unfold copyPiece wsize at *
  split
  · next apart =>
    apply memcpy_eq_copyForward
    omega
  · rfl

theorem pieceLength_le (wInside : w < wsize) (dInside : d < wsize) :
    w + pieceLength w d n ≤ wsize ∧ d + pieceLength w d n ≤ wsize ∧ pieceLength w d n ≤ n := by
  unfold pieceLength
  dsimp only
  split <;> split <;> omega

theorem pieceLength_pos (wInside : w < wsize) (dInside : d < wsize) (more : 0 < n) :
    0 < pieceLength w d n := by
  unfold pieceLength
  dsimp only
  split <;> split <;> omega

variable {history : List Byte} {s : State} {distance : Nat}

/-- Where the copy goes on. -/
def Follows (distance d : Nat) (history : List Byte) : Prop :=
  d % wsize = (history.length + wsize - distance) % wsize

theorem Follows.move (follows : Follows distance d history) (old : distance ≤ history.length)
    (count : Nat) : Follows distance (d + count) (copyBack distance count history) := by
  unfold Follows at *
  rw [length_copyBack, show history.length + count + wsize - distance =
    history.length + wsize - distance + count by omega, Nat.add_mod, follows, ← Nat.add_mod]

/-- A piece is copied. -/
theorem copyPass_ready (ready : Ready history s) (positive : 0 < distance)
    (near : distance ≤ wsize) (follows : Follows distance d history) (more : 0 < n) :
    (copyPass (n, d)).Ensures s (fun _ => False) fun ended after =>
      ∃ count, 0 < count ∧ count ≤ n ∧ Ready (copyBack distance count history) after ∧
        after.unwritten = s.unwritten ∧
        ended.Ends
          (fun next => next = (n - count, d % wsize + count) ∧ n - count ≠ 0)
          fun _ => count = n := by
  obtain ⟨flushed, written, short⟩ := ready
  have source : d &&& (wsize - 1) = d % wsize := Nat.and_two_pow_sub_one_eq_mod d 15
  have dInside : d % wsize < wsize := Nat.mod_lt d (by decide)
  obtain ⟨wRoom, dRoom, below⟩ := @pieceLength_le s.outcnt (d % wsize) n short dInside
  have some := pieceLength_pos short dInside more
  have length := written.length
  unfold copyPass
  simp only [ensures_bind, ensures_look, ensures_alter, source]
  generalize pieceLength s.outcnt (d % wsize) n = count at *
  have copied := written.holds.copy positive near (by omega) (written.place short) follows.symm
    wRoom dRoom
  obtain ⟨added, grown⟩ := prefix_copyBack distance count history
  have addedLength : added.length = count := by
    have total := congrArg List.length grown
    rw [List.length_append, length_copyBack] at total
    omega
  rw [← grown, ← copyPiece_eq s.window short dInside] at copied
  have extended := written.extend copied addedLength wRoom
  rw [grown] at extended
  apply (flushFull_ready extended).mono (fun _ held => held)
  rintro _ after ⟨ready, same⟩
  rw [ensures_ite]
  constructor
  · intro left
    exact ⟨count, some, below, ready, same, rfl, left⟩
  · intro done
    exact ⟨count, some, below, ready, same, show count = n by omega⟩

/-- `n` bytes are copied from some distance back. -/
theorem copyBytes_ready {fuel : Nat} (ready : Ready history s) (positive : 0 < distance)
    (near : distance ≤ wsize) (follows : Follows distance d history) (more : 0 < n)
    (enough : n ≤ fuel) :
    (copyBytes fuel n d).Ensures s (fun _ => False) fun _ after =>
      Ready (copyBack distance n history) after ∧ after.unwritten = s.unwritten := by
  apply loop_ensures fun left copy state => ∃ done, done + copy.1 = n ∧ 0 < copy.1 ∧
    copy.1 ≤ left ∧ Ready (copyBack distance done history) state ∧
    Follows distance copy.2 (copyBack distance done history) ∧ state.unwritten = s.unwritten
  · rintro copy state ⟨done, -, some, bound, -⟩
    omega
  · rintro left ⟨n', d'⟩ state ⟨done, total, some, bound, ready, follows, same⟩
    apply (copyPass_ready ready positive near follows some).mono (fun _ held => held)
    rintro ended after ⟨count, countPos, countLe, ready', same', ends⟩
    rw [← copyBack_add] at ready'
    cases ended with
    | next copy =>
        obtain ⟨rfl, left⟩ := ends
        have old : distance ≤ (copyBack distance done history).length := by
          obtain ⟨flushed, written, -⟩ := ready
          have length := written.length
          omega
        have reduced : Follows distance (d' % wsize) (copyBack distance done history) := by
          unfold Follows
          rw [Nat.mod_mod]
          exact follows
        have moved := reduced.move old count
        rw [← copyBack_add] at moved
        exact ⟨done + count, by dsimp only at *; omega, by dsimp only; omega,
          by dsimp only at *; omega, ready', moved, same'.trans same⟩
    | leave result =>
        have all : count = n' := ends
        rw [← total, ← all]
        exact ⟨ready', same'.trans same⟩
  · exact ⟨0, by simp, more, enough, ready, follows, rfl⟩

end Copy

end Cromwell.Gzip
