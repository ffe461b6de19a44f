import Cromwell.Boot.StartReactOS
import Cromwell.Video.Encoder
import Cromwell.Video.Overlay
import Cromwell.Video.Printk

/-!
# The cursor

`BootVideoChunkedPrint` draws a text line by line and moves the cursor down with each, and
`printk` draws what its buffer holds. What is drawn is the lit pixels of the characters, each
at the place that the cursor in front of the text gives it.
-/

namespace Cromwell.Video

open Cromwell.Std Cromwell.Boot

/-! ## Video modes -/

/-- `m_nVideoModeIndex`. -/
inductive VideoModeIndex
  | mode640x480 | mode640x576 | mode720x576 | mode800x600 | mode1024x576
  deriving Repr, DecidableEq

/-- The part of `CURRENT_VIDEO_MODE_DETAILS` that says where text goes. -/
structure VideoModeDetails where
  width : Long
  height : Long
  xmargin : Long
  ymargin : Long
  deriving Repr, DecidableEq

/-- The mode `BootVgaInitializationKernelNG` sets. -/
def bootVgaMode (avType : XboxAvType) (index : VideoModeIndex) : VideoModeDetails :=
  match avType with
  | .hdtv => ⟨720, 480, 0, 0⟩
  | .vgaSog | .vga => ⟨800, 600, 20, 20⟩
  | _ =>
    match index with
    | .mode640x480 => ⟨640, 480, 0, 0⟩
    | .mode640x576 => ⟨640, 576, 40, 40⟩
    | .mode720x576 => ⟨720, 576, 40, 40⟩
    | .mode800x600 => ⟨800, 600, 20, 20⟩
    | .mode1024x576 => ⟨1024, 576, 20, 20⟩

def ramsize : Nat := 64 * 1024 * 1024

def fbStart : Long := 0xf0000000 ||| BitVec.ofNat 32 (ramsize - fbSize)

/-! ## Printing -/

/-- `VIDEO_CURSOR_POSX`, in bytes, and `VIDEO_CURSOR_POSY`, in lines. -/
structure Cursor where
  posX : Long
  posY : Long
  deriving Repr, DecidableEq

/-- Where `BootVideoClearScreen` leaves the cursor. -/
def clearScreen (vmode : VideoModeDetails) : Cursor := ⟨vmode.xmargin, vmode.ymargin⟩

namespace VideoModeDetails

variable (vmode : VideoModeDetails)

/-- The address of the cursor. -/
def address (cursor : Cursor) : Long :=
  fbStart + cursor.posY * (vmode.width * 4) + cursor.posX

/-- The cursor at the start of the next line of text. -/
def nextLine (cursor : Cursor) : Cursor := ⟨vmode.xmargin <<< 2, cursor.posY + 16⟩

/-- The loop of `BootVideoChunkedPrint`, with what is left of the text at `n`, what is left of
it at `nDone`, and the distance between the two. -/
def chunkedPrintFrom (videoAttr : Long) :
    List Byte → List Byte → Nat → Cursor → List ByteWrite × Cursor
  | [], fromDone, waiting, cursor =>
    if waiting ≠ 0 then
      let (drawn, width) :=
        overlayString (vmode.address cursor) (vmode.width * 4) videoAttr fromDone
      let cursor := { cursor with posX := cursor.posX + width <<< 2 }
      (drawn, if (vmode.width - vmode.xmargin) <<< 2 < cursor.posX then vmode.nextLine cursor
        else cursor)
    else ([], cursor)
  | character :: szBuffer, fromDone, waiting, cursor =>
    if character = 0x0a then
      let (drawn, _) := overlayString (vmode.address cursor) (vmode.width * 4) videoAttr fromDone
      let (others, cursor) :=
        chunkedPrintFrom videoAttr szBuffer szBuffer 0 (vmode.nextLine cursor)
      (drawn ++ others, cursor)
    else chunkedPrintFrom videoAttr szBuffer fromDone (waiting + 1) cursor

def chunkedPrint (videoAttr : Long) (szBuffer : List Byte) (cursor : Cursor) :
    List ByteWrite × Cursor :=
  vmode.chunkedPrintFrom videoAttr szBuffer szBuffer 0 cursor

/-- A call of `printk`, with the colour that is set, the text once it is formatted, and what
the buffer and the stack behind it hold before. -/
structure Call where
  videoAttr : Long
  szBuffer : Memory
  formatted : List Byte

/-- The text that is displayed. -/
def Call.displayed (call : Call) : List Byte := (printk call.szBuffer call.formatted).displayed

/-- Calls of `printk`, one after the other, and what they store on the screen. -/
def printks : List Call → Cursor → List ByteWrite
  | [], _ => []
  | call :: calls, cursor =>
    let (drawn, cursor) := vmode.chunkedPrint call.videoAttr call.displayed cursor
    drawn ++ printks calls cursor

/-! ## Where the lines are placed -/

/-- The lines of a text, each with the cursor in front of it. -/
def lineCursors : Cursor → List (List Byte) → List (Cursor × List Byte)
  | _, [] => []
  | cursor, line :: lines => (cursor, line) :: lineCursors (vmode.nextLine cursor) lines

/-- The characters of a text at their places, from the cursor on. -/
def placed (cursor : Cursor) (szBuffer : List Byte) : List Placed :=
  (vmode.lineCursors cursor (szBuffer.splitOn 0x0a)).flatMap fun line =>
    placedFrom (vmode.address line.1) (vmode.width * 4) false 0 line.2

variable {vmode} {P : Long → Prop} {videoAttr : Long}

theorem placed_line {line : List Byte} (cursor : Cursor) (oneLine : 0x0a ∉ line) :
    vmode.placed cursor line =
      placedFrom (vmode.address cursor) (vmode.width * 4) false 0 line := by
  have whole : line.splitOn 0x0a = [line] := by
    rw [List.splitOn_eq_splitOnP]
    exact List.splitOnP_eq_singleton fun character member =>
      beq_false_of_ne (ne_of_mem_of_not_mem member oneLine)
  simp [placed, whole, lineCursors]

theorem placed_append {line : List Byte} (cursor : Cursor) (oneLine : 0x0a ∉ line)
    (rest : List Byte) :
    vmode.placed cursor (line ++ 0x0a :: rest) =
      placedFrom (vmode.address cursor) (vmode.width * 4) false 0 line ++
        vmode.placed (vmode.nextLine cursor) rest := by
  have split : (line ++ 0x0a :: rest).splitOn 0x0a = line :: rest.splitOn 0x0a := by
    rw [List.splitOn_eq_splitOnP, List.splitOn_eq_splitOnP]
    exact List.splitOnP_append_cons_of_forall_mem (fun character member =>
      beq_false_of_ne (ne_of_mem_of_not_mem member oneLine)) 0x0a (beq_self_eq_true _) rest
  rw [placed, split, lineCursors, List.flatMap_cons, placed]

/-- What is drawn from `n` on, where the line so far has been `shown`. -/
theorem forall_chunkedPrintFrom (ahead shown : List Byte) (cursor : Cursor)
    (oneLine : 0x0a ∉ shown) :
    (∀ write ∈ (vmode.chunkedPrintFrom videoAttr ahead (shown ++ ahead) shown.length cursor).1,
        P write.address) ↔
      ∀ placed ∈ vmode.placed cursor (shown ++ ahead),
        ∀ byte ∈ placed.bytes (vmode.width * 4), P byte := by
  induction ahead generalizing shown cursor with
  | nil =>
      have line := @forall_overlayStringFrom P (vmode.width * 4) videoAttr (vmode.address cursor)
        false shown [] 0 oneLine (.inl rfl)
      rw [List.append_nil] at line ⊢
      rw [placed_line cursor oneLine, ← line, chunkedPrintFrom]
      split
      · rfl
      · rename_i none
        have empty : shown = [] := List.length_eq_zero_iff.mp (not_not.mp none)
        subst empty
        rfl
  | cons character ahead ih =>
      rw [chunkedPrintFrom]
      split
      · rename_i newline
        subst newline
        have line := @forall_overlayStringFrom P (vmode.width * 4) videoAttr (vmode.address cursor)
          false shown (0x0a :: ahead) 0 oneLine (.inr ⟨ahead, rfl⟩)
        have others := ih [] (vmode.nextLine cursor) List.not_mem_nil
        rw [placed_append cursor oneLine, List.forall_mem_append, List.forall_mem_append, ← line]
        exact and_congr Iff.rfl others
      · rename_i noNewline
        have next := ih (shown ++ [character]) cursor (by simp [oneLine, Ne.symm noNewline])
        rw [List.append_assoc, List.length_append] at next
        exact next

/-- What is drawn of a text is the lit pixels of its characters, each at its place. -/
theorem forall_chunkedPrint (szBuffer : List Byte) (cursor : Cursor) :
    (∀ write ∈ (vmode.chunkedPrint videoAttr szBuffer cursor).1, P write.address) ↔
      ∀ placed ∈ vmode.placed cursor szBuffer,
        ∀ byte ∈ placed.bytes (vmode.width * 4), P byte :=
  forall_chunkedPrintFrom szBuffer [] cursor List.not_mem_nil

/-! ## The column of the cursor -/

/-- How far into the framebuffer something lies that is `gap` bytes behind the cursor. -/
theorem address_sub (cursor : Cursor) (gap : Nat) :
    vmode.address cursor + BitVec.ofNat 32 gap - fbStart =
      BitVec.ofNat 32
        (cursor.posY.toNat * (vmode.width * 4).toNat + cursor.posX.toNat + gap) := by
  have lines : BitVec.ofNat 32 (cursor.posY.toNat * (vmode.width * 4).toNat) =
      cursor.posY * (vmode.width * 4) := by
    rw [BitVec.ofNat_mul, BitVec.ofNat_toNat, BitVec.ofNat_toNat, BitVec.setWidth_eq,
      BitVec.setWidth_eq]
  rw [address, BitVec.ofNat_add, BitVec.ofNat_add, lines, BitVec.ofNat_toNat, BitVec.setWidth_eq,
    BitVec.add_assoc fbStart, BitVec.add_assoc fbStart, BitVec.add_comm fbStart,
    BitVec.add_sub_cancel]

theorem posX_lineCursors {cursor : Cursor} {lines : List (List Byte)} {line : Cursor × List Byte}
    (left : cursor.posX ≤ vmode.width * 4) (margin : vmode.xmargin <<< 2 ≤ vmode.width * 4)
    (member : line ∈ vmode.lineCursors cursor lines) : line.1.posX ≤ vmode.width * 4 := by
  induction lines generalizing cursor with
  | nil => exact absurd member List.not_mem_nil
  | cons first lines ih =>
      rcases List.mem_cons.mp member with rfl | later
      · exact left
      · exact ih margin later

theorem snd_mem_of_mem_lineCursors {cursor : Cursor} {lines : List (List Byte)}
    {line : Cursor × List Byte} (member : line ∈ vmode.lineCursors cursor lines) :
    line.2 ∈ lines := by
  induction lines generalizing cursor with
  | nil => exact absurd member List.not_mem_nil
  | cons first lines ih =>
      rcases List.mem_cons.mp member with rfl | later
      · exact List.mem_cons_self
      · exact List.mem_cons_of_mem _ (ih later)

/-- A text leaves the cursor on its line of the screen. -/
theorem posX_chunkedPrintFrom {videoAttr : Long} {cursor : Cursor}
    (left : cursor.posX ≤ vmode.width * 4) (margin : vmode.xmargin <<< 2 ≤ vmode.width * 4)
    (inside : (vmode.width - vmode.xmargin) <<< 2 ≤ vmode.width * 4)
    (ahead fromDone : List Byte) (waiting : Nat) :
    (vmode.chunkedPrintFrom videoAttr ahead fromDone waiting cursor).2.posX ≤
      vmode.width * 4 := by
  induction ahead generalizing fromDone waiting cursor with
  | nil =>
      rw [chunkedPrintFrom]
      split
      · dsimp only
        split
        · exact margin
        · rename_i short
          exact BitVec.le_trans (BitVec.not_lt.mp short) inside
      · exact left
  | cons character ahead ih =>
      rw [chunkedPrintFrom]
      split
      · exact ih margin _ _
      · exact ih left _ _

theorem posX_chunkedPrint {videoAttr : Long} {cursor : Cursor}
    (left : cursor.posX ≤ vmode.width * 4) (margin : vmode.xmargin <<< 2 ≤ vmode.width * 4)
    (inside : (vmode.width - vmode.xmargin) <<< 2 ≤ vmode.width * 4) (szBuffer : List Byte) :
    (vmode.chunkedPrint videoAttr szBuffer cursor).2.posX ≤ vmode.width * 4 :=
  posX_chunkedPrintFrom left margin inside szBuffer szBuffer 0

/-- The width of a mode is enough for its margins. -/
theorem margins (avType : XboxAvType) (index : VideoModeIndex) :
    (bootVgaMode avType index).xmargin ≤ (bootVgaMode avType index).width * 4 ∧
      (bootVgaMode avType index).xmargin <<< 2 ≤ (bootVgaMode avType index).width * 4 ∧
      ((bootVgaMode avType index).width - (bootVgaMode avType index).xmargin) <<< 2 ≤
        (bootVgaMode avType index).width * 4 := by
  cases avType <;> cases index <;> decide

end VideoModeDetails

end Cromwell.Video
