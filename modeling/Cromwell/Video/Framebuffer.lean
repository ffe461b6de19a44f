import Cromwell.Video.Console

/-!
# What is drawn and the framebuffer

The cursor is never compared with the height of the screen. What calls of `printk` draw stays
in the framebuffer just if each of them finds the cursor where there is room for the lit
pixels of its characters. That is so while lines start above the lower edge of the screen.
-/

namespace Cromwell.Video

open Cromwell.Std Cromwell.Boot

def framebuffer : AddressRange 32 := ⟨fbStart, fbSize⟩

/-- The framebuffer has room for a character, from its first lit pixel to the last one. -/
def Placed.OnScreen (row : Long) (placed : Placed) : Prop :=
  framebuffer.HasRoom placed.topLeft (ink row.toNat placed.character placed.fDouble)

instance (row : Long) (placed : Placed) : Decidable (placed.OnScreen row) := by
  unfold Placed.OnScreen
  infer_instance

namespace VideoModeDetails

variable (vmode : VideoModeDetails)

/-- There is room for each character of a text, from the cursor on. -/
def HasRoom (cursor : Cursor) (szBuffer : List Byte) : Prop :=
  ∀ placed ∈ vmode.placed cursor szBuffer, placed.OnScreen (vmode.width * 4)

instance (cursor : Cursor) (szBuffer : List Byte) : Decidable (vmode.HasRoom cursor szBuffer) := by
  unfold HasRoom
  infer_instance

/-- Each of the calls finds a cursor at which the property holds of its text. -/
def Each (Q : Cursor → List Byte → Prop) : Cursor → List Call → Prop
  | _, [] => True
  | cursor, call :: calls =>
    Q cursor call.displayed ∧
      Each Q (vmode.chunkedPrint call.videoAttr call.displayed cursor).2 calls

end VideoModeDetails

/-- Where a line of the screen is short, a character is on the screen just if each of its lit
pixels is. -/
theorem Placed.onScreen_iff {row : Long} (placed : Placed) (short : row.toNat ≤ 0x1000) :
    placed.OnScreen row ↔ ∀ byte ∈ placed.bytes row, framebuffer.Contains byte := by
  have small : ∀ offset ∈ ink row.toNat placed.character placed.fDouble,
      offset + framebuffer.size ≤ 2 ^ 32 := by
    intro offset member
    have close := ink_lt member
    have lines : row.toNat * (uiPixelsY * 2) ≤ 0x1000 * (uiPixelsY * 2) :=
      Nat.mul_le_mul_right _ short
    have size : framebuffer.size = 0x400000 := rfl
    rw [size]
    unfold uiPixelsX uiPixelsY at close
    unfold uiPixelsY at lines
    omega
  rw [Placed.OnScreen, AddressRange.hasRoom_iff small, Placed.bytes, List.forall_mem_map]

theorem width_bootVgaMode (avType : XboxAvType) (index : VideoModeIndex) :
    ((bootVgaMode avType index).width * 4).toNat ≤ 0x1000 := by
  cases avType <;> cases index <;> decide

/-- The addresses of the framebuffer are an interval. -/
theorem framebuffer_contains_iff {address : Long} :
    framebuffer.Contains address ↔
      fbStart.toNat ≤ address.toNat ∧ address.toNat < fbStart.toNat + fbSize :=
  AddressRange.contains_iff (by decide)

namespace VideoModeDetails

variable {vmode : VideoModeDetails}

/-- All that the calls draw is in the framebuffer just if each finds room there. -/
theorem printks_contained_iff (short : (vmode.width * 4).toNat ≤ 0x1000) (calls : List Call)
    (cursor : Cursor) :
    (∀ write ∈ vmode.printks calls cursor, framebuffer.Contains write.address) ↔
      vmode.Each vmode.HasRoom cursor calls := by
  induction calls generalizing cursor with
  | nil => simp [printks, Each]
  | cons call calls ih =>
      have drawn := @forall_chunkedPrint vmode framebuffer.Contains call.videoAttr
        call.displayed cursor
      have places : (∀ placed ∈ vmode.placed cursor call.displayed,
            ∀ byte ∈ placed.bytes (vmode.width * 4), framebuffer.Contains byte) ↔
          vmode.HasRoom cursor call.displayed :=
        forall₂_congr fun placed _ => (placed.onScreen_iff short).symm
      rw [printks, List.forall_mem_append, drawn, places, ih, Each]

end VideoModeDetails
/-- From a cleared screen on, whatever is printed in any mode, all that is drawn is in the
framebuffer just if each call finds the cursor where there is room for the characters of its
text. -/
theorem printks_onScreen_iff (avType : XboxAvType) (index : VideoModeIndex)
    (calls : List VideoModeDetails.Call) :
    (∀ write ∈ (bootVgaMode avType index).printks calls (clearScreen (bootVgaMode avType index)),
        fbStart.toNat ≤ write.address.toNat ∧
          write.address.toNat < fbStart.toNat + fbSize) ↔
      (bootVgaMode avType index).Each (bootVgaMode avType index).HasRoom
        (clearScreen (bootVgaMode avType index)) calls := by
  rw [← VideoModeDetails.printks_contained_iff (width_bootVgaMode avType index)]
  exact forall₂_congr fun write _ => framebuffer_contains_iff.symm

/-- A call with the text of 103 line ends and a letter. -/
def letterBelow : VideoModeDetails.Call where
  videoAttr := 0xffffffff
  szBuffer := fun _ => 0
  formatted := List.replicate 103 0x0a ++ [0x41]

/-- The letter has no room on a screen of 640 pixels a line. -/
theorem letterBelow_outside :
    ¬(bootVgaMode .composite .mode640x480).HasRoom
      (clearScreen (bootVgaMode .composite .mode640x480)) letterBelow.displayed := by
  have displayed : letterBelow.displayed = letterBelow.formatted :=
    printk_displayed (by decide) (by decide)
  rw [displayed]
  decide +kernel

/-- With lines enough the cursor leaves the framebuffer. -/
theorem not_printks_onScreen :
    ¬∀ (avType : XboxAvType) (index : VideoModeIndex) (calls : List VideoModeDetails.Call),
      ∀ write ∈ (bootVgaMode avType index).printks calls
          (clearScreen (bootVgaMode avType index)),
        fbStart.toNat ≤ write.address.toNat ∧
          write.address.toNat < fbStart.toNat + fbSize := by
  intro always
  have contained : ∀ write ∈ (bootVgaMode .composite .mode640x480).printks [letterBelow]
      (clearScreen (bootVgaMode .composite .mode640x480)), framebuffer.Contains write.address :=
    fun write member =>
      framebuffer_contains_iff.mpr (always .composite .mode640x480 [letterBelow] write member)
  have room := (VideoModeDetails.printks_contained_iff
    (width_bootVgaMode .composite .mode640x480) [letterBelow] _).mp contained
  exact letterBelow_outside room.1

/-! ## Text above the lower edge -/

/-- In each mode the screen with what hangs over its lower edge is smaller than the
framebuffer. -/
theorem overhang_lt (avType : XboxAvType) (index : VideoModeIndex) :
    ((bootVgaMode avType index).height.toNat + uiPixelsY * 2) *
        ((bootVgaMode avType index).width * 4).toNat +
      (4 * (32 * szBufferSize) + 4 * (uiPixelsX * 2)) < fbSize := by
  cases avType <;> cases index <;> decide

/-- A character of a line that starts above the lower edge of the screen is in the
framebuffer, however long the line is. -/
theorem Placed.onScreen_of_above {avType : XboxAvType} {index : VideoModeIndex} {cursor : Cursor}
    {columns : Nat} {placed : Placed}
    (left : cursor.posX ≤ (bootVgaMode avType index).width * 4)
    (above : cursor.posY < (bootVgaMode avType index).height)
    (close : columns ≤ 32 * szBufferSize)
    (place : placed.topLeft =
      (bootVgaMode avType index).address cursor + BitVec.ofNat 32 (4 * columns)) :
    placed.OnScreen ((bootVgaMode avType index).width * 4) := by
  rw [Placed.onScreen_iff placed (width_bootVgaMode avType index), Placed.bytes,
    List.forall_mem_map]
  intro offset member
  have small := ink_lt member
  have smaller := overhang_lt avType index
  have lines : (cursor.posY.toNat + 1) * ((bootVgaMode avType index).width * 4).toNat ≤
      (bootVgaMode avType index).height.toNat * ((bootVgaMode avType index).width * 4).toNat :=
    Nat.mul_le_mul_right _ above
  rw [BitVec.le_def] at left
  have distance : placed.topLeft + BitVec.ofNat 32 offset - framebuffer.first = BitVec.ofNat 32
      (cursor.posY.toNat * ((bootVgaMode avType index).width * 4).toNat + cursor.posX.toNat +
        (4 * columns + offset)) := by
    rw [place, BitVec.add_assoc, ← BitVec.ofNat_add]
    exact VideoModeDetails.address_sub cursor (4 * columns + offset)
  generalize ((bootVgaMode avType index).width * 4).toNat = row at *
  have size : framebuffer.size = fbSize := rfl
  rw [AddressRange.Contains, distance, BitVec.toNat_ofNat, size]
  apply (Nat.mod_le _ _).trans_lt
  rw [Nat.add_mul] at smaller lines
  rw [Nat.mul_comm (uiPixelsY * 2)] at smaller
  omega

namespace VideoModeDetails

variable {vmode : VideoModeDetails}

/-- Each line of the text starts above the lower edge of the screen. -/
def Above (vmode : VideoModeDetails) (cursor : Cursor) (szBuffer : List Byte) : Prop :=
  ∀ line ∈ vmode.lineCursors cursor (szBuffer.splitOn 0x0a), line.1.posY < vmode.height

/-- A text has room if each of its lines starts above the lower edge of the screen. -/
theorem hasRoom_of_above {avType : XboxAvType} {index : VideoModeIndex} {cursor : Cursor}
    {szBuffer : List Byte} (left : cursor.posX ≤ (bootVgaMode avType index).width * 4)
    (short : szBuffer.length ≤ szBufferSize)
    (above : (bootVgaMode avType index).Above cursor szBuffer) :
    (bootVgaMode avType index).HasRoom cursor szBuffer := by
  intro placed member
  obtain ⟨line, lineMember, member⟩ := List.mem_flatMap.mp member
  obtain ⟨columns, close, place⟩ := mem_placedFrom member
  have shorter := length_le_of_mem_splitOn (snd_mem_of_mem_lineCursors lineMember)
  apply Placed.onScreen_of_above (posX_lineCursors left (margins avType index).2.1 lineMember)
    (above line lineMember)
  · exact close.trans (Nat.mul_le_mul_left 32 (shorter.trans short))
  · simpa using place

/-- The cursor starts on its line of the screen and stays on it, so that each of the calls
finds room if its lines start above the lower edge. -/
theorem each_hasRoom_of_above {avType : XboxAvType} {index : VideoModeIndex} {calls : List Call}
    {cursor : Cursor} (left : cursor.posX ≤ (bootVgaMode avType index).width * 4)
    (above : (bootVgaMode avType index).Each (bootVgaMode avType index).Above cursor calls) :
    (bootVgaMode avType index).Each (bootVgaMode avType index).HasRoom cursor calls := by
  induction calls generalizing cursor with
  | nil => trivial
  | cons call calls ih =>
      rw [Each] at above ⊢
      obtain ⟨here, later⟩ := above
      obtain ⟨_, margin, inside⟩ := margins avType index
      have short := length_displayed_le call.szBuffer call.formatted
      exact ⟨hasRoom_of_above left short here,
        ih (posX_chunkedPrint left margin inside call.displayed) later⟩

/-- From a cleared screen on, all is drawn in the framebuffer while no line starts below the
lower edge. -/
theorem printks_contained_of_above {avType : XboxAvType} {index : VideoModeIndex}
    {calls : List Call}
    (above : (bootVgaMode avType index).Each (bootVgaMode avType index).Above
      (clearScreen (bootVgaMode avType index)) calls) :
    ∀ write ∈ (bootVgaMode avType index).printks calls (clearScreen (bootVgaMode avType index)),
      framebuffer.Contains write.address :=
  (printks_contained_iff (width_bootVgaMode avType index) calls _).mpr
    (each_hasRoom_of_above (margins avType index).1 above)

end VideoModeDetails

end Cromwell.Video
