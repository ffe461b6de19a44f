import Cromwell.Std.AddressRange
import Cromwell.Video.Font

/-!
# Drawing text

`BootVideoOverlayCharacter` draws a glyph pixel by pixel, and `BootVideoOverlayString` the
characters up to the end of a line. Nothing is known about the screen but the length of its
lines. A text is the bytes in front of its terminating zero. What is stored is the lit
pixels of the glyphs, each at the place that the widths before it give it.
-/

namespace Cromwell.Video

open Cromwell.Std

/-- A byte that is stored. -/
structure ByteWrite where
  address : Long
  value : Byte
  deriving DecidableEq

def widthSpacePixels : Long := 5

/-! ## BootVideoOverlayCharacter -/

/-- The four bytes of a pixel. -/
def overlayPixel (pbaDest rgbaColourAndOpaqueness : Long) (b1 : Byte) : List ByteWrite :=
  [⟨pbaDest, truncate ((widen b1 * (rgbaColourAndOpaqueness &&& 0xff)) >>> 4)⟩,
   ⟨pbaDest + 1, truncate ((widen b1 * ((rgbaColourAndOpaqueness >>> 8) &&& 0xff)) >>> 4)⟩,
   ⟨pbaDest + 2, truncate ((widen b1 * ((rgbaColourAndOpaqueness >>> 16) &&& 0xff)) >>> 4)⟩,
   ⟨pbaDest + 3, 0xff⟩]

/-- The loop over `n`, with as many columns still to come. -/
def overlayColumns (rgbaColourAndOpaqueness : Long) (fDouble : Bool) :
    Nat → Nat → Nat → Long → List ByteWrite
  | 0, _, _, _ => []
  | columns + 1, n, n1, pbaDest =>
    let b1 := brightness n1
    let n1 := if fDouble then if n % 2 = 1 then n1 + 1 else n1 else n1 + 1
    (if b1 ≠ 0 then overlayPixel pbaDest rgbaColourAndOpaqueness b1 else []) ++
      overlayColumns rgbaColourAndOpaqueness fDouble columns (n + 1) n1 (pbaDest + 4)

/-- The loop over `y`, with as many lines still to come. -/
def overlayLines (row rgbaColourAndOpaqueness : Long) (fDouble : Bool) (nWidth : Nat) :
    Nat → Nat → Nat → Long → List ByteWrite
  | 0, _, _, _ => []
  | lines + 1, y, nStart, pbaDestStart =>
    let drawn := overlayColumns rgbaColourAndOpaqueness fDouble nWidth 0 nStart pbaDestStart
    let nStart :=
      if fDouble then if y % 2 = 1 then nStart + uiPixelsX else nStart else nStart + uiPixelsX
    drawn ++ overlayLines row rgbaColourAndOpaqueness fDouble nWidth lines (y + 1) nStart
      (pbaDestStart + row)

/-- `BootVideoOverlayCharacter`: what it stores, and the width it returns. `row` is
`m_dwCountBytesPerLineDestination`. -/
def overlayCharacter (topLeft row rgbaColourAndOpaqueness : Long) (bCharacter : Byte)
    (fDouble : Bool) : List ByteWrite × Long :=
  if bCharacter = 0x09 then
    let dw := topLeft % row
    let dw1 := (dw + 1) % (32 <<< 2)
    ([], ((32 <<< 2) - dw1) >>> 2)
  else
    let nSpace := if fDouble then 8 else widthSpacePixels
    if bCharacter < 0x21 then ([], nSpace)
    else if 0x7e < bCharacter then ([], nSpace)
    else
      let nStart := waStarts.getD (bCharacter.toNat - 0x21) 0
      let nWidth := waStarts.getD (bCharacter.toNat - 0x20) 0 - nStart
      let (nWidth, nHeight) :=
        if fDouble then (nWidth * 2, uiPixelsY * 2) else (nWidth, uiPixelsY)
      (overlayLines row rgbaColourAndOpaqueness fDouble nWidth nHeight 0 nStart topLeft,
        BitVec.ofNat 32 nWidth)

/-! ## BootVideoOverlayString -/

/-- `BootVideoOverlayString` from a character of the text on, with the width and the size up
to there. -/
def overlayStringFrom (topLeft row rgbaOpaqueness : Long) :
    Bool → Long → List Byte → List ByteWrite × Long
  | _, uiWidth, [] => ([], uiWidth)
  | fDouble, uiWidth, character :: szString =>
    if character = 0x0a then ([], uiWidth)
    else if character = 0x02 then
      overlayStringFrom topLeft row rgbaOpaqueness (!fDouble) uiWidth szString
    else
      let (drawn, width) :=
        overlayCharacter (topLeft + uiWidth * 4) row rgbaOpaqueness character fDouble
      let (others, uiWidth) :=
        overlayStringFrom topLeft row rgbaOpaqueness fDouble (uiWidth + width) szString
      (drawn ++ others, uiWidth)

def overlayString (topLeft row rgbaOpaqueness : Long) (szString : List Byte) :
    List ByteWrite × Long :=
  overlayStringFrom topLeft row rgbaOpaqueness false 0 szString

/-! ## Where the glyphs are placed -/

/-- The pixels from a character's top left to that of the next one. -/
def advance (topLeft row : Long) (bCharacter : Byte) (fDouble : Bool) : Long :=
  if bCharacter = 0x09 then (128 - (topLeft % row + 1) % 128) >>> 2
  else if Visible bCharacter then BitVec.ofNat 32 (glyphWidth bCharacter fDouble)
  else if fDouble then 8 else 5

/-- A character at its place on the screen. -/
structure Placed where
  topLeft : Long
  character : Byte
  fDouble : Bool
  deriving Repr, DecidableEq

/-- The bytes of a character's lit pixels on a screen whose lines have `row` bytes. -/
def Placed.bytes (row : Long) (placed : Placed) : List Long :=
  (ink row.toNat placed.character placed.fDouble).map fun offset =>
    placed.topLeft + BitVec.ofNat 32 offset

/-- The characters of a line, from one on that `uiWidth` pixels come before. -/
def placedFrom (topLeft row : Long) : Bool → Long → List Byte → List Placed
  | _, _, [] => []
  | fDouble, uiWidth, character :: line =>
    if character = 0x02 then placedFrom topLeft row (!fDouble) uiWidth line
    else
      ⟨topLeft + uiWidth * 4, character, fDouble⟩ ::
        placedFrom topLeft row fDouble
          (uiWidth + advance (topLeft + uiWidth * 4) row character fDouble) line

section Stored

variable {P : Long → Prop} {row rgba topLeft : Long} {fDouble : Bool}

/-- A loop does its first pass, and then the others. -/
theorem forall_pass_iff {Q : Nat → Prop} (start count : Nat) :
    (Q start ∧ ∀ m, start + 1 ≤ m → m < start + 1 + count → Q m) ↔
      ∀ m, start ≤ m → m < start + (count + 1) → Q m := by
  constructor
  · rintro ⟨first, others⟩ m lower upper
    rcases Nat.eq_or_lt_of_le lower with same | later
    · exact same ▸ first
    · exact others m later (by omega)
  · intro all
    exact ⟨all start (Nat.le_refl start) (by omega),
      fun m lower upper => all m (by omega) (by omega)⟩

theorem unscaled_succ (fDouble : Bool) (n : Nat) :
    unscaled fDouble (n + 1) =
      if fDouble then if n % 2 = 1 then unscaled fDouble n + 1 else unscaled fDouble n
      else unscaled fDouble n + 1 := by
  cases fDouble with
  | false => rfl
  | true =>
      simp only [unscaled, if_true]
      split <;> omega

theorem forall_overlayPixel {b1 : Byte} :
    (∀ write ∈ overlayPixel topLeft rgba b1, P write.address) ↔
      ∀ k < 4, P (topLeft + BitVec.ofNat 32 k) := by
  have first : topLeft + BitVec.ofNat 32 0 = topLeft := BitVec.add_zero topLeft
  simp only [overlayPixel, List.forall_mem_cons, List.not_mem_nil, false_implies, implies_true,
    and_true]
  constructor
  · rintro ⟨zero, one, two, three⟩ k short
    obtain rfl | rfl | rfl | rfl : k = 0 ∨ k = 1 ∨ k = 2 ∨ k = 3 := by omega
    · rw [first]
      exact zero
    · exact one
    · exact two
    · exact three
  · intro all
    have zero := all 0 (by omega)
    rw [first] at zero
    exact ⟨zero, all 1 (by omega), all 2 (by omega), all 3 (by omega)⟩

theorem forall_overlayColumns (nStart columns n : Nat) :
    (∀ write ∈ overlayColumns rgba fDouble columns n (nStart + unscaled fDouble n)
        (topLeft + BitVec.ofNat 32 (4 * n)), P write.address) ↔
      ∀ m, n ≤ m → m < n + columns → brightness (nStart + unscaled fDouble m) ≠ 0 →
        ∀ k < 4, P (topLeft + BitVec.ofNat 32 (4 * m + k)) := by
  induction columns generalizing n with
  | zero =>
      simp only [overlayColumns, List.not_mem_nil, false_implies, implies_true, true_iff]
      intro m lower upper
      omega
  | succ columns ih =>
      have next : (if fDouble then
            if n % 2 = 1 then nStart + unscaled fDouble n + 1 else nStart + unscaled fDouble n
          else nStart + unscaled fDouble n + 1) = nStart + unscaled fDouble (n + 1) := by
        rw [unscaled_succ]
        split_ifs <;> rfl
      have behind : topLeft + BitVec.ofNat 32 (4 * n) + 4 =
          topLeft + BitVec.ofNat 32 (4 * (n + 1)) := by
        rw [Nat.mul_succ, BitVec.ofNat_add, BitVec.add_assoc]
        rfl
      have here : (∀ write ∈ (if brightness (nStart + unscaled fDouble n) ≠ 0 then
            overlayPixel (topLeft + BitVec.ofNat 32 (4 * n)) rgba
              (brightness (nStart + unscaled fDouble n)) else []), P write.address) ↔
          (brightness (nStart + unscaled fDouble n) ≠ 0 →
            ∀ k < 4, P (topLeft + BitVec.ofNat 32 (4 * n + k))) := by
        split
        · rename_i lit
          rw [forall_overlayPixel]
          simp only [BitVec.ofNat_add, BitVec.add_assoc, lit, true_implies, not_false_eq_true,
            ne_eq]
        · rename_i dark
          simp [dark]
      simp only [overlayColumns, next, behind, List.forall_mem_append, here, ih]
      exact @forall_pass_iff (fun m => brightness (nStart + unscaled fDouble m) ≠ 0 →
        ∀ k < 4, P (topLeft + BitVec.ofNat 32 (4 * m + k))) n columns

theorem forall_overlayLines (nStart nWidth lines y : Nat) :
    (∀ write ∈ overlayLines row rgba fDouble nWidth lines y
        (nStart + uiPixelsX * unscaled fDouble y)
        (topLeft + BitVec.ofNat 32 (row.toNat * y)), P write.address) ↔
      ∀ m, y ≤ m → m < y + lines → ∀ n < nWidth,
        brightness (nStart + uiPixelsX * unscaled fDouble m + unscaled fDouble n) ≠ 0 →
          ∀ k < 4, P (topLeft + BitVec.ofNat 32 (row.toNat * m + (4 * n + k))) := by
  induction lines generalizing y with
  | zero =>
      simp only [overlayLines, List.not_mem_nil, false_implies, implies_true, true_iff]
      intro m lower upper
      omega
  | succ lines ih =>
      have next : (if fDouble then
            if y % 2 = 1 then nStart + uiPixelsX * unscaled fDouble y + uiPixelsX
            else nStart + uiPixelsX * unscaled fDouble y
          else nStart + uiPixelsX * unscaled fDouble y + uiPixelsX) =
          nStart + uiPixelsX * unscaled fDouble (y + 1) := by
        rw [unscaled_succ]
        split_ifs <;> ring
      have behind : topLeft + BitVec.ofNat 32 (row.toNat * y) + row =
          topLeft + BitVec.ofNat 32 (row.toNat * (y + 1)) := by
        rw [Nat.mul_succ, BitVec.ofNat_add, BitVec.ofNat_toNat, BitVec.setWidth_eq,
          BitVec.add_assoc]
      have here : (∀ write ∈ overlayColumns rgba fDouble nWidth 0
            (nStart + uiPixelsX * unscaled fDouble y)
            (topLeft + BitVec.ofNat 32 (row.toNat * y)), P write.address) ↔
          ∀ n < nWidth,
            brightness (nStart + uiPixelsX * unscaled fDouble y + unscaled fDouble n) ≠ 0 →
              ∀ k < 4, P (topLeft + BitVec.ofNat 32 (row.toNat * y + (4 * n + k))) := by
        have columns := @forall_overlayColumns P rgba
          (topLeft + BitVec.ofNat 32 (row.toNat * y)) fDouble
          (nStart + uiPixelsX * unscaled fDouble y) nWidth 0
        have zero : unscaled fDouble 0 = 0 := by cases fDouble <;> rfl
        simp only [zero, Nat.add_zero, Nat.mul_zero, Nat.zero_add, Nat.zero_le, true_implies,
          BitVec.add_zero] at columns
        simp only [BitVec.ofNat_add, BitVec.add_assoc] at columns ⊢
        exact columns
      simp only [overlayLines, next, behind, List.forall_mem_append, here, ih]
      exact @forall_pass_iff (fun m => ∀ n < nWidth,
        brightness (nStart + uiPixelsX * unscaled fDouble m + unscaled fDouble n) ≠ 0 →
          ∀ k < 4, P (topLeft + BitVec.ofNat 32 (row.toNat * m + (4 * n + k)))) y lines

theorem visible_iff {bCharacter : Byte} :
    Visible bCharacter ↔ ¬bCharacter < 0x21 ∧ ¬0x7e < bCharacter := by
  unfold Visible
  rw [UInt8.not_lt, UInt8.not_lt]

/-- A character that has no glyph stores nothing and only moves on. -/
theorem overlayCharacter_hidden {bCharacter : Byte} (hidden : ¬Visible bCharacter) :
    overlayCharacter topLeft row rgba bCharacter fDouble =
      ([], advance topLeft row bCharacter fDouble) := by
  unfold overlayCharacter advance
  by_cases tab : bCharacter = 0x09
  · simp only [if_pos tab]
    rfl
  · simp only [if_neg tab, if_neg hidden]
    rw [visible_iff, not_and_or, not_not, not_not] at hidden
    by_cases low : bCharacter < 0x21
    · simp only [if_pos low]
      rfl
    · simp only [if_neg low, if_pos (hidden.resolve_left low)]
      rfl

/-- A character that has one draws it, line by line. -/
theorem overlayCharacter_visible {bCharacter : Byte} (visible : Visible bCharacter) :
    overlayCharacter topLeft row rgba bCharacter fDouble =
      (overlayLines row rgba fDouble (glyphWidth bCharacter fDouble) (glyphHeight fDouble) 0
        (glyphStart bCharacter) topLeft, advance topLeft row bCharacter fDouble) := by
  have noTab : bCharacter ≠ 0x09 := by
    rintro rfl
    exact absurd visible (by decide)
  obtain ⟨low, high⟩ := visible_iff.mp visible
  unfold overlayCharacter advance
  rw [if_neg noTab, if_neg noTab, if_pos visible]
  simp only [if_neg low, if_neg high]
  cases fDouble <;> rfl

/-- A character stores the bytes of its lit pixels. -/
theorem forall_overlayCharacter (bCharacter : Byte) :
    (∀ write ∈ (overlayCharacter topLeft row rgba bCharacter fDouble).1, P write.address) ↔
      ∀ offset ∈ ink row.toNat bCharacter fDouble, P (topLeft + BitVec.ofNat 32 offset) := by
  by_cases visible : Visible bCharacter
  · have zero : unscaled fDouble 0 = 0 := by cases fDouble <;> rfl
    have lines := @forall_overlayLines P row rgba topLeft fDouble (glyphStart bCharacter)
      (glyphWidth bCharacter fDouble) (glyphHeight fDouble) 0
    simp only [zero, Nat.mul_zero, Nat.add_zero, BitVec.add_zero] at lines
    rw [overlayCharacter_visible visible, lines]
    constructor
    · intro all offset member
      obtain ⟨_, y, lineInside, n, inside, lit, k, short, rfl⟩ := mem_ink_iff.mp member
      exact all y (Nat.zero_le y) (by omega) n inside lit k short
    · intro all y _ lineInside n inside lit k short
      exact all _ (mem_ink_iff.mpr
        ⟨visible, y, by omega, n, inside, lit, k, short, rfl⟩)
  · have none : ink row.toNat bCharacter fDouble = [] := if_neg visible
    simp [overlayCharacter_hidden visible, none]

theorem overlayCharacter_width (bCharacter : Byte) :
    (overlayCharacter topLeft row rgba bCharacter fDouble).2 =
      advance topLeft row bCharacter fDouble := by
  by_cases visible : Visible bCharacter
  · rw [overlayCharacter_visible visible]
  · rw [overlayCharacter_hidden visible]

/-- A line stores the bytes of the lit pixels of its characters, up to its end. -/
theorem forall_overlayStringFrom {line : List Byte} (rest : List Byte) (uiWidth : Long)
    (oneLine : 0x0a ∉ line) (ended : rest = [] ∨ ∃ next, rest = 0x0a :: next) :
    (∀ write ∈ (overlayStringFrom topLeft row rgba fDouble uiWidth (line ++ rest)).1,
        P write.address) ↔
      ∀ placed ∈ placedFrom topLeft row fDouble uiWidth line,
        ∀ byte ∈ placed.bytes row, P byte := by
  induction line generalizing fDouble uiWidth with
  | nil =>
      rcases ended with rfl | ⟨next, rfl⟩
      · simp [overlayStringFrom, placedFrom]
      · simp [overlayStringFrom, placedFrom]
  | cons character line ih =>
      rw [List.mem_cons, not_or] at oneLine
      obtain ⟨noNewline, oneLine⟩ := oneLine
      rw [List.cons_append, overlayStringFrom, if_neg (Ne.symm noNewline), placedFrom]
      split
      · exact ih uiWidth oneLine
      · simp only [List.forall_mem_append, List.forall_mem_cons, forall_overlayCharacter,
          overlayCharacter_width, ih _ oneLine, Placed.bytes, List.forall_mem_map]

end Stored

/-! ## How far to the right -/

/-- No glyph is wider than 28 pixels, and no other character moves on by more than 32. -/
theorem advance_le (topLeft row : Long) (bCharacter : Byte) (fDouble : Bool) :
    (advance topLeft row bCharacter fDouble).toNat ≤ 32 := by
  unfold advance
  split_ifs with tab visible wide
  · rw [BitVec.toNat_ushiftRight, Nat.shiftRight_eq_div_pow]
    generalize (topLeft % row + 1) = x
    rw [BitVec.toNat_sub, BitVec.toNat_umod]
    simp
    omega
  · have narrow : ∀ index < 94, waStarts.getD (index + 1) 0 - waStarts.getD index 0 ≤ 14 := by
      decide
    obtain ⟨low, high⟩ := visible
    rw [UInt8.le_iff_toNat_le] at low high
    have low' : 33 ≤ bCharacter.toNat := low
    have high' : bCharacter.toNat ≤ 126 := high
    have stored := narrow (bCharacter.toNat - 33) (by omega)
    have next : bCharacter.toNat - 33 + 1 = bCharacter.toNat - 32 := by omega
    rw [next] at stored
    have width : glyphWidth bCharacter fDouble ≤ 28 := by
      unfold glyphWidth glyphStart
      dsimp only
      split <;> omega
    rw [BitVec.toNat_ofNat]
    exact (Nat.mod_le _ _).trans (width.trans (by decide))
  · decide
  · decide

/-- A character of a line is as far to the right as the ones before it are wide. -/
theorem mem_placedFrom {topLeft row uiWidth : Long} {fDouble : Bool} {line : List Byte}
    {placed : Placed} (member : placed ∈ placedFrom topLeft row fDouble uiWidth line) :
    ∃ columns ≤ 32 * line.length,
      placed.topLeft = topLeft + uiWidth * 4 + BitVec.ofNat 32 (4 * columns) := by
  induction line generalizing fDouble uiWidth with
  | nil => exact absurd member List.not_mem_nil
  | cons character line ih =>
      rw [placedFrom] at member
      split at member
      · obtain ⟨columns, close, place⟩ := ih member
        rw [List.length_cons]
        exact ⟨columns, by omega, place⟩
      · rcases List.mem_cons.mp member with rfl | later
        · exact ⟨0, Nat.zero_le _, by simp⟩
        · obtain ⟨columns, close, place⟩ := ih later
          have narrow := advance_le (topLeft + uiWidth * 4) row character fDouble
          refine ⟨(advance (topLeft + uiWidth * 4) row character fDouble).toNat + columns, ?_, ?_⟩
          · rw [List.length_cons]
            omega
          · have width : BitVec.ofNat 32
                (4 * (advance (topLeft + uiWidth * 4) row character fDouble).toNat) =
                advance (topLeft + uiWidth * 4) row character fDouble * 4 := by
              rw [Nat.mul_comm, BitVec.ofNat_mul, BitVec.ofNat_toNat, BitVec.setWidth_eq]
              rfl
            rw [place, Nat.mul_add, BitVec.ofNat_add, width, BitVec.add_mul]
            ac_rfl

end Cromwell.Video
