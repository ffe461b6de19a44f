import Cromwell.Video.Overlay

/-!
# Measuring text

`BootVideoGetStringTotalWidth` adds up the widths of the characters of a text in a loop of its
own, with another function for the width of a character. A text that has no line end and no
tabulator is drawn as wide as it is measured, and each of its characters is drawn behind the
measured width of those before it.
-/

namespace Cromwell.Video

open Cromwell.Std

def getCharacterWidth (bCharacter : Byte) (fDouble : Bool) : Long :=
  let nSpace := if fDouble then 8 else widthSpacePixels
  if bCharacter < 0x21 then nSpace
  else if 0x7e < bCharacter then nSpace
  else
    let nStart := waStarts.getD (bCharacter.toNat - 0x21) 0
    let nWidth := waStarts.getD (bCharacter.toNat - 0x20) 0 - nStart
    if fDouble then BitVec.ofNat 32 nWidth <<< 1 else BitVec.ofNat 32 nWidth

/-- `BootVideoGetStringTotalWidth` from a character of the text on, with the size and the
width up to there. -/
def getStringTotalWidthFrom : Bool → Long → List Byte → Long
  | _, nWidth, [] => nWidth
  | fDouble, nWidth, character :: szc =>
    if character = 0x02 then getStringTotalWidthFrom (!fDouble) nWidth szc
    else getStringTotalWidthFrom fDouble (nWidth + getCharacterWidth character fDouble) szc

def getStringTotalWidth (szc : List Byte) : Long := getStringTotalWidthFrom false 0 szc

/-- The size behind a text. -/
def doubledAfter (fDouble : Bool) (szc : List Byte) : Bool :=
  fDouble ^^ decide (szc.count 0x02 % 2 = 1)

section Width

variable {topLeft row rgba uiWidth : Long} {fDouble : Bool} {front back : List Byte}

@[simp] theorem doubledAfter_nil : doubledAfter fDouble [] = fDouble := by simp [doubledAfter]

theorem doubledAfter_toggle (szc : List Byte) :
    doubledAfter fDouble (0x02 :: szc) = doubledAfter (!fDouble) szc := by
  unfold doubledAfter
  rw [List.count_cons_self]
  rcases Nat.mod_two_eq_zero_or_one (szc.count 0x02) with even | odd
  · have next : (szc.count 0x02 + 1) % 2 = 1 := by omega
    simp [even, next]
  · have next : (szc.count 0x02 + 1) % 2 = 0 := by omega
    simp [odd, next]

theorem doubledAfter_other {character : Byte} (other : character ≠ 0x02) (szc : List Byte) :
    doubledAfter fDouble (character :: szc) = doubledAfter fDouble szc := by
  unfold doubledAfter
  rw [List.count_cons_of_ne other]

/-- A character is drawn as wide as it is measured, except for a tabulator. -/
theorem overlayCharacter_measured {character : Byte} (noTab : character ≠ 0x09) :
    (overlayCharacter topLeft row rgba character fDouble).2 =
      getCharacterWidth character fDouble := by
  unfold overlayCharacter getCharacterWidth
  rw [if_neg noTab]
  dsimp only
  split
  · rfl
  · split
    · rfl
    · cases fDouble with
      | false => rfl
      | true =>
          have twice (nWidth : Nat) :
              BitVec.ofNat 32 (nWidth * 2) = BitVec.ofNat 32 nWidth <<< 1 := by
            rw [BitVec.shiftLeft_eq_mul_twoPow, BitVec.ofNat_mul]
            rfl
          exact twice _

/-- What follows in a line is drawn behind the measured width of what comes before it. -/
theorem overlayStringFrom_append (oneLine : 0x0a ∉ front) (noTab : 0x09 ∉ front)
    (back : List Byte) :
    overlayStringFrom topLeft row rgba fDouble uiWidth (front ++ back) =
      ((overlayStringFrom topLeft row rgba fDouble uiWidth front).1 ++
        (overlayStringFrom topLeft row rgba (doubledAfter fDouble front)
          (getStringTotalWidthFrom fDouble uiWidth front) back).1,
        (overlayStringFrom topLeft row rgba (doubledAfter fDouble front)
          (getStringTotalWidthFrom fDouble uiWidth front) back).2) := by
  induction front generalizing fDouble uiWidth with
  | nil => simp [overlayStringFrom, getStringTotalWidthFrom]
  | cons character front ih =>
      rw [List.mem_cons, not_or] at oneLine noTab
      obtain ⟨noNewline, oneLine⟩ := oneLine
      obtain ⟨here, noTab⟩ := noTab
      rw [List.cons_append, overlayStringFrom, overlayStringFrom, getStringTotalWidthFrom,
        if_neg (Ne.symm noNewline), if_neg (Ne.symm noNewline)]
      by_cases toggle : character = 0x02
      · subst toggle
        simp only [if_true]
        rw [ih oneLine noTab, doubledAfter_toggle]
      · simp only [if_neg toggle, overlayCharacter_measured (Ne.symm here)]
        rw [ih oneLine noTab, doubledAfter_other toggle, List.append_assoc]

/-- A text is drawn as wide as it is measured. -/
theorem overlayStringFrom_measured (oneLine : 0x0a ∉ front) (noTab : 0x09 ∉ front) :
    (overlayStringFrom topLeft row rgba fDouble uiWidth front).2 =
      getStringTotalWidthFrom fDouble uiWidth front := by
  have whole := @overlayStringFrom_append topLeft row rgba uiWidth fDouble front oneLine noTab []
  rw [List.append_nil] at whole
  rw [whole]
  rfl

theorem getStringTotalWidthFrom_append (back : List Byte) :
    getStringTotalWidthFrom fDouble uiWidth (front ++ back) =
      getStringTotalWidthFrom (doubledAfter fDouble front)
        (getStringTotalWidthFrom fDouble uiWidth front) back := by
  induction front generalizing fDouble uiWidth with
  | nil => simp [getStringTotalWidthFrom]
  | cons character front ih =>
      rw [List.cons_append, getStringTotalWidthFrom, getStringTotalWidthFrom]
      split
      · rename_i toggle
        rw [ih, toggle, doubledAfter_toggle]
      · rename_i other
        rw [ih, doubledAfter_other other]

end Width

/-- A text on one line and without tabulators is measured as wide as it is drawn, wherever
that is, and each of its characters is drawn at the measured width of those before it. -/
theorem overlayString_measured (topLeft row rgbaOpaqueness : Long) (szString : List Byte)
    (oneLine : 0x0a ∉ szString) (noTab : 0x09 ∉ szString) :
    getStringTotalWidth szString = (overlayString topLeft row rgbaOpaqueness szString).2 ∧
      ∀ front character back, szString = front ++ character :: back → character ≠ 0x02 →
        (overlayString topLeft row rgbaOpaqueness szString).1 =
          (overlayString topLeft row rgbaOpaqueness front).1 ++
            ((overlayCharacter (topLeft + getStringTotalWidth front * 4) row rgbaOpaqueness
                character (doubledAfter false front)).1 ++
              (overlayStringFrom topLeft row rgbaOpaqueness (doubledAfter false front)
                (getStringTotalWidth (front ++ [character])) back).1) := by
  refine ⟨(overlayStringFrom_measured oneLine noTab).symm, ?_⟩
  rintro front character back rfl drawn
  simp only [List.mem_append, List.mem_cons, not_or] at oneLine noTab
  obtain ⟨frontLine, noNewline, -⟩ := oneLine
  obtain ⟨frontPlain, noTabHere, -⟩ := noTab
  have width : getStringTotalWidth (front ++ [character]) =
      getStringTotalWidth front + getCharacterWidth character (doubledAfter false front) := by
    rw [getStringTotalWidth, getStringTotalWidthFrom_append, getStringTotalWidthFrom,
      if_neg drawn]
    rfl
  rw [overlayString, overlayStringFrom_append frontLine frontPlain, overlayStringFrom,
    if_neg (Ne.symm noNewline), if_neg drawn, width]
  simp only [overlayCharacter_measured (Ne.symm noTabHere)]
  rfl

/-- A title in double size. -/
theorem overlayString_measured_title :
    getStringTotalWidth [0x02, 0x48, 0x69] =
        (overlayString 0xf3c00000 2560 0xffffffff [0x02, 0x48, 0x69]).2 ∧
      ∀ front character back, [0x02, 0x48, 0x69] = front ++ character :: back →
        character ≠ 0x02 →
        (overlayString 0xf3c00000 2560 0xffffffff [0x02, 0x48, 0x69]).1 =
          (overlayString 0xf3c00000 2560 0xffffffff front).1 ++
            ((overlayCharacter (0xf3c00000 + getStringTotalWidth front * 4) 2560 0xffffffff
                character (doubledAfter false front)).1 ++
              (overlayStringFrom 0xf3c00000 2560 0xffffffff (doubledAfter false front)
                (getStringTotalWidth (front ++ [character])) back).1) :=
  overlayString_measured 0xf3c00000 2560 0xffffffff [0x02, 0x48, 0x69] (by decide) (by decide)

end Cromwell.Video
