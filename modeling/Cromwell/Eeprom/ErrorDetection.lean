import Mathlib.Tactic
import Cromwell.Eeprom.Settings

/-!
# What the checksum of the EEPROM detects

Every byte but the last one is the high byte of a word of the rotated data, and of
one word only, so a change of it changes the high byte of one of the four sums.
The last byte comes first in the rotated data. It is a low byte only, and a change
of it is seen when it changes the borrow.
-/

namespace Cromwell.Eeprom

open Cromwell.Std

/-! ## Sums of words -/

/-- The words at some positions subtracted from a value. -/
def laneValue (rotated : List Byte) (start : UInt16) (positions : List Nat) : UInt16 :=
  positions.foldl (fun value l => value - wordAt rotated l) start

section Lane

variable {rotated other : List Byte} {positions : List Nat}

theorem laneValue_sub (rotated : List Byte) (start word : UInt16) (positions : List Nat) :
    laneValue rotated (start - word) positions = laneValue rotated start positions - word := by
  induction positions generalizing start with
  | nil => rfl
  | cons l positions ih =>
      have exchanged : start - word - wordAt rotated l = start - wordAt rotated l - word := by
        grind
      show laneValue rotated (start - word - wordAt rotated l) positions = _
      rw [exchanged, ih]
      rfl

theorem laneValue_cons (rotated : List Byte) (start : UInt16) (l : Nat) (positions : List Nat) :
    laneValue rotated start (l :: positions) =
      laneValue rotated start positions - wordAt rotated l :=
  laneValue_sub rotated start (wordAt rotated l) positions

theorem laneValue_congr (start : UInt16)
    (same : ∀ l ∈ positions, wordAt rotated l = wordAt other l) :
    laneValue rotated start positions = laneValue other start positions := by
  induction positions generalizing start with
  | nil => rfl
  | cons l positions ih =>
      show laneValue rotated (start - wordAt rotated l) positions = _
      rw [same l List.mem_cons_self, ih _ fun k member => same k (List.mem_cons_of_mem l member)]
      rfl

/-- One word differs. -/
theorem laneValue_change (start : UInt16) {m : Nat} (nodup : positions.Nodup)
    (member : m ∈ positions)
    (same : ∀ l ∈ positions, l ≠ m → wordAt rotated l = wordAt other l) :
    laneValue rotated start positions + wordAt rotated m =
      laneValue other start positions + wordAt other m := by
  induction positions generalizing start with
  | nil => exact absurd member List.not_mem_nil
  | cons l positions ih =>
      obtain ⟨fresh, rest⟩ := List.nodup_cons.mp nodup
      rw [laneValue_cons, laneValue_cons]
      rcases List.mem_cons.mp member with rfl | later
      · have equal := laneValue_congr start fun k inside =>
          same k (List.mem_cons_of_mem m inside) fun here => fresh (here ▸ inside)
        rw [equal]
        grind
      · have different : l ≠ m := fun here => fresh (here ▸ later)
        have step := ih start rest later fun k inside =>
          same k (List.mem_cons_of_mem l inside)
        rw [same l List.mem_cons_self different]
        grind

end Lane

theorem toNat_wordAt (bytes : List Byte) (position : Nat) : (wordAt bytes position).toNat =
    (bytes.getD position 0).toNat + 256 * (bytes.getD (position + 1) 0).toNat := by
  have low := (bytes.getD position 0).toNat_lt
  have high := (bytes.getD (position + 1) 0).toNat_lt
  have joined := Nat.two_pow_add_eq_or_of_lt low (bytes.getD (position + 1) 0).toNat
  have shifted : ((bytes.getD (position + 1) 0).toNat <<< 8) % 2 ^ 16 =
      2 ^ 8 * (bytes.getD (position + 1) 0).toNat := by
    rw [Nat.shiftLeft_eq]
    omega
  have eight : (8 : UInt16).toNat % 16 = 8 := rfl
  rw [wordAt, UInt16.toNat_or, UInt16.toNat_shiftLeft, UInt8.toNat_toUInt16, UInt8.toNat_toUInt16,
    eight, shifted, Nat.or_comm, ← joined]
  omega

/-- The byte of the checksum that a sum gives. -/
theorem toNat_highByte (value : UInt16) :
    ((value &&& 0xFF00) >>> 8).toUInt8.toNat = value.toNat / 256 := by
  have bound := value.toNat_lt
  have masked : value.toNat &&& 0xFF00 = value.toNat / 2 ^ 8 * 2 ^ 8 :=
    and_highMask 16 8 (by omega) bound
  have eight : (8 : UInt16).toNat % 16 = 8 := rfl
  have mask : (0xFF00 : UInt16).toNat = 0xFF00 := rfl
  rw [UInt16.toNat_toUInt8, UInt16.toNat_shiftRight, UInt16.toNat_and, mask, masked, eight,
    Nat.shiftRight_eq_div_pow]
  omega

/-! ## The rotated data -/

/-- The last byte comes first, and zeros follow. -/
theorem getD_crcData {data : List Byte} (nonempty : 0 < data.length) (k : Nat) :
    (crcData data).getD k 0 =
      if k = 0 then data.getD (data.length - 1) 0
      else if k < data.length then data.getD (k - 1) 0 else 0 := by
  have last : (data.drop (data.length - 1)).length = 1 := by
    rw [List.length_drop]
    omega
  have front : (data.take (data.length - 1)).length = data.length - 1 := by
    rw [List.length_take]
    omega
  simp only [crcData, List.getD_eq_getElem?_getD, List.getElem?_append, List.length_append, last,
    front]
  rcases Nat.eq_zero_or_pos k with rfl | positive
  · simp [show 0 < 1 + (data.length - 1) by omega]
  · by_cases inside : k < data.length
    · have within : k - 1 < data.length := by omega
      simp [show k < 1 + (data.length - 1) by omega, show ¬k < 1 by omega,
        show k - 1 < data.length - 1 by omega, Nat.ne_of_gt positive, inside,
        List.getElem?_eq_getElem within]
    · have zeros : (List.replicate 4 (0 : Byte))[k - (1 + (data.length - 1))]?.getD 0 = 0 := by
        rw [List.getElem?_replicate]
        split_ifs <;> rfl
      simp only [show ¬k < 1 + (data.length - 1) by omega, Nat.ne_of_gt positive, inside, if_false,
        zeros]

/-- Where the byte of a position stands in the rotated data. -/
def rotatedPosition (length i : Nat) : Nat := if i + 1 = length then 0 else i + 1

/-- Two lists of bytes that differ at one position. -/
structure DifferAt (i : Nat) (data other : List Byte) : Prop where
  inside : i < data.length
  length : other.length = data.length
  differ : data.getD i 0 ≠ other.getD i 0
  same : ∀ j, j ≠ i → data.getD j 0 = other.getD j 0

variable {i : Nat} {data other : List Byte}

theorem differAt_set {byte : Byte} (inside : i < data.length) (changed : data.getD i 0 ≠ byte) :
    DifferAt i data (data.set i byte) where
  inside := inside
  length := List.length_set
  differ := by
    simpa [List.getD_eq_getElem?_getD, List.getElem?_set_self inside] using changed
  same := by
    intro j elsewhere
    rw [List.getD_eq_getElem?_getD, List.getD_eq_getElem?_getD,
      List.getElem?_set_ne (Ne.symm elsewhere)]

theorem DifferAt.rotated_same (differ : DifferAt i data other) {k : Nat}
    (elsewhere : k ≠ rotatedPosition data.length i) :
    (crcData data).getD k 0 = (crcData other).getD k 0 := by
  obtain ⟨inside, length, _, same⟩ := differ
  unfold rotatedPosition at elsewhere
  rw [getD_crcData (by omega), getD_crcData (by omega), length]
  split_ifs with first within
  · apply same
    split at elsewhere <;> omega
  · apply same
    split at elsewhere <;> omega
  · rfl

theorem DifferAt.rotated_differ (differ : DifferAt i data other) :
    (crcData data).getD (rotatedPosition data.length i) 0 = data.getD i 0 ∧
      (crcData other).getD (rotatedPosition data.length i) 0 = other.getD i 0 := by
  obtain ⟨inside, length, _, _⟩ := differ
  unfold rotatedPosition
  rw [getD_crcData (by omega), getD_crcData (by omega), length]
  split
  · next last =>
    have before : data.length - 1 = i := by omega
    simp [before]
  · next earlier =>
    have within : i + 1 < data.length := by omega
    simp [within]

theorem DifferAt.wordAt_same (differ : DifferAt i data other) {l : Nat}
    (low : l ≠ rotatedPosition data.length i) (high : l + 1 ≠ rotatedPosition data.length i) :
    wordAt (crcData data) l = wordAt (crcData other) l := by
  rw [wordAt, wordAt, differ.rotated_same low, differ.rotated_same high]

/-! ## The four sums -/

/-- The positions whose words make up a byte of the checksum. -/
def lane (length pos : Nat) : List Nat := List.range' pos ((length + 3 - pos) / 4) 4

theorem mem_lane {length pos l : Nat} (small : pos < 4) :
    l ∈ lane length pos ↔ l < length ∧ l % 4 = pos := by
  unfold lane
  rw [List.mem_range']
  constructor
  · rintro ⟨k, below', rfl⟩
    omega
  · rintro ⟨inside, rest⟩
    exact ⟨l / 4, by omega, by omega⟩

theorem nodup_lane (length pos : Nat) : (lane length pos).Nodup :=
  List.nodup_range' 4 (by decide)

/-- The sum of a byte of the checksum. -/
def crcPosVal (data : List Byte) (pos : Nat) : UInt16 :=
  laneValue (crcData data) 0xFFFF (lane data.length pos)

theorem toNat_crcByte (data : List Byte) (pos : Nat) :
    (crcByte data pos).toNat = (crcPosVal data pos).toNat / 256 :=
  toNat_highByte (crcPosVal data pos)

/-- The checksum changes with one of its four sums. -/
theorem eepromCRC_ne_iff : eepromCRC data ≠ eepromCRC other ↔
    ∃ pos < 4, (crcPosVal data pos).toNat / 256 ≠ (crcPosVal other pos).toNat / 256 := by
  have bytes : eepromCRC data = eepromCRC other ↔
      ∀ pos < 4, crcByte data pos = crcByte other pos := by
    simp [eepromCRC]
  rw [ne_eq, bytes]
  push Not
  simp only [ne_eq, ← UInt8.toNat_inj, toNat_crcByte]

/-! ## A change of any byte but the last -/

theorem DifferAt.high_byte_changes (differ : DifferAt i data other)
    (earlier : i + 1 < data.length) :
    (crcPosVal data (i % 4)).toNat / 256 ≠ (crcPosVal other (i % 4)).toNat / 256 := by
  have small : i % 4 < 4 := Nat.mod_lt i (by omega)
  have place : rotatedPosition data.length i = i + 1 := if_neg (by omega)
  -- The word above the byte belongs to another sum.
  have elsewhere : ∀ l ∈ lane data.length (i % 4), l ≠ i →
      wordAt (crcData data) l = wordAt (crcData other) l := by
    intro l member different
    obtain ⟨_, rest⟩ := (mem_lane small).mp member
    apply differ.wordAt_same <;> rw [place] <;> omega
  have change := laneValue_change 0xFFFF (nodup_lane data.length (i % 4))
    ((mem_lane small).mpr ⟨differ.inside, rfl⟩) elsewhere
  have low : (crcData data).getD i 0 = (crcData other).getD i 0 :=
    differ.rotated_same (by rw [place]; omega)
  obtain ⟨here, there⟩ := differ.rotated_differ
  rw [place] at here there
  have sums := congrArg UInt16.toNat change
  rw [UInt16.toNat_add, UInt16.toNat_add, toNat_wordAt, toNat_wordAt, low, here, there] at sums
  have bytes : (data.getD i 0).toNat ≠ (other.getD i 0).toNat := fun equal =>
    differ.differ (UInt8.toNat_inj.mp equal)
  have first := (data.getD i 0).toNat_lt
  have second := (other.getD i 0).toNat_lt
  unfold crcPosVal
  rw [differ.length]
  omega

/-! ## A change of the last byte -/

/-- What the last byte may be without a borrow from the high byte of the first sum. -/
def slack (data : List Byte) : Byte :=
  (List.range' 3 ((data.length - 1) / 4) 4).foldl (fun value j => value - data.getD j 0) 0xFF

theorem toUInt8_wordAt (bytes : List Byte) (position : Nat) :
    (wordAt bytes position).toUInt8 = bytes.getD position 0 := by
  have low := (bytes.getD position 0).toNat_lt
  apply UInt8.toNat_inj.mp
  rw [UInt16.toNat_toUInt8, toNat_wordAt]
  omega

/-- The low byte of a sum is a sum of low bytes. -/
theorem toUInt8_laneValue {positions : List Nat} (start : UInt16)
    (inside : ∀ j ∈ positions, j + 1 < data.length) :
    (laneValue (crcData data) start (positions.map (1 + ·))).toUInt8 =
      positions.foldl (fun value j => value - data.getD j 0) start.toUInt8 := by
  induction positions generalizing start with
  | nil => rfl
  | cons j positions ih =>
      have within := inside j List.mem_cons_self
      have word : (wordAt (crcData data) (1 + j)).toUInt8 = data.getD j 0 := by
        rw [toUInt8_wordAt, getD_crcData (by omega), if_neg (by omega), if_pos (by omega)]
        simp
      show (laneValue (crcData data) (start - wordAt (crcData data) (1 + j)) _).toUInt8 = _
      rw [ih _ fun k member => inside k (List.mem_cons_of_mem j member), UInt16.toUInt8_sub, word]
      rfl

/-- The words of the first sum without the one that holds the last byte. -/
def laterValue (data : List Byte) : UInt16 :=
  laneValue (crcData data) 0xFFFF ((List.range' 3 ((data.length - 1) / 4) 4).map (1 + ·))

theorem toUInt8_laterValue (data : List Byte) : (laterValue data).toUInt8 = slack data := by
  apply toUInt8_laneValue
  intro j member
  obtain ⟨k, few, rfl⟩ := List.mem_range'.mp member
  omega

theorem crcPosVal_zero (nonempty : 0 < data.length) :
    crcPosVal data 0 = laterValue data - wordAt (crcData data) 0 := by
  have count : (data.length + 3 - 0) / 4 = (data.length - 1) / 4 + 1 := by omega
  have positions : lane data.length 0 =
      0 :: (List.range' 3 ((data.length - 1) / 4) 4).map (1 + ·) := by
    rw [lane, count, List.range'_succ, List.map_add_range']
  rw [crcPosVal, positions, laneValue_cons, laterValue]

/-- The high byte of the first sum, with the borrow that the last byte causes. -/
theorem high_crcPosVal_zero (data : List Byte) (nonempty : 0 < data.length) :
    (crcPosVal data 0).toNat / 256 =
      ((laterValue data).toNat / 256 + 512 - ((crcData data).getD 1 0).toNat -
        (if data.getD (data.length - 1) 0 ≤ slack data then 0 else 1)) % 256 := by
  have first : (crcData data).getD 0 0 = data.getD (data.length - 1) 0 := by
    rw [getD_crcData nonempty, if_pos rfl]
  have low := congrArg UInt8.toNat (toUInt8_laterValue data)
  have bound := (laterValue data).toNat_lt
  have last := (data.getD (data.length - 1) 0).toNat_lt
  have second := ((crcData data).getD 1 0).toNat_lt
  rw [UInt16.toNat_toUInt8] at low
  rw [crcPosVal_zero nonempty, UInt16.toNat_sub, toNat_wordAt, first, Nat.zero_add]
  split_ifs with fits <;> rw [UInt8.le_iff_toNat_le, ← low] at fits <;> omega

theorem DifferAt.borrow_changes_iff (differ : DifferAt i data other) (last : i + 1 = data.length) :
    (crcPosVal data 0).toNat / 256 ≠ (crcPosVal other 0).toNat / 256 ↔
      ¬(data.getD i 0 ≤ slack data ↔ other.getD i 0 ≤ slack data) := by
  have place : rotatedPosition data.length i = 0 := if_pos last
  have nonempty : 0 < data.length := by omega
  have before : data.length - 1 = i := by omega
  have high : (crcData data).getD 1 0 = (crcData other).getD 1 0 :=
    differ.rotated_same (by rw [place]; omega)
  -- Neither the later words nor the slack hold the last byte.
  have later : laterValue data = laterValue other := by
    unfold laterValue
    rw [differ.length]
    apply laneValue_congr
    intro l member
    obtain ⟨j, _, rfl⟩ := List.mem_map.mp member
    apply differ.wordAt_same <;> rw [place] <;> omega
  have room : slack data = slack other := by
    rw [← toUInt8_laterValue, later, toUInt8_laterValue]
  have second := ((crcData other).getD 1 0).toNat_lt
  rw [high_crcPosVal_zero data nonempty, high_crcPosVal_zero other (by rw [differ.length]; omega),
    differ.length, before, high, later, room]
  by_cases agree : data.getD i 0 ≤ slack other ↔ other.getD i 0 ≤ slack other
  · simp only [agree, ne_eq, not_true_eq_false]
  · apply iff_of_true _ agree
    split_ifs with fits others others
    · exact absurd (iff_of_true fits others) agree
    · omega
    · omega
    · exact absurd (iff_of_false fits others) agree

/-- A change of one byte changes the checksum, except a change of the last byte that leaves the
borrow as it was. -/
theorem eepromCRC_detects (differ : DifferAt i data other) : eepromCRC data ≠ eepromCRC other ↔
    i + 1 < data.length ∨ ¬(data.getD i 0 ≤ slack data ↔ other.getD i 0 ≤ slack data) := by
  rw [eepromCRC_ne_iff]
  rcases Nat.lt_or_eq_of_le (Nat.succ_le_of_lt differ.inside) with earlier | last
  · have changed : ∃ pos < 4,
        (crcPosVal data pos).toNat / 256 ≠ (crcPosVal other pos).toNat / 256 :=
      ⟨i % 4, Nat.mod_lt i (by omega), differ.high_byte_changes earlier⟩
    exact iff_of_true changed (Or.inl earlier)
  · rw [← differ.borrow_changes_iff last, or_iff_right (by omega)]
    constructor
    · rintro ⟨pos, small, changed⟩
      -- The other three sums hold no byte that differs.
      have first : pos = 0 := by
        by_contra positive
        apply changed
        have equal : crcPosVal data pos = crcPosVal other pos := by
          unfold crcPosVal
          rw [differ.length]
          apply laneValue_congr
          intro l member
          obtain ⟨_, rest⟩ := (mem_lane small).mp member
          apply differ.wordAt_same <;> rw [rotatedPosition, if_pos last] <;> omega
        rw [equal]
      exact first ▸ changed
    · intro changed
      exact ⟨0, by omega, changed⟩

/-- A change that borrows is seen. -/
theorem eepromCRC_detects_borrow :
    eepromCRC [0, 0, 0, 255, 0] ≠ eepromCRC [0, 0, 0, 255, 1] ↔
      4 + 1 < 5 ∨ ¬((0 : Byte) ≤ slack [0, 0, 0, 255, 0] ↔ (1 : Byte) ≤ slack [0, 0, 0, 255, 0]) :=
  have changed : DifferAt 4 [0, 0, 0, 255, 0] [0, 0, 0, 255, 1] :=
    differAt_set (by decide) (by decide)
  eepromCRC_detects changed

/-- A change of the last byte that no borrow tells. -/
theorem not_eepromCRC_detects : ¬∀ (i : Nat) (data other : List Byte), 4 ≤ data.length →
    DifferAt i data other → eepromCRC data ≠ eepromCRC other := by
  intro detects
  have corrupted : DifferAt 3 [0, 0, 0, 0] [0, 0, 0, 1] :=
    differAt_set (by decide) (by decide)
  exact detects 3 [0, 0, 0, 0] [0, 0, 0, 1] (by decide) corrupted (by decide)

end Cromwell.Eeprom
