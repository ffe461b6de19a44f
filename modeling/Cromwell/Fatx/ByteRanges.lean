import Cromwell.Fatx.RawRead

/-!
# Byte ranges of a drive

A raw read that begins with a sector reads every length: whole sectors and a shorter one at
the end. One that begins in the middle of a sector counts bytes that it has not kept, so
that it gives the range asked for on no drive that has it.
-/

namespace Cromwell.Fatx

open Cromwell.Std

/-! ## What a range holds -/

/-- A byte of a drive, counted from its start. There is none behind the last sector that can
be addressed, nor in a sector that cannot be read. -/
def driveByte (disk : Disk) (drive : Int32) (position : Nat) : Option Byte :=
  if position / 512 < 2 ^ 32 then
    (disk drive (UInt32.ofNat (position / 512))).map fun data => data (position % 512)
  else none

/-- Every byte of a range can be read. -/
def Available (disk : Disk) (drive : Int32) (position length : Nat) : Prop :=
  ∀ k < length, (driveByte disk drive (position + k)).isSome

/-- The range arrives, and nothing else changes. -/
structure Arrived (disk : Disk) (drive : Int32) (position length : Nat) (buf : Memory)
    (result : ReadResult) : Prop where
  value : result.value = some (length : Int)
  contents : ∀ k < length, driveByte disk drive (position + k) = some (result.buffer k)
  outside : ∀ x, length ≤ x → result.buffer x = buf x

/-- What a raw read should do: a range that can be read arrives, and for another one the
call does not return its length. -/
structure ReadsRange (disk : Disk) (drive : Int32) (position length : Nat) (buf : Memory)
    (result : ReadResult) : Prop where
  arrived : Available disk drive position length →
    Arrived disk drive position length buf result
  failed : ¬Available disk drive position length →
    ∃ value, result.value = some value ∧ value ≠ (length : Int)

/-! ## Reads that begin with a sector -/

/-- The sectors that so many bytes from the start of a sector lie in. -/
def sectorsOf (length : Nat) : Nat := (length + 511) / 512

section Aligned

variable {disk : Disk} {ba : Memory} {drive : Int32} {count length : Nat}

/-- What a raw read of so many bytes ends with. -/
structure ReadBytes (disk : Disk) (drive : Int32) (length : Nat) (read : RawRead)
    (result : ReadResult) : Prop where
  value : result.value = some (if readable disk drive (sectorsOf length) read.sector =
    sectorsOf length then read.byteRead + length else 0)
  stored : ∀ x, result.buffer x = if read.buf ≤ x ∧ x < read.buf +
      min length (512 * readable disk drive (sectorsOf length) read.sector) then
    diskByte disk drive read.sector (x - read.buf)
  else read.buffer x

/-- The read after the first bytes of a sector. -/
def RawRead.nextBytes (read : RawRead) (data : Memory) (bytes : Nat) : RawRead :=
  { buffer := read.buffer.memcpy read.buf data 0 bytes
    buf := read.buf + bytes
    sector := read.sector + 1
    byteOffset := 0
    byteLen := read.byteLen - bytes
    byteRead := read.byteRead + bytes
    sectors := read.sector :: read.sectors }

/-- A pass at the start of a sector reads a whole one, or what is left. -/
theorem rawReadSector_aligned {read : RawRead} {data : Memory} (aligned : read.byteOffset = 0)
    (remaining : read.byteLen = (length : Int)) (more : length ≠ 0)
    (content : disk drive read.sector = some data) :
    rawReadSector disk ba drive read = .next (read.nextBytes data (min length 512)) := by
  have some_left : read.byteLen ≠ 0 := by omega
  have count : (if read.byteLen < 512 then read.byteLen else 512) =
      ((min length 512 : Nat) : Int) := by
    split <;> omega
  generalize min length 512 = bytes at count ⊢
  have natural : ¬(bytes : Int) < 0 := by omega
  simp [rawReadSector, some_left, content, aligned, RawRead.nextBytes, count, natural]

/-- The first sector and the bytes after it. -/
theorem ReadBytes.cons {read : RawRead} {result : ReadResult} {data : Memory}
    (more : length ≠ 0) (content : disk drive read.sector = some data)
    (rest : ReadBytes disk drive (length - min length 512)
      (read.nextBytes data (min length 512)) result) :
    ReadBytes disk drive length read result := by
  have sectors : sectorsOf length = sectorsOf (length - min length 512) + 1 := by
    unfold sectorsOf
    omega
  have one : readable disk drive (sectorsOf length) read.sector =
      readable disk drive (sectorsOf (length - min length 512)) (read.sector + 1) + 1 := by
    rw [sectors, readable, content]
  have value : result.value = some (if readable disk drive
      (sectorsOf (length - min length 512)) (read.sector + 1) = sectorsOf (length - min length 512)
      then read.byteRead + (min length 512 : Nat) + (length - min length 512 : Nat) else 0) :=
    rest.value
  have stored : ∀ x, result.buffer x = if read.buf + min length 512 ≤ x ∧
      x < read.buf + min length 512 + min (length - min length 512)
        (512 * readable disk drive (sectorsOf (length - min length 512)) (read.sector + 1)) then
      diskByte disk drive (read.sector + 1) (x - (read.buf + min length 512))
    else read.buffer.memcpy read.buf data 0 (min length 512) x := rest.stored
  constructor
  · rw [value, one, sectors]
    by_cases all : readable disk drive (sectorsOf (length - min length 512)) (read.sector + 1) =
        sectorsOf (length - min length 512)
    · rw [if_pos all, if_pos (congrArg Nat.succ all)]
      congr 1
      omega
    · rw [if_neg all, if_neg fun same => all (Nat.succ.inj same)]
  · intro x
    rw [stored x, one]
    rcases Nat.lt_or_ge x read.buf with before | behind
    · rw [if_neg (by omega), if_neg (by omega), Memory.memcpy_outside _ _ (.inl before)]
    · rcases Nat.lt_or_ge x (read.buf + min length 512) with first | later
      · rw [if_neg (by omega), if_pos (by omega), Memory.memcpy_inside _ _ behind first,
          diskByte_first content (by omega), Nat.zero_add]
      · rw [Memory.memcpy_outside _ _ (.inr later)]
        by_cases long : 512 ≤ length
        · have position : x - read.buf = x - (read.buf + min length 512) + 512 := by omega
          rw [position, diskByte_later]
          congr 1
          exact propext (by omega)
        · rw [if_neg (by omega), if_neg (by omega)]

/-- A raw read from the start of a sector goes through its sectors in order up to the first
that cannot be read. -/
theorem whileLoop_aligned (disk : Disk) (ba : Memory) (drive : Int32) (length : Nat)
    (read : RawRead) (aligned : read.byteOffset = 0) (remaining : read.byteLen = (length : Int)) :
    ∃ result, whileLoop (rawReadSector disk ba drive) (sectorsOf length + 1) read =
      .leave result ∧ ReadBytes disk drive length read result := by
  induction sectors : sectorsOf length generalizing read length with
  | zero =>
      have none : length = 0 := by
        unfold sectorsOf at sectors
        omega
      have done : read.byteLen = 0 := by omega
      refine ⟨⟨some read.byteRead, read.buffer, read.sectors⟩, ?_, ?_⟩
      · simp [whileLoop_succ, rawReadSector, done, Pass.andThen]
      · have outside : ∀ x, ¬(read.buf ≤ x ∧ x < read.buf) := fun x => by omega
        exact ⟨by simp [none, sectorsOf, readable], by simp [none, outside]⟩
  | succ count ih =>
      have more : length ≠ 0 := by
        rintro rfl
        cases sectors
      have some_left : read.byteLen ≠ 0 := by omega
      rw [whileLoop_succ]
      cases content : disk drive read.sector with
      | none =>
          refine ⟨⟨some 0, read.buffer, read.sector :: read.sectors⟩, ?_, ?_⟩
          · simp [rawReadSector, some_left, content, Pass.andThen]
          · have outside : ∀ x, ¬(read.buf ≤ x ∧ x < read.buf) := fun x => by omega
            exact ⟨by simp [sectors, readable, content],
              by simp [sectors, readable, content, outside]⟩
      | some data =>
          have later : sectorsOf (length - min length 512) = count := by
            unfold sectorsOf at sectors ⊢
            omega
          have left : (read.nextBytes data (min length 512)).byteLen =
              ((length - min length 512 : Nat) : Int) := by
            change read.byteLen - ((min length 512 : Nat) : Int) = _
            omega
          obtain ⟨result, run, rest⟩ := ih (length - min length 512)
            (read.nextBytes data (min length 512)) rfl left later
          rw [rawReadSector_aligned aligned remaining more content]
          exact ⟨result, run, rest.cons more content⟩

end Aligned

/-! ## Whole calls -/

/-- Where a call begins to read. -/
def firstSector (sector : UInt32) (byteOffset : UInt64) : UInt32 :=
  sector + (byteOffset / 512).toUInt32

/-- Where the range of a call begins on the drive. -/
def rangeStart (sector : UInt32) (byteOffset : UInt64) : Nat :=
  sector.toNat * 512 + byteOffset.toNat

/-- How many sectors a call asks for if none of them fails. Of one that it enters in the
middle it counts what is left, or as much less than the range. -/
def asked (byteOffset : UInt64) (length : Nat) : Nat :=
  if byteOffset.toNat % 512 = 0 then sectorsOf length
  else sectorsOf (length - (min length 512 - byteOffset.toNat % 512)) + 1

/-- The call comes to a sector that cannot be read. -/
def MeetsError (disk : Disk) (drive : Int32) (sector : UInt32) (byteOffset : UInt64)
    (length : Nat) : Prop :=
  disk drive (firstSector sector byteOffset) = none ∨
    (byteOffset.toNat % 512 ≤ length ∧ readable disk drive (asked byteOffset length)
      (firstSector sector byteOffset) < asked byteOffset length)

section Calls

variable {disk : Disk} {ba buf : Memory} {drive : Int32} {sector : UInt32} {byteOffset : UInt64}
  {byteLen : Int32} {length : Nat} {data : Memory}

/-- The sectors of a range are those counted from the first, unless they are behind the
last that can be addressed. -/
theorem driveByte_range (disk : Disk) (drive : Int32) (sector : UInt32) (byteOffset : UInt64)
    (k : Nat) : driveByte disk drive (rangeStart sector byteOffset + k) =
      if (rangeStart sector byteOffset + k) / 512 < 2 ^ 32 then
        (disk drive (firstSector sector byteOffset +
          UInt32.ofNat ((byteOffset.toNat % 512 + k) / 512))).map
            fun data => data ((byteOffset.toNat % 512 + k) % 512)
      else none := by
  have place : UInt32.ofNat ((rangeStart sector byteOffset + k) / 512) =
      firstSector sector byteOffset + UInt32.ofNat ((byteOffset.toNat % 512 + k) / 512) := by
    apply UInt32.toNat_inj.mp
    rw [firstSector, UInt32.toNat_add, UInt32.toNat_add, UInt32.toNat_ofNat', UInt32.toNat_ofNat',
      UInt64.toNat_toUInt32, UInt64.toNat_div, rangeStart]
    change _ = ((sector.toNat + byteOffset.toNat / 512 % 2 ^ 32) % 2 ^ 32 + _) % 2 ^ 32
    omega
  have offset : (rangeStart sector byteOffset + k) % 512 = (byteOffset.toNat % 512 + k) % 512 := by
    unfold rangeStart
    omega
  rw [driveByte, place, offset]

/-- The first sector of a range that can be read can be read. -/
theorem Available.first
    (available : Available disk drive (rangeStart sector byteOffset) length) (more : length ≠ 0) :
    ∃ data, disk drive (firstSector sector byteOffset) = some data ∧
      driveByte disk drive (rangeStart sector byteOffset) =
        some (data (byteOffset.toNat % 512)) := by
  have byte := available 0 (Nat.pos_of_ne_zero more)
  have small : byteOffset.toNat % 512 / 512 = 0 := Nat.div_eq_of_lt (Nat.mod_lt _ (by decide))
  have whole := driveByte_range disk drive sector byteOffset 0
  rw [Nat.add_zero, Nat.add_zero, Nat.mod_mod, small] at whole
  rw [Nat.add_zero, whole] at byte
  rw [whole]
  split at byte
  · next addressed =>
    have here : firstSector sector byteOffset + UInt32.ofNat 0 = firstSector sector byteOffset :=
      UInt32.add_zero _
    rw [here] at byte ⊢
    rw [if_pos addressed]
    cases content : disk drive (firstSector sector byteOffset) with
    | none =>
        rw [content] at byte
        cases byte
    | some data => exact ⟨data, rfl, rfl⟩
  · cases byte

/-- So can all of its sectors, if it begins with one. -/
theorem Available.readable_eq
    (available : Available disk drive (rangeStart sector byteOffset) length)
    (aligned : byteOffset.toNat % 512 = 0) :
    readable disk drive (sectorsOf length) (firstSector sector byteOffset) = sectorsOf length := by
  apply readable_of_reads
  intro k bound missing
  unfold sectorsOf at bound
  have byte := available (k * 512) (by omega)
  rw [driveByte_range, aligned, Nat.zero_add, Nat.mul_div_cancel k (by decide), missing] at byte
  split at byte <;> cases byte

/-- Where the loop of a call begins. -/
def RawRead.start (sector : UInt32) (byteOffset : UInt64) (byteLen : Int32) (buf : Memory) :
    RawRead :=
  { buffer := buf
    buf := 0
    sector := firstSector sector byteOffset
    byteOffset := (byteOffset % 512).toNat
    byteLen := byteLen.toInt
    byteRead := 0
    sectors := [] }

/-- A call ends where its loop is left, within as many passes as it has bytes and two. -/
theorem fatxRawRead_of_leave {fuel : Nat} {result : ReadResult}
    (enough : fuel ≤ byteLen.toInt.toNat + 2)
    (run : whileLoop (rawReadSector disk ba drive) fuel
      (RawRead.start sector byteOffset byteLen buf) = .leave result) :
    fatxRawRead disk ba drive sector byteOffset byteLen buf = result := by
  obtain ⟨more, passes⟩ := Nat.exists_eq_add_of_le enough
  unfold RawRead.start firstSector at run
  rw [fatxRawRead, passes, whileLoop_leave_add run]

/-- A call that begins with a sector. -/
theorem fatxRawRead_aligned (disk : Disk) (ba : Memory) (drive : Int32) (sector : UInt32)
    (byteOffset : UInt64) (buf : Memory) (aligned : byteOffset.toNat % 512 = 0)
    (counted : byteLen.toInt = (length : Int)) :
    (fatxRawRead disk ba drive sector byteOffset byteLen buf).value =
        some (if readable disk drive (sectorsOf length) (firstSector sector byteOffset) =
          sectorsOf length then (length : Int) else 0) ∧
      ∀ x, (fatxRawRead disk ba drive sector byteOffset byteLen buf).buffer x =
        if x < min length
            (512 * readable disk drive (sectorsOf length) (firstSector sector byteOffset)) then
          diskByte disk drive (firstSector sector byteOffset) x
        else buf x := by
  have start : (byteOffset % 512).toNat = 0 := by
    rw [UInt64.toNat_mod]
    exact aligned
  obtain ⟨final, run, value, stored⟩ := whileLoop_aligned disk ba drive length
    (RawRead.start sector byteOffset byteLen buf) start counted
  have enough : sectorsOf length + 1 ≤ byteLen.toInt.toNat + 2 := by
    unfold sectorsOf
    omega
  rw [fatxRawRead_of_leave enough run]
  exact ⟨by simpa [RawRead.start] using value, fun x => by simpa [RawRead.start] using stored x⟩

/-- A first sector that cannot be read ends the call. -/
theorem fatxRawRead_error (missing : disk drive (firstSector sector byteOffset) = none)
    (more : byteLen.toInt ≠ 0) :
    (fatxRawRead disk ba drive sector byteOffset byteLen buf).value = some 0 := by
  unfold firstSector at missing
  simp [fatxRawRead, whileLoop_succ, rawReadSector, more, missing, Pass.andThen]

/-- A range that is shorter than its first sector is before it leaves the call without an
outcome. -/
theorem fatxRawRead_short (content : disk drive (firstSector sector byteOffset) = some data)
    (counted : byteLen.toInt = (length : Int)) (more : length ≠ 0)
    (short : length < byteOffset.toNat % 512) :
    (fatxRawRead disk ba drive sector byteOffset byteLen buf).value = none := by
  have start : (byteOffset % 512).toNat = byteOffset.toNat % 512 := UInt64.toNat_mod _ _
  have some_left : byteLen.toInt ≠ 0 := by omega
  have negative : (if byteLen.toInt < 512 then byteLen.toInt else 512) -
      ((byteOffset.toNat % 512 : Nat) : Int) < 0 := by
    split <;> omega
  unfold firstSector at content
  rw [fatxRawRead, whileLoop_succ]
  simp only [rawReadSector, some_left, if_false, content, start, negative, if_true,
    Pass.andThen]

/-- The read after the first sector, of which so many bytes are counted. -/
def RawRead.afterFirst (ba data buf : Memory) (sector : UInt32) (byteOffset : UInt64)
    (byteLen : Int32) (count : Nat) : RawRead :=
  { buffer := (buf.memcpy 0 data 0 512).memcpy 0 ba (byteOffset.toNat % 512) count
    buf := count
    sector := firstSector sector byteOffset + 1
    byteOffset := 0
    byteLen := byteLen.toInt - count
    byteRead := count
    sectors := [firstSector sector byteOffset] }

section Misaligned

variable (content : disk drive (firstSector sector byteOffset) = some data)
  (misaligned : byteOffset.toNat % 512 ≠ 0) (counted : byteLen.toInt = (length : Int))
  (more : length ≠ 0)

include content misaligned counted more

/-- The first pass of a call that begins in the middle of a sector. -/
theorem rawReadSector_misaligned (long : byteOffset.toNat % 512 ≤ length) :
    rawReadSector disk ba drive (RawRead.start sector byteOffset byteLen buf) =
      .next (RawRead.afterFirst ba data buf sector byteOffset byteLen
        (min length 512 - byteOffset.toNat % 512)) := by
  have start : (byteOffset % 512).toNat = byteOffset.toNat % 512 := UInt64.toNat_mod _ _
  have some_left : byteLen.toInt ≠ 0 := by omega
  have inside : byteOffset.toNat % 512 < 512 := Nat.mod_lt _ (by decide)
  have taken : (if byteLen.toInt < 512 then byteLen.toInt else 512) -
      ((byteOffset.toNat % 512 : Nat) : Int) =
        ((min length 512 - byteOffset.toNat % 512 : Nat) : Int) := by
    split <;> omega
  have natural : ¬((min length 512 - byteOffset.toNat % 512 : Nat) : Int) < 0 := by omega
  simp only [rawReadSector, RawRead.start, RawRead.afterFirst, some_left, if_false, content, start,
    taken, natural, misaligned, ne_eq, not_false_eq_true, if_true, Int.toNat_natCast, zero_add]

/-- It counts as many bytes as it copies from `ba`, and reads the rest from the next sector
on. -/
theorem fatxRawRead_misaligned (ba buf : Memory) (long : byteOffset.toNat % 512 ≤ length) :
    let count := min length 512 - byteOffset.toNat % 512
    let sectors := sectorsOf (length - count)
    let next := firstSector sector byteOffset + 1
    let result := fatxRawRead disk ba drive sector byteOffset byteLen buf
    result.value = some (if readable disk drive sectors next = sectors then (length : Int) else 0) ∧
      ∀ x, result.buffer x =
        if count ≤ x ∧
            x < count + min (length - count) (512 * readable disk drive sectors next) then
          diskByte disk drive next (x - count)
        else ((buf.memcpy 0 data 0 512).memcpy 0 ba (byteOffset.toNat % 512) count) x := by
  intro count sectors next result
  obtain ⟨final, run, value, stored⟩ := whileLoop_aligned disk ba drive (length - count)
    (RawRead.afterFirst ba data buf sector byteOffset byteLen count) rfl
    (by simp only [RawRead.afterFirst]; omega)
  have enough : sectorsOf (length - count) + 1 + 1 ≤ byteLen.toInt.toNat + 2 := by
    unfold sectorsOf
    omega
  have passes : whileLoop (rawReadSector disk ba drive) (sectorsOf (length - count) + 1 + 1)
      (RawRead.start sector byteOffset byteLen buf) = .leave final := by
    rw [whileLoop_succ, rawReadSector_misaligned content misaligned counted more long]
    exact run
  have same : result = final := fatxRawRead_of_leave enough passes
  have total : (count : Int) + (length - count : Nat) = (length : Int) := by omega
  simp only [RawRead.afterFirst, total] at value
  rw [same]
  exact ⟨value, stored⟩

end Misaligned

/-! ## When the range arrives -/

/-- An empty range needs no sector. -/
theorem fatxRawRead_empty (disk : Disk) (ba buf : Memory) (drive : Int32) (sector : UInt32)
    (byteOffset : UInt64) (counted : byteLen.toInt = 0) :
    (fatxRawRead disk ba drive sector byteOffset byteLen buf).value = some 0 ∧
      (fatxRawRead disk ba drive sector byteOffset byteLen buf).buffer = buf := by
  simp [fatxRawRead, whileLoop_succ, rawReadSector, counted, Pass.andThen]

/-- A sector that cannot be read is reported. -/
theorem MeetsError.value (error : MeetsError disk drive sector byteOffset length)
    (counted : byteLen.toInt = (length : Int)) (more : length ≠ 0) :
    (fatxRawRead disk ba drive sector byteOffset byteLen buf).value = some 0 := by
  cases content : disk drive (firstSector sector byteOffset) with
  | none => exact fatxRawRead_error content (by omega)
  | some data =>
      obtain ⟨long, fewer⟩ := error.resolve_left (by rw [content]; exact nofun)
      unfold asked at fewer
      by_cases aligned : byteOffset.toNat % 512 = 0
      · rw [if_pos aligned] at fewer
        rw [(fatxRawRead_aligned disk ba drive sector byteOffset buf aligned counted).1,
          if_neg (Nat.ne_of_lt fewer)]
      · rw [if_neg aligned, readable, content] at fewer
        rw [(fatxRawRead_misaligned content aligned counted more ba buf long).1,
          if_neg (Nat.ne_of_lt (Nat.lt_of_succ_lt_succ fewer))]

/-- A call that comes to no such sector returns the length, if it returns. -/
theorem value_of_no_error (fine : ¬MeetsError disk drive sector byteOffset length)
    (counted : byteLen.toInt = (length : Int)) (more : length ≠ 0)
    (long : byteOffset.toNat % 512 ≤ length) :
    (fatxRawRead disk ba drive sector byteOffset byteLen buf).value = some (length : Int) := by
  have all : readable disk drive (asked byteOffset length) (firstSector sector byteOffset) =
      asked byteOffset length :=
    Nat.le_antisymm (readable_le _ _) (Nat.le_of_not_lt fun fewer => fine (.inr ⟨long, fewer⟩))
  cases content : disk drive (firstSector sector byteOffset) with
  | none => exact absurd (.inl content) fine
  | some data =>
      unfold asked at all
      by_cases aligned : byteOffset.toNat % 512 = 0
      · rw [if_pos aligned] at all
        rw [(fatxRawRead_aligned disk ba drive sector byteOffset buf aligned counted).1, if_pos all]
      · rw [if_neg aligned, readable, content] at all
        rw [(fatxRawRead_misaligned content aligned counted more ba buf long).1,
          if_pos (Nat.succ.inj all)]

/-- From the start of a sector every range that can be read arrives. -/
theorem arrived_of_aligned (ba buf : Memory) (sector : UInt32) (byteOffset : UInt64)
    (aligned : byteOffset.toNat % 512 = 0) (counted : byteLen.toInt = (length : Int))
    (available : Available disk drive (rangeStart sector byteOffset) length) :
    Arrived disk drive (rangeStart sector byteOffset) length buf
      (fatxRawRead disk ba drive sector byteOffset byteLen buf) := by
  obtain ⟨value, stored⟩ := fatxRawRead_aligned disk ba drive sector byteOffset buf aligned counted
  rw [available.readable_eq aligned] at value stored
  have room : length ≤ 512 * sectorsOf length := by
    unfold sectorsOf
    omega
  rw [if_pos rfl] at value
  rw [Nat.min_eq_left room] at stored
  refine ⟨value, fun k inside => ?_, fun x outside => ?_⟩
  · have byte := available k inside
    rw [stored, if_pos inside, diskByte]
    rw [driveByte_range, aligned, Nat.zero_add] at byte ⊢
    split at byte
    · next addressed =>
      rw [if_pos addressed]
      cases content : disk drive (firstSector sector byteOffset + UInt32.ofNat (k / 512)) with
      | none =>
          rw [content] at byte
          cases byte
      | some data => rfl
    · cases byte
  · rw [stored, if_neg (Nat.not_lt.mpr outside)]

/-- No byte is its successor. -/
theorem succ_ne (byte : Byte) : byte + 1 ≠ byte := by
  intro same
  have zero : (1 : Byte) = 0 := by
    rw [← UInt8.add_right_inj byte, UInt8.add_zero]
    exact same
  exact absurd zero (by decide)

/-- From the middle of a sector none does, whatever can be read: the first bytes are those
of `ba`, or a whole sector is left behind a shorter range. -/
theorem not_arrived_of_misaligned (misaligned : byteOffset.toNat % 512 ≠ 0)
    (more : length ≠ 0) (counted : byteLen.toInt = (length : Int))
    (available : Available disk drive (rangeStart sector byteOffset) length) :
    ∃ ba buf, ¬Arrived disk drive (rangeStart sector byteOffset) length buf
      (fatxRawRead disk ba drive sector byteOffset byteLen buf) := by
  obtain ⟨data, content, byte⟩ := available.first more
  refine ⟨fun x => data x + 1, fun x => data x + 1, fun arrived => ?_⟩
  have inside : byteOffset.toNat % 512 < 512 := Nat.mod_lt _ (by decide)
  rcases Nat.lt_or_ge length (byteOffset.toNat % 512) with short | long
  · have value := arrived.value
    rw [fatxRawRead_short content counted more short] at value
    cases value
  · obtain ⟨-, stored⟩ := fatxRawRead_misaligned content misaligned counted more
      (fun x => data x + 1) (fun x => data x + 1) long
    rcases Nat.eq_or_lt_of_le long with same | longer
    · have behind := arrived.outside length (Nat.le_refl length)
      rw [stored, if_neg (by omega), Memory.memcpy_outside _ _ (.inr (by omega)),
        Memory.memcpy_inside _ _ (Nat.zero_le _) (by omega), Nat.sub_zero, Nat.zero_add] at behind
      exact succ_ne _ behind.symm
    · have first := arrived.contents 0 (by omega)
      rw [Nat.add_zero, byte, stored, if_neg (by omega),
        Memory.memcpy_inside _ _ (Nat.le_refl 0) (by omega), Nat.sub_zero, Nat.add_zero] at first
      exact succ_ne _ (Option.some.inj first).symm

/-- A raw read does as it should exactly if the range is empty, if it can be read and begins
with a sector, or if it cannot be read and the call comes to a sector that cannot. -/
theorem fatxRawRead_range_iff (disk : Disk) (drive : Int32) (sector : UInt32)
    (byteOffset : UInt64) (byteLen : Int32) (nonneg : 0 ≤ byteLen.toInt) :
    (∀ ba buf, ReadsRange disk drive (rangeStart sector byteOffset) byteLen.toInt.toNat buf
        (fatxRawRead disk ba drive sector byteOffset byteLen buf)) ↔
      byteLen.toInt.toNat = 0 ∨
        (Available disk drive (rangeStart sector byteOffset) byteLen.toInt.toNat ∧
          byteOffset.toNat % 512 = 0) ∨
        (¬Available disk drive (rangeStart sector byteOffset) byteLen.toInt.toNat ∧
          MeetsError disk drive sector byteOffset byteLen.toInt.toNat) := by
  have counted : byteLen.toInt = (byteLen.toInt.toNat : Int) := (Int.toNat_of_nonneg nonneg).symm
  generalize byteLen.toInt.toNat = length at counted ⊢
  by_cases empty : length = 0
  · refine iff_of_true (fun ba buf => ?_) (.inl empty)
    subst empty
    obtain ⟨value, same⟩ := fatxRawRead_empty disk ba buf drive sector byteOffset counted
    exact ⟨fun _ => ⟨value, nofun, fun x _ => by rw [same]⟩, fun missing => absurd nofun missing⟩
  · constructor
    · intro reads
      by_cases available : Available disk drive (rangeStart sector byteOffset) length
      · refine .inr (.inl ⟨available, ?_⟩)
        by_contra misaligned
        obtain ⟨ba, buf, fails⟩ := not_arrived_of_misaligned misaligned empty counted available
        exact fails ((reads ba buf).arrived available)
      · refine .inr (.inr ⟨available, ?_⟩)
        by_contra fine
        obtain ⟨value, returned, other⟩ := (reads (fun _ => 0) fun _ => 0).failed available
        rcases Nat.lt_or_ge length (byteOffset.toNat % 512) with short | long
        · obtain ⟨data, content⟩ := Option.ne_none_iff_exists'.mp fun none => fine (.inl none)
          rw [fatxRawRead_short content counted empty short] at returned
          cases returned
        · rw [value_of_no_error fine counted empty long] at returned
          exact other (Option.some.inj returned).symm
    · rintro (none | ⟨available, aligned⟩ | ⟨missing, error⟩) ba buf
      · exact absurd none empty
      · exact ⟨fun _ => arrived_of_aligned ba buf sector byteOffset aligned counted available,
          fun missing => absurd available missing⟩
      · exact ⟨fun available => absurd available missing,
          fun _ => ⟨0, error.value counted empty, by omega⟩⟩

/-- A drive full of zeros. -/
def zeroDrive : Disk := fun _ _ => some fun _ => 0

theorem available_zeroDrive : Available zeroDrive 0 (rangeStart 0 1) 1 := by
  intro k inside
  have only : (rangeStart 0 1 + k) / 512 < 2 ^ 32 := by
    have start : rangeStart 0 1 = 1 := rfl
    omega
  rw [driveByte, if_pos only]
  rfl

/-- The second byte of the first sector. -/
theorem fatxRawRead_range_iff_second :
    0 ≤ (1 : Int32).toInt ∧
      ((∀ ba buf, ReadsRange zeroDrive 0 (rangeStart 0 1) (1 : Int32).toInt.toNat buf
          (fatxRawRead zeroDrive ba 0 0 1 1 buf)) ↔
        (1 : Int32).toInt.toNat = 0 ∨
          (Available zeroDrive 0 (rangeStart 0 1) (1 : Int32).toInt.toNat ∧
            (1 : UInt64).toNat % 512 = 0) ∨
          (¬Available zeroDrive 0 (rangeStart 0 1) (1 : Int32).toInt.toNat ∧
            MeetsError zeroDrive 0 0 1 (1 : Int32).toInt.toNat)) :=
  ⟨by decide, fatxRawRead_range_iff zeroDrive 0 0 1 1 (by decide)⟩

/-- The second byte of a drive can be read, but a call for it does not do as it should. -/
theorem fatxRawRead_second :
    ¬∀ ba buf, ReadsRange zeroDrive 0 (rangeStart 0 1) 1 buf
      (fatxRawRead zeroDrive ba 0 0 1 1 buf) := by
  intro reads
  have counted : (1 : Int32).toInt = ((1 : Nat) : Int) := rfl
  obtain ⟨ba, buf, fails⟩ := not_arrived_of_misaligned (by decide) Nat.one_ne_zero counted
    available_zeroDrive
  exact fails ((reads ba buf).arrived available_zeroDrive)

end Calls

end Cromwell.Fatx
