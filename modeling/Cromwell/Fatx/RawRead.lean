import Cromwell.Std.Memory
import Cromwell.Std.Walk

/-!
# Reading bytes from the disk

`FATXRawRead` turns a byte range into sector reads. A first sector that the range
enters in the middle is read into the buffer, and the bytes kept are then copied from
a buffer nothing was read into. A sector that cannot be read ends the call with zero;
what was read before stays where it is.
-/

namespace Cromwell.Fatx

open Cromwell.Std

/-- What reading a sector of a drive gives: its 512 bytes, or `none` if the drive
reports an error. -/
abbrev Disk := (drive : Int32) → (sector : UInt32) → Option Memory

/-- Where a raw read stands. `sectors` are those asked for so far, the latest first. -/
structure RawRead where
  buffer : Memory
  buf : Nat
  sector : UInt32
  byteOffset : Nat
  byteLen : Int
  byteRead : Int
  sectors : List UInt32

/-- What a raw read leaves behind. The value is absent if a negative count was given to
`memcpy`. -/
structure ReadResult where
  value : Option Int
  buffer : Memory
  sectors : List UInt32

/-- One sector of `FATXRawRead`. The array `ba` is never written. -/
def rawReadSector (disk : Disk) (ba : Memory) (drive : Int32) (read : RawRead) :
    Pass RawRead ReadResult :=
  if read.byteLen = 0 then
    .leave ⟨some read.byteRead, read.buffer, read.sectors⟩
  else
    let nThisTime := if read.byteLen < 512 then read.byteLen else 512
    let count := nThisTime - read.byteOffset
    let sectors := read.sector :: read.sectors
    match disk drive read.sector with
    | none => .leave ⟨some 0, read.buffer, sectors⟩
    | some data =>
      let filled := if read.byteOffset ≠ 0 then read.buffer.memcpy read.buf data 0 512
        else read.buffer
      if count < 0 then
        .leave ⟨none, filled, sectors⟩
      else
        let buffer := if read.byteOffset ≠ 0 then
            filled.memcpy read.buf ba read.byteOffset count.toNat
          else filled.memcpy read.buf data 0 count.toNat
        .next
          { buffer
            buf := read.buf + count.toNat
            sector := read.sector + 1
            byteOffset := 0
            byteLen := read.byteLen - count
            byteRead := read.byteRead + count
            sectors }

/-- The passes of the loop never exceed the length by more than two: only a first,
misaligned sector can contribute no byte. -/
def fatxRawRead (disk : Disk) (ba : Memory) (drive : Int32) (sector : UInt32)
    (byteOffset : UInt64) (byteLen : Int32) (buf : Memory) : ReadResult :=
  let start : RawRead :=
    { buffer := buf
      buf := 0
      sector := sector + (byteOffset / 512).toUInt32
      byteOffset := (byteOffset % 512).toNat
      byteLen := byteLen.toInt
      byteRead := 0
      sectors := [] }
  match whileLoop (rawReadSector disk ba drive) (byteLen.toInt.toNat + 2) start with
  | .leave result => result
  | .next read => ⟨none, read.buffer, read.sectors⟩

/-! ## Whole sectors -/

/-- How many of the next `count` sectors can be read before the first that cannot. -/
def readable (disk : Disk) (drive : Int32) : (count : Nat) → (sector : UInt32) → Nat
  | 0, _ => 0
  | count + 1, sector =>
    match disk drive sector with
    | none => 0
    | some _ => readable disk drive count (sector + 1) + 1

/-- How many of the next `count` sectors are asked for. -/
def tried (disk : Disk) (drive : Int32) (count : Nat) (sector : UInt32) : Nat :=
  min count (readable disk drive count sector + 1)

/-- A byte of the disk, counted from the start of a sector. -/
def diskByte (disk : Disk) (drive : Int32) (sector : UInt32) (position : Nat) : Byte :=
  match disk drive (sector + UInt32.ofNat (position / 512)) with
  | none => 0
  | some data => data (position % 512)

/-- A buffer after reading sectors into it from its start on. -/
def fill (disk : Disk) (drive : Int32) (count : Nat) (sector : UInt32) (buffer : Memory) :
    Memory :=
  fun x => if x < 512 * readable disk drive count sector then diskByte disk drive sector x
    else buffer x

theorem toNat_add_ofNat (sector : UInt32) {k : Nat} (small : k < 2 ^ 32) :
    (sector + UInt32.ofNat k).toNat = (sector.toNat + k) % 2 ^ 32 := by
  rw [UInt32.toNat_add, UInt32.toNat_ofNat_of_lt' small]

section Sectors

variable {disk : Disk} {ba : Memory} {drive : Int32} {sector : UInt32} {count : Nat}

theorem readable_le (count : Nat) (sector : UInt32) :
    readable disk drive count sector ≤ count := by
  induction count generalizing sector with
  | zero => exact Nat.le_refl 0
  | succ count ih =>
      unfold readable
      cases disk drive sector with
      | none => exact Nat.zero_le _
      | some data => exact Nat.succ_le_succ (ih (sector + 1))

/-- Sectors that can all be read are. -/
theorem readable_of_reads {count : Nat} {sector : UInt32}
    (reads : ∀ k < count, disk drive (sector + UInt32.ofNat k) ≠ none) :
    readable disk drive count sector = count := by
  induction count generalizing sector with
  | zero => rfl
  | succ count ih =>
      have here := reads 0 (Nat.succ_pos count)
      have shifted : ∀ k, sector + UInt32.ofNat (k + 1) = sector + 1 + UInt32.ofNat k := by
        intro k
        rw [UInt32.ofNat_add, UInt32.add_assoc, UInt32.add_comm (UInt32.ofNat k)]
        rfl
      have later : ∀ k < count, disk drive (sector + 1 + UInt32.ofNat k) ≠ none :=
        fun k bound => shifted k ▸ reads (k + 1) (Nat.succ_lt_succ bound)
      rw [readable]
      cases content : disk drive sector with
      | none => exact absurd content (by simpa using here)
      | some data => exact congrArg Nat.succ (ih later)

/-- On a drive without errors every sector can be read. -/
theorem readable_eq (sound : ∀ sector, disk drive sector ≠ none) (count : Nat)
    (sector : UInt32) : readable disk drive count sector = count :=
  readable_of_reads fun _ _ => sound _

theorem tried_le (count : Nat) (sector : UInt32) : tried disk drive count sector ≤ count :=
  Nat.min_le_left _ _

theorem tried_none (error : disk drive sector = none) :
    tried disk drive (count + 1) sector = 1 := by
  rw [tried, readable, error]
  exact Nat.min_eq_right (Nat.succ_le_succ (Nat.zero_le count))

theorem tried_some {data : Memory} (success : disk drive sector = some data) :
    tried disk drive (count + 1) sector = tried disk drive count (sector + 1) + 1 := by
  rw [tried, tried, readable, success]
  exact Nat.succ_min_succ _ _

/-- A sector is asked for if those before it can be read. -/
theorem lt_tried_iff {count k : Nat} : k < tried disk drive count sector ↔
    k < count ∧ ∀ j < k, disk drive (sector + UInt32.ofNat j) ≠ none := by
  induction count generalizing k sector with
  | zero => simp [tried, readable]
  | succ count ih =>
      have shifted : ∀ j, sector + UInt32.ofNat (j + 1) = sector + 1 + UInt32.ofNat j := by
        intro j
        rw [UInt32.ofNat_add, UInt32.add_assoc, UInt32.add_comm (UInt32.ofNat j)]
        rfl
      have start : sector + UInt32.ofNat 0 = sector := UInt32.add_zero sector
      cases content : disk drive sector with
      | none =>
          rw [tried_none content]
          constructor
          · intro first
            exact ⟨by omega, fun j before => by omega⟩
          · rintro ⟨-, reads⟩
            by_contra later
            exact reads 0 (by omega) (start.symm ▸ content)
      | some data =>
          rw [tried_some content]
          cases k with
          | zero => simp
          | succ k =>
              rw [Nat.add_lt_add_iff_right, Nat.add_lt_add_iff_right, ih]
              refine and_congr_right fun _ => ⟨fun reads j before => ?_, fun reads j before => ?_⟩
              · cases j with
                | zero =>
                    rw [start, content]
                    exact Option.some_ne_none data
                | succ j =>
                    rw [shifted]
                    exact reads j (by omega)
              · rw [← shifted]
                exact reads (j + 1) (by omega)

theorem diskByte_first {data : Memory} (success : disk drive sector = some data) {x : Nat}
    (inside : x < 512) : diskByte disk drive sector x = data x := by
  have first : x / 512 = 0 := Nat.div_eq_of_lt inside
  rw [diskByte, first]
  simp [success, Nat.mod_eq_of_lt inside]

theorem diskByte_later (x : Nat) :
    diskByte disk drive sector (x + 512) = diskByte disk drive (sector + 1) x := by
  have next : (x + 512) / 512 = x / 512 + 1 := Nat.add_div_right x (by omega)
  have place : sector + UInt32.ofNat (x / 512 + 1) = sector + 1 + UInt32.ofNat (x / 512) := by
    rw [UInt32.ofNat_add, UInt32.add_assoc, UInt32.add_comm (UInt32.ofNat (x / 512))]
    rfl
  rw [diskByte, diskByte, next, place, Nat.add_mod_right]

/-- What a raw read of `count` whole sectors ends with. -/
structure ReadSectors (disk : Disk) (drive : Int32) (count : Nat) (read : RawRead)
    (result : ReadResult) : Prop where
  value : result.value = some (if readable disk drive count read.sector = count then
    read.byteRead + 512 * count else 0)
  stored : ∀ x, result.buffer x =
    if read.buf ≤ x ∧ x < read.buf + 512 * readable disk drive count read.sector then
      diskByte disk drive read.sector (x - read.buf)
    else read.buffer x
  sectors : ∀ block, block ∈ result.sectors ↔ block ∈ read.sectors ∨
    ∃ k < tried disk drive count read.sector, block = read.sector + UInt32.ofNat k

/-- The read after one sector. -/
def RawRead.nextSector (read : RawRead) (data : Memory) : RawRead :=
  { buffer := read.buffer.memcpy read.buf data 0 512
    buf := read.buf + 512
    sector := read.sector + 1
    byteOffset := 0
    byteLen := read.byteLen - 512
    byteRead := read.byteRead + 512
    sectors := read.sector :: read.sectors }

/-- The first sector and the ones after it. -/
theorem ReadSectors.cons {read : RawRead} {result : ReadResult} {data : Memory}
    (content : disk drive read.sector = some data)
    (rest : ReadSectors disk drive count (read.nextSector data) result) :
    ReadSectors disk drive (count + 1) read result := by
  have one : readable disk drive (count + 1) read.sector =
      readable disk drive count (read.sector + 1) + 1 := by
    rw [readable, content]
  have value : result.value = some (if readable disk drive count (read.sector + 1) = count then
      read.byteRead + 512 + 512 * count else 0) := rest.value
  have stored : ∀ x, result.buffer x =
      if read.buf + 512 ≤ x ∧
          x < read.buf + 512 + 512 * readable disk drive count (read.sector + 1) then
        diskByte disk drive (read.sector + 1) (x - (read.buf + 512))
      else read.buffer.memcpy read.buf data 0 512 x := rest.stored
  constructor
  · rw [value, one]
    by_cases all : readable disk drive count (read.sector + 1) = count
    · rw [if_pos all, if_pos (congrArg Nat.succ all)]
      congr 1
      omega
    · rw [if_neg all, if_neg fun same => all (Nat.succ.inj same)]
  · intro x
    rw [stored x, one]
    rcases Nat.lt_or_ge x read.buf with before | behind
    · rw [if_neg (by omega), if_neg (by omega), Memory.memcpy_outside _ _ (.inl before)]
    · rcases Nat.lt_or_ge x (read.buf + 512) with first | later
      · rw [if_neg (by omega), if_pos (by omega), Memory.memcpy_inside _ _ behind first,
          diskByte_first content (by omega), Nat.zero_add]
      · have position : x - read.buf = x - (read.buf + 512) + 512 := by omega
        rw [position, diskByte_later, Memory.memcpy_outside _ _ (.inr later)]
        congr 1
        exact propext (by omega)
  · intro block
    have sectors : block ∈ result.sectors ↔ block ∈ read.sector :: read.sectors ∨
        ∃ k < tried disk drive count (read.sector + 1),
          block = read.sector + 1 + UInt32.ofNat k := rest.sectors block
    rw [sectors, tried_some content, List.mem_cons]
    have shifted : ∀ k, read.sector + 1 + UInt32.ofNat k = read.sector + UInt32.ofNat (k + 1) := by
      intro k
      rw [UInt32.ofNat_add, UInt32.add_assoc, UInt32.add_comm 1]
      rfl
    constructor
    · rintro ((first | earlier) | ⟨k, inside, rfl⟩)
      · exact .inr ⟨0, Nat.succ_pos _, by simpa using first⟩
      · exact .inl earlier
      · exact .inr ⟨k + 1, Nat.succ_lt_succ inside, shifted k⟩
    · rintro (earlier | ⟨k, inside, rfl⟩)
      · exact .inl (.inr earlier)
      · cases k with
        | zero => exact .inl (.inl (by simp))
        | succ k => exact .inr ⟨k, Nat.lt_of_succ_lt_succ inside, (shifted k).symm⟩

/-- A raw read of whole sectors goes through them in order up to the first that cannot
be read. -/
theorem whileLoop_rawReadSector (disk : Disk) (ba : Memory) (drive : Int32) (count : Nat)
    (read : RawRead) (aligned : read.byteOffset = 0) (length : read.byteLen = 512 * (count : Int)) :
    ∃ result, whileLoop (rawReadSector disk ba drive) (count + 1) read = .leave result ∧
      ReadSectors disk drive count read result := by
  induction count generalizing read with
  | zero =>
      have done : read.byteLen = 0 := length
      refine ⟨⟨some read.byteRead, read.buffer, read.sectors⟩, ?_, ?_⟩
      · simp [whileLoop_succ, rawReadSector, done, Pass.andThen]
      · have outside : ∀ x, ¬(read.buf ≤ x ∧ x < read.buf) := fun x => by omega
        exact ⟨by simp [readable], by simp [readable, outside], by simp [tried, readable]⟩
  | succ count ih =>
      have more : read.byteLen ≠ 0 := by omega
      have long : ¬read.byteLen < 512 := by omega
      rw [whileLoop_succ]
      cases content : disk drive read.sector with
      | none =>
          refine ⟨⟨some 0, read.buffer, read.sector :: read.sectors⟩, ?_, ?_⟩
          · simp [rawReadSector, more, content, Pass.andThen]
          · have outside : ∀ x, ¬(read.buf ≤ x ∧ x < read.buf) := fun x => by omega
            refine ⟨by simp [readable, content], by simp [readable, content, outside], ?_⟩
            intro block
            rw [tried_none content]
            simp [or_comm]
      | some data =>
          have pass : rawReadSector disk ba drive read = .next (read.nextSector data) := by
            simp [rawReadSector, more, long, content, aligned, RawRead.nextSector]
          have remaining : (read.nextSector data).byteLen = 512 * (count : Int) := by
            change read.byteLen - 512 = _
            omega
          obtain ⟨result, run, rest⟩ := ih (read.nextSector data) rfl remaining
          exact ⟨result, by rw [pass]; exact run, rest.cons content⟩

/-- A call for whole sectors: what it returns, what it stores and what it asks for. -/
theorem fatxRawRead_sectors (disk : Disk) (ba : Memory) (drive : Int32) (sector : UInt32)
    (buf : Memory) {byteOffset : UInt64} {byteLen : Int32}
    (aligned : byteOffset % 512 = 0) (length : byteLen.toInt = 512 * (count : Int)) :
    let first := sector + (byteOffset / 512).toUInt32
    let result := fatxRawRead disk ba drive sector byteOffset byteLen buf
    result.value = some (if readable disk drive count first = count then
        (512 * count : Int) else 0) ∧
      result.buffer = fill disk drive count first buf ∧
      ∀ block, block ∈ result.sectors ↔
        ∃ k < tried disk drive count first, block = first + UInt32.ofNat k := by
  intro first result
  obtain ⟨final, run, value, stored, sectors⟩ :=
    whileLoop_rawReadSector disk ba drive count
      { buffer := buf
        buf := 0
        sector := first
        byteOffset := (byteOffset % 512).toNat
        byteLen := byteLen.toInt
        byteRead := 0
        sectors := [] }
      (by rw [aligned]; rfl) length
  have fuel : byteLen.toInt.toNat + 2 = count + 1 + (511 * count + 1) := by omega
  have same : result = final := by
    change fatxRawRead disk ba drive sector byteOffset byteLen buf = final
    rw [fatxRawRead, fuel, whileLoop_leave_add run]
  rw [same]
  refine ⟨by simpa using value, funext fun x => ?_, by simpa using sectors⟩
  simpa [fill] using stored x

end Sectors

end Cromwell.Fatx
