import Cromwell.Fatx.ByteRanges
import Cromwell.Fatx.Partition

/-!
# Opening a partition

A partition is opened whole or not at all exactly if its header is refused, or its structure
cannot be allocated, or there is memory for its chain map and the whole of that can be read.
A map that is not read in full is only reported, one that there is no memory for leaves the
structure allocated, and sizes from two gigabytes on are not what the partition needs.
-/

namespace Cromwell.Fatx

open Cromwell.Std

/-- The header can be read and has the magic number. -/
def HeaderSound (disk : Disk) (nDriveIndex : Int32) (partitionOffset : UInt32) : Prop :=
  readable disk nDriveIndex 8 partitionOffset = 8 ∧
    ∃ data, disk nDriveIndex partitionOffset = some data ∧ data.dword 0 = fatxPartitionMagic

/-- The bytes of the chain map of a partition, in whole blocks. -/
def chainMapBytes (partitionSize : UInt64) : Nat :=
  let clusters := partitionSize.toNat / 0x4000
  (clusters * (if 0xfff4 ≤ clusters then 4 else 2) + 4095) / 4096 * 4096

/-- Where the chain map is on the drive. -/
def chainMapStart (partitionOffset : UInt32) : Nat := partitionOffset.toNat * 512 + 0x1000

/-- The whole chain map is in memory as it is on the drive. -/
def ChainMapRead (disk : Disk) (nDriveIndex : Int32) (partitionOffset : UInt32)
    (partitionSize : UInt64) (partition : FATXPartition) : Prop :=
  ∀ k < chainMapBytes partitionSize,
    driveByte disk nDriveIndex (chainMapStart partitionOffset + k) =
      some (partition.clusterChainMap k)

/-- The call returns; with a partition that has been read, or with none and nothing held. -/
def AllOrNothing (disk : Disk) (nDriveIndex : Int32) (partitionOffset : UInt32)
    (partitionSize : UInt64) (outcome : Option Opened) : Prop :=
  ∃ opened, outcome = some opened ∧
    (∀ partition, opened.partition = some partition →
      HeaderSound disk nDriveIndex partitionOffset ∧
        ChainMapRead disk nDriveIndex partitionOffset partitionSize partition) ∧
    (opened.partition = none → opened.allocated = [])

/-! ## The size of the map -/

/-- What is allocated and read for the chain map. -/
def tableSize (partitionSize : UInt64) : UInt32 :=
  chainTableSize (partitionSize / 0x4000).toUInt32
    (entrySize (partitionSize / 0x4000).toUInt32)

/-- Rounding up to whole blocks, where the result does not wrap. -/
theorem toNat_chainTableSize {clusterCount chainMapEntrySize : UInt32}
    (bounded : (clusterCount.toNat * chainMapEntrySize.toNat + 4095) / 4096 * 4096 < 2 ^ 32) :
    (chainTableSize clusterCount chainMapEntrySize).toNat =
      (clusterCount.toNat * chainMapEntrySize.toNat + 4095) / 4096 * 4096 := by
  have exact : (clusterCount * chainMapEntrySize).toNat =
      clusterCount.toNat * chainMapEntrySize.toNat := by
    rw [UInt32.toNat_mul]
    exact Nat.mod_eq_of_lt (by omega)
  unfold chainTableSize
  dsimp only
  generalize clusterCount.toNat * chainMapEntrySize.toNat = bytes at exact bounded ⊢
  have rest : (clusterCount * chainMapEntrySize % fatxChaintableBlocksize).toNat =
      bytes % 4096 := by
    rw [UInt32.toNat_mod, exact]
    rfl
  split
  · next partial_block =>
    have some_rest : bytes % 4096 ≠ 0 := fun zero =>
      partial_block (UInt32.toNat_inj.mp (rest.trans zero))
    rw [UInt32.toNat_mul, UInt32.toNat_add, UInt32.toNat_div, exact]
    change (bytes / 4096 + 1) % 2 ^ 32 * 4096 % 2 ^ 32 = _
    omega
  · next whole =>
    have zero : bytes % 4096 = 0 := rest.symm.trans (congrArg UInt32.toNat (not_not.mp whole))
    rw [exact]
    omega

/-- Small sizes are what the partition needs. -/
theorem toNat_tableSize {partitionSize : UInt64} (bounded : chainMapBytes partitionSize < 2 ^ 32) :
    (tableSize partitionSize).toNat = chainMapBytes partitionSize := by
  unfold chainMapBytes at bounded ⊢
  dsimp only at bounded ⊢
  have few : partitionSize.toNat / 0x4000 < 2 ^ 32 := by
    split at bounded <;> omega
  have clusters : (partitionSize / 0x4000).toUInt32.toNat = partitionSize.toNat / 0x4000 := by
    rw [UInt64.toNat_toUInt32, UInt64.toNat_div]
    exact Nat.mod_eq_of_lt few
  have width : (entrySize (partitionSize / 0x4000).toUInt32).toNat =
      if 0xfff4 ≤ partitionSize.toNat / 0x4000 then 4 else 2 := by
    have large : (partitionSize / 0x4000).toUInt32 ≥ 0xfff4 ↔
        0xfff4 ≤ partitionSize.toNat / 0x4000 := by
      rw [ge_iff_le, UInt32.le_iff_toNat_le, clusters]
      rfl
    unfold entrySize
    simp only [large]
    split <;> rfl
  rw [← width, ← clusters] at bounded
  rw [tableSize, toNat_chainTableSize bounded, clusters, width]

/-! ## The two reads -/

section Open

variable {disk : Disk} {ba partitionInfo chainTable : Memory} {malloc : UInt32 → Bool}
  {nDriveIndex : Int32} {partitionOffset : UInt32} {partitionSize : UInt64}

/-- Reading the header gives its size if all of it can be read, and then its first word is
that of the first sector. -/
theorem header_read (disk : Disk) (ba partitionInfo : Memory) (nDriveIndex : Int32)
    (partitionOffset : UInt32) :
    let header := fatxRawRead disk ba nDriveIndex partitionOffset 0 0x1000 partitionInfo
    (header.value = some fatxPartitionHeadersize ∧
        header.buffer.dword 0 = fatxPartitionMagic) ↔
      HeaderSound disk nDriveIndex partitionOffset := by
  intro header
  have counted : (0x1000 : Int32).toInt = ((0x1000 : Nat) : Int) := rfl
  obtain ⟨value, stored⟩ := fatxRawRead_aligned disk ba nDriveIndex partitionOffset 0
    partitionInfo rfl counted
  have first : firstSector partitionOffset 0 = partitionOffset := UInt32.add_zero partitionOffset
  have eight : sectorsOf 0x1000 = 8 := rfl
  rw [first, eight] at value stored
  have whole : header.value = some fatxPartitionHeadersize ↔
      readable disk nDriveIndex 8 partitionOffset = 8 := by
    change (fatxRawRead disk ba nDriveIndex partitionOffset 0 0x1000 partitionInfo).value = _ ↔ _
    rw [value]
    split
    · next all => exact iff_of_true rfl all
    · next missing => exact iff_of_false (by decide) missing
  unfold HeaderSound
  rw [whole, and_congr_right_iff]
  intro all
  have word : ∀ data, disk nDriveIndex partitionOffset = some data →
      header.buffer.dword 0 = data.dword 0 := by
    intro data content
    apply Memory.dword_congr
    intro k bound
    change (fatxRawRead disk ba nDriveIndex partitionOffset 0 0x1000 partitionInfo).buffer _ = _
    rw [stored, all, if_pos (by omega), diskByte_first content (by omega)]
  cases content : disk nDriveIndex partitionOffset with
  | none =>
      rw [readable, content] at all
      cases all
  | some data =>
      rw [word data content]
      constructor
      · intro magic
        exact ⟨data, rfl, magic⟩
      · rintro ⟨_, same, magic⟩
        rwa [Option.some.inj same]

/-- A header that is not sound is refused. -/
theorem open_of_unsound (ba partitionInfo chainTable : Memory) (malloc : UInt32 → Bool)
    (partitionSize : UInt64) (unsound : ¬HeaderSound disk nDriveIndex partitionOffset) :
    ∃ sectors, openFATXPartition disk ba malloc partitionInfo chainTable nDriveIndex
      partitionOffset partitionSize = some ⟨none, sectors, []⟩ := by
  have refused := mt (header_read disk ba partitionInfo nDriveIndex partitionOffset).mp unsound
  rw [openFATXPartition]
  dsimp only
  split
  · exact ⟨_, rfl⟩
  · next read =>
    rw [if_pos fun magic => refused ⟨not_not.mp read, magic⟩]
    exact ⟨_, rfl⟩

/-- Behind a sound header it is the allocations and the second read that count. -/
theorem open_of_sound_header (ba partitionInfo chainTable : Memory) (malloc : UInt32 → Bool)
    (partitionSize : UInt64) (sound : HeaderSound disk nDriveIndex partitionOffset) :
    ∃ sectors, openFATXPartition disk ba malloc partitionInfo chainTable nDriveIndex
      partitionOffset partitionSize =
        if malloc 44 = false then some ⟨none, sectors, []⟩
        else if malloc (tableSize partitionSize) = false then some ⟨none, sectors, [44]⟩
        else
          let table := fatxRawRead disk ba nDriveIndex partitionOffset 0x1000
            (tableSize partitionSize).toInt32 chainTable
          table.value.map fun _ =>
            { partition := some
                (FATXPartition.layout nDriveIndex partitionOffset partitionSize table.buffer)
              sectors := table.sectors ++ sectors
              allocated := [tableSize partitionSize, 44] } := by
  obtain ⟨read, magic⟩ :=
    (header_read disk ba partitionInfo nDriveIndex partitionOffset).mpr sound
  refine ⟨(fatxRawRead disk ba nDriveIndex partitionOffset 0 0x1000 partitionInfo).sectors, ?_⟩
  rw [openFATXPartition]
  dsimp only
  rw [if_neg (not_not.mpr read), if_neg (not_not.mpr magic)]
  rfl

/-! ## When the map is read -/

/-- What the second read does to the buffer of the chain map. -/
abbrev tableRead (disk : Disk) (ba chainTable : Memory) (nDriveIndex : Int32)
    (partitionOffset : UInt32) (partitionSize : UInt64) : ReadResult :=
  fatxRawRead disk ba nDriveIndex partitionOffset 0x1000 (tableSize partitionSize).toInt32
    chainTable

/-- The second read returns, and it leaves the chain map in the buffer. -/
structure MapArrives (disk : Disk) (ba chainTable : Memory) (nDriveIndex : Int32)
    (partitionOffset : UInt32) (partitionSize : UInt64) : Prop where
  returned : (tableRead disk ba chainTable nDriveIndex partitionOffset partitionSize).value.isSome
  stored : ∀ k < chainMapBytes partitionSize,
    driveByte disk nDriveIndex (chainMapStart partitionOffset + k) =
      some ((tableRead disk ba chainTable nDriveIndex partitionOffset partitionSize).buffer k)

/-- A chain map that arrives can be read. -/
theorem MapArrives.available
    (arrives : MapArrives disk ba chainTable nDriveIndex partitionOffset partitionSize) :
    Available disk nDriveIndex (chainMapStart partitionOffset) (chainMapBytes partitionSize) :=
  fun k inside => Option.isSome_of_mem (arrives.stored k inside)

/-- With the memory it needs, a call does as it should if the chain map arrives. -/
theorem allOrNothing_iff (sound : HeaderSound disk nDriveIndex partitionOffset)
    (first : malloc 44 = true) (second : malloc (tableSize partitionSize) = true) :
    AllOrNothing disk nDriveIndex partitionOffset partitionSize
        (openFATXPartition disk ba malloc partitionInfo chainTable nDriveIndex partitionOffset
          partitionSize) ↔
      MapArrives disk ba chainTable nDriveIndex partitionOffset partitionSize := by
  obtain ⟨sectors, same⟩ :=
    open_of_sound_header ba partitionInfo chainTable malloc partitionSize sound
  rw [same, first, second, if_neg (by decide), if_neg (by decide)]
  dsimp only
  unfold AllOrNothing
  constructor
  · rintro ⟨opened, returned, open_partition, -⟩
    obtain ⟨value, read, rfl⟩ := Option.map_eq_some_iff.mp returned
    exact ⟨Option.isSome_of_mem read, (open_partition _ rfl).2⟩
  · rintro ⟨returned, map⟩
    obtain ⟨value, read⟩ := Option.isSome_iff_exists.mp returned
    refine ⟨_, by rw [read]; rfl, fun partition isOpen => ?_, fun none => by cases none⟩
    cases isOpen
    exact ⟨sound, map⟩

/-- A negative length leaves the call without an outcome once a sector has been read. -/
theorem fatxRawRead_negative {disk : Disk} {ba buf data : Memory} {drive : Int32}
    {sector : UInt32} {byteOffset : UInt64} {byteLen : Int32}
    (content : disk drive (firstSector sector byteOffset) = some data)
    (negative : byteLen.toInt < 0) :
    (fatxRawRead disk ba drive sector byteOffset byteLen buf).value = none := by
  have some_left : byteLen.toInt ≠ 0 := Int.ne_of_lt negative
  have short : byteLen.toInt < 512 := by omega
  have below : byteLen.toInt - ((byteOffset % 512).toNat : Int) < 0 := by omega
  unfold firstSector at content
  rw [fatxRawRead, whileLoop_succ]
  simp only [rawReadSector, some_left, if_false, content, short, below, if_true, Pass.andThen]

/-- The read of a table that is smaller than the chain map, or whose size is negative, does
not leave the chain map in every buffer. -/
theorem chainMapBytes_lt (more : chainMapBytes partitionSize ≠ 0)
    (arrives : ∀ chainTable,
      MapArrives disk ba chainTable nDriveIndex partitionOffset partitionSize) :
    chainMapBytes partitionSize < 2 ^ 31 := by
  by_contra large
  rcases Int.lt_or_le (tableSize partitionSize).toInt32.toInt 0 with negative | nonneg
  · have available : Available disk nDriveIndex (rangeStart partitionOffset 0x1000)
        (chainMapBytes partitionSize) := (arrives fun _ => 0).available
    obtain ⟨data, content, -⟩ := available.first more
    have read := (arrives fun _ => 0).returned
    rw [fatxRawRead_negative content negative] at read
    cases read
  · obtain ⟨length, counted⟩ := Int.eq_ofNat_of_zero_le nonneg
    have small : length < 2 ^ 31 := by
      have bound := (tableSize partitionSize).toInt32.toInt_lt
      omega
    have kept : ∀ chainTable : Memory,
        driveByte disk nDriveIndex (chainMapStart partitionOffset + length) =
          some (chainTable length) := by
      intro chainTable
      obtain ⟨-, stored⟩ := fatxRawRead_aligned disk ba nDriveIndex partitionOffset 0x1000
        chainTable rfl counted
      rw [(arrives chainTable).stored length (by omega), stored, if_neg (by omega)]
    have zero := kept fun _ => 0
    have one := kept fun _ => 1
    rw [zero] at one
    exact absurd (Option.some.inj one) (by decide)

/-- A chain map that can be read is in the buffer then. -/
theorem tableRead_of_available (bounded : chainMapBytes partitionSize < 2 ^ 31)
    (available : Available disk nDriveIndex (chainMapStart partitionOffset)
      (chainMapBytes partitionSize)) :
    MapArrives disk ba chainTable nDriveIndex partitionOffset partitionSize := by
  have size := toNat_tableSize (Nat.lt_trans bounded (by decide))
  have counted : (tableSize partitionSize).toInt32.toInt = (chainMapBytes partitionSize : Int) := by
    rw [← size] at bounded ⊢
    apply BitVec.toInt_eq_toNat_of_lt
    change 2 * (tableSize partitionSize).toNat < 2 ^ 32
    omega
  have arrived := arrived_of_aligned ba chainTable partitionOffset 0x1000 rfl counted available
  exact ⟨Option.isSome_of_mem arrived.value, arrived.contents⟩

/-- A partition is opened whole or not at all, whatever the buffers hold before, exactly if
its header is not sound, or its structure cannot be allocated, or there is memory for its
chain map and that is below two gigabytes and can all be read. -/
theorem openFATXPartition_iff (disk : Disk) (malloc : UInt32 → Bool) (nDriveIndex : Int32)
    (partitionOffset : UInt32) (partitionSize : UInt64) :
    (∀ ba partitionInfo chainTable, AllOrNothing disk nDriveIndex partitionOffset partitionSize
        (openFATXPartition disk ba malloc partitionInfo chainTable nDriveIndex partitionOffset
          partitionSize)) ↔
      ¬HeaderSound disk nDriveIndex partitionOffset ∨ malloc 44 = false ∨
        (malloc (tableSize partitionSize) = true ∧ chainMapBytes partitionSize < 2 ^ 31 ∧
          Available disk nDriveIndex (chainMapStart partitionOffset)
            (chainMapBytes partitionSize)) := by
  by_cases sound : HeaderSound disk nDriveIndex partitionOffset
  · cases first : malloc 44 with
    | false =>
        refine iff_of_true (fun ba partitionInfo chainTable => ?_) (.inr (.inl rfl))
        obtain ⟨sectors, same⟩ := open_of_sound_header ba partitionInfo chainTable malloc
          partitionSize sound
        rw [same, if_pos first]
        exact ⟨_, rfl, nofun, fun _ => rfl⟩
    | true =>
        cases second : malloc (tableSize partitionSize) with
        | false =>
            refine iff_of_false (fun opens => ?_) (by simp [sound])
            obtain ⟨sectors, same⟩ := open_of_sound_header (fun _ => 0) (fun _ => 0) (fun _ => 0)
              malloc partitionSize sound
            obtain ⟨opened, returned, -, released⟩ :=
              opens (fun _ => 0) (fun _ => 0) fun _ => 0
            rw [same, first, if_neg (by decide), if_pos second] at returned
            cases returned
            exact absurd (released rfl) (List.cons_ne_nil _ _)
        | true =>
            simp only [allOrNothing_iff sound first second, sound, not_true_eq_false, false_or,
              Bool.true_eq_false, true_and]
            constructor
            · intro arrives
              refine ⟨?_, (arrives (fun _ => 0) (fun _ => 0) fun _ => 0).available⟩
              by_cases none : chainMapBytes partitionSize = 0
              · rw [none]
                decide
              · exact chainMapBytes_lt none (arrives (fun _ => 0) fun _ => 0)
            · rintro ⟨bounded, available⟩ ba partitionInfo chainTable
              exact tableRead_of_available bounded available
  · refine iff_of_true (fun ba partitionInfo chainTable => ?_) (.inl sound)
    obtain ⟨sectors, refused⟩ :=
      open_of_unsound ba partitionInfo chainTable malloc partitionSize sound
    exact ⟨_, refused, nofun, fun _ => rfl⟩

/-- A drive with a header, but an error where the chain map begins. -/
def headerDrive : Disk := fun _ sector =>
  if sector = 8 then none
  else some (Memory.store (fun _ => 0) 0 (dwordBytes fatxPartitionMagic))

theorem headerSound_headerDrive : HeaderSound headerDrive 0 0 :=
  ⟨by decide, _, rfl, Memory.dword_store _ 0 (by decide)⟩

/-- A partition whose chain map cannot be read is opened nevertheless. -/
theorem openFATXPartition_headerDrive :
    ¬∀ ba partitionInfo chainTable, AllOrNothing headerDrive 0 0 0x4000
      (openFATXPartition headerDrive ba (fun _ => true) partitionInfo chainTable 0 0 0x4000) := by
  intro opens
  have map := (allOrNothing_iff headerSound_headerDrive rfl rfl).mp
    (opens (fun _ => 0) (fun _ => 0) fun _ => 0)
  have first := map.2 0 (by decide)
  have none : driveByte headerDrive 0 (chainMapStart 0 + 0) = none := by
    rw [driveByte, if_pos (by decide)]
    rfl
  rw [none] at first
  cases first

end Open

end Cromwell.Fatx
