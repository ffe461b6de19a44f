import Cromwell.Fatx.FileContents
import Mathlib.Data.List.TakeWhile

/-!
# Directories

What a directory lists, read off the drive and the chain map alone: the entries of its
clusters up to the one that ends it. A search of the directory finds the first entry of the
name it is given, whatever the buffer held before.
-/

namespace Cromwell.Fatx

open Cromwell.Std

/-! ## Entries -/

structure DirectoryEntry where
  name : List Byte
  isDirectory : Bool
  clusterId : Int32
  fileSize : UInt32

/-- What there is room for in a directory. -/
inductive Slot where
  | deleted
  | terminator
  | used (entry : DirectoryEntry)
  | malformed

/-- The slot at an address: its first byte is the length of a name, or says that there is
none. -/
def slotAt (memory : Memory) (address : Nat) : Slot :=
  let size := (memory address).toNat
  if size = 0 ∨ size = 0xff then .terminator
  else if size = 0xe5 then .deleted
  else if size ≤ fatxFilenameMax ∧ 0 ∉ memory.bytes (address + 2) size then
    .used
      { name := memory.bytes (address + 2) size
        isDirectory := decide (memory (address + 1) &&& fatxFileattrDirectory ≠ 0)
        clusterId := (UInt32.ofNat (memory.dword (address + 0x2c))).toInt32
        fileSize := UInt32.ofNat (memory.dword (address + 0x30)) }
  else .malformed

/-- A slot of a cluster, if its sector can be read. There are eight slots to a sector. -/
def FATXPartition.slot (partition : FATXPartition) (disk : Disk) (clusterId : Int32) (i : Nat) :
    Option Slot :=
  (disk partition.nDriveIndex (partition.clusterSector clusterId + UInt32.ofNat (i / 8))).map
    fun data => slotAt data (i % 8 * 64)

def FATXPartition.slots (partition : FATXPartition) (disk : Disk) (clusterId : Int32) :
    List (Option Slot) :=
  (List.range 256).map (partition.slot disk clusterId)

/-- The entries of well-formed slots up to a terminator, and whether there is one. -/
def listed : List (Option Slot) → Option (List DirectoryEntry × Bool)
  | [] => some ([], false)
  | some .terminator :: _ => some ([], true)
  | some .deleted :: rest => listed rest
  | some (.used entry) :: rest =>
    (listed rest).map fun (entries, atEnd) => (entry :: entries, atEnd)
  | some .malformed :: _ => none
  | none :: _ => none

/-- The entries of a directory: those of its first cluster and, unless that has a terminator
or its chain ends there, those of the clusters behind it. -/
inductive FATXPartition.Listing (partition : FATXPartition) (disk : Disk) :
    Int32 → List DirectoryEntry → Prop
  | terminated {clusterId : Int32} {entries : List DirectoryEntry} (more : clusterId ≠ -1)
      (slots : listed (partition.slots disk clusterId) = some (entries, true)) :
      partition.Listing disk clusterId entries
  | last {clusterId : Int32} {entries : List DirectoryEntry} (more : clusterId ≠ -1)
      (slots : listed (partition.slots disk clusterId) = some (entries, false))
      (marked : partition.entry clusterId ∈ partition.endMarkers) :
      partition.Listing disk clusterId entries
  | link {clusterId : Int32} {entries rest : List DirectoryEntry} (more : clusterId ≠ -1)
      (slots : listed (partition.slots disk clusterId) = some (entries, false))
      (unmarked : partition.entry clusterId ∉ partition.endMarkers)
      (onwards : partition.Listing disk (partition.entry clusterId).toInt32 rest) :
      partition.Listing disk clusterId (entries ++ rest)

/-- What a slot holds, its name up to the first zero. -/
def entryAt (memory : Memory) (address : Nat) : DirectoryEntry where
  name := (memory.bytes (address + 2) (memory address).toNat).takeWhile (· ≠ 0)
  isDirectory := decide (memory (address + 1) &&& fatxFileattrDirectory ≠ 0)
  clusterId := (UInt32.ofNat (memory.dword (address + 0x2c))).toInt32
  fileSize := UInt32.ofNat (memory.dword (address + 0x30))

/-- The first byte of a slot is the length of a name. -/
def HasName (memory : Memory) (address : Nat) : Prop :=
  1 ≤ (memory address).toNat ∧ (memory address).toNat ≤ fatxFilenameMax

/-- How a search ends at the entry it looks for. -/
def DirectoryEntry.verdict (entry : DirectoryEntry) (lookForDirectory : Bool) : SearchResult :=
  match lookForDirectory, entry.isDirectory with
  | true, true => .descend entry.clusterId
  | false, false => .found entry.clusterId entry.fileSize
  | _, _ => .notFound

/-- The first entry of a name ends a search. -/
def findEntry (seekFilename : List Byte) (lookForDirectory : Bool)
    (entries : List DirectoryEntry) : Option SearchResult :=
  (entries.find? fun entry => entry.name = seekFilename).map (·.verdict lookForDirectory)

/-! ## One slot -/

section Slots

variable {disk : Disk} {partition : FATXPartition} {seek : List Byte} {directory : Bool}
  {clusterData data : Memory} {clusterId : Int32} {before : Memory} {address place i : Nat}

theorem slotAt_congr (same : ∀ k < 64, clusterData (address + k) = data (place + k)) :
    slotAt clusterData address = slotAt data place := by
  have first : clusterData address = data place := same 0 (by omega)
  have flags := same 1 (by omega)
  have cluster : clusterData.dword (address + 0x2c) = data.dword (place + 0x2c) :=
    Memory.dword_congr fun k bound => by
      rw [Nat.add_assoc, Nat.add_assoc]
      exact same (0x2c + k) (by omega)
  have size : clusterData.dword (address + 0x30) = data.dword (place + 0x30) :=
    Memory.dword_congr fun k bound => by
      rw [Nat.add_assoc, Nat.add_assoc]
      exact same (0x30 + k) (by omega)
  have name : ∀ count, count ≤ 42 → clusterData.bytes (address + 2) count =
      data.bytes (place + 2) count := by
    intro count short
    apply Memory.bytes_congr
    intro k bound
    rw [Nat.add_assoc, Nat.add_assoc]
    exact same (2 + k) (by omega)
  simp only [slotAt, first, flags, cluster, size]
  by_cases short : (data place).toNat ≤ fatxFilenameMax
  · rw [name _ short]
  · simp only [short, false_and, if_false]

/-- What the scan makes of a slot. -/
def Slot.judge (seekFilename : List Byte) (lookForDirectory : Bool) : Slot → Pass Unit SearchResult
  | deleted => .next ()
  | terminator => .leave .notFound
  | used entry =>
    if entry.name = seekFilename then .leave (entry.verdict lookForDirectory) else .next ()
  | malformed => .leave .notFound

/-- A name is compared in full. -/
theorem compared_iff {name : List Byte} :
    (seek.length = name.length ∧ name.take seek.length = seek.take seek.length) ↔ name = seek := by
  constructor
  · rintro ⟨length, taken⟩
    rwa [length, List.take_length, ← length, List.take_length] at taken
  · rintro rfl
    exact ⟨rfl, rfl⟩

theorem checkForLastDirectoryEntry_iff {byte : Byte} :
    checkForLastDirectoryEntry byte = true ↔ byte.toNat = 0 ∨ byte.toNat = 0xff := by
  have zero : byte = 0 ↔ byte.toNat = 0 := by
    rw [← UInt8.toNat_inj]
    rfl
  have last : byte = 0xff ↔ byte.toNat = 0xff := by
    rw [← UInt8.toNat_inj]
    rfl
  rw [checkForLastDirectoryEntry, decide_eq_true_iff, zero, last, or_comm]

/-- A slot that has a name is compared with the name looked for. -/
theorem scanEntry_hasName (hasName : HasName clusterData (i * 64)) :
    scanEntry seek directory clusterData i =
      if (entryAt clusterData (i * 64)).name = seek then
        .leave ((entryAt clusterData (i * 64)).verdict directory)
      else .next () := by
  obtain ⟨some_byte, short⟩ := hasName
  have small : (clusterData (i * 64)).toNat ≤ 42 := short
  have last : ¬((clusterData (i * 64)).toNat = 0 ∨ (clusterData (i * 64)).toNat = 0xff) := by
    omega
  have free : (clusterData (i * 64)).toNat ≠ 0xe5 := by omega
  have sized : ¬((clusterData (i * 64)).toNat < 1 ∨
      fatxFilenameMax < (clusterData (i * 64)).toNat) := by omega
  have found : foundFilename clusterData (i * 64) (clusterData (i * 64)).toNat =
      (entryAt clusterData (i * 64)).name := rfl
  simp only [scanEntry, fatxDirectoryentrySize, checkForLastDirectoryEntry_iff, last, free, sized,
    if_false, found, compared_iff]
  by_cases named : (entryAt clusterData (i * 64)).name = seek
  · rw [if_pos named, if_pos named]
    by_cases flag : clusterData (i * 64 + 1) &&& fatxFileattrDirectory = 0
    · cases directory <;> simp [flag, DirectoryEntry.verdict, entryAt]
    · cases directory <;> simp [flag, DirectoryEntry.verdict, entryAt]
  · rw [if_neg named, if_neg named]

/-- A slot that is neither deleted nor has a name ends the search without a result. -/
theorem scanEntry_nameless (free : (clusterData (i * 64)).toNat ≠ 0xe5)
    (nameless : ¬HasName clusterData (i * 64)) :
    scanEntry seek directory clusterData i = .leave .notFound := by
  have sized : (clusterData (i * 64)).toNat < 1 ∨
      fatxFilenameMax < (clusterData (i * 64)).toNat := by
    unfold HasName at nameless
    omega
  simp only [scanEntry, fatxDirectoryentrySize, checkForLastDirectoryEntry_iff, free, sized,
    if_false, if_true]
  split
  · rfl
  · rfl

/-- A deleted slot is passed over. -/
theorem scanEntry_deleted (deleted : (clusterData (i * 64)).toNat = 0xe5) :
    scanEntry seek directory clusterData i = .next () := by
  simp [scanEntry, fatxDirectoryentrySize, checkForLastDirectoryEntry_iff, deleted]

/-- An entry whose name has no zeros is the one in the slot. -/
theorem slotAt_hasName (hasName : HasName clusterData address)
    (nonzero : 0 ∉ clusterData.bytes (address + 2) (clusterData address).toNat) :
    slotAt clusterData address = .used (entryAt clusterData address) := by
  obtain ⟨some_byte, short⟩ := hasName
  have small : (clusterData address).toNat ≤ 42 := short
  have whole : (clusterData.bytes (address + 2) (clusterData address).toNat).takeWhile (· ≠ 0) =
      clusterData.bytes (address + 2) (clusterData address).toNat := by
    rw [List.takeWhile_eq_self_iff]
    intro byte member
    have other : byte ≠ 0 := fun zero => nonzero (zero ▸ member)
    simpa using other
  unfold slotAt entryAt
  dsimp only
  rw [if_neg (by omega), if_neg (by omega), if_pos ⟨short, nonzero⟩, whole]

/-- The scan judges a well-formed slot by what it holds. -/
theorem scanEntry_of_slot (i : Nat) (wellFormed : slotAt clusterData (i * 64) ≠ .malformed) :
    scanEntry seek directory clusterData i =
      (slotAt clusterData (i * 64)).judge seek directory := by
  by_cases deleted : (clusterData (i * 64)).toNat = 0xe5
  · rw [scanEntry_deleted deleted]
    simp [slotAt, deleted, Slot.judge]
  · by_cases hasName : HasName clusterData (i * 64)
    · by_cases nonzero : 0 ∉ clusterData.bytes (i * 64 + 2) (clusterData (i * 64)).toNat
      · rw [slotAt_hasName hasName nonzero, scanEntry_hasName hasName]
        rfl
      · obtain ⟨some_byte, short⟩ := hasName
        have small : (clusterData (i * 64)).toNat ≤ 42 := short
        unfold slotAt at wellFormed
        dsimp only at wellFormed
        rw [if_neg (by omega), if_neg deleted, if_neg fun named => nonzero named.2] at wellFormed
        exact absurd rfl wellFormed
    · rw [scanEntry_nameless deleted hasName]
      unfold slotAt at wellFormed ⊢
      dsimp only at wellFormed ⊢
      split
      · rfl
      · next other =>
        have long : ¬(clusterData (i * 64)).toNat ≤ fatxFilenameMax := fun short =>
          hasName ⟨by omega, short⟩
        rw [if_neg other, if_neg deleted, if_neg fun named => long named.1] at wellFormed
        exact absurd rfl wellFormed

/-! ## The slots of a cluster -/

/-- Sectors can be read up to one if that and those before it can. -/
theorem lt_readable {drive : Int32} {count m : Nat} {sector : UInt32} (inside : m < count)
    (reads : ∀ k ≤ m, disk drive (sector + UInt32.ofNat k) ≠ none) :
    m < readable disk drive count sector := by
  induction count generalizing m sector with
  | zero => exact absurd inside (Nat.not_lt_zero m)
  | succ count ih =>
      have here : disk drive sector ≠ none := by
        have first := reads 0 (Nat.zero_le m)
        rwa [show sector + UInt32.ofNat 0 = sector from UInt32.add_zero sector] at first
      obtain ⟨data, content⟩ := Option.ne_none_iff_exists'.mp here
      rw [readable, content]
      cases m with
      | zero => exact Nat.succ_pos _
      | succ m =>
          refine Nat.succ_lt_succ (ih (Nat.lt_of_succ_lt_succ inside) fun k bound => ?_)
          have later := reads (k + 1) (Nat.succ_le_succ bound)
          rw [UInt32.ofNat_add, UInt32.add_comm (UInt32.ofNat k), ← UInt32.add_assoc] at later
          exact later

/-- A slot that can be read, as can those before it, is in the buffer. -/
theorem slotAt_load (before : Memory) {i : Nat} {slot : Slot} (inside : i < 256)
    (reads : ∀ j < i, partition.slot disk clusterId j ≠ none)
    (here : partition.slot disk clusterId i = some slot) :
    slotAt (partition.load disk clusterId before) (i * 64) = slot := by
  obtain ⟨data, content, rfl⟩ := Option.map_eq_some_iff.mp here
  have sectors : ∀ k ≤ i / 8, disk partition.nDriveIndex
      (partition.clusterSector clusterId + UInt32.ofNat k) ≠ none := by
    intro k bound missing
    rcases Nat.lt_or_eq_of_le bound with earlier | last
    · refine reads (k * 8) (by omega) ?_
      rw [FATXPartition.slot, Nat.mul_div_cancel k (by decide), missing]
      rfl
    · rw [last, content] at missing
      cases missing
  have loaded : i / 8 < readable disk partition.nDriveIndex 32
      (partition.clusterSector clusterId) := lt_readable (by omega) sectors
  apply slotAt_congr
  intro k bound
  have sector : (i * 64 + k) / 512 = i / 8 := by omega
  have offset : (i * 64 + k) % 512 = i % 8 * 64 + k := by omega
  rw [FATXPartition.load, fill, if_pos (by omega), diskByte, sector, offset, content]

/-- The scan from a slot on, where the slots before it can be read. -/
theorem forLoop_listed {count start : Nat} {entries : List DirectoryEntry} {atEnd : Bool}
    (inside : start + count ≤ 256)
    (reads : ∀ j < start, partition.slot disk clusterId j ≠ none)
    (slots : listed ((List.range' start count).map (partition.slot disk clusterId)) =
      some (entries, atEnd)) :
    forLoop (fun i _ => scanEntry seek directory (partition.load disk clusterId before) i) count
        start () =
      match findEntry seek directory entries with
      | some result => .leave result
      | none => if atEnd then .leave .notFound else .next () := by
  induction count generalizing start entries atEnd with
  | zero =>
      cases slots
      rfl
  | succ count ih =>
      rw [List.range'_succ, List.map_cons] at slots
      cases here : partition.slot disk clusterId start with
      | none =>
          rw [here] at slots
          cases slots
      | some slot =>
          have inBuffer := slotAt_load before (by omega) reads here
          have later : ∀ j < start + 1, partition.slot disk clusterId j ≠ none := by
            intro j bound
            rcases Nat.lt_or_eq_of_le (Nat.le_of_lt_succ bound) with earlier | same
            · exact reads j earlier
            · rw [same, here]
              exact nofun
          rw [here] at slots
          rw [forLoop_succ]
          cases slot with
          | terminator =>
              cases slots
              rw [scanEntry_of_slot start (by rw [inBuffer]; exact nofun), inBuffer]
              rfl
          | deleted =>
              rw [scanEntry_of_slot start (by rw [inBuffer]; exact nofun), inBuffer]
              exact ih (by omega) later slots
          | malformed => cases slots
          | used entry =>
              obtain ⟨⟨others, ended⟩, rest, same⟩ := Option.map_eq_some_iff.mp slots
              cases same
              rw [scanEntry_of_slot start (by rw [inBuffer]; exact nofun), inBuffer, Slot.judge,
                findEntry, List.find?_cons]
              by_cases named : entry.name = seek
              · simp only [named, if_true, Pass.andThen, decide_true, Option.map_some]
              · simp only [named, if_false, Pass.andThen, decide_false]
                exact ih (by omega) later rest

/-- The scan of a cluster whose slots are well formed up to its terminator. -/
theorem scanCluster_listed (before : Memory) (seek : List Byte) (directory : Bool)
    {entries : List DirectoryEntry} {atEnd : Bool}
    (slots : listed (partition.slots disk clusterId) = some (entries, atEnd)) :
    scanCluster seek directory partition.clusterSize (partition.load disk clusterId before) =
      match findEntry seek directory entries with
      | some result => .leave result
      | none => if atEnd then .leave .notFound else .next () := by
  have count : partition.clusterSize.toNat / fatxDirectoryentrySize = 256 := by
    rw [partition.clusterSize_eq]
    rfl
  rw [FATXPartition.slots, List.range_eq_range'] at slots
  rw [scanCluster, count]
  have none_before : ∀ j < 0, partition.slot disk clusterId j ≠ none := fun _ below =>
    absurd below (Nat.not_lt_zero _)
  exact forLoop_listed (Nat.le_refl 256) none_before slots

end Slots

/-! ## The search of a directory -/

section Search

variable {disk : Disk} {ba : Memory} {stack : List Byte → Memory} {partition : FATXPartition}
  {clusterId : Int32} {entries : List DirectoryEntry}

/-- The entries of a chain map are two or four bytes wide. -/
def FATXPartition.Width (partition : FATXPartition) : Prop :=
  partition.chainMapEntrySize = 2 ∨ partition.chainMapEntrySize = 4

/-- An entry of the chain map is followed unless it is an end marker. -/
theorem getNextClusterInChain_eq (width : partition.Width) (clusterId : Int32) :
    getNextClusterInChain partition clusterId =
      if partition.entry clusterId ∈ partition.endMarkers then -1
      else (partition.entry clusterId).toInt32 := by
  rcases width with narrow | wide
  · simp [getNextClusterInChain, FATXPartition.endMarkers, narrow]
  · simp [getNextClusterInChain, FATXPartition.endMarkers, wide]

/-- An entry of the first directory hides those of the second. -/
theorem findEntry_append (seek : List Byte) (directory : Bool) (front rest : List DirectoryEntry) :
    findEntry seek directory (front ++ rest) =
      (findEntry seek directory front).or (findEntry seek directory rest) := by
  unfold findEntry
  rw [List.find?_append]
  cases front.find? fun entry => decide (entry.name = seek) with
  | none => rfl
  | some entry => rfl

/-- A cluster that ends the search. -/
theorem searchLoop_leaves {seek : List Byte} {directory : Bool} {clusterData : Memory}
    {result : SearchResult} (ba : Memory) (accesses : List Access) (more : clusterId ≠ -1)
    (scanned : scanCluster seek directory partition.clusterSize
      (partition.load disk clusterId clusterData) = .leave result) :
    ∃ fuel later, whileLoop (searchPass disk ba partition seek directory) fuel
        ⟨clusterId, clusterData, accesses⟩ = .leave (result, later) := by
  let search : Search := ⟨clusterId, clusterData, accesses⟩
  refine ⟨1, ⟨clusterId, partition.load disk clusterId clusterData,
    search.loading disk ba partition⟩, ?_⟩
  have left : searchPass disk ba partition seek directory search = _ :=
    searchPass_leave more scanned
  rw [whileLoop_succ, left]
  rfl

/-- A cluster that is passed over. -/
theorem searchLoop_passes {seek : List Byte} {directory : Bool} {clusterData : Memory}
    {result : SearchResult} (ba : Memory) (accesses : List Access) (more : clusterId ≠ -1)
    (scanned : scanCluster seek directory partition.clusterSize
      (partition.load disk clusterId clusterData) = .next ())
    (onwards : ∀ clusterData accesses, ∃ fuel later,
      whileLoop (searchPass disk ba partition seek directory) fuel
        ⟨getNextClusterInChain partition clusterId, clusterData, accesses⟩ =
          .leave (result, later)) :
    ∃ fuel later, whileLoop (searchPass disk ba partition seek directory) fuel
        ⟨clusterId, clusterData, accesses⟩ = .leave (result, later) := by
  let search : Search := ⟨clusterId, clusterData, accesses⟩
  obtain ⟨fuel, later, run⟩ := onwards (partition.load disk clusterId clusterData)
    (.chainMap clusterId :: search.loading disk ba partition)
  have passed : searchPass disk ba partition seek directory search = _ :=
    searchPass_next more scanned
  refine ⟨fuel + 1, later, ?_⟩
  rw [whileLoop_succ, passed]
  exact run

/-- A search of a directory returns, with the verdict on the first entry of the name. -/
theorem searchLoop_listing (ba : Memory) (width : partition.Width) (seek : List Byte)
    (directory : Bool) (listing : partition.Listing disk clusterId entries)
    (clusterData : Memory) (accesses : List Access) :
    ∃ fuel search, whileLoop (searchPass disk ba partition seek directory) fuel
        ⟨clusterId, clusterData, accesses⟩ =
      .leave ((findEntry seek directory entries).getD .notFound, search) := by
  induction listing generalizing clusterData accesses with
  | @terminated clusterId entries more slots =>
      apply searchLoop_leaves ba accesses more
      have scanned := scanCluster_listed clusterData seek directory slots
      cases found : findEntry seek directory entries with
      | none => rwa [found] at scanned
      | some result => rwa [found] at scanned
  | @last clusterId entries more slots marked =>
      have scanned := scanCluster_listed clusterData seek directory slots
      cases found : findEntry seek directory entries with
      | none =>
          rw [found] at scanned
          apply searchLoop_passes ba accesses more scanned
          intro clusterData accesses
          refine ⟨1, ⟨getNextClusterInChain partition clusterId, clusterData, accesses⟩, ?_⟩
          rw [getNextClusterInChain_eq width, if_pos marked, whileLoop_succ, searchPass_over rfl]
          rfl
      | some result =>
          rw [found] at scanned
          exact searchLoop_leaves ba accesses more scanned
  | @link clusterId entries rest more slots unmarked onwards ih =>
      have scanned := scanCluster_listed clusterData seek directory slots
      rw [findEntry_append]
      cases found : findEntry seek directory entries with
      | none =>
          rw [found] at scanned
          apply searchLoop_passes ba accesses more scanned
          rw [getNextClusterInChain_eq width, if_neg unmarked]
          exact ih
      | some result =>
          rw [found] at scanned
          exact searchLoop_leaves ba accesses more scanned

end Search

end Cromwell.Fatx
