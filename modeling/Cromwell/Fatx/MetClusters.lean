import Cromwell.Fatx.Directories
import Cromwell.Fatx.Termination

/-!
# The clusters a path meets

Which clusters a lookup and a load come to, read off the slots of the directories and the
entries of the chain map. A directory is searched cluster by cluster for as long as every slot
is skipped; the first slot that is not skipped decides. Nothing is asked of the drive: a slot
may hold anything, and a sector that cannot be read leaves in the buffer what was there.
-/

namespace Cromwell.Fatx

open Cromwell.Std

/-! ## Slots and links -/

/-- The slots a search for a name goes over: deleted ones, and those of other names. -/
def Skipped (name : List Byte) (memory : Memory) (address : Nat) : Prop :=
  (memory address).toNat = 0xe5 ∨
    HasName memory address ∧ (entryAt memory address).name ≠ name

/-- The slots before one are skipped, and that one has the name. -/
structure FirstNamed (name : List Byte) (memory : Memory) (i : Nat) : Prop where
  inside : i < 256
  skipped : ∀ j < i, Skipped name memory (j * 64)
  hasName : HasName memory (i * 64)
  named : (entryAt memory (i * 64)).name = name

/-- The chain map leads on from a cluster: its entry is the id of the next one, and none of
those that end a chain. -/
def FATXPartition.Links (partition : FATXPartition) (clusterId next : Int32) : Prop :=
  partition.Width ∧ partition.entry clusterId ∉ partition.endMarkers ∧
    (partition.entry clusterId).toInt32 = next

/-- The clusters of a chain. -/
def FATXPartition.Chained (partition : FATXPartition) (first clusterId : Int32) : Prop :=
  first ≠ -1 ∧ Relation.ReflTransGen partition.Links first clusterId

/-- Every slot of a cluster is skipped, and the chain map leads on. With a cluster comes what
the buffer holds before it is loaded. -/
def FATXPartition.GoesOn (partition : FATXPartition) (disk : Disk) (name : List Byte)
    (place next : Int32 × Memory) : Prop :=
  (∀ i < 256, Skipped name (partition.load disk place.1 place.2) (i * 64)) ∧
    partition.Links place.1 next.1 ∧ next.2 = partition.load disk place.1 place.2

/-- The clusters a search for a name comes to in the directory that begins with one. -/
def FATXPartition.Comes (partition : FATXPartition) (disk : Disk) (name : List Byte)
    (first : Int32) (before : Memory) (place : Int32 × Memory) : Prop :=
  first ≠ -1 ∧ Relation.ReflTransGen (partition.GoesOn disk name) (first, before) place

/-- The directory lists an entry of a name, before anything that ends the search. -/
def FATXPartition.Lists (partition : FATXPartition) (disk : Disk) (name : List Byte)
    (first : Int32) (before : Memory) (entry : DirectoryEntry) : Prop :=
  ∃ place, partition.Comes disk name first before place ∧
    ∃ i, FirstNamed name (partition.load disk place.1 place.2) i ∧
      entryAt (partition.load disk place.1 place.2) (i * 64) = entry

/-- What comes before the first slash. -/
def firstName (path : List Byte) : List Byte := path.takeWhile (· ≠ 0x2f)

/-- The directories a path is looked up in: what is left of the path, and the first cluster of
the directory that is searched for its first name. -/
inductive FATXPartition.LooksUp (partition : FATXPartition) (disk : Disk)
    (stack : List Byte → Memory) : List Byte → Int32 → List Byte → Int32 → Prop
  | here {path : List Byte} {first : Int32}
      (short : (firstName path).length ≤ fatxFilenameMax) :
      partition.LooksUp disk stack path first path first
  | inner {name rest path : List Byte} {first last : Int32} {entry : DirectoryEntry}
      (noSlash : 0x2f ∉ name) (short : name.length ≤ fatxFilenameMax)
      (lists : partition.Lists disk name first (stack (name ++ 0x2f :: rest)) entry)
      (isDirectory : entry.isDirectory = true)
      (onwards : partition.LooksUp disk stack rest entry.clusterId path last) :
      partition.LooksUp disk stack (name ++ 0x2f :: rest) first path last

/-- A path leads to a file. -/
def FATXPartition.LeadsToFile (partition : FATXPartition) (disk : Disk)
    (stack : List Byte → Memory) (path : List Byte) (first : Int32)
    (entry : DirectoryEntry) : Prop :=
  ∃ name last, partition.LooksUp disk stack path first name last ∧ 0x2f ∉ name ∧
    partition.Lists disk name last (stack name) entry ∧ entry.isDirectory = false

variable {disk : Disk} {stack : List Byte → Memory} {partition : FATXPartition}

/-! ## Chains -/

/-- Only an end marker reads as the id that ends a chain. -/
theorem toInt32_entry (width : partition.Width) {clusterId : Int32}
    (unmarked : partition.entry clusterId ∉ partition.endMarkers) :
    (partition.entry clusterId).toInt32 ≠ -1 := by
  intro same
  have all : partition.entry clusterId = 0xffffffff := by
    have back := congrArg Int32.toUInt32 same
    rwa [UInt32.toUInt32_toInt32] at back
  rcases width with narrow | wide
  · have small : (partition.entry clusterId).toNat < 0x10000 := by
      rw [FATXPartition.entry, if_pos narrow, word, UInt32.toNat_ofNat']
      have low := (partition.clusterChainMap (clusterId.toUInt32 * 2).toNat).toNat_lt
      have high := (partition.clusterChainMap ((clusterId.toUInt32 * 2).toNat + 1)).toNat_lt
      omega
    rw [all] at small
    exact absurd small (by decide)
  · rw [all, FATXPartition.endMarkers, wide] at unmarked
    exact unmarked (by decide)

/-- A load goes on where the chain map leads on. -/
theorem chainStep_eq_some {clusterId next : Int32} :
    chainStep partition clusterId = some next ↔ partition.Links clusterId next := by
  rw [chainStep, enter_eq_some]
  by_cases width : partition.Width
  · rw [getNextClusterInChain_eq width]
    by_cases marked : partition.entry clusterId ∈ partition.endMarkers
    · simp [FATXPartition.Links, marked]
    · have other := toInt32_entry width marked
      simp [FATXPartition.Links, marked, width, other]
  · have neither := not_or.mp width
    simp [FATXPartition.Links, width, getNextClusterInChain, FATXPartition.entry, neither]

/-- A load comes to the clusters of the chain. -/
theorem chained_iff {first clusterId : Int32} :
    (∃ count, partition.clusterAt first count = some clusterId) ↔
      partition.Chained first clusterId := by
  have steps : (fun current next => chainStep partition current = some next) =
      partition.Links := by
    funext current next
    exact propext chainStep_eq_some
  unfold FATXPartition.Chained FATXPartition.clusterAt
  rw [exists_walk_iff, steps]
  simp only [enter_eq_some]
  constructor
  · rintro ⟨_, ⟨more, rfl⟩, links⟩
    exact ⟨more, links⟩
  · rintro ⟨more, links⟩
    exact ⟨first, ⟨more, rfl⟩, links⟩

/-! ## Slots of a cluster -/

section Slots

variable {name : List Byte} {directory : Bool} {clusterData : Memory} {i j : Nat}

/-- The slots that are skipped are those passed over. -/
theorem scanEntry_next_iff : scanEntry name directory clusterData i = .next () ↔
    Skipped name clusterData (i * 64) := by
  unfold Skipped
  by_cases deleted : (clusterData (i * 64)).toNat = 0xe5
  · simp [scanEntry_deleted deleted, deleted]
  · by_cases hasName : HasName clusterData (i * 64)
    · rw [scanEntry_hasName hasName]
      simp [deleted, hasName]
    · rw [scanEntry_nameless deleted hasName]
      simp [deleted, hasName]

/-- A result comes from a slot of the name. -/
theorem scanEntry_leave_iff {result : SearchResult} (finds : result ≠ .notFound) :
    scanEntry name directory clusterData i = .leave result ↔
      HasName clusterData (i * 64) ∧ (entryAt clusterData (i * 64)).name = name ∧
        (entryAt clusterData (i * 64)).verdict directory = result := by
  by_cases hasName : HasName clusterData (i * 64)
  · rw [scanEntry_hasName hasName, and_iff_right hasName]
    by_cases named : (entryAt clusterData (i * 64)).name = name
    · simp [named]
    · simp [named]
  · constructor
    · intro left
      by_cases deleted : (clusterData (i * 64)).toNat = 0xe5
      · rw [scanEntry_deleted deleted] at left
        cases left
      · rw [scanEntry_nameless deleted hasName] at left
        cases left
        exact absurd rfl finds
    · rintro ⟨some_name, -⟩
      exact absurd some_name hasName

/-- A cluster is passed over exactly if each of its slots is skipped. -/
theorem scanCluster_skipped_iff : scanCluster name directory partition.clusterSize clusterData =
    .next () ↔ ∀ i < 256, Skipped name clusterData (i * 64) := by
  have count : partition.clusterSize.toNat / 64 = 256 := by
    rw [partition.clusterSize_eq]
    rfl
  rw [scanCluster_next_iff, count]
  exact forall₂_congr fun i _ => scanEntry_next_iff

/-- What a search finds in a cluster is its first slot of the name. -/
theorem scanCluster_leave_iff {result : SearchResult} (finds : result ≠ .notFound) :
    scanCluster name directory partition.clusterSize clusterData = .leave result ↔
      ∃ i, FirstNamed name clusterData i ∧
        (entryAt clusterData (i * 64)).verdict directory = result := by
  have count : partition.clusterSize.toNat / fatxDirectoryentrySize = 256 := by
    rw [partition.clusterSize_eq]
    rfl
  rw [scanCluster, count, forLoop_leave_iff]
  simp only [scanEntry_next_iff, scanEntry_leave_iff finds]
  constructor
  · rintro ⟨i, -, inside, skipped, hasName, named, result⟩
    exact ⟨i, ⟨by omega, fun j => skipped j (Nat.zero_le j), hasName, named⟩, result⟩
  · rintro ⟨i, ⟨inside, skipped, hasName, named⟩, result⟩
    exact ⟨i, Nat.zero_le i, by omega, fun j _ => skipped j, hasName, named, result⟩

end Slots

/-! ## Searches -/

section Searches

variable {path : List Byte} {first : Int32}

/-- A search goes on where every slot is skipped and the chain map leads on. -/
theorem searchStep_iff {name : List Byte} {directory : Bool} {place next : Int32 × Memory} :
    searchStep disk partition name directory place = some next ↔
      partition.GoesOn disk name place next := by
  rw [searchStep_eq_some, scanCluster_skipped_iff, chainStep_eq_some]
  exact Iff.rfl

/-- The clusters a search loads are those it comes to. -/
theorem comes_iff {place : Int32 × Memory} :
    (∃ count, searchAt disk stack partition path first count = some place) ↔
      partition.Comes disk (seekFilename path) first (stack path) place := by
  have steps : (fun current next => searchStep disk partition (seekFilename path)
      (lookForDirectory path) current = some next) =
        partition.GoesOn disk (seekFilename path) := by
    funext current next
    exact propext searchStep_iff
  unfold FATXPartition.Comes searchAt
  rw [exists_walk_iff, steps]
  simp only [Option.map_eq_some_iff, enter_eq_some]
  constructor
  · rintro ⟨_, ⟨_, ⟨more, rfl⟩, rfl⟩, goesOn⟩
    exact ⟨more, goesOn⟩
  · rintro ⟨more, goesOn⟩
    exact ⟨_, ⟨first, ⟨more, rfl⟩, rfl⟩, goesOn⟩

/-- What a search finds is what the directory lists. -/
theorem searchLeaves_iff {result : SearchResult} (finds : result ≠ .notFound) :
    SearchLeaves disk stack partition path first result ↔
      ∃ entry, partition.Lists disk (seekFilename path) first (stack path) entry ∧
        entry.verdict (lookForDirectory path) = result := by
  unfold SearchLeaves FATXPartition.Lists
  simp only [scanCluster_leave_iff finds]
  constructor
  · rintro ⟨count, place, reached, i, named, same⟩
    exact ⟨_, ⟨place, comes_iff.mp ⟨count, reached⟩, i, named, rfl⟩, same⟩
  · rintro ⟨_, ⟨place, comes, i, named, rfl⟩, same⟩
    obtain ⟨count, reached⟩ := comes_iff.mpr comes
    exact ⟨count, place, reached, i, named, same⟩

/-- A directory is entered if one is looked for. -/
theorem verdict_descend_iff {entry : DirectoryEntry} {directory : Bool} {clusterId : Int32} :
    entry.verdict directory = .descend clusterId ↔
      directory = true ∧ entry.isDirectory = true ∧ entry.clusterId = clusterId := by
  unfold DirectoryEntry.verdict
  cases directory <;> cases entry.isDirectory <;> simp

/-- A file is found if no directory is looked for. -/
theorem verdict_found_iff {entry : DirectoryEntry} {directory : Bool} {clusterId : Int32}
    {fileSize : UInt32} : entry.verdict directory = .found clusterId fileSize ↔
      directory = false ∧ entry.isDirectory = false ∧ entry.clusterId = clusterId ∧
        entry.fileSize = fileSize := by
  unfold DirectoryEntry.verdict
  cases directory <;> cases entry.isDirectory <;> simp

end Searches

/-! ## Paths -/

section Paths

variable {path name rest : List Byte} {first last : Int32}

theorem position_eq (path : List Byte) :
    (strrchr0 path 0x2f).getD path.length = path.findIdx (· = 0x2f) := by
  unfold strrchr0
  cases found : path.findIdx? (· = 0x2f) with
  | none =>
      refine (List.findIdx_eq_length.mpr fun c member => ?_).symm
      simpa using List.findIdx?_eq_none_iff.mp found c member
  | some position => exact (List.findIdx?_eq_some_iff_findIdx_eq.mp found).2.symm

/-- The name looked for is the first one of the path. -/
theorem seekFilename_eq (path : List Byte) : seekFilename path = firstName path := by
  rw [seekFilename, position_eq, firstName, List.takeWhile_eq_take_findIdx_not]
  simp

/-- A directory is looked for if there is a slash. -/
theorem lookForDirectory_iff : lookForDirectory path = true ↔ 0x2f ∈ path := by
  simp [lookForDirectory, strrchr0]

theorem slash_not_mem_firstName (path : List Byte) : 0x2f ∉ firstName path := by
  intro member
  have other := List.mem_takeWhile_imp member
  simp at other

theorem firstName_eq_self (noSlash : 0x2f ∉ name) : firstName name = name := by
  rw [firstName, List.takeWhile_eq_self_iff]
  intro c member
  have other : c ≠ 0x2f := fun same => noSlash (same ▸ member)
  simpa using other

/-- What comes before and after the first slash. -/
theorem split_slash (rest : List Byte) (noSlash : 0x2f ∉ name) :
    firstName (name ++ 0x2f :: rest) = name ∧ afterSlash (name ++ 0x2f :: rest) = rest := by
  have before : ∀ c ∈ name, decide (c ≠ 0x2f) = true := fun c member =>
    decide_eq_true fun same => noSlash (same ▸ member)
  have position : strrchr0 (name ++ 0x2f :: rest) 0x2f = some name.length := by
    refine List.findIdx?_eq_some_iff_getElem.mpr ⟨by simp, by simp, fun j earlier => ?_⟩
    have inside := before _ (List.getElem_mem earlier)
    rw [List.getElem_append_left earlier]
    simpa using inside
  constructor
  · rw [firstName, List.takeWhile_append_of_pos before]
    simp
  · rw [afterSlash, position, Option.getD_some, List.drop_append]
    simp

/-- A path that has a slash is its first name, the slash, and what follows. -/
theorem firstName_slash (slash : 0x2f ∈ path) :
    firstName path ++ 0x2f :: afterSlash path = path := by
  obtain ⟨name, rest, rfl, noSlash⟩ := List.eq_append_cons_of_mem slash
  obtain ⟨before, behind⟩ := split_slash rest noSlash
  rw [before, behind]

/-- The directories a path is looked up in are those it leads to. -/
theorem leadsTo_iff : LeadsTo disk stack partition path first rest last ↔
    partition.LooksUp disk stack path first rest last := by
  constructor
  · intro leads
    induction leads with
    | here fits =>
        rw [seekFilename_eq] at fits
        exact .here fits
    | @descend filename rest clusterId entryClusterId last fits leaves onwards ih =>
        obtain ⟨entry, lists, same⟩ := (searchLeaves_iff (by simp)).mp leaves
        obtain ⟨slash, isDirectory, rfl⟩ := verdict_descend_iff.mp same
        have whole := firstName_slash (lookForDirectory_iff.mp slash)
        rw [seekFilename_eq] at fits lists
        have inner := FATXPartition.LooksUp.inner (slash_not_mem_firstName filename) fits
          (by rw [whole]; exact lists) isDirectory ih
        rwa [whole] at inner
  · intro looksUp
    induction looksUp with
    | here short =>
        rw [← seekFilename_eq] at short
        exact .here short
    | @inner name rest path first last entry noSlash short lists isDirectory onwards ih =>
        obtain ⟨before, behind⟩ := split_slash rest noSlash
        have slash : lookForDirectory (name ++ 0x2f :: rest) = true :=
          lookForDirectory_iff.mpr (by simp)
        refine .descend (by rwa [seekFilename_eq, before])
          ((searchLeaves_iff (by simp)).mpr ⟨entry, ?_, ?_⟩) (by rwa [behind])
        · rwa [seekFilename_eq, before]
        · exact verdict_descend_iff.mpr ⟨slash, isDirectory, rfl⟩

/-- A lookup comes to the files the path leads to. -/
theorem finds_iff {clusterId : Int32} {fileSize : UInt32} :
    Finds disk stack partition path first clusterId fileSize ↔
      ∃ entry, partition.LeadsToFile disk stack path first entry ∧
        entry.clusterId = clusterId ∧ entry.fileSize = fileSize := by
  have finds : SearchResult.found clusterId fileSize ≠ .notFound := nofun
  constructor
  · rintro ⟨rest, last, leads, leaves⟩
    obtain ⟨entry, lists, same⟩ := (searchLeaves_iff finds).mp leaves
    obtain ⟨file, isFile, id, size⟩ := verdict_found_iff.mp same
    have noSlash : 0x2f ∉ rest := fun slash => by
      rw [lookForDirectory_iff.mpr slash] at file
      cases file
    rw [seekFilename_eq, firstName_eq_self noSlash] at lists
    exact ⟨entry, ⟨rest, last, leadsTo_iff.mp leads, noSlash, lists, isFile⟩, id, size⟩
  · rintro ⟨entry, ⟨rest, last, looksUp, noSlash, lists, isFile⟩, id, size⟩
    have file : lookForDirectory rest = false :=
      Bool.eq_false_iff.mpr fun slash => noSlash (lookForDirectory_iff.mp slash)
    refine ⟨rest, last, leadsTo_iff.mpr looksUp, (searchLeaves_iff finds).mpr ⟨entry, ?_, ?_⟩⟩
    · rwa [seekFilename_eq, firstName_eq_self noSlash]
    · exact verdict_found_iff.mpr ⟨file, isFile, id, size⟩

end Paths

end Cromwell.Fatx
