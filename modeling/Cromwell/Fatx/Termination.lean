import Cromwell.Fatx.Load

/-!
# When a chain walk returns

Nothing counts the clusters of a chain. A file is loaded, and a path looked up, exactly if
no chain followed on the way visits a cluster twice. For a directory that takes an
argument: a cluster met again may leave other bytes of the buffer in place than the first
time, but only bytes that have been scanned before.
-/

namespace Cromwell.Fatx

open Cromwell.Std

/-- The chain from a cluster visits some cluster twice. -/
def FATXPartition.Cyclic (partition : FATXPartition) (clusterId : Int32) : Prop :=
  Repeats id (chainStep partition) (enter clusterId)

/-- The search of a directory visits some cluster twice. -/
def SearchCyclic (disk : Disk) (stack : List Byte → Memory) (partition : FATXPartition)
    (filename : List Byte) (clusterId : Int32) : Prop :=
  Repeats Prod.fst (searchStep disk partition (seekFilename filename) (lookForDirectory filename))
    ((enter clusterId).map fun clusterId => (clusterId, stack filename))

variable {disk : Disk} {ba : Memory} {stack : List Byte → Memory} {partition : FATXPartition}

instance finite_int32 : Finite Int32 :=
  Finite.of_injective (fun value : Int32 => value.toBitVec.toFin) fun _ _ same =>
    Int32.toBitVec_inj.mp (BitVec.toFin_inj.mp same)

/-! ## Files -/

theorem fatxLoadFromDisk_returns_iff (loadStack : Memory) (fileinfo : FATXFileInfo)
    (buffer : Nat) (memory : Memory) (accesses : List Access) :
    (∃ fuel result, (fatxLoadFromDisk disk ba loadStack partition fuel fileinfo buffer memory
      accesses).result = some result) ↔ ¬partition.Cyclic fileinfo.clusterId := by
  have returned : (∃ fuel result, (fatxLoadFromDisk disk ba loadStack partition fuel fileinfo
      buffer memory accesses).result = some result) ↔
        Halts (loadPass disk ba partition) (fileinfo.start loadStack buffer memory accesses) := by
    constructor
    · rintro ⟨fuel, result, done⟩
      rw [fatxLoadFromDisk] at done
      cases run : whileLoop (loadPass disk ba partition) fuel
          (fileinfo.start loadStack buffer memory accesses) with
      | next load =>
          rw [run] at done
          cases done
      | leave load => exact ⟨fuel, load, run⟩
    · rintro ⟨fuel, load, run⟩
      exact ⟨fuel, decide (load.fileSize = 0), by rw [fatxLoadFromDisk, run]⟩
  rw [returned, loadPass_follows.halts_iff, ends_iff_not_repeats]
  rfl

/-! ## Directories -/

section Scan

variable {seek : List Byte} {directory : Bool} {clusterData other : Memory} {i : Nat}

/-- An entry is judged by its own bytes. -/
theorem scanEntry_congr
    (same : ∀ k < 64, clusterData (i * 64 + k) = other (i * 64 + k)) :
    scanEntry seek directory clusterData i = scanEntry seek directory other i := by
  have first := same 0 (by omega)
  have flags := same 1 (by omega)
  have cluster : clusterData.dword (i * 64 + 0x2c) = other.dword (i * 64 + 0x2c) :=
    Memory.dword_congr fun k bound => by
      rw [Nat.add_assoc]
      exact same (0x2c + k) (by omega)
  have size : clusterData.dword (i * 64 + 0x30) = other.dword (i * 64 + 0x30) :=
    Memory.dword_congr fun k bound => by
      rw [Nat.add_assoc]
      exact same (0x30 + k) (by omega)
  have name : ∀ count, count ≤ 42 → foundFilename clusterData (i * 64) count =
      foundFilename other (i * 64) count := by
    intro count short
    unfold foundFilename
    rw [Memory.bytes_congr fun k bound => ?_]
    rw [Nat.add_assoc]
    exact same (2 + k) (by omega)
  rw [Nat.add_zero] at first
  simp only [scanEntry, fatxDirectoryentrySize, first, flags, cluster, size]
  by_cases long : fatxFilenameMax < (other (i * 64)).toNat
  · simp only [long, or_true, if_true]
  · rw [name _ (Nat.le_of_not_lt long)]
    rfl

/-- A cluster is passed over exactly if each of its entries is. -/
theorem scanCluster_next_iff {clusterSize : UInt32} :
    scanCluster seek directory clusterSize clusterData = .next () ↔
      ∀ i < clusterSize.toNat / 64, scanEntry seek directory clusterData i = .next () := by
  have general : ∀ count start,
      forLoop (fun i _ => scanEntry seek directory clusterData i) count start () = .next () ↔
        ∀ i, start ≤ i → i < start + count → scanEntry seek directory clusterData i = .next () := by
    intro count
    induction count with
    | zero =>
        intro start
        simp only [forLoop_zero, true_iff]
        intro i lower upper
        omega
    | succ count ih =>
        intro start
        rw [forLoop_succ]
        cases first : scanEntry seek directory clusterData start with
        | leave result =>
            simp only [Pass.andThen, reduceCtorEq, false_iff]
            intro all
            have passed := all start (Nat.le_refl start) (by omega)
            rw [first] at passed
            cases passed
        | next _ =>
            rw [Pass.andThen, ih (start + 1)]
            constructor
            · intro rest i lower upper
              rcases Nat.eq_or_lt_of_le lower with same | later
              · rw [← same]
                exact first
              · exact rest i later (by omega)
            · intro all i lower upper
              exact all i (by omega) (by omega)
  rw [scanCluster, general]
  constructor
  · intro all i bound
    exact all i (Nat.zero_le i) (by simpa [fatxDirectoryentrySize] using bound)
  · intro all i _ bound
    exact all i (by simpa [fatxDirectoryentrySize] using bound)

/-- An entry of a loaded cluster lies in a sector that was read, or in one that was not. -/
theorem load_entry (disk : Disk) (partition : FATXPartition) (clusterId : Int32) (i : Nat)
    (before : Memory) :
    (∀ buffer, ∀ k < 64, partition.load disk clusterId before (i * 64 + k) =
        partition.load disk clusterId buffer (i * 64 + k)) ∨
      ∀ k < 64, partition.load disk clusterId before (i * 64 + k) = before (i * 64 + k) := by
  rcases Nat.lt_or_ge i (8 * partition.readable disk clusterId) with read | missing
  · refine .inl fun buffer k bound => ?_
    have inside : i * 64 + k < 512 * Fatx.readable disk partition.nDriveIndex 32
        (partition.clusterSector clusterId) := by
      change _ < 512 * partition.readable disk clusterId
      omega
    rw [FATXPartition.load, FATXPartition.load, fill, fill, if_pos inside, if_pos inside]
  · refine .inr fun k bound => ?_
    have outside : ¬i * 64 + k < 512 * Fatx.readable disk partition.nDriveIndex 32
        (partition.clusterSector clusterId) := by
      change ¬_ < 512 * partition.readable disk clusterId
      omega
    rw [FATXPartition.load, fill, if_neg outside]

/-- A cluster that was passed over is passed over again, whatever is in the buffer before,
if every entry there would be passed over as well. -/
theorem scanCluster_again {clusterId : Int32} {before buffer : Memory} {clusterSize : UInt32}
    (passed : scanCluster seek directory clusterSize (partition.load disk clusterId before) =
      .next ())
    (scanned : scanCluster seek directory clusterSize buffer = .next ()) :
    scanCluster seek directory clusterSize (partition.load disk clusterId buffer) = .next () := by
  rw [scanCluster_next_iff] at passed scanned ⊢
  intro i bound
  rcases load_entry disk partition clusterId i buffer with read | missing
  · rw [scanEntry_congr (read before)]
    exact passed i bound
  · rw [scanEntry_congr missing]
    exact scanned i bound

end Scan

section Search

variable {filename : List Byte} {clusterId : Int32}

/-- One step of the search: the cluster is passed over and its chain goes on. -/
theorem searchStep_eq_some {seek : List Byte} {directory : Bool} {place next : Int32 × Memory} :
    searchStep disk partition seek directory place = some next ↔
      scanCluster seek directory partition.clusterSize (partition.load disk place.1 place.2) =
          .next () ∧ chainStep partition place.1 = some next.1 ∧
        next.2 = partition.load disk place.1 place.2 := by
  cases scanned : scanCluster seek directory partition.clusterSize
      (partition.load disk place.1 place.2) with
  | leave result => simp [searchStep, scanned]
  | next _ =>
      simp only [searchStep, scanned, chainStep, Option.map_eq_some_iff]
      constructor
      · rintro ⟨entered, follows, rfl⟩
        exact ⟨trivial, follows, rfl⟩
      · rintro ⟨-, follows, same⟩
        exact ⟨next.1, follows, Prod.ext rfl same.symm⟩

/-- A search that visits a cluster twice goes round for ever. -/
theorem not_ends_of_searchCyclic (cyclic : SearchCyclic disk stack partition filename clusterId) :
    ¬Ends (searchStep disk partition (seekFilename filename) (lookForDirectory filename))
      ((enter clusterId).map fun clusterId => (clusterId, stack filename)) := by
  obtain ⟨i, j, first, second, before, at_first, at_second, same⟩ := cyclic
  let at_ := searchAt disk stack partition filename clusterId
  have step_of : ∀ k place next, at_ k = some place → at_ (k + 1) = some next →
      searchStep disk partition (seekFilename filename) (lookForDirectory filename) place =
        some next := by
    intro k place next here there
    change (walk _ _ k).bind _ = _ at there
    change walk _ _ k = _ at here
    rw [here] at there
    exact there
  have between : ∀ k, k ≤ j → ∃ place, at_ k = some place := by
    intro k bound
    cases here : at_ k with
    | some place => exact ⟨place, rfl⟩
    | none =>
        have stuck := walk_none here (j - k)
        rw [Nat.add_sub_cancel' bound, at_second] at stuck
        cases stuck
  -- Everything in the buffer was passed over, and the cluster is one of the round.
  refine not_ends_of_invariant (fun place =>
    scanCluster (seekFilename filename) (lookForDirectory filename) partition.clusterSize place.2 =
        .next () ∧
      ∃ k visited, i ≤ k ∧ k < j ∧ at_ k = some visited ∧ place.1 = visited.1)
    at_second ?_ ?_
  · obtain ⟨k, rfl⟩ := Nat.exists_eq_add_of_lt before
    obtain ⟨last, at_last⟩ := between (i + k) (by omega)
    obtain ⟨passed, -, buffer⟩ := searchStep_eq_some.mp (step_of _ _ _ at_last at_second)
    exact ⟨buffer ▸ passed, i, first, Nat.le_refl i, before, at_first, same.symm⟩
  · rintro ⟨cluster, buffer⟩ ⟨scanned, k, visited, lower, upper, at_visited, rfl⟩
    obtain ⟨following, at_following⟩ := between (k + 1) upper
    obtain ⟨passed, onwards, -⟩ :=
      searchStep_eq_some.mp (step_of _ _ _ at_visited at_following)
    have again := scanCluster_again passed scanned
    refine ⟨(following.1, partition.load disk visited.1 buffer),
      searchStep_eq_some.mpr ⟨again, onwards, rfl⟩, again, ?_⟩
    rcases Nat.lt_or_ge (k + 1) j with later | last
    · exact ⟨k + 1, following, by omega, later, at_following, rfl⟩
    · have closing : k + 1 = j := Nat.le_antisymm upper last
      rw [closing] at at_following
      have round := Option.some.inj (at_following.symm.trans at_second)
      exact ⟨i, first, Nat.le_refl i, before, at_first, by rw [round, same]⟩

/-- The search of one directory returns exactly if no cluster is visited twice. -/
theorem search_halts_iff (ba : Memory) (accesses : List Access) :
    (∃ fuel left, searchLoop disk ba stack partition filename clusterId accesses fuel =
        .leave left) ↔ ¬SearchCyclic disk stack partition filename clusterId := by
  refine ((searchPass_follows ba).halts_iff _).trans ⟨?_, ?_⟩
  · intro ends cyclic
    exact not_ends_of_searchCyclic cyclic ends
  · exact ends_of_not_repeats

end Search

/-! ## Paths -/

section Paths

variable {filename : List Byte} {clusterId : Int32} {fileinfo : FATXFileInfo}
  {accesses : List Access}

/-- More fuel does not change a lookup that has returned. -/
theorem findFile_fuel_add {fuel : Nat} {result : Option FATXFileInfo}
    (returned : (_fatxFindFile disk ba stack partition fuel filename clusterId fileinfo
      accesses).result = some result) (more : Nat) :
    (_fatxFindFile disk ba stack partition (fuel + more) filename clusterId fileinfo
      accesses).result = some result := by
  induction fuel generalizing filename clusterId accesses with
  | zero => cases returned
  | succ fuel ih =>
      rw [Nat.add_right_comm]
      rw [_fatxFindFile] at returned ⊢
      by_cases long : fatxFilenameMax < (seekFilename filename).length
      · rw [if_pos long] at returned ⊢
        exact returned
      · rw [if_neg long] at returned ⊢
        cases run : searchLoop disk ba stack partition filename clusterId accesses (fuel + 1) with
        | next search =>
            rw [run] at returned
            cases returned
        | leave left =>
            have later := searchLoop_leave_add run more
            rw [Nat.add_right_comm] at later
            rw [run] at returned
            rw [later]
            obtain ⟨ending, search⟩ := left
            cases ending with
            | notFound => exact returned
            | found entryClusterId fileSize => exact returned
            | descend entryClusterId => exact ih returned

/-- A file is not searched for in a directory that an entry names. -/
theorem scanEntry_file (seek : List Byte) (clusterData : Memory) (i : Nat) :
    (scanEntry seek false clusterData i).Ends (fun _ => True)
      fun result => ∀ entryClusterId, result ≠ .descend entryClusterId := by
  unfold scanEntry
  dsimp only
  split
  · simp [Pass.Ends]
  · split
    · trivial
    · split
      · simp [Pass.Ends]
      · split
        · split <;> simp_all [Pass.Ends]
        · trivial

/-- Only a component that is followed by a slash leads to another directory. -/
theorem scanCluster_descend {seek : List Byte} {directory : Bool} {clusterSize : UInt32}
    {clusterData : Memory} {entryClusterId : Int32}
    (scanned : scanCluster seek directory clusterSize clusterData =
      .leave (.descend entryClusterId)) : directory = true := by
  cases directory with
  | true => rfl
  | false =>
      have entries : (scanCluster seek false clusterSize clusterData).Ends (fun _ => True)
          fun result => ∀ entryClusterId, result ≠ .descend entryClusterId :=
        forLoop_exit (fun i _ => scanEntry_file seek clusterData i) _ 0 ()
      rw [scanned] at entries
      exact absurd rfl (entries entryClusterId)

/-- What follows a slash is shorter. -/
theorem length_afterSlash (slash : lookForDirectory filename = true) :
    (afterSlash filename).length < filename.length := by
  obtain ⟨position, found⟩ := Option.isSome_iff_exists.mp slash
  have inside : position < filename.length := by
    have item := List.findIdx?_eq_some_iff_findIdx_eq.mp found
    exact item.1
  rw [afterSlash, found, List.length_drop, Option.getD_some]
  omega

/-- A lookup that returns has met no search that goes round. -/
theorem not_searchCyclic_of_returns {fuel : Nat} {result : Option FATXFileInfo}
    (returned : (_fatxFindFile disk ba stack partition fuel filename clusterId fileinfo
      accesses).result = some result) {rest : List Byte} {last : Int32}
    (leads : LeadsTo disk stack partition filename clusterId rest last) :
    ¬SearchCyclic disk stack partition rest last := by
  induction leads generalizing fuel accesses with
  | @here filename clusterId fits =>
      cases fuel with
      | zero => cases returned
      | succ fuel =>
          rw [_fatxFindFile, if_neg (Nat.not_lt.mpr fits)] at returned
          rw [← search_halts_iff ba accesses]
          cases run : searchLoop disk ba stack partition filename clusterId accesses
              (fuel + 1) with
          | next search =>
              rw [run] at returned
              cases returned
          | leave left => exact ⟨fuel + 1, left, run⟩
  | @descend filename rest clusterId entryClusterId last fits leaves onwards ih =>
      cases fuel with
      | zero => cases returned
      | succ fuel =>
          rw [_fatxFindFile, if_neg (Nat.not_lt.mpr fits)] at returned
          obtain ⟨passes, found, left⟩ := leaves.searchLoop ba accesses
          cases run : searchLoop disk ba stack partition filename clusterId accesses
              (fuel + 1) with
          | next search =>
              rw [run] at returned
              cases returned
          | leave ending =>
              have same := whileLoop_leave_unique run left
              subst same
              rw [run] at returned
              exact ih returned

/-- A lookup that leads to no search that goes round returns. -/
theorem returns_of_not_searchCyclic (filename : List Byte) (clusterId : Int32)
    (acyclic : ∀ rest last, LeadsTo disk stack partition filename clusterId rest last →
      ¬SearchCyclic disk stack partition rest last) (accesses : List Access) :
    ∃ fuel result, (_fatxFindFile disk ba stack partition fuel filename clusterId fileinfo
      accesses).result = some result := by
  induction length : filename.length using Nat.strong_induction_on
    generalizing filename clusterId accesses with
  | _ n ih =>
      by_cases long : fatxFilenameMax < (seekFilename filename).length
      · exact ⟨1, none, by rw [_fatxFindFile, if_pos long]⟩
      have fits := Nat.le_of_not_lt long
      obtain ⟨passes, ⟨ending, search⟩, left⟩ :=
        (search_halts_iff ba accesses).mpr (acyclic filename clusterId (.here fits))
      cases ending with
      | notFound =>
          refine ⟨passes + 1, none, ?_⟩
          rw [_fatxFindFile, if_neg long, searchLoop_leave_add left 1]
      | found entryClusterId fileSize =>
          refine ⟨passes + 1, some
            { fileinfo with clusterId := entryClusterId, fileSize, filename }, ?_⟩
          rw [_fatxFindFile, if_neg long, searchLoop_leave_add left 1]
      | descend entryClusterId =>
          have leaves := (searchLoop_leave left).resolve_left (by simp)
          obtain ⟨count, place, reached, scanned⟩ := id leaves
          have shorter := length_afterSlash (scanCluster_descend scanned)
          obtain ⟨fuel, result, returned⟩ := ih _ (by omega) (afterSlash filename) entryClusterId
            (fun rest last onwards => acyclic rest last (.descend fits leaves onwards))
            search.accesses rfl
          refine ⟨fuel + passes + 1, result, ?_⟩
          have enough : fuel + passes + 1 = passes + (fuel + 1) := by omega
          rw [_fatxFindFile, if_neg long, enough, searchLoop_leave_add left (fuel + 1)]
          exact findFile_fuel_add returned passes

theorem findFile_returns_iff (fileinfo : FATXFileInfo) (accesses : List Access) :
    (∃ fuel result, (_fatxFindFile disk ba stack partition fuel filename clusterId fileinfo
        accesses).result = some result) ↔
      ∀ rest last, LeadsTo disk stack partition filename clusterId rest last →
        ¬SearchCyclic disk stack partition rest last := by
  constructor
  · rintro ⟨fuel, result, returned⟩ rest last leads
    exact not_searchCyclic_of_returns returned leads
  · intro acyclic
    exact returns_of_not_searchCyclic filename clusterId acyclic accesses

end Paths

/-! ## Both walks -/

/-- A file is loaded exactly if its chain visits no cluster twice, and a path is looked up
exactly if no directory it leads to is searched along a chain that does. -/
theorem walks_return_iff (disk : Disk) (ba : Memory) (stack : List Byte → Memory)
    (loadStack : Memory) (partition : FATXPartition) (fileinfo : FATXFileInfo)
    (accesses : List Access) :
    (∀ buffer memory,
      (∃ fuel result, (fatxLoadFromDisk disk ba loadStack partition fuel fileinfo buffer memory
        accesses).result = some result) ↔ ¬partition.Cyclic fileinfo.clusterId) ∧
    ∀ filename clusterId,
      (∃ fuel result, (_fatxFindFile disk ba stack partition fuel filename clusterId fileinfo
        accesses).result = some result) ↔
      ∀ rest last, LeadsTo disk stack partition filename clusterId rest last →
        ¬SearchCyclic disk stack partition rest last := by
  constructor
  · intro buffer memory
    exact fatxLoadFromDisk_returns_iff loadStack fileinfo buffer memory accesses
  · intro filename clusterId
    exact findFile_returns_iff fileinfo accesses

/-- A drive of deleted directory entries, but for the header of the system partition and the
chain map behind it. Of that the last clusters are what is read for cluster zero. -/
def unallocatedDisk : Disk := fun _ sector => some fun x =>
  if sector = sectorSystem then [0x46, 0x41, 0x54, 0x58].getD x 0
  else if sector < sectorSystem + 104 then 0 else 0xe5

/-- The system partition of that drive: its first clusters are not allocated. -/
def unallocatedPartition : FATXPartition :=
  .layout 0 sectorSystem systemSize (fill unallocatedDisk 0 128 (sectorSystem + 8) fun _ => 0)

/-- A cluster of deleted entries is passed over. -/
theorem scanCluster_deleted {seek : List Byte} {directory : Bool} {clusterData : Memory}
    (deleted : ∀ x < 0x4000, clusterData x = 0xe5) :
    scanCluster seek directory partition.clusterSize clusterData = .next () := by
  rw [scanCluster_next_iff, partition.clusterSize_eq]
  intro i bound
  change i < 256 at bound
  simp only [scanEntry, fatxDirectoryentrySize, deleted (i * 64) (by omega)]
  rfl

/-- Cluster zero and the root directory hold deleted entries. -/
theorem unallocated_load {clusterId : Int32} (low : clusterId = 0 ∨ clusterId = 1)
    (clusterData : Memory) : ∀ x < 0x4000,
      unallocatedPartition.load unallocatedDisk clusterId clusterData x = 0xe5 := by
  intro x bound
  have every : Fatx.readable unallocatedDisk unallocatedPartition.nDriveIndex 32
      (unallocatedPartition.clusterSector clusterId) = 32 :=
    readable_eq (fun _ => by simp [unallocatedDisk]) 32 _
  have number : 0x465468 ≤ (unallocatedPartition.clusterSector clusterId).toNat ∧
      (unallocatedPartition.clusterSector clusterId).toNat ≤ 0x465488 := by
    rcases low with rfl | rfl
    · decide +kernel
    · decide +kernel
  rw [FATXPartition.load, fill, every, if_pos (by omega)]
  generalize unallocatedPartition.clusterSector clusterId = sector at number ⊢
  have place : (sector + UInt32.ofNat (x / 512)).toNat = sector.toNat + x / 512 := by
    rw [toNat_add_ofNat _ (by omega)]
    omega
  have other : sector + UInt32.ofNat (x / 512) ≠ sectorSystem := by
    intro same
    rw [same] at place
    change 0x465400 = _ at place
    omega
  have behind : ¬sector + UInt32.ofNat (x / 512) < sectorSystem + 104 := by
    rw [UInt32.lt_iff_toNat_lt, place]
    change ¬_ < 0x465468
    omega
  simp [diskByte, unallocatedDisk, other, behind]

/-- A file whose chain runs into an unallocated cluster is loaded for ever, and a directory
of deleted entries on such a chain is searched for ever. -/
theorem unallocated_walks_do_not_return :
    (∃ opened, openFATXPartition unallocatedDisk (fun _ => 0) (fun _ => true) (fun _ => 0)
      (fun _ => 0) 0 sectorSystem systemSize = some opened ∧
        opened.partition = some unallocatedPartition) ∧
    (¬∃ fuel result, (fatxLoadFromDisk unallocatedDisk (fun _ => 0) (fun _ => 0)
      unallocatedPartition fuel ⟨[], 2, 0x100, 0⟩ 0 (fun _ => 0) []).result = some result) ∧
    ¬∃ fuel result, (_fatxFindFile unallocatedDisk (fun _ => 0) (fun _ _ => 0)
      unallocatedPartition fuel [0x61] fatxRootFatCluster ⟨[], 0, 0, 0⟩ []).result =
        some result := by
  have onwards : ∀ clusterId : Int32, clusterId = 0 ∨ clusterId = 1 ∨ clusterId = 2 →
      chainStep unallocatedPartition clusterId = some 0 := by
    intro clusterId low
    have entry : word unallocatedPartition.clusterChainMap (clusterId.toUInt32 * 2).toNat = 0 := by
      rcases low with rfl | rfl | rfl
      · decide +kernel
      · decide +kernel
      · decide +kernel
    rw [chainStep, getNextClusterInChain_word (by decide) entry (by decide)]
    rfl
  refine ⟨?_, ?_, ?_⟩
  · exact open_of_sound (fun _ => 0) (fun _ => 0) (fun _ => 0) 0x10000
      (fun sector => by simp [unallocatedDisk]) (by decide) (by decide) (by decide)
  · rw [fatxLoadFromDisk_returns_iff, not_not]
    rw [FATXPartition.Cyclic, enter_eq_some.mpr ⟨by decide, rfl⟩]
    exact repeats_of_steps (onwards 2 (.inr (.inr rfl))) (onwards 0 (.inl rfl)) rfl
  · rw [findFile_returns_iff]
    intro acyclic
    refine acyclic [0x61] fatxRootFatCluster (.here (by decide)) ?_
    have passed : ∀ place : Int32 × Memory, place.1 = 0 ∨ place.1 = 1 →
        searchStep unallocatedDisk unallocatedPartition (seekFilename [0x61])
          (lookForDirectory [0x61]) place =
            some (0, unallocatedPartition.load unallocatedDisk place.1 place.2) := by
      intro place low
      have next := onwards place.1 (low.imp id .inl)
      exact searchStep_eq_some.mpr ⟨scanCluster_deleted (unallocated_load low _), next, rfl⟩
    rw [SearchCyclic, enter_eq_some.mpr ⟨by decide, rfl⟩, Option.map_some]
    exact repeats_of_steps (passed _ (.inr rfl)) (passed _ (.inl rfl)) rfl

end Cromwell.Fatx
