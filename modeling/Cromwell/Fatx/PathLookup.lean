import Cromwell.Fatx.MetClusters

/-!
# What a path names

A path is resolved component by component: each but the last names a directory, the last one
a file, and always the first entry of the name counts. Where every directory that can be
reached from the root is well formed, a lookup returns, and it finds what the path names.
-/

namespace Cromwell.Fatx

open Cromwell.Std

/-! ## Paths -/

def isSlash (c : Byte) : Bool := c = 0x2f || c = 0x5c

/-- The names in a path, whichever slashes separate them and however many are in front. -/
def components (path : List Byte) : List (List Byte) :=
  (path.dropWhile isSlash).splitOnP isSlash

/-- The names lead from a directory to a file. -/
inductive FATXPartition.Resolves (partition : FATXPartition) (disk : Disk) :
    List (List Byte) → Int32 → DirectoryEntry → Prop
  | file {name : List Byte} {clusterId : Int32} {entries : List DirectoryEntry}
      {entry : DirectoryEntry} (listing : partition.Listing disk clusterId entries)
      (first : entries.find? (fun entry => entry.name = name) = some entry)
      (isFile : entry.isDirectory = false) : partition.Resolves disk [name] clusterId entry
  | directory {name : List Byte} {names : List (List Byte)} {clusterId : Int32}
      {entries : List DirectoryEntry} {inner entry : DirectoryEntry}
      (listing : partition.Listing disk clusterId entries)
      (first : entries.find? (fun entry => entry.name = name) = some inner)
      (isDirectory : inner.isDirectory = true)
      (onwards : partition.Resolves disk names inner.clusterId entry) :
      partition.Resolves disk (name :: names) clusterId entry

/-- The directories that can be reached from the root. -/
inductive FATXPartition.Reached (partition : FATXPartition) (disk : Disk) : Int32 → Prop
  | root : partition.Reached disk fatxRootFatCluster
  | entered {clusterId : Int32} {entries : List DirectoryEntry} {entry : DirectoryEntry}
      (reached : partition.Reached disk clusterId)
      (listing : partition.Listing disk clusterId entries) (member : entry ∈ entries)
      (isDirectory : entry.isDirectory = true) : partition.Reached disk entry.clusterId

/-- Every directory is a chain of clusters that ends, with well-formed slots up to the one
that ends the directory. -/
structure FATXPartition.WellFormed (partition : FATXPartition) (disk : Disk) : Prop where
  width : partition.Width
  listings : ∀ clusterId, partition.Reached disk clusterId →
    ∃ entries, partition.Listing disk clusterId entries

/-- A file is described by its first cluster and its size. -/
def FATXFileInfo.Describes (fileinfo : FATXFileInfo) (entry : DirectoryEntry) : Prop :=
  fileinfo.clusterId = entry.clusterId ∧ fileinfo.fileSize = entry.fileSize

/-- What a search that does not descend gives the caller. -/
def SearchResult.info (result : SearchResult) (filename : List Byte)
    (fileinfo : FATXFileInfo) : Option FATXFileInfo :=
  match result with
  | found clusterId fileSize => some { fileinfo with clusterId, fileSize, filename }
  | _ => none

/-! ## Components -/

section Components

variable {filename : List Byte}

theorem splitOnP_map_slash (path : List Byte) :
    (path.map fun ch => if ch = 0x5c then 0x2f else ch).splitOnP (· = 0x2f) =
      path.splitOnP isSlash := by
  induction path with
  | nil => rfl
  | cons c path ih =>
      rw [List.map_cons, List.splitOnP_cons_eq_if_modifyHead,
        List.splitOnP_cons_eq_if_modifyHead, ih]
      by_cases back : c = 0x5c
      · simp [isSlash, back]
      · simp [isSlash, back]

/-- A path is looked up by its components. -/
theorem splitOnP_normalized (path : List Byte) :
    (normalized path).splitOnP (· = 0x2f) = components path := by
  have front : ((fun c : Byte => decide (c = 0x2f)) ∘ fun ch => if ch = 0x5c then 0x2f else ch) =
      isSlash := by
    funext c
    by_cases back : c = 0x5c
    · simp [isSlash, back]
    · simp [isSlash, back]
  rw [normalized, List.dropWhile_map, front, splitOnP_map_slash, components]

/-- Without a slash a path has one component. -/
theorem components_file (none : lookForDirectory filename = false) :
    filename.splitOnP (· = 0x2f) = [filename] ∧ seekFilename filename = filename := by
  have noSlash : 0x2f ∉ filename := fun slash => by
    rw [lookForDirectory_iff.mpr slash] at none
    cases none
  constructor
  · apply List.splitOnP_eq_singleton
    intro c member
    have other : c ≠ 0x2f := fun same => noSlash (same ▸ member)
    simpa using other
  · rw [seekFilename_eq, firstName_eq_self noSlash]

/-- With one, the first component ends there. -/
theorem components_directory (slash : lookForDirectory filename = true) :
    filename.splitOnP (· = 0x2f) =
      seekFilename filename :: (afterSlash filename).splitOnP (· = 0x2f) := by
  have whole := firstName_slash (lookForDirectory_iff.mp slash)
  rw [seekFilename_eq]
  conv_lhs => rw [← whole]
  apply List.splitOnP_append_cons_of_forall_mem
  · intro c member
    have other : c ≠ 0x2f := fun same => slash_not_mem_firstName filename (same ▸ member)
    simpa using other
  · rfl

end Components

/-! ## One directory -/

section Directory

variable {disk : Disk} {partition : FATXPartition} {clusterId : Int32}
  {entries : List DirectoryEntry} {entry : DirectoryEntry} {seek : List Byte} {directory : Bool}

/-- Names are short. -/
theorem slotAt_used {memory : Memory} {address : Nat} (used : slotAt memory address = .used entry) :
    entry.name.length ≤ fatxFilenameMax := by
  unfold slotAt at used
  dsimp only at used
  split at used
  · cases used
  · split at used
    · cases used
    · split at used
      · next named =>
        cases used
        rw [Memory.length_bytes]
        exact named.1
      · cases used

/-- What is listed has been in a slot. -/
theorem mem_of_listed {slots : List (Option Slot)} {atEnd : Bool}
    (listing : listed slots = some (entries, atEnd)) (member : entry ∈ entries) :
    some (.used entry) ∈ slots := by
  induction slots generalizing entries atEnd with
  | nil =>
      cases listing
      cases member
  | cons slot slots ih =>
      cases slot with
      | none => cases listing
      | some slot =>
          cases slot with
          | terminator =>
              cases listing
              cases member
          | malformed => cases listing
          | deleted => exact List.mem_cons_of_mem _ (ih listing member)
          | used first =>
              obtain ⟨⟨others, ended⟩, rest, same⟩ := Option.map_eq_some_iff.mp listing
              cases same
              rcases List.mem_cons.mp member with rfl | later
              · exact List.mem_cons_self
              · exact List.mem_cons_of_mem _ (ih rest later)

theorem length_of_slots {atEnd : Bool}
    (slots : listed (partition.slots disk clusterId) = some (entries, atEnd))
    (member : entry ∈ entries) : entry.name.length ≤ fatxFilenameMax := by
  obtain ⟨i, -, here⟩ := List.mem_map.mp (mem_of_listed slots member)
  obtain ⟨data, -, used⟩ := Option.map_eq_some_iff.mp here
  exact slotAt_used used

theorem FATXPartition.Listing.length_name (listing : partition.Listing disk clusterId entries)
    (member : entry ∈ entries) : entry.name.length ≤ fatxFilenameMax := by
  induction listing with
  | terminated more slots => exact length_of_slots slots member
  | last more slots marked => exact length_of_slots slots member
  | link more slots unmarked onwards ih =>
      rcases List.mem_append.mp member with front | rest
      · exact length_of_slots slots front
      · exact ih rest

theorem verdict_file (isFile : entry.isDirectory = false) :
    entry.verdict false = .found entry.clusterId entry.fileSize := by
  simp [DirectoryEntry.verdict, isFile]

theorem verdict_directory (isDirectory : entry.isDirectory = true) :
    entry.verdict true = .descend entry.clusterId := by
  simp [DirectoryEntry.verdict, isDirectory]

/-- A search that does not fail ends with the verdict on the first entry of the name. -/
theorem findEntry_first {result : SearchResult}
    (found : (findEntry seek directory entries).getD .notFound = result)
    (some_result : result ≠ .notFound) :
    ∃ entry, entries.find? (fun entry => entry.name = seek) = some entry ∧
      entry.verdict directory = result := by
  unfold findEntry at found
  cases first : entries.find? fun entry => decide (entry.name = seek) with
  | none =>
      rw [first] at found
      exact absurd found.symm some_result
  | some entry =>
      rw [first] at found
      exact ⟨entry, rfl, found⟩

/-- A search that descends has found a directory first. -/
theorem findEntry_descend {entryClusterId : Int32}
    (found : (findEntry seek directory entries).getD .notFound = .descend entryClusterId) :
    ∃ inner, entries.find? (fun entry => entry.name = seek) = some inner ∧
      inner.isDirectory = true ∧ inner.clusterId = entryClusterId ∧ directory = true := by
  obtain ⟨inner, first, verdict⟩ := findEntry_first found nofun
  refine ⟨inner, first, ?_⟩
  cases kind : inner.isDirectory <;> cases directory <;>
    simp [DirectoryEntry.verdict, kind] at verdict ⊢
  exact verdict

/-- One that finds a file has found it first. -/
theorem findEntry_found {entryClusterId : Int32} {fileSize : UInt32}
    (found : (findEntry seek directory entries).getD .notFound = .found entryClusterId fileSize) :
    ∃ entry, entries.find? (fun entry => entry.name = seek) = some entry ∧
      entry.isDirectory = false ∧ entry.clusterId = entryClusterId ∧
        entry.fileSize = fileSize ∧ directory = false := by
  obtain ⟨entry, first, verdict⟩ := findEntry_first found nofun
  refine ⟨entry, first, ?_⟩
  cases kind : entry.isDirectory <;> cases directory <;>
    simp [DirectoryEntry.verdict, kind] at verdict ⊢
  exact verdict

end Directory

/-! ## Lookups -/

section Lookup

variable {disk : Disk} {ba : Memory} {stack : List Byte → Memory} {partition : FATXPartition}
  {filename : List Byte} {clusterId : Int32} {fileinfo : FATXFileInfo} {accesses : List Access}
  {entries : List DirectoryEntry} {entry : DirectoryEntry}

theorem findFile_ended {fuel : Nat} {result : SearchResult} {search : Search}
    (short : (seekFilename filename).length ≤ fatxFilenameMax)
    (run : searchLoop disk ba stack partition filename clusterId accesses fuel =
      .leave (result, search)) (ended : ∀ entryClusterId, result ≠ .descend entryClusterId) :
    (_fatxFindFile disk ba stack partition (fuel + 1) filename clusterId fileinfo
      accesses).result = some (result.info filename fileinfo) := by
  rw [_fatxFindFile, if_neg (Nat.not_lt.mpr short), searchLoop_leave_add run 1]
  cases result with
  | notFound => rfl
  | found entryClusterId fileSize => rfl
  | descend entryClusterId => exact absurd rfl (ended entryClusterId)

/-- A search that descends leaves the result to the lookup of what follows the slash. -/
theorem findFile_descends {fuel more : Nat} {entryClusterId : Int32} {search : Search}
    {result : Option FATXFileInfo}
    (short : (seekFilename filename).length ≤ fatxFilenameMax)
    (run : searchLoop disk ba stack partition filename clusterId accesses fuel =
      .leave (.descend entryClusterId, search))
    (onwards : (_fatxFindFile disk ba stack partition more (afterSlash filename) entryClusterId
      fileinfo search.accesses).result = some result) :
    (_fatxFindFile disk ba stack partition (more + fuel + 1) filename clusterId fileinfo
      accesses).result = some result := by
  have fuels : more + fuel + 1 = fuel + (more + 1) := by omega
  have left := searchLoop_leave_add run (more + 1)
  rw [← fuels] at left
  rw [_fatxFindFile, if_neg (Nat.not_lt.mpr short), left]
  exact findFile_fuel_add onwards fuel

/-- The first entry of a name has that name, which is short. -/
theorem named_of_first {name : List Byte} (listing : partition.Listing disk clusterId entries)
    (first : entries.find? (fun entry => entry.name = name) = some entry) :
    entry.name = name ∧ name.length ≤ fatxFilenameMax := by
  have named : entry.name = name := by simpa using List.find?_some first
  refine ⟨named, ?_⟩
  rw [← named]
  exact listing.length_name (List.mem_of_find?_eq_some first)

/-- The search for the first component of a path ends with the verdict on its first entry. -/
theorem searchLoop_first (ba : Memory) (stack : List Byte → Memory) (width : partition.Width)
    (listing : partition.Listing disk clusterId entries)
    (first : entries.find? (fun entry => entry.name = seekFilename filename) = some entry)
    (accesses : List Access) :
    ∃ fuel search, searchLoop disk ba stack partition filename clusterId accesses fuel =
      .leave (entry.verdict (lookForDirectory filename), search) := by
  obtain ⟨fuel, search, run⟩ := searchLoop_listing ba width (seekFilename filename)
    (lookForDirectory filename) listing (stack filename) accesses
  rw [findEntry, first] at run
  exact ⟨fuel, search, run⟩

/-- Whatever a path resolves to is found. -/
theorem finds_of_resolves (ba : Memory) (stack : List Byte → Memory) (fileinfo : FATXFileInfo)
    (width : partition.Width) {names : List (List Byte)}
    (resolves : partition.Resolves disk names clusterId entry)
    (split : filename.splitOnP (· = 0x2f) = names) (accesses : List Access) :
    ∃ fuel info, (_fatxFindFile disk ba stack partition fuel filename clusterId fileinfo
      accesses).result = some (some info) ∧ info.Describes entry := by
  induction resolves generalizing filename accesses with
  | @file name clusterId entries entry listing first isFile =>
      obtain ⟨named, short⟩ := named_of_first listing first
      cases kind : lookForDirectory filename with
      | true =>
          rw [components_directory kind] at split
          exact absurd (List.cons.inj split).2 (List.splitOnP_ne_nil _ _)
      | false =>
          obtain ⟨whole, seek⟩ := components_file kind
          obtain rfl : filename = name := (List.cons.inj (whole.symm.trans split)).1
          rw [← seek] at first short
          obtain ⟨fuel, search, run⟩ := searchLoop_first ba stack width listing first accesses
          rw [kind, verdict_file isFile] at run
          exact ⟨fuel + 1, _, findFile_ended short run nofun, rfl, rfl⟩
  | @directory name names clusterId entries inner entry listing first isDirectory onwards ih =>
      obtain ⟨named, short⟩ := named_of_first listing first
      cases kind : lookForDirectory filename with
      | true =>
          obtain ⟨seek, rest⟩ := List.cons.inj ((components_directory kind).symm.trans split)
          rw [← seek] at first short
          obtain ⟨fuel, search, run⟩ := searchLoop_first ba stack width listing first accesses
          rw [kind, verdict_directory isDirectory] at run
          obtain ⟨more, info, later, describes⟩ := ih rest search.accesses
          exact ⟨_, info, findFile_descends short run later, describes⟩
      | false =>
          obtain ⟨-, none⟩ := List.cons.inj ((components_file kind).1.symm.trans split)
          rw [← none] at onwards
          cases onwards

/-- Where the directories are well formed a lookup returns, and what it finds the path
resolves to. -/
theorem resolves_of_finds (ba : Memory) (stack : List Byte → Memory) (fileinfo : FATXFileInfo)
    (wellFormed : partition.WellFormed disk) (reached : partition.Reached disk clusterId)
    (filename : List Byte) (accesses : List Access) :
    ∃ fuel result, (_fatxFindFile disk ba stack partition fuel filename clusterId fileinfo
        accesses).result = some result ∧
      ∀ info, result = some info → ∃ entry,
        partition.Resolves disk (filename.splitOnP (· = 0x2f)) clusterId entry ∧
          info.Describes entry := by
  induction length : filename.length using Nat.strongRecOn
    generalizing filename clusterId accesses with
  | ind length ih =>
  by_cases short : (seekFilename filename).length ≤ fatxFilenameMax
  · obtain ⟨entries, listing⟩ := wellFormed.listings clusterId reached
    obtain ⟨fuel, search, run⟩ := searchLoop_listing ba wellFormed.width (seekFilename filename)
      (lookForDirectory filename) listing (stack filename) accesses
    cases ending : (findEntry (seekFilename filename) (lookForDirectory filename)
        entries).getD .notFound with
    | notFound =>
        rw [ending] at run
        exact ⟨fuel + 1, none, findFile_ended short run nofun, nofun⟩
    | found entryClusterId fileSize =>
        rw [ending] at run
        refine ⟨fuel + 1, _, findFile_ended short run nofun, ?_⟩
        rintro _ ⟨⟩
        obtain ⟨entry, first, isFile, rfl, rfl, kind⟩ := findEntry_found ending
        obtain ⟨whole, seek⟩ := components_file kind
        rw [seek] at first
        refine ⟨entry, ?_, rfl, rfl⟩
        rw [whole]
        exact .file listing first isFile
    | descend entryClusterId =>
        rw [ending] at run
        obtain ⟨inner, first, isDirectory, rfl, kind⟩ := findEntry_descend ending
        have member := List.mem_of_find?_eq_some first
        obtain ⟨more, result, later, finds⟩ := ih (afterSlash filename).length
          (length ▸ length_afterSlash kind) (.entered reached listing member isDirectory)
          (afterSlash filename) search.accesses rfl
        refine ⟨_, result, findFile_descends short run later, fun info found => ?_⟩
        obtain ⟨entry, resolves, describes⟩ := finds info found
        refine ⟨entry, ?_, describes⟩
        rw [components_directory kind]
        exact .directory listing first isDirectory resolves
  · refine ⟨1, none, ?_, nofun⟩
    rw [_fatxFindFile, if_pos (Nat.lt_of_not_le short)]

/-- Where every directory is well formed a lookup returns: with the first cluster and the
size of the file that the path names, or without success if it names none. -/
theorem fatxFindFile_resolves (disk : Disk) (ba : Memory) (stack : List Byte → Memory)
    (partition : FATXPartition) (wellFormed : partition.WellFormed disk) (filename : List Byte)
    (fileinfo : FATXFileInfo) (accesses : List Access) :
    ∃ least result,
      (∀ fuel, least ≤ fuel → (fatxFindFile disk ba stack partition fuel filename
        fatxRootFatCluster fileinfo accesses).result = some result) ∧
      (result.isSome ↔ ∃ entry, partition.Resolves disk (components filename)
        fatxRootFatCluster entry) ∧
      ∀ info entry, result = some info → partition.Resolves disk (components filename)
        fatxRootFatCluster entry → info.Describes entry := by
  obtain ⟨least, result, returned, finds⟩ := resolves_of_finds ba stack fileinfo wellFormed .root
    (normalized filename) accesses
  rw [splitOnP_normalized] at finds
  have found : ∀ entry, partition.Resolves disk (components filename) fatxRootFatCluster
      entry → ∃ info, result = some info ∧ info.Describes entry := by
    intro entry resolves
    obtain ⟨fuel, info, run, describes⟩ := finds_of_resolves ba stack fileinfo wellFormed.width
      resolves (splitOnP_normalized filename) accesses
    have early := findFile_fuel_add returned fuel
    have late := findFile_fuel_add run least
    rw [Nat.add_comm, early] at late
    exact ⟨info, Option.some.inj late, describes⟩
  refine ⟨least, result, fun fuel enough => ?_, ⟨fun success => ?_, ?_⟩, ?_⟩
  · obtain ⟨more, rfl⟩ := Nat.exists_eq_add_of_le enough
    exact findFile_fuel_add returned more
  · obtain ⟨info, same⟩ := Option.isSome_iff_exists.mp success
    obtain ⟨entry, resolves, -⟩ := finds info same
    exact ⟨entry, resolves⟩
  · rintro ⟨entry, resolves⟩
    obtain ⟨info, same, -⟩ := found entry resolves
    exact Option.isSome_of_mem same
  · intro info entry same resolves
    obtain ⟨other, again, describes⟩ := found entry resolves
    rw [Option.some.inj (same.symm.trans again)]
    exact describes

/-! ## A file in a directory -/

/-- The root lists one directory, in the second cluster, and that lists one file. Names are of
one byte. -/
def twoLevelDisk : Disk := fun _ sector => some
  (if sector < 48 then
    ((Memory.store (fun _ => 0) 0 [1, 0x10, 0x64]).store 0x2c (dwordBytes 2)).store 0x30
      (dwordBytes 0)
  else
    ((Memory.store (fun _ => 0) 0 [1, 0, 0x61]).store 0x2c (dwordBytes 3)).store 0x30
      (dwordBytes 5))

def twoLevelPartition : FATXPartition := .layout 0 0 0xc000 fun _ => 0

theorem root_slots : listed (twoLevelPartition.slots twoLevelDisk fatxRootFatCluster) =
    some ([⟨[0x64], true, 2, 0⟩], true) := rfl

theorem directory_slots : listed (twoLevelPartition.slots twoLevelDisk 2) =
    some ([⟨[0x61], false, 3, 5⟩], true) := rfl

/-- The listing of a directory with an end in its first cluster. -/
theorem listing_of_slots {clusterId : Int32} {listedEntries entries : List DirectoryEntry}
    (slots : listed (twoLevelPartition.slots twoLevelDisk clusterId) = some (listedEntries, true))
    (listing : twoLevelPartition.Listing twoLevelDisk clusterId entries) :
    entries = listedEntries := by
  cases listing with
  | terminated more same =>
      rw [slots] at same
      cases same
      rfl
  | last more same marked =>
      rw [slots] at same
      cases same
  | link more same unmarked onwards =>
      rw [slots] at same
      cases same

theorem twoLevel_wellFormed : twoLevelPartition.WellFormed twoLevelDisk where
  width := .inl (by decide)
  listings clusterId reached := by
    have place : clusterId = fatxRootFatCluster ∨ clusterId = 2 := by
      induction reached with
      | root => exact .inl rfl
      | entered reached listing member isDirectory ih =>
          right
          rcases ih with rfl | rfl
          · obtain rfl := listing_of_slots root_slots listing
            rw [List.mem_singleton.mp member]
          · obtain rfl := listing_of_slots directory_slots listing
            cases List.mem_singleton.mp member
            cases isDirectory
    rcases place with rfl | rfl
    · exact ⟨_, .terminated (by decide) root_slots⟩
    · exact ⟨_, .terminated (by decide) directory_slots⟩

/-- The file is looked up through the directory. -/
theorem fatxFindFile_resolves_twoLevel :
    twoLevelPartition.WellFormed twoLevelDisk ∧ ∃ least result,
      (∀ fuel, least ≤ fuel → (fatxFindFile twoLevelDisk (fun _ => 0) (fun _ _ => 0)
        twoLevelPartition fuel [0x5c, 0x64, 0x5c, 0x61] fatxRootFatCluster
          ⟨[], 0, 0, 0⟩ []).result = some result) ∧
      (result.isSome ↔ ∃ entry, twoLevelPartition.Resolves twoLevelDisk
        (components [0x5c, 0x64, 0x5c, 0x61]) fatxRootFatCluster entry) ∧
      ∀ info entry, result = some info → twoLevelPartition.Resolves twoLevelDisk
        (components [0x5c, 0x64, 0x5c, 0x61]) fatxRootFatCluster entry →
          info.Describes entry :=
  ⟨twoLevel_wellFormed, fatxFindFile_resolves twoLevelDisk (fun _ => 0) (fun _ _ => 0)
    twoLevelPartition twoLevel_wellFormed [0x5c, 0x64, 0x5c, 0x61] ⟨[], 0, 0, 0⟩ []⟩

end Lookup

end Cromwell.Fatx
