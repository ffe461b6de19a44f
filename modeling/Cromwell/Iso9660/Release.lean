import Cromwell.Iso9660.Scans

/-!
# What a lookup leaves live

A directory that the search leaves at one of its records keeps both of its buffers, and a
file that is found keeps the two blocks of the lookup itself. The same blocks are live after
a lookup exactly if no record of the root directory leads to what is looked for.
-/

namespace Cromwell.Iso9660

open Cromwell.Std

section Directories

variable {drive : Drive} {room : UInt32 → Bool} {garbage : Nat → Memory}
  {search filename : List Byte} {extent readSize : UInt32} {blocks : LiveBlocks}
  {found : DirSearch} {fuel : Nat}

/-- Two blocks more are live while a directory is searched. -/
theorem grown_malloc_malloc (blocks : LiveBlocks) : blocks.Grown blocks.malloc.malloc :=
  (LiveBlocks.grown_malloc blocks).trans (LiveBlocks.grown_malloc _)

/-- A search gives back no more than it has taken. -/
theorem readDir_grown
    (returned : readDir drive room garbage search fuel extent readSize filename blocks =
      some found) : blocks.Grown found.blocks := by
  refine readDir_induction (P := fun blocks found => blocks.Grown found.blocks)
    (fun _ => .refl _) ?_ returned
  intro fuel buffer blocks ended found ih searched
  cases searched with
  | atEnd =>
      have first := (grown_malloc_malloc blocks).free (Nat.le_refl blocks.next)
      exact first.free (Nat.le_succ blocks.next)
  | found dir => exact grown_malloc_malloc blocks
  | descend dir path inner below =>
      change blocks.Grown inner.blocks
      exact (grown_malloc_malloc blocks).trans (ih below)

/-- What happens to the blocks of the directory a search starts in: they are both given back,
or the first of them stays live. -/
theorem readDir_blocks
    (returned : readDir drive room garbage search fuel extent readSize filename blocks =
      some found) :
    ((room readSize = true → ∀ scan, Scanned filename
        (directory drive extent readSize (garbage blocks.next)) readSize scan →
        ¬Leads search filename (directory drive extent readSize (garbage blocks.next)) readSize
          scan) ∧ blocks.Same found.blocks ∧ found.sect = 0) ∨
    (room readSize = true ∧ (∃ scan, Scanned filename
        (directory drive extent readSize (garbage blocks.next)) readSize scan ∧
        Leads search filename (directory drive extent readSize (garbage blocks.next)) readSize
          scan) ∧ blocks.next ∈ found.blocks.live) := by
  cases fuel with
  | zero => cases returned
  | succ fuel =>
      by_cases met : room readSize = true
      · obtain ⟨ended, left, searched⟩ := (readDir_eq_some met).mp returned
        have at_end := scan_endsAt left
        have own : blocks.next ∈ blocks.malloc.malloc.live := by simp
        cases searched with
        | atEnd => exact .inl ⟨fun _ => at_end.atEnd rfl, blocks.same_free_free, rfl⟩
        | found dir =>
            obtain ⟨scan, comes, leads, -⟩ := at_end.leads ScanEnd.noConfusion
            exact .inr ⟨met, ⟨scan, comes.scanned, leads⟩, own⟩
        | descend dir path inner below =>
            obtain ⟨scan, comes, leads, -⟩ := at_end.leads ScanEnd.noConfusion
            exact .inr ⟨met, ⟨scan, comes.scanned, leads⟩, (readDir_grown below).kept _ own⟩
      · have full : room readSize = false := by simpa using met
        rw [readDir_no_room full] at returned
        cases returned
        exact .inl ⟨fun met => absurd met (by simp [full]), .refl _, rfl⟩

end Directories

/-! ## The lookup of a file -/

section Lookup

variable {drive : Drive} {room : UInt32 → Bool} {garbage : Nat → Memory} {fuel : Nat}
  {path : List Byte} {buffer : Nat} {maxLength : UInt32} {memory : Memory} {blocks : LiveBlocks}
  {pvd : Memory}

/-- The root directory as it is read, behind the two blocks of the lookup. -/
def rootDirectory (drive : Drive) (garbage : Nat → Memory) (blocks : LiveBlocks) (pvd : Memory) :
    Memory :=
  directory drive (dirExtent pvd 156) (dirSize pvd 156) (garbage blocks.malloc.malloc.next)

/-- No record of the root directory has the path looked for or is a directory on the way to
it, as far as the root directory is there at all. -/
def NothingLeads (drive : Drive) (room : UInt32 → Bool) (garbage : Nat → Memory)
    (path : List Byte) (blocks : LiveBlocks) : Prop :=
  ∀ pvd, drive 16 = some pvd → room (dirSize pvd 156) = true →
    ∀ scan, Scanned [] (rootDirectory drive garbage blocks pvd) (dirSize pvd 156) scan →
      ¬Leads path [] (rootDirectory drive garbage blocks pvd) (dirSize pvd 156) scan

theorem nothingLeads_iff (volume : drive 16 = some pvd) :
    NothingLeads drive room garbage path blocks ↔ (room (dirSize pvd 156) = true →
      ∀ scan, Scanned [] (rootDirectory drive garbage blocks pvd) (dirSize pvd 156) scan →
        ¬Leads path [] (rootDirectory drive garbage blocks pvd) (dirSize pvd 156) scan) := by
  constructor
  · exact fun none => none pvd volume
  · intro none other read
    rw [volume] at read
    cases read
    exact none

/-- The blocks after a lookup, by what its search leaves. -/
def blocksAfter (blocks : LiveBlocks) (found : DirSearch) : LiveBlocks :=
  if 0 < found.sect then found.blocks.malloc.free found.blocks.next
  else (found.blocks.free blocks.next).free blocks.malloc.next

theorem getFileBlocks_blocks (volume : drive 16 = some pvd) :
    (getFileBlocks drive room garbage fuel path buffer maxLength memory blocks).map
        (fun returned => returned.2.2) =
      (readDir drive room garbage path fuel (dirExtent pvd 156) (dirSize pvd 156) []
        blocks.malloc.malloc).map (blocksAfter blocks) := by
  rw [getFileBlocks, volume]
  dsimp only
  rw [Option.map_map]
  congr 1
  funext found
  unfold blocksAfter
  dsimp only [Function.comp]
  split
  · rfl
  · rfl

/-- A block that a directory has kept is still live when the lookup returns. -/
theorem mem_blocksAfter {found : DirSearch} {held : Nat} (member : held ∈ found.blocks.live)
    (behind : blocks.malloc.malloc.next ≤ held) : held ∈ (blocksAfter blocks found).live := by
  have lower : blocks.next + 1 + 1 ≤ held := behind
  unfold blocksAfter
  split
  · have older : held < found.blocks.next := found.blocks.fresh held member
    exact LiveBlocks.mem_free.mpr ⟨LiveBlocks.mem_malloc.mpr (.inr member), Nat.ne_of_lt older⟩
  · refine LiveBlocks.mem_free.mpr ⟨LiveBlocks.mem_free.mpr ⟨member, ?_⟩, ?_⟩
    · omega
    · rw [LiveBlocks.next_malloc]
      omega

/-- A search that leaves nothing live leads to a lookup that leaves nothing live. -/
theorem blocksAfter_same {found : DirSearch} (none : found.sect = 0)
    (same : blocks.malloc.malloc.Same found.blocks) : blocks.Same (blocksAfter blocks found) := by
  have not_found : ¬0 < found.sect := by
    rw [none]
    decide
  rw [blocksAfter, if_neg not_found]
  apply blocks.same_free_free.trans
  intro held
  rw [LiveBlocks.mem_free, LiveBlocks.mem_free, LiveBlocks.mem_free, LiveBlocks.mem_free, same held]

/-- The same blocks are live after a lookup as before it exactly if no record of the root
directory leads to what is looked for. -/
theorem getFileBlocks_same_iff {code : Int32} {copied : Copied} {left : LiveBlocks}
    (returned : getFileBlocks drive room garbage fuel path buffer maxLength memory blocks =
      some (code, copied, left)) :
    blocks.Same left ↔ NothingLeads drive room garbage path blocks := by
  cases volume : drive 16 with
  | none =>
      rw [getFileBlocks, volume] at returned
      cases returned
      apply iff_of_true blocks.same_free_free
      intro pvd read
      rw [volume] at read
      cases read
  | some pvd =>
      have after := congrArg (Option.map fun result => result.2.2) returned
      rw [getFileBlocks_blocks volume, Option.map_some, Option.map_eq_some_iff] at after
      obtain ⟨found, search, rfl⟩ := after
      rw [nothingLeads_iff volume]
      rcases readDir_blocks search with ⟨none, same, sect⟩ | ⟨met, ⟨scan, scanned, leads⟩, kept⟩
      · exact iff_of_true (blocksAfter_same sect same) none
      · apply iff_of_false
        · intro same
          have live := (same _).mpr (mem_blocksAfter kept (Nat.le_refl _))
          have older : blocks.next + 1 + 1 < blocks.next := blocks.fresh _ live
          omega
        · exact fun none => none met scan scanned leads

/-- A disc with one file, `a`. -/
def oneFileDrive : Drive
  | 16 => some (Memory.store (fun _ => 0) 158 [20, 0, 0, 0, 0, 0, 0, 0, 0, 8, 0, 0])
  | 20 => some (Memory.store (fun _ => 0) 0 ([34, 0, 21] ++ List.replicate 29 0 ++ [1, 0x61]))
  | _ => some fun _ => 0

/-- Looking for another file on it leaves nothing live. -/
theorem getFileBlocks_same_iff_oneFile :
    LiveBlocks.empty.Same ((((LiveBlocks.empty.malloc.malloc.malloc.malloc.free 2).free 3).free
      0).free 1) ↔
      NothingLeads oneFileDrive (fun _ => true) (fun _ _ => 0) [0x2f, 0x62] .empty :=
  getFileBlocks_same_iff (show getFileBlocks oneFileDrive (fun _ => true) (fun _ _ => 0) 3
    [0x2f, 0x62] 0 0 (fun _ => 0) .empty = some (-1, ⟨fun _ => 0, []⟩, _) from rfl)

/-- When its file is found, the blocks of the lookup stay live. -/
theorem getFileBlocks_leaks : ¬∀ drive room garbage fuel path buffer maxLength memory blocks code
    copied left, getFileBlocks drive room garbage fuel path buffer maxLength memory blocks =
      some (code, copied, left) → blocks.Same left := by
  intro same
  have search : readDir oneFileDrive (fun _ => true) (fun _ _ => 0) [0x2f, 0x61] 1 20 2048 []
      LiveBlocks.empty.malloc.malloc = some ⟨21, some ([34, 0, 21] ++ List.replicate 29 0 ++ [1]),
        LiveBlocks.empty.malloc.malloc.malloc.malloc, 0⟩ := rfl
  have volume : oneFileDrive 16 =
      some (Memory.store (fun _ => 0) 158 [20, 0, 0, 0, 0, 0, 0, 0, 0, 8, 0, 0]) := rfl
  have after : (getFileBlocks oneFileDrive (fun _ => true) (fun _ _ => 0) 1 [0x2f, 0x61] 0 0
      (fun _ => 0) .empty).map (fun returned => returned.2.2) = some (blocksAfter .empty ⟨21, some
        ([34, 0, 21] ++ List.replicate 29 0 ++ [1]),
        LiveBlocks.empty.malloc.malloc.malloc.malloc, 0⟩) :=
    (getFileBlocks_blocks volume).trans (congrArg (Option.map (blocksAfter .empty)) search)
  obtain ⟨⟨code, copied, left⟩, returned, released⟩ := Option.map_eq_some_iff.mp after
  have kept : 0 ∈ left.live := by
    change left = _ at released
    rw [released]
    decide
  exact List.not_mem_nil ((same _ _ _ _ _ _ _ _ _ _ _ _ returned 0).mpr kept)

theorem disc_volume (volume : drive 16 = some pvd) :
    (drive.disc room garbage fuel blocks).volume = true := by
  simp [Drive.disc, volume]

theorem disc_lookup {found : DirSearch} (volume : drive 16 = some pvd)
    (search : readDir drive room garbage path fuel (dirExtent pvd 156) (dirSize pvd 156) []
      blocks = some found) :
    (drive.disc room garbage fuel blocks).lookup path = found.dir_found.map recordOf := by
  simp [Drive.disc, volume, search]

/-- `BootIso9660GetFile` is this lookup without its blocks. -/
theorem getFileBlocks_eq {code : Int32} {copied : Copied} {left : LiveBlocks}
    (returned : getFileBlocks drive room garbage fuel path buffer maxLength memory blocks =
      some (code, copied, left)) :
    bootIso9660GetFile (drive.disc room garbage fuel blocks.malloc.malloc) path buffer maxLength
      memory = (code, copied) := by
  rw [getFileBlocks] at returned
  rw [bootIso9660GetFile]
  cases volume : drive 16 with
  | none =>
      rw [volume] at returned
      have unreadable : ¬(drive.disc room garbage fuel blocks.malloc.malloc).volume = true := by
        simp [Drive.disc, volume]
      rw [if_neg unreadable]
      cases returned
      rfl
  | some pvd =>
      rw [volume] at returned
      obtain ⟨found, search, looked⟩ := Option.map_eq_some_iff.mp returned
      rw [if_pos (disc_volume volume), disc_lookup volume search]
      have sect := readDir_sect search
      have none_found : found.sect = 0 → ¬0 < found.sect := by
        intro nowhere
        rw [nowhere]
        decide
      cases copy : found.dir_found with
      | none =>
          rw [copy] at sect
          rw [if_neg (none_found sect)] at looked
          cases looked
          rfl
      | some record =>
          rw [copy] at sect looked
          change found.sect = (recordOf record).extent at sect
          change (if (recordOf record).extent = 0 then _ else _) = _
          rw [← sect]
          by_cases nowhere : found.sect = 0
          · rw [if_neg (none_found nowhere)] at looked
            rw [if_pos nowhere]
            cases looked
            rfl
          · rw [if_pos (UInt32.pos_iff_ne_zero.mpr nowhere)] at looked
            rw [if_neg nowhere]
            cases looked
            rfl

end Lookup

end Cromwell.Iso9660
