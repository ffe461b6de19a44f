import Cromwell.Iso9660.Scans

/-!
# How deep a search goes

A record with an ordinary name gives a longer path than its directory, and so does one with
a special name behind it. In front of the ordinary ones a special name stands for no path at
all: a directory that has one there, with a name longer than a byte, is searched with all of
the path still to come. Without such a directory the search ends, and no deeper than the path
is long.
-/

namespace Cromwell.Iso9660

open Cromwell.Std

/-! ## The scan ends -/

section Offsets

variable {search filename : List Byte} {buffer : Memory} {readSize offset : UInt32}

theorem toNat_nextBlock (bounded : offset.toNat + 2048 < 2 ^ 32) :
    (nextBlock offset).toNat = (offset.toNat + 2048) / 2048 * 2048 := by
  have sum : (offset + 2048).toNat = offset.toNat + 2048 := by
    rw [UInt32.toNat_add]
    exact Nat.mod_eq_of_lt bounded
  rw [nextBlock, UInt32.toNat_and, sum]
  exact and_highMask 32 11 (by decide) bounded

theorem toNat_add_length {length : Byte} (bounded : offset.toNat + 2048 < 2 ^ 32) :
    (offset + length.toUInt32).toNat = offset.toNat + length.toNat := by
  have small := length.toNat_lt
  rw [UInt32.toNat_add, UInt8.toNat_toUInt32]
  exact Nat.mod_eq_of_lt (by omega)

/-- A pass comes further, in a directory that leaves room for a block behind it. -/
theorem Scan.lt_advance {scan : Scan} (bounded : scan.offset.toNat + 2048 < 2 ^ 32) :
    scan.offset.toNat < (scan.advance filename buffer).offset.toNat := by
  unfold Scan.advance
  by_cases zero : dirLength buffer scan.offset.toNat = 0
  · rw [if_pos zero]
    change _ < (nextBlock scan.offset).toNat
    rw [toNat_nextBlock bounded]
    omega
  · have positive : 0 < (dirLength buffer scan.offset.toNat).toNat :=
      Nat.pos_of_ne_zero fun none => zero (UInt8.toNat_inj.mp none)
    rw [if_neg zero]
    change _ < (scan.offset + _).toNat
    rw [toNat_add_length bounded]
    omega

/-- The scan of such a directory leaves it. -/
theorem scan_halts (search filename : List Byte) (buffer : Memory)
    (bounded : readSize.toNat + 2048 ≤ 2 ^ 32) (scan : Scan) :
    Halts (scanRecord search filename buffer readSize) scan := by
  apply halts_of_decreasing fun scan => readSize.toNat - scan.offset.toNat
  intro scan next pass
  rw [scanRecord_eq] at pass
  split at pass
  · next inside =>
    split at pass
    · cases pass
    · cases pass
      have below : scan.offset.toNat < readSize.toNat := UInt32.lt_iff_toNat_lt.mp inside
      have further : scan.offset.toNat < (scan.advance filename buffer).offset.toNat :=
        Scan.lt_advance (by omega)
      omega
  · cases pass

end Offsets

/-! ## The path grows -/

section Paths

variable {search filename : List Byte} {buffer : Memory} {readSize : UInt32} {scan : Scan}

/-- No path yet, or one that is longer than the path of the directory. -/
def Longer (filename path : List Byte) : Prop := path = [] ∨ filename.length < path.length

theorem longer_path (buffer : Memory) (last : Longer filename scan.last) :
    Longer filename (scan.path filename buffer) := by
  unfold Scan.path newfilename
  split
  · exact last
  · right
    rw [List.length_append, List.length_cons]
    omega

theorem length_iso9660NameTranslate_le (name : List Byte) :
    (iso9660NameTranslate name).length ≤ name.length := by
  induction name with
  | nil => exact Nat.le_refl _
  | cons c old ih =>
      rw [iso9660NameTranslate]
      split
      · exact Nat.zero_le _
      · split
        · exact Nat.zero_le _
        · split
          · exact Nat.zero_le _
          · exact Nat.succ_le_succ ih

/-- A path that is not too long leaves `newfilename` within its 1024 bytes. -/
theorem newfilename_fits {last : List Byte} {dir : Nat} (short : search.length ≤ 700)
    (on_way : filename = [] ∨ Continues search filename) (before : last.length < 1024) :
    (newfilename filename last buffer dir).length < 1024 := by
  have shorter : filename.length ≤ 700 := by
    rcases on_way with rfl | continues
    · exact Nat.zero_le _
    · exact Nat.le_trans (Nat.le_of_lt continues.1) short
  have name := length_iso9660NameTranslate_le (dirName buffer dir)
  have bound := (nameLen buffer dir).toNat_lt
  have count : (dirName buffer dir).length = (nameLen buffer dir).toNat :=
    Memory.length_bytes _ _ _
  unfold newfilename
  split
  · exact before
  · rw [List.length_append, List.length_cons]
    omega

theorem Comes.longer (comes : Comes search filename buffer readSize scan) :
    Longer filename scan.last := by
  induction comes with
  | first => exact .inl rfl
  | @next scan before inside past ih =>
      unfold Scan.advance
      split
      · exact ih
      · exact longer_path buffer ih

/-- A record at which the search starts again: it has a special name, no ordinary record is in
front of it, and the search goes down there. -/
def Restarts (search filename : List Byte) (buffer : Memory) (readSize : UInt32) (scan : Scan) :
    Prop :=
  Descends search filename buffer readSize scan ∧ IsSpecial buffer scan.offset.toNat ∧
    scan.last = []

/-- Everywhere else the path is longer one directory down. -/
theorem longer_of_descends (comes : Comes search filename buffer readSize scan)
    (descends : Descends search filename buffer readSize scan)
    (onwards : ¬Restarts search filename buffer readSize scan) :
    filename.length < (scan.path filename buffer).length := by
  rcases longer_path buffer comes.longer with empty | longer
  · unfold Scan.path newfilename at empty
    split at empty
    · next special => exact absurd ⟨descends, special, empty⟩ onwards
    · exact absurd empty (by simp)
  · exact longer

theorem Continues.length_lt {path : List Byte} (continues : Continues search path) :
    path.length < search.length := continues.1

theorem leadEnd_of_descends (descends : Descends search filename buffer readSize scan) :
    leadEnd search filename buffer scan =
      .descend scan.offset.toNat (scan.path filename buffer) := by
  have different : scan.path filename buffer ≠ search := by
    intro same
    have shorter := descends.2.2.length_lt
    rw [same] at shorter
    exact Nat.lt_irrefl _ shorter
  rw [leadEnd, if_neg different]

theorem leadEnd_of_matches (same : Matches search filename buffer readSize scan) :
    leadEnd search filename buffer scan = .found scan.offset.toNat := by
  rw [leadEnd, if_pos same.2]

end Paths

/-! ## The directories of a search -/

/-- The directories that a search comes to, with their paths and the blocks that are live
then. -/
inductive Visited (drive : Drive) (room : UInt32 → Bool) (garbage : Nat → Memory)
    (search : List Byte) (extent readSize : UInt32) (blocks : LiveBlocks) :
    UInt32 → UInt32 → List Byte → LiveBlocks → Prop where
  | start : Visited drive room garbage search extent readSize blocks extent readSize [] blocks
  | down {place size : UInt32} {filename : List Byte} {held : LiveBlocks} {scan : Scan}
      (above : Visited drive room garbage search extent readSize blocks place size filename held)
      (met : room size = true)
      (comes : Comes search filename (directory drive place size (garbage held.next)) size scan)
      (descends : Descends search filename (directory drive place size (garbage held.next)) size
        scan) :
      Visited drive room garbage search extent readSize blocks
        (dirExtent (directory drive place size (garbage held.next)) scan.offset.toNat)
        (dirSize (directory drive place size (garbage held.next)) scan.offset.toNat)
        (scan.path filename (directory drive place size (garbage held.next))) held.malloc.malloc

section Searches

variable {drive : Drive} {room : UInt32 → Bool} {garbage : Nat → Memory}
  {search filename : List Byte} {extent readSize place size : UInt32} {blocks held : LiveBlocks}

/-- A search returns from a directory if it returns from the one it goes down to there. -/
theorem exists_readDir (arena : ∀ size, room size = true → size.toNat + 2048 ≤ 2 ^ 32)
    {bound : Nat}
    (inner : room size = true → ∀ scan,
      Comes search filename (directory drive place size (garbage held.next)) size scan →
      Descends search filename (directory drive place size (garbage held.next)) size scan →
      ∃ fuel found, readDir drive room garbage search fuel
          (dirExtent (directory drive place size (garbage held.next)) scan.offset.toNat)
          (dirSize (directory drive place size (garbage held.next)) scan.offset.toNat)
          (scan.path filename (directory drive place size (garbage held.next)))
          held.malloc.malloc = some found ∧ found.depth + 1 ≤ bound) :
    ∃ fuel found, readDir drive room garbage search fuel place size filename held = some found ∧
      found.depth ≤ bound := by
  by_cases met : room size = true
  · obtain ⟨passes, ended, left⟩ := scan_halts search filename
      (directory drive place size (garbage held.next)) (arena size met) ⟨0, []⟩
    cases ended with
    | atEnd =>
        exact ⟨0 + passes + 1, _, readDir_of_left met left .atEnd, Nat.zero_le bound⟩
    | found dir =>
        exact ⟨0 + passes + 1, _, readDir_of_left met left (.found dir), Nat.zero_le bound⟩
    | descend dir path =>
        obtain ⟨scan, comes, leads, same⟩ := (scan_endsAt left).leads ScanEnd.noConfusion
        have descends : Descends search filename (directory drive place size (garbage held.next))
            size scan := by
          rcases leads with matched | descends
          · rw [leadEnd_of_matches matched] at same
            cases same
          · exact descends
        rw [leadEnd_of_descends descends] at same
        cases same
        obtain ⟨fuel, found, below, bounded⟩ := inner met scan comes descends
        exact ⟨fuel + passes + 1, _, readDir_of_left met left (.descend _ _ found below), bounded⟩
  · have full : room size = false := by simpa using met
    exact ⟨0 + 1, _, readDir_no_room full, Nat.zero_le bound⟩

/-- A search that does not start again returns from each of its directories, no deeper than
the path still to come is long. -/
theorem Visited.returns (arena : ∀ size, room size = true → size.toNat + 2048 ≤ 2 ^ 32)
    (onwards : ∀ place size filename held,
      Visited drive room garbage search extent readSize blocks place size filename held →
      ∀ scan, Comes search filename (directory drive place size (garbage held.next)) size scan →
        ¬Restarts search filename (directory drive place size (garbage held.next)) size scan)
    {rest : Nat}
    (visited : Visited drive room garbage search extent readSize blocks place size filename held)
    (short : search.length ≤ filename.length + rest) :
    ∃ fuel found, readDir drive room garbage search fuel place size filename held = some found ∧
      found.depth ≤ rest := by
  induction rest generalizing place size filename held with
  | zero =>
      apply exists_readDir arena
      intro met scan comes descends
      -- The path is as long as the one looked for, so nothing below can continue it.
      have longer := longer_of_descends comes descends (onwards _ _ _ _ visited scan comes)
      have shorter := descends.2.2.length_lt
      omega
  | succ rest ih =>
      apply exists_readDir arena
      intro met scan comes descends
      have longer := longer_of_descends comes descends (onwards _ _ _ _ visited scan comes)
      obtain ⟨fuel, found, below, bounded⟩ := ih (visited.down met comes descends) (by omega)
      exact ⟨fuel, found, below, by omega⟩

/-- The search returns, no deeper than the path is long, if in no directory that it comes to
it starts again. -/
theorem readDir_terminates (arena : ∀ size, room size = true → size.toNat + 2048 ≤ 2 ^ 32)
    (onwards : ∀ place size filename held,
      Visited drive room garbage search extent readSize blocks place size filename held →
      ∀ scan, Comes search filename (directory drive place size (garbage held.next)) size scan →
        ¬Restarts search filename (directory drive place size (garbage held.next)) size scan) :
    ∃ fuel found, readDir drive room garbage search fuel extent readSize [] blocks = some found ∧
      found.depth ≤ search.length :=
  Visited.returns arena onwards .start (Nat.le_add_left _ _)

/-- Where no byte has the flag of a directory the search stays in the directory it starts in. -/
theorem not_descends_of_flat {buffer : Memory} {scan : Scan}
    (flat : ∀ k, buffer k &&& isDir = 0) : ¬Descends search filename buffer readSize scan :=
  fun descends => descends.2.1.1 (flat _)

theorem directory_flat {buffer : Memory}
    (sectors : ∀ sector data, drive sector = some data → ∀ k, data k &&& isDir = 0)
    (before : ∀ k, buffer k &&& isDir = 0) (k : Nat) :
    directory drive extent readSize buffer k &&& isDir = 0 := by
  unfold directory
  generalize (readSize >>> isofsBlockBits).toNat = count
  generalize 0 = i
  induction count generalizing i extent buffer with
  | zero => exact before k
  | succ count ih =>
      rw [readSectors]
      apply ih
      intro k
      cases read : drive extent with
      | none => exact before k
      | some data =>
          change Memory.memcpy _ _ _ _ _ k &&& isDir = 0
          unfold Memory.memcpy
          split
          · exact sectors _ _ read _
          · exact before k

end Searches

/-! ## Discs -/

/-- A disc whose root directory has one file, `a`. -/
def flatDrive : Drive
  | 20 => some (Memory.store (fun _ => 0) 0 ([36, 0, 21] ++ List.replicate 29 0 ++ [1, 0x61]))
  | _ => some fun _ => 0

theorem flatDrive_flat (sector : UInt32) (data : Memory) (read : flatDrive sector = some data)
    (k : Nat) : data k &&& isDir = 0 := by
  unfold flatDrive at read
  split at read
  · cases read
    have clear : ∀ value ∈ [36, 0, 21] ++ List.replicate 29 0 ++ [1, (0x61 : Byte)],
        value &&& isDir = 0 := by decide
    rw [Memory.store, if_pos (Nat.zero_le k), List.getD_eq_getElem?_getD]
    cases value : ([36, 0, 21] ++ List.replicate 29 0 ++ [1, (0x61 : Byte)])[k - 0]? with
    | none => exact UInt8.zero_and
    | some value_k => exact clear value_k (List.mem_of_getElem? value)
  · cases read
    exact UInt8.zero_and

theorem readDir_terminates_flat : ∃ fuel found,
    readDir flatDrive (fun size => size = 2048) (fun _ _ => 0) [0x2f, 0x61] fuel 20 2048 []
      .empty = some found ∧ found.depth ≤ [0x2f, 0x61].length := by
  apply readDir_terminates
  · intro size met
    have exact_size : size = 2048 := by simpa using met
    rw [exact_size]
    decide
  · rintro place size filename held - scan - ⟨descends, -⟩
    exact not_descends_of_flat (directory_flat flatDrive_flat fun _ => rfl) descends

/-- A disc whose root directory has a directory with a special name and a longer one, which
is the root directory again. -/
def selfDrive : Drive
  | 20 => some (Memory.store (fun _ => 0) 0 ([36, 0, 20] ++ List.replicate 8 0 ++ [8] ++
      List.replicate 13 0 ++ [2] ++ List.replicate 6 0 ++ [2, 0, 0x61]))
  | _ => some fun _ => 0

/-- On it the search for a file never returns. -/
theorem readDir_selfDrive (fuel : Nat) (blocks : LiveBlocks) :
    readDir selfDrive (fun size => size = 2048) (fun _ _ => 0) [0x2f, 0x61] fuel 20 2048 []
      blocks = none := by
  induction fuel generalizing blocks with
  | zero => rfl
  | succ fuel ih =>
      have pass : scanRecord [0x2f, 0x61] [] (directory selfDrive 20 2048 fun _ => 0) 2048 ⟨0, []⟩ =
          .leave (.descend 0 []) := rfl
      have met : ¬(decide ((2048 : UInt32) = 2048) = false) := by decide
      rw [readDir, if_neg met]
      dsimp only
      rw [whileLoop_succ, pass]
      change Option.map _ (readDir _ _ _ _ fuel 20 2048 [] _) = none
      rw [ih]
      rfl

theorem readDir_restarts : ¬∀ drive room garbage search extent readSize blocks,
    (∀ size, room size = true → size.toNat + 2048 ≤ 2 ^ 32) →
    ∃ fuel found, readDir drive room garbage search fuel extent readSize [] blocks = some found ∧
      found.depth ≤ search.length := by
  intro terminates
  obtain ⟨fuel, found, returned, -⟩ := terminates selfDrive (fun size => size = 2048)
    (fun _ _ => 0) [0x2f, 0x61] 20 2048 .empty (by
      intro size met
      have exact_size : size = 2048 := by simpa using met
      rw [exact_size]
      decide)
  rw [readDir_selfDrive] at returned
  cases returned

end Cromwell.Iso9660
