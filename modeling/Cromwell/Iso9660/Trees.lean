import Cromwell.Iso9660.Records

/-!
# Paths in a directory tree

The entries of a directory are behind the records of the directory itself and of its parent,
and no two of them have the same translated name. A path names the entry that a chain of such
names leads to. The search finds it exactly if the directories on the way have names longer
than a byte.
-/

namespace Cromwell.Iso9660

open Cromwell.Std

/-! ## Trees -/

/-- What a directory holds. -/
structure Listing where
  blocks : List (List Record)
  self : Record
  parent : Record
  entries : List Record
  records : blocks.flatten = self :: parent :: entries
  self_name : self.name = [0]
  parent_name : parent.name = [1]
  ordinary : ∀ record ∈ entries, record.Ordinary
  distinct : (entries.map fun record => translated record.name).Nodup

/-- What each directory holds. -/
abbrev Tree := DirectoryRecord → Listing

/-- The directories of a tree. -/
inductive Reached (tree : Tree) (root : DirectoryRecord) : DirectoryRecord → Prop
  | root : Reached tree root root
  | entered {dir : DirectoryRecord} {record : Record} (reached : Reached tree root dir)
      (member : record ∈ (tree dir).entries) (isDirectory : record.IsDirectory) :
      Reached tree root record.target

/-- The directories of the tree are all on the disc. -/
def OnDisc (drive : Drive) (tree : Tree) (root : DirectoryRecord) : Prop :=
  ∀ dir, Reached tree root dir → Stored drive dir (tree dir).blocks

/-- Records that lead from one directory to the next. -/
def IsChain (tree : Tree) : DirectoryRecord → List Record → Prop
  | _, [] => False
  | dir, record :: rest => record ∈ (tree dir).entries ∧
    (rest = [] ∨ record.IsDirectory ∧ IsChain tree record.target rest)

/-- The translated names of a chain, joined by slashes. -/
def chainPath (chain : List Record) : List Byte := chain.flatMap Record.component

/-- The search gives what the path names, and no sector exactly if it names nothing. -/
structure FindsEntry (tree : Tree) (root : DirectoryRecord) (path : List Byte)
    (found : DirSearch) : Prop where
  entry : ∀ chain record, IsChain tree root (chain ++ [record]) →
    chainPath (chain ++ [record]) = path →
    found.sect = record.target.extent ∧ found.dir_found = some (record.bytes.take 33)
  missing : found.sect = 0 ↔ ¬∃ chain, IsChain tree root chain ∧ chainPath chain = path

/-! ## Names and slashes -/

section Names

variable {first second : Record} {rest more : List Record} {name : List Byte} {c : Byte}

theorem mem_dropVersion (member : c ∈ dropVersion name) : c ∈ name := by
  unfold dropVersion at member
  split at member
  · exact List.mem_of_mem_take member
  · split at member
    · exact List.mem_of_mem_take member
    · exact member

/-- A translated name has a slash only where the name has one. -/
theorem slash_not_mem_translated (whole : 0x2f ∉ name) : 0x2f ∉ translated name := by
  intro member
  obtain ⟨c, inside, same⟩ := List.mem_map.mp member
  split at same
  · exact absurd same (by decide)
  · rw [lower_eq_iff (by decide)] at same
    exact whole (same ▸ mem_dropVersion inside)

theorem chainPath_cons : chainPath (first :: rest) =
    0x2f :: (translated first.name ++ chainPath rest) := rfl

/-- What a path goes on with behind a name is nothing or a slash. -/
theorem chainPath_head (tail : List Byte) (longer : chainPath rest = c :: tail) : c = 0x2f := by
  cases rest with
  | nil => cases longer
  | cons record rest =>
      rw [chainPath_cons] at longer
      exact (List.cons.inj longer).1.symm

/-- A name without slashes ends at the first slash. -/
theorem append_inj_of_slash {name other path way : List Byte} (whole : 0x2f ∉ name)
    (wholeToo : 0x2f ∉ other) (onwards : ∀ c tail, path = c :: tail → c = 0x2f)
    (onwardsToo : ∀ c tail, way = c :: tail → c = 0x2f) (same : name ++ path = other ++ way) :
    name = other ∧ path = way := by
  induction name generalizing other with
  | nil =>
      cases other with
      | nil => exact ⟨rfl, same⟩
      | cons c other =>
          have slash := onwards c _ same
          exact absurd (slash ▸ List.mem_cons_self) wholeToo
  | cons c name ih =>
      cases other with
      | nil =>
          have slash := onwardsToo c _ same.symm
          exact absurd (slash ▸ List.mem_cons_self) whole
      | cons d other =>
          obtain ⟨rfl, later⟩ := List.cons.inj same
          obtain ⟨rfl, rest⟩ := ih (fun member => whole (List.mem_cons_of_mem _ member))
            (fun member => wholeToo (List.mem_cons_of_mem _ member)) later
          exact ⟨rfl, rest⟩

/-- Two entries of a directory whose paths agree are one, and so is the rest of the paths. -/
theorem Listing.unique {listing : Listing} (path way : List Byte)
    (firstIn : first ∈ listing.entries) (secondIn : second ∈ listing.entries)
    (onwards : ∀ c tail, path = c :: tail → c = 0x2f)
    (onwardsToo : ∀ c tail, way = c :: tail → c = 0x2f)
    (same : first.component ++ path = second.component ++ way) : first = second ∧ path = way := by
  obtain ⟨names, rest⟩ := append_inj_of_slash
    (slash_not_mem_translated (listing.ordinary first firstIn).whole)
    (slash_not_mem_translated (listing.ordinary second secondIn).whole) onwards onwardsToo
    (List.cons.inj same).2
  exact ⟨List.inj_on_of_nodup_map listing.distinct firstIn secondIn names, rest⟩

/-- A path names at most one entry. -/
theorem IsChain.unique {tree : Tree} {dir : DirectoryRecord} {chain other : List Record}
    (isChain : IsChain tree dir chain) (isChainToo : IsChain tree dir other)
    (same : chainPath chain = chainPath other) : chain = other := by
  induction chain generalizing dir other with
  | nil => exact absurd isChain id
  | cons record rest ih =>
      cases other with
      | nil => exact absurd isChainToo id
      | cons record' rest' =>
          obtain ⟨member, onwards⟩ := isChain
          obtain ⟨member', onwards'⟩ := isChainToo
          obtain ⟨rfl, later⟩ := Listing.unique _ _ member member' (fun _ => chainPath_head)
            (fun _ => chainPath_head) same
          cases rest with
          | nil =>
              cases rest' with
              | nil => rfl
              | cons _ _ => cases later
          | cons next rest =>
              cases rest' with
              | nil => cases later
              | cons next' rest' =>
                  obtain ⟨-, below⟩ := onwards.resolve_left (List.cons_ne_nil _ _)
                  obtain ⟨-, below'⟩ := onwards'.resolve_left (List.cons_ne_nil _ _)
                  rw [ih below below' later]

end Names

/-! ## What the search sees -/

/-- The chains of a tree that the search can follow: there is a buffer for every directory,
and the directories on the way have names longer than a byte. -/
def SearchedChain (tree : Tree) (room : UInt32 → Bool) : DirectoryRecord → List Record → Prop
  | _, [] => False
  | dir, record :: rest => room dir.size = true ∧ record ∈ (tree dir).entries ∧
    (rest = [] ∨ (record.IsDirectory ∧ 1 < record.name.length) ∧
      SearchedChain tree room record.target rest)

/-- A record that leads to the rest of a path. -/
def Record.LeadsTo (record : Record) (rest : List Byte) : Prop :=
  record.component = rest ∨
    (record.IsDirectory ∧ 1 < record.name.length) ∧ ∃ tail, rest = record.component ++ 0x2f :: tail

section Passes

variable {record : Record} {filename rest last : List Byte}

theorem length_name (record : Record) :
    record.name.length = (nameLen (image record.bytes) 0).toNat :=
  Memory.length_bytes _ _ _

theorem head_name (record : Record) : record.name.head? = some (image record.bytes 33) := by
  rw [List.head?_eq_getElem?]
  exact Memory.getElem?_bytes _ _ record.named

theorem isSearched_iff (record : Record) :
    IsSearched (image record.bytes) 0 ↔ record.IsDirectory ∧ 1 < record.name.length := by
  unfold IsSearched
  rw [length_name, UInt8.lt_iff_toNat_lt]
  rfl

theorem Record.Ordinary.not_isSpecial (ordinary : record.Ordinary) :
    ¬IsSpecial (image record.bytes) 0 := by
  rintro (zero | one)
  · apply ordinary.text
    have head := head_name record
    rw [show image record.bytes 33 = 0 from zero] at head
    exact List.mem_of_head? head
  · apply ordinary.first
    rw [head_name]
    exact congrArg some one

/-- The record of a directory or its parent is passed. -/
theorem passRecord_special {mark : Byte} (special : mark = 0 ∨ mark = 1)
    (name : record.name = [mark]) (more : rest ≠ []) :
    passRecord (filename ++ rest) filename record [] = .next [] := by
  have head := head_name record
  rw [name] at head
  have first : mark = image record.bytes 33 := Option.some.inj head
  have path : newfilename filename [] (image record.bytes) 0 = [] := by
    rw [first] at special
    exact if_pos special
  have stays : ¬([] = filename ++ rest ∨ IsSearched (image record.bytes) 0 ∧
      Continues (filename ++ rest) []) := by
    rintro (empty | ⟨searched, -⟩)
    · exact more (List.append_eq_nil_iff.mp empty.symm).2
    · have long := ((isSearched_iff record).mp searched).2
      rw [name] at long
      exact Nat.lt_irrefl _ long
  unfold passRecord
  dsimp only
  rw [path, if_neg stays]

/-- A path goes on behind another one exactly if a slash and anything follow. -/
theorem continues_iff {search path : List Byte} :
    Continues search path ↔ ∃ tail, search = path ++ 0x2f :: tail := by
  constructor
  · rintro ⟨shorter, front, slash⟩
    have at_slash : search[path.length] = 0x2f :=
      Option.some.inj ((List.getElem?_eq_getElem shorter).symm.trans slash)
    refine ⟨search.drop (path.length + 1), ?_⟩
    calc
      search = search.take path.length ++ search.drop path.length :=
        (List.take_append_drop _ _).symm
      _ = path ++ 0x2f :: search.drop (path.length + 1) := by
        rw [front, List.drop_eq_getElem_cons shorter, at_slash]
  · rintro ⟨tail, rfl⟩
    refine ⟨?_, List.take_left, ?_⟩
    · rw [List.length_append, List.length_cons]
      omega
    · rw [List.getElem?_append_right (Nat.le_refl _), Nat.sub_self]
      rfl

theorem continues_append_iff {way : List Byte} :
    Continues (filename ++ rest) (filename ++ way) ↔ ∃ tail, rest = way ++ 0x2f :: tail := by
  simp only [continues_iff, List.append_assoc, List.append_cancel_left_eq]

/-- The pass of an ordinary record depends on its name only. -/
theorem passRecord_ordinary (ordinary : record.Ordinary) (filename rest last : List Byte) :
    (passRecord (filename ++ rest) filename record last).Ends (fun _ => ¬record.LeadsTo rest)
      fun left => record.LeadsTo rest ∧ left = (record, filename ++ record.component) := by
  have path : newfilename filename last (image record.bytes) 0 = filename ++ record.component := by
    rw [newfilename, if_neg ordinary.not_isSpecial]
    exact congrArg (filename ++ 0x2f :: ·) (iso9660NameTranslate_eq ordinary.text)
  have leads : (filename ++ record.component = filename ++ rest ∨
      IsSearched (image record.bytes) 0 ∧
        Continues (filename ++ rest) (filename ++ record.component)) ↔ record.LeadsTo rest := by
    unfold Record.LeadsTo
    rw [List.append_cancel_left_eq, isSearched_iff, continues_append_iff]
  unfold passRecord
  dsimp only
  rw [path]
  split
  · next leaves => exact ⟨leads.mp leaves, rfl⟩
  · next stays => exact mt leads.mpr stays

/-- The pass over a directory: it leaves at an entry that leads to the rest of the path. -/
theorem Listing.pass (listing : Listing) (more : rest ≠ []) (filename : List Byte) :
    (listLoop (passRecord (filename ++ rest) filename) listing.blocks.flatten []).Ends
      (fun _ => ∀ record ∈ listing.entries, ¬record.LeadsTo rest)
      fun left => left.1 ∈ listing.entries ∧ left.1.LeadsTo rest ∧
        left.2 = filename ++ left.1.component := by
  rw [listing.records, listLoop, passRecord_special (.inl rfl) listing.self_name more]
  change (listLoop _ (listing.parent :: listing.entries) []).Ends _ _
  rw [listLoop, passRecord_special (.inr rfl) listing.parent_name more]
  change (listLoop _ listing.entries []).Ends _ _
  apply listLoop_ends
  intro record member last
  apply (passRecord_ordinary (listing.ordinary record member) filename rest last).mono
  · exact fun _ none => none
  · rintro left ⟨leads, rfl⟩
    exact ⟨leads, member, leads, rfl⟩

end Passes

/-! ## The search -/

section Searches

variable {drive : Drive} {room : UInt32 → Bool} {garbage : Nat → Memory} {tree : Tree}
  {root dir : DirectoryRecord} {rest : List Byte} {found : DirSearch}

/-- What a search has to do with the chains it can follow. -/
def Outcome (tree : Tree) (room : UInt32 → Bool) (dir : DirectoryRecord) (rest : List Byte)
    (found : DirSearch) : Prop :=
  (∃ chain record, SearchedChain tree room dir (chain ++ [record]) ∧
    chainPath (chain ++ [record]) = rest ∧ found.sect = record.target.extent ∧
    found.dir_found = some (record.bytes.take 33)) ∨
  ((∀ chain, SearchedChain tree room dir chain → chainPath chain ≠ rest) ∧ found.sect = 0)

/-- The first record of a chain leads to what the chain names. -/
theorem SearchedChain.leadsTo {record : Record} {chain : List Record}
    (searched : SearchedChain tree room dir (record :: chain)) :
    record.LeadsTo (chainPath (record :: chain)) := by
  obtain ⟨-, -, onwards⟩ := searched
  cases chain with
  | nil => exact .inl (List.append_nil _).symm
  | cons next chain =>
      obtain ⟨along, -⟩ := onwards.resolve_left (List.cons_ne_nil _ _)
      exact .inr ⟨along, _, rfl⟩

theorem no_chain_of_no_room (full : room dir.size = false) (chain : List Record) :
    ¬SearchedChain tree room dir chain := by
  cases chain with
  | nil => exact id
  | cons record chain =>
      rintro ⟨met, -⟩
      rw [full] at met
      cases met

/-- Where there is no room for a directory, the search can follow nothing. -/
theorem Outcome.of_no_room (full : room dir.size = false) (blocks : LiveBlocks) :
    Outcome tree room dir rest ⟨0, none, blocks, 0⟩ :=
  .inr ⟨fun chain searched => absurd searched (no_chain_of_no_room full chain), rfl⟩

/-- Where no entry leads to the rest of a path, no chain has that path. -/
theorem Outcome.of_passed (passed : ∀ record ∈ (tree dir).entries, ¬record.LeadsTo rest)
    (sect : found.sect = 0) : Outcome tree room dir rest found := by
  refine .inr ⟨?_, sect⟩
  rintro chain searched rfl
  cases chain with
  | nil => exact searched
  | cons record chain => exact passed record searched.2.1 searched.leadsTo

/-- An entry with the rest of a path is a chain of its own. -/
theorem Outcome.of_entry {record : Record} (met : room dir.size = true)
    (member : record ∈ (tree dir).entries) (same : record.component = rest)
    (sect : found.sect = record.target.extent)
    (copied : found.dir_found = some (record.bytes.take 33)) :
    Outcome tree room dir rest found :=
  .inl ⟨[], record, ⟨met, member, .inl rfl⟩, (List.append_nil _).trans same, sect, copied⟩

/-- Below a record that leads to the rest of a path are the only chains with that path. -/
theorem Outcome.of_below {record : Record} {tail : List Byte} {inner : DirSearch}
    (met : room dir.size = true) (member : record ∈ (tree dir).entries)
    (along : record.IsDirectory ∧ 1 < record.name.length)
    (below : Outcome tree room record.target (0x2f :: tail) inner) :
    Outcome tree room dir (record.component ++ 0x2f :: tail)
      { inner with depth := inner.depth + 1 } := by
  rcases below with ⟨chain, last, searched, path, copied⟩ | ⟨none, sect⟩
  · refine .inl ⟨record :: chain, last, ⟨met, member, .inr ⟨along, searched⟩⟩, ?_, copied⟩
    rw [List.cons_append, chainPath, List.flatMap_cons]
    exact congrArg (record.component ++ ·) path
  · refine .inr ⟨?_, sect⟩
    intro chain searched path
    cases chain with
    | nil => exact searched
    | cons first chain =>
        obtain ⟨-, memberToo, onwards⟩ := searched
        obtain ⟨rfl, later⟩ := Listing.unique (chainPath chain) _ memberToo member
          (fun _ => chainPath_head) (fun c tail same => (List.cons.inj same).1.symm) path
        cases chain with
        | nil => cases later
        | cons next chain =>
            obtain ⟨-, further⟩ := onwards.resolve_left (List.cons_ne_nil _ _)
            exact none _ further later

/-- From each directory on the disc the search returns what it can see. -/
theorem exists_outcome (room : UInt32 → Bool) (garbage : Nat → Memory)
    (onDisc : OnDisc drive tree root) (reached : Reached tree root dir) (filename : List Byte)
    (more : rest ≠ []) (blocks : LiveBlocks) :
    ∃ fuel found, readDir drive room garbage (filename ++ rest) fuel dir.extent dir.size filename
      blocks = some found ∧ Outcome tree room dir rest found := by
  induction count : rest.length using Nat.strong_induction_on generalizing dir filename rest blocks
    with
  | _ bound ih =>
      by_cases met : room dir.size = true
      · have scan := (onDisc dir reached).scan (filename ++ rest) filename (garbage blocks.next)
        have pass := (tree dir).pass more filename
        generalize listLoop (passRecord (filename ++ rest) filename) (tree dir).blocks.flatten [] =
          passed at scan pass
        cases passed with
        | next last =>
            obtain ⟨passes, left⟩ := scan
            exact ⟨0 + passes + 1, _, readDir_of_left met left .atEnd, .of_passed pass rfl⟩
        | leave left =>
            obtain ⟨record, path⟩ := left
            obtain ⟨passes, place, lies, left⟩ := scan
            obtain ⟨member, leads, same⟩ := pass
            dsimp only at lies left member leads same
            rw [same] at left
            rcases leads with exact_name | ⟨along, tail, rfl⟩
            · rw [endAt, if_pos (congrArg (filename ++ ·) exact_name)] at left
              exact ⟨0 + passes + 1, _, readDir_of_left met left (.found place),
                .of_entry met member exact_name lies.dirExtent_eq (congrArg some lies.bytes_eq)⟩
            · have longer : filename ++ record.component ≠
                  filename ++ (record.component ++ 0x2f :: tail) := by
                simp
              rw [endAt, if_neg longer] at left
              have shorter : (0x2f :: tail).length < bound := by
                rw [← count, List.length_append]
                exact Nat.lt_add_of_pos_left (Nat.zero_lt_succ _)
              obtain ⟨fuel, inner, below, outcome⟩ := ih _ shorter
                (reached.entered member along.1) (filename ++ record.component)
                (List.cons_ne_nil _ _) blocks.malloc.malloc rfl
              rw [List.append_assoc, ← lies.dirExtent_eq, ← lies.dirSize_eq] at below
              exact ⟨fuel + passes + 1, _, readDir_of_left met left (.descend _ _ inner below),
                outcome.of_below met member along⟩
      · have full : room dir.size = false := by simpa using met
        exact ⟨0 + 1, _, readDir_no_room full, .of_no_room full blocks⟩

/-- The chains that the search can follow, told by their directories. -/
theorem searchedChain_iff {chain : List Record} {record : Record} :
    SearchedChain tree room dir (chain ++ [record]) ↔ IsChain tree dir (chain ++ [record]) ∧
      (∀ inner ∈ chain, 1 < inner.name.length) ∧
      ∀ place ∈ dir :: chain.map Record.target, room place.size = true := by
  induction chain generalizing dir with
  | nil =>
      simp only [List.nil_append, SearchedChain, IsChain, List.map_nil, List.mem_singleton,
        List.not_mem_nil, forall_eq, IsEmpty.forall_iff, implies_true, true_and, true_or, and_true]
      exact and_comm
  | cons inner chain ih =>
      have more : chain ++ [record] ≠ [] := by simp
      simp only [List.cons_append, SearchedChain, IsChain, more, false_or, ih, List.map_cons,
        List.mem_cons, forall_eq_or_imp]
      tauto

theorem IsChain.exists_last {chain : List Record} (isChain : IsChain tree dir chain) :
    ∃ front record, chain = front ++ [record] := by
  rcases List.eq_nil_or_concat chain with rfl | ⟨front, record, rfl⟩
  · exact absurd isChain id
  · exact ⟨front, record, List.concat_eq_append⟩

/-- More fuel, the same search. -/
theorem readDir_unique {search filename : List Byte} {extent size : UInt32} {blocks : LiveBlocks}
    {fuel more : Nat} {other : DirSearch}
    (returned : readDir drive room garbage search fuel extent size filename blocks = some found)
    (returnedToo : readDir drive room garbage search more extent size filename blocks =
      some other) : found = other := by
  have first := readDir_add returned more
  rw [Nat.add_comm, readDir_add returnedToo fuel] at first
  exact (Option.some.inj first).symm

/-- What a path names is found if its record is copied. -/
theorem FindsEntry.of_chain {path : List Byte} {front : List Record} {last : Record}
    (isChain : IsChain tree root (front ++ [last])) (names : chainPath (front ++ [last]) = path)
    (somewhere : last.target.extent ≠ 0) (sect : found.sect = last.target.extent)
    (copied : found.dir_found = some (last.bytes.take 33)) : FindsEntry tree root path found := by
  refine ⟨?_, ?_⟩
  · intro chain record isChainToo namesToo
    have same := isChain.unique isChainToo (names.trans namesToo.symm)
    obtain ⟨-, last_same⟩ := List.append_inj' same rfl
    cases last_same
    exact ⟨sect, copied⟩
  · apply iff_of_false
    · rw [sect]
      exact somewhere
    · exact fun missing => missing ⟨_, isChain, names⟩

theorem FindsEntry.of_nothing {path : List Byte}
    (nothing : ∀ chain, IsChain tree root chain → chainPath chain ≠ path) (sect : found.sect = 0) :
    FindsEntry tree root path found := by
  refine ⟨?_, ?_⟩
  · exact fun chain record isChain names => absurd names (nothing _ isChain)
  · apply iff_of_true sect
    rintro ⟨chain, isChain, names⟩
    exact nothing chain isChain names

/-- A search started at the root finds what a path names, and nothing exactly if it names
nothing, if and only if on the way to what it names every directory has a name longer than a
byte and there is a buffer for each. -/
theorem readDir_finds_iff (garbage : Nat → Memory) (room : UInt32 → Bool) {path : List Byte}
    (onDisc : OnDisc drive tree root) (absolute : path ≠ [])
    (located : ∀ chain record, IsChain tree root (chain ++ [record]) →
      chainPath (chain ++ [record]) = path → record.target.extent ≠ 0) (blocks : LiveBlocks) :
    (∃ fuel found, readDir drive room garbage path fuel root.extent root.size [] blocks =
      some found ∧ FindsEntry tree root path found) ↔
    ∀ chain record, IsChain tree root (chain ++ [record]) → chainPath (chain ++ [record]) = path →
      (∀ inner ∈ chain, 1 < inner.name.length) ∧
      ∀ dir ∈ root :: chain.map Record.target, room dir.size = true := by
  obtain ⟨fuel, found, returned, outcome⟩ :=
    exists_outcome room garbage onDisc .root [] absolute blocks
  constructor
  · rintro ⟨more, other, returnedToo, finds⟩ chain record isChain names
    rw [← readDir_unique returned returnedToo] at finds
    rcases outcome with ⟨front, last, searched, namesToo, -⟩ | ⟨none, sect⟩
    · obtain ⟨isChainToo, long, met⟩ := searchedChain_iff.mp searched
      have same := isChain.unique isChainToo (names.trans namesToo.symm)
      obtain ⟨rfl, -⟩ := List.append_inj' same rfl
      exact ⟨long, met⟩
    · exact absurd ⟨_, isChain, names⟩ (finds.missing.mp sect)
  · intro wayOpen
    refine ⟨fuel, found, returned, ?_⟩
    rcases outcome with ⟨front, last, searched, names, sect, copied⟩ | ⟨none, sect⟩
    · have isChain := (searchedChain_iff.mp searched).1
      exact .of_chain isChain names (located front last isChain names) sect copied
    · have nothing : ∀ chain, IsChain tree root chain → chainPath chain ≠ path := by
        intro chain isChain names
        obtain ⟨front, last, rfl⟩ := isChain.exists_last
        exact none _ (searchedChain_iff.mpr ⟨isChain, wayOpen front last isChain names⟩) names
      exact .of_nothing nothing sect

end Searches

/-! ## A tree with one directory below its root -/

/-- A directory of one block. -/
theorem stored_image {drive : Drive} {dir : DirectoryRecord} {records : List Record}
    (size : dir.size.toNat = 2048)
    (sector : drive dir.extent = some (image (records.flatMap Record.bytes)))
    (fits : (records.flatMap Record.bytes).length ≤ 2048) : Stored drive dir [records] where
  size := size
  sectors k inside := by
    obtain rfl : k = 0 := Nat.lt_one_iff.mp inside
    have first : dir.extent + UInt32.ofNat 0 = dir.extent := UInt32.add_zero _
    refine ⟨_, (congrArg drive first).trans sector, ?_, ?_⟩
    · rw [Nat.zero_add]
      exact fits
    · intro j _
      rw [Nat.zero_add]
      rfl

/-- A record with a name of one byte. -/
def smallRecord (extent flags c : Byte) : Record where
  bytes := [34, 0, extent] ++ List.replicate 8 0 ++ [8] ++ List.replicate 13 0 ++ [flags] ++
    List.replicate 6 0 ++ [1, c]
  length := rfl
  named := by
    change 0 < (1 : Byte).toNat
    decide
  holds := by
    change 33 + (1 : Byte).toNat ≤ 34
    decide

def directoryA : Record := smallRecord 21 2 0x61
def fileB : Record := smallRecord 22 0 0x62

/-- The same directory with a name of two bytes. -/
def directoryAA : Record where
  bytes := [35, 0, 21] ++ List.replicate 8 0 ++ [8] ++ List.replicate 13 0 ++ [2] ++
    List.replicate 6 0 ++ [2, 0x61, 0x61]
  length := rfl
  named := by
    change 0 < (2 : Byte).toNat
    decide
  holds := by
    change 33 + (2 : Byte).toNat ≤ 35
    decide

/-- A directory with one entry. -/
def smallListing (self parent : Byte) (entry : Record) (ordinary : entry.Ordinary) : Listing where
  blocks := [[smallRecord self 2 0, smallRecord parent 2 1, entry]]
  self := smallRecord self 2 0
  parent := smallRecord parent 2 1
  entries := [entry]
  records := rfl
  self_name := rfl
  parent_name := rfl
  ordinary record member := by
    rw [List.mem_singleton.mp member]
    exact ordinary
  distinct := List.nodup_singleton _

/-- The directory, with a name of one byte or of two. -/
def smallDirectory (long : Bool) : Record := if long then directoryAA else directoryA

theorem smallDirectory_ordinary (long : Bool) : (smallDirectory long).Ordinary := by
  cases long with
  | false => exact ⟨by decide, by decide, by decide⟩
  | true => exact ⟨by decide, by decide, by decide⟩

theorem fileB_ordinary : fileB.Ordinary := ⟨by decide, by decide, by decide⟩

/-- The directory with a file `b` in it. -/
def smallTree (long : Bool) : Tree := fun dir =>
  if dir.extent = 20 then smallListing 20 20 (smallDirectory long) (smallDirectory_ordinary long)
  else smallListing 21 20 fileB fileB_ordinary

def smallRoot : DirectoryRecord := ⟨20, 2048⟩

def smallDrive (long : Bool) : Drive
  | 20 => some (image ((smallTree long smallRoot).blocks.flatten.flatMap Record.bytes))
  | 21 => some (image ((smallTree long directoryA.target).blocks.flatten.flatMap Record.bytes))
  | _ => none

/-- Both directories are in the same place. -/
theorem target_smallDirectory (long : Bool) :
    (smallDirectory long).target = directoryA.target := by
  cases long with
  | false => rfl
  | true => rfl

theorem small_onDisc (long : Bool) : OnDisc (smallDrive long) (smallTree long) smallRoot := by
  intro dir reached
  have place : dir = smallRoot ∨ dir = directoryA.target := by
    induction reached with
    | root => exact .inl rfl
    | entered reached member isDirectory ih =>
        right
        rcases ih with rfl | rfl
        · rw [List.mem_singleton.mp member, target_smallDirectory]
        · rw [List.mem_singleton.mp member] at isDirectory
          exact absurd rfl isDirectory
  rcases place with rfl | rfl
  · exact stored_image rfl rfl (by cases long <;> decide)
  · exact stored_image rfl rfl (by decide)

theorem chain_in_directory (long : Bool) :
    IsChain (smallTree long) smallRoot [smallDirectory long, fileB] := by
  refine ⟨List.mem_singleton_self _, .inr ⟨?_, ?_, .inl rfl⟩⟩
  · cases long with
    | false => decide
    | true => decide
  · rw [target_smallDirectory]
    exact List.mem_singleton_self _

/-- The path of the file is that of no other chain. -/
theorem located_in_directory (long : Bool) : ∀ chain record,
    IsChain (smallTree long) smallRoot (chain ++ [record]) →
      chainPath (chain ++ [record]) = chainPath [smallDirectory long, fileB] →
      record.target.extent ≠ 0 := by
  intro chain record isChain names
  have same : chain ++ [record] = [smallDirectory long] ++ [fileB] :=
    isChain.unique (chain_in_directory long) names
  obtain ⟨-, last⟩ := List.append_inj' same rfl
  cases last
  decide

theorem path_aa : chainPath [directoryAA, fileB] = [0x2f, 0x61, 0x61, 0x2f, 0x62] := by decide

theorem path_a : chainPath [directoryA, fileB] = [0x2f, 0x61, 0x2f, 0x62] := by decide

/-- The search for `/aa/b`. -/
theorem readDir_finds_iff_directory :
    (∃ fuel found, readDir (smallDrive true) (fun _ => true) (fun _ _ => 0)
      [0x2f, 0x61, 0x61, 0x2f, 0x62] fuel smallRoot.extent smallRoot.size [] .empty = some found ∧
      FindsEntry (smallTree true) smallRoot [0x2f, 0x61, 0x61, 0x2f, 0x62] found) ↔
    ∀ chain record, IsChain (smallTree true) smallRoot (chain ++ [record]) →
      chainPath (chain ++ [record]) = [0x2f, 0x61, 0x61, 0x2f, 0x62] →
      (∀ inner ∈ chain, 1 < inner.name.length) ∧
      ∀ dir ∈ smallRoot :: chain.map Record.target, (fun _ => true) dir.size = true := by
  refine readDir_finds_iff _ _ (small_onDisc true) (List.cons_ne_nil _ _) ?_ .empty
  rw [← path_aa]
  exact located_in_directory true

/-- The file in the directory with the name of one letter is not found. -/
theorem readDir_misses : ¬∀ drive room garbage tree root path blocks, OnDisc drive tree root →
    path ≠ [] → (∀ size, room size = true) →
    (∀ chain record, IsChain tree root (chain ++ [record]) →
      chainPath (chain ++ [record]) = path → record.target.extent ≠ 0) →
    ∃ fuel found, readDir drive room garbage path fuel root.extent root.size [] blocks =
      some found ∧ FindsEntry tree root path found := by
  intro finds
  have located := located_in_directory false
  rw [show smallDirectory false = directoryA from rfl, path_a] at located
  obtain ⟨fuel, found, returned, entry⟩ := finds (smallDrive false) (fun _ => true)
    (fun _ _ => 0) (smallTree false) smallRoot [0x2f, 0x61, 0x2f, 0x62] .empty
    (small_onDisc false) (List.cons_ne_nil _ _) (fun _ => rfl) located
  have nothing : readDir (smallDrive false) (fun _ => true) (fun _ _ => 0)
      [0x2f, 0x61, 0x2f, 0x62] 5 smallRoot.extent smallRoot.size [] .empty = some ⟨0, none,
        (LiveBlocks.empty.malloc.malloc.free 0).free 1, 0⟩ := rfl
  rw [readDir_unique returned nothing] at entry
  exact entry.missing.mp rfl ⟨_, chain_in_directory false, path_a⟩

end Cromwell.Iso9660
