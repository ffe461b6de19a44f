import Cromwell.Etherboot.ElfLoader

/-!
# What the ELF loader changes

The headers of an image settle what becomes of it: whether its notes have an end, which
segments are cleared behind their contents before one is found that does not fit, and, if
all fit, which of them are copied. The loader comes back exactly from images it does not
accept and from those with a segment that does not fit, and it spares what is reserved
exactly if all these ranges do.
-/

namespace Cromwell.Etherboot

open Cromwell.Std Cromwell.Std.Program Cromwell.Boot

/-! ## Notes -/

/-- From one note to the next there is an end. -/
def NoteEnds (memory : Memory) (data : UInt32) (phdr : Elf32Phdr) : Prop :=
  Ends (nextNote memory (data + phdr.pOffset + phdr.pFilesz)) (some (data + phdr.pOffset))

/-- The notes in the image all have an end. -/
def NotesEnd (memory : Memory) (data len : UInt32) (phdrs : List Elf32Phdr) : Prop :=
  ∀ phdr ∈ phdrs, phdr.pType = ptNote → ¬len < phdr.pOffset + phdr.pFilesz →
    NoteEnds memory data phdr

section Notes

variable {data len : UInt32} {ram : Ram}

theorem notePass_follows {memory : Memory} {stop : UInt32} :
    Follows some (nextNote memory stop) (notePass memory stop) := by
  constructor
  · exact fun note _ _ => Option.some_ne_none note
  · intro note result pass
    unfold notePass at pass
    split at pass
    · next atEnd => exact atEnd
    · cases pass
  · intro note next pass
    unfold notePass at pass
    split at pass
    · cases pass
    · next found =>
      cases pass
      exact found.symm

/-- A loop over addresses ends within the passes it is given, or not at all. -/
theorem ends_iff_notePasses {memory : Memory} {stop note : UInt32} :
    Ends (nextNote memory stop) (some note) ↔
      walk (nextNote memory stop) (some note) notePasses = none := by
  unfold notePasses
  exact ends_iff_walk_none UInt32.toNat_lt fun _ _ same => UInt32.toNat_inj.mp same

theorem processElfNotes_ensures (header : UInt32) (phdr : Elf32Phdr) :
    (processElfNotes header phdr).Ensures ram
      (fun after => after = ram ∧ ¬NoteEnds ram.memory header phdr)
      fun _ after => after = ram ∧ NoteEnds ram.memory header phdr := by
  unfold processElfNotes NoteEnds Ensures
  dsimp only
  split
  · next left => exact ⟨rfl, ends_iff_notePasses.mpr (notePass_follows.walk_none left)⟩
  · next place passed =>
    refine ⟨rfl, fun ends => ?_⟩
    have going := notePass_follows.walk_eq passed
    rw [ends_iff_notePasses.mp ends] at going
    cases going

/-- The loader gets through the notes exactly if they end, and changes nothing. -/
theorem elfNotes_ensures (phdrs : List Elf32Phdr) :
    (elfNotes (processElfNotes data) len phdrs).Ensures ram
      (fun after => after = ram ∧ ¬NotesEnd ram.memory data len phdrs)
      fun _ after => after = ram ∧ NotesEnd ram.memory data len phdrs := by
  induction phdrs with
  | nil => exact ⟨rfl, fun _ member => absurd member List.not_mem_nil⟩
  | cons phdr rest ih =>
      have tail : ∀ after : Ram, after = ram ∧ ¬NotesEnd ram.memory data len rest →
          after = ram ∧ ¬NotesEnd ram.memory data len (phdr :: rest) := by
        rintro after ⟨same, endless⟩
        exact ⟨same, fun ends => endless (List.forall_mem_cons.mp ends).2⟩
      unfold elfNotes
      rw [ensures_ite]
      refine ⟨fun other => ?_, fun note => ensures_ite.mpr ⟨fun outside => ?_, fun inside => ?_⟩⟩
      · refine ih.mono tail ?_
        rintro _ after ⟨same, ends⟩
        exact ⟨same, List.forall_mem_cons.mpr ⟨fun note => absurd note other, ends⟩⟩
      · refine ih.mono tail ?_
        rintro _ after ⟨same, ends⟩
        exact ⟨same, List.forall_mem_cons.mpr ⟨fun _ inside => absurd outside inside, ends⟩⟩
      · rw [ensures_bind]
        refine (processElfNotes_ensures data phdr).mono ?_ ?_
        · rintro after ⟨same, endless⟩
          exact ⟨same, fun ends =>
            endless ((List.forall_mem_cons.mp ends).1 (not_not.mp note) inside)⟩
        · rintro _ after ⟨rfl, first⟩
          refine ih.mono tail ?_
          rintro _ after' ⟨same, ends⟩
          exact ⟨same, List.forall_mem_cons.mpr ⟨fun _ _ => first, ends⟩⟩

end Notes

/-! ## Segments that fit -/

/-- The segment lies in one of the ranges of RAM, and is not shorter than what the image has
of it. -/
def Elf32Phdr.Fits (phdr : Elf32Phdr) : Prop :=
  phdr.mid ≤ phdr.stop ∧
    (phdr.stop.toNat ≤ 0x9f000 ∨
      (0x100000 ≤ phdr.pPaddr.toNat ∧ phdr.stop.toNat ≤ 0x3C00000))

instance (phdr : Elf32Phdr) : Decidable phdr.Fits := inferInstanceAs (Decidable (_ ∧ _))

/-- Every segment that is to be loaded fits. -/
def AllFit (phdrs : List Elf32Phdr) : Prop := ∀ phdr ∈ phdrs, phdr.pType = ptLoad → phdr.Fits

/-- The segments that are prepared before one is found that does not fit. -/
def cleared (phdrs : List Elf32Phdr) : List Elf32Phdr :=
  (phdrs.filter (·.pType = ptLoad)).takeWhile fun phdr => phdr.Fits

/-- What a segment has behind its contents. -/
def Elf32Phdr.bss (phdr : Elf32Phdr) : Extent :=
  ⟨phdr.mid.toNat, phdr.stop.toNat - phdr.mid.toNat⟩

/-- The memory with the ends of segments cleared. -/
def clearBss (segments : List Elf32Phdr) (memory : Memory) : Memory :=
  segments.foldl (fun memory phdr => memory.memset phdr.bss.start 0 phdr.bss.length) memory

section Segments

variable {ram : Ram} {phdr : Elf32Phdr}

/-- The ranges of RAM are two of the four of the map. -/
theorem noRoom_iff (start stop : UInt32) :
    (meminfoMap.all fun entry => ¬(entry.type = .ram ∧ entry.addr ≤ start.toNat ∧
        stop.toNat ≤ entry.addr + entry.size)) = true ↔
      ¬(stop.toNat ≤ 0x9f000 ∨ (0x100000 ≤ start.toNat ∧ stop.toNat ≤ 0x3C00000)) := by
  simp only [meminfoMap, List.all_cons, List.all_nil]
  simp
  omega

theorem prepSegment_ensures (phdr : Elf32Phdr) :
    (prepSegment phdr.pPaddr phdr.mid phdr.stop).Ensures ram (fun _ => False) fun fit after =>
      (fit = false ∧ ¬phdr.Fits ∧ after = ram) ∨
        (fit = true ∧ phdr.Fits ∧ after.writes = ram.writes ∧
          after.memory = ram.memory.memset phdr.bss.start 0 phdr.bss.length ∧
          (after.Respects ↔ Spares phdr.bss ∧ ram.Respects)) := by
  unfold prepSegment
  rw [ensures_ite]
  refine ⟨fun shorter => ?_, fun long => ensures_ite.mpr ⟨fun noRoom => ?_, fun room => ?_⟩⟩
  · exact .inl ⟨rfl, fun fits => absurd shorter (UInt32.not_lt.mpr fits.1), rfl⟩
  · exact .inl ⟨rfl, fun fits => (noRoom_iff phdr.pPaddr phdr.stop).mp noRoom fits.2, rfl⟩
  · have ordered : phdr.mid.toNat ≤ phdr.stop.toNat :=
      UInt32.le_iff_toNat_le.mp (UInt32.not_lt.mp long)
    have fits : phdr.Fits :=
      ⟨UInt32.not_lt.mp long, not_not.mp (mt (noRoom_iff phdr.pPaddr phdr.stop).mpr room)⟩
    have length : (phdr.stop - phdr.mid).toNat = phdr.bss.length :=
      UInt32.toNat_sub_of_le _ _ (UInt32.not_lt.mp long)
    rw [ensures_ite, length]
    refine ⟨fun some => ?_, fun none => ?_⟩
    · rw [ensures_bind, ensures_clear]
      exact .inr ⟨rfl, fits, rfl, rfl, respects_move⟩
    · have empty : phdr.bss.length = 0 := by
        rw [UInt32.lt_iff_toNat_lt] at none
        change phdr.stop.toNat - phdr.mid.toNat = 0
        omega
      refine .inr ⟨rfl, fits, rfl, ?_, ?_⟩
      · rw [empty, Memory.memset_nothing]
      · exact ⟨fun respects => ⟨spares_empty empty, respects⟩, And.right⟩

/-- The segments are prepared in the order of their headers up to one that does not fit. -/
theorem prepSegments_ensures (phdrs : List Elf32Phdr) :
    (prepSegments phdrs).Ensures ram (fun _ => False) fun fit after =>
      (fit = true ↔ AllFit phdrs) ∧ after.writes = ram.writes ∧
        after.memory = clearBss (cleared phdrs) ram.memory ∧
        (after.Respects ↔ (∀ phdr ∈ cleared phdrs, Spares phdr.bss) ∧ ram.Respects) := by
  induction phdrs generalizing ram with
  | nil =>
      refine ⟨iff_of_true rfl fun _ member => absurd member List.not_mem_nil, rfl, rfl, ?_⟩
      simp [cleared]
  | cons phdr rest ih =>
      unfold prepSegments
      rw [ensures_ite]
      refine ⟨fun other => ?_, fun load => ?_⟩
      · have skipped : cleared (phdr :: rest) = cleared rest := by
          unfold cleared
          rw [List.filter_cons_of_neg (by simpa using other)]
        have fit : AllFit (phdr :: rest) ↔ AllFit rest := by
          simp [AllFit, other]
        rw [skipped, fit]
        exact ih
      · have load := not_not.mp load
        have front : cleared (phdr :: rest) =
            if phdr.Fits then phdr :: cleared rest else [] := by
          simp [cleared, load, List.takeWhile_cons]
        have fit : AllFit (phdr :: rest) ↔ phdr.Fits ∧ AllFit rest := by
          simp [AllFit, load]
        refine (prepSegment_ensures phdr).andThen ?_
        rintro _ middle (⟨rfl, misfit, rfl⟩ | ⟨rfl, fits, writes, memory, respects⟩)
        · rw [if_pos rfl, front, if_neg misfit, fit]
          refine ⟨iff_of_false Bool.false_ne_true fun all => misfit all.1, rfl, rfl, ?_⟩
          simp
        · rw [if_neg (by decide), front, if_pos fits, fit]
          refine ih.mono (fun _ never => never) ?_
          rintro result after ⟨all, writes', memory', respects'⟩
          refine ⟨all.trans (and_iff_right fits).symm, writes'.trans writes, ?_, ?_⟩
          · rw [memory', memory]
            rfl
          · rw [respects', respects, List.forall_mem_cons]
            tauto

end Segments

/-! ## Segments that are loaded -/

/-- The segment that comes next in the file behind an offset; of two that begin together the
one whose header is first. -/
def IsNext (phdrs : List Elf32Phdr) (offset : Nat) (segment : Elf32Phdr) : Prop :=
  ∃ i : Nat, phdrs[i]? = some segment ∧ segment.Ahead offset ∧
    ∀ (j : Nat) (other : Elf32Phdr), phdrs[j]? = some other → other.Ahead offset →
      segment.pOffset.toNat < other.pOffset.toNat ∨
        segment.pOffset.toNat = other.pOffset.toNat ∧ i ≤ j

/-- From an offset on a segment is copied: it is the next one, or comes behind the next one
that the image has whole. -/
inductive LoadedFrom (phdrs : List Elf32Phdr) (len : UInt32) : Nat → Elf32Phdr → Prop
  | here {offset : Nat} {segment : Elf32Phdr} (next : IsNext phdrs offset segment)
      (inside : segment.pOffset.toNat < len.toNat) : LoadedFrom phdrs len offset segment
  | later {offset : Nat} {first segment : Elf32Phdr} (next : IsNext phdrs offset first)
      (whole : first.pOffset.toNat + first.pFilesz.toNat < len.toNat)
      (behind : LoadedFrom phdrs len (first.pOffset.toNat + first.pFilesz.toNat) segment) :
      LoadedFrom phdrs len offset segment

/-- Where a segment is copied to, as far as the image has it. -/
def Elf32Phdr.loaded (phdr : Elf32Phdr) (len : UInt32) : Extent :=
  ⟨(phdr.pPaddr &&& 0xfffffff).toNat, min (len.toNat - phdr.pOffset.toNat) phdr.pFilesz.toNat⟩

section Order

variable {phdrs : List Elf32Phdr} {offset : Nat} {segment other : Elf32Phdr} {len : UInt32}

theorem IsNext.unique (first : IsNext phdrs offset segment) (second : IsNext phdrs offset other) :
    segment = other := by
  obtain ⟨i, at_i, ahead, before⟩ := first
  obtain ⟨j, at_j, ahead', before'⟩ := second
  have first := before j other at_j ahead'
  have second := before' i segment at_i ahead
  have same : i = j := by omega
  subst same
  exact Option.some.inj (at_i.symm.trans at_j)

/-- What a search has come to. -/
def Chosen (phdrs : List Elf32Phdr) (offset : Nat) : Option Elf32Phdr → Prop
  | none => ∀ other ∈ phdrs, ¬other.Ahead offset
  | some segment => IsNext phdrs offset segment

/-- A header of the longer list is one of the shorter list, or the last. -/
theorem getElem?_concat_cases {phdr : Elf32Phdr} {j : Nat}
    (found : (phdrs ++ [phdr])[j]? = some other) :
    phdrs[j]? = some other ∨ j = phdrs.length ∧ other = phdr := by
  rcases Nat.lt_trichotomy j phdrs.length with before | rfl | behind
  · rw [List.getElem?_append_left before] at found
    exact .inl found
  · rw [List.getElem?_concat_length] at found
    exact .inr ⟨rfl, (Option.some.inj found).symm⟩
  · rw [List.getElem?_eq_none (by rw [List.length_append]; exact behind)] at found
    cases found

/-- The next segment stays the next one if the header behind is not that of an earlier one. -/
theorem IsNext.concat {phdr : Elf32Phdr} (next : IsNext phdrs offset segment)
    (later : phdr.Ahead offset → segment.pOffset.toNat ≤ phdr.pOffset.toNat) :
    IsNext (phdrs ++ [phdr]) offset segment := by
  obtain ⟨i, found, ahead, least⟩ := next
  have inside : i < phdrs.length := (List.getElem?_eq_some_iff.mp found).1
  refine ⟨i, by rw [List.getElem?_append_left inside]; exact found, ahead, ?_⟩
  intro j other at_j ahead'
  rcases getElem?_concat_cases at_j with earlier | ⟨rfl, rfl⟩
  · exact least j other earlier ahead'
  · have bound := later ahead'
    omega

/-- The segment of the last header is the next one if it begins before all others. -/
theorem isNext_last {phdr : Elf32Phdr} (ahead : phdr.Ahead offset)
    (first : ∀ other ∈ phdrs, other.Ahead offset →
      phdr.pOffset.toNat < other.pOffset.toNat) : IsNext (phdrs ++ [phdr]) offset phdr := by
  refine ⟨phdrs.length, List.getElem?_concat_length, ahead, fun j other at_j ahead' => ?_⟩
  rcases getElem?_concat_cases at_j with earlier | ⟨rfl, rfl⟩
  · exact .inl (first other (List.mem_of_getElem? earlier) ahead')
  · exact .inr ⟨rfl, Nat.le_refl _⟩

/-- None of the segments begins before the next one. -/
theorem IsNext.le (next : IsNext phdrs offset segment) (member : other ∈ phdrs)
    (ahead : other.Ahead offset) : segment.pOffset.toNat ≤ other.pOffset.toNat := by
  obtain ⟨_, -, -, least⟩ := next
  obtain ⟨j, at_j⟩ := List.mem_iff_getElem?.mp member
  rcases least j other at_j ahead with less | ⟨same, -⟩
  · exact Nat.le_of_lt less
  · exact Nat.le_of_eq same

/-- One more header. -/
theorem Chosen.step {best : Option Elf32Phdr} (chosen : Chosen phdrs offset best)
    (phdr : Elf32Phdr) : Chosen (phdrs ++ [phdr]) offset (chooseSegment offset best phdr) := by
  unfold chooseSegment
  split
  · next notAhead =>
    cases best with
    | none =>
        intro other member
        rcases List.mem_append.mp member with earlier | new
        · exact chosen other earlier
        · rwa [List.mem_singleton.mp new]
    | some segment => exact IsNext.concat chosen fun ahead => absurd ahead notAhead
  · next ahead =>
    have ahead := not_not.mp ahead
    cases best with
    | none => exact isNext_last ahead fun other member ahead' => absurd ahead' (chosen other member)
    | some segment =>
        dsimp only
        split
        · next before => exact IsNext.concat chosen fun _ => UInt32.le_iff_toNat_le.mp before
        · next behind =>
          have less := UInt32.lt_iff_toNat_lt.mp (UInt32.not_le.mp behind)
          refine isNext_last ahead fun other member ahead' => ?_
          exact Nat.lt_of_lt_of_le less (IsNext.le chosen member ahead')

/-- The search finds the segment that comes next. -/
theorem nextSegment_chosen (phdrs : List Elf32Phdr) (offset : Nat) :
    Chosen phdrs offset (nextSegment phdrs offset) := by
  unfold nextSegment
  induction phdrs using List.reverseRecOn with
  | nil => exact fun _ member => absurd member List.not_mem_nil
  | append_singleton phdrs phdr ih =>
      rw [List.foldl_append]
      exact ih.step phdr

theorem IsNext.ahead (next : IsNext phdrs offset segment) : segment.Ahead offset := by
  obtain ⟨_, -, ahead, -⟩ := next
  exact ahead

/-- Without a next segment nothing more is copied. -/
theorem not_loadedFrom (none : nextSegment phdrs offset = none) :
    ¬LoadedFrom phdrs len offset segment := by
  have chosen := nextSegment_chosen phdrs offset
  rw [none] at chosen
  have nothing : ∀ first, ¬IsNext phdrs offset first := by
    rintro first ⟨i, found, ahead, -⟩
    exact chosen first (List.mem_of_getElem? found) ahead
  intro loaded
  cases loaded with
  | here next _ => exact nothing _ next
  | later next _ _ => exact nothing _ next

/-- The next segment is copied if the image has any of it, and what comes behind it if the
image has it whole. -/
theorem IsNext.loadedFrom_iff (next : IsNext phdrs offset segment) :
    LoadedFrom phdrs len offset other ↔
      (segment.pOffset.toNat < len.toNat ∧ other = segment) ∨
        (segment.pOffset.toNat + segment.pFilesz.toNat < len.toNat ∧
          LoadedFrom phdrs len (segment.pOffset.toNat + segment.pFilesz.toNat) other) := by
  constructor
  · intro loaded
    cases loaded with
    | here next' inside =>
        obtain rfl := next.unique next'
        exact .inl ⟨inside, rfl⟩
    | later next' whole behind =>
        obtain rfl := next.unique next'
        exact .inr ⟨whole, behind⟩
  · rintro (⟨inside, rfl⟩ | ⟨whole, behind⟩)
    · exact .here next inside
    · exact .later next whole behind

end Order

/-! ## Loading -/

section Download

variable {phdrs : List Elf32Phdr} {data len : UInt32} {ram : Ram}

/-- What is copied begins in the image. -/
theorem LoadedFrom.offset_lt {offset : Nat} {segment : Elf32Phdr}
    (loaded : LoadedFrom phdrs len offset segment) : offset < len.toNat := by
  cases loaded with
  | here next inside => exact Nat.lt_of_le_of_lt next.ahead.2.2 inside
  | later next whole _ =>
      have ahead := next.ahead.2.2
      omega

/-- The loop goes on with the next segment, or nothing more is copied. -/
theorem seekSegment_ends (phdrs : List Elf32Phdr) (len : UInt32) (offset : Nat) :
    (seekSegment phdrs len offset).Ends
      (fun estate => ∃ segment, estate = segment.sought offset ∧ IsNext phdrs offset segment ∧
        offset < len.toNat)
      fun _ => ∀ segment, ¬LoadedFrom phdrs len offset segment := by
  have chosen := nextSegment_chosen phdrs offset
  unfold seekSegment
  split
  · next nothing => exact fun _ => not_loadedFrom nothing
  · next segment found =>
    rw [found] at chosen
    split
    · next inside => exact ⟨segment, rfl, chosen, inside⟩
    · next atEnd => exact fun _ loaded => atEnd loaded.offset_lt

/-- What is left to copy from an offset on spares what is reserved. -/
def LeftSpares (phdrs : List Elf32Phdr) (len : UInt32) (offset : Nat) : Prop :=
  ∀ segment, LoadedFrom phdrs len offset segment → Spares (segment.loaded len)

/-- What is left is the next segment, if the image has any of it, and what is behind it, if the
image has it whole. -/
theorem IsNext.leftSpares_iff {offset : Nat} {segment : Elf32Phdr}
    (next : IsNext phdrs offset segment) :
    LeftSpares phdrs len offset ↔
      (segment.pOffset.toNat < len.toNat → Spares (segment.loaded len)) ∧
        (segment.pOffset.toNat + segment.pFilesz.toNat < len.toNat →
          LeftSpares phdrs len (segment.pOffset.toNat + segment.pFilesz.toNat)) := by
  constructor
  · intro left
    refine ⟨fun inside => left segment (.here next inside), fun whole other behind => ?_⟩
    exact left other (.later next whole behind)
  · rintro ⟨here, later⟩ other loaded
    rcases next.loadedFrom_iff.mp loaded with ⟨inside, rfl⟩ | ⟨whole, behind⟩
    · exact here inside
    · exact later whole other behind

/-- Nothing is left at the end of the image. -/
theorem leftSpares_of_le {offset : Nat} (atEnd : len.toNat ≤ offset) :
    LeftSpares phdrs len offset :=
  fun _ loaded => absurd loaded.offset_lt (Nat.not_lt.mpr atEnd)

/-- The loop copies the segments one behind the other, as far as the image has them. -/
theorem downloadLoop_ensures {offset : Nat} {segment : Elf32Phdr}
    (next : IsNext phdrs offset segment) (inside : offset < len.toNat) :
    (loop (downloadPass phdrs data len) (len.toNat + 1) (segment.sought offset)).Ensures ram
      (fun _ => False)
      fun _ after => after.Respects ↔ LeftSpares phdrs len offset ∧ ram.Respects := by
  refine loop_ensures (fun fuel estate current => ∃ place segment,
    estate = segment.sought place ∧ IsNext phdrs place segment ∧ place < len.toNat ∧
      len.toNat - place < fuel ∧ (LeftSpares phdrs len place ∧ current.Respects ↔
        LeftSpares phdrs len offset ∧ ram.Respects)) ?_ ?_
    ⟨offset, segment, rfl, next, inside, by omega, Iff.rfl⟩
  · rintro _ _ ⟨_, _, -, -, -, never, -⟩
    exact absurd never (Nat.not_lt_zero _)
  · rintro fuel _ current ⟨place, segment, rfl, next, inside, fewer, target⟩
    have ahead := next.ahead.2.2
    have filled : segment.pFilesz.toNat ≠ 0 :=
      fun zero => next.ahead.2.1 (UInt32.toNat_inj.mp zero)
    rw [next.leftSpares_iff] at target
    unfold downloadPass Elf32Phdr.sought
    dsimp only
    rw [ensures_ite]
    refine ⟨fun skipped => ?_, fun reached => ?_⟩
    · -- The segment lies behind the image.
      change current.Respects ↔ _
      rw [← target]
      exact (and_iff_right ⟨fun _ => by omega, fun _ => by omega⟩).symm
    · have start : place + (segment.pOffset.toNat - place) = segment.pOffset.toNat := by omega
      have inImage : segment.pOffset.toNat < len.toNat := by omega
      rw [forall_prop_of_true inImage] at target
      rw [start, ensures_bind, ensures_copy, ensures_ite]
      refine ⟨fun cutOff => ?_, fun whole => ?_⟩
      · -- The image ends in the segment.
        have last : segment.pOffset.toNat + segment.pFilesz.toNat < len.toNat →
            LeftSpares phdrs len (segment.pOffset.toNat + segment.pFilesz.toNat) :=
          fun _ => by omega
        rw [and_iff_left last] at target
        exact respects_move.trans target
      · have length : min (len.toNat - segment.pOffset.toNat) segment.pFilesz.toNat =
            segment.pFilesz.toNat := by omega
        have behind_iff : (segment.pOffset.toNat + segment.pFilesz.toNat < len.toNat →
            LeftSpares phdrs len (segment.pOffset.toNat + segment.pFilesz.toNat)) ↔
            LeftSpares phdrs len (segment.pOffset.toNat + segment.pFilesz.toNat) :=
          ⟨fun left => (Nat.lt_or_ge _ _).elim left leftSpares_of_le, fun left _ => left⟩
        rw [behind_iff] at target
        rw [ensures_pure, length]
        refine (seekSegment_ends phdrs len _).mono ?_ ?_
        · rintro estate ⟨following, rfl, next', inside'⟩
          refine ⟨_, following, rfl, next', inside', by omega, ?_⟩
          rw [respects_move, ← target, ← length]
          exact and_left_comm.trans and_assoc.symm
        · intro _ nothing
          have rest : LeftSpares phdrs len (segment.pOffset.toNat + segment.pFilesz.toNat) :=
            fun other loaded => absurd loaded (nothing other)
          rw [← target, respects_move, and_iff_left rest, ← length]
          exact Iff.rfl

/-- The ramdisk is moved to where the loaders read an initrd. -/
def RamdiskSpares (phdrs : List Elf32Phdr) : Prop :=
  ∀ ramdisk, phdrs[5]? = some ramdisk → ramdisk.pFilesz ≠ 0 → ramdisk.pPaddr ≠ 0 →
    Spares ⟨initrdStart, ramdisk.pFilesz.toNat⟩

theorem startKernel_ensures (phdrs : List Elf32Phdr) :
    (startKernel phdrs).Ensures ram
      (fun after => after.Respects ↔ RamdiskSpares phdrs ∧ ram.Respects) fun _ _ => False := by
  unfold startKernel RamdiskSpares
  cases phdrs[5]? with
  | none => simp
  | some ramdisk =>
      dsimp only
      rw [ensures_ite]
      refine ⟨fun moved => ?_, fun unmoved => ?_⟩
      · rw [ensures_bind, ensures_copy, ensures_stuck, respects_move]
        simp [moved]
      · rw [ensures_stuck]
        refine ⟨fun respects => ⟨?_, respects⟩, And.right⟩
        rintro _ ⟨rfl⟩ filled placed
        exact absurd ⟨filled, placed⟩ unmoved

/-- A kernel is loaded and started, and never comes back. -/
theorem elf32Download_ensures (phdrs : List Elf32Phdr) :
    (elf32Download phdrs data len).Ensures ram
      (fun after => after.Respects ↔
        LeftSpares phdrs len 0 ∧ RamdiskSpares phdrs ∧ ram.Respects) fun _ _ => False := by
  have sought := seekSegment_ends phdrs len 0
  unfold elf32Download
  cases seek : seekSegment phdrs len 0 with
  | leave done =>
      rw [seek] at sought
      refine (startKernel_ensures phdrs).mono ?_ fun _ _ never => never
      intro after respects
      rw [respects]
      exact (and_iff_right fun segment loaded => absurd loaded (sought segment)).symm
  | next estate =>
      rw [seek] at sought
      obtain ⟨segment, rfl, next, inside⟩ := sought
      refine ((downloadLoop_ensures next inside).mono (fun _ never => never.elim)
        fun _ _ held => held).andThen ?_
      intro _ after respects
      refine (startKernel_ensures phdrs).mono ?_ fun _ _ never => never
      intro last respects'
      rw [respects', respects]
      exact and_left_comm

end Download

/-! ## Images -/

/-- The program headers of an image that is accepted. -/
def elfHeaders (memory : Memory) (image len : UInt32) : Option (List Elf32Phdr) :=
  if word memory image = 0x464c457f then elf32Headers memory image len else none

/-- The loader comes back: it does not accept the image, or a segment does not fit. -/
def ElfReturns (memory : Memory) (image len : UInt32) : Prop :=
  ∀ phdrs, elfHeaders memory image len = some phdrs →
    NotesEnd memory image len phdrs ∧ ¬AllFit phdrs

/-- The memory the loader comes back with. -/
def elfRefused (memory : Memory) (image len : UInt32) : Memory :=
  (elfHeaders memory image len).elim memory fun phdrs => clearBss (cleared phdrs) memory

/-- What is reserved is spared where segments are cleared, and, if they all fit, where they
and the ramdisk are copied to. -/
structure ImageSpares (phdrs : List Elf32Phdr) (len : UInt32) : Prop where
  cleared : ∀ phdr ∈ cleared phdrs, Spares phdr.bss
  loaded : AllFit phdrs → LeftSpares phdrs len 0
  ramdisk : AllFit phdrs → RamdiskSpares phdrs

/-- Whatever becomes of the image, what is reserved is spared. -/
def ElfSpares (memory : Memory) (image len : UInt32) : Prop :=
  ∀ phdrs, elfHeaders memory image len = some phdrs → NotesEnd memory image len phdrs →
    ImageSpares phdrs len

section Images

variable {image len : UInt32} {ram : Ram}

/-- A file that is shorter than a header is not accepted. -/
theorem elfReturns_of_short {memory : Memory} (short : len < 52) :
    ElfReturns memory image len := by
  intro phdrs accepted
  rw [elfHeaders, elf32Headers, if_pos short, ite_self] at accepted
  cases accepted

/-- What a probe of an accepted image has come to. -/
structure Probed (ram : Ram) (image len : UInt32) (phdrs : List Elf32Phdr)
    (found : Option (List Elf32Phdr)) (after : Ram) : Prop where
  ends : NotesEnd ram.memory image len phdrs
  writes : after.writes = ram.writes
  memory : after.memory = clearBss (cleared phdrs) ram.memory
  respects : after.Respects ↔ (∀ phdr ∈ cleared phdrs, Spares phdr.bss) ∧ ram.Respects
  result : (found = some phdrs ∧ AllFit phdrs) ∨ (found = none ∧ ¬AllFit phdrs)

theorem probeImage_ensures (image len : UInt32) :
    (probeImage image len).Ensures ram
      (fun after => after = ram ∧ ∃ phdrs, elf32Headers ram.memory image len = some phdrs ∧
        ¬NotesEnd ram.memory image len phdrs)
      fun found after =>
        (elf32Headers ram.memory image len = none ∧ found = none ∧ after = ram) ∨
          ∃ phdrs, elf32Headers ram.memory image len = some phdrs ∧
            Probed ram image len phdrs found after := by
  unfold probeImage
  rw [ensures_bind, ensures_look]
  cases headers : elf32Headers ram.memory image len with
  | none => exact .inl ⟨rfl, rfl, rfl⟩
  | some phdrs =>
      dsimp only
      rw [ensures_bind]
      refine (elfNotes_ensures phdrs).mono ?_ ?_
      · rintro after ⟨rfl, endless⟩
        exact ⟨rfl, phdrs, rfl, endless⟩
      · rintro _ _ ⟨rfl, ends⟩
        refine ((prepSegments_ensures phdrs).mono (fun _ never => never.elim)
          fun _ _ held => held).andThen ?_
        rintro fit after ⟨fit_iff, writes, memory, respects⟩
        refine .inr ⟨phdrs, rfl, ends, writes, memory, respects, ?_⟩
        by_cases all : AllFit phdrs
        · exact .inl ⟨if_pos (fit_iff.mpr all), all⟩
        · exact .inr ⟨if_neg (mt fit_iff.mp all), all⟩

/-- The loader comes back from the images it refuses, and it spares what is reserved exactly
if the image does. -/
theorem tryElfBoot_ensures (image len : UInt32) :
    (tryElfBoot image len).Ensures ram
      (fun after => ¬ElfReturns ram.memory image len ∧
        (after.Respects ↔ ElfSpares ram.memory image len ∧ ram.Respects))
      fun _ after => ElfReturns ram.memory image len ∧ after.writes = ram.writes ∧
        after.memory = elfRefused ram.memory image len ∧
        (after.Respects ↔ ElfSpares ram.memory image len ∧ ram.Respects) := by
  unfold tryElfBoot
  rw [ensures_bind, ensures_look, ensures_ite]
  -- An image without headers is left alone.
  have without : elfHeaders ram.memory image len = none →
      ElfReturns ram.memory image len ∧ ram.writes = ram.writes ∧
        ram.memory = elfRefused ram.memory image len ∧
        (ram.Respects ↔ ElfSpares ram.memory image len ∧ ram.Respects) := by
    intro none
    simp [ElfReturns, elfRefused, ElfSpares, none]
  refine ⟨fun other => without (if_neg other), fun magic => ?_⟩
  have headers : elfHeaders ram.memory image len = elf32Headers ram.memory image len :=
    if_pos (not_not.mp magic)
  rw [ensures_bind]
  refine (probeImage_ensures image len).mono ?_ ?_
  · rintro after ⟨rfl, phdrs, accepted, endless⟩
    refine ⟨fun returns => endless (returns phdrs (headers.trans accepted)).1, ?_⟩
    refine (and_iff_right fun others accepted' ends => ?_).symm
    rw [headers, accepted] at accepted'
    cases accepted'
    exact absurd ends endless
  · rintro found after (⟨rejected, rfl, rfl⟩ | ⟨phdrs, accepted, probed⟩)
    · exact without (headers.trans rejected)
    · obtain ⟨ends, writes, memory, respects, result⟩ := probed
      have spares_iff : ElfSpares ram.memory image len ↔ ImageSpares phdrs len := by
        simp [ElfSpares, headers, accepted, ends]
      rcases result with ⟨rfl, all⟩ | ⟨rfl, misfit⟩
      · refine (elf32Download_ensures phdrs).mono ?_ fun _ _ never => never.elim
        intro last respects'
        refine ⟨fun returns => (returns phdrs (headers.trans accepted)).2 all, ?_⟩
        rw [respects', respects, spares_iff]
        constructor
        · rintro ⟨loaded, ramdisk, cleared, before⟩
          exact ⟨⟨cleared, fun _ => loaded, fun _ => ramdisk⟩, before⟩
        · rintro ⟨⟨cleared, loaded, ramdisk⟩, before⟩
          exact ⟨loaded all, ramdisk all, cleared, before⟩
      · refine ⟨fun others accepted' => ?_, writes, ?_, ?_⟩
        · rw [headers, accepted] at accepted'
          cases accepted'
          exact ⟨ends, misfit⟩
        · rw [memory, elfRefused, headers, accepted, Option.elim_some]
        · rw [respects, spares_iff]
          constructor
          · rintro ⟨cleared, before⟩
            exact ⟨⟨cleared, fun all => absurd all misfit, fun all => absurd all misfit⟩, before⟩
          · rintro ⟨spares, before⟩
            exact ⟨spares.cleared, before⟩

end Images

end Cromwell.Etherboot
