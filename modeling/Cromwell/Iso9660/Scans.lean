import Cromwell.Iso9660.ReadDir

/-!
# The scan of a directory

Where the records of a directory are does not depend on what is looked for: the search only
leaves at the first of them that leads to it. A directory that has no such record is scanned
to its end.
-/

namespace Cromwell.Iso9660

open Cromwell.Std

section Scans

variable (search filename : List Byte) (buffer : Memory) (readSize : UInt32)

/-- The path of the record a scan stands at. -/
def Scan.path (scan : Scan) : List Byte :=
  newfilename filename scan.last buffer scan.offset.toNat

/-- Where a scan goes on. -/
def Scan.advance (scan : Scan) : Scan :=
  if dirLength buffer scan.offset.toNat = 0 then { scan with offset := nextBlock scan.offset }
  else ⟨scan.offset + (dirLength buffer scan.offset.toNat).toUInt32, scan.path filename buffer⟩

/-- Where a scan comes if the search does not leave the directory. -/
inductive Scanned : Scan → Prop where
  | first : Scanned ⟨0, []⟩
  | next {scan : Scan} (before : Scanned scan) (inside : scan.offset < readSize) :
      Scanned (scan.advance filename buffer)

/-- There is a record where the scan stands. -/
def Scan.HasRecord (scan : Scan) : Prop :=
  scan.offset < readSize ∧ dirLength buffer scan.offset.toNat ≠ 0

/-- A record that has the path looked for. -/
def Matches (scan : Scan) : Prop :=
  scan.HasRecord buffer readSize ∧ scan.path filename buffer = search

/-- A record the search goes on below of. -/
def Descends (scan : Scan) : Prop :=
  scan.HasRecord buffer readSize ∧ IsSearched buffer scan.offset.toNat ∧
    Continues search (scan.path filename buffer)

/-- The search leaves the directory where it gets to such a record. -/
def Leads (scan : Scan) : Prop :=
  Matches search filename buffer readSize scan ∨ Descends search filename buffer readSize scan

/-- Where the search comes in a directory. -/
inductive Comes : Scan → Prop where
  | first : Comes ⟨0, []⟩
  | next {scan : Scan} (before : Comes scan) (inside : scan.offset < readSize)
      (past : ¬Leads search filename buffer readSize scan) : Comes (scan.advance filename buffer)

instance (scan : Scan) : Decidable (scan.HasRecord buffer readSize) :=
  inferInstanceAs (Decidable (_ ∧ _))

instance (scan : Scan) : Decidable (Matches search filename buffer readSize scan) :=
  inferInstanceAs (Decidable (_ ∧ _))

instance (scan : Scan) : Decidable (Descends search filename buffer readSize scan) :=
  inferInstanceAs (Decidable (_ ∧ _))

instance (scan : Scan) : Decidable (Leads search filename buffer readSize scan) :=
  inferInstanceAs (Decidable (_ ∨ _))

end Scans

section Passes

variable {search filename : List Byte} {buffer : Memory} {readSize : UInt32} {scan : Scan}
  {fuel : Nat} {ended : ScanEnd}

/-- How the scan ends at a record that leads to what is looked for. -/
def leadEnd (search filename : List Byte) (buffer : Memory) (scan : Scan) : ScanEnd :=
  if scan.path filename buffer = search then .found scan.offset.toNat
  else .descend scan.offset.toNat (scan.path filename buffer)

/-- What a pass does: behind the end it leaves, at a record that leads on it leaves with that
record, elsewhere it goes on. -/
theorem scanRecord_eq : scanRecord search filename buffer readSize scan =
    if scan.offset < readSize then
      if Leads search filename buffer readSize scan then
        .leave (leadEnd search filename buffer scan)
      else .next (scan.advance filename buffer)
    else .leave .atEnd := by
  unfold scanRecord
  by_cases inside : scan.offset < readSize
  · rw [if_pos inside, if_pos inside]
    dsimp only
    by_cases zero : dirLength buffer scan.offset.toNat = 0
    · have none : ¬Leads search filename buffer readSize scan := by
        rintro (⟨record, -⟩ | ⟨record, -⟩)
        · exact record.2 zero
        · exact record.2 zero
      rw [if_pos zero, if_neg none, Scan.advance, if_pos zero]
    · have record : scan.HasRecord buffer readSize := ⟨inside, zero⟩
      rw [if_neg zero, Scan.advance, if_neg zero, leadEnd]
      change (if scan.path filename buffer = search then _ else
        if IsSearched buffer scan.offset.toNat ∧ Continues search (scan.path filename buffer)
        then _ else _) = _
      by_cases same : scan.path filename buffer = search
      · have leads : Leads search filename buffer readSize scan := .inl ⟨record, same⟩
        rw [if_pos same, if_pos leads, if_pos same]
      · rw [if_neg same, if_neg same]
        by_cases below : IsSearched buffer scan.offset.toNat ∧
            Continues search (scan.path filename buffer)
        · have leads : Leads search filename buffer readSize scan := .inr ⟨record, below⟩
          rw [if_pos below, if_pos leads]
          rfl
        · have none : ¬Leads search filename buffer readSize scan := by
            rintro (⟨-, matched⟩ | ⟨-, descends⟩)
            · exact same matched
            · exact below descends
          rw [if_neg below, if_neg none]
          rfl
  · rw [if_neg inside, if_neg inside]

theorem leadEnd_ne_over : leadEnd search filename buffer scan ≠ .atEnd := by
  unfold leadEnd
  split
  · exact ScanEnd.noConfusion
  · exact ScanEnd.noConfusion

theorem Comes.scanned (comes : Comes search filename buffer readSize scan) :
    Scanned filename buffer readSize scan := by
  induction comes with
  | first => exact .first
  | next before inside past ih => exact .next ih inside

/-- What the end of a scan says about the records of the directory. -/
structure EndsAt (search filename : List Byte) (buffer : Memory) (readSize : UInt32)
    (ended : ScanEnd) : Prop where
  atEnd : ended = .atEnd → ∀ scan, Scanned filename buffer readSize scan →
    ¬Leads search filename buffer readSize scan
  leads : ended ≠ .atEnd → ∃ scan, Comes search filename buffer readSize scan ∧
    Leads search filename buffer readSize scan ∧ ended = leadEnd search filename buffer scan

/-- A scan that comes to the end has come past every record. -/
theorem Scanned.leaves_over (scanned : Scanned filename buffer readSize scan)
    (left : whileLoop (scanRecord search filename buffer readSize) fuel ⟨0, []⟩ = .leave .atEnd) :
    ∃ fuel, whileLoop (scanRecord search filename buffer readSize) fuel scan = .leave .atEnd := by
  induction scanned with
  | first => exact ⟨fuel, left⟩
  | @next scan before inside ih =>
      obtain ⟨rest, atEnd⟩ := ih
      cases rest with
      | zero => cases atEnd
      | succ rest =>
          rw [whileLoop_succ, scanRecord_eq, if_pos inside] at atEnd
          by_cases leads : Leads search filename buffer readSize scan
          · rw [if_pos leads] at atEnd
            exact absurd (Pass.leave.inj atEnd) leadEnd_ne_over
          · rw [if_neg leads] at atEnd
            exact ⟨rest, atEnd⟩

/-- Where a scan leaves the directory. -/
theorem scan_endsAt
    (left : whileLoop (scanRecord search filename buffer readSize) fuel ⟨0, []⟩ = .leave ended) :
    EndsAt search filename buffer readSize ended := by
  refine ⟨?_, ?_⟩
  · rintro rfl scan scanned leads
    obtain ⟨rest, atEnd⟩ := scanned.leaves_over left
    have inside : scan.offset < readSize := by
      rcases leads with ⟨record, -⟩ | ⟨record, -⟩
      · exact record.1
      · exact record.1
    cases rest with
    | zero => cases atEnd
    | succ rest =>
        rw [whileLoop_succ, scanRecord_eq, if_pos inside, if_pos leads] at atEnd
        exact leadEnd_ne_over (Pass.leave.inj atEnd)
  · have exits : (whileLoop (scanRecord search filename buffer readSize) fuel ⟨0, []⟩).Ends
        (Comes search filename buffer readSize) fun ended => ended ≠ .atEnd →
          ∃ scan, Comes search filename buffer readSize scan ∧
            Leads search filename buffer readSize scan ∧
            ended = leadEnd search filename buffer scan := by
      apply whileLoop_ends .first
      intro scan comes
      rw [scanRecord_eq]
      split
      · next inside =>
        split
        · next leads => exact fun _ => ⟨scan, comes, leads, rfl⟩
        · next past => exact .next comes inside past
      · exact fun different => absurd rfl different
    rw [left] at exits
    exact exits

end Passes

end Cromwell.Iso9660
