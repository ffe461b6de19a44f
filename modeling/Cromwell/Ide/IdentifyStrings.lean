import Cromwell.Ide.HddKey
import Cromwell.Std.Pairs

/-!
# The strings of IDENTIFY

`copy_swap_trim` copies a string of the IDENTIFY block, whose words have their bytes the other
way round, and cuts the spaces at its end. A byte of the source is lost where it has been
written over before it is read, and a string of nothing but spaces is not terminated.
`BootIdeDriveInit` keeps the lengths that are returned, for the key of the drive.
-/

namespace Cromwell.Ide

open Cromwell.Std

/-! ## copy_swap_trim -/

/-- The loop that swaps, with as many passes still to come. -/
def copySwap (dst src : Nat) : (passes i : Nat) → Memory → Memory
  | 0, _, memory => memory
  | passes + 1, i, memory =>
    let tmp := memory (src + i)
    let memory := memory.set (dst + i) (memory (src + (i + 1)))
    let memory := memory.set (dst + (i + 1)) tmp
    copySwap dst src passes (i + 2) memory

/-- The loop that looks for the end. `dst` has been decremented there, so that `dst[i]` is
the byte in front of place `i`. -/
def copyTrim (dst : Nat) (memory : Memory) : (i : Nat) → Nat × Memory
  | 0 => (0, memory)
  | i + 1 =>
    if memory (dst + i) ≠ 0x20 then (i + 1, memory.set (dst + (i + 1)) 0)
    else copyTrim dst memory i

/-- The length returned, and memory with the string at `dst`. -/
def copySwapTrim (memory : Memory) (dst src len : Nat) : Nat × Memory :=
  copyTrim dst (copySwap dst src ((len + 1) / 2) 0 memory) len

/-! ## What it is for -/

/-- A string of the IDENTIFY block: the bytes of each word swapped, without the spaces at the
end. -/
def identifyString (stored : List Byte) : List Byte := (swapPairs stored).rdropWhile (· = 0x20)

/-- The string is at `dst` and terminated, and its length is returned. -/
structure Normalises (memory : Memory) (dst src len : Nat) : Prop where
  length : (copySwapTrim memory dst src len).1 =
    (identifyString (memory.bytes src len)).length
  kept : (copySwapTrim memory dst src len).2.bytes dst
      (identifyString (memory.bytes src len)).length =
    identifyString (memory.bytes src len)
  terminated : (copySwapTrim memory dst src len).2
    (dst + (identifyString (memory.bytes src len)).length) = 0

/-- Byte `k` of the source is in the destination where an earlier pass has written. -/
def WrittenOver (dst src k : Nat) : Prop := dst ≤ src + k ∧ src + k < dst + k / 2 * 2

instance (dst src k : Nat) : Decidable (WrittenOver dst src k) :=
  inferInstanceAs (Decidable (_ ∧ _))

/-- What is written over a byte of the source before it is read is that byte. -/
def SourceKept (memory : Memory) (dst src len : Nat) : Prop :=
  ∀ k < len, WrittenOver dst src k →
    memory (src + partner (src + k - dst)) = memory (src + k)

/-- Some byte is not a space. -/
def HasText (bytes : List Byte) : Prop := ∃ c ∈ bytes, c ≠ 0x20

instance (bytes : List Byte) : Decidable (HasText bytes) :=
  inferInstanceAs (Decidable (∃ c ∈ bytes, c ≠ 0x20))

section Swap

variable {memory current : Memory} {dst src len moved : Nat}

/-- The first bytes have been swapped into place, each as it was read then. -/
structure Swapped (memory : Memory) (dst src moved : Nat) (current : Memory) : Prop where
  outside : ∀ x, x < dst ∨ dst + moved ≤ x → current x = memory x
  inside : ∀ k < moved, current (dst + partner k) =
    if WrittenOver dst src k then current (src + k) else memory (src + k)

theorem swapped_zero : Swapped memory dst src 0 memory :=
  ⟨fun _ _ => rfl, fun _ inside => absurd inside (Nat.not_lt_zero _)⟩

/-- One more pair. -/
theorem Swapped.next (done : Swapped memory dst src moved current) (even : 2 ∣ moved) :
    Swapped memory dst src (moved + 2)
      ((current.set (dst + moved) (current (src + (moved + 1)))).set (dst + (moved + 1))
        (current (src + moved))) := by
  -- A byte is read where nothing has been written yet, or where it stays as it is.
  have unread : ∀ k, k / 2 * 2 = moved → current (src + k) =
      if WrittenOver dst src k then ((current.set (dst + moved) (current (src + (moved + 1)))).set
        (dst + (moved + 1)) (current (src + moved))) (src + k) else memory (src + k) := by
    intro k pair
    by_cases written : WrittenOver dst src k
    · obtain ⟨lower, upper⟩ := written
      rw [if_pos ⟨lower, upper⟩, Memory.set_other _ (by omega), Memory.set_other _ (by omega)]
    · rw [if_neg written]
      apply done.outside
      unfold WrittenOver at written
      omega
  constructor
  · intro x beyond
    rw [Memory.set_other _ (by omega), Memory.set_other _ (by omega)]
    exact done.outside x (by omega)
  · intro k bound
    by_cases earlier : k < moved
    · have pair := partner_div k
      have kept := done.inside k earlier
      rw [Memory.set_other _ (by omega), Memory.set_other _ (by omega), kept]
      by_cases written : WrittenOver dst src k
      · have between := written
        obtain ⟨lower, upper⟩ := between
        rw [if_pos written, if_pos written, Memory.set_other _ (by omega),
          Memory.set_other _ (by omega)]
      · rw [if_neg written, if_neg written]
    · obtain rfl | rfl : k = moved ∨ k = moved + 1 := by omega
      · have second : partner k = k + 1 := by
          unfold partner
          rw [if_pos (by omega)]
        rw [second, Memory.set_same]
        exact unread k (by omega)
      · have first : partner (moved + 1) = moved := by
          unfold partner
          rw [if_neg (by omega), Nat.add_sub_cancel]
        rw [first, Memory.set_other _ (by omega), Memory.set_same]
        exact unread (moved + 1) (by omega)

theorem swapped_copySwap (passes : Nat) (done : Swapped memory dst src moved current)
    (even : 2 ∣ moved) :
    Swapped memory dst src (moved + 2 * passes) (copySwap dst src passes moved current) := by
  induction passes generalizing moved current with
  | zero => exact done
  | succ passes ih =>
      have total : moved + 2 * (passes + 1) = moved + 2 + 2 * passes := by omega
      rw [copySwap, total]
      exact ih (done.next even) (by omega)

/-- What the source held is at the place of the partner, if what was written over it agrees. -/
theorem Swapped.partner_eq (done : Swapped memory dst src len current)
    (keeps : SourceKept memory dst src len) (k : Nat) (bound : k < len) :
    current (dst + partner k) = memory (src + k) := by
  -- A byte that has been written over is the swapped byte of an earlier pair.
  induction k using Nat.strong_induction_on with
  | h k ih =>
      have placed := done.inside k bound
      by_cases written : WrittenOver dst src k
      · have pair := partner_div (src + k - dst)
        have agrees := keeps k bound written
        obtain ⟨lower, upper⟩ := written
        have earlier := ih (partner (src + k - dst)) (by omega) (by omega)
        have place : dst + (src + k - dst) = src + k := by omega
        rw [partner_partner, place, agrees] at earlier
        rw [placed, if_pos ⟨lower, upper⟩, earlier]
      · rw [placed, if_neg written]

/-- The bytes in place are those of the source exactly where it is kept. -/
theorem Swapped.inside_iff (done : Swapped memory dst src len current) (even : 2 ∣ len) :
    (∀ k < len, current (dst + k) = memory (src + partner k)) ↔
      SourceKept memory dst src len := by
  constructor
  · intro inPlace k bound written
    have placed := done.inside k bound
    have own := inPlace (partner k) (partner_lt even bound)
    obtain ⟨lower, upper⟩ := written
    have beneath := inPlace (src + k - dst) (by omega)
    have place : dst + (src + k - dst) = src + k := by omega
    rw [if_pos ⟨lower, upper⟩] at placed
    rw [place] at beneath
    rw [partner_partner] at own
    rw [← beneath, ← placed, own]
  · intro keeps k bound
    have placed := done.partner_eq keeps (partner k) (partner_lt even bound)
    rwa [partner_partner] at placed

/-- A range that holds the pairs of another one swapped. -/
theorem bytes_eq_swapPairs_iff (even : 2 ∣ len) :
    current.bytes dst len = swapPairs (memory.bytes src len) ↔
      ∀ k < len, current (dst + k) = memory (src + partner k) := by
  have read : ∀ k < len, (swapPairs (memory.bytes src len))[k]? =
      some (memory (src + partner k)) := by
    intro k bound
    rw [getElem?_swapPairs (by simpa using even), Memory.getElem?_bytes _ _ (partner_lt even bound)]
  constructor
  · intro same k bound
    have item := congrArg (·[k]?) same
    simpa only [Memory.getElem?_bytes _ _ bound, read k bound, Option.some.injEq] using item
  · intro inPlace
    apply List.ext_getElem?
    intro k
    by_cases bound : k < len
    · rw [Memory.getElem?_bytes _ _ bound, read k bound, inPlace k bound]
    · rw [List.getElem?_eq_none (by simpa using bound),
        List.getElem?_eq_none (by simpa using bound)]

/-- The loop as it is called. -/
theorem swapped_whole (memory : Memory) (dst src : Nat) {len : Nat} (even : 2 ∣ len) :
    Swapped memory dst src len (copySwap dst src ((len + 1) / 2) 0 memory) := by
  have done := swapped_copySwap ((len + 1) / 2) (@swapped_zero memory dst src) (Nat.dvd_zero 2)
  have total : 0 + 2 * ((len + 1) / 2) = len := by omega
  rwa [total] at done

/-- The source is copied whole exactly where it is kept. -/
theorem copySwap_bytes_iff (memory : Memory) (dst src : Nat) {len : Nat} (even : 2 ∣ len) :
    (copySwap dst src ((len + 1) / 2) 0 memory).bytes dst len = swapPairs (memory.bytes src len) ↔
      SourceKept memory dst src len :=
  (bytes_eq_swapPairs_iff even).trans ((swapped_whole memory dst src even).inside_iff even)

end Swap

section Trim

variable (memory : Memory) (dst : Nat)

/-- The end that is found is that of the string without its spaces. -/
theorem copyTrim_length (i : Nat) :
    (copyTrim dst memory i).1 = ((memory.bytes dst i).rdropWhile (· = 0x20)).length := by
  induction i with
  | zero => simp [copyTrim, Memory.bytes]
  | succ i ih =>
      have last : memory.bytes dst (i + 1) = memory.bytes dst i ++ [memory (dst + i)] :=
        memory.bytes_add dst i 1
      rw [copyTrim, last, List.rdropWhile_concat]
      by_cases space : memory (dst + i) = 0x20
      · simp [space, ih]
      · simp [space]

theorem copyTrim_le (i : Nat) : (copyTrim dst memory i).1 ≤ i := by
  have shorter := (List.rdropWhile_prefix (fun c => decide (c = 0x20))
    (memory.bytes dst i)).length_le
  rw [Memory.length_bytes] at shorter
  rw [copyTrim_length]
  exact shorter

/-- The terminator is stored behind the string, unless there is no string. -/
theorem copyTrim_memory (i : Nat) :
    (copyTrim dst memory i).2 = if (copyTrim dst memory i).1 = 0 then memory
      else memory.set (dst + (copyTrim dst memory i).1) 0 := by
  induction i with
  | zero => rfl
  | succ i ih =>
      rw [copyTrim]
      split
      · rfl
      · exact ih

/-- What the returned length leaves of the range. -/
theorem copyTrim_bytes (i : Nat) :
    (copyTrim dst memory i).2.bytes dst (copyTrim dst memory i).1 =
      (memory.bytes dst i).rdropWhile (· = 0x20) := by
  have front : (copyTrim dst memory i).2.bytes dst (copyTrim dst memory i).1 =
      memory.bytes dst (copyTrim dst memory i).1 := by
    apply Memory.bytes_congr
    intro k bound
    rw [copyTrim_memory]
    split
    · rfl
    · rw [Memory.set_other _ (by omega)]
  have taken := take_length_rdropWhile 0x20 (memory.bytes dst i)
  rwa [← copyTrim_length, Memory.take_bytes, Nat.min_eq_left (copyTrim_le memory dst i),
    ← front] at taken

end Trim

/-! ## A call -/

section Call

variable {memory : Memory} {dst src len x : Nat}

theorem copySwapTrim_outside (even : 2 ∣ len) (outside : x < dst ∨ dst + len < x) :
    (copySwapTrim memory dst src len).2 x = memory x := by
  have untouched := (swapped_whole memory dst src even).outside x (by omega)
  have within := copyTrim_le (copySwap dst src ((len + 1) / 2) 0 memory) dst len
  rw [copySwapTrim, copyTrim_memory]
  split
  · exact untouched
  · rw [Memory.set_other _ (by omega), untouched]

/-- What is left is the string exactly where the source is kept. -/
theorem copySwapTrim_bytes_iff (even : 2 ∣ len) :
    (copySwapTrim memory dst src len).2.bytes dst (copySwapTrim memory dst src len).1 =
      identifyString (memory.bytes src len) ↔ SourceKept memory dst src len := by
  rw [copySwapTrim, copyTrim_bytes, ← copySwap_bytes_iff memory dst src even]
  constructor
  · intro trimmed
    exact eq_of_rdropWhile_eq (by simp) trimmed
  · intro copied
    rw [copied, identifyString]

theorem identifyString_ne_nil_iff (stored : List Byte) :
    identifyString stored ≠ [] ↔ HasText stored := by
  rw [identifyString, Ne, List.rdropWhile_eq_nil_iff]
  simp [HasText, (swapPairs_perm stored).mem_iff]

theorem copySwapTrim_length (even : 2 ∣ len) (keeps : SourceKept memory dst src len) :
    (copySwapTrim memory dst src len).1 = (identifyString (memory.bytes src len)).length := by
  rw [copySwapTrim, copyTrim_length, (copySwap_bytes_iff memory dst src even).mpr keeps,
    identifyString]

/-- The terminator is missing where there is no text, unless a zero was there already. -/
theorem copySwapTrim_terminated_iff (even : 2 ∣ len) (keeps : SourceKept memory dst src len) :
    (copySwapTrim memory dst src len).2 (dst + (copySwapTrim memory dst src len).1) = 0 ↔
      HasText (memory.bytes src len) ∨ len = 0 ∧ memory dst = 0 := by
  have whole := swapped_whole memory dst src even
  have returned := copySwapTrim_length even keeps
  have stored := copyTrim_memory (copySwap dst src ((len + 1) / 2) 0 memory) dst len
  rw [← copySwapTrim] at stored
  by_cases text : HasText (memory.bytes src len)
  · have nonzero : (copySwapTrim memory dst src len).1 ≠ 0 := by
      rw [returned, Ne, List.length_eq_zero_iff]
      exact (identifyString_ne_nil_iff _).mpr text
    rw [stored, if_neg nonzero, Memory.set_same]
    simp [text]
  · have zero : (copySwapTrim memory dst src len).1 = 0 := by
      rw [returned, List.length_eq_zero_iff]
      exact not_not.mp (mt (identifyString_ne_nil_iff _).mp text)
    rw [stored, if_pos zero, zero, Nat.add_zero dst]
    obtain rfl | positive := Nat.eq_zero_or_pos len
    · rw [whole.outside dst (by omega)]
      simp [text]
    · have first := (whole.inside_iff even).mpr keeps 0 positive
      have inSource : memory (src + partner 0) ∈ memory.bytes src len :=
        List.mem_map.mpr ⟨partner 0, List.mem_range.mpr (partner_lt even positive), rfl⟩
      have space : memory (src + partner 0) = 0x20 := by
        by_contra other
        exact text ⟨_, inSource, other⟩
      rw [Nat.add_zero dst, space] at first
      rw [first]
      simp [text, Nat.ne_of_gt positive]

/-- A call does what it is for unless the source is changed on the way, or is all spaces. -/
theorem normalises_iff (even : 2 ∣ len) :
    Normalises memory dst src len ↔ SourceKept memory dst src len ∧
      (HasText (memory.bytes src len) ∨ len = 0 ∧ memory dst = 0) := by
  constructor
  · intro ⟨length, kept, terminated⟩
    rw [← length] at kept terminated
    have keeps := (copySwapTrim_bytes_iff even).mp kept
    exact ⟨keeps, (copySwapTrim_terminated_iff even keeps).mp terminated⟩
  · intro ⟨keeps, ends⟩
    have length := copySwapTrim_length even keeps
    have kept := (copySwapTrim_bytes_iff even).mpr keeps
    have terminated := (copySwapTrim_terminated_iff even keeps).mpr ends
    rw [length] at kept terminated
    exact ⟨length, kept, terminated⟩

theorem copySwapTrim_le (memory : Memory) (dst src len : Nat) :
    (copySwapTrim memory dst src len).1 ≤ len :=
  copyTrim_le _ dst len

/-- Nothing is written over too early in place, or between ranges that are apart. -/
theorem sourceKept_of_apart (memory : Memory)
    (apart : dst ≤ src ∨ src + len ≤ dst) : SourceKept memory dst src len := by
  intro k bound written
  obtain ⟨lower, upper⟩ := written
  omega

end Call

/-! ## The strings of a drive -/

/-- The end of `BootIdeDriveInit` for the words of `drive_info`: what is kept for the password
of the drive, and memory with the strings. They are at 13, 55 and 77 of `tsaHarddiskInfo`, and
the lengths are kept in a byte. -/
def bootIdeDriveInitStrings (memory : Memory) (tsaHarddiskInfo driveInfo : Nat) :
    TsHarddiskInfo × Memory :=
  let serial := copySwapTrim memory (tsaHarddiskInfo + 55) (driveInfo + 2 * 10) 20
  let model := copySwapTrim serial.2 (tsaHarddiskInfo + 13) (driveInfo + 2 * 27) 40
  let firmware := copySwapTrim model.2 (tsaHarddiskInfo + 77) (driveInfo + 2 * 23) 8
  ({ mSzIdentityModelNumber := Vector.ofFn fun k : Fin 40 => firmware.2 (tsaHarddiskInfo + 13 + k)
     mSzSerial := Vector.ofFn fun k : Fin 20 => firmware.2 (tsaHarddiskInfo + 55 + k)
     mLength := model.1 % 0x100
     sLength := serial.1 % 0x100
     mLength_le := (Nat.mod_le _ _).trans (copySwapTrim_le _ _ _ _)
     sLength_le := (Nat.mod_le _ _).trans (copySwapTrim_le _ _ _ _) }, firmware.2)

section Drive

variable {memory current final : Memory} {dst src len tsaHarddiskInfo driveInfo : Nat}

/-- The front of a field that is read from memory. -/
theorem take_ofFn (memory : Memory) (address : Nat) {size count : Nat} (within : count ≤ size) :
    (Vector.ofFn fun k : Fin size => memory (address + k)).toList.take count =
      memory.bytes address count := by
  apply List.ext_getElem
  · simpa using within
  · intro k left right
    simp

/-- A field and a length that are kept, with the other strings written before and after. -/
theorem kept_string (even : 2 ∣ len) (short : len < 0x100) (apart : dst ≤ src ∨ src + len ≤ dst)
    (before : ∀ k < len, current (src + k) = memory (src + k))
    (after : ∀ k < len, final (dst + k) = (copySwapTrim current dst src len).2 (dst + k)) :
    (Vector.ofFn fun k : Fin len => final (dst + k)).toList.take
        ((copySwapTrim current dst src len).1 % 0x100) =
      identifyString (memory.bytes src len) := by
  have within := copySwapTrim_le current dst src len
  have source : current.bytes src len = memory.bytes src len := Memory.bytes_congr before
  have string := (copySwapTrim_bytes_iff even).mpr (sourceKept_of_apart current apart)
  rw [Nat.mod_eq_of_lt (by omega), take_ofFn final dst within, ← source, ← string]
  exact Memory.bytes_congr fun k bound => after k (by omega)

theorem bootIdeDriveInitStrings_model (memory : Memory)
    (apart : driveInfo + 0x200 ≤ tsaHarddiskInfo ∨ tsaHarddiskInfo + 87 ≤ driveInfo) :
    (bootIdeDriveInitStrings memory tsaHarddiskInfo driveInfo).1.model =
      identifyString (memory.bytes (driveInfo + 2 * 27) 40) := by
  apply kept_string (by omega) (by omega) (by omega)
  · intro k bound
    exact copySwapTrim_outside (by omega) (by omega)
  · intro k bound
    exact copySwapTrim_outside (by omega) (by omega)

theorem bootIdeDriveInitStrings_serial (memory : Memory)
    (apart : driveInfo + 0x200 ≤ tsaHarddiskInfo ∨ tsaHarddiskInfo + 87 ≤ driveInfo) :
    (bootIdeDriveInitStrings memory tsaHarddiskInfo driveInfo).1.serial =
      identifyString (memory.bytes (driveInfo + 2 * 10) 20) := by
  apply kept_string (by omega) (by omega) (by omega)
  · intro k bound
    rfl
  · intro k bound
    exact (copySwapTrim_outside (by omega) (by omega)).trans
      (copySwapTrim_outside (by omega) (by omega))

/-- A length that is kept is that of the string it is kept with. -/
theorem TsHarddiskInfo.mLength_eq (drive : TsHarddiskInfo) :
    drive.mLength = drive.model.length := by
  rw [TsHarddiskInfo.model, List.length_take, Vector.length_toList]
  exact (Nat.min_eq_left drive.mLength_le).symm

theorem TsHarddiskInfo.sLength_eq (drive : TsHarddiskInfo) :
    drive.sLength = drive.serial.length := by
  rw [TsHarddiskInfo.serial, List.length_take, Vector.length_toList]
  exact (Nat.min_eq_left drive.sLength_le).symm

/-- Normalisation of the IDENTIFY strings. For every even length a call leaves the string
terminated and returns its length exactly where no byte of the source is changed before it is
read and some byte is not a space, or the length is 0 and `dst` holds a zero. What is kept for the
password of the drive is the model and the serial number that are stored, with their lengths. -/
theorem copySwapTrim_normalises_iff (memory : Memory) (dst src len : Nat) (even : 2 ∣ len) :
    (Normalises memory dst src len ↔ SourceKept memory dst src len ∧
      (HasText (memory.bytes src len) ∨ len = 0 ∧ memory dst = 0)) ∧
    ∀ tsaHarddiskInfo driveInfo : Nat,
      driveInfo + 0x200 ≤ tsaHarddiskInfo ∨ tsaHarddiskInfo + 87 ≤ driveInfo →
      (bootIdeDriveInitStrings memory tsaHarddiskInfo driveInfo).1.model =
          identifyString (memory.bytes (driveInfo + 2 * 27) 40) ∧
        (bootIdeDriveInitStrings memory tsaHarddiskInfo driveInfo).1.mLength =
          (identifyString (memory.bytes (driveInfo + 2 * 27) 40)).length ∧
        (bootIdeDriveInitStrings memory tsaHarddiskInfo driveInfo).1.serial =
          identifyString (memory.bytes (driveInfo + 2 * 10) 20) ∧
        (bootIdeDriveInitStrings memory tsaHarddiskInfo driveInfo).1.sLength =
          (identifyString (memory.bytes (driveInfo + 2 * 10) 20)).length := by
  constructor
  · exact normalises_iff even
  · intro tsaHarddiskInfo driveInfo apart
    have model := bootIdeDriveInitStrings_model memory apart
    have serial := bootIdeDriveInitStrings_serial memory apart
    have mLength := (bootIdeDriveInitStrings memory tsaHarddiskInfo driveInfo).1.mLength_eq
    have sLength := (bootIdeDriveInitStrings memory tsaHarddiskInfo driveInfo).1.sLength_eq
    rw [model] at mLength
    rw [serial] at sLength
    exact ⟨model, mLength, serial, sLength⟩

/-- In place, and for a drive whose every word is `A` and a space. -/
theorem copySwapTrim_normalises_words :
    Normalises (fun x => if x % 2 = 1 then 0x41 else 0x20) 0 0 4 ∧
      (bootIdeDriveInitStrings (fun x => if x % 2 = 1 then 0x41 else 0x20) 0x200 0).1.mLength =
        39 := by
  obtain ⟨call, drive⟩ := copySwapTrim_normalises_iff
    (fun x => if x % 2 = 1 then 0x41 else 0x20) 0 0 4 (by decide)
  constructor
  · exact call.mpr ⟨sourceKept_of_apart _ (.inl (Nat.le_refl 0)), .inl (by decide)⟩
  · exact (drive 0x200 0 (.inl (Nat.le_refl 0x200))).2.1.trans (by decide)

/-- A serial number of spaces is not terminated. -/
theorem not_normalises_spaces : ¬ Normalises (fun _ => 0x20) 0x200 0 20 := by
  intro normalised
  exact absurd normalised.terminated (by decide)

end Drive

end Cromwell.Ide
