import Cromwell.Boot.MemoryLayout
import Cromwell.Crypt.Sha1Stream
import Cromwell.Flash.Reflashed
import Cromwell.Iso9660.Contents
import Cromwell.Std.TextBuffer

/-!
# Flashing a BIOS from a CD

`BootLoadFlashCD` waits for a CD with an image, reads the image, writes it to the flash and
compares digests. The size is all it checks before it writes, and the value it checks is what
the CD reader makes of the size. After a second attempt it compares nothing.
-/

namespace Cromwell.Boot

open Cromwell.Std Cromwell.Iso9660 Cromwell.Flash Cromwell.Crypt

/-- A call of `BootReflashAndReset`: the disc last read, and the memory with the image. -/
structure ReflashCall where
  disc : Disc
  memory : Memory

/-- The memory, the flash, how often the drive and the pad have been asked, and what has been
done so far. -/
structure FlashCD (σ : Type) where
  memory : Memory
  flash : FlashState σ
  reads : Nat
  polls : Nat
  reflashes : List ReflashCall
  rebooted : Bool

/-- The disc in the drive at each read, and whether button A has just been pressed at each
poll. -/
structure Console where
  drive : Nat → Disc
  button : Nat → Bool

section Program

variable {σ : Type} (bus : FlashBus σ) (console : Console)

/-- A part of `BootLoadFlashCD`. -/
abbrev CdProgram (σ : Type) (α : Type) := Program (FlashCD σ) α

def clearSetup : CdProgram σ Unit :=
  .update fun cd => ((), { cd with memory := cd.memory.memset kernelSetup 0 kernelHdrSize })

/-- `BootIso9660GetFile` of the image. -/
def getImage (maxLength : UInt32) : CdProgram σ Int32 :=
  .update fun cd =>
    let (result, copied) := bootIso9660GetFile (console.drive cd.reads) (text "/image.bin")
      kernelPmCode maxLength cd.memory
    (result, { cd with memory := copied.memory, reads := cd.reads + 1 })

/-- The tries for a CD that is in the drive already. -/
def findImage : (tries : Nat) → CdProgram σ Bool
  | 0 => pure false
  | tries + 1 => do
    let result ← getImage console 0x10
    if 0 ≤ result then
      pure true
    else
      findImage tries

def awaitButton (passes : Nat) : CdProgram σ Unit :=
  Program.loop (fun _ => do
    let pressed ← Program.update fun cd : FlashCD σ =>
      (console.button cd.polls, { cd with polls := cd.polls + 1 })
    if pressed then
      pure (.leave ())
    else
      pure (.next ())) passes ()

def awaitImage (passes : Nat) : CdProgram σ Unit :=
  Program.loop (fun _ => do
    let result ← getImage console 0x10
    if 0 ≤ result then
      pure (.leave ())
    else
      pure (.next ())) passes ()

/-- `BootLoadFlashCD` up to the load: there has been an image on a CD in the drive. -/
@[irreducible] def insertCD (passes : Nat) : CdProgram σ Unit := do
  clearSetup
  let cdPresent ← findImage console 16
  if cdPresent then
    pure ()
  else
    awaitButton console passes
    awaitImage console passes

/-- `SHA1Reset`, `SHA1Input` and `SHA1Result`. -/
def digestOf (context : SHA1Context) (digest : Vector Byte 20) (message : List Byte) :
    SHA1Context × Vector Byte 20 :=
  sha1Result sha1Compress (sha1Input sha1Compress (sha1Reset context) message) digest

/-- The bytes of the flash, read one by one. -/
def readFlashBytes : (count address : Nat) → Driver σ (List Byte)
  | 0, _ => pure []
  | count + 1, address => do
    let byte ← readFlash bus (UInt32.ofNat address)
    let rest ← readFlashBytes count (address + 1)
    pure (byte :: rest)

/-- The flash driver on the flash. -/
def onFlash {α : Type} (driver : Driver σ α) : CdProgram σ α :=
  driver.within FlashCD.flash fun cd flash => { cd with flash }

/-- `BootReflashAndReset` with the image. -/
def reflashImage (fuel : Nat) (dwConfigSize : UInt32) : CdProgram σ Nat := do
  let memory ← Program.update fun cd =>
    (cd.memory, { cd with reflashes := ⟨console.drive (cd.reads - 1), cd.memory⟩ :: cd.reflashes })
  onFlash (bootReflashAndReset bus fuel (fun i => memory (kernelPmCode + i)) 0 dwConfigSize)

/-- It does not come back. -/
def i2cRebootSlow {α : Type} : CdProgram σ α :=
  fun cd => .next { cd with rebooted := true }

/-- `BootLoadFlashCD` from the first digest on. -/
def flashImage (fuel : Nat) (context : SHA1Context) (digest : Vector Byte 20)
    (dwConfigSize : UInt32) : CdProgram σ Int32 := do
  let image ← Program.update fun cd => (cd.memory.bytes kernelPmCode dwConfigSize.toNat, cd)
  let (context, checksum) := digestOf context digest image
  let _ ← reflashImage bus console fuel dwConfigSize
  let content ← onFlash (readFlashBytes bus dwConfigSize.toNat 0)
  if (digestOf context checksum content).2 = checksum then
    i2cRebootSlow
  else
    let _ ← reflashImage bus console fuel dwConfigSize
    pure 0

/-- `BootLoadFlashCD` from the load on. The size is unsigned, so it is never below 0. -/
def loadImage (fuel : Nat) (context : SHA1Context) (digest : Vector Byte 20) :
    CdProgram σ Int32 := do
  let result ← getImage console (256 * 1024)
  let dwConfigSize := result.toUInt32
  if dwConfigSize < 0 then
    Program.stuck
  else if dwConfigSize ≠ 256 * 1024 then
    Program.stuck
  else
    flashImage bus console fuel context digest dwConfigSize

/-- `BootLoadFlashCD`. -/
@[irreducible] def bootLoadFlashCD (passes fuel : Nat) (context : SHA1Context)
    (digest : Vector Byte 20) : CdProgram σ Int32 := do
  insertCD console passes
  loadImage bus console fuel context digest

end Program

/-! ## What flashing is gated by -/

/-- The size of a BIOS image. -/
def imageSize : Nat := 262144

/-- The image in the memory. -/
def imageBytes (memory : Memory) : List Byte := memory.bytes kernelPmCode imageSize

/-- The flash has only been written with the file that was on the disc, of just the right
size. -/
def FlashCD.Gated {σ : Type} (cd : FlashCD σ) : Prop :=
  ∀ call ∈ cd.reflashes, call.disc.IsFile (text "/image.bin") (imageBytes call.memory)

/-- The flash has the digest of the image. -/
def FlashCD.Verified (cd : FlashCD FlashDevice) : Prop :=
  sha1 sha1Compress (cd.flash.flash.array.bytes 0 imageSize) =
    sha1 sha1Compress (imageBytes cd.memory)

/-- What a chip shows that has been identified. -/
def identifiedShows (chip : FlashChip) (contents : Memory) : Memory :=
  chip.shown contents (chip.leftMode contents)

/-- A disc that lets no image through, or a proper one to a chip that can be written, or has
it already, or still shows its IDs where they have the digest of the image. The size of a file
that is too long is taken from the memory. -/
def Proper (chip : FlashChip) (contents memory : Memory) (disc : Disc) : Prop :=
  ∀ record, disc.Found (text "/image.bin") record → imageSize ≤ record.size.toNat →
    memory.dword 0x40000 = 0x40000 →
    record.size.toNat = imageSize ∧ disc.Readable record imageSize ∧
      (chip.Accepted contents ∨ ∀ image, disc.IsFile (text "/image.bin") image →
        sha1 sha1Compress (contents.bytes 0 imageSize) = sha1 sha1Compress image ∨
          sha1 sha1Compress ((identifiedShows chip contents).bytes 0 imageSize) =
            sha1 sha1Compress image)

/-! ## The digests -/

theorem digestOf_eq (context : SHA1Context) (digest : Vector Byte 20) {message : List Byte}
    (short : 8 * message.length < 2 ^ 64) :
    (digestOf context digest message).2 = sha1 sha1Compress message := by
  have room : (Absorbing.fresh sha1Initial : Absorbing HashState Byte).pending.length < 64 := by
    simp [Absorbing.fresh]
  have collects : Collects (sha1Input sha1Compress (sha1Reset context) message)
      ((Absorbing.fresh sha1Initial).absorb 64 sha1Compress message) (0 + 8 * message.length) :=
    (collects_reset context).sha1Input message room rfl (by omega)
  exact sha1Result_digest sha1Compress collects digest

/-- Reading the flash byte by byte gives what the chip shows. -/
theorem readFlashBytes_ensures {chip : FlashChip} {start : FlashDevice} {mode : FlashMode}
    {count address : Nat} {state : FlashState FlashDevice} {cut : FlashState FlashDevice → Prop}
    (readable : mode = .array ∨ mode = .ident) (held : InMode start mode state.flash)
    (bounded : address + count ≤ 2 ^ 32) :
    (readFlashBytes chip.bus count address).Ensures state cut fun content after =>
      InMode start mode after.flash ∧
        content = (chip.shown start.array mode).bytes address count := by
  induction count generalizing address state with
  | zero => exact ⟨held, rfl⟩
  | succ count ih =>
      refine (readFlash_ensures held readable).andThen ?_
      rintro _ read ⟨held, rfl⟩
      refine (ih held (by omega)).andThen ?_
      rintro _ after ⟨held, rfl⟩
      refine ⟨held, ?_⟩
      rw [UInt32.toNat_ofNat_of_lt' (by change address < 2 ^ 32; omega), Nat.add_comm count 1,
        Memory.bytes_add]
      rfl

/-! ## Up to the load -/

section Insert

variable {σ : Type} {console : Console} {passes : Nat}

/-- What lies below the place of the image is not read to. -/
theorem getFile_below {disc : Disc} {path : List Byte} {buffer address : Nat} {maxLength : UInt32}
    {memory : Memory} (below : address < buffer) :
    (bootIso9660GetFile disc path buffer maxLength memory).2.memory address = memory address := by
  rcases getFile_cases disc path buffer maxLength memory with ⟨record, -, read⟩ | ⟨-, read⟩
  · rw [read]
    exact readBlocks_below below
  · rw [read]

/-- What the way to the load keeps: the flash, the calls so far, and the double word the size
is taken from. -/
def FlashCD.kept (cd : FlashCD σ) : FlashState σ × List ReflashCall × Nat :=
  (cd.flash, cd.reflashes, cd.memory.dword 0x40000)

theorem getImage_keeps {maxLength : UInt32} :
    Program.Keeps FlashCD.kept (getImage console maxLength : CdProgram σ Int32) := by
  intro cd
  have word : (bootIso9660GetFile (console.drive cd.reads) (text "/image.bin") kernelPmCode
      maxLength cd.memory).2.memory.dword 0x40000 = cd.memory.dword 0x40000 :=
    Memory.dword_congr fun k bound => getFile_below (by unfold kernelPmCode; omega)
  rw [getImage, Program.ensures_update]
  unfold FlashCD.kept
  dsimp only
  rw [word]

theorem findImage_keeps (tries : Nat) :
    Program.Keeps FlashCD.kept (findImage console tries : CdProgram σ Bool) := by
  induction tries with
  | zero => exact .pure _
  | succ tries ih => exact getImage_keeps.bind fun _ => .ite (.pure _) ih

theorem insertCD_keeps :
    Program.Keeps FlashCD.kept (insertCD console passes : CdProgram σ Unit) := by
  have cleared : Program.Keeps FlashCD.kept (clearSetup : CdProgram σ Unit) := by
    intro cd
    have word : (cd.memory.memset kernelSetup 0 kernelHdrSize).dword 0x40000 =
        cd.memory.dword 0x40000 := Memory.dword_memset_other _ (.inl (by decide))
    rw [clearSetup, Program.ensures_update]
    unfold FlashCD.kept
    dsimp only
    rw [word]
  have polled : Program.Keeps FlashCD.kept
      (Program.update fun cd : FlashCD σ =>
        (console.button cd.polls, { cd with polls := cd.polls + 1 })) := fun _ => rfl
  unfold insertCD
  refine cleared.bind fun _ => (findImage_keeps 16).bind fun _ => .ite (.pure _) (.bind ?_ ?_)
  · exact .loop (fun _ => polled.bind fun _ => .ite (.pure _) (.pure _)) _ _
  · exact fun _ => .loop (fun _ => getImage_keeps.bind fun _ => .ite (.pure _) (.pure _)) _ _

end Insert

/-! ## From the load on -/

section Load

variable {chip : FlashChip} {console : Console} {context : SHA1Context} {digest : Vector Byte 20}
  {fuel : Nat} {dwConfigSize : UInt32} {cd : FlashCD FlashDevice}

/-- The call that is made in this state. -/
def FlashCD.call {σ : Type} (console : Console) (cd : FlashCD σ) : ReflashCall :=
  ⟨console.drive (cd.reads - 1), cd.memory⟩

/-- A call is recorded, and made on the flash alone. -/
theorem ensures_reflashImage {σ : Type} {bus : FlashBus σ} {cd : FlashCD σ}
    {cut : FlashCD σ → Prop} {returned : Nat → FlashCD σ → Prop} :
    (reflashImage bus console fuel dwConfigSize).Ensures cd cut returned ↔
      (bootReflashAndReset bus fuel (fun i => cd.memory (kernelPmCode + i)) 0
        dwConfigSize).Ensures cd.flash
        (fun flash => cut { cd with flash, reflashes := cd.call console :: cd.reflashes })
        fun result flash =>
          returned result { cd with flash, reflashes := cd.call console :: cd.reflashes } := by
  simp only [reflashImage, onFlash, Program.ensures_bind, Program.ensures_update,
    Program.ensures_within]
  exact Iff.rfl

/-- Whatever becomes of the flash, the first call has been made. -/
theorem flashImage_calls {σ : Type} {bus : FlashBus σ} {cd : FlashCD σ} :
    (flashImage bus console fuel context digest dwConfigSize).Ensures cd
      (fun after => cd.call console ∈ after.reflashes)
      fun _ after => cd.call console ∈ after.reflashes := by
  rw [flashImage, Program.ensures_bind, Program.ensures_update]
  dsimp only
  rw [Program.ensures_bind, ensures_reflashImage]
  refine (Program.ensures_true _ _).mono (fun _ _ => List.mem_cons_self) fun _ flash _ => ?_
  rw [Program.ensures_bind, onFlash, Program.ensures_within]
  refine (Program.ensures_true _ _).mono (fun _ _ => List.mem_cons_self) fun content flash _ => ?_
  rw [Program.ensures_ite]
  refine ⟨fun _ => List.mem_cons_self, fun _ => ?_⟩
  rw [Program.ensures_bind, ensures_reflashImage]
  exact (Program.ensures_true _ _).mono
    (fun _ _ => List.mem_cons_of_mem _ List.mem_cons_self)
    fun _ _ _ => List.mem_cons_of_mem _ List.mem_cons_self

/-- After a call that leaves the chip readable, the digests are compared. -/
theorem flashImage_ensures {mode : FlashMode} (Called : FlashDevice → Prop)
    {cut : FlashCD FlashDevice → Prop} {returned : Int32 → FlashCD FlashDevice → Prop}
    (size : dwConfigSize.toNat = imageSize) (readable : mode = .array ∨ mode = .ident)
    (called : (bootReflashAndReset chip.bus fuel (fun i => cd.memory (kernelPmCode + i)) 0
      dwConfigSize).Ensures cd.flash
        (fun flash => cut { cd with flash, reflashes := cd.call console :: cd.reflashes })
        fun _ flash => flash.flash.mode = mode ∧ Called flash.flash)
    (compared : ∀ base, Called base → ∀ flash, InMode base mode flash.flash →
      (sha1 sha1Compress ((chip.shown base.array mode).bytes 0 imageSize) =
          sha1 sha1Compress (imageBytes cd.memory) →
        cut { cd with flash, reflashes := cd.call console :: cd.reflashes, rebooted := true }) ∧
      (sha1 sha1Compress ((chip.shown base.array mode).bytes 0 imageSize) ≠
          sha1 sha1Compress (imageBytes cd.memory) →
        (do let _ ← reflashImage chip.bus console fuel dwConfigSize
            pure 0 : CdProgram FlashDevice Int32).Ensures
          { cd with flash, reflashes := cd.call console :: cd.reflashes } cut returned)) :
    (flashImage chip.bus console fuel context digest dwConfigSize).Ensures cd cut returned := by
  have image : imageBytes cd.memory = cd.memory.bytes kernelPmCode dwConfigSize.toNat :=
    congrArg (cd.memory.bytes kernelPmCode) size.symm
  have short (memory : Memory) (address : Nat) :
      8 * (memory.bytes address dwConfigSize.toNat).length < 2 ^ 64 := by
    rw [Memory.length_bytes]
    exact Nat.lt_trans (Nat.mul_lt_mul_of_pos_left dwConfigSize.toNat_lt (by decide)) (by decide)
  rw [← size, image] at compared
  rw [flashImage, Program.ensures_bind, Program.ensures_update]
  dsimp only
  rw [Program.ensures_bind, ensures_reflashImage]
  refine called.mono (fun _ held => held) ?_
  rintro _ flash ⟨held, called⟩
  have bounded : 0 + dwConfigSize.toNat ≤ 2 ^ 32 := by
    rw [Nat.zero_add]
    exact Nat.le_of_lt dwConfigSize.toNat_lt
  rw [Program.ensures_bind, onFlash, Program.ensures_within]
  refine (readFlashBytes_ensures readable ⟨held, rfl, rfl⟩ bounded).mono (fun _ held => held) ?_
  rintro _ after ⟨held, rfl⟩
  rw [digestOf_eq _ _ (short _ _), digestOf_eq _ _ (short _ _), Program.ensures_ite]
  exact compared flash.flash called after held

/-- The flash has the digest of the image in the memory already. -/
def FlashCD.Same (cd : FlashCD FlashDevice) : Prop :=
  sha1 sha1Compress (cd.flash.flash.array.bytes 0 imageSize) =
    sha1 sha1Compress (imageBytes cd.memory)

/-- What the chip shows once it is identified has that digest. -/
def FlashCD.ShowsSame (chip : FlashChip) (cd : FlashCD FlashDevice) : Prop :=
  sha1 sha1Compress ((identifiedShows chip cd.flash.flash.array).bytes 0 imageSize) =
    sha1 sha1Compress (imageBytes cd.memory)

/-- What `BootReflashAndReset` returns from with the image on show is rebooted from. -/
theorem flashImage_reboots (size : dwConfigSize.toNat = imageSize)
    (normal : cd.flash.flash.mode = .array) (untouched : cd.flash.flash.issued = [])
    (sound : chip.Accepted cd.flash.flash.array ∨ cd.ShowsSame chip) :
    (flashImage chip.bus console fuel context digest dwConfigSize).Ensures cd
      (fun after => after.reflashes = cd.call console :: cd.reflashes) fun _ _ => False := by
  by_cases accepted : chip.Accepted cd.flash.flash.array
  · have nonempty : dwConfigSize.toNat ≠ 0 := by
      rw [size]
      decide
    have fits : dwConfigSize.toNat ≤ 0x40000 := Nat.le_of_eq size
    refine flashImage_ensures (fun base => ∀ i < dwConfigSize.toNat,
      base.array i = cd.memory (kernelPmCode + i)) size (.inl rfl)
      ((bootReflashAndReset_accepted accepted normal untouched nonempty fits).mono
        (fun _ _ => rfl) fun _ _ held => held) ?_
    intro base written flash held
    refine ⟨fun _ => rfl, fun differs => absurd (congrArg (sha1 sha1Compress) ?_) differs⟩
    rw [size] at written
    refine Memory.bytes_congr fun i below => ?_
    rw [FlashChip.shown_array, Nat.zero_add]
    exact written i below
  · have same := sound.resolve_left accepted
    refine flashImage_ensures (InMode cd.flash.flash (chip.leftMode cd.flash.flash.array)) size
      (chip.quiet_leftMode _).readable
      ((bootReflashAndReset_rejected accepted ⟨normal, rfl, rfl⟩).mono (fun _ _ => rfl)
        fun _ _ held => ⟨held.2.mode, held.2⟩) ?_
    intro base kept flash held
    rw [kept.array]
    exact ⟨fun _ => rfl, fun differs => absurd same differs⟩

/-- A chip that is not accepted is left with what it has, and nothing is compared then. -/
theorem flashImage_gives_up (size : dwConfigSize.toNat = imageSize)
    (normal : cd.flash.flash.mode = .array) (rejected : ¬chip.Accepted cd.flash.flash.array)
    (other : ¬cd.ShowsSame chip) :
    (flashImage chip.bus console fuel context digest dwConfigSize).Ensures cd
      (fun after => fuel < 33 ∧ after.reflashes ⊆ cd.call console :: cd.reflashes)
      fun result after => result = 0 ∧ (after.Verified ↔ cd.Same) ∧
        after.reflashes ⊆ cd.call console :: cd.reflashes := by
  refine flashImage_ensures (InMode cd.flash.flash (chip.leftMode cd.flash.flash.array)) size
    (chip.quiet_leftMode _).readable
    ((bootReflashAndReset_rejected rejected ⟨normal, rfl, rfl⟩).mono
      (fun _ held => ⟨held.1, List.Subset.refl _⟩) fun _ _ held => ⟨held.2.mode, held.2⟩) ?_
  intro base kept flash held
  rw [kept.array]
  refine ⟨fun same => absurd same other, fun _ => ?_⟩
  have start : InMode cd.flash.flash (chip.leftMode cd.flash.flash.array) flash.flash :=
    ⟨held.mode, held.array.trans kept.array, held.issued.trans kept.issued⟩
  have calls : cd.call console :: cd.call console :: cd.reflashes ⊆
      cd.call console :: cd.reflashes :=
    List.cons_subset.mpr ⟨List.mem_cons_self, List.Subset.refl _⟩
  rw [Program.ensures_bind, ensures_reflashImage]
  refine (bootReflashAndReset_again rejected start).mono (fun _ few => ⟨few, calls⟩) ?_
  rintro _ after ⟨-, mode, final⟩
  refine ⟨rfl, ?_, calls⟩
  unfold FlashCD.Verified FlashCD.Same
  rw [final.array]

/-- What is let through is a file that is long enough, and only where the memory says so. -/
theorem getFile_full_iff {disc : Disc} {path : List Byte} {buffer : Nat} {memory : Memory} :
    (bootIso9660GetFile disc path buffer (256 * 1024) memory).1.toUInt32 = 256 * 1024 ↔
      ∃ record, disc.Found path record ∧ imageSize ≤ record.size.toNat ∧
        memory.dword 0x40000 = 0x40000 := by
  rcases getFile_cases disc path buffer (256 * 1024) memory with
    ⟨record, found, read⟩ | ⟨missing, read⟩
  · have size : readSize record (256 * 1024) memory = 256 * 1024 ↔
        imageSize ≤ record.size.toNat ∧ memory.dword 0x40000 = 0x40000 := readSize_eq_max_iff
    rw [read]
    dsimp only
    rw [UInt32.toUInt32_toInt32, size]
    refine ⟨fun held => ⟨record, found, held⟩, ?_⟩
    rintro ⟨_, again, held⟩
    rwa [found.unique again]
  · rw [read]
    have never : (-1 : Int32).toUInt32 ≠ 256 * 1024 := by decide
    refine ⟨fun same => absurd same never, ?_⟩
    rintro ⟨record, found, -⟩
    exact absurd found (missing record)

/-- The state after the load. -/
def FlashCD.loaded {σ : Type} (console : Console) (cd : FlashCD σ) : FlashCD σ :=
  { cd with
    memory := (bootIso9660GetFile (console.drive cd.reads) (text "/image.bin") kernelPmCode
      (256 * 1024) cd.memory).2.memory
    reads := cd.reads + 1 }

/-- Nothing but an image of full size gets past the checks. -/
theorem ensures_loadImage {σ : Type} {bus : FlashBus σ} {cd : FlashCD σ}
    {cut : FlashCD σ → Prop} {returned : Int32 → FlashCD σ → Prop} :
    (loadImage bus console fuel context digest).Ensures cd cut returned ↔
      if (bootIso9660GetFile (console.drive cd.reads) (text "/image.bin") kernelPmCode
        (256 * 1024) cd.memory).1.toUInt32 = 256 * 1024
      then (flashImage bus console fuel context digest (256 * 1024)).Ensures (cd.loaded console)
        cut returned
      else cut (cd.loaded console) := by
  rw [loadImage, Program.ensures_bind, getImage, Program.ensures_update]
  change (if (bootIso9660GetFile (console.drive cd.reads) (text "/image.bin") kernelPmCode
      (256 * 1024) cd.memory).1.toUInt32 < 0 then _ else _ : CdProgram σ Int32).Ensures
    (cd.loaded console) cut returned ↔ _
  generalize (bootIso9660GetFile (console.drive cd.reads) (text "/image.bin") kernelPmCode
    (256 * 1024) cd.memory).1.toUInt32 = dwConfigSize
  have unsigned : ¬dwConfigSize < 0 := UInt32.not_lt_zero
  rw [if_neg unsigned]
  by_cases full : dwConfigSize = 256 * 1024
  · rw [if_neg (not_not.mpr full), if_pos full, full]
  · rw [if_pos full, if_neg full]
    exact Iff.rfl

/-- What every run ensures, if it does: the flash is written with the file only, and 0 is
returned only when it holds the image. -/
def GatedRun (program : CdProgram FlashDevice Int32) (cd : FlashCD FlashDevice) : Prop :=
  program.Ensures cd FlashCD.Gated fun result after =>
    after.Gated ∧ (result = 0 → after.Verified)

/-- The first call shows whether the image is the file, and a chip that is not accepted
whether the digests are the same. -/
theorem flashImage_gated_iff (size : dwConfigSize.toNat = imageSize) (fresh : cd.reflashes = [])
    (normal : cd.flash.flash.mode = .array) (untouched : cd.flash.flash.issued = []) :
    (∀ fuel, GatedRun (flashImage chip.bus console fuel context digest dwConfigSize) cd) ↔
      (cd.call console).disc.IsFile (text "/image.bin") (imageBytes cd.memory) ∧
        (chip.Accepted cd.flash.flash.array ∨ cd.Same ∨ cd.ShowsSame chip) := by
  constructor
  · intro gated
    refine ⟨?_, ?_⟩
    · have both := (gated 0).and flashImage_calls
      refine (both.mono (fun cutOff held => ?_) fun _ after held => ?_).const
      · exact held.1 _ held.2
      · exact held.1.1 _ held.2
    · by_contra neither
      obtain ⟨rejected, neither⟩ := not_or.mp neither
      obtain ⟨other, hidden⟩ := not_or.mp neither
      have both := (gated 33).and (flashImage_gives_up size normal rejected hidden)
      refine (both.mono (fun cutOff held => ?_) fun _ after held => ?_).const
      · exact Nat.lt_irrefl 33 held.2.1
      · exact other (held.2.2.1.mp (held.1.2 held.2.1))
  · rintro ⟨file, sound⟩ fuel
    have gated {after : FlashCD FlashDevice}
        (calls : after.reflashes ⊆ cd.call console :: cd.reflashes) : after.Gated := by
      intro call member
      have only := calls member
      rw [fresh, List.mem_singleton] at only
      rw [only]
      exact file
    by_cases shown : chip.Accepted cd.flash.flash.array ∨ cd.ShowsSame chip
    · refine (flashImage_reboots size normal untouched shown).mono ?_ fun _ _ never => never.elim
      intro after calls
      exact gated (calls ▸ List.Subset.refl _)
    · obtain ⟨rejected, hidden⟩ := not_or.mp shown
      have same : cd.Same := (sound.resolve_left rejected).resolve_right hidden
      refine (flashImage_gives_up size normal rejected hidden).mono ?_ ?_
      · rintro cutOff ⟨-, calls⟩
        exact gated calls
      · rintro result after ⟨-, verified, calls⟩
        exact ⟨gated calls, fun _ => verified.mpr same⟩

theorem loadImage_gated_iff (fresh : cd.reflashes = []) (normal : cd.flash.flash.mode = .array)
    (untouched : cd.flash.flash.issued = []) :
    (∀ fuel, GatedRun (loadImage chip.bus console fuel context digest) cd) ↔
      Proper chip cd.flash.flash.array cd.memory (console.drive cd.reads) := by
  have nothing : cd.Gated := fun call member => by
    rw [fresh] at member
    cases member
  by_cases full : (bootIso9660GetFile (console.drive cd.reads) (text "/image.bin")
      kernelPmCode (256 * 1024) cd.memory).1.toUInt32 = 256 * 1024
  · have imageLength : (256 * 1024 : UInt32).toNat = imageSize := by decide
    have started : (∀ fuel, GatedRun (loadImage chip.bus console fuel context digest) cd) ↔
        (console.drive cd.reads).IsFile (text "/image.bin")
            (imageBytes (cd.loaded console).memory) ∧
          (chip.Accepted cd.flash.flash.array ∨ (cd.loaded console).Same ∨
            (cd.loaded console).ShowsSame chip) := by
      simp only [GatedRun, ensures_loadImage, if_pos full]
      exact flashImage_gated_iff imageLength fresh normal untouched
    rw [started]
    obtain ⟨record, found, long, word⟩ := getFile_full_iff.mp full
    have size : readSize record (256 * 1024) cd.memory = 256 * 1024 :=
      readSize_eq_max_iff.mpr ⟨UInt32.le_iff_toNat_le.mpr long, word⟩
    have read : imageBytes (cd.loaded console).memory =
        (readFile (console.drive cd.reads) record kernelPmCode (256 * 1024)
          cd.memory).2.memory.bytes kernelPmCode
            (readSize record (256 * 1024) cd.memory).toNat := by
      rw [size]
      unfold FlashCD.loaded
      rw [getFile_found found]
      rfl
    have file : (console.drive cd.reads).IsFile (text "/image.bin")
        (imageBytes (cd.loaded console).memory) ↔
          record.size.toNat = imageSize ∧ (console.drive cd.reads).Readable record imageSize := by
      rw [read, isFile_read_iff found (by rw [size]; decide), size, ← UInt32.toNat_inj]
      exact Iff.rfl
    constructor
    · rintro ⟨isFile, sound⟩ other again - -
      obtain rfl := found.unique again
      obtain ⟨exact_size, readable⟩ := file.mp isFile
      refine ⟨exact_size, readable, sound.imp_right fun same image isImage => ?_⟩
      rw [isImage.unique isFile]
      exact same
    · intro proper
      obtain ⟨exact_size, readable, sound⟩ := proper record found long word
      have isFile := file.mpr ⟨exact_size, readable⟩
      exact ⟨isFile, sound.imp_right fun same => same _ isFile⟩
  · have stopped (fuel : Nat) : GatedRun (loadImage chip.bus console fuel context digest) cd := by
      unfold GatedRun
      rw [ensures_loadImage, if_neg full]
      exact nothing
    refine ⟨fun _ record found long word => ?_, fun _ => stopped⟩
    exact absurd (getFile_full_iff.mpr ⟨record, found, long, word⟩) full

end Load

/-! ## The whole call -/

section Whole

variable {chip : FlashChip} {console : Console} {context : SHA1Context} {digest : Vector Byte 20}
  {passes : Nat} {cd : FlashCD FlashDevice}

/-- The way to the load leaves alone what matters, but for the disc. -/
theorem gated_iff_of_ready {ready : FlashCD FlashDevice} (fresh : cd.reflashes = [])
    (normal : cd.flash.flash.mode = .array) (untouched : cd.flash.flash.issued = [])
    (ran : insertCD console passes cd = .leave ((), ready)) :
    (∀ fuel, GatedRun (bootLoadFlashCD chip.bus console passes fuel context digest) cd) ↔
      Proper chip cd.flash.flash.array cd.memory (console.drive ready.reads) := by
  have kept : ready.kept = cd.kept := (insertCD_keeps cd).of_returned ran
  have flash : ready.flash = cd.flash := congrArg (fun kept => kept.1) kept
  have calls : ready.reflashes = cd.reflashes := congrArg (fun kept => kept.2.1) kept
  have word : ready.memory.dword 0x40000 = cd.memory.dword 0x40000 :=
    congrArg (fun kept => kept.2.2) kept
  have started (fuel : Nat) :
      GatedRun (bootLoadFlashCD chip.bus console passes fuel context digest) cd ↔
        GatedRun (loadImage chip.bus console fuel context digest) ready := by
    unfold bootLoadFlashCD GatedRun
    rw [Program.ensures_bind, Program.Ensures, ran]
    exact Iff.rfl
  rw [← flash] at normal untouched
  have load : (∀ fuel, GatedRun (loadImage chip.bus console fuel context digest) ready) ↔ _ :=
    loadImage_gated_iff (calls.trans fresh) normal untouched
  unfold Proper at load ⊢
  rw [flash, word] at load
  simp only [started]
  exact load

end Whole

/-- The flash is written with the file on the disc only, and 0 is returned only with the image
in the flash, exactly if the disc in the drive at the load is a proper one. -/
theorem bootLoadFlashCD_gated_iff (chip : FlashChip) (console : Console) (passes : Nat)
    (context : SHA1Context) (digest : Vector Byte 20) (cd : FlashCD FlashDevice)
    (fresh : cd.reflashes = []) (normal : cd.flash.flash.mode = .array)
    (untouched : cd.flash.flash.issued = []) :
    (∀ fuel, GatedRun (bootLoadFlashCD chip.bus console passes fuel context digest) cd) ↔
      (insertCD console passes).Ensures cd (fun _ => True) fun _ ready =>
        Proper chip cd.flash.flash.array cd.memory (console.drive ready.reads) := by
  unfold Program.Ensures
  cases ran : insertCD console passes cd with
  | next cutOff =>
      have kept : (insertCD console passes).Ensures cd _ _ := insertCD_keeps cd
      unfold Program.Ensures at kept
      rw [ran] at kept
      have calls : cutOff.reflashes = cd.reflashes := congrArg (fun kept => kept.2.1) kept
      refine ⟨fun _ => trivial, fun _ fuel => ?_⟩
      unfold GatedRun bootLoadFlashCD
      rw [Program.ensures_bind, Program.Ensures, ran]
      intro call member
      rw [calls, fresh] at member
      cases member
  | leave outcome => exact gated_iff_of_ready fresh normal untouched ran

/-- A console that has just been switched on. -/
def switchedOn (memory : Memory) : FlashCD FlashDevice where
  memory := memory
  flash := poweredUp fun _ => 0xff
  reads := 0
  polls := 0
  reflashes := []
  rebooted := false

/-- A disc with one file of zeros. -/
def zeroDisc (size : UInt32) : Disc where
  volume := true
  lookup _ := some ⟨20, size⟩
  sector _ := some fun _ => 0

/-- A memory whose double word at 256K is 256K. -/
def selfSized : Memory := fun address => if address = 0x40002 then 4 else 0

/-- Every run is gated with an image of the right size and a known chip. -/
theorem bootLoadFlashCD_gated_zeroDisc :
    GatedRun (bootLoadFlashCD w49f020.bus ⟨fun _ => zeroDisc 262144, fun _ => true⟩ 0 40
      default default) (switchedOn selfSized) := by
  refine (bootLoadFlashCD_gated_iff w49f020 _ 0 default default _ rfl rfl rfl).mpr ?_ 40
  refine (Program.ensures_true _ _).mono (fun _ _ => trivial) fun _ ready _ => ?_
  rintro record ⟨-, found, -⟩ - -
  have size : record.size = 262144 := (congrArg DirectoryRecord.size (Option.some.inj found)).symm
  have accepted : w49f020.Accepted fun _ => 0xff := by decide
  refine ⟨?_, fun k _ => rfl, .inl accepted⟩
  rw [size]
  decide

/-- Where the first read gives a size, the drive is not waited for. -/
theorem insertCD_at_once {σ : Type} {console : Console} {passes : Nat} {cd : FlashCD σ}
    (read : 0 ≤ (bootIso9660GetFile (console.drive cd.reads) (text "/image.bin") kernelPmCode
      0x10 (cd.memory.memset kernelSetup 0 kernelHdrSize)).1) :
    (insertCD console passes).Ensures cd (fun _ => False) fun _ _ => True := by
  rw [insertCD, Program.ensures_bind, clearSetup, Program.ensures_update, Program.ensures_bind,
    findImage, Program.ensures_bind, getImage, Program.ensures_update]
  dsimp only
  rw [if_pos read]
  exact trivial

/-- A file that is a byte too long is flashed. -/
theorem oversize_flashed : ¬∀ (chip : FlashChip) (console : Console) (passes fuel : Nat)
    (context : SHA1Context) (digest : Vector Byte 20) (cd : FlashCD FlashDevice),
    cd.reflashes = [] → cd.flash.flash.mode = .array → cd.flash.flash.issued = [] →
      GatedRun (bootLoadFlashCD chip.bus console passes fuel context digest) cd := by
  intro gated
  let console : Console := ⟨fun _ => zeroDisc 262145, fun _ => true⟩
  have size : 0 ≤ (bootIso9660GetFile (console.drive 0) (text "/image.bin") kernelPmCode 0x10
      (selfSized.memset kernelSetup 0 kernelHdrSize)).1 := by decide
  have found : (insertCD console 0).Ensures (switchedOn selfSized) (fun _ => False)
    fun _ _ => True := insertCD_at_once size
  obtain ⟨_, ready, ran, -⟩ := found.returns
  have gate : (∀ fuel, GatedRun (bootLoadFlashCD w49f020.bus console 0 fuel default default)
      (switchedOn selfSized)) ↔ _ := gated_iff_of_ready rfl rfl rfl ran
  have proper := gate.mp fun fuel =>
    gated w49f020 console 0 fuel default default (switchedOn selfSized) rfl rfl rfl
  have exact_size := (proper ⟨20, 262145⟩ ⟨rfl, rfl, by decide⟩ (by decide) (by decide)).1
  exact absurd exact_size (by decide)

end Cromwell.Boot
