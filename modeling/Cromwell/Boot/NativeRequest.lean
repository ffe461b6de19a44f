import Cromwell.Boot.Placement

/-!
# Requests for native files

A native load has one request for all of its files. The path of the kernel is copied into it
without its end, which is there because the request has been cleared; the path of the initrd
is copied with as many bytes as a configuration entry keeps for it, which is more than the
request has. The loader is run here together with what it passes to the native reader and
what it writes to the request.
-/

namespace Cromwell.Boot

open Cromwell.Std Cromwell.Std.Program Cromwell.Lib Cromwell.Etherboot

def grubRequestSize : Nat := 256 + 4

/-- What a request begins with. The drive and the partition are `int`s stored as `char`s. -/
def requestHeader (drive partition : Int32) : List Byte :=
  [0xff, 0xff, partition.toUInt32.toUInt8, drive.toUInt32.toUInt8]

/-- A request in a block of the heap; addresses count from its beginning. -/
def initGrubRequest (size : Nat) (drive partition : Int32) (block : Memory) : Memory :=
  (block.memset 0 0 size).store 0 (requestHeader drive partition)

/-! ## A load with its requests -/

/-- The memory and the request, what has been passed to `grub_open` and where the request
has been written to so far. -/
structure Native where
  ram : Ram
  szGrub : Memory
  opened : List Memory
  written : List Extent

def onRam {α : Type} (program : Program Ram α) : Program Native α :=
  .within Native.ram (fun native ram => { native with ram := ram }) program

/-- `strncpy` behind the header of the request. -/
def copyPath (path : List Byte) (count : Nat) : Program Native Unit :=
  .update fun native => ((), { native with
    szGrub := native.szGrub.store 4 (strncpy path count)
    written := native.written ++ [⟨4, (strncpy path count).length⟩] })

def grubOpen (grub : Grub) : Program Native GrubFile :=
  .update fun native =>
    (grub native.szGrub, { native with opened := native.opened ++ [native.szGrub] })

/-- The initrd, if there is one. -/
def requestInitrd (grub : Grub) (szInitrd : List Byte) : Program Native Bool := do
  if szInitrd.length ≠ 0 then
    copyPath szInitrd maxLine
    let file ← grubOpen grub
    if file.filemax = 0 then
      return false
    else if file.nRet ≠ 1 ∨ file.errnum ≠ 0 then
      return false
    else
      let _ ← onRam (grubRead .initrd file initrdStart maxInitrdSize)
      return true
  else
    return true

/-- `LoadLinuxNative` on a request that is kept in the state. -/
def requestLinux (grub : Grub) (optLinux : OptLinux) : Program Native Bool := do
  onRam (clear kernelSetup kernelHdrSize)
  copyPath optLinux.szKernel optLinux.szKernel.length
  let file ← grubOpen grub
  if file.nRet ≠ 1 then
    return false
  else
    let dwKernelSize ← onRam (grubRead .kernel file initrdStart maxKernelSize)
    onRam (memPlaceKernel initrdStart (UInt32.ofNat dwKernelSize))
    requestInitrd grub optLinux.szInitrd

/-! ## Which requests there are -/

section Requests

variable (grub : Grub) (optLinux : OptLinux) (szGrub memory : Memory)

def kernelRequest : Memory :=
  szGrub.store 4 (strncpy optLinux.szKernel optLinux.szKernel.length)

def initrdRequest : Memory :=
  (kernelRequest optLinux szGrub).store 4 (strncpy optLinux.szInitrd maxLine)

/-- The kernel file can be opened. -/
def KernelOpens : Prop := (grub (kernelRequest optLinux szGrub)).nRet = 1

/-- The kernel file is not an ELF image that is started. -/
def KernelGoesOn : Prop :=
  let (dwKernelSize, bytes) := (grub (kernelRequest optLinux szGrub)).read maxKernelSize
  KernelReturns initrdStart (UInt32.ofNat dwKernelSize) (kernelRead memory bytes)

/-- There is an initrd, and the kernel before it can be opened and is not started. -/
structure AsksForInitrd : Prop where
  opens : KernelOpens grub optLinux szGrub
  goesOn : KernelGoesOn grub optLinux szGrub memory
  named : optLinux.szInitrd ≠ []

open Classical in
/-- The paths of the files that are asked for. -/
noncomputable def paths : List (List Byte) :=
  optLinux.szKernel ::
    if AsksForInitrd grub optLinux szGrub memory then [optLinux.szInitrd] else []

open Classical in
noncomputable def requests : List Memory :=
  kernelRequest optLinux szGrub ::
    if AsksForInitrd grub optLinux szGrub memory then [initrdRequest optLinux szGrub] else []

open Classical in
noncomputable def requestWrites : List Extent :=
  ⟨4, optLinux.szKernel.length⟩ ::
    if AsksForInitrd grub optLinux szGrub memory then [⟨4, maxLine⟩] else []

end Requests

section Rules

variable {grub : Grub} {optLinux : OptLinux} {native : Native} {cut : Native → Prop}

@[simp] theorem ensures_onRam {α : Type} {program : Program Ram α}
    {returned : α → Native → Prop} :
    (onRam program).Ensures native cut returned ↔
      program.Ensures native.ram (fun ram => cut { native with ram := ram })
        fun result ram => returned result { native with ram := ram } := ensures_within

@[simp] theorem ensures_copyPath {path : List Byte} {count : Nat}
    {returned : Unit → Native → Prop} :
    (copyPath path count).Ensures native cut returned ↔
      returned () { native with
        szGrub := native.szGrub.store 4 (strncpy path count)
        written := native.written ++ [⟨4, (strncpy path count).length⟩] } := Iff.rfl

@[simp] theorem ensures_grubOpen {returned : GrubFile → Native → Prop} :
    (grubOpen grub).Ensures native cut returned ↔
      returned (grub native.szGrub)
        { native with opened := native.opened ++ [native.szGrub] } := Iff.rfl

@[simp] theorem length_strncpy (string : List Byte) (count : Nat) :
    (strncpy string count).length = count := by
  rw [strncpy, List.length_take, List.length_append, List.length_replicate]
  omega

/-- A path with its end is copied whole if there is room for it. -/
theorem strncpy_of_le {string : List Byte} {count : Nat} (fits : string.length ≤ count) :
    strncpy string count = string ++ List.replicate (count - string.length) 0 := by
  rw [strncpy, List.take_of_length_le]
  rw [List.length_append, List.length_replicate]
  omega

/-- Without an initrd nothing more is asked for. -/
theorem requestInitrd_spec (szInitrd : List Byte) :
    (requestInitrd grub szInitrd).Ensures native (fun _ => False) fun _ after =>
      after.opened = native.opened ++
          (if szInitrd ≠ [] then [native.szGrub.store 4 (strncpy szInitrd maxLine)] else []) ∧
        after.written = native.written ++ if szInitrd ≠ [] then [⟨4, maxLine⟩] else [] := by
  unfold requestInitrd
  rw [ensures_ite]
  constructor
  · intro some
    have initrd : szInitrd ≠ [] := fun none => some (by rw [none]; rfl)
    rw [if_pos initrd, if_pos initrd, ensures_bind, ensures_copyPath, ensures_bind,
      ensures_grubOpen, length_strncpy, ensures_ite]
    refine ⟨fun _ => ⟨rfl, rfl⟩, fun _ => ?_⟩
    rw [ensures_ite]
    exact ⟨fun _ => ⟨rfl, rfl⟩, fun _ => ⟨rfl, rfl⟩⟩
  · intro none
    have initrd : szInitrd = [] := List.length_eq_zero_iff.mp (not_not.mp none)
    rw [ensures_pure, if_neg (not_not.mpr initrd), if_neg (not_not.mpr initrd), List.append_nil,
      List.append_nil]
    exact ⟨rfl, rfl⟩

/-- Wherever a load stops, its requests have been passed and written. -/
theorem requestLinux_spec (grub : Grub) (optLinux : OptLinux) (native : Native) :
    (requestLinux grub optLinux).Ensures native
      (fun cutOff =>
        cutOff.opened = native.opened ++ requests grub optLinux native.szGrub native.ram.memory ∧
          cutOff.written = native.written ++
            requestWrites grub optLinux native.szGrub native.ram.memory)
      fun _ after =>
        after.opened = native.opened ++ requests grub optLinux native.szGrub native.ram.memory ∧
          after.written = native.written ++
            requestWrites grub optLinux native.szGrub native.ram.memory := by
  unfold requestLinux
  rw [ensures_bind, ensures_onRam, ensures_clear, ensures_bind, ensures_copyPath, ensures_bind,
    ensures_grubOpen, length_strncpy, ensures_ite]
  -- Without an initrd to ask for there is one request.
  have alone : ¬AsksForInitrd grub optLinux native.szGrub native.ram.memory →
      requests grub optLinux native.szGrub native.ram.memory =
          [kernelRequest optLinux native.szGrub] ∧
        requestWrites grub optLinux native.szGrub native.ram.memory =
          [⟨4, optLinux.szKernel.length⟩] := by
    intro alone
    rw [requests, requestWrites, if_neg alone, if_neg alone]
    exact ⟨rfl, rfl⟩
  constructor
  · intro closed
    obtain ⟨passed, written⟩ := alone fun asks => closed asks.opens
    rw [ensures_pure, passed, written]
    exact ⟨rfl, rfl⟩
  · intro opened
    rw [ensures_bind, ensures_onRam, ensures_grubRead, ensures_bind, ensures_onRam]
    refine (memPlaceKernel_ensures _ _ _).mono ?_ ?_
    · rintro _ ⟨started, -⟩
      obtain ⟨passed, written⟩ := alone fun asks => started asks.goesOn
      rw [passed, written]
      exact ⟨rfl, rfl⟩
    · rintro _ _ ⟨goesOn, -⟩
      refine (requestInitrd_spec optLinux.szInitrd).mono (fun _ never => never.elim) ?_
      rintro _ after ⟨passed, written⟩
      have asks : AsksForInitrd grub optLinux native.szGrub native.ram.memory ↔
          optLinux.szInitrd ≠ [] :=
        ⟨AsksForInitrd.named, fun named => ⟨not_not.mp opened, goesOn, named⟩⟩
      rw [passed, written, requests, requestWrites, List.append_assoc, List.append_assoc]
      simp only [asks]
      exact ⟨rfl, rfl⟩

/-- The load with its requests does to the memory what `LoadLinuxNative` does. -/
theorem loadLinuxNative_of_requests {held : Ram → Prop} {returned : Bool → Ram → Prop} :
    (requestLinux grub optLinux).Ensures native (fun cutOff => held cutOff.ram)
        (fun result after => returned result after.ram) ↔
      (loadLinuxNative grub native.szGrub optLinux).Ensures native.ram held returned := by
  simp only [requestLinux, requestInitrd, loadLinuxNative, ensures_bind, ensures_onRam,
    ensures_copyPath, ensures_grubOpen, ensures_ite, ensures_clear, ensures_grubRead,
    ensures_pure]

end Rules

/-! ## What should be requested -/

section Exactness

variable {grub : Grub} {optLinux : OptLinux} {drive partition : Int32}
  {block szGrub memory : Memory} {ram : Ram}

/-- A request is a header, a path and the end of the path. -/
def Requests (drive partition : Int32) (path : List Byte) (szGrub : Memory) : Prop :=
  szGrub.bytes 0 4 = requestHeader drive partition ∧
    szGrub.bytes 4 (path.length + 1) = path ++ [0]

/-- Every file is asked for by its path, and only the request is written to. -/
def RequestedWithin (grub : Grub) (optLinux : OptLinux) (drive partition : Int32)
    (szGrub memory : Memory) (opened : List Memory) (written : List Extent) : Prop :=
  List.Forall₂ (Requests drive partition) (paths grub optLinux szGrub memory) opened ∧
    ∀ extent ∈ written, extent.Within ⟨0, grubRequestSize⟩

/-- Copying a path leaves the header of a request alone. -/
theorem header_store (szGrub : Memory) (path : List Byte) :
    (szGrub.store 4 path).bytes 0 4 = szGrub.bytes 0 4 :=
  Memory.bytes_congr fun k bound => Memory.store_outside _ (.inl (by omega))

theorem header_init (drive partition : Int32) (block : Memory) :
    (initGrubRequest grubRequestSize drive partition block).bytes 0 4 =
      requestHeader drive partition :=
  Memory.bytes_store _ 0 (requestHeader drive partition)

/-- The request has been cleared behind its header, and what is behind it is left. -/
theorem init_behind {k : Nat} (behind : 4 ≤ k) :
    initGrubRequest grubRequestSize drive partition block k =
      if k < grubRequestSize then 0 else block k := by
  rw [initGrubRequest, Memory.store_outside _ (.inr (by simpa [requestHeader] using behind))]
  split
  · next inside => exact Memory.memset_inside _ (by omega) (by omega)
  · next outside => exact Memory.memset_outside _ (.inr (by omega))

/-- A path copied without its end ends where a zero has been before. -/
theorem bytes_path (szGrub : Memory) (path : List Byte) :
    (szGrub.store 4 (strncpy path path.length)).bytes 4 (path.length + 1) =
      path ++ [szGrub (4 + path.length)] := by
  have copied : strncpy path path.length = path := by
    rw [strncpy_of_le (Nat.le_refl _), Nat.sub_self, List.replicate_zero, List.append_nil]
  have last : (szGrub.store 4 path).bytes (4 + path.length) 1 = [szGrub (4 + path.length)] := by
    change [szGrub.store 4 path (4 + path.length)] = _
    rw [Memory.store_outside _ (.inr (Nat.le_refl _))]
  rw [copied, Memory.bytes_add, Memory.bytes_store, last]

/-- The kernel is asked for by its path if there is a zero where that ends. -/
theorem kernelRequest_iff :
    Requests drive partition optLinux.szKernel
        (kernelRequest optLinux (initGrubRequest grubRequestSize drive partition block)) ↔
      (4 + optLinux.szKernel.length < grubRequestSize ∨
        block (4 + optLinux.szKernel.length) = 0) := by
  unfold Requests kernelRequest
  rw [header_store, header_init, bytes_path, init_behind (by omega)]
  simp only [true_and, List.append_cancel_left_eq, List.cons.injEq, and_true]
  split
  · next inside => exact iff_of_true rfl (.inl inside)
  · next outside => exact ⟨.inr, fun zero => zero.resolve_left outside⟩

/-- The bytes kept for an initrd do not fit behind the header. -/
theorem not_within_line : ¬Extent.Within ⟨4, maxLine⟩ ⟨0, grubRequestSize⟩ := by
  rintro ⟨-, stop⟩
  exact absurd stop (by decide)

/-- What holds after a load holds of its requests. -/
theorem requestLinux_iff {held : List Memory → List Extent → Prop} :
    ((requestLinux grub optLinux).Ensures ⟨ram, szGrub, [], []⟩
        (fun cutOff => held cutOff.opened cutOff.written)
        fun _ after => held after.opened after.written) ↔
      held (requests grub optLinux szGrub ram.memory)
        (requestWrites grub optLinux szGrub ram.memory) := by
  have spec := requestLinux_spec grub optLinux ⟨ram, szGrub, [], []⟩
  simp only [List.nil_append] at spec
  constructor
  · intro ensured
    refine Ensures.const ((ensured.and spec).mono ?_ ?_)
    · rintro _ ⟨holds, opened, written⟩
      rwa [opened, written] at holds
    · rintro _ _ ⟨holds, opened, written⟩
      rwa [opened, written] at holds
  · intro holds
    refine spec.mono ?_ ?_
    · rintro _ ⟨opened, written⟩
      rwa [opened, written]
    · rintro _ _ ⟨opened, written⟩
      rwa [opened, written]

/-- An initrd is not requested within the request. -/
theorem not_requestedWithin (asks : AsksForInitrd grub optLinux szGrub memory) :
    ¬RequestedWithin grub optLinux drive partition szGrub memory
      (requests grub optLinux szGrub memory)
      (requestWrites grub optLinux szGrub memory) := by
  rintro ⟨-, inside⟩
  rw [requestWrites, if_pos asks] at inside
  exact not_within_line (inside ⟨4, maxLine⟩ (by simp))

/-- The files are requested as they should be exactly if the path of the kernel fits, with a
zero behind it, and no initrd is asked for. -/
theorem requestLinux_within_iff (grub : Grub) (optLinux : OptLinux) (drive partition : Int32)
    (block : Memory) (ram : Ram) :
    ((requestLinux grub optLinux).Ensures
        ⟨ram, initGrubRequest grubRequestSize drive partition block, [], []⟩
        (fun cutOff => RequestedWithin grub optLinux drive partition
          (initGrubRequest grubRequestSize drive partition block) ram.memory
          cutOff.opened cutOff.written)
        fun _ after => RequestedWithin grub optLinux drive partition
          (initGrubRequest grubRequestSize drive partition block) ram.memory
          after.opened after.written) ↔
      (4 + optLinux.szKernel.length < grubRequestSize ∨
          4 + optLinux.szKernel.length = grubRequestSize ∧ block grubRequestSize = 0) ∧
        (optLinux.szInitrd = [] ∨
          ¬KernelOpens grub optLinux (initGrubRequest grubRequestSize drive partition block) ∨
          ¬KernelGoesOn grub optLinux (initGrubRequest grubRequestSize drive partition block)
            ram.memory) := by
  rw [requestLinux_iff]
  by_cases asks : AsksForInitrd grub optLinux
      (initGrubRequest grubRequestSize drive partition block) ram.memory
  · refine iff_of_false (not_requestedWithin asks) ?_
    rintro ⟨-, none | closed | started⟩
    · exact asks.named none
    · exact closed asks.opens
    · exact started asks.goesOn
  · have alone : optLinux.szInitrd = [] ∨
        ¬KernelOpens grub optLinux (initGrubRequest grubRequestSize drive partition block) ∨
        ¬KernelGoesOn grub optLinux (initGrubRequest grubRequestSize drive partition block)
          ram.memory := by
      by_contra both
      obtain ⟨named, both⟩ := not_or.mp both
      obtain ⟨opens, goesOn⟩ := not_or.mp both
      exact asks ⟨not_not.mp opens, not_not.mp goesOn, named⟩
    rw [RequestedWithin, paths, requests, requestWrites, if_neg asks, if_neg asks, if_neg asks]
    simp only [List.forall₂_cons, List.forall₂_nil_left_iff, and_true, List.mem_singleton,
      forall_eq, kernelRequest_iff, alone, Extent.Within, Nat.zero_add, Nat.zero_le, true_and]
    constructor
    · rintro ⟨inside | zero, fits⟩
      · exact .inl inside
      · rcases Nat.lt_or_eq_of_le fits with inside | full
        · exact .inl inside
        · exact .inr ⟨full, full ▸ zero⟩
    · rintro (inside | ⟨full, zero⟩)
      · exact ⟨.inl inside, Nat.le_of_lt inside⟩
      · exact ⟨.inr (full ▸ zero), Nat.le_of_eq full⟩

/-- A file of four bytes. -/
def shortFile : GrubFile where
  nRet := 1
  errnum := 0
  filemax := 4
  read len := (min len 4, List.replicate (min len 4) 0)
  read_le len := by rw [List.length_replicate]

/-- Asking for an initrd writes behind the request, however short its path is. -/
theorem requestLinux_initrd :
    ¬(requestLinux (fun _ => shortFile) ⟨text "/vmlinuz", text "/initrd", []⟩).Ensures
        ⟨⟨fun _ => 0, [], []⟩, initGrubRequest grubRequestSize 0 0 fun _ => 0, [], []⟩
        (fun cutOff => RequestedWithin (fun _ => shortFile) ⟨text "/vmlinuz", text "/initrd", []⟩
          0 0 (initGrubRequest grubRequestSize 0 0 fun _ => 0) (fun _ => 0)
          cutOff.opened cutOff.written)
        fun _ after => RequestedWithin (fun _ => shortFile)
          ⟨text "/vmlinuz", text "/initrd", []⟩ 0 0
          (initGrubRequest grubRequestSize 0 0 fun _ => 0) (fun _ => 0)
          after.opened after.written := by
  rw [requestLinux_iff]
  have goesOn : KernelGoesOn (fun _ => shortFile) ⟨text "/vmlinuz", text "/initrd", []⟩
      (initGrubRequest grubRequestSize 0 0 fun _ => 0) fun _ => 0 :=
    elfReturns_of_short (by decide)
  have asks : AsksForInitrd (fun _ => shortFile) ⟨text "/vmlinuz", text "/initrd", []⟩
      (initGrubRequest grubRequestSize 0 0 fun _ => 0) fun _ => 0 := ⟨rfl, goesOn, by decide⟩
  exact not_requestedWithin asks

end Exactness

end Cromwell.Boot
