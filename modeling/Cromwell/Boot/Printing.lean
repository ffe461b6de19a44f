import Cromwell.Boot.NativeRequest
import Cromwell.Config.Fields
import Cromwell.Video.Printk

/-!
# What the loaders print

The loaders of Linux print the names of the files they read, and `BootPrintConfig` those and
the command line. Names come from the configuration and may be longer than the buffer they
are formatted in. A loader prints no more once it has started the kernel as an ELF image.
-/

namespace Cromwell.Boot

open Cromwell.Std Cromwell.Std.Program Cromwell.Lib Cromwell.Fatx Cromwell.Config Cromwell.Video

/-! ## Calls of `printk` -/

/-- A call of `printk`. -/
structure PrintkCall where
  format : List Byte
  args : List Argument

/-- The call has a text, writes only inside the buffer, and displays the text up to the size
of that, whatever it held before. -/
def PrintkCall.Bounded (call : PrintkCall) : Prop :=
  ∃ formatted, vsprintf call.format call.args = some formatted ∧
    ∀ szBuffer, Video.Bounded szBuffer formatted

section Calls

variable {call : PrintkCall} {front back s formatted : List Byte}

/-- A call stays in the buffer exactly if its text, with its zero, is no longer than that. -/
theorem PrintkCall.bounded_iff (text : vsprintf call.format call.args = some formatted)
    (nonzero : ∀ c ∈ formatted, c ≠ 0) : call.Bounded ↔ formatted.length < szBufferSize := by
  constructor
  · rintro ⟨other, same, bounded⟩
    rw [text] at same
    cases same
    exact (Video.bounded_iff nonzero).mp (bounded fun _ => 0)
  · exact fun short => ⟨formatted, text, fun szBuffer => (Video.bounded_iff nonzero).mpr short⟩

end Calls

/-- What a loader prints, and what it returns unless it has started the kernel. -/
structure Printing where
  printks : List PrintkCall
  result : Option Bool

/-- A call with one string for an argument. -/
def printkString (format : String) (s : List Byte) : PrintkCall := ⟨text format, [.string s]⟩

/-- A call with nothing but numbers for arguments. -/
def printkNumbers (format : String) (numbers : List Int32) : PrintkCall :=
  ⟨text format, numbers.map .int⟩

/-! ## The loaders -/

/-- `LoadLinuxNative`, with what opening the two files has led to and whether placing the
kernel has come to an end. -/
def loadLinuxNative.printing (kernel initrd : GrubFile) (goesOn : Bool) (optLinux : OptLinux) :
    Printing :=
  let loading := printkString "  Loading %s " optLinux.szKernel
  if kernel.nRet ≠ 1 then
    ⟨[loading, printkNumbers "Unable to load kernel, Grub error %d\n"
      [Int32.ofNat kernel.errnum]], some false⟩
  else if goesOn = false then
    ⟨[loading], none⟩
  else
    let dwKernelSize := Int32.ofNat (kernel.read maxKernelSize).1
    let kernelLoaded := [loading, printkNumbers " - %d bytes\n" [dwKernelSize]]
    if optLinux.szInitrd.length ≠ 0 then
      let loading := printkString "  Loading %s " optLinux.szInitrd
      if initrd.filemax = 0 then
        ⟨kernelLoaded ++ [loading, printkNumbers "Error: initrd file is empty!\n" []], some false⟩
      else if initrd.nRet ≠ 1 ∨ initrd.errnum ≠ 0 then
        ⟨kernelLoaded ++ [loading, printkNumbers "Unable to load initrd, Grub error %d\n"
          [Int32.ofNat initrd.errnum]], some false⟩
      else
        ⟨kernelLoaded ++ [loading, printkNumbers " - %d bytes\n"
          [Int32.ofNat initrd.filemax]], some true⟩
    else
      ⟨kernelLoaded ++ [printkNumbers "  No initrd from config file" []], some true⟩

/-- `LoadLinuxFATX`, with what loading the two files has led to and the same. -/
def loadLinuxFATX.printing (kernel initrd : Bool × FATXFileInfo) (goesOn : Bool)
    (optLinux : OptLinux) : Printing :=
  let loading := printkString "  Loading %s from FATX" optLinux.szKernel
  if kernel.1 = false then
    ⟨[loading, printkString "Error loading kernel %s\n" optLinux.szKernel], some false⟩
  else if goesOn = false then
    ⟨[loading], none⟩
  else
    let kernelLoaded := [loading, printkNumbers " - %d bytes\n" [kernel.2.fileRead.toInt32]]
    if optLinux.szInitrd.length ≠ 0 then
      let loading := printkString "  Loading %s from FATX" optLinux.szInitrd
      if initrd.1 = false then
        ⟨kernelLoaded ++ [loading, printkString "Error loading initrd %s\n" optLinux.szInitrd],
          some false⟩
      else
        ⟨kernelLoaded ++ [loading, printkNumbers " - %d %d bytes\n"
          [initrd.2.fileSize.toInt32, initrd.2.fileRead.toInt32]], some true⟩
    else
      ⟨kernelLoaded ++ [printkNumbers "  No initrd from config file" [], printkNumbers "" []],
        some true⟩

/-- `LoadLinuxCD`, with the sizes of the two files or what has failed, and the same. -/
def loadLinuxCD.printing (dwKernelSize dwInitrdSize : Int32) (goesOn : Bool)
    (optLinux : OptLinux) : Printing :=
  let loading := printkString "  Loading %s from CD" optLinux.szKernel
  if dwKernelSize < 0 then
    ⟨[loading, printkNumbers "Not Found, error %d\nHalting\n" [dwKernelSize]], some false⟩
  else if goesOn = false then
    ⟨[loading], none⟩
  else
    let kernelLoaded := [loading, printkNumbers " - %d bytes\n" [dwKernelSize]]
    if optLinux.szInitrd.length ≠ 0 then
      let loading := printkString "  Loading %s from CD" optLinux.szInitrd
      if dwInitrdSize < 0 then
        ⟨kernelLoaded ++ [loading, printkNumbers "Not Found, error %d\nHalting\n"
          [dwInitrdSize]], some false⟩
      else
        ⟨kernelLoaded ++ [loading, printkNumbers " - %d bytes\n" [dwInitrdSize]], some true⟩
    else
      ⟨kernelLoaded ++ [printkNumbers "  No initrd from config file" [], printkNumbers "" []],
        some true⟩

/-- The loop of `BootPrintConfig` over the rest of the command line. -/
def printCommandLine : (szAppend : List Byte) → (CharsSinceNewline : Nat) → List PrintkCall
  | [], _ => []
  | c :: rest, CharsSinceNewline =>
    let CharsSinceNewline := CharsSinceNewline + 1
    if 50 < CharsSinceNewline ∧ c = 0x20 ∨ 65 < CharsSinceNewline then
      printkNumbers "\n" [] ::
        ((if 25 < CharsSinceNewline then [⟨text "%c", [.char c]⟩] else []) ++
          printCommandLine rest 0)
    else ⟨text "%c", [.char c]⟩ :: printCommandLine rest CharsSinceNewline

/-- `BootPrintConfig` -/
def bootPrintConfig (optLinux : OptLinux) : List PrintkCall :=
  printkString "  Bootconfig : Kernel  %s \n" optLinux.szKernel ::
    ((if optLinux.szInitrd.length ≠ 0 then
        [printkString "  Bootconfig : Initrd  %s \n" optLinux.szInitrd]
      else []) ++
      printkNumbers "  Bootconfig : Kernel commandline :\n" [] ::
        (printCommandLine optLinux.szAppend 0 ++ [printkNumbers "\n" []]))

/-- The native loader returns what it has printed to have come to, and does not return if
the kernel is started. -/
theorem loadLinuxNative_printing {optLinux : OptLinux} {ram : Ram} (grub : Grub)
    (szGrub : Memory) :
    (loadLinuxNative grub szGrub optLinux).Ensures ram
      (fun _ => ¬KernelGoesOn grub optLinux szGrub ram.memory ∧
        (loadLinuxNative.printing (grub (kernelRequest optLinux szGrub))
          (grub (initrdRequest optLinux szGrub)) false optLinux).result = none)
      fun result _ =>
        (KernelOpens grub optLinux szGrub → KernelGoesOn grub optLinux szGrub ram.memory) ∧
          (loadLinuxNative.printing (grub (kernelRequest optLinux szGrub))
            (grub (initrdRequest optLinux szGrub)) true optLinux).result = some result := by
  simp only [loadLinuxNative, ensures_bind, ensures_ite, ensures_clear, ensures_grubRead,
    ensures_pure]
  unfold loadLinuxNative.printing initrdRequest kernelRequest
  dsimp only
  constructor
  · intro failed
    exact ⟨fun opens => absurd opens failed, by rw [if_pos failed]⟩
  · intro opened
    rw [if_neg opened, if_neg opened]
    refine (memPlaceKernel_ensures _ _ _).mono ?_ ?_
    · rintro _ ⟨started, -⟩
      exact ⟨started, by rw [if_pos rfl]⟩
    · rintro _ _ ⟨goesOn, -⟩
      rw [if_neg (by decide)]
      refine ⟨fun named => ?_, fun unnamed => ⟨fun _ => goesOn, by rw [if_neg unnamed]⟩⟩
      rw [if_pos named]
      refine ⟨fun empty => ⟨fun _ => goesOn, by rw [if_pos empty]⟩, fun some => ?_⟩
      rw [if_neg some]
      exact ⟨fun failed => ⟨fun _ => goesOn, by rw [if_pos failed]⟩,
        fun opened => ⟨fun _ => goesOn, by rw [if_neg opened]⟩⟩

/-! ## Which calls are bounded -/

section Formats

variable {format : String} {s : List Byte}

/-- A call with a string for its argument is bounded exactly if that fits between what the
format has on its two sides. -/
theorem printkString_bounded_iff {front back : List Byte} {room : Nat} (solid : ∀ c ∈ s, c ≠ 0)
    (plain : ∀ c ∈ text format, c ≠ 0)
    (made : vsprintf (text format) [.string s] = some (front ++ (s ++ back)))
    (total : front.length + back.length + room + 1 = szBufferSize) :
    (printkString format s).Bounded ↔ s.length ≤ room := by
  have nonzero := vsprintf_nonzero made plain (by simpa using solid)
  have call : (printkString format s).Bounded ↔ (front ++ (s ++ back)).length < szBufferSize :=
    PrintkCall.bounded_iff made nonzero
  rw [call, ← total]
  simp only [List.length_append]
  omega

/-- A call with numbers for its arguments is bounded if its format is short. -/
theorem printkNumbers_bounded {numbers : List Int32} {formatted : List Byte}
    (plain : ∀ c ∈ text format, c ≠ 0)
    (short : (text format).length + 11 * numbers.length < szBufferSize)
    (made : vsprintf (text format) (numbers.map .int) = some formatted) :
    (printkNumbers format numbers).Bounded := by
  have nonzero : ∀ c ∈ formatted, c ≠ 0 := by
    apply vsprintf_nonzero made plain
    intro argument member
    obtain ⟨num, -, rfl⟩ := List.mem_map.mp member
    exact number_nonzero num
  have sum : ∀ numbers : List Int32, ((numbers.map Argument.int).map fun argument =>
      argument.characters.length).sum ≤ 11 * numbers.length := by
    intro numbers
    induction numbers with
    | nil => simp
    | cons num numbers ih =>
        have digits := length_number_le num
        simp only [List.map_cons, List.sum_cons, characters_int, List.length_cons]
        omega
  have bound := length_vsprintf_le made
  have digits := sum numbers
  exact (PrintkCall.bounded_iff made nonzero).mpr (by omega)

/-- One character fits. -/
theorem printkChar_bounded {c : Byte} (solid : c ≠ 0) :
    PrintkCall.Bounded ⟨text "%c", [.char c]⟩ := by
  have made : vsprintf (text "%c") [.char c] = some [c] := rfl
  exact (PrintkCall.bounded_iff made (by simpa using solid)).mpr (by simp [szBufferSize])

@[simp] theorem noArguments_newline :
    (printkNumbers "\n" []).Bounded :=
  printkNumbers_bounded (by decide) (by simp [szBufferSize, text]) rfl

@[simp] theorem noArguments_empty :
    (printkNumbers "" []).Bounded :=
  printkNumbers_bounded (by decide) (by simp [szBufferSize, text]) rfl

@[simp] theorem noArguments_noInitrd :
    (printkNumbers "  No initrd from config file" []).Bounded :=
  printkNumbers_bounded (by decide) (by simp [szBufferSize, text]) rfl

@[simp] theorem noArguments_emptyInitrd :
    (printkNumbers "Error: initrd file is empty!\n" []).Bounded :=
  printkNumbers_bounded (by decide) (by simp [szBufferSize, text]) rfl

@[simp] theorem noArguments_commandLine :
    (printkNumbers "  Bootconfig : Kernel commandline :\n" []).Bounded :=
  printkNumbers_bounded (by decide) (by simp [szBufferSize, text]) rfl

@[simp] theorem number_bytes (num : Int32) :
    (printkNumbers " - %d bytes\n" [num]).Bounded :=
  printkNumbers_bounded (by decide) (by simp [szBufferSize, text]) rfl

@[simp] theorem numbers_bytes (first second : Int32) :
    (printkNumbers " - %d %d bytes\n" [first, second]).Bounded :=
  printkNumbers_bounded (by decide) (by simp [szBufferSize, text]) rfl

@[simp] theorem number_kernelError (num : Int32) :
    (printkNumbers "Unable to load kernel, Grub error %d\n" [num]).Bounded :=
  printkNumbers_bounded (by decide) (by simp [szBufferSize, text]) rfl

@[simp] theorem number_initrdError (num : Int32) :
    (printkNumbers "Unable to load initrd, Grub error %d\n" [num]).Bounded :=
  printkNumbers_bounded (by decide) (by simp [szBufferSize, text]) rfl

@[simp] theorem number_notFound (num : Int32) :
    (printkNumbers "Not Found, error %d\nHalting\n" [num]).Bounded :=
  printkNumbers_bounded (by decide) (by simp [szBufferSize, text]) rfl

/-- The command line is printed character by character, so that it always fits. -/
theorem printCommandLine_bounded {szAppend : List Byte} (solid : ∀ c ∈ szAppend, c ≠ 0)
    (CharsSinceNewline : Nat) :
    ∀ call ∈ printCommandLine szAppend CharsSinceNewline, call.Bounded := by
  induction szAppend generalizing CharsSinceNewline with
  | nil => simp [printCommandLine]
  | cons c rest ih =>
      obtain ⟨first, later⟩ := List.forall_mem_cons.mp solid
      have char := printkChar_bounded first
      unfold printCommandLine
      dsimp only
      split
      · rw [List.forall_mem_cons, List.forall_mem_append]
        refine ⟨noArguments_newline, ?_, ih later 0⟩
        split
        · simpa using char
        · simp
      · exact List.forall_mem_cons.mpr ⟨char, ih later _⟩

/-- Eleven characters stand around the name of a native file. -/
theorem loading_native_iff (solid : ∀ c ∈ s, c ≠ 0) :
    (printkString "  Loading %s " s).Bounded ↔ s.length ≤ 1012 := by
  have made : vsprintf (text "  Loading %s ") [.string s] =
      some (text "  Loading " ++ (s ++ text " ")) := rfl
  exact printkString_bounded_iff solid (by decide) made rfl

/-- Twenty stand around that of a FATX file. -/
theorem loading_fatx_iff (solid : ∀ c ∈ s, c ≠ 0) :
    (printkString "  Loading %s from FATX" s).Bounded ↔ s.length ≤ 1003 := by
  have made : vsprintf (text "  Loading %s from FATX") [.string s] =
      some (text "  Loading " ++ (s ++ text " from FATX")) := rfl
  exact printkString_bounded_iff solid (by decide) made rfl

/-- Twenty-two stand around the name of a kernel that was not loaded. -/
theorem error_kernel_iff (solid : ∀ c ∈ s, c ≠ 0) :
    (printkString "Error loading kernel %s\n" s).Bounded ↔ s.length ≤ 1001 := by
  have made : vsprintf (text "Error loading kernel %s\n") [.string s] =
      some (text "Error loading kernel " ++ (s ++ text "\n")) := rfl
  exact printkString_bounded_iff solid (by decide) made rfl

/-- So do around that of an initrd. -/
theorem error_initrd_iff (solid : ∀ c ∈ s, c ≠ 0) :
    (printkString "Error loading initrd %s\n" s).Bounded ↔ s.length ≤ 1001 := by
  have made : vsprintf (text "Error loading initrd %s\n") [.string s] =
      some (text "Error loading initrd " ++ (s ++ text "\n")) := rfl
  exact printkString_bounded_iff solid (by decide) made rfl

/-- Eighteen stand around that of a file on a CD. -/
theorem loading_cd_iff (solid : ∀ c ∈ s, c ≠ 0) :
    (printkString "  Loading %s from CD" s).Bounded ↔ s.length ≤ 1005 := by
  have made : vsprintf (text "  Loading %s from CD") [.string s] =
      some (text "  Loading " ++ (s ++ text " from CD")) := rfl
  exact printkString_bounded_iff solid (by decide) made rfl

/-- Twenty-five stand around a kernel in the list of the configuration. -/
theorem bootconfig_kernel_iff (solid : ∀ c ∈ s, c ≠ 0) :
    (printkString "  Bootconfig : Kernel  %s \n" s).Bounded ↔ s.length ≤ 998 := by
  have made : vsprintf (text "  Bootconfig : Kernel  %s \n") [.string s] =
      some (text "  Bootconfig : Kernel  " ++ (s ++ text " \n")) := rfl
  exact printkString_bounded_iff solid (by decide) made rfl

/-- So do around an initrd. -/
theorem bootconfig_initrd_iff (solid : ∀ c ∈ s, c ≠ 0) :
    (printkString "  Bootconfig : Initrd  %s \n" s).Bounded ↔ s.length ≤ 998 := by
  have made : vsprintf (text "  Bootconfig : Initrd  %s \n") [.string s] =
      some (text "  Bootconfig : Initrd  " ++ (s ++ text " \n")) := rfl
  exact printkString_bounded_iff solid (by decide) made rfl

end Formats

/-! ## What the loaders get through -/

/-- All calls are bounded. -/
def AllBounded (printks : List PrintkCall) : Prop := ∀ call ∈ printks, call.Bounded

/-- The strings of a configuration are those of an entry, terminated within their arrays. -/
structure OptLinux.HeldBy (optLinux : OptLinux) (entry : ConfigEntry) : Prop where
  szKernel : Config.Holds (ConfigEntry.contents entry .szKernel) optLinux.szKernel
  szInitrd : Config.Holds (ConfigEntry.contents entry .szInitrd) optLinux.szInitrd
  szAppend : Config.Holds (ConfigEntry.contents entry .szAppend) optLinux.szAppend

section Loaders

variable {entry : ConfigEntry} {optLinux : OptLinux} (held : optLinux.HeldBy entry)

include held

/-- Of the native loader: the kernel is always named, the initrd once the kernel has come back. -/
theorem loadLinuxNative.bounded_iff (kernel initrd : GrubFile) (goesOn : Bool) :
    AllBounded (loadLinuxNative.printing kernel initrd goesOn optLinux).printks ↔
      optLinux.szKernel.length ≤ 1012 ∧
        (kernel.nRet = 1 → goesOn = true → optLinux.szInitrd.length ≤ 1012) := by
  have kernelName := loading_native_iff held.szKernel.1
  have initrdName := loading_native_iff held.szInitrd.1
  unfold loadLinuxNative.printing AllBounded
  dsimp only
  by_cases opened : kernel.nRet = 1
  · rw [if_neg (not_not.mpr opened)]
    cases goesOn with
    | false => simp [kernelName]
    | true =>
        rw [if_neg (by decide)]
        by_cases unnamed : optLinux.szInitrd.length = 0
        · simp [unnamed, opened, kernelName]
        · rw [if_pos unnamed]
          split
          · simp [opened, kernelName, initrdName]
          · split
            · simp [opened, kernelName, initrdName]
            · simp [opened, kernelName, initrdName]
  · simp [opened, kernelName]

/-- Of the FATX loader: where a file cannot be loaded its name is printed once more. -/
theorem loadLinuxFATX.bounded_iff (kernel initrd : Bool × FATXFileInfo) (goesOn : Bool) :
    AllBounded (loadLinuxFATX.printing kernel initrd goesOn optLinux).printks ↔
      optLinux.szKernel.length ≤ (if kernel.1 then 1003 else 1001) ∧
        (kernel.1 = true → goesOn = true →
          optLinux.szInitrd.length ≤ (if initrd.1 then 1003 else 1001)) := by
  have kernelName := loading_fatx_iff held.szKernel.1
  have initrdName := loading_fatx_iff held.szInitrd.1
  have kernelError := error_kernel_iff held.szKernel.1
  have initrdError := error_initrd_iff held.szInitrd.1
  unfold loadLinuxFATX.printing AllBounded
  dsimp only
  cases loaded : kernel.1 with
  | false =>
      simp [kernelName, kernelError]
      omega
  | true =>
      rw [if_neg (by decide)]
      cases goesOn with
      | false => simp [kernelName]
      | true =>
          rw [if_neg (by decide)]
          by_cases unnamed : optLinux.szInitrd.length = 0
          · simp [unnamed, kernelName]
          · rw [if_pos unnamed]
            cases initrd.1 with
            | false =>
                simp [kernelName, initrdName, initrdError]
                omega
            | true => simp [kernelName, initrdName]

/-- Of the CD loader, as of the native one. -/
theorem loadLinuxCD.bounded_iff (dwKernelSize dwInitrdSize : Int32) (goesOn : Bool) :
    AllBounded (loadLinuxCD.printing dwKernelSize dwInitrdSize goesOn optLinux).printks ↔
      optLinux.szKernel.length ≤ 1005 ∧
        (0 ≤ dwKernelSize → goesOn = true → optLinux.szInitrd.length ≤ 1005) := by
  have kernelName := loading_cd_iff held.szKernel.1
  have initrdName := loading_cd_iff held.szInitrd.1
  unfold loadLinuxCD.printing AllBounded
  dsimp only
  by_cases failed : dwKernelSize < 0
  · have negative : ¬0 ≤ dwKernelSize := Int32.not_le.mpr failed
    simp [failed, negative, kernelName]
  · have positive : 0 ≤ dwKernelSize := Int32.not_lt.mp failed
    rw [if_neg failed]
    cases goesOn with
    | false => simp [kernelName]
    | true =>
        rw [if_neg (by decide)]
        by_cases unnamed : optLinux.szInitrd.length = 0
        · simp [unnamed, positive, kernelName]
        · rw [if_pos unnamed]
          split
          · simp [positive, kernelName, initrdName]
          · simp [positive, kernelName, initrdName]

/-- The list of the configuration names both files. -/
theorem bootPrintConfig_bounded_iff :
    AllBounded (bootPrintConfig optLinux) ↔
      optLinux.szKernel.length ≤ 998 ∧ optLinux.szInitrd.length ≤ 998 := by
  have kernelName := bootconfig_kernel_iff held.szKernel.1
  have initrdName := bootconfig_initrd_iff held.szInitrd.1
  have commandLine := printCommandLine_bounded held.szAppend.1 0
  unfold bootPrintConfig AllBounded
  rw [List.forall_mem_cons, List.forall_mem_append, List.forall_mem_cons, List.forall_mem_append,
    kernelName, iff_true_intro commandLine]
  by_cases unnamed : optLinux.szInitrd.length = 0
  · simp [unnamed]
  · simp [unnamed, initrdName]

/-- Everything that the loaders and `BootPrintConfig` print stays in the buffer exactly if the
names that are printed leave room for what is printed with them. -/
theorem printks_bounded_iff (kernel initrd : GrubFile)
    (fatxKernel fatxInitrd : Bool × FATXFileInfo) (dwKernelSize dwInitrdSize : Int32)
    (goesOn : Bool) :
    (AllBounded (loadLinuxNative.printing kernel initrd goesOn optLinux).printks ↔
      optLinux.szKernel.length ≤ 1012 ∧
        (kernel.nRet = 1 → goesOn = true → optLinux.szInitrd.length ≤ 1012)) ∧
    (AllBounded (loadLinuxFATX.printing fatxKernel fatxInitrd goesOn optLinux).printks ↔
      optLinux.szKernel.length ≤ (if fatxKernel.1 then 1003 else 1001) ∧
        (fatxKernel.1 = true → goesOn = true →
          optLinux.szInitrd.length ≤ (if fatxInitrd.1 then 1003 else 1001))) ∧
    (AllBounded (loadLinuxCD.printing dwKernelSize dwInitrdSize goesOn optLinux).printks ↔
      optLinux.szKernel.length ≤ 1005 ∧
        (0 ≤ dwKernelSize → goesOn = true → optLinux.szInitrd.length ≤ 1005)) ∧
    (AllBounded (bootPrintConfig optLinux) ↔
      optLinux.szKernel.length ≤ 998 ∧ optLinux.szInitrd.length ≤ 998) :=
  ⟨loadLinuxNative.bounded_iff held kernel initrd goesOn,
    loadLinuxFATX.bounded_iff held fatxKernel fatxInitrd goesOn,
    loadLinuxCD.bounded_iff held dwKernelSize dwInitrdSize goesOn,
    bootPrintConfig_bounded_iff held⟩

end Loaders

/-! ## Entries that name a kernel only -/

/-- An entry with the name of a kernel. -/
def namedEntry (szKernel : List Byte) : ConfigEntry :=
  Memory.store emptyEntry Field.szKernel.array.start szKernel

/-- The entry holds the name of its kernel and two empty strings. -/
theorem heldBy_namedEntry {szKernel : List Byte} (solid : ∀ c ∈ szKernel, c ≠ 0)
    (short : szKernel.length < Config.maxLine) :
    (⟨szKernel, [], []⟩ : OptLinux).HeldBy (namedEntry szKernel) := by
  have fits : szKernel.length ≤ Field.szKernel.array.length := Nat.le_of_lt short
  have empty : ∀ field, field ≠ .szKernel → field.array.length = Config.maxLine →
      Config.Holds (ConfigEntry.contents (namedEntry szKernel) field) [] := by
    intro field different long
    unfold namedEntry
    rw [contents_store_other different fits, contents_emptyEntry, long]
    exact ⟨by simp, List.replicate 2047 0, rfl⟩
  refine ⟨⟨solid, List.replicate (Config.maxLine - szKernel.length - 1) 0, ?_⟩,
    empty _ (by decide) rfl, empty _ (by decide) rfl⟩
  unfold namedEntry
  rw [contents_store fits, contents_emptyEntry, List.drop_replicate, ← List.replicate_succ]
  have count : Field.szKernel.array.length - szKernel.length =
      Config.maxLine - szKernel.length - 1 + 1 := by
    change Config.maxLine - szKernel.length = _
    omega
  rw [count]

/-- A file without contents. -/
def emptyGrubFile : GrubFile where
  nRet := 1
  errnum := 0
  filemax := 0
  read _ := (0, [])
  read_le len := by
    rw [List.length_nil]
    exact Nat.zero_le _

/-- What is known of it. -/
def emptyFileinfo : FATXFileInfo := ⟨[], 0, 0, 0⟩

/-- A configuration without an initrd. -/
def vmlinuz : OptLinux := ⟨text "/vmlinuz", [], []⟩

theorem printks_bounded_iff_vmlinuz :
    (AllBounded (loadLinuxNative.printing emptyGrubFile emptyGrubFile true vmlinuz).printks ↔
      vmlinuz.szKernel.length ≤ 1012 ∧
        (emptyGrubFile.nRet = 1 → true = true → vmlinuz.szInitrd.length ≤ 1012)) ∧
    (AllBounded (loadLinuxFATX.printing (true, emptyFileinfo) (true, emptyFileinfo) true
        vmlinuz).printks ↔
      vmlinuz.szKernel.length ≤ (if (true, emptyFileinfo).1 then 1003 else 1001) ∧
        ((true, emptyFileinfo).1 = true → true = true → vmlinuz.szInitrd.length ≤
          (if (true, emptyFileinfo).1 then 1003 else 1001))) ∧
    (AllBounded (loadLinuxCD.printing 0 0 true vmlinuz).printks ↔
      vmlinuz.szKernel.length ≤ 1005 ∧
        ((0 : Int32) ≤ 0 → true = true → vmlinuz.szInitrd.length ≤ 1005)) ∧
    (AllBounded (bootPrintConfig vmlinuz) ↔
      vmlinuz.szKernel.length ≤ 998 ∧ vmlinuz.szInitrd.length ≤ 998) := by
  have held : vmlinuz.HeldBy (namedEntry (text "/vmlinuz")) :=
    heldBy_namedEntry (by decide) (by decide)
  exact printks_bounded_iff held emptyGrubFile emptyGrubFile (true, emptyFileinfo)
    (true, emptyFileinfo) 0 0 true

/-- A name that fits its array, and is longer than the buffer. -/
def longName : List Byte := List.replicate 2047 0x61

/-- It is printed behind the end of the buffer. -/
theorem not_printks_bounded : ¬∀ (entry : ConfigEntry) (optLinux : OptLinux),
    optLinux.HeldBy entry → ∀ (kernel initrd : GrubFile) (goesOn : Bool),
      AllBounded (loadLinuxNative.printing kernel initrd goesOn optLinux).printks := by
  intro bounded
  have length : longName.length = 2047 := List.length_replicate
  have solid : ∀ c ∈ longName, c ≠ 0 := by
    intro c member
    rw [List.eq_of_mem_replicate member]
    decide
  have short : longName.length < Config.maxLine := by
    rw [length]
    decide
  have held := heldBy_namedEntry solid short
  have room := ((loadLinuxNative.bounded_iff held emptyGrubFile emptyGrubFile true).mp
    (bounded _ _ held emptyGrubFile emptyGrubFile true)).1
  dsimp only at room
  rw [length] at room
  exact absurd room (by decide)

end Cromwell.Boot
