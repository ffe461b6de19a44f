import Cromwell.Video.Conexant
import Cromwell.Video.Focus
import Cromwell.Video.VideoInitialization

/-!
# The timings of the Focus encoder

`focus_calc_mode` fills the registers of the encoder and the timings for the GPU, and
reports success also where the search for the PLL settings found nothing: then the
timings are those that the caller's structure held before. The caller takes them over
either way, and programs them if success was reported.
-/

namespace Cromwell.Video

open Cromwell.Std

/-! ## focus_calc_mode -/

/-- `focus_defaults`. -/
def focusDefaults : List Byte :=
  [0x00, 0x00, 0x00, 0x00, 0x80, 0x02, 0xaa, 0x0a,
    0x00, 0x10, 0x00, 0x00, 0x03, 0x21, 0x15, 0x04,
    0x00, 0xe9, 0x07, 0x00, 0x80, 0xf5, 0x20, 0x00,
    0xef, 0x21, 0x1f, 0x00, 0x03, 0x03, 0x00, 0x00,
    0x00, 0x00, 0x00, 0x00, 0x00, 0x00, 0x10, 0x00,
    0x0c, 0x01, 0x00, 0x00, 0x00, 0x00, 0x08, 0x11,
    0x00, 0x0f, 0x05, 0xfe, 0x0b, 0x80, 0x00, 0x00,
    0xa4, 0x00, 0x00, 0x00, 0x00, 0x00, 0x00, 0x00,
    0x2a, 0x09, 0x8a, 0xcb, 0x00, 0x00, 0x8d, 0x00,
    0x7c, 0x3c, 0x9a, 0x2f, 0x21, 0x01, 0x3f, 0x00,
    0x3e, 0x03, 0x17, 0x21, 0x1b, 0x1b, 0x24, 0x9c,
    0x01, 0x3e, 0x0f, 0x0f, 0x60, 0x05, 0xc8, 0x00,
    0x9d, 0x04, 0x9d, 0x01, 0x02, 0x00, 0x0a, 0x05,
    0x00, 0x1a, 0xff, 0x03, 0x1e, 0x0f, 0x78, 0x00,
    0x00, 0xb1, 0x04, 0x15, 0x49, 0x10, 0x00, 0xa3,
    0xc8, 0x15, 0x05, 0x15, 0x3e, 0x03, 0x00, 0x20,
    0x57, 0x2f, 0x07, 0x00, 0x00, 0x08, 0x00, 0x00,
    0x08, 0x16, 0x16, 0x9c, 0x03, 0x00, 0x00, 0x00,
    0x00, 0x00, 0xc4, 0x48, 0x00, 0x00, 0x00, 0x00,
    0x00, 0x00, 0x00, 0x80, 0x00, 0x00, 0xe4, 0x00,
    0x00, 0x02, 0x00, 0x00, 0x00, 0x00, 0x00, 0x00,
    0xff, 0x00, 0xff, 0x00, 0xff, 0x00, 0x00, 0x00,
    0x00, 0x00, 0xd7, 0x05, 0x00, 0x00, 0xf0, 0x00,
    0x00, 0x00, 0x00, 0x00, 0x00, 0x00, 0x00, 0x00,
    0x00, 0x00, 0xee, 0x00]

/-- Registers stored one after the other. -/
def storeAll (regs : Memory) (values : List (Nat × Byte)) : Memory :=
  values.foldl (fun regs value => regs.set value.1 value.2) regs

/-- What `focus_calc_mode` computes in floating point, as it casts it to integers. -/
structure FocusScaling where
  tvHactive : Long
  vgaHtotal : Long
  vgaVtotal : Long
  vsc : Long
  hsc : Long
  dotclock : Long
  vsyncstart : Long
  hsyncstart : Long
  deriving Repr, DecidableEq

section Mode

variable (mode : XboxVideoMode) (scaling : FocusScaling)

/-- `tv_htotal`. -/
def tvHtotal : Long :=
  match mode.tvEncoding with
  | .ntsc => 858
  | _ => 864

/-- `tv_vtotal`. -/
def tvVtotal : Long :=
  match mode.tvEncoding with
  | .ntsc => 525
  | _ => 625

/-- The registers of the television standard: the defaults are those of PAL. -/
def focusStandard (regs : Memory) : Memory :=
  match mode.tvEncoding with
  | .ntsc =>
    let regs := regs.set 0x0d (regs 0x0d &&& ~~~0x01)
    storeAll regs [(0x40, 0x21), (0x41, 0xF0), (0x42, 0x7C), (0x43, 0x1F), (0x49, 0x44),
      (0x4a, 0x76), (0x4b, 0x3B), (0x4c, 0x00), (0x60, 0x89), (0x62, 0x89), (0x69, 0x16),
      (0x6C, 0x20), (0x74, 0x04), (0x75, 0x10), (0x80, 0x67), (0x81, 0x21), (0x82, 0x0C),
      (0x83, 0x18), (0x86, 0x18), (0x89, 0x13), (0x8A, 0x13)]
  | _ => regs

/-- The video control registers and the colour scaling. -/
def focusVideoControl (regs : Memory) : Memory :=
  let b := regs 0x92 &&& ~~~0x04
  let regs := regs.set 0x92 b
  let regs := regs.set 0x92 (b ||| 0x01)
  let regs := regs.set 0x93 (regs 0x93 &&& ~~~0x40)
  let regs := storeAll regs
    [(0xA2, 0x4D), (0xA4, 0x96), (0xA6, 0x1D), (0xA8, 0xA0), (0xAA, 0xDB), (0xAC, 0x7E)]
  match mode.avType with
  | .svideo =>
    let regs := regs.set 0x47 (regs 0x47 ||| 0x04)
    regs.set 0x92 (regs 0x92 &&& ~~~0x01)
  | _ => regs

/-- The scaling registers. -/
def focusScalers (regs : Memory) : Memory :=
  let regs := regs.set 0x04 (truncate ((mode.xres + 64) &&& 0xff))
  let regs := regs.set 0x05 (truncate ((mode.xres + 64).sshiftRight 8 &&& 0xff))
  -- upscaling has a longer FIFO latency
  let regs := if scaling.vgaVtotal.slt (tvVtotal mode) then regs.set 0x38 0x82 else regs
  let regs := regs.set 0x06 (truncate (scaling.vsc &&& 0xff))
  let regs := regs.set 0x07 (truncate (scaling.vsc.sshiftRight 8 &&& 0xff))
  if mode.xres.slt scaling.tvHactive then
    (regs.set 0x08 0).set 0x09 (truncate (scaling.hsc &&& 0xff))
  else
    (regs.set 0x08 (truncate ((256 + scaling.hsc) &&& 0xff))).set 0x09 0

/-- The registers up to the PLL calculations. -/
def focusRegisters (regs : Memory) : Memory :=
  focusScalers mode scaling (focusVideoControl mode (focusStandard mode regs))

/-- What the PLL search is asked for. -/
def focusPllSettings : FocusPllSettings where
  dotclock := Int32.ofBitVec scaling.dotclock
  vgaHtotal := Int32.ofBitVec scaling.vgaHtotal
  vgaVtotal := Int32.ofBitVec scaling.vgaVtotal
  tvHtotal := Int32.ofBitVec (tvHtotal mode)
  tvVtotal := Int32.ofBitVec (tvVtotal mode)

/-- The timings for the GPU. -/
def focusTimings : RivaTimings where
  vsyncstart := scaling.vsyncstart
  hsyncstart := scaling.hsyncstart
  htotal := scaling.vgaHtotal - 1
  vend := mode.yres - 1
  vtotal := scaling.vgaVtotal - 1
  vcrtc := mode.yres - 1
  vsyncend := scaling.vsyncstart + 3
  vvalidstart := 0
  vvalidend := mode.yres - 1
  hend := mode.xres + 7
  hcrtc := mode.xres - 1
  hsyncend := scaling.hsyncstart + 32
  hvalidstart := 0
  hvalidend := mode.xres - 1
  crtchdispend := mode.xres
  crtcvstart := mode.yres + 32
  crtcvtotal := mode.yres + 64

/-- The value returned and what is left in `riva_out`; `allocated` is what the registers
hold as they are allocated. -/
def focusCalcMode (ncoOutClk : Nat → Int32) (allocated : Memory) (rivaOut : RivaRegs) :
    Int32 × RivaRegs :=
  let regs := focusRegisters mode scaling (allocated.store 0 focusDefaults)
  let (found, regs) := focusCalcPllSettings (focusPllSettings mode scaling) ncoOutClk regs
  if found = 0 then (1, { rivaOut with encoderRegs := regs })
  else
    (1, { ext := { toRivaTimings := focusTimings mode scaling
                   width := mode.xres
                   height := mode.yres }
          encoderRegs := regs })

end Mode

/-! ## BootVgaInitializationKernelNG -/

/-- What the branch for SDTV gives the GPU. -/
def sdtvParameter (mode : XboxVideoMode) (ext : RivaTimings) : GPUParameter where
  xres := mode.xres
  nvhstart := ext.hsyncstart
  nvhtotal := ext.htotal
  yres := mode.yres
  nvvstart := ext.vsyncstart
  nvvtotal := ext.vtotal
  pixelDepth := 4
  crtchdispend := mode.xres
  crtcvstart := ext.vsyncstart
  crtcvtotal := ext.vtotal

/-- The branch for SDTV: what the GPU is programmed with and what the encoder is loaded
from, if anything. `newmode` is the local variable that the driver is to fill. -/
def bootVgaSdtv (calcMode : RivaRegs → Int32 × RivaRegs) (mode : XboxVideoMode)
    (regs : NvRegisters) (newmode : RivaRegs) : Option (NvRegisters × Memory) :=
  let (encoderOk, newmode) := calcMode newmode
  let gpu := sdtvParameter mode newmode.ext.toRivaTimings
  if encoderOk ≠ 0 then some (setGPURegister gpu regs, newmode.encoderRegs) else none

/-- With the Conexant driver the GPU is programmed from computed timings, or not at all. -/
theorem bootVgaSdtv_conexant (mode : XboxVideoMode) (found : Option XboxTvModeParameter)
    (clocks : ConexantClocks) (allocated : Memory) (regs : NvRegisters)
    (newmode newmode' : RivaRegs) :
    bootVgaSdtv (conexantCalcMode mode found clocks allocated) mode regs newmode =
      bootVgaSdtv (conexantCalcMode mode found clocks allocated) mode regs newmode' := by
  cases found with
  | none => simp [bootVgaSdtv, conexantCalcMode]
  | some param => simp [bootVgaSdtv, conexantCalcMode]

/-- The clocks of the mode have a solution. -/
def FocusPllSettings.Solvable (settings : FocusPllSettings) (ncoOutClk : Nat → Int32) : Prop :=
  ∃ pllMultiplier n m, settings.Solves ncoOutClk pllMultiplier n m

section Reporting

variable (mode : XboxVideoMode) (scaling : FocusScaling) (ncoOutClk : Nat → Int32)
  (allocated : Memory)

/-- The registers of the PLL hold a solution. -/
def FocusValidPll (regs : Memory) : Prop :=
  let settings := focusPllSettings mode scaling
  ∃ pllMultiplier n m, settings.Solves ncoOutClk pllMultiplier n m ∧
    PllProgrammed settings.ncon (settings.ncod pllMultiplier) pllMultiplier n m
      (focusRegisters mode scaling (allocated.store 0 focusDefaults)) regs

/-- With a solution everything is filled, and without one nothing but the registers up to
the PLL; the value returned is the same. -/
theorem focusCalcMode_cases :
    ((focusPllSettings mode scaling).Solvable ncoOutClk ∧
      ∃ regs, FocusValidPll mode scaling ncoOutClk allocated regs ∧
        ∀ rivaOut, focusCalcMode mode scaling ncoOutClk allocated rivaOut =
          (1, { ext := { toRivaTimings := focusTimings mode scaling
                         width := mode.xres
                         height := mode.yres }
                encoderRegs := regs })) ∨
    (¬(focusPllSettings mode scaling).Solvable ncoOutClk ∧
      ∀ rivaOut, focusCalcMode mode scaling ncoOutClk allocated rivaOut =
        (1, { rivaOut with
              encoderRegs := focusRegisters mode scaling (allocated.store 0 focusDefaults) })) := by
  rcases focusCalcPllSettings_cases (focusPllSettings mode scaling) ncoOutClk
    (focusRegisters mode scaling (allocated.store 0 focusDefaults)) with
    ⟨failed, none⟩ | ⟨found, pllMultiplier, n, m, first, programmed⟩
  · refine .inr ⟨fun ⟨pllMultiplier, n, m, solves⟩ => none pllMultiplier n m solves, ?_⟩
    intro rivaOut
    simp [focusCalcMode, failed]
  · refine .inl ⟨⟨pllMultiplier, n, m, first.solves⟩, _,
      ⟨pllMultiplier, n, m, first.solves, programmed⟩, ?_⟩
    intro rivaOut
    have nonzero : ¬(1 : Int32) = 0 := by decide
    simp [focusCalcMode, found, nonzero]

theorem solvable_of_reports
    (reports : ReportsFailure (focusCalcMode mode scaling ncoOutClk allocated)
      (FocusValidPll mode scaling ncoOutClk allocated)) :
    (focusPllSettings mode scaling).Solvable ncoOutClk := by
  have success : (1 : Int32) ≠ 0 := by decide
  rcases focusCalcMode_cases mode scaling ncoOutClk allocated with
    ⟨solvable, _⟩ | ⟨_, returned⟩
  · exact solvable
  have returnedOne : (focusCalcMode mode scaling ncoOutClk allocated default).1 = 1 := by
    rw [returned]
  obtain ⟨pllMultiplier, n, m, solves, _⟩ := (reports default (returnedOne ▸ success)).2
  exact ⟨pllMultiplier, n, m, solves⟩

/-- `focus_calc_mode` keeps its side of the contract, and the GPU is programmed from computed
timings, just where the clocks of the mode have a solution. -/
theorem focusCalcMode_reports_iff :
    (ReportsFailure (focusCalcMode mode scaling ncoOutClk allocated)
        (FocusValidPll mode scaling ncoOutClk allocated) ↔
      (focusPllSettings mode scaling).Solvable ncoOutClk) ∧
    ((∀ regs newmode newmode',
        bootVgaSdtv (focusCalcMode mode scaling ncoOutClk allocated) mode regs newmode =
          bootVgaSdtv (focusCalcMode mode scaling ncoOutClk allocated) mode regs newmode') ↔
      (focusPllSettings mode scaling).Solvable ncoOutClk) := by
  rcases focusCalcMode_cases mode scaling ncoOutClk allocated with
    ⟨solvable, regs, valid, filled⟩ | ⟨unsolvable, left⟩
  · refine ⟨⟨fun _ => solvable, fun _ rivaOut _ => ?_⟩, fun _ => solvable, fun _ _ _ _ => ?_⟩
    · simp only [filled]
      exact ⟨fun _ => trivial, valid⟩
    · simp only [bootVgaSdtv, filled]
  · refine ⟨⟨solvable_of_reports mode scaling ncoOutClk allocated,
      fun solvable => absurd solvable unsolvable⟩,
      fun same => ?_, fun solvable => absurd solvable unsolvable⟩
    · -- two structures of the caller that differ in `ext.vtotal`, which NVVTOTAL takes over
      let newmode (vtotal : Long) : RivaRegs :=
        { ext := { (default : RivaHwState) with vtotal := vtotal }, encoderRegs := default }
      have programmed : ∀ vtotal, (bootVgaSdtv (focusCalcMode mode scaling ncoOutClk allocated) mode
          default (newmode vtotal)).map (fun loaded => loaded.1.mapped 0x680804) = some vtotal := by
        intro vtotal
        simp only [bootVgaSdtv, left]
        rfl
      have equal := programmed 0
      rw [same default (newmode 0) (newmode 1), programmed 1] at equal
      simp at equal

end Reporting

/-! ## A mode without a solution -/

/-- 1920x1080 for NTSC, without overscan. -/
def largeMode : XboxVideoMode := ⟨1920, 1080, .composite, .ntsc⟩

def largeScaling : FocusScaling := ⟨710, 2400, 1181, 29133, -80, 169893936, 1121, 2280⟩

/-- The clock of the oscillator for the multipliers 4 and 5. -/
def largeClock (pllMultiplier : Nat) : Int32 := if pllMultiplier = 4 then 42473528 else 33978820

/-- The PLL does not reach the pixel clock of the mode, and success is reported. -/
theorem not_focusCalcMode_reports :
    ¬ReportsFailure (focusCalcMode largeMode largeScaling largeClock fun _ => 0)
      (FocusValidPll largeMode largeScaling largeClock fun _ => 0) := by
  intro reports
  obtain ⟨pllMultiplier, n, m, ⟨multiplier, _, _⟩, _, output, pixel⟩ :=
    solvable_of_reports _ _ _ _ reports
  have dotclock : (focusPllSettings largeMode largeScaling).dotclock.toInt = 169893936 := rfl
  rw [dotclock, abs_le] at pixel
  rcases multiplier with rfl | rfl <;> omega

end Cromwell.Video
