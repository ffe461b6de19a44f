import Cromwell.Video.Encoder

/-!
# The registers of the Conexant encoder

`conexant_calc_mode` packs the timings of a mode into the byte registers of the chip.
A timing of nine to fourteen bits has a register for its low byte, and its high bits
share a register with those of other timings, which are masked in one after the other.
The timings themselves come from floating-point computations and are given here.
-/

namespace Cromwell.Video

open Cromwell.Std

/-! ## What is packed -/

/-- The integers of `xbox_tv_mode_parameter`. -/
structure XboxTvModeParameter where
  vActiveo : Long
  vLinesi : Long
  hClki : Long
  hClko : Long
  hBlanki : Long
  hBlanko : Long
  vBlanki : Long
  vBlanko : Long
  vscale : Long
  deriving Repr, DecidableEq

/-- What `conexant_calc_mode` computes itself in floating point, as it casts it to
integers; `clkRatioHigh` is `param.clk_ratio > 1.1`. -/
structure ConexantClocks where
  dwPllRatio : Long
  clkRatioHigh : Bool
  burstStart : Long
  burstEnd : Long
  hsyncWidth : Long
  dwSubcarrierIncrement : Long
  dwWssIncrement : Long
  deriving Repr, DecidableEq

/-- The index of the register with this address. -/
def adr (x : Nat) : Nat := x / 2 - 0x17

/-- `default_mode`. -/
def conexantDefaultMode : List Byte :=
  [0x00,
    0x00, 0x28, 0x80, 0xE4, 0x00, 0x00, 0x80, 0x80,
    0x80, 0x13, 0xDA, 0x4B, 0x28, 0xA3, 0x9F, 0x25,
    0xA3, 0x9F, 0x25, 0x00, 0x00, 0x00, 0x00, 0x44,
    0xC7, 0x00, 0x00, 0x41, 0x35, 0x03, 0x46, 0x00,
    0x02, 0x00, 0x01, 0x60, 0x88, 0x8a, 0xa6, 0x68,
    0xc1, 0x2e, 0xf2, 0x27, 0x00, 0xb0, 0x0a, 0x0b,
    0x71, 0x5a, 0xe0, 0x36, 0x00, 0x50, 0x72, 0x1c,
    0x0d, 0x24, 0xf0, 0x58, 0x81, 0x49, 0x8c, 0x0c,
    0x8c, 0x79, 0x26, 0x52, 0x00, 0x24, 0x00, 0x00,
    0x00, 0x00, 0x01, 0x9C, 0x9B, 0xC0, 0xC0, 0x19,
    0x00, 0x00, 0x00, 0x00, 0x40, 0x05, 0x57, 0x20,
    0x40, 0x6E, 0x7E, 0xF4, 0x51, 0x0F, 0xF1, 0x05,
    0xD3, 0x78, 0xA2, 0x25, 0x54, 0xA5, 0x00, 0x00]

/-! ## The packing, under the headings of the source -/

section Packing

variable (mode : XboxVideoMode) (param : XboxTvModeParameter) (clocks : ConexantClocks)

/-- H_CLKI. -/
def packHClki (regs : Memory) : Memory :=
  let regs := merge regs (adr 0x8e) (~~~0x07) (param.hClki.sshiftRight 8 &&& 0x07)
  regs.set (adr 0x8a) (truncate (param.hClki &&& 0xff))

/-- H_CLKO. -/
def packHClko (regs : Memory) : Memory :=
  let regs := merge regs (adr 0x86) (~~~0x0f) (param.hClko.sshiftRight 8 &&& 0x0f)
  regs.set (adr 0x76) (truncate (param.hClko &&& 0xff))

/-- V_LINESI. -/
def packVLinesi (regs : Memory) : Memory :=
  let regs := merge regs (adr 0x38) (~~~0x02) (param.vLinesi.sshiftRight 9 &&& 0x02)
  let regs := merge regs (adr 0x96) (~~~0x03) (param.vLinesi.sshiftRight 8 &&& 0x03)
  regs.set (adr 0x90) (truncate (param.vLinesi &&& 0xff))

/-- The lines of V_ACTIVEO. -/
def activeLines : Long :=
  match mode.tvEncoding with
  | .ntsc | .ntsc60 | .palm | .pal60 => param.vActiveo + 1
  | _ => param.vActiveo + 2

/-- V_ACTIVEO. -/
def packVActiveo (regs : Memory) : Memory :=
  let m := activeLines mode param
  let regs := merge regs (adr 0x86) (~~~0x80) (m >>> 1 &&& 0x80)
  regs.set (adr 0x84) (truncate (m &&& 0xff))

/-- H_ACTIVE. -/
def packHActive (regs : Memory) : Memory :=
  let regs := merge regs (adr 0x86) (~~~0x70) ((mode.xres + 5).sshiftRight 4 &&& 0x70)
  regs.set (adr 0x78) (truncate ((mode.xres + 5) &&& 0xff))

/-- V_ACTIVEI. -/
def packVActivei (regs : Memory) : Memory :=
  let regs := merge regs (adr 0x96) (~~~0x0c) (mode.yres.sshiftRight 6 &&& 0x0c)
  regs.set (adr 0x94) (truncate (mode.yres &&& 0xff))

/-- H_BLANKI. -/
def packHBlanki (regs : Memory) : Memory :=
  let regs := merge regs (adr 0x38) (~~~0x01) (param.hBlanki.sshiftRight 9 &&& 0x01)
  let regs := merge regs (adr 0x8e) (~~~0x08) (param.hBlanki.sshiftRight 5 &&& 0x08)
  regs.set (adr 0x8c) (truncate (param.hBlanki &&& 0xff))

/-- H_BLANKO. -/
def packHBlanko (regs : Memory) : Memory :=
  let regs := merge regs (adr 0x9a) (~~~0xc0) (param.hBlanko.sshiftRight 2 &&& 0xc0)
  regs.set (adr 0x80) (truncate (param.hBlanko &&& 0xff))

/-- V_SCALE, V_BLANKO and V_BLANKI. -/
def packVertical (regs : Memory) : Memory :=
  let regs := merge regs (adr 0x9a) (~~~0x3f) (param.vscale.sshiftRight 8 &&& 0x3f)
  let regs := regs.set (adr 0x98) (truncate (param.vscale &&& 0xff))
  let regs := regs.set (adr 0x82) (truncate (param.vBlanko &&& 0xff))
  regs.set (adr 0x92) (truncate (param.vBlanki &&& 0xff))

def dwInt : Long := clocks.dwPllRatio / 0x10000

def dwFract : Long := clocks.dwPllRatio - dwInt clocks * 0x10000

/-- The PLL. -/
def packPll (regs : Memory) : Memory :=
  let regs := merge regs (adr 0xa0) (~~~0x3f) (dwInt clocks &&& 0x3f)
  let regs := regs.set (adr 0x9e) (truncate (dwFract clocks >>> 8 &&& 0xff))
  regs.set (adr 0x9c) (truncate (dwFract clocks &&& 0xff))

/-- The bit of the 3:2 clocking mode. -/
def clockingMode : Long := if clocks.clkRatioHigh then 0x20 else 0

def packClockingMode (regs : Memory) : Memory :=
  merge regs (adr 0x38) (~~~0x20) (clockingMode clocks)

/-- The start of the burst. -/
def packBurstStart (regs : Memory) : Memory :=
  let m := clocks.burstStart
  let regs := merge regs (adr 0x38) (~~~0x04) (m >>> 6 &&& 0x04)
  regs.set (adr 0x7c) (truncate (m &&& 0xff))

/-- The end of the burst: the hardware adds 128. -/
def burstEndOffset : Long :=
  (if clocks.burstEnd < 128 then 128 else clocks.burstEnd) - 128

/-- The end of the burst, and the width of the HSYNC. -/
def packBurstEnd (regs : Memory) : Memory :=
  let regs := merge regs (adr 0x38) (~~~0x08) (burstEndOffset clocks >>> 5 &&& 0x08)
  let regs := regs.set (adr 0x7e) (truncate (burstEndOffset clocks &&& 0xff))
  regs.set (adr 0x7a) (truncate (clocks.hsyncWidth &&& 0xff))

/-- The increments of the subcarrier and of the WSS. -/
def packIncrements (regs : Memory) : Memory :=
  let regs := regs.set (adr 0xae) (truncate (clocks.dwSubcarrierIncrement &&& 0xff))
  let regs := regs.set (adr 0xb0) (truncate (clocks.dwSubcarrierIncrement >>> 8 &&& 0xff))
  let regs := regs.set (adr 0xb2) (truncate (clocks.dwSubcarrierIncrement >>> 16 &&& 0xff))
  let regs := regs.set (adr 0xb4) (truncate (clocks.dwSubcarrierIncrement >>> 24 &&& 0xff))
  let regs := regs.set (adr 0x66) (truncate (clocks.dwWssIncrement &&& 0xff))
  let regs := regs.set (adr 0x68) (truncate (clocks.dwWssIncrement >>> 8 &&& 0xff))
  regs.set (adr 0x6a) (truncate (clocks.dwWssIncrement >>> 16 &&& 0xf))

/-- The bits of the mode register. -/
def modeBits : Long :=
  match mode.tvEncoding with
  | .ntsc => 0x0a
  | .ntsc60 => 0x08
  | .palbdghi | .palnc => 0x24
  | .paln => 0x2e
  | .palm => 0x2a
  | .pal60 => 0x28

/-- The mode register, the input mode and what the cable asks for. -/
def packMode (regs : Memory) : Memory :=
  let regs := merge regs (adr 0xa2) 0x41 (modeBits mode)
  let regs := regs.set (adr 0xc6) 0x98
  match mode.avType with
  | .composite | .svideo =>
    let regs := regs.set (adr 0x2e) (regs (adr 0x2e) ||| 0x40)
    let regs := regs.set (adr 0x6c) 0x46
    let regs := regs.set (adr 0x5a) 0x00
    let regs := regs.set (adr 0xa4) 0xe5
    let regs := regs.set (adr 0xa6) 0x74
    let regs := regs.set (adr 0xba) 0x24
    let regs := regs.set (adr 0xce) 0x19
    regs.set (adr 0xd6) 0x00
  | .scartRgb =>
    let regs := regs.set (adr 0x6c) 0x4e
    let regs := regs.set (adr 0x5a) 0xff
    let regs := regs.set (adr 0xa4) 0xe7
    let regs := regs.set (adr 0xa6) 0x77
    let regs := regs.set (adr 0xba) 0x20
    let regs := regs.set (adr 0xce) 0xe1
    regs.set (adr 0xd6) 0x0c
  | _ => regs

/-- Everything that is written over the default mode. -/
def packConexant (regs : Memory) : Memory :=
  let regs := regs.set (adr 0x32) 0x28
  let regs := packHClki param regs
  let regs := packHClko param regs
  let regs := packVLinesi param regs
  let regs := packVActiveo mode param regs
  let regs := packHActive mode regs
  let regs := packVActivei mode regs
  let regs := packHBlanki param regs
  let regs := packHBlanko param regs
  let regs := packVertical param regs
  let regs := packPll clocks regs
  let regs := packClockingMode clocks regs
  let regs := packBurstStart clocks regs
  let regs := packBurstEnd clocks regs
  let regs := packIncrements clocks regs
  packMode mode regs

end Packing

/-! ## conexant_calc_mode -/

/-- The timings for the GPU. -/
def conexantTimings (mode : XboxVideoMode) (param : XboxTvModeParameter) : RivaTimings where
  vend := mode.yres - 1
  vtotal := param.vLinesi - 1
  vcrtc := mode.yres - 1
  vsyncstart := param.vLinesi - param.vBlanki + 1
  vsyncend := param.vLinesi - param.vBlanki + 1 + 3
  vvalidstart := 0
  vvalidend := mode.yres - 1
  hend := mode.xres + 7
  htotal := param.hClki - 1
  hcrtc := mode.xres - 1
  hsyncstart := param.hClki - param.hBlanki - 7
  hsyncend := param.hClki - param.hBlanki - 7 + 32
  hvalidstart := 0
  hvalidend := mode.xres - 1
  crtchdispend := mode.xres + 8
  crtcvstart := mode.yres + 32
  crtcvtotal := param.vLinesi + 32

/-- The value returned and what is left in `riva_out`. The search of
`conexant_calc_mode_params` found parameters or it found none; `allocated` is what the
registers hold as they are allocated. -/
def conexantCalcMode (mode : XboxVideoMode) (found : Option XboxTvModeParameter)
    (clocks : ConexantClocks) (allocated : Memory) (rivaOut : RivaRegs) : Int32 × RivaRegs :=
  match found with
  | some param =>
    (1, { ext := { rivaOut.ext with toRivaTimings := conexantTimings mode param }
          encoderRegs :=
            packConexant mode param clocks (allocated.store 0 conexantDefaultMode) })
  | none => (0, { rivaOut with encoderRegs := allocated })

/-! ## Where the chip keeps the values -/

def hClkiField : List Segment := [⟨adr 0x8a, 0, 8⟩, ⟨adr 0x8e, 0, 3⟩]

def hClkoField : List Segment := [⟨adr 0x76, 0, 8⟩, ⟨adr 0x86, 0, 4⟩]

def vLinesiField : List Segment := [⟨adr 0x90, 0, 8⟩, ⟨adr 0x96, 0, 2⟩, ⟨adr 0x38, 1, 1⟩]

def vActiveoField : List Segment := [⟨adr 0x84, 0, 8⟩, ⟨adr 0x86, 7, 1⟩]

def hActiveField : List Segment := [⟨adr 0x78, 0, 8⟩, ⟨adr 0x86, 4, 3⟩]

def vActiveiField : List Segment := [⟨adr 0x94, 0, 8⟩, ⟨adr 0x96, 2, 2⟩]

def hBlankiField : List Segment := [⟨adr 0x8c, 0, 8⟩, ⟨adr 0x8e, 3, 1⟩, ⟨adr 0x38, 0, 1⟩]

def hBlankoField : List Segment := [⟨adr 0x80, 0, 8⟩, ⟨adr 0x9a, 6, 2⟩]

def vscaleField : List Segment := [⟨adr 0x98, 0, 8⟩, ⟨adr 0x9a, 0, 6⟩]

def vBlankoField : List Segment := [⟨adr 0x82, 0, 8⟩]

def vBlankiField : List Segment := [⟨adr 0x92, 0, 8⟩]

def pllIntField : List Segment := [⟨adr 0xa0, 0, 6⟩]

def pllFractField : List Segment := [⟨adr 0x9c, 0, 8⟩, ⟨adr 0x9e, 0, 8⟩]

def clockingField : List Segment := [⟨adr 0x38, 5, 1⟩]

def burstStartField : List Segment := [⟨adr 0x7c, 0, 8⟩, ⟨adr 0x38, 2, 1⟩]

def burstEndField : List Segment := [⟨adr 0x7e, 0, 8⟩, ⟨adr 0x38, 3, 1⟩]

def hsyncWidthField : List Segment := [⟨adr 0x7a, 0, 8⟩]

def subcarrierField : List Segment :=
  [⟨adr 0xae, 0, 8⟩, ⟨adr 0xb0, 0, 8⟩, ⟨adr 0xb2, 0, 8⟩, ⟨adr 0xb4, 0, 8⟩]

def wssField : List Segment := [⟨adr 0x66, 0, 8⟩, ⟨adr 0x68, 0, 8⟩, ⟨adr 0x6a, 0, 4⟩]

section Lossless

variable (mode : XboxVideoMode) (param : XboxTvModeParameter) (clocks : ConexantClocks)

/-- The fields with the values they are written from. -/
def conexantFields : List (Long × List Segment) :=
  [(param.hClki, hClkiField), (param.hClko, hClkoField), (param.vLinesi, vLinesiField),
    (activeLines mode param, vActiveoField), (mode.xres + 5, hActiveField),
    (mode.yres, vActiveiField), (param.hBlanki, hBlankiField), (param.hBlanko, hBlankoField),
    (param.vscale, vscaleField), (param.vBlanko, vBlankoField), (param.vBlanki, vBlankiField),
    (dwInt clocks, pllIntField), (dwFract clocks, pllFractField),
    (clockingMode clocks >>> 5, clockingField), (clocks.burstStart, burstStartField),
    (burstEndOffset clocks, burstEndField), (clocks.hsyncWidth, hsyncWidthField),
    (clocks.dwSubcarrierIncrement, subcarrierField), (clocks.dwWssIncrement, wssField)]

/-- The registers that `packMode` writes. -/
def modeRegisters : List Nat :=
  [adr 0xa2, adr 0xc6, adr 0x2e, adr 0x6c, adr 0x5a, adr 0xa4, adr 0xa6, adr 0xba, adr 0xce,
    adr 0xd6]

theorem read_packMode (regs : Memory) {register : Nat} (low width : Nat)
    (other : register ∉ modeRegisters) :
    Segment.read ⟨register, low, width⟩ (packMode mode regs) =
      Segment.read ⟨register, low, width⟩ regs := by
  simp only [modeRegisters, List.mem_cons, List.not_mem_nil, or_false, not_or] at other
  unfold packMode
  cases mode.avType <;> simp [read_merge_other, read_set_other, other]

theorem bits_clockingMode {low width : Nat} (beside : bits low width 0x20 = 0) :
    bits low width (clockingMode clocks).toNat = 0 := by
  unfold clockingMode
  split
  · exact beside
  · simp [bits]

/-- From the last write back, each one leaves a segment alone or is the one that put its
bits there. -/
theorem holds_packConexant (regs : Memory) : ∀ field ∈ conexantFields mode param clocks,
    FieldHolds (packConexant mode param clocks regs) field.1.toNat 0 field.2 := by
  unfold packConexant
  simp (disch := decide) only [conexantFields, List.forall_mem_cons, List.not_mem_nil,
    false_implies, implies_true, and_true, FieldHolds, hClkiField, hClkoField, vLinesiField,
    vActiveoField, hActiveField, vActiveiField, hBlankiField, hBlankoField, vscaleField,
    vBlankoField, vBlankiField, pllIntField, pllFractField, clockingField, burstStartField,
    burstEndField, hsyncWidthField, subcarrierField, wssField, adr, Nat.reduceDiv,
    Nat.reduceSub, read_packMode, packIncrements, packBurstEnd, packBurstStart,
    packClockingMode, packPll, packVertical, packHBlanko, packHBlanki, packVActivei,
    packHActive, packVActiveo, packVLinesi, packHClko, packHClki, read_set_same, read_set_other,
    read_merge_same, read_merge_other, bits_widen, bits_truncate, bits_clockingMode,
    bits_and_covered, bits_and_beside, bits_sshiftRight, bits_ushiftRight, Nat.reduceAdd,
    Nat.zero_or, Nat.or_zero]

theorem readField_packConexant (regs : Memory) (value : Long) (segments : List Segment)
    (listed : (value, segments) ∈ conexantFields mode param clocks) :
    readField (packConexant mode param clocks regs) segments =
      value.toNat % 2 ^ fieldWidth segments := by
  have holds := holds_packConexant mode param clocks regs (value, segments) listed
  rw [readField_of_holds holds, bits, pow_zero, Nat.div_one]

/-- Whatever the registers held, every value is read back from its bits, up to the number
of them; the registers of `conexant_calc_mode` are packed over its default mode. -/
theorem conexantCalcMode_lossless (regs : Memory) :
    (∀ field ∈ conexantFields mode param clocks,
      readField (packConexant mode param clocks regs) field.2 =
        field.1.toNat % 2 ^ fieldWidth field.2) ∧
    ∀ allocated rivaOut,
      (conexantCalcMode mode (some param) clocks allocated rivaOut).2.encoderRegs =
        packConexant mode param clocks (allocated.store 0 conexantDefaultMode) :=
  ⟨fun field listed => readField_packConexant mode param clocks regs field.1 field.2 listed,
    fun _ _ => rfl⟩

example : (conexantFields mode param clocks).map (fun field => fieldWidth field.2) =
    [11, 12, 11, 9, 11, 10, 10, 10, 14, 8, 8, 6, 16, 1, 9, 9, 8, 32, 20] := rfl

/-- The registers of the PLL hold its ratio. -/
def ConexantValidPll (regs : Memory) : Prop :=
  readField regs pllIntField = (dwInt clocks).toNat % 2 ^ 6 ∧
    readField regs pllFractField = (dwFract clocks).toNat % 2 ^ 16

/-- Where the search found no parameters, `conexant_calc_mode` returns zero. -/
theorem conexantCalcMode_reports (found : Option XboxTvModeParameter) (allocated : Memory) :
    ReportsFailure (conexantCalcMode mode found clocks allocated) (ConexantValidPll clocks) := by
  intro rivaOut success
  cases found with
  | none => exact absurd rfl success
  | some param =>
      refine ⟨fun _ => rfl, ?_, ?_⟩
      · exact readField_packConexant mode param clocks _ _ pllIntField (by simp [conexantFields])
      · exact readField_packConexant mode param clocks _ _ pllFractField (by simp [conexantFields])

end Lossless

end Cromwell.Video
