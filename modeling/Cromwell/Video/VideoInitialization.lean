import Cromwell.Std.BitFields

/-!
# The CRTC registers of the GPU

`SetGPURegister` writes the timings of a mode to the mapped registers of the GPU and
to the old VGA registers, which are eight bits wide and reached through an index. The
vertical timings have eleven bits there: the low byte has a register of its own, the
next two bits stand in registers 7 and 9 between those of other timings, and the last
one in register 0x25.
-/

namespace Cromwell.Video

open Cromwell.Std

/-- `GPU_PARAMETER`. -/
structure GPUParameter where
  xres : Long
  crtchdispend : Long
  nvhstart : Long
  nvhtotal : Long
  yres : Long
  nvvstart : Long
  crtcvstart : Long
  crtcvtotal : Long
  nvvtotal : Long
  pixelDepth : Long
  deriving DecidableEq

/-- The registers behind `pbRegs`: the mapped words, and the CRTC with its index. -/
structure NvRegisters where
  mapped : Nat → Long
  index : Byte
  crtc : Memory
  deriving Inhabited

/-- Store a mapped word. -/
def NvRegisters.write (regs : NvRegisters) (address : Nat) (value : Long) : NvRegisters :=
  { regs with mapped := fun x => if x = address then value else regs.mapped x }

def nvGetCrtc (regs : NvRegisters) (nIndex : Byte) : Byte × NvRegisters :=
  let regs := { regs with index := nIndex }
  (regs.crtc regs.index.toNat, regs)

def nvSetCrtc (regs : NvRegisters) (nIndex b : Byte) : NvRegisters :=
  let regs := { regs with index := nIndex }
  { regs with crtc := regs.crtc.set regs.index.toNat b }

/-- `NvSetCrtc(nIndex, (NvGetCrtc(nIndex) & keep) | put)`, with the register's old value
in `b` or in place. -/
def nvMergeCrtc (regs : NvRegisters) (nIndex : Byte) (keep put : Long) : NvRegisters :=
  let (b, regs) := nvGetCrtc regs nIndex
  nvSetCrtc regs nIndex (truncate (widen b &&& keep ||| put))

/-! ## SetGPURegister, under the headings of the source -/

/-- NVHDISPEND to NVHVALIDEND. -/
def setNvHorizontal (gpu : GPUParameter) (regs : NvRegisters) : NvRegisters :=
  let regs := regs.write 0x680820 (gpu.crtchdispend - 1)
  let regs := regs.write 0x680824 gpu.nvhtotal
  let regs := regs.write 0x680828 (gpu.xres - 1)
  let regs := regs.write 0x680834 0
  let regs := regs.write 0x68082c gpu.nvhstart
  let regs := regs.write 0x680830 (gpu.nvhstart + 32)
  regs.write 0x680838 (gpu.xres - 1)

/-- CRTC_HSYNCSTART to CRTC_HDISPEND. -/
def setHorizontal (gpu : GPUParameter) (regs : NvRegisters) : NvRegisters :=
  -- `m` is unsigned, the fields are not
  let m := gpu.nvhtotal - 32
  let regs := nvSetCrtc regs 4 (truncate (m / 8))
  let regs := nvMergeCrtc regs 5 0xe0 (((m + 16) / 8 - 1) &&& 0x1f)
  let regs := nvSetCrtc regs 0 (truncate (gpu.nvhtotal.sdiv 8 - 5))
  let regs := nvSetCrtc regs 2 (truncate (gpu.crtchdispend.sdiv 8 - 1))
  let regs := nvMergeCrtc regs 3 0xe0 ((gpu.nvhtotal.sdiv 8 - 1) &&& 0x1f)
  let regs := nvMergeCrtc regs 5 (~~~0x80) (((gpu.nvhtotal.sdiv 8 - 1) &&& 0x20) <<< 2)
  let regs := nvMergeCrtc regs 0x17 0x7f 0
  let regs := nvSetCrtc regs 1 (truncate (gpu.crtchdispend.sdiv 8 - 1))
  let regs := nvSetCrtc regs 2 (truncate (gpu.crtchdispend.sdiv 8 - 1))
  nvMergeCrtc regs 0x17 0x7f 0x80

/-- CRTC_LINESTRIDE, in units of eight bytes. -/
def lineStride (gpu : GPUParameter) : Long := gpu.xres.sdiv 8 * gpu.pixelDepth

def setLineStride (gpu : GPUParameter) (regs : NvRegisters) : NvRegisters :=
  let m := lineStride gpu
  let regs := nvMergeCrtc regs 0x19 0x1f (m >>> 3 &&& 0xe0)
  nvSetCrtc regs 0x13 (truncate (m &&& 0xff))

/-- NVVDISPEND to NVVVALIDEND. -/
def setNvVertical (gpu : GPUParameter) (regs : NvRegisters) : NvRegisters :=
  let regs := regs.write 0x680800 (gpu.yres - 1)
  let regs := regs.write 0x680804 gpu.nvvtotal
  let regs := regs.write 0x680808 (gpu.yres - 1)
  let regs := regs.write 0x680814 0
  let regs := regs.write 0x68080c gpu.nvvstart
  let regs := regs.write 0x680810 (gpu.nvvstart + 3)
  regs.write 0x680818 (gpu.yres - 1)

/-- CRTC_VSYNCSTART. -/
def setVsyncStart (gpu : GPUParameter) (regs : NvRegisters) : NvRegisters :=
  let regs := nvMergeCrtc regs 7 0x7b
    (gpu.crtcvstart.sshiftRight 2 &&& 0x80 ||| gpu.crtcvstart.sshiftRight 6 &&& 0x04)
  nvSetCrtc regs 0x10 (truncate (gpu.crtcvstart &&& 0xff))

/-- CRTC_VTOTAL. -/
def setVtotal (gpu : GPUParameter) (regs : NvRegisters) : NvRegisters :=
  let regs := nvMergeCrtc regs 7 0xde
    (gpu.crtcvtotal.sshiftRight 4 &&& 0x20 ||| gpu.crtcvtotal.sshiftRight 8 &&& 0x01)
  nvSetCrtc regs 6 (truncate (gpu.crtcvtotal &&& 0xff))

/-- CRTC_VBLANKEND. -/
def setVblankEnd (gpu : GPUParameter) (regs : NvRegisters) : NvRegisters :=
  nvMergeCrtc regs 0x16 0x80 (gpu.crtcvtotal &&& 0x7f)

/-- CRTC_VDISPEND. -/
def setVdispend (gpu : GPUParameter) (regs : NvRegisters) : NvRegisters :=
  let regs := nvMergeCrtc regs 7 0xbd
    ((gpu.yres - 1).sshiftRight 3 &&& 0x40 ||| (gpu.yres - 1).sshiftRight 7 &&& 0x02)
  nvSetCrtc regs 0x12 (truncate ((gpu.yres - 1) &&& 0xff))

/-- CRTC_VBLANKSTART. -/
def setVblankStart (gpu : GPUParameter) (regs : NvRegisters) : NvRegisters :=
  let regs := nvMergeCrtc regs 9 0xdf ((gpu.yres - 1).sshiftRight 4 &&& 0x20)
  let regs := nvMergeCrtc regs 7 0xf7 ((gpu.yres - 1).sshiftRight 5 &&& 0x08)
  nvSetCrtc regs 0x15 (truncate ((gpu.yres - 1) &&& 0xff))

/-- CRTC_LINECOMP, disabled. -/
def lineComp : Long := 0x3ff

def setLineComp (regs : NvRegisters) : NvRegisters :=
  let m := lineComp
  let regs := nvMergeCrtc regs 7 0xef (m >>> 4 &&& 0x10)
  let regs := nvMergeCrtc regs 9 0xbf (m >>> 3 &&& 0x40)
  nvSetCrtc regs 0x18 (truncate (m &&& 0xff))

/-- CRTC_REPAINT1. -/
def setRepaint (gpu : GPUParameter) (regs : NvRegisters) : NvRegisters :=
  let b : Byte := if gpu.xres.slt 1280 then 0x04 else 0x00
  nvSetCrtc regs 0x1a b

/-- The overflow bits. -/
def setOverflow (gpu : GPUParameter) (regs : NvRegisters) : NvRegisters :=
  nvSetCrtc regs 0x25 (truncate (
    ((gpu.nvhtotal.sdiv 8 - 5) &&& 0x040).sshiftRight 2 |||
    ((gpu.yres - 1) &&& 0x400).sshiftRight 7 |||
    (gpu.crtcvstart &&& 0x400).sshiftRight 8 |||
    ((gpu.yres - 1) &&& 0x400).sshiftRight 9 |||
    (gpu.crtcvtotal &&& 0x400).sshiftRight 10))

/-- The pixel mode, switched to TV. -/
def setPixelMode (gpu : GPUParameter) (regs : NvRegisters) : NvRegisters :=
  let b := truncate gpu.pixelDepth
  let b := if b ≥ 3 then 3 else b
  nvSetCrtc regs 0x28 (b ||| 0x80)

/-- The high bit of the horizontal total. -/
def htotalHigh (gpu : GPUParameter) : Long :=
  if (260 : Long).sle (gpu.nvhtotal.sdiv 8 - 1) then 0x01 else 0

def setHtotalHigh (gpu : GPUParameter) (regs : NvRegisters) : NvRegisters :=
  nvMergeCrtc regs 0x2d 0xe0 (htotalHigh gpu)

def setGPURegister (gpu : GPUParameter) (regs : NvRegisters) : NvRegisters :=
  let regs := setNvHorizontal gpu regs
  let regs := setHorizontal gpu regs
  let regs := setLineStride gpu regs
  let regs := setNvVertical gpu regs
  let regs := setVsyncStart gpu regs
  let regs := setVtotal gpu regs
  let regs := setVblankEnd gpu regs
  let regs := setVdispend gpu regs
  let regs := setVblankStart gpu regs
  let regs := setLineComp regs
  let regs := setRepaint gpu regs
  let regs := setOverflow gpu regs
  let regs := setPixelMode gpu regs
  setHtotalHigh gpu regs

/-! ## Where the CRTC keeps the timings -/

def vsyncStartField : List Segment := [⟨0x10, 0, 8⟩, ⟨7, 2, 1⟩, ⟨7, 7, 1⟩, ⟨0x25, 2, 1⟩]

def vtotalField : List Segment := [⟨6, 0, 8⟩, ⟨7, 0, 1⟩, ⟨7, 5, 1⟩, ⟨0x25, 0, 1⟩]

def vdispendField : List Segment := [⟨0x12, 0, 8⟩, ⟨7, 1, 1⟩, ⟨7, 6, 1⟩, ⟨0x25, 1, 1⟩]

def vblankStartField : List Segment := [⟨0x15, 0, 8⟩, ⟨7, 3, 1⟩, ⟨9, 5, 1⟩]

def lineCompField : List Segment := [⟨0x18, 0, 8⟩, ⟨7, 4, 1⟩, ⟨9, 6, 1⟩]

def lineStrideField : List Segment := [⟨0x13, 0, 8⟩, ⟨0x19, 5, 3⟩]

/-- The fields with the values they are written from. -/
def crtcFields (gpu : GPUParameter) : List (Long × List Segment) :=
  [(gpu.crtcvstart, vsyncStartField), (gpu.crtcvtotal, vtotalField),
    (gpu.yres - 1, vdispendField), (gpu.yres - 1, vblankStartField), (lineComp, lineCompField),
    (lineStride gpu, lineStrideField)]

/-- The bits of the merged registers that no field takes. -/
def untouched : List Segment :=
  [⟨3, 5, 3⟩, ⟨5, 5, 2⟩, ⟨9, 0, 5⟩, ⟨9, 7, 1⟩, ⟨0x16, 7, 1⟩, ⟨0x19, 0, 5⟩, ⟨0x2d, 5, 3⟩]

section Packing

variable (gpu : GPUParameter) (regs : NvRegisters)

theorem crtc_setNvHorizontal : (setNvHorizontal gpu regs).crtc = regs.crtc := rfl

theorem crtc_setNvVertical : (setNvVertical gpu regs).crtc = regs.crtc := rfl

theorem crtc_nvSetCrtc (nIndex b : Byte) :
    (nvSetCrtc regs nIndex b).crtc = regs.crtc.set nIndex.toNat b := rfl

theorem crtc_nvMergeCrtc (nIndex : Byte) (keep put : Long) :
    (nvMergeCrtc regs nIndex keep put).crtc = merge regs.crtc nIndex.toNat keep put := rfl

theorem bits_htotalHigh : bits 5 3 (htotalHigh gpu).toNat = 0 := by
  unfold htotalHigh
  split <;> rfl

/-- From the last write back, each one leaves a segment alone or is the one that put its
bits there. -/
theorem holds_setGPURegister : ∀ field ∈ crtcFields gpu,
    FieldHolds (setGPURegister gpu regs).crtc field.1.toNat 0 field.2 := by
  unfold setGPURegister
  simp (disch := decide) only [crtcFields, List.forall_mem_cons, List.not_mem_nil,
    false_implies, implies_true, and_true, FieldHolds, vsyncStartField, vtotalField, vdispendField,
    vblankStartField, lineCompField, lineStrideField, crtc_setNvVertical, crtc_setNvHorizontal,
    setHorizontal, setLineStride, setVsyncStart, setVtotal, setVblankEnd, setVdispend,
    setVblankStart, setLineComp, setRepaint, setOverflow, setPixelMode, setHtotalHigh,
    crtc_nvMergeCrtc, crtc_nvSetCrtc, UInt8.reduceToNat, read_set_same, read_set_other,
    read_merge_same, read_merge_other, bits_widen, bits_truncate, bits_or, bits_and_covered,
    bits_and_beside, bits_sshiftRight, bits_ushiftRight, Nat.reduceAdd, Nat.zero_or, Nat.or_zero]

/-- Every write leaves the bits alone that belong to no field. -/
theorem untouched_setGPURegister : ∀ segment ∈ untouched,
    segment.read (setGPURegister gpu regs).crtc = segment.read regs.crtc := by
  unfold setGPURegister
  simp (disch := decide) only [untouched, List.forall_mem_cons, List.not_mem_nil, false_implies,
    implies_true, and_true, crtc_setNvVertical, crtc_setNvHorizontal, setHorizontal,
    setLineStride, setVsyncStart, setVtotal, setVblankEnd, setVdispend, setVblankStart,
    setLineComp, setRepaint, setOverflow, setPixelMode, setHtotalHigh, crtc_nvMergeCrtc,
    crtc_nvSetCrtc, UInt8.reduceToNat, read_set_other, read_merge_same, read_merge_other,
    bits_widen, bits_and_covered, bits_and_beside, bits_shiftLeft, bits_htotalHigh, Nat.reduceSub,
    Nat.or_zero]

theorem readField_setGPURegister (value : Long) (segments : List Segment)
    (listed : (value, segments) ∈ crtcFields gpu) :
    readField (setGPURegister gpu regs).crtc segments =
      value.toNat % 2 ^ fieldWidth segments := by
  have holds := holds_setGPURegister gpu regs (value, segments) listed
  rw [readField_of_holds holds, bits, pow_zero, Nat.div_one]

/-- Whatever the registers held, the timings are read back from their bits, up to the
eleven or ten bits they have there, and the bits beside them are as before. -/
theorem setGPURegister_lossless :
    readField (setGPURegister gpu regs).crtc vsyncStartField = gpu.crtcvstart.toNat % 2 ^ 11 ∧
      readField (setGPURegister gpu regs).crtc vtotalField = gpu.crtcvtotal.toNat % 2 ^ 11 ∧
      readField (setGPURegister gpu regs).crtc vdispendField = (gpu.yres - 1).toNat % 2 ^ 11 ∧
      readField (setGPURegister gpu regs).crtc lineStrideField =
        (lineStride gpu).toNat % 2 ^ 11 ∧
      readField (setGPURegister gpu regs).crtc vblankStartField = (gpu.yres - 1).toNat % 2 ^ 10 ∧
      readField (setGPURegister gpu regs).crtc lineCompField = 0x3ff ∧
      ∀ segment ∈ untouched, segment.read (setGPURegister gpu regs).crtc =
        segment.read regs.crtc := by
  have read := readField_setGPURegister gpu regs
  refine ⟨read _ _ ?_, read _ _ ?_, read _ _ ?_, read _ _ ?_, read _ _ ?_, read lineComp _ ?_,
    untouched_setGPURegister gpu regs⟩ <;> simp [crtcFields]

end Packing

end Cromwell.Video
