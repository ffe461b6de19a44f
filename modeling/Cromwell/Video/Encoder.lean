import Cromwell.Std.BitFields

/-!
# What the encoder drivers share

An encoder driver turns a video mode into timings for the GPU, which it leaves in the
`ext` part of the `riva_regs` of its caller, and into the registers of the encoder,
which it allocates. The caller's structure is a local variable that nothing has
cleared.
-/

namespace Cromwell.Video

open Cromwell.Std

/-- `xbox_tv_encoding`, without `TV_ENC_INVALID`: no driver has a line for it in its tables. -/
inductive XboxTvEncoding
  | ntsc | ntsc60 | palbdghi | paln | palnc | palm | pal60
  deriving Repr, DecidableEq

/-- `xbox_av_type`. -/
inductive XboxAvType
  | invalid | scartRgb | svideo | vgaSog | hdtv | composite | vga
  deriving Repr, DecidableEq

/-- `xbox_video_mode`, without the fractions of overscan, which only floating-point
computations read. -/
structure XboxVideoMode where
  xres : Long
  yres : Long
  avType : XboxAvType
  tvEncoding : XboxTvEncoding
  deriving Repr, DecidableEq

/-- The timings of `RIVA_HW_STATE`. -/
structure RivaTimings where
  vend : Long
  vtotal : Long
  vcrtc : Long
  vsyncstart : Long
  vsyncend : Long
  vvalidstart : Long
  vvalidend : Long
  hend : Long
  htotal : Long
  hcrtc : Long
  hsyncstart : Long
  hsyncend : Long
  hvalidstart : Long
  hvalidend : Long
  crtchdispend : Long
  crtcvstart : Long
  crtcvtotal : Long
  deriving Repr, DecidableEq, Inhabited

/-- `RIVA_HW_STATE`: the timings, and the two other fields that a driver sets. -/
structure RivaHwState extends RivaTimings where
  width : Long
  height : Long
  deriving Repr, DecidableEq, Inhabited

/-- `struct riva_regs`. -/
structure RivaRegs where
  ext : RivaHwState
  encoderRegs : Memory
  deriving Inhabited

/-- What a driver owes its caller: a nonzero value is returned only with all timings
filled, so that they are the same whatever was there before, and with a valid PLL. -/
def ReportsFailure (calcMode : RivaRegs → Int32 × RivaRegs) (ValidPll : Memory → Prop) : Prop :=
  ∀ rivaOut, (calcMode rivaOut).1 ≠ 0 →
    (∀ before, (calcMode { rivaOut with ext := before }).2.ext.toRivaTimings =
      (calcMode rivaOut).2.ext.toRivaTimings) ∧
    ValidPll (calcMode rivaOut).2.encoderRegs

end Cromwell.Video
