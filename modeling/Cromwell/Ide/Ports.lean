import Cromwell.Std.Emission
import Cromwell.Std.Memory

/-!
# The task file of the IDE controller

A drive is reached through I/O ports alone. Nothing is assumed of what answers
there: a `PortBus` may give any byte at any read, and the polling loops of the
driver may not end. Every access is kept in a trace, in the order it was made.
-/

namespace Cromwell.Ide

open Cromwell.Std

/-- The ports as the processor sees them. Reads change what is behind them as well as
writes do. -/
structure PortBus (σ : Type) where
  inByte : σ → (wAds : UInt16) → Byte × σ
  inWord : σ → (wAds : UInt16) → UInt16 × σ
  outByte : σ → (wAds : UInt16) → (bValue : Byte) → σ
  outWord : σ → (wAds : UInt16) → (wValue : UInt16) → σ

/-- One access, with the value read or written. -/
inductive Access where
  | inByte (wAds : UInt16) (value : Byte)
  | inWord (wAds value : UInt16)
  | outByte (wAds : UInt16) (bValue : Byte)
  | outWord (wAds wValue : UInt16)
  deriving Repr, DecidableEq

/-- What the driver changes as it runs. -/
structure IdeState (σ : Type) where
  ports : σ
  trace : List Access

/-- A part of the driver. -/
abbrev IdeProgram (σ : Type) (α : Type) := Program (IdeState σ) α

/-! ## Registers -/

def ideRegData (base : UInt16) : UInt16 := base + 0
def ideRegError (base : UInt16) : UInt16 := base + 1
def ideRegSectorCount (base : UInt16) : UInt16 := base + 2
def ideRegSectorNumber (base : UInt16) : UInt16 := base + 3
def ideRegCylinderLsb (base : UInt16) : UInt16 := base + 4
def ideRegCylinderMsb (base : UInt16) : UInt16 := base + 5
def ideRegDrivehead (base : UInt16) : UInt16 := base + 6
def ideRegStatus (base : UInt16) : UInt16 := base + 7
def ideRegCommand (base : UInt16) : UInt16 := base + 7

/-- `IDE_REG_EXTENDED_OFFSET`. -/
def ideRegExtendedOffset : UInt16 := 0x200

def ideRegAltstatus (base : UInt16) : UInt16 := base + ideRegExtendedOffset + 6
def ideRegControl (base : UInt16) : UInt16 := base + ideRegExtendedOffset + 6

/-! ## Accesses -/

section Accesses

variable {σ : Type} (bus : PortBus σ)

/-- `IoInputByte` -/
def ioInputByte (wAds : UInt16) : IdeProgram σ Byte :=
  .update fun state =>
    let (value, ports) := bus.inByte state.ports wAds
    (value, { ports, trace := state.trace ++ [.inByte wAds value] })

/-- `IoInputWord` -/
def ioInputWord (wAds : UInt16) : IdeProgram σ UInt16 :=
  .update fun state =>
    let (value, ports) := bus.inWord state.ports wAds
    (value, { ports, trace := state.trace ++ [.inWord wAds value] })

/-- `IoOutputByte` -/
def ioOutputByte (wAds : UInt16) (bValue : Byte) : IdeProgram σ Unit :=
  .update fun state =>
    ((), { ports := bus.outByte state.ports wAds bValue
           trace := state.trace ++ [.outByte wAds bValue] })

/-- `IoOutputWord` -/
def ioOutputWord (wAds wValue : UInt16) : IdeProgram σ Unit :=
  .update fun state =>
    ((), { ports := bus.outWord state.ports wAds wValue
           trace := state.trace ++ [.outWord wAds wValue] })

end Accesses

/-- What a part of the driver adds to the trace. -/
abbrev Emits {σ α : Type} (program : IdeProgram σ α) (cut : List Access → Prop)
    (returned : α → List Access → Prop) : Prop :=
  Program.Emits IdeState.trace program cut returned

section Emitted

variable {σ : Type} {bus : PortBus σ} {cut : List Access → Prop}

/-- A byte that is read is recorded with the value returned. -/
theorem ioInputByte_emits (wAds : UInt16) :
    Emits (ioInputByte bus wAds) cut fun value emitted => emitted = [.inByte wAds value] :=
  .update (fun _ => rfl) fun _ => rfl

/-- A word that is read is recorded with the value returned. -/
theorem ioInputWord_emits (wAds : UInt16) :
    Emits (ioInputWord bus wAds) cut fun value emitted => emitted = [.inWord wAds value] :=
  .update (fun _ => rfl) fun _ => rfl

/-- A word that is written is recorded. -/
theorem ioOutputWord_emits (wAds wValue : UInt16) :
    Emits (ioOutputWord bus wAds wValue) cut fun _ emitted => emitted = [.outWord wAds wValue] :=
  Program.Emits.update (ε := Access) (fun _ => rfl) fun _ => rfl

end Emitted

/-! ## Reading a trace -/

/-- The answers to the reads of the two status registers. -/
def statuses (base : UInt16) (trace : List Access) : List Byte :=
  trace.filterMap fun
    | .inByte wAds value =>
      if wAds = ideRegStatus base ∨ wAds = ideRegAltstatus base then some value else none
    | _ => none

/-- The words written to the data register. -/
def dataWords (base : UInt16) (trace : List Access) : List UInt16 :=
  trace.filterMap fun
    | .outWord wAds wValue => if wAds = ideRegData base then some wValue else none
    | _ => none

/-- The words read from the data register. -/
def wordsRead (base : UInt16) (trace : List Access) : List UInt16 :=
  trace.filterMap fun
    | .inWord wAds value => if wAds = ideRegData base then some value else none
    | _ => none

/-- The drive is not busy, so that the other bits of the status count. -/
def NotBusy (status : Byte) : Prop := status &&& 0x80 = 0

/-- The drive reports an error. -/
def Failed (status : Byte) : Prop := status &&& 0x80 = 0 ∧ status &&& 0x01 ≠ 0

/-- The drive asks for data. -/
def Requests (status : Byte) : Prop := status &&& 0x88 = 0x08

instance : DecidablePred NotBusy := fun status => inferInstanceAs (Decidable (status &&& 0x80 = 0))

instance : DecidablePred Failed :=
  fun status => inferInstanceAs (Decidable (status &&& 0x80 = 0 ∧ status &&& 0x01 ≠ 0))

instance : DecidablePred Requests :=
  fun status => inferInstanceAs (Decidable (status &&& 0x88 = 0x08))

section Reading

variable {base : UInt16}

/-- The statuses of two parts are read one after the other. -/
@[simp] theorem statuses_append (first second : List Access) :
    statuses base (first ++ second) = statuses base first ++ statuses base second :=
  List.filterMap_append

/-- The words sent in two parts are sent one after the other. -/
@[simp] theorem dataWords_append (first second : List Access) :
    dataWords base (first ++ second) = dataWords base first ++ dataWords base second :=
  List.filterMap_append

/-- The words read in two parts are read one after the other. -/
@[simp] theorem wordsRead_append (first second : List Access) :
    wordsRead base (first ++ second) = wordsRead base first ++ wordsRead base second :=
  List.filterMap_append

end Reading

end Cromwell.Ide
