/-
  EightBit.Machine.Signals
  ────────────────────────
  **WHAT GOES IN AND OUT OF A STEP.**

  The outside offers a step a datum on a channel and may raise an interrupt;
  the step may send a byte on a channel, wait for a datum, halt, or ask to
  close the windows.
-/
import EightBit.Byte

namespace EightBit

/-- The highest channel number. -/
def maxChannel : Byte := 0x0F

/-- A datum offered on an input channel. -/
structure InputDatum where
  content : UInt16
  channel : Byte
  deriving DecidableEq, Repr

/-- The content that ends a wait and leaves the register alone. -/
def InputDatum.skip : UInt16 := 0xFFFF

/-- What the outside gives to a step. -/
structure InputSignals where
  datum : Option InputDatum
  interrupt : Bool
  deriving DecidableEq, Repr

/-- Nothing offered, nothing raised. -/
def InputSignals.none : InputSignals := ⟨Option.none, false⟩

/-- A byte sent on an output channel. -/
structure OutputDatum where
  content : Byte
  channel : Byte
  deriving DecidableEq, Repr

/-- What a step gives to the outside. -/
structure OutputSignals where
  datum : Option OutputDatum
  /-- The channel on which an input instruction waits. -/
  waiting : Option Byte
  halted : Bool
  closeWindows : Bool
  deriving DecidableEq, Repr

/-- Nothing sent, nothing asked. -/
def OutputSignals.none : OutputSignals := ⟨Option.none, Option.none, false, false⟩

end EightBit
