import SerialPort.Frame

namespace SerialPort

inductive Interrupt where
  | rxComplete
  | txEmpty
  deriving DecidableEq

structure Received where
  byte : UInt8
  parityError : Bool
  deriving DecidableEq

/-- One simulated transceiver. A byte stored in the data register moves to the shift register as
soon as that is free, and from there onto the wire. -/
structure Usart where
  receiver : Bool := false
  transmitter : Bool := false
  rxInterrupt : Bool := false
  txInterrupt : Bool := false
  doubleSpeed : Bool := false
  divisor : UInt16 := 0
  frame : FrameWord := .standard
  pinsRouted : Bool := false
  txPinDriven : Bool := false
  data : Option UInt8 := none
  shifter : Option UInt8 := none
  txComplete : Bool := false
  received : Option Received := none
  /-- Every byte that has left the line and was not taken off it. -/
  wire : List UInt8 := []
  /-- While set, each look at a transmit flag also finishes a byte on the line. -/
  freeRunning : Bool := false
  /-- The oscillator's calibration in parts of 1024. -/
  trim : Int8 := 0
  deriving DecidableEq

inductive RegisterWrite where
  | routePins
  | driveTxPin
  | doubleSpeed (on : Bool)
  | divisor (d : UInt16)
  | frame (f : FrameWord)
  | receiver (on : Bool)
  | transmitter (on : Bool)
  | interrupt (i : Interrupt) (on : Bool)
  | clearTxComplete
  | data (b : UInt8)
  deriving DecidableEq

namespace Usart

def clockHz : UInt32 := 16000000

def shiftOut (u : Usart) : Option UInt8 × Usart :=
  match u.shifter with
  | none => (none, u)
  | some b =>
    (some b, { u with
      wire := u.wire ++ [b]
      shifter := u.data
      data := none
      txComplete := u.txComplete || u.data.isNone })

def clock (u : Usart) : Usart := if u.freeRunning then u.shiftOut.2 else u

/-- A byte stored while both transmit registers are full replaces the one in the data register. -/
def putData (u : Usart) (b : UInt8) : Usart :=
  if u.shifter.isNone then { u with shifter := some b } else { u with data := some b }

def store (u : Usart) : RegisterWrite → Usart
  | .routePins => { u with pinsRouted := true }
  | .driveTxPin => { u with txPinDriven := true }
  | .doubleSpeed on => { u with doubleSpeed := on }
  | .divisor d => { u with divisor := d }
  | .frame f => { u with frame := f }
  | .receiver on => { u with receiver := on, received := if on then u.received else none }
  | .transmitter on => { u with transmitter := on }
  | .interrupt .rxComplete on => { u with rxInterrupt := on }
  | .interrupt .txEmpty on => { u with txInterrupt := on }
  | .clearTxComplete => { u with txComplete := false }
  | .data b => u.putData b

def displaced (u : Usart) : RegisterWrite → Option UInt8
  | .data _ => if u.shifter.isNone then none else u.data
  | _ => none

def interruptEnabled (u : Usart) : Interrupt → Bool
  | .rxComplete => u.rxInterrupt
  | .txEmpty => u.txInterrupt

def readTxEmpty (u : Usart) : Bool × Usart := (u.clock.data.isNone, u.clock)

def readTxComplete (u : Usart) : Bool × Usart := (u.clock.txComplete, u.clock)

def parityError (u : Usart) : Bool := u.received.any (·.parityError)

def readData (u : Usart) : UInt8 × Usart :=
  (u.received.elim 0 (·.byte), { u with received := none })

/-- A byte arrives on the line. It replaces one that was not read, and is lost while the receiver
is off. -/
def receive (u : Usart) (b : UInt8) (parityError : Bool) : Bool × Usart :=
  if u.receiver then (true, { u with received := some ⟨b, parityError⟩ }) else (false, u)

def takeWire (u : Usart) : List UInt8 × Usart := (u.wire, { u with wire := [] })

def lineIdle (u : Usart) : Bool := u.shifter.isNone && u.data.isNone

/-- The bytes held by the transmitter, the next to leave first. -/
def inFlight (u : Usart) : List UInt8 := u.shifter.toList ++ u.data.toList

def txInterruptPending (u : Usart) : Bool := u.txInterrupt && u.data.isNone

def rxInterruptPending (u : Usart) : Bool := u.rxInterrupt && u.received.isSome

end Usart

end SerialPort
