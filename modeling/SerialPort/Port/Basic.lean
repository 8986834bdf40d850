import SerialPort.Record
import SerialPort.Ring.Basic
import SerialPort.Usart.Basic

namespace SerialPort

structure Port where
  usart : Usart
  clockHz : UInt32
  rx : Ring
  tx : Ring
  /-- A byte was accepted for sending since the port was last switched on or off. -/
  written : Bool := false
  state : Lifecycle := .disabled
  deriving DecidableEq

namespace Port

def new (rxSlots txSlots : Nat) (clockHz : UInt32 := Usart.clockHz) (trim : Int8 := 0)
    (freeRunning : Bool := false) (hrx : 2 ≤ rxSlots := by decide)
    (htx : 2 ≤ txSlots := by decide) : Port where
  usart := { trim, freeRunning }
  clockHz
  rx := .empty rxSlots hrx
  tx := .empty txSlots htx

def available (p : Port) : Nat := p.rx.length

def hasData (p : Port) : Bool := 0 < p.available

def peek? (p : Port) : Option UInt8 := p.rx.peek?

def availableForWrite (p : Port) : Nat := p.tx.free

def writeReady (p : Port) : Bool := 0 < p.availableForWrite

/-- The bytes accepted and not yet on the wire, the next to leave first. -/
def pending (p : Port) : List UInt8 := p.usart.inFlight ++ p.tx.toList

end Port

inductive Reading where
  | interruptEnabled (i : Interrupt) (on : Bool)
  | txEmpty (on : Bool)
  | txComplete (on : Bool)
  | parityError (on : Bool)
  | data (b : UInt8)
  | trim (t : Int8)
  deriving DecidableEq

inductive Event where
  | store (w : RegisterWrite)
  | load (r : Reading)
  | log (r : Record)
  deriving DecidableEq

/-- A port with the register accesses that it makes and the records that it logs, oldest first. -/
structure Observed extends Port where
  events : Array Event := #[]
  deriving DecidableEq

def Port.observe (p : Port) : Observed := { toPort := p }

namespace Observed

def note (s : Observed) (e : Event) : Observed := { s with events := s.events.push e }

def log (s : Observed) (r : Record) : Observed := s.note (.log r)

/-- The transceiver warns of a byte that a write threw away. -/
def warnIf (s : Observed) (displaced : Option UInt8) : Observed :=
  if displaced.isSome then s.log .overwritten else s

def store (s : Observed) (w : RegisterWrite) : Observed :=
  ({ s with usart := s.usart.store w }.note (.store w)).warnIf (s.usart.displaced w)

def interruptEnabled (s : Observed) (i : Interrupt) : Bool × Observed :=
  let on := s.usart.interruptEnabled i
  (on, s.note (.load (.interruptEnabled i on)))

def txEmpty (s : Observed) : Bool × Observed :=
  let (on, usart) := s.usart.readTxEmpty
  (on, { s with usart }.note (.load (.txEmpty on)))

def txComplete (s : Observed) : Bool × Observed :=
  let (on, usart) := s.usart.readTxComplete
  (on, { s with usart }.note (.load (.txComplete on)))

def parityError (s : Observed) : Bool × Observed :=
  let on := s.usart.parityError
  (on, s.note (.load (.parityError on)))

def readData (s : Observed) : UInt8 × Observed :=
  let (b, usart) := s.usart.readData
  (b, { s with usart }.note (.load (.data b)))

def readTrim (s : Observed) : Int8 × Observed :=
  let t := s.usart.trim
  (t, s.note (.load (.trim t)))

end Observed

end SerialPort
