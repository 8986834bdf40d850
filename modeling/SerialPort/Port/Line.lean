import SerialPort.Port.Receive
import SerialPort.Port.Transmit

namespace SerialPort.Observed

def serviceTx (s : Observed) : Bool × Observed :=
  if s.usart.txInterruptPending then (true, s.onTxEmpty) else (false, s)

def serviceRx (s : Observed) : Observed :=
  if s.usart.rxInterruptPending then s.onRxComplete else s

/-- Finish one byte on the line; the byte that left. -/
def tick (s : Observed) : Option UInt8 × Observed :=
  let (b, usart) := s.usart.shiftOut
  (b, { s with usart }.serviceTx.2)

/-- A byte arrives. It is lost while the receiver is off. -/
def inject (s : Observed) (b : UInt8) (parityError : Bool) : Bool × Observed :=
  let (taken, usart) := s.usart.receive b parityError
  if taken then (true, { s with usart }.serviceRx) else (false, s)

def injectAll (s : Observed) : List UInt8 → Nat × Observed
  | [] => (0, s)
  | b :: bs =>
    let (taken, s) := s.inject b false
    let (n, s) := s.injectAll bs
    (taken.toNat + n, s)

def lineQuiet (s : Observed) : Bool := s.usart.lineIdle && !s.usart.txInterruptPending

/-- Tick until the line is quiet, but at most so many times; how many bytes left. -/
def runUntilIdle (s : Observed) : Nat → Nat × Observed
  | 0 => (0, s)
  | limit + 1 =>
    let (_, s) := s.serviceTx
    if s.lineQuiet then (0, s)
    else
      let (b, s) := s.tick
      let (n, s) := s.runUntilIdle limit
      (b.isSome.toNat + n, s)

end SerialPort.Observed
