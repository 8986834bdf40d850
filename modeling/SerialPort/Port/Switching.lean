import SerialPort.Baud
import SerialPort.Port.Transmit

namespace SerialPort.Observed

def switchOff (s : Observed) : Observed :=
  let s := s.store (.receiver false)
  let s := s.store (.transmitter false)
  let s := s.store (.interrupt .rxComplete false)
  let s := s.store (.interrupt .txEmpty false)
  { s with rx := s.rx.discard, written := false, state := .disabled }

/-- Wait for pending output, then switch off and drop unread input. The pins stay as they are. -/
def disable (s : Observed) : Option Observed :=
  s.flush.map fun s => s.switchOff.log .ended

def retire (s : Observed) : Option Observed :=
  if s.written then s.disable else some s

def switchOn (s : Observed) (divisor : UInt16) (frame : FrameWord) : Observed :=
  let s := s.store .routePins
  let s := s.store (.doubleSpeed false)
  let s := s.store (.divisor divisor)
  let s := s.store (.frame frame)
  let s := { s with rx := s.rx.reset, tx := s.tx.reset }
  let s := s.store (.interrupt .txEmpty false)
  let s := s.store (.receiver true)
  let s := s.store (.transmitter true)
  let s := s.store (.interrupt .rxComplete true)
  let s := s.store .driveTxPin
  { s with state := .enabled }

def enable (s : Observed) (baud : UInt32) (frame : FrameWord) :
    Option (Except SerialError Unit × Observed) :=
  let (trim, s) := s.readTrim
  match Baud.divisor s.clockHz baud trim with
  | .error e => some (.error e, s)
  | .ok d => s.retire.map fun s => (.ok (), (s.switchOn d frame).log (.begun baud d frame))

end SerialPort.Observed
