import SerialPort.Error
import SerialPort.PortId

namespace SerialPort

inductive Answer where
  | done
  | ok
  | failed (e : SerialError)
  | wouldBlock
  | state (s : Lifecycle)
  | flag (on : Bool)
  | flag? (on : Option Bool)
  | count (n : Nat)
  | trim (t : Int8)
  | byte (b : UInt8)
  | byte? (b : Option UInt8)
  | bytes (bs : List UInt8)
  /-- How many bytes were read, and the whole buffer after it. -/
  | filled (n : Nat) (buffer : List UInt8)
  | ids (ids : List PortId)
  | waiting (ports : List (PortId × Bool))
  deriving DecidableEq

def Answer.ofResult : Except SerialError Unit → Answer
  | .ok () => .ok
  | .error e => .failed e

end SerialPort
