import SerialPort.Port.Receive
import SerialPort.Port.Transmit

namespace SerialPort

/-- Capital letters of the basic Latin alphabet; every other byte stays as it is. -/
def upperCase (b : UInt8) : UInt8 := if 0x61 ≤ b ∧ b ≤ 0x7a then b - 0x20 else b

namespace Observed

def echoUpTo (s : Observed) : Nat → Option Observed
  | 0 => some s
  | n + 1 =>
    match s.read with
    | (none, s) => some s
    | (some b, s) => do
      let (_, s) ← s.write (upperCase b)
      s.echoUpTo n

/-- Sending receives nothing, so there are as many bytes to echo as are there at the start. -/
def echo (s : Observed) : Option Observed := s.echoUpTo s.available

end Observed

end SerialPort
