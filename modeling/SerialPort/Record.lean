import SerialPort.Frame
import SerialPort.PortId

namespace SerialPort

inductive Record where
  | begun (baud : UInt32) (divisor : UInt16) (frame : FrameWord)
  | ended
  | parityError (b : UInt8)
  | overflow (b : UInt8)
  | overwritten
  | bound (id : PortId)
  | unbound (id : PortId)
  deriving DecidableEq

namespace Record

/-- Lower-case hexadecimal with at least two digits. -/
def hexDigits (n : Nat) : String :=
  String.ofList (List.replicate (2 - (Nat.toDigits 16 n).length) '0' ++ Nat.toDigits 16 n)

def hex (n : Nat) : String := "0x" ++ hexDigits n

def level : Record → String
  | begun .. | ended | bound _ | unbound _ => "DEBUG"
  | parityError _ | overflow _ => "TRACE"
  | overwritten => "WARN"

def message : Record → String
  | begun baud divisor frame =>
    "uart: begin baud=" ++ toString baud.toNat ++ " divisor=" ++ toString divisor.toNat ++
      " frame=" ++ hex frame.bits.toNat
  | ended => "uart: end"
  | parityError b => "uart: parity error, discarded " ++ hex b.toNat
  | overflow b => "uart: rx overflow, dropped " ++ hex b.toNat
  | overwritten => "sim: transmit data register overwritten"
  | bound id => "uart: bound port " ++ toString id.index
  | unbound id => "uart: unbound port " ++ toString id.index

def text (r : Record) : String := r.level ++ " " ++ r.message

end Record

end SerialPort
