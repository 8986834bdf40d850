import SerialPort.Answer
import SerialPort.Usart.Basic

namespace SerialPort.Usart

inductive Op where
  | store (w : RegisterWrite)
  | interruptEnabled (i : Interrupt)
  | txEmpty
  | txComplete
  | parityError
  | readData
  | tick
  | receive (b : UInt8) (corrupt : Bool)
  | wire
  | takeWire
  | freeRunning (on : Bool)
  deriving DecidableEq

def Op.apply : Op → Usart → Answer × Usart
  | .store w, u => (.done, u.store w)
  | .interruptEnabled i, u => (.flag (u.interruptEnabled i), u)
  | .txEmpty, u =>
    let (on, u) := u.readTxEmpty
    (.flag on, u)
  | .txComplete, u =>
    let (on, u) := u.readTxComplete
    (.flag on, u)
  | .parityError, u => (.flag u.parityError, u)
  | .readData, u =>
    let (b, u) := u.readData
    (.byte b, u)
  | .tick, u =>
    let (b, u) := u.shiftOut
    (.byte? b, u)
  | .receive b corrupt, u =>
    let (taken, u) := u.receive b corrupt
    (.flag taken, u)
  | .wire, u => (.bytes u.wire, u)
  | .takeWire, u =>
    let (bs, u) := u.takeWire
    (.bytes bs, u)
  | .freeRunning on, u => (.done, { u with freeRunning := on })

def Op.displaced : Op → Usart → Option UInt8
  | .store w, u => u.displaced w
  | _, _ => none

end SerialPort.Usart
