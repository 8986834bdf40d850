namespace SerialPort

def version : String := "0.1.0"

inductive SerialError where
  | invalidBaudRate
  | divisorOutOfRange
  | invalidPort
  | portInUse
  | portNotBound
  deriving DecidableEq

namespace SerialError

def all : List SerialError :=
  [invalidBaudRate, divisorOutOfRange, invalidPort, portInUse, portNotBound]

theorem mem_all (e : SerialError) : e ∈ all := by
  cases e <;> decide

def message : SerialError → String
  | invalidBaudRate => "Invalid baud rate"
  | divisorOutOfRange => "Baud divisor out of range"
  | invalidPort => "Invalid port id"
  | portInUse => "Port id already bound"
  | portNotBound => "No port bound to id"

end SerialError

end SerialPort
