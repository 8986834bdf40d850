import SerialPort.Error

namespace SerialPort.Baud

def minDivisor : UInt16 := 64

/-- Half of `8 * clock / baud`, with one added first to round half up. -/
def nominal (clockHz baud : UInt32) : UInt64 :=
  (8 * clockHz.toUInt64 / baud.toUInt64 + 1) / 2

def corrected (nominal : Int64) (trim : Int8) : Int64 :=
  nominal + nominal * trim.toInt64 / 1024

/-- The divisor before its range is tested. -/
def ideal (clockHz baud : UInt32) (trim : Int8) : Int64 :=
  corrected (nominal clockHz baud).toInt64 trim

def InRange (d : Int64) : Prop := minDivisor.toNat ≤ d.toInt ∧ d.toInt < UInt16.size

instance (d : Int64) : Decidable (InRange d) := inferInstanceAs (Decidable (_ ∧ _))

/-- The nominal divisor is corrected by `trim` parts in 1024, rounded toward zero. Words of 64 bits
hold every intermediate value. -/
def divisor (clockHz baud : UInt32) (trim : Int8) : Except SerialError UInt16 :=
  if baud = 0 then .error .invalidBaudRate
  else
    let d := ideal clockHz baud trim
    if InRange d then .ok (.ofNat d.toInt.toNat) else .error .divisorOutOfRange

end SerialPort.Baud
