import SerialPort.Port.Receive
import SerialPort.Port.Transmit

namespace SerialPort.Observed

/-- A read waits for the first byte, and nothing arrives while it waits, so one that finds nothing
never ends. An empty buffer asks for nothing and does not wait. -/
def streamRead (s : Observed) (buffer : List UInt8) : Option (Nat × List UInt8 × Observed) :=
  if buffer.isEmpty || s.hasData then some (s.readAvailable buffer) else none

def readExactWithin (s : Observed) (wanted : Nat) : Nat → Option (List UInt8 × Observed)
  | 0 => if wanted = 0 then some ([], s) else none
  | reads + 1 =>
    if wanted = 0 then some ([], s)
    else do
      let (n, buffer, s) ← s.streamRead (List.replicate wanted 0)
      let (rest, s) ← s.readExactWithin (wanted - n) reads
      return (buffer.take n ++ rest, s)

/-- Every read that ends brings at least one byte, so as many reads as bytes are enough. -/
def readExact (s : Observed) (wanted : Nat) : Option (List UInt8 × Observed) :=
  s.readExactWithin wanted wanted

def streamWrite (s : Observed) (bs : List UInt8) : Option (Nat × Observed) := s.writeBytes bs

def writeAllWithin (s : Observed) (bs : List UInt8) : Nat → Option Observed
  | 0 => if bs.isEmpty then some s else none
  | writes + 1 =>
    if bs.isEmpty then some s
    else do
      let (n, s) ← s.streamWrite bs
      s.writeAllWithin (bs.drop n) writes

def writeAll (s : Observed) (bs : List UInt8) : Option Observed := s.writeAllWithin bs bs.length

def print (s : Observed) (text : String) : Option Observed :=
  (s.writeBytes text.toUTF8.toList).map (·.2)

end SerialPort.Observed
