namespace SerialPort

inductive DataBits where
  | five
  | six
  | seven
  | eight
  deriving DecidableEq

inductive Parity where
  | none
  | even
  | odd
  deriving DecidableEq

inductive StopBits where
  | one
  | two
  deriving DecidableEq

structure FrameWord where
  bits : UInt16
  deriving DecidableEq

namespace FrameWord

def sizeMask : UInt16 := 0x07
def twoStopBits : UInt16 := 0x08
def parityMask : UInt16 := 0x30
def evenParity : UInt16 := 0x20
def oddParity : UInt16 := 0x30

def sizeField : DataBits → UInt16
  | .five => 0
  | .six => 1
  | .seven => 2
  | .eight => 3

def parityField : Parity → UInt16
  | .none => 0
  | .even => evenParity
  | .odd => oddParity

def stopField : StopBits → UInt16
  | .one => 0
  | .two => twoStopBits

def ofParts (size : DataBits) (parity : Parity) (stop : StopBits) : FrameWord :=
  ⟨sizeField size ||| parityField parity ||| stopField stop⟩

def dataBits (w : FrameWord) : DataBits :=
  let size := w.bits &&& sizeMask
  if size = 0 then .five else if size = 1 then .six else if size = 2 then .seven else .eight

def parity (w : FrameWord) : Parity :=
  let mode := w.bits &&& parityMask
  if mode = evenParity then .even else if mode = oddParity then .odd else .none

def stopBits (w : FrameWord) : StopBits :=
  if w.bits &&& twoStopBits = 0 then .one else .two

def rebuilt (w : FrameWord) : FrameWord := ofParts w.dataBits w.parity w.stopBits

def standard : FrameWord := ofParts .eight .none .one

theorem dataBits_ofParts (d : DataBits) (p : Parity) (s : StopBits) :
    (ofParts d p s).dataBits = d := by
  cases d <;> cases p <;> cases s <;> rfl

theorem parity_ofParts (d : DataBits) (p : Parity) (s : StopBits) : (ofParts d p s).parity = p := by
  cases d <;> cases p <;> cases s <;> rfl

theorem stopBits_ofParts (d : DataBits) (p : Parity) (s : StopBits) :
    (ofParts d p s).stopBits = s := by
  cases d <;> cases p <;> cases s <;> rfl

theorem rebuilt_ofParts (d : DataBits) (p : Parity) (s : StopBits) :
    (ofParts d p s).rebuilt = ofParts d p s := by
  simp only [rebuilt, dataBits_ofParts, parity_ofParts, stopBits_ofParts]

def sizeDigit : DataBits → Char
  | .five => '5'
  | .six => '6'
  | .seven => '7'
  | .eight => '8'

def parityLetter : Parity → Char
  | .none => 'N'
  | .even => 'E'
  | .odd => 'O'

def stopDigit : StopBits → Char
  | .one => '1'
  | .two => '2'

/-- The customary name of a format, such as `SERIAL_8N1`. -/
def formatName (d : DataBits) (p : Parity) (s : StopBits) : String :=
  "SERIAL_" ++ String.ofList [sizeDigit d, parityLetter p, stopDigit s]

def allDataBits : List DataBits := [.five, .six, .seven, .eight]
def allParities : List Parity := [.none, .even, .odd]
def allStopBits : List StopBits := [.one, .two]

def formats : List (String × FrameWord) :=
  allParities.flatMap fun p => allStopBits.flatMap fun s => allDataBits.map fun d =>
    (formatName d p s, ofParts d p s)

def named? (name : String) : Option FrameWord := formats.lookup name

end FrameWord

end SerialPort
