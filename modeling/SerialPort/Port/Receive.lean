import SerialPort.Port.Basic

namespace SerialPort.Observed

def onRxComplete (s : Observed) : Observed :=
  let (corrupt, s) := s.parityError
  let (b, s) := s.readData
  if corrupt then s.log (.parityError b)
  else
    match s.rx.push? b with
    | none => s.log (.overflow b)
    | some rx => { s with rx }

def read (s : Observed) : Option UInt8 × Observed :=
  match s.rx.pop? with
  | none => (none, s)
  | some (b, rx) => (some b, { s with rx })

/-- Overwrite the buffer with what was received, as far as it goes; how many bytes that was, and
the buffer after it. -/
def readAvailable (s : Observed) : List UInt8 → Nat × List UInt8 × Observed
  | [] => (0, [], s)
  | old :: rest =>
    match s.read with
    | (none, s) => (0, old :: rest, s)
    | (some b, s) =>
      let (n, rest, s) := s.readAvailable rest
      (n + 1, b :: rest, s)

def drain (s : Observed) : List UInt8 × Observed :=
  let (_, bs, s) := s.readAvailable (List.replicate s.available 0)
  (bs, s)

end SerialPort.Observed
