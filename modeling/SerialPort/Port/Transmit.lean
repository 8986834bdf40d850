import SerialPort.Port.Basic

namespace SerialPort.Observed

/-- Move one byte from the transmit buffer into the data register. Transmit-complete is cleared so
that `flush` waits for that byte, and the interrupt disables itself once the buffer runs dry. -/
def onTxEmpty (s : Observed) : Observed :=
  let s :=
    match s.tx.pop? with
    | none => s
    | some (b, tx) => ({ s with tx }.store (.data b)).store .clearTxComplete
  if s.tx.isEmpty then s.store (.interrupt .txEmpty false) else s

def pollTx (s : Observed) : Observed :=
  let (enabled, s) := s.interruptEnabled .txEmpty
  if enabled then
    let (empty, s) := s.txEmpty
    if empty then s.onTxEmpty else s
  else s

def transmitterFree (s : Observed) : Bool × Observed :=
  let (queueing, s) := s.interruptEnabled .txEmpty
  if queueing then (false, s) else s.txEmpty

def tryWrite (s : Observed) (b : UInt8) : Bool × Observed :=
  let (free, s) := s.transmitterFree
  if free then (true, { (s.store (.data b)).store .clearTxComplete with written := true })
  else
    match s.tx.push? b with
    | none => (false, s)
    | some tx => (true, { s with tx, written := true }.store (.interrupt .txEmpty true))

def drained (s : Observed) : Bool × Observed :=
  let (queueing, s) := s.interruptEnabled .txEmpty
  if queueing then (false, s) else s.txComplete

/-- Repeat a test until it succeeds, polling the transmitter after each failure, but at most so many
times. -/
def pollUntil (s : Observed) (test : Observed → Bool × Observed) : Nat → Option Observed
  | 0 =>
    let (done, s) := test s
    if done then some s else none
  | polls + 1 =>
    let (done, s) := test s
    if done then some s else s.pollTx.pollUntil test polls

/-- A poll that changes the port brings this down: it moves a queued byte into the transmitter,
finishes one on the line, or disables the interrupt. So a wait that outlasts it never ends. -/
def patience (s : Observed) : Nat :=
  2 * s.tx.length + s.usart.inFlight.length + s.usart.txInterrupt.toNat

/-- Send, waiting while the transmit buffer is full; `none` if that never ends. -/
def send (s : Observed) (b : UInt8) : Option Observed := s.pollUntil (·.tryWrite b) s.patience

def write (s : Observed) (b : UInt8) : Option (Nat × Observed) := (s.send b).map (1, ·)

/-- Write byte by byte; the sum of what the writes answer. -/
def writeBytes (s : Observed) : List UInt8 → Option (Nat × Observed)
  | [] => some (0, s)
  | b :: bs => do
    let (m, s) ← s.write b
    let (n, s) ← s.writeBytes bs
    return (m + n, s)

/-- Wait until every byte sent has left the wire. Transmit-complete means nothing before first use,
so there is no wait if nothing was sent. -/
def flush (s : Observed) : Option Observed :=
  if s.written then s.pollUntil drained s.patience else some s

end SerialPort.Observed
