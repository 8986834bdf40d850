import SerialPort.Port.Switching
import SerialPort.Port.Line
import SerialPort.Port.Stream
import SerialPort.Usart.Run

namespace SerialPort

namespace Port

inductive Call where
  | enable (baud : UInt32) (frame : FrameWord)
  | disable
  | flush
  | onRxComplete
  | onTxEmpty
  | pollTx
  | state
  | isEnabled
  | clockHz
  | trim
  | available
  | availableForWrite
  | hasData
  | writeReady
  | peek
  | read
  | tryRead
  | readAvailable (size : Nat)
  | streamRead (size : Nat)
  | readExact (size : Nat)
  | tryWrite (b : UInt8)
  | write (b : UInt8)
  | writeBytes (bs : List UInt8)
  | streamWrite (bs : List UInt8)
  | writeAll (bs : List UInt8)
  | print (text : String)
  deriving DecidableEq

inductive LineEvent where
  | tick
  | serviceTx
  | inject (b : UInt8) (corrupt : Bool)
  | injectAll (bs : List UInt8)
  | runUntilIdle (limit : Nat)
  | readWhile (size : Nat) (b : UInt8)
  deriving DecidableEq

inductive Step where
  | call (c : Call)
  | line (e : LineEvent)
  | usart (op : Usart.Op)
  deriving DecidableEq

end Port

namespace Observed

def zeros (size : Nat) : List UInt8 := List.replicate size 0

def answerFilled : Nat × List UInt8 × Observed → Answer × Observed
  | (n, buffer, s) => (.filled n buffer, s)

def answerCount : Nat × Observed → Answer × Observed
  | (n, s) => (.count n, s)

def runCall (s : Observed) : Port.Call → Option (Answer × Observed)
  | .enable baud frame => (s.enable baud frame).map fun (r, s) => (.ofResult r, s)
  | .disable => s.disable.map (.done, ·)
  | .flush => s.flush.map (.done, ·)
  | .onRxComplete => some (.done, s.onRxComplete)
  | .onTxEmpty => some (.done, s.onTxEmpty)
  | .pollTx => some (.done, s.pollTx)
  | .state => some (.state s.state, s)
  | .isEnabled => some (.flag (s.state = .enabled), s)
  | .clockHz => some (.count s.clockHz.toNat, s)
  | .trim => let (t, s) := s.readTrim; some (.trim t, s)
  | .available => some (.count s.available, s)
  | .availableForWrite => some (.count s.availableForWrite, s)
  | .hasData => some (.flag s.hasData, s)
  | .writeReady => some (.flag s.writeReady, s)
  | .peek => some (.byte? s.peek?, s)
  | .read => let (b, s) := s.read; some (.byte? b, s)
  | .tryRead => let (b, s) := s.read; some (b.elim .wouldBlock .byte, s)
  | .readAvailable size => some (answerFilled (s.readAvailable (zeros size)))
  | .streamRead size => (s.streamRead (zeros size)).map answerFilled
  | .readExact size => (s.readExact size).map fun (bs, s) => (.bytes bs, s)
  | .tryWrite b => let (taken, s) := s.tryWrite b; some (if taken then .ok else .wouldBlock, s)
  | .write b => (s.write b).map answerCount
  | .writeBytes bs => (s.writeBytes bs).map answerCount
  | .streamWrite bs => (s.streamWrite bs).map answerCount
  | .writeAll bs => (s.writeAll bs).map (.done, ·)
  | .print text => (s.print text).map (.flag true, ·)

def runLine (s : Observed) : Port.LineEvent → Option (Answer × Observed)
  | .tick => let (b, s) := s.tick; some (.byte? b, s)
  | .serviceTx => let (raised, s) := s.serviceTx; some (.flag raised, s)
  | .inject b corrupt => let (taken, s) := s.inject b corrupt; some (.flag taken, s)
  | .injectAll bs => let (n, s) := s.injectAll bs; some (.count n, s)
  | .runUntilIdle limit => let (n, s) := s.runUntilIdle limit; some (.count n, s)
  | .readWhile size b => ((s.inject b false).2.streamRead (zeros size)).map answerFilled

def runUsart (s : Observed) (op : Usart.Op) : Answer × Observed :=
  let (a, usart) := op.apply s.usart
  (a, { s with usart }.warnIf (op.displaced s.usart))

def runStep (s : Observed) : Port.Step → Option (Answer × Observed)
  | .call c => s.runCall c
  | .line e => s.runLine e
  | .usart op => some (s.runUsart op)

end Observed

namespace Port

structure Outcome where
  answer : Answer
  port : Port
  events : List Event
  deriving DecidableEq

def step (p : Port) (st : Step) : Option Outcome :=
  (p.observe.runStep st).map fun (a, s) => ⟨a, s.toPort, s.events.toList⟩

/-- The outcomes of the steps that ended, and whether all did. A step that can never end is the
last one. -/
def run (p : Port) : List Step → List Outcome × Bool
  | [] => ([], true)
  | st :: sts =>
    match p.step st with
    | none => ([], false)
    | some o =>
      let (rest, ended) := o.port.run sts
      (o :: rest, ended)

def after (p : Port) (sts : List Step) : Option Port :=
  sts.foldlM (fun p st => (p.step st).map (·.port)) p

end Port

end SerialPort
