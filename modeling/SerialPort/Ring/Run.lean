import SerialPort.Answer
import SerialPort.Ring.Basic

namespace SerialPort.Ring

/-- Append each byte in turn, going on after a refusal; how many were accepted. -/
def offer (r : Ring) : List UInt8 → Nat × Ring
  | [] => (0, r)
  | b :: bs =>
    match r.push? b with
    | none => r.offer bs
    | some r =>
      let (n, r) := r.offer bs
      (n + 1, r)

def takeUpTo (r : Ring) : Nat → List UInt8 × Ring
  | 0 => ([], r)
  | n + 1 =>
    match r.pop? with
    | none => ([], r)
    | some (b, r) =>
      let (bs, r) := r.takeUpTo n
      (b :: bs, r)

inductive Op where
  | push (b : UInt8)
  | offer (bs : List UInt8)
  | pop
  | peek
  | takeUpTo (n : Nat)
  | discard
  | reset
  | length
  deriving DecidableEq

def Op.apply : Op → Ring → Answer × Ring
  | .push b, r =>
    match r.push? b with
    | none => (.flag false, r)
    | some r => (.flag true, r)
  | .offer bs, r =>
    let (n, r) := r.offer bs
    (.count n, r)
  | .pop, r =>
    match r.pop? with
    | none => (.byte? none, r)
    | some (b, r) => (.byte? (some b), r)
  | .peek, r => (.byte? r.peek?, r)
  | .takeUpTo n, r =>
    let (bs, r) := r.takeUpTo n
    (.bytes bs, r)
  | .discard, r => (.done, r.discard)
  | .reset, r => (.done, r.reset)
  | .length, r => (.count r.length, r)

def run (r : Ring) : List Op → List (Answer × Ring)
  | [] => []
  | op :: ops =>
    let (a, r) := op.apply r
    (a, r) :: r.run ops

end SerialPort.Ring
