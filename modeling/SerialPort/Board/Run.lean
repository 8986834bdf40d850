import SerialPort.Board.Events

namespace SerialPort.Board

inductive EventRun where
  | inTurn
  | collected
  deriving DecidableEq

inductive Step (n : Nat) (η : Type) where
  | port (k : Fin n) (st : Port.Step)
  | bind (id : PortId) (k : Fin n)
  | unbind (id : PortId)
  | get (id : PortId)
  | isBound (id : PortId)
  | dispatch (id : PortId) (i : Interrupt)
  | boundIds
  | waiting
  | setHook (id : PortId) (h : η)
  | clearHook (id : PortId)
  | hasHook (id : PortId)
  | events (how : EventRun)
  | interrupt (k : Fin n) (i : Interrupt)
  deriving DecidableEq

variable {n : Nat} {η ν : Type} (call : η → Board n η ν → Option (Board n η ν))

def runEvents (b : Board n η ν) : EventRun → Option (Nat × Board n η ν)
  | .inTurn => b.runInTurn call
  | .collected => b.runCollected call

def apply (b : Board n η ν) : Step n η → Option (Answer × Board n η ν)
  | .port k st => b.await k (·.runStep st)
  | .bind id k => let (r, b) := b.bind id k; some (.ofResult r, b)
  | .unbind id => let (r, b) := b.unbind id; some (.ofResult r, b)
  | .get id => some (.flag? (b.get? id), b)
  | .isBound id => some (.flag (b.registry.contains id), b)
  | .dispatch id i => let (r, b) := b.dispatch id i; some (.ofResult r, b)
  | .boundIds => some (.ids b.registry.ids, b)
  | .waiting => some (.waiting b.waiting, b)
  | .setHook id h => let (r, b) := b.setHook id h; some (.ofResult r, b)
  | .clearHook id => some (.done, b.clearHook id)
  | .hasHook id => some (.flag (b.hooks.contains id), b)
  | .events how => (b.runEvents call how).map fun (called, b) => (.count called, b)
  | .interrupt k i => some (.done, b.handle k i)

def step (b : Board n η ν) (st : Step n η) : Option (Answer × Board n η ν) :=
  { b with journal := #[] }.apply call st

/-- The answers of the steps that ended, each with the board it left, and whether all did. A step
that can never end is the last one. -/
def run (b : Board n η ν) : List (Step n η) → List (Answer × Board n η ν) × Bool
  | [] => ([], true)
  | st :: sts =>
    match b.step call st with
    | none => ([], false)
    | some (a, b) =>
      let (rest, ended) := b.run sts
      ((a, b) :: rest, ended)

def after (b : Board n η ν) (sts : List (Step n η)) : Option (Board n η ν) :=
  sts.foldlM (fun b st => (b.step call st).map (·.2)) b

end SerialPort.Board
