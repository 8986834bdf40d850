import SerialPort.Board.Basic

namespace SerialPort.Board

variable {n : Nat} {η ν : Type}

/-- A hook that is due, with the id it was found under and the port that was tested. -/
structure Due (n : Nat) (η : Type) where
  id : PortId
  port : Fin n
  hook : η
  deriving DecidableEq

def dueAt (b : Board n η ν) (hooks : Table η) (id : PortId) (k : Fin n) : Option (Due n η) :=
  if (b.port k).hasData then (hooks.get? id).map (⟨id, k, ·⟩) else none

def due (b : Board n η ν) : List (Due n η) :=
  b.registry.entries.filterMap fun (id, k) => b.dueAt b.hooks id k

/-- The hooks that are due, as far as there is room for them: for one hook of each port of the
largest part. -/
def collected (b : Board n η ν) : List (Due n η) := (Bounded.gather Table.maxPorts b.due).items

variable (call : η → Board n η ν → Option (Board n η ν))

def callAll (b : Board n η ν) : List (Due n η) → Option (Board n η ν)
  | [] => some b
  | d :: ds => (call d.hook b).bind (·.callAll ds)

/-- Collect the hooks that are due, then call them; how many there were. -/
def runCollected (b : Board n η ν) : Option (Nat × Board n η ν) :=
  (b.callAll call b.collected).map (b.collected.length, ·)

def runEntries (b : Board n η ν) (hooks : Table η) :
    List (PortId × Fin n) → Option (Nat × Board n η ν)
  | [] => some (0, b)
  | (id, k) :: rest =>
    match b.dueAt hooks id k with
    | none => b.runEntries hooks rest
    | some d => do
      let b ← call d.hook b
      let (m, b) ← b.runEntries hooks rest
      return (m + 1, b)

/-- Test and call port by port; how many hooks were called. -/
def runInTurn (b : Board n η ν) : Option (Nat × Board n η ν) :=
  b.runEntries call b.hooks b.registry.entries

end SerialPort.Board
