import SerialPort.Port.Run
import SerialPort.Table

namespace SerialPort

/-- One line of the journal: what a port did, a record of the registry, or a note that a hook
wrote. -/
inductive Entry (n : Nat) (ν : Type) where
  | port (k : Fin n) (e : Event)
  | log (r : Record)
  | note (text : ν)
  deriving DecidableEq

/-- Some ports, a registry that binds them to hardware ids, and a table of event hooks. What hooks
are and what they write down is left open; the journal keeps what happened, oldest first. -/
structure Board (n : Nat) (η ν : Type) where
  ports : Vector Port n
  registry : Table (Fin n)
  hooks : Table η
  journal : Array (Entry n ν) := #[]

namespace Board

variable {n : Nat} {η ν : Type}

def new (ports : Vector Port n) (slots : Nat) : Board n η ν where
  ports
  registry := .empty slots
  hooks := .empty slots

def append (b : Board n η ν) (e : Entry n ν) : Board n η ν :=
  { b with journal := b.journal.push e }

def log (b : Board n η ν) (r : Record) : Board n η ν := b.append (.log r)

def note (b : Board n η ν) (text : ν) : Board n η ν := b.append (.note text)

def port (b : Board n η ν) (k : Fin n) : Port := b.ports.get k

def restore (b : Board n η ν) (k : Fin n) (s : Observed) : Board n η ν :=
  { b with
    ports := b.ports.set k s.toPort k.isLt
    journal := b.journal ++ s.events.map (Entry.port k) }

def on {α : Type} (b : Board n η ν) (k : Fin n) (f : Observed → α × Observed) :
    α × Board n η ν :=
  let (a, s) := f (b.port k).observe
  (a, b.restore k s)

/-- Do something on one port that may never end. -/
def await {α : Type} (b : Board n η ν) (k : Fin n) (f : Observed → Option (α × Observed)) :
    Option (α × Board n η ν) :=
  (f (b.port k).observe).map fun (a, s) => (a, b.restore k s)

def bind (b : Board n η ν) (id : PortId) (k : Fin n) : Except SerialError Unit × Board n η ν :=
  match b.registry.bind id k with
  | .error e => (.error e, b)
  | .ok registry => (.ok (), { b with registry }.log (.bound id))

def unbind (b : Board n η ν) (id : PortId) : Except SerialError Unit × Board n η ν :=
  match b.registry.unbind id with
  | .error e => (.error e, b)
  | .ok registry =>
    let freed := { b with registry }
    (.ok (), if b.registry.contains id then freed.log (.unbound id) else freed)

/-- Whether the port bound to an id has unread input. -/
def get? (b : Board n η ν) (id : PortId) : Option Bool :=
  (b.registry.get? id).map fun k => (b.port k).hasData

def waiting (b : Board n η ν) : List (PortId × Bool) :=
  b.registry.entries.map fun (id, k) => (id, (b.port k).hasData)

def handle (b : Board n η ν) (k : Fin n) (i : Interrupt) : Board n η ν :=
  match i with
  | .rxComplete => (b.on k fun s => ((), s.onRxComplete)).2
  | .txEmpty => (b.on k fun s => ((), s.onTxEmpty)).2

def dispatch (b : Board n η ν) (id : PortId) (i : Interrupt) :
    Except SerialError Unit × Board n η ν :=
  match b.registry.find id with
  | .error e => (.error e, b)
  | .ok k => (.ok (), b.handle k i)

def setHook (b : Board n η ν) (id : PortId) (h : η) : Except SerialError Unit × Board n η ν :=
  match b.hooks.set id h with
  | .error e => (.error e, b)
  | .ok hooks => (.ok (), { b with hooks })

def clearHook (b : Board n η ν) (id : PortId) : Board n η ν :=
  { b with hooks := b.hooks.clear id }

end Board

end SerialPort
