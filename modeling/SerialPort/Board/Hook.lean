import SerialPort.Board.Events
import SerialPort.Port.Echo

namespace SerialPort

inductive HookKind where
  | count
  | drain
  | one
  | echo
  | inject
  | clear
  | unbind
  | rehook
  | nest
  deriving DecidableEq

structure Hook (n : Nat) where
  kind : HookKind
  port : Fin n
  deriving DecidableEq

inductive Detail where
  | none
  | read (bs : List UInt8)
  | taken (on : Bool)
  | outcome (r : Except SerialError Unit)
  | ran (hooks : Nat)

structure HookNote (n : Nat) where
  hook : Hook n
  detail : Detail := .none

abbrev HookBoard (n : Nat) := Board n (Hook n) (HookNote n)

namespace Hook

variable {n : Nat}

def ownId (h : Hook n) : PortId := ⟨.ofNat h.port⟩

def injected : UInt8 := 0x68

def note (h : Hook n) (detail : Detail := .none) : HookNote n := ⟨h, detail⟩

def readOne (h : Hook n) (b : HookBoard n) : HookBoard n :=
  let (byte, b) := b.on h.port Observed.read
  b.note (h.note (.read byte.toList))

/-- Call a hook. Events run again from a `nest` hook at most `levels` deep. -/
def call : (levels : Nat) → Hook n → HookBoard n → Option (HookBoard n)
  | levels, h, b =>
    match h.kind with
    | .count => some (b.note h.note)
    | .drain =>
      let (bs, b) := b.on h.port Observed.drain
      some (b.note (h.note (.read bs)))
    | .one => some (h.readOne b)
    | .echo =>
      ((b.note h.note).await h.port fun s => s.echo.map ((), ·)).map (·.2)
    | .inject =>
      let (taken, b) := b.on h.port (·.inject injected false)
      some (b.note (h.note (.taken taken)))
    | .clear => some ((b.note h.note).clearHook h.ownId)
    | .unbind =>
      let (r, b) := b.unbind h.ownId
      some (b.note (h.note (.outcome r)))
    | .rehook => some ((b.note h.note).setHook h.ownId { h with kind := .count }).2
    | .nest =>
      let b := h.readOne b
      match levels with
      | 0 => some b
      | levels + 1 => (b.runCollected (call levels)).map fun (ran, b) => b.note (h.note (.ran ran))

def maxLevels : Nat := 3

end Hook

end SerialPort
