import SerialPort.Board.Hook

namespace SerialPort.Echo

def baud : UInt32 := 115200

def portId : PortId := ⟨0⟩

def input : String := "hello from the other side\n"

def board : HookBoard 1 := .new #v[.new 16 16] Table.maxPorts

def start : Option (HookBoard 1) := do
  let (enabled, b) ← board.await 0 (·.enable baud .standard)
  let (bound, b) := b.bind portId 0
  let (hooked, b) := b.setHook portId ⟨.echo, 0⟩
  match enabled, bound, hooked with
  | .ok (), .ok (), .ok () => some b
  | _, _, _ => none

def service (b : HookBoard 1) : HookBoard 1 := (b.on 0 (·.serviceRx.serviceTx)).2

def usart (b : HookBoard 1) (op : Usart.Op) : HookBoard 1 := (b.on 0 (·.runUsart op)).2

/-- A byte arrives, is echoed, and the line moves on by one byte. -/
def round (b : HookBoard 1) (byte : UInt8) : Option (HookBoard 1) := do
  let (_, b) ← (service (usart b (.receive byte false))).runCollected (Hook.call Hook.maxLevels)
  return usart (service b) .tick

def settleWithin (b : HookBoard 1) : Nat → Option (HookBoard 1)
  | 0 => if (b.port 0).observe.lineQuiet then some b else none
  | ticks + 1 =>
    if (b.port 0).observe.lineQuiet then some b
    else settleWithin (usart (service b) .tick) ticks

/-- Each tick brings down what is still to be sent. -/
def settle (b : HookBoard 1) : Option (HookBoard 1) :=
  settleWithin b (b.port 0).observe.patience

def echoed (bytes : List UInt8) : Option (List UInt8) := do
  let b ← start
  let b ← bytes.foldlM round b
  let b ← settle b
  let (_, b) ← b.await 0 fun s => s.disable.map ((), ·)
  return (b.port 0).usart.wire

def trimEnd (text : String) : String :=
  String.ofList (text.toList.reverse.dropWhile Char.isWhitespace).reverse

def output : String :=
  match echoed input.toUTF8.toList with
  | none => ""
  | some bytes => trimEnd ((String.fromUTF8? ⟨bytes.toArray⟩).getD "") ++ "\n"

end SerialPort.Echo
