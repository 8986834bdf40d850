namespace SerialPort

inductive Lifecycle where
  | disabled
  | enabled
  deriving DecidableEq

structure PortId where
  raw : UInt8
  deriving DecidableEq

namespace PortId

def index (id : PortId) : Nat := id.raw.toNat

def compare (a b : PortId) : Ordering := Ord.compare a.raw b.raw

theorem index_lt (id : PortId) : id.index < 256 := id.raw.toNat_lt

theorem index_inj {a b : PortId} (h : a.index = b.index) : a = b := by
  cases a
  cases b
  exact congrArg PortId.mk (UInt8.toNat_inj.1 h)

end PortId

end SerialPort
