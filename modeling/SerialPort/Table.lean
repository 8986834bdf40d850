import SerialPort.Bounded
import SerialPort.Error
import SerialPort.PortId

namespace SerialPort

structure Table (α : Type) where
  slots : Array (Option α)
  deriving DecidableEq

namespace Table

variable {α : Type}

/-- The number of ports on the largest part. -/
def maxPorts : Nat := 4

def empty (size : Nat) : Table α := ⟨Array.replicate size none⟩

def size (t : Table α) : Nat := t.slots.size

def get? (t : Table α) (id : PortId) : Option α := t.slots[id.index]?.join

def contains (t : Table α) (id : PortId) : Bool := (t.get? id).isSome

def put (t : Table α) (id : PortId) (slot : Option α) : Table α :=
  ⟨t.slots.setIfInBounds id.index slot⟩

def set (t : Table α) (id : PortId) (a : α) : Except SerialError (Table α) :=
  if id.index < t.size then .ok (t.put id (some a)) else .error .invalidPort

def clear (t : Table α) (id : PortId) : Table α := t.put id none

def bind (t : Table α) (id : PortId) (a : α) : Except SerialError (Table α) :=
  if t.size ≤ id.index then .error .invalidPort
  else if t.contains id then .error .portInUse
  else .ok (t.put id (some a))

/-- Unbinding a free id is no error. -/
def unbind (t : Table α) (id : PortId) : Except SerialError (Table α) :=
  if id.index < t.size then .ok (t.clear id) else .error .invalidPort

def find (t : Table α) (id : PortId) : Except SerialError α :=
  if t.size ≤ id.index then .error .invalidPort
  else
    match t.get? id with
    | none => .error .portNotBound
    | some a => .ok a

def entries (t : Table α) : List (PortId × α) :=
  t.slots.toList.zipIdx.filterMap fun (slot, i) => slot.map (⟨.ofNat i⟩, ·)

/-- The ids are gathered in a list with as much room as the table has slots. -/
def ids (t : Table α) : List PortId := (Bounded.gather t.size (t.entries.map (·.1))).items

theorem get?_eq_none_of_le (t : Table α) {id : PortId} (h : t.size ≤ id.index) :
    t.get? id = none := by
  rw [get?, Array.getElem?_eq_none h, Option.join_none]

@[simp] theorem get?_empty (n : Nat) (id : PortId) : (empty n : Table α).get? id = none := by
  rw [get?, empty, Array.getElem?_replicate]
  split <;> rfl

@[simp] theorem size_put (t : Table α) (id : PortId) (slot : Option α) :
    (t.put id slot).size = t.size := by
  simp [put, size]

theorem get?_put_self (t : Table α) {id : PortId} (h : id.index < t.size) (slot : Option α) :
    (t.put id slot).get? id = slot := by
  rw [get?, put, Array.getElem?_setIfInBounds_self, if_pos (show id.index < t.slots.size from h),
    Option.join_some]

theorem get?_put_ne (t : Table α) {id other : PortId} (h : other ≠ id) (slot : Option α) :
    (t.put id slot).get? other = t.get? other := by
  rw [get?, put, Array.getElem?_setIfInBounds_ne (fun e => h (PortId.index_inj e.symm)), get?]

end Table

end SerialPort
