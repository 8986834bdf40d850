namespace SerialPort

/-- A circular byte buffer. One slot always stays free, so that equal indices mean empty. -/
structure Ring where
  slots : Array UInt8
  head : Nat
  tail : Nat
  two_le_size : 2 ≤ slots.size
  head_lt : head < slots.size
  tail_lt : tail < slots.size
  deriving DecidableEq

namespace Ring

/-- The largest buffer whose indices fit in one byte, so that reading one is a single access. -/
def singleAccessLimit : Nat := 256

def defaultSlots : Nat := 64

def smallSlots : Nat := 16

def empty (slots : Nat) (h : 2 ≤ slots := by decide) : Ring where
  slots := Array.replicate slots 0
  head := 0
  tail := 0
  two_le_size := by simpa using h
  head_lt := by simp; omega
  tail_lt := by simp; omega

def size (r : Ring) : Nat := r.slots.size

theorem size_pos (r : Ring) : 0 < r.size := Nat.lt_of_lt_of_le Nat.two_pos r.two_le_size

def capacity (r : Ring) : Nat := r.size - 1

/-- Indices wider than a byte take several accesses to read, so reads of them are shielded from
interrupts. -/
def guarded (r : Ring) : Bool := singleAccessLimit < r.size

def next (r : Ring) (i : Nat) : Nat := (i + 1) % r.size

theorem next_lt (r : Ring) (i : Nat) : r.next i < r.slots.size := Nat.mod_lt _ r.size_pos

def length (r : Ring) : Nat := (r.size + r.head - r.tail) % r.size

def free (r : Ring) : Nat := r.capacity - r.length

def isEmpty (r : Ring) : Bool := r.head = r.tail

def isFull (r : Ring) : Bool := r.next r.head = r.tail

def nth (r : Ring) (i : Nat) : UInt8 :=
  have := Nat.mod_lt (r.tail + i) r.size_pos
  r.slots[(r.tail + i) % r.size]

def toList (r : Ring) : List UInt8 := (List.range r.length).map r.nth

def push? (r : Ring) (b : UInt8) : Option Ring :=
  if r.isFull then none
  else some {
    slots := r.slots.set r.head b r.head_lt
    head := r.next r.head
    tail := r.tail
    two_le_size := by simpa using r.two_le_size
    head_lt := by simpa using r.next_lt r.head
    tail_lt := by simpa using r.tail_lt }

def peek? (r : Ring) : Option UInt8 :=
  have := r.tail_lt
  if r.isEmpty then none else some r.slots[r.tail]

def pop? (r : Ring) : Option (UInt8 × Ring) :=
  r.peek?.map fun b => (b, { r with tail := r.next r.tail, tail_lt := r.next_lt r.tail })

/-- Drop every byte, leaving the indices where the producer stands. -/
def discard (r : Ring) : Ring := { r with tail := r.head, tail_lt := r.head_lt }

/-- Drop every byte and return both indices to the start. -/
def reset (r : Ring) : Ring :=
  { r with head := 0, tail := 0, head_lt := r.size_pos, tail_lt := r.size_pos }

end Ring

end SerialPort
