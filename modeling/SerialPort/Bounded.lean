namespace SerialPort

structure Bounded (α : Type) (capacity : Nat) where
  items : List α
  fits : items.length ≤ capacity

namespace Bounded

variable {α : Type} {capacity : Nat}

def empty : Bounded α capacity := ⟨[], Nat.zero_le _⟩

def push? (l : Bounded α capacity) (a : α) : Option (Bounded α capacity) :=
  if h : l.items.length < capacity then
    some ⟨l.items ++ [a], by rw [List.length_append]; exact h⟩
  else none

/-- Push without a look at whether there was room. -/
def offer (l : Bounded α capacity) (a : α) : Bounded α capacity := (l.push? a).getD l

def gather (capacity : Nat) (as : List α) : Bounded α capacity := as.foldl offer empty

theorem items_offer {l : Bounded α capacity} (h : l.items.length < capacity) (a : α) :
    (l.offer a).items = l.items ++ [a] := by
  rw [offer, push?, dif_pos h, Option.getD_some]

theorem items_foldl_offer {l : Bounded α capacity} {as : List α}
    (h : l.items.length + as.length ≤ capacity) : (as.foldl offer l).items = l.items ++ as := by
  induction as generalizing l with
  | nil => exact (List.append_nil _).symm
  | cons a as ih =>
    rw [List.length_cons] at h
    have ha := items_offer (l := l) (by omega) a
    have hlen : (l.offer a).items.length + as.length ≤ capacity := by
      rw [ha, List.length_append, List.length_singleton]
      omega
    rw [List.foldl_cons, ih hlen, ha, List.append_assoc, List.singleton_append]

theorem items_gather {as : List α} (h : as.length ≤ capacity) :
    (gather capacity as).items = as :=
  items_foldl_offer (l := empty) (by simpa [empty] using h)

end Bounded

end SerialPort
