import Mathlib.Data.List.Forall2
import SerialPort.Ring.Lemmas
import SerialPort.Ring.Run

namespace SerialPort.Ring

/-- What an operation answers on a queue of at most `capacity` bytes, and what it leaves. -/
def Op.onQueue (capacity : Nat) : Op → List UInt8 → Answer × List UInt8
  | .push b, q => if q.length < capacity then (.flag true, q ++ [b]) else (.flag false, q)
  | .offer bs, q =>
    (.count (min bs.length (capacity - q.length)), q ++ bs.take (capacity - q.length))
  | .pop, q => (.byte? q.head?, q.tail)
  | .peek, q => (.byte? q.head?, q)
  | .takeUpTo n, q => (.bytes (q.take n), q.drop n)
  | .discard, _ | .reset, _ => (.done, [])
  | .length, q => (.count q.length, q)

def queueRun (capacity : Nat) (q : List UInt8) : List Op → List (Answer × List UInt8)
  | [] => []
  | op :: ops => op.onQueue capacity q :: queueRun capacity (op.onQueue capacity q).2 ops

/-- A buffer of so many slots stands for the queue `q`. -/
structure Holds (slots : Nat) (q : List UInt8) (r : Ring) : Prop where
  toList_eq : r.toList = q
  length_le : q.length ≤ slots - 1
  head_bound : r.head < slots
  tail_bound : r.tail < slots
  no_underflow : r.tail ≤ slots + r.head ∧ r.length ≤ slots - 1
  /-- An array covers at most half of the values of a machine word, and the sums of indices stay
  within that word. -/
  no_overflow : ∀ values, 2 * slots ≤ values →
    slots + r.head < values ∧ r.head + 1 < values ∧ r.tail + 1 < values
  length_eq : r.length = q.length
  free_eq : r.free = slots - 1 - q.length
  isEmpty_eq : r.isEmpty = true ↔ q = []
  isFull_eq : r.isFull = true ↔ q.length = slots - 1
  /-- A refused byte leaves the indices and every slot as they were. -/
  push_full : q.length = slots - 1 → ∀ b, Op.apply (.push b) r = (.flag false, r)
  pop_empty : q = [] → Op.apply .pop r = (.byte? none, r)
  peek_same : Op.apply .peek r = (.byte? q.head?, r)
  reset_indices : r.reset.head = 0 ∧ r.reset.tail = 0

theorem holds_toList (r : Ring) : Holds r.size r.toList r := by
  have hh : r.head < r.size := r.head_lt
  have ht : r.tail < r.size := r.tail_lt
  have hle := r.length_le_capacity
  have hlen := r.length_toList
  have hfull : r.isFull = true ↔ r.toList.length = r.size - 1 := by
    rw [isFull_iff, hlen, capacity]
  refine ⟨rfl, ?_, hh, ht, ⟨by omega, hle⟩, ?_, hlen.symm, ?_, (toList_eq_nil_iff r).symm, hfull,
    ?_, ?_, ?_, ⟨rfl, rfl⟩⟩
  · rw [hlen]
    exact hle
  · intro values hv
    have := r.two_le_size
    exact ⟨by omega, by omega, by omega⟩
  · rw [free, hlen, capacity]
  · intro hq b
    simp only [Op.apply, (push?_eq_none_iff r b).2 (hfull.2 hq)]
  · intro hq
    simp only [Op.apply, (pop?_eq_none_iff r).2 ((toList_eq_nil_iff r).1 hq)]
  · simp only [Op.apply, peek?_eq_head?]

theorem size_offer (r : Ring) (bs : List UInt8) : (r.offer bs).2.size = r.size := by
  induction bs generalizing r with
  | nil => rfl
  | cons b bs ih =>
    rw [offer]
    cases hp : r.push? b with
    | none => exact ih r
    | some r' => exact (ih r').trans (size_push hp)

theorem offer_eq (r : Ring) (bs : List UInt8) :
    (r.offer bs).1 = min bs.length (r.capacity - r.length) ∧
      (r.offer bs).2.toList = r.toList ++ bs.take (r.capacity - r.length) := by
  induction bs generalizing r with
  | nil => simp [offer]
  | cons b bs ih =>
    have hle := r.length_le_capacity
    rw [offer]
    cases hp : r.push? b with
    | none =>
      have hf : r.length = r.capacity := (isFull_iff r).1 ((push?_eq_none_iff r b).1 hp)
      obtain ⟨hn, hl⟩ := ih r
      have hz : r.capacity - r.length = 0 := by omega
      rw [hz] at hn hl ⊢
      exact ⟨hn.trans (by simp), hl.trans (by simp)⟩
    | some r' =>
      have hlt : r.length < r.capacity := (push?_isSome_iff r b).1 (by rw [hp]; rfl)
      have hc : r'.capacity = r.capacity := by rw [capacity, size_push hp, capacity]
      have hl' := length_push hp
      obtain ⟨k, hk⟩ : ∃ k, r.capacity - r.length = k + 1 := ⟨r.capacity - r.length - 1, by omega⟩
      have hk' : r'.capacity - r'.length = k := by omega
      obtain ⟨hn, hl⟩ := ih r'
      rw [hk'] at hn hl
      rw [hk]
      refine ⟨?_, ?_⟩
      · simp only [hn, List.length_cons]
        omega
      · simp only [hl, toList_push hp, List.take_succ_cons, List.append_assoc,
          List.singleton_append]

theorem takeUpTo_eq (r : Ring) (n : Nat) :
    (r.takeUpTo n).1 = r.toList.take n ∧ (r.takeUpTo n).2.toList = r.toList.drop n ∧
      (r.takeUpTo n).2.size = r.size := by
  induction n generalizing r with
  | zero => exact ⟨rfl, rfl, rfl⟩
  | succ n ih =>
    rw [takeUpTo]
    cases hp : r.pop? with
    | none =>
      have hq : r.toList = [] := (toList_eq_nil_iff r).2 ((pop?_eq_none_iff r).1 hp)
      simp [hq]
    | some popped =>
      obtain ⟨b, r'⟩ := popped
      obtain ⟨hb, hl, hs⟩ := ih r'
      rw [toList_pop hp]
      exact ⟨congrArg (b :: ·) hb, hl, hs.trans (size_pop hp)⟩

theorem size_apply (op : Op) (r : Ring) : (op.apply r).2.size = r.size := by
  cases op with
  | push b =>
    simp only [Op.apply]
    cases hp : r.push? b with
    | none => rfl
    | some r' => exact size_push hp
  | offer bs => exact size_offer r bs
  | pop =>
    simp only [Op.apply]
    cases hp : r.pop? with
    | none => rfl
    | some popped => exact size_pop hp
  | takeUpTo n => exact (takeUpTo_eq r n).2.2
  | peek | discard | reset | length => rfl

theorem apply_onQueue (op : Op) (r : Ring) :
    op.onQueue r.capacity r.toList = ((op.apply r).1, (op.apply r).2.toList) := by
  cases op with
  | push b =>
    simp only [Op.onQueue, Op.apply, length_toList]
    cases hp : r.push? b with
    | none =>
      have hf : r.length = r.capacity := (isFull_iff r).1 ((push?_eq_none_iff r b).1 hp)
      rw [if_neg (by omega)]
    | some r' =>
      have hlt : r.length < r.capacity := (push?_isSome_iff r b).1 (by rw [hp]; rfl)
      rw [if_pos hlt, toList_push hp]
  | offer bs =>
    obtain ⟨hn, hl⟩ := offer_eq r bs
    simp only [Op.onQueue, Op.apply, length_toList, hn, hl]
  | pop =>
    simp only [Op.onQueue, Op.apply]
    cases hp : r.pop? with
    | none => simp [(toList_eq_nil_iff r).2 ((pop?_eq_none_iff r).1 hp)]
    | some popped => simp [toList_pop hp]
  | peek => simp only [Op.onQueue, Op.apply, peek?_eq_head?]
  | takeUpTo n =>
    obtain ⟨hb, hl, _⟩ := takeUpTo_eq r n
    simp only [Op.onQueue, Op.apply, hb, hl]
  | discard => simp only [Op.onQueue, Op.apply, toList_discard]
  | reset => simp only [Op.onQueue, Op.apply, toList_reset]
  | length => simp only [Op.onQueue, Op.apply, length_toList]

theorem run_holds (r : Ring) (ops : List Op) :
    List.Forall₂ (fun x y => x.1 = y.1 ∧ Holds r.size y.2 x.2) (r.run ops)
      (queueRun r.capacity r.toList ops) := by
  induction ops generalizing r with
  | nil => exact .nil
  | cons op ops ih =>
    have hs := size_apply op r
    have hc : (op.apply r).2.capacity = r.capacity := by rw [capacity, hs, capacity]
    have hr := ih (op.apply r).2
    have hh := holds_toList (op.apply r).2
    rw [hs] at hr hh
    rw [hc] at hr
    rw [run, queueRun, apply_onQueue]
    exact .cons ⟨rfl, hh⟩ hr

/-- From a new buffer on, every run is one of a queue that keeps a slot free. -/
theorem run_empty_refines_queue (slots : Nat) (h : 2 ≤ slots) (ops : List Op) :
    Holds slots [] (empty slots h) ∧
      List.Forall₂ (fun x y => x.1 = y.1 ∧ Holds slots y.2 x.2) ((empty slots h).run ops)
        (queueRun (slots - 1) [] ops) := by
  have hh := holds_toList (empty slots h)
  have hr := run_holds (empty slots h) ops
  rw [capacity] at hr
  rw [size_empty, toList_empty] at hh hr
  exact ⟨hh, hr⟩

theorem run_empty_refines_queue_three :
    2 ≤ 3 ∧ Holds 3 [] (empty 3) ∧
      List.Forall₂ (fun x y => x.1 = y.1 ∧ Holds 3 y.2 x.2)
        ((empty 3).run [.offer [1, 2, 3], .pop, .push 4, .push 5, .takeUpTo 5, .reset])
        [(.count 2, [1, 2]), (.byte? (some 1), [2]), (.flag true, [2, 4]), (.flag false, [2, 4]),
          (.bytes [2, 4], []), (.done, [])] :=
  ⟨by decide, run_empty_refines_queue 3 (by decide) _⟩

end SerialPort.Ring
