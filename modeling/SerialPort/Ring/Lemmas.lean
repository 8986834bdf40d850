import SerialPort.Ring.Basic

namespace SerialPort.Ring

theorem length_lt (r : Ring) : r.length < r.size := Nat.mod_lt _ r.size_pos

theorem size_eq (r : Ring) : r.size = r.slots.size := rfl

theorem head_eq (r : Ring) : r.head = (r.tail + r.length) % r.size := by
  have hh := r.head_lt
  have ht := r.tail_lt
  rw [← size_eq] at hh ht
  unfold length
  by_cases h : r.tail ≤ r.head
  · have e : r.size + r.head - r.tail = r.head - r.tail + r.size := by omega
    rw [e, Nat.add_mod_right, Nat.mod_eq_of_lt (by omega : r.head - r.tail < r.size),
      Nat.mod_eq_of_lt (by omega)]
    omega
  · rw [Nat.mod_eq_of_lt (by omega : r.size + r.head - r.tail < r.size)]
    have e : r.tail + (r.size + r.head - r.tail) = r.head + r.size := by omega
    rw [e, Nat.add_mod_right, Nat.mod_eq_of_lt hh]

theorem length_unique (r : Ring) (n : Nat) (hn : n < r.size)
    (h : r.head = (r.tail + n) % r.size) : r.length = n := by
  have hh := r.head_lt
  have ht := r.tail_lt
  rw [← size_eq] at hh ht
  unfold length
  by_cases hw : r.tail + n < r.size
  · rw [Nat.mod_eq_of_lt hw] at h
    have e : r.size + r.head - r.tail = n + r.size := by omega
    rw [e, Nat.add_mod_right, Nat.mod_eq_of_lt hn]
  · have hm : (r.tail + n) % r.size = r.tail + n - r.size := by
      rw [Nat.mod_eq_sub_mod (by omega), Nat.mod_eq_of_lt (by omega)]
    have e : r.size + r.head - r.tail = n := by omega
    rw [e, Nat.mod_eq_of_lt hn]

@[simp] theorem length_toList (r : Ring) : r.toList.length = r.length := by
  simp [toList]

theorem isEmpty_iff (r : Ring) : r.isEmpty ↔ r.length = 0 := by
  simp only [isEmpty, decide_eq_true_eq]
  have ht := r.tail_lt
  rw [← size_eq] at ht
  constructor
  · intro h
    exact r.length_unique 0 r.size_pos (by rw [Nat.add_zero, Nat.mod_eq_of_lt ht, h])
  · intro h
    rw [r.head_eq, h, Nat.add_zero, Nat.mod_eq_of_lt ht]

theorem toList_eq_nil_iff (r : Ring) : r.toList = [] ↔ r.isEmpty := by
  rw [isEmpty_iff, ← length_toList, List.length_eq_zero_iff]

theorem isFull_iff (r : Ring) : r.isFull ↔ r.length = r.capacity := by
  have ht := r.tail_lt
  have hl := r.length_lt
  have hp := r.size_pos
  rw [← size_eq] at ht
  have e : r.next r.head = (r.tail + (r.length + 1)) % r.size := by
    rw [next, r.head_eq, Nat.mod_add_mod, Nat.add_assoc]
  rw [isFull, decide_eq_true_eq, e, capacity]
  by_cases hw : r.tail + (r.length + 1) < r.size
  · rw [Nat.mod_eq_of_lt hw]
    omega
  · rw [Nat.mod_eq_sub_mod (by omega), Nat.mod_eq_of_lt (by omega)]
    omega

theorem length_le_capacity (r : Ring) : r.length ≤ r.capacity := by
  have := r.length_lt
  unfold capacity
  omega

theorem toList_ne_nil_of_full {r : Ring} (h : r.length = r.capacity) : r.toList ≠ [] := by
  have hs : 2 ≤ r.size := r.two_le_size
  rw [← List.length_pos_iff, length_toList, h, capacity]
  omega

theorem nth_eq (r : Ring) (i : Nat) :
    r.nth i = getElem r.slots ((r.tail + i) % r.size) (Nat.mod_lt _ r.size_pos) := rfl

theorem push?_eq_none_iff (r : Ring) (b : UInt8) : r.push? b = none ↔ r.isFull := by
  unfold push?
  split <;> simp_all

theorem push?_isSome_iff (r : Ring) (b : UInt8) : (r.push? b).isSome ↔ r.length < r.capacity := by
  have := r.length_le_capacity
  rw [← Option.ne_none_iff_isSome, Ne, push?_eq_none_iff, isFull_iff]
  omega

theorem size_push {r r' : Ring} {b : UInt8} (h : r.push? b = some r') : r'.size = r.size := by
  unfold push? at h
  split at h
  · cases h
  · cases h
    simp [size]

theorem tail_push {r r' : Ring} {b : UInt8} (h : r.push? b = some r') : r'.tail = r.tail := by
  unfold push? at h
  split at h <;> cases h
  rfl

theorem head_push {r r' : Ring} {b : UInt8} (h : r.push? b = some r') :
    r'.head = r.next r.head := by
  unfold push? at h
  split at h <;> cases h
  rfl

theorem slots_push {r r' : Ring} {b : UInt8} (h : r.push? b = some r') :
    r'.slots = r.slots.set r.head b r.head_lt := by
  unfold push? at h
  split at h <;> cases h
  rfl

theorem length_push {r r' : Ring} {b : UInt8} (h : r.push? b = some r') :
    r'.length = r.length + 1 := by
  have hlt : r.length < r.capacity := (r.push?_isSome_iff b).1 (by simp [h])
  unfold capacity at hlt
  apply r'.length_unique
  · rw [size_push h]
    omega
  · rw [head_push h, tail_push h, size_push h, next, r.head_eq, Nat.mod_add_mod, Nat.add_assoc]

theorem nth_push_of_lt {r r' : Ring} {b : UInt8} (h : r.push? b = some r') {i : Nat}
    (hi : i < r.length) : r'.nth i = r.nth i := by
  have hs := size_push h
  have ht := r.tail_lt
  have hl := r.length_lt
  rw [← size_eq] at ht
  have hne : r.head ≠ (r.tail + i) % r.size := by
    intro e
    have := r.length_unique i (by omega) e
    omega
  simp only [nth_eq, tail_push h, slots_push h, hs]
  exact Array.getElem_set_ne _ (Nat.mod_lt _ r.size_pos) hne

theorem nth_push_length {r r' : Ring} {b : UInt8} (h : r.push? b = some r') :
    r'.nth r.length = b := by
  have e : (r.tail + r.length) % r.size = r.head := r.head_eq.symm
  simp only [nth_eq, tail_push h, slots_push h, size_push h, e, Array.getElem_set_self]

theorem toList_push {r r' : Ring} {b : UInt8} (h : r.push? b = some r') :
    r'.toList = r.toList ++ [b] := by
  rw [toList, length_push h, List.range_succ, List.map_append, List.map_singleton,
    nth_push_length h, toList]
  congr 1
  apply List.map_congr_left
  intro i hi
  exact nth_push_of_lt h (List.mem_range.1 hi)

theorem peek?_eq_head? (r : Ring) : r.peek? = r.toList.head? := by
  unfold peek?
  split
  next h =>
    rw [(r.toList_eq_nil_iff).2 h, List.head?_nil]
  next h =>
    have hp : 0 < r.length := by
      rw [isEmpty_iff] at h
      omega
    have ht := r.tail_lt
    rw [← size_eq] at ht
    rw [toList, List.head?_map, List.head?_range, if_neg (by omega), Option.map_some, nth_eq]
    simp only [Nat.add_zero, Nat.mod_eq_of_lt ht]

theorem pop?_eq_none_iff (r : Ring) : r.pop? = none ↔ r.isEmpty := by
  rw [pop?, Option.map_eq_none_iff, peek?_eq_head?, List.head?_eq_none_iff, toList_eq_nil_iff]

theorem exists_pop {r : Ring} (h : r.toList ≠ []) : ∃ b r', r.pop? = some (b, r') := by
  rw [Ne, toList_eq_nil_iff, ← pop?_eq_none_iff] at h
  obtain ⟨⟨b, r'⟩, hp⟩ := Option.ne_none_iff_exists'.1 h
  exact ⟨b, r', hp⟩

theorem toList_pop {r r' : Ring} {b : UInt8} (h : r.pop? = some (b, r')) :
    r.toList = b :: r'.toList := by
  obtain ⟨c, hc, e⟩ := Option.map_eq_some_iff.1 h
  cases e
  have hne : ¬ r.isEmpty := by
    intro he
    rw [(r.pop?_eq_none_iff).2 he] at h
    cases h
  rw [isEmpty_iff] at hne
  obtain ⟨n, hn⟩ : ∃ n, r.length = n + 1 := ⟨r.length - 1, by omega⟩
  have hl := r.length_lt
  have hlen :
      ({ r with tail := r.next r.tail, tail_lt := r.next_lt r.tail } : Ring).length = n := by
    apply length_unique
    · show n < r.size
      omega
    · show r.head = (r.next r.tail + n) % r.size
      rw [r.head_eq, hn, next, Nat.mod_add_mod, Nat.add_assoc, Nat.add_comm n 1]
  rw [toList, hn, List.range_succ_eq_map, List.map_cons, List.map_map, toList, hlen]
  congr 1
  · rw [peek?_eq_head?, toList, hn, List.range_succ_eq_map] at hc
    simpa using hc
  · apply List.map_congr_left
    intro i _
    have e : (r.tail + (i + 1)) % r.size = (r.next r.tail + i) % r.size := by
      rw [next, Nat.mod_add_mod, Nat.add_assoc, Nat.add_comm i 1]
    simp only [Function.comp, nth_eq, size, Nat.succ_eq_add_one] at e ⊢
    simp only [e]

theorem length_pop {r r' : Ring} {b : UInt8} (h : r.pop? = some (b, r')) :
    r'.length + 1 = r.length := by
  rw [← length_toList r, ← length_toList r', toList_pop h, List.length_cons]

theorem size_pop {r r' : Ring} {b : UInt8} (h : r.pop? = some (b, r')) : r'.size = r.size := by
  obtain ⟨c, hc, e⟩ := Option.map_eq_some_iff.1 h
  cases e
  rfl

@[simp] theorem isEmpty_discard (r : Ring) : r.discard.isEmpty := by
  simp [discard, isEmpty]

@[simp] theorem toList_discard (r : Ring) : r.discard.toList = [] :=
  (toList_eq_nil_iff _).2 r.isEmpty_discard

@[simp] theorem isEmpty_reset (r : Ring) : r.reset.isEmpty := by
  simp [reset, isEmpty]

@[simp] theorem toList_reset (r : Ring) : r.reset.toList = [] :=
  (toList_eq_nil_iff _).2 r.isEmpty_reset

@[simp] theorem toList_empty (n : Nat) (h : 2 ≤ n) : (empty n h).toList = [] := by
  rw [toList_eq_nil_iff]
  simp [empty, isEmpty]

@[simp] theorem size_empty (n : Nat) (h : 2 ≤ n) : (empty n h).size = n := by
  simp [empty, size]

end SerialPort.Ring
