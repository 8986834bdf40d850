import SerialPort.Port.Lemmas
import SerialPort.Ring.Lemmas
import SerialPort.Usart.Lemmas

namespace SerialPort.Observed

theorem patience_congr {s t : Observed} (h : s.toPort = t.toPort) : s.patience = t.patience := by
  simp only [patience, h]

theorem toPort_onTxEmpty_congr {s t : Observed} (h : s.toPort = t.toPort) :
    s.onTxEmpty.toPort = t.onTxEmpty.toPort := by
  cases hp : s.tx.pop? with
  | none =>
    have he := (Ring.pop?_eq_none_iff _).1 hp
    rw [toPort_onTxEmpty_of_none hp he, toPort_onTxEmpty_of_none (h ▸ hp) (h ▸ he), h]
  | some popped =>
    obtain ⟨b, tx⟩ := popped
    rw [toPort_onTxEmpty_of_some hp, toPort_onTxEmpty_of_some (h ▸ hp), h]

theorem toPort_pollTx_congr {s t : Observed} (h : s.toPort = t.toPort) :
    s.pollTx.toPort = t.pollTx.toPort := by
  rw [pollTx_eq, pollTx_eq, h]
  split
  · split
    · exact toPort_onTxEmpty_congr (by simp [h])
    · simp [h]
  · simp [h]

theorem patience_onTxEmpty_lt {s : Observed} (hi : s.usart.txInterrupt = true)
    (hd : s.usart.data = none) : s.onTxEmpty.patience < s.patience := by
  cases hp : s.tx.pop? with
  | none =>
    have he := (Ring.pop?_eq_none_iff _).1 hp
    simp [patience, toPort_onTxEmpty_of_none hp he, hi, Usart.inFlight]
  | some popped =>
    obtain ⟨b, tx⟩ := popped
    have hl := Ring.length_pop hp
    have hf := Usart.length_inFlight_putData hd b
    have hb := Bool.toNat_le (!tx.isEmpty)
    simp only [Usart.inFlight] at hf
    simp only [patience, toPort_onTxEmpty_of_some hp, Usart.inFlight, hi, Bool.true_and,
      Bool.toNat_true]
    omega

theorem toPort_pollTx_or_patience_lt (s : Observed) :
    s.pollTx.toPort = s.toPort ∨ s.pollTx.patience < s.patience := by
  rw [pollTx_eq]
  cases hi : s.usart.txInterrupt with
  | false => exact .inl rfl
  | true =>
    cases hd : s.usart.clock.data with
    | some d =>
      left
      simp [Usart.clock_eq_of_data (u := s.usart) (by simp [hd])]
    | none =>
      right
      refine Nat.lt_of_lt_of_le (patience_onTxEmpty_lt ?_ ?_) ?_
      · simp [hi]
      · simp [hd]
      · have := s.usart.length_inFlight_clock_le
        simp only [patience, toPort_txEmpty, toPort_interruptEnabled, Usart.txInterrupt_clock]
        omega

/-- A test that looks at nothing but the port, and that on failing brings its patience down or
leaves it as it was. -/
structure Watches (test : Observed → Bool × Observed) : Prop where
  fst_congr : ∀ s t : Observed, s.toPort = t.toPort → (test s).1 = (test t).1
  snd_congr : ∀ s t : Observed, s.toPort = t.toPort → (test s).2.toPort = (test t).2.toPort
  progress : ∀ s, (test s).1 = false →
    (test s).2.toPort = s.toPort ∨ (test s).2.patience < s.patience

variable {test : Observed → Bool × Observed}

theorem pollUntil_zero (s : Observed) :
    s.pollUntil test 0 = if (test s).1 then some (test s).2 else none := rfl

theorem pollUntil_succ (s : Observed) (n : Nat) :
    s.pollUntil test (n + 1) =
      if (test s).1 then some (test s).2 else (test s).2.pollTx.pollUntil test n := rfl

theorem pollUntil_of_true {s : Observed} (h : (test s).1 = true) (n : Nat) :
    s.pollUntil test n = some (test s).2 := by
  cases n with
  | zero => rw [pollUntil_zero, if_pos h]
  | succ n => rw [pollUntil_succ, if_pos h]

theorem pollUntil_mono {s r : Observed} {n m : Nat} (h : s.pollUntil test n = some r)
    (hnm : n ≤ m) : s.pollUntil test m = some r := by
  induction n generalizing s m with
  | zero =>
    rw [pollUntil_zero] at h
    split at h
    next ht => rw [pollUntil_of_true ht, h]
    next => cases h
  | succ n ih =>
    obtain ⟨k, rfl⟩ : ∃ k, m = k + 1 := ⟨m - 1, by omega⟩
    rw [pollUntil_succ] at h ⊢
    split at h
    next ht => rw [if_pos ht, h]
    next ht => rw [if_neg ht, ih h (by omega)]

/-- A round that leaves the port as it was is repeated for ever. -/
theorem pollUntil_eq_none (ht : Watches test) {s : Observed} (hf : (test s).1 = false)
    (hs : (test s).2.pollTx.toPort = s.toPort) (n : Nat) : s.pollUntil test n = none := by
  induction n generalizing s with
  | zero => rw [pollUntil_zero, if_neg (by simp [hf])]
  | succ n ih =>
    rw [pollUntil_succ, if_neg (by simp [hf])]
    apply ih
    · rw [ht.fst_congr _ _ hs, hf]
    · rw [toPort_pollTx_congr (ht.snd_congr _ _ hs)]

theorem toPort_pollUntil_congr (ht : Watches test) {s t : Observed} (h : s.toPort = t.toPort)
    (n : Nat) :
    (s.pollUntil test n).map (·.toPort) = (t.pollUntil test n).map (·.toPort) := by
  induction n generalizing s t with
  | zero =>
    rw [pollUntil_zero, pollUntil_zero, ht.fst_congr s t h]
    split
    · exact congrArg some (ht.snd_congr s t h)
    · rfl
  | succ n ih =>
    rw [pollUntil_succ, pollUntil_succ, ht.fst_congr s t h]
    split
    · exact congrArg some (ht.snd_congr s t h)
    · exact ih (toPort_pollTx_congr (ht.snd_congr s t h))

theorem round_toPort_or_patience_lt (ht : Watches test) {s : Observed}
    (hf : (test s).1 = false) :
    (test s).2.pollTx.toPort = s.toPort ∨ (test s).2.pollTx.patience < s.patience := by
  rcases ht.progress s hf with hs | hs
  · rcases (test s).2.toPort_pollTx_or_patience_lt with hp | hp
    · exact .inl (hp.trans hs)
    · exact .inr (patience_congr hs ▸ hp)
  · rcases (test s).2.toPort_pollTx_or_patience_lt with hp | hp
    · exact .inr (patience_congr hp ▸ hs)
    · exact .inr (Nat.lt_trans hp hs)

/-- If any number of polls is enough, the patience of the port is. -/
theorem pollUntil_patience (ht : Watches test) {s r : Observed} {n : Nat}
    (h : s.pollUntil test n = some r) : s.pollUntil test s.patience = some r := by
  induction n generalizing s with
  | zero => exact pollUntil_mono h (Nat.zero_le _)
  | succ n ih =>
    cases hf : (test s).1 with
    | true =>
      rw [pollUntil_of_true hf] at h ⊢
      exact h
    | false =>
      rcases round_toPort_or_patience_lt ht hf with hs | hs
      · rw [pollUntil_eq_none ht hf hs] at h
        cases h
      · rw [pollUntil_succ, if_neg (by simp [hf])] at h
        obtain ⟨k, hk⟩ : ∃ k, s.patience = k + 1 := ⟨s.patience - 1, by omega⟩
        rw [hk, pollUntil_succ, if_neg (by simp [hf])]
        exact pollUntil_mono (ih h) (by omega)

theorem watches_drained : Watches drained where
  fst_congr s t h := by simp only [fst_drained, h]
  snd_congr s t h := by simp only [toPort_drained, h]
  progress s _ := by
    simp only [patience, toPort_drained]
    split
    · exact .inl rfl
    · rcases s.usart.clock_eq_or_length_inFlight with h | h
      · left
        rw [h]
      · right
        simp only [Usart.txInterrupt_clock]
        omega

theorem watches_tryWrite (b : UInt8) : Watches (·.tryWrite b) where
  fst_congr s t h := by
    have hf : s.transmitterFree.1 = t.transmitterFree.1 := by simp only [fst_transmitterFree, h]
    have hs : s.transmitterFree.2.toPort = t.transmitterFree.2.toPort := by
      simp only [toPort_transmitterFree, h]
    simp only [tryWrite_eq, hf, hs]
    split
    · rfl
    · cases t.transmitterFree.2.tx.push? b <;> rfl
  snd_congr s t h := by
    have hf : s.transmitterFree.1 = t.transmitterFree.1 := by simp only [fst_transmitterFree, h]
    have hs : s.transmitterFree.2.toPort = t.transmitterFree.2.toPort := by
      simp only [toPort_transmitterFree, h]
    simp only [tryWrite_eq, hf, hs]
    split
    · simp [hs]
    · cases t.transmitterFree.2.tx.push? b <;> simp [hs]
  progress s hf := by
    have hs : (s.tryWrite b).2.toPort = s.transmitterFree.2.toPort := by
      simp only [tryWrite_eq] at hf ⊢
      split
      next hfree => simp [hfree] at hf
      next hfree =>
        cases hp : s.transmitterFree.2.tx.push? b with
        | none => rfl
        | some tx => simp [hfree, hp] at hf
    simp only [patience, hs, toPort_transmitterFree]
    split
    · exact .inl rfl
    · rcases s.usart.clock_eq_or_length_inFlight with h | h
      · left
        rw [h]
      · right
        simp only [Usart.txInterrupt_clock]
        omega

theorem send_eq_some_iff (s r : Observed) (b : UInt8) :
    s.send b = some r ↔ ∃ polls, s.pollUntil (·.tryWrite b) polls = some r :=
  ⟨fun h => ⟨_, h⟩, fun ⟨_, h⟩ => pollUntil_patience (watches_tryWrite b) h⟩

theorem toPort_send_congr {s t : Observed} (h : s.toPort = t.toPort) (b : UInt8) :
    (s.send b).map (·.toPort) = (t.send b).map (·.toPort) := by
  rw [send, send, patience_congr h]
  exact toPort_pollUntil_congr (watches_tryWrite b) h _

theorem flush_eq_some_iff {s : Observed} (hw : s.written = true) (r : Observed) :
    s.flush = some r ↔ ∃ polls, s.pollUntil drained polls = some r := by
  rw [flush, if_pos hw]
  exact ⟨fun h => ⟨_, h⟩, fun ⟨_, h⟩ => pollUntil_patience watches_drained h⟩

end SerialPort.Observed
