import SerialPort.Proofs.Draining

namespace SerialPort

theorem Usart.clock_of_freeRunning {u : Usart} (h : u.freeRunning = true) :
    u.clock = u.shiftOut.2 := by
  rw [clock, if_pos h]

namespace Port.Steady

variable {p : Port}

theorem data_clock (h : p.Steady) (hf : p.usart.freeRunning = true) :
    p.usart.clock.data = none := by
  rw [Usart.clock_of_freeRunning hf]
  cases hs : p.usart.shifter with
  | none =>
    rw [Usart.shiftOut_of_none hs]
    exact h.shifting hs
  | some b => rw [Usart.shiftOut_of_some hs]

theorem length_inFlight_clock (h : p.Steady) (hf : p.usart.freeRunning = true) :
    p.usart.clock.inFlight.length = p.usart.inFlight.length - 1 := by
  rw [Usart.clock_of_freeRunning hf]
  cases hs : p.usart.shifter with
  | none =>
    rw [Usart.shiftOut_of_none hs, (Usart.inFlight_eq_nil_iff _).2 ⟨h.shifting hs, hs⟩]
    rfl
  | some b =>
    rw [Usart.shiftOut_of_some hs]
    simp [Usart.inFlight, hs]

end Port.Steady

theorem Usart.length_inFlight_le_two (u : Usart) : u.inFlight.length ≤ 2 := by
  rw [inFlight, List.length_append]
  cases u.shifter <;> cases u.data <;> simp

namespace Observed

/-- Between two steps, on a line that moves whenever it is looked at. -/
structure Flowing (s : Observed) : Prop where
  steady : s.Steady
  freeRunning : s.usart.freeRunning = true

theorem Flowing.of_transmits {s t : Observed} {bs : List UInt8} (h : Flowing s)
    (ht : Transmits s bs t) : Flowing t :=
  ⟨(ht.sends h.steady).steady, (freeRunning_of_transmits ht).trans h.freeRunning⟩

theorem length_pollTx {s : Observed} (hs : s.Steady) (hd : s.usart.clock.data = none)
    (hq : s.tx.toList ≠ []) :
    s.pollTx.tx.length + 1 = s.tx.length ∧ s.pollTx.tx.size = s.tx.size := by
  have hi := hs.interrupt_iff.2 hq
  rw [pollTx_eq, if_pos hi, if_pos (by rw [hd]; rfl)]
  obtain ⟨b, tx, hp⟩ := Ring.exists_pop hq
  rw [toPort_onTxEmpty_of_some (s := (s.interruptEnabled .txEmpty).2.txEmpty.2) hp]
  exact ⟨Ring.length_pop hp, Ring.size_pop hp⟩

theorem Flowing.pollTx {s : Observed} (h : Flowing s) (hq : s.tx.toList ≠ []) :
    s.pollTx.tx.length + 1 = s.tx.length ∧ s.pollTx.tx.size = s.tx.size :=
  length_pollTx h.steady (h.steady.data_clock h.freeRunning) hq

theorem tx_transmitterFree (s : Observed) : s.transmitterFree.2.tx = s.tx := by
  rw [toPort_transmitterFree]
  split <;> rfl

theorem tryWrite_of_room {s : Observed} (h : s.tx.length < s.tx.capacity) (b : UInt8) :
    (s.tryWrite b).1 = true := by
  rw [tryWrite_eq, tx_transmitterFree]
  split
  · rfl
  · obtain ⟨tx, htx⟩ := Option.isSome_iff_exists.1 ((Ring.push?_isSome_iff s.tx b).2 h)
    rw [htx]

theorem tryWrite_of_full {s : Observed} (hi : s.usart.txInterrupt = true ↔ s.tx.toList ≠ [])
    (h : s.tx.length = s.tx.capacity) (b : UInt8) :
    s.tryWrite b = (false, (s.interruptEnabled .txEmpty).2) := by
  have hon : s.usart.txInterrupt = true := hi.2 (Ring.toList_ne_nil_of_full h)
  have hfree : s.transmitterFree = (false, (s.interruptEnabled .txEmpty).2) := by
    change (if s.usart.txInterrupt then _ else _ : Bool × Observed) = _
    exact if_pos hon
  have hpush : s.tx.push? b = none := (s.tx.push?_eq_none_iff b).2 (s.tx.isFull_iff.2 h)
  have htx : (s.interruptEnabled .txEmpty).2.tx = s.tx := rfl
  rw [tryWrite_eq, hfree, if_neg Bool.false_ne_true, htx, hpush]

theorem full_of_refused {s : Observed} {b : UInt8} (h : (s.tryWrite b).1 = false) :
    s.tx.length = s.tx.capacity := by
  refine Nat.le_antisymm s.tx.length_le_capacity (Nat.le_of_not_lt fun hlt => ?_)
  rw [tryWrite_of_room hlt b] at h
  cases h

theorem tryWrite_refused {s : Observed} (hs : s.Steady) {b : UInt8} (h : (s.tryWrite b).1 = false) :
    s.tx.toList ≠ [] ∧ (s.tryWrite b).2.toPort = s.toPort := by
  have hfull := full_of_refused h
  refine ⟨Ring.toList_ne_nil_of_full hfull, ?_⟩
  rw [tryWrite_of_full hs.interrupt_iff hfull]
  rfl

theorem send_polls_once {s : Observed} (hs : s.Steady) (hd : s.usart.clock.data = none)
    (b : UInt8) : ∃ r, s.pollUntil (·.tryWrite b) 1 = some r := by
  cases hw : (s.tryWrite b).1 with
  | true => exact ⟨_, pollUntil_of_true hw 1⟩
  | false =>
    obtain ⟨hq, hp⟩ := tryWrite_refused hs hw
    obtain ⟨hlen, hsize⟩ := length_pollTx (s := (s.tryWrite b).2) (hp ▸ hs) (hp ▸ hd) (hp ▸ hq)
    have hroom : (s.tryWrite b).2.pollTx.tx.length < (s.tryWrite b).2.pollTx.tx.capacity := by
      have := (s.tryWrite b).2.tx.length_le_capacity
      unfold Ring.capacity at this ⊢
      omega
    rw [pollUntil_succ, hw, if_neg Bool.false_ne_true, pollUntil_zero,
      if_pos (tryWrite_of_room hroom b)]
    exact ⟨_, rfl⟩

theorem Flowing.send {s : Observed} (h : Flowing s) (b : UInt8) :
    ∃ r, s.pollUntil (·.tryWrite b) 1 = some r :=
  send_polls_once h.steady (h.steady.data_clock h.freeRunning) b

theorem Flowing.sendBytes {s : Observed} (h : Flowing s) (bs : List UInt8) :
    (s.sendBytes bs).isSome = true := by
  induction bs generalizing s with
  | nil => rfl
  | cons b bs ih =>
    obtain ⟨r, hr⟩ := h.send b
    have hw : s.send b = some r := (send_eq_some_iff s r b).2 ⟨1, hr⟩
    rw [Observed.sendBytes, hw]
    exact ih (h.of_transmits (transmits_send hw))

theorem toPort_round {s : Observed} (hi : s.usart.txInterrupt = false) :
    s.drained.2.pollTx.toPort = { s.toPort with usart := s.usart.clock } := by
  have hd : s.drained.2.toPort = { s.toPort with usart := s.usart.clock } := by
    rw [toPort_drained, hi]
    rfl
  have hi' : s.drained.2.usart.txInterrupt = false := by
    rw [hd]
    exact (Usart.txInterrupt_clock _).trans hi
  rw [pollTx_eq, hi', if_neg Bool.false_ne_true]
  exact hd

theorem Flowing.length_pending_drained {s : Observed} (h : Flowing s) (hq : s.tx.toList = []) :
    s.drained.2.pending.length = s.usart.inFlight.length - 1 := by
  have hi := h.steady.interrupt_eq_false_iff.2 hq
  rw [← h.steady.length_inFlight_clock h.freeRunning, toPort_drained, hi, Port.pending]
  simp [hq]

/-- With nothing queued at most two bytes are in flight, and two looks see them off. -/
theorem Flowing.drained_of_queue_nil {s : Observed} (h : Flowing s) (hw : s.written = true)
    (hq : s.tx.toList = []) : s.drained.2.pollTx.drained.1 = true := by
  have hround := toPort_round (h.steady.interrupt_eq_false_iff.2 hq)
  have hf := h.of_transmits ((transmits_drained s).after (transmits_pollTx _))
  have hw' : s.drained.2.pollTx.written = true := by
    rw [hround]
    exact hw
  have hq' : s.drained.2.pollTx.tx.toList = [] := by
    rw [hround]
    exact hq
  have hlen := hf.length_pending_drained hq'
  rw [show s.drained.2.pollTx.usart = s.usart.clock by rw [hround],
    h.steady.length_inFlight_clock h.freeRunning] at hlen
  have htwo := s.usart.length_inFlight_le_two
  rw [fst_drained_iff hf.steady hw', ← List.length_eq_zero_iff]
  omega

/-- Each round but the last takes a byte off the queue. -/
theorem Flowing.drains {s : Observed} (h : Flowing s) (hw : s.written = true) {n : Nat}
    (hn : s.tx.toList.length ≤ n) : (s.pollUntil Observed.drained (n + 1)).isSome = true := by
  induction n generalizing s with
  | zero =>
    have hq : s.tx.toList = [] := List.length_eq_zero_iff.1 (Nat.le_zero.1 hn)
    rw [pollUntil_succ]
    split
    · rfl
    · rw [pollUntil_zero, if_pos (h.drained_of_queue_nil hw hq)]
      rfl
  | succ n ih =>
    by_cases hq : s.tx.toList = []
    · obtain ⟨r, hr⟩ := Option.isSome_iff_exists.1 (ih h hw (by simp [hq]))
      rw [pollUntil_mono hr (Nat.le_succ _)]
      rfl
    · have hi := h.steady.interrupt_iff.2 hq
      have hd : s.drained.2.toPort = s.toPort := by rw [toPort_drained, if_pos hi]
      have htest : s.drained.1 = false := by rw [fst_drained, hi]; rfl
      have hf := h.of_transmits (transmits_drained s)
      obtain ⟨hlen, _⟩ := hf.pollTx (hd ▸ hq)
      rw [hd] at hlen
      have hw' : s.drained.2.pollTx.written = true := by
        have hk := ((transmits_pollTx s.drained.2).sends hf.steady).written
        rw [hk, hd, hw]
        rfl
      rw [pollUntil_succ, htest, if_neg Bool.false_ne_true]
      refine ih (hf.of_transmits (transmits_pollTx _)) hw' ?_
      rw [Ring.length_toList] at hn ⊢
      omega

theorem Flowing.flush {s : Observed} (h : Flowing s) :
    ∃ r, s.flush = some r ∧
      (s.written = true → s.pollUntil Observed.drained (s.tx.toList.length + 1) = some r) := by
  by_cases hw : s.written = true
  · obtain ⟨r, hr⟩ := Option.isSome_iff_exists.1 (h.drains hw (Nat.le_refl _))
    exact ⟨r, (flush_eq_some_iff hw r).2 ⟨_, hr⟩, fun _ => hr⟩
  · refine ⟨s, ?_, fun hw' => absurd hw' hw⟩
    rw [Observed.flush, if_neg hw]

theorem Flowing.disable {s : Observed} (h : Flowing s) : (s.disable).isSome = true := by
  obtain ⟨r, hr, _⟩ := h.flush
  rw [Observed.disable, hr]
  rfl

theorem Flowing.enable {s : Observed} (h : Flowing s) (baud : UInt32) (frame : FrameWord) :
    (s.enable baud frame).isSome = true := by
  have ht : Flowing s.readTrim.2 := ⟨h.steady, h.freeRunning⟩
  rw [enable_eq]
  cases Baud.divisor s.clockHz baud s.usart.trim with
  | error e => rfl
  | ok d =>
    rw [Option.isSome_map, retire]
    split
    · exact ht.disable
    · rfl

end Observed

namespace Port

/-- On a line that moves whenever it is looked at every wait ends, whatever was done before and
even if the handler ran when it was not due: a write polls at most once, and the wait for the output
at most once more than bytes are queued. -/
theorem waits_end_of_freeRunning {rxSlots txSlots : Nat} {clockHz : UInt32} {trim : Int8}
    {freeRunning : Bool} {hrx : 2 ≤ rxSlots} {htx : 2 ≤ txSlots} {h : List (Step × Outcome)}
    {p : Port}
    (he : Executes (fun _ st => st.offRegisters)
      (Port.new rxSlots txSlots clockHz trim freeRunning hrx htx) h p)
    (hf : p.usart.freeRunning = true) :
    (∀ b, ∃ r, p.observe.write b = some (1, r) ∧ p.observe.pollUntil (·.tryWrite b) 1 = some r) ∧
    (∃ r, p.observe.flush = some r ∧ (p.written = true →
      p.observe.pollUntil Observed.drained (p.tx.toList.length + 1) = some r)) ∧
    (∀ b, (p.step (.call (.write b))).isSome = true) ∧
    (∀ bs, (p.step (.call (.writeBytes bs))).isSome = true) ∧
    (p.step (.call .flush)).isSome = true ∧
    (p.step (.call .disable)).isSome = true ∧
    ∀ baud frame, (p.step (.call (.enable baud frame))).isSome = true := by
  have hflow : Observed.Flowing p.observe := ⟨he.steady (steady_new ..), hf⟩
  have hwrite (b : UInt8) :
      ∃ r, p.observe.write b = some (1, r) ∧ p.observe.pollUntil (·.tryWrite b) 1 = some r := by
    obtain ⟨r, hr⟩ := hflow.send b
    have hsend := (Observed.send_eq_some_iff _ r b).2 ⟨1, hr⟩
    exact ⟨r, by rw [Observed.write, hsend, Option.map_some], hr⟩
  obtain ⟨r, hr, hpolls⟩ := hflow.flush
  refine ⟨hwrite, ⟨r, hr, hpolls⟩, fun b => ?_, fun bs => ?_, ?_, ?_, fun baud frame => ?_⟩
  · obtain ⟨t, ht, _⟩ := hwrite b
    simp only [step, Observed.runStep, Observed.runCall, ht, Option.isSome_map, Option.isSome_some]
  · rw [step, Observed.runStep, p.observe.runCall_of_written rfl, Option.map_map, Option.isSome_map,
      hflow.sendBytes bs]
  · rw [flush_isSome, hr]
    rfl
  · rw [disable_isSome, hr]
    rfl
  · simp only [step, Observed.runStep, Observed.runCall, Option.isSome_map,
      hflow.enable baud frame]

def releasedTraffic : List Step :=
  [.call (.enable 9600 .standard), .call (.writeBytes [1, 2, 3, 4]), .call .onTxEmpty,
    .usart (.receive 7 true), .call (.write 5), .call (.tryWrite 6), .usart (.freeRunning true)]

theorem waits_end_of_freeRunning_released :
    ∃ h p, Executes (fun _ st => st.offRegisters) (Port.new 2 3) h p ∧
      h.map Prod.fst = releasedTraffic ∧ p.usart.freeRunning = true ∧ p.written = true ∧
      p.tx.toList = [4, 5] ∧
      (∃ r, p.observe.write 6 = some (1, r) ∧ p.observe.pollUntil (·.tryWrite 6) 1 = some r) ∧
      (∃ r, p.observe.flush = some r ∧ p.observe.pollUntil Observed.drained 3 = some r) ∧
      (p.step (.call (.enable 19200 .standard))).isSome = true := by
  obtain ⟨p, hp, he⟩ := exists_executes (fun _ st => st.offRegisters) (Port.new 2 3)
    releasedTraffic (by decide +kernel)
  have hstate : ((Port.new 2 3).after releasedTraffic).all (fun q =>
      q.usart.freeRunning && q.written && q.tx.toList == [4, 5]) = true := by
    decide +kernel
  rw [hp] at hstate
  simp only [Option.all_some, Bool.and_eq_true, beq_iff_eq] at hstate
  obtain ⟨⟨hf, hw⟩, hq⟩ := hstate
  obtain ⟨hwrite, ⟨r, hr, hpolls⟩, _, _, _, _, henable⟩ := waits_end_of_freeRunning he hf
  have h3 := hpolls hw
  rw [hq] at h3
  exact ⟨_, p, he, by decide +kernel, hf, hw, hq, hwrite 6, ⟨r, hr, h3⟩,
    henable 19200 .standard⟩

end Port

end SerialPort
