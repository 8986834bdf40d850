import SerialPort.Proofs.Capacity

namespace SerialPort

def Port.backlog (p : Port) : Nat := p.usart.inFlight.length + p.tx.length

theorem Port.Steady.shifter_eq_none_iff {p : Port} (h : p.Steady)
    (hi : p.usart.txInterruptPending = false) : p.usart.shifter = none ↔ p.pending = [] := by
  constructor
  · intro hs
    have hd := h.shifting hs
    have hoff : p.usart.txInterrupt = false := by
      simpa [Usart.txInterruptPending, hd] using hi
    rw [h.pending_of_interrupt hoff]
    exact (Usart.inFlight_eq_nil_iff _).2 ⟨hd, hs⟩
  · intro hn
    exact ((pending_eq_nil_iff p).1 hn).2.2

namespace Observed

variable {s t u : Observed}

/-- The test of the loop sees no queue, but no queue is without its interrupt. -/
theorem lineQuiet_iff (hs : s.Steady) : s.lineQuiet = true ↔ s.pending = [] := by
  rw [lineQuiet, Bool.and_eq_true, Bool.not_eq_true']
  constructor
  · rintro ⟨hidle, hi⟩
    rw [Usart.lineIdle, Bool.and_eq_true, Option.isNone_iff_eq_none] at hidle
    exact (hs.shifter_eq_none_iff hi).1 hidle.1
  · intro hn
    obtain ⟨hq, hd, hf⟩ := (Port.pending_eq_nil_iff _).1 hn
    have hoff := hs.interrupt_eq_false_iff.2 hq
    simp [Usart.lineIdle, Usart.txInterruptPending, hd, hf, hoff]

/-- The interrupt may still be due when it was served, but then a byte is being shifted out. -/
theorem shifter_serviceTx (hs : s.Steady) :
    s.serviceTx.2.usart.shifter = none ↔ s.serviceTx.2.pending = [] := by
  rw [serviceTx]
  split
  next hi =>
    rw [Usart.txInterruptPending, Bool.and_eq_true] at hi
    obtain ⟨b, tx, hpop⟩ := Ring.exists_pop (hs.interrupt_iff.1 hi.1)
    have hf : s.onTxEmpty.usart.shifter ≠ none := by
      rw [toPort_onTxEmpty_of_some hpop]
      exact Usart.shifter_putData_ne_none s.usart b
    refine iff_of_false hf fun hn => ?_
    exact hf ((Port.pending_eq_nil_iff _).1 hn).2.2
  next hi => exact hs.shifter_eq_none_iff (by simpa using hi)

/-- So many of the oldest pending bytes went onto the wire, and the rest is still pending. -/
structure Sent (s : Observed) (n : Nat) (t : Observed) : Prop where
  steady : t.Steady
  wire : t.usart.wire = s.usart.wire ++ s.pending.take n
  pending : t.pending = s.pending.drop n

theorem Sent.refl (hs : s.Steady) : Sent s 0 s where
  steady := hs
  wire := (List.append_nil _).symm
  pending := rfl

theorem Sent.trans {n m : Nat} (h : Sent s n t) (h' : Sent t m u) : Sent s (n + m) u where
  steady := h'.steady
  wire := by rw [h'.wire, h.wire, h.pending, List.append_assoc, ← List.take_add]
  pending := by rw [h'.pending, h.pending, List.drop_drop]

theorem Transmits.sent {n : Nat} (h : Transmits s [] t) (hs : s.Steady)
    (hw : t.usart.wire = s.usart.wire ++ s.pending.take n) : Sent s n t := by
  have hsend := h.sends hs
  refine ⟨hsend.steady, hw, ?_⟩
  have ho : s.usart.wire ++ (s.pending.take n ++ t.pending) = s.usart.wire ++ s.pending := by
    rw [← List.append_assoc, ← hw]
    exact hsend.output.trans (List.append_nil _)
  have hsplit := (List.append_cancel_left ho).trans (List.take_append_drop n s.pending).symm
  exact List.append_cancel_left hsplit

theorem wire_serviceTx (s : Observed) : s.serviceTx.2.usart.wire = s.usart.wire := by
  rw [serviceTx]
  split
  · exact wire_onTxEmpty s
  · rfl

theorem sent_serviceTx (hs : s.Steady) : Sent s 0 s.serviceTx.2 :=
  (transmits_serviceTx s).sent hs ((wire_serviceTx s).trans (List.append_nil _).symm)

theorem sent_tick {b : UInt8} (hs : s.Steady) (hb : s.usart.shifter = some b) :
    s.tick.1 = some b ∧ Sent s 1 s.tick.2 := by
  have hout := Usart.shiftOut_of_some hb
  have hfirst : s.pending.take 1 = [b] := by simp [Port.pending, Usart.inFlight, hb]
  refine ⟨congrArg Prod.fst hout, (transmits_tick s).sent hs ?_⟩
  rw [hfirst]
  exact (wire_serviceTx _).trans (congrArg (·.2.wire) hout)

theorem sent_pass (hs : s.Steady) (hn : s.pending ≠ []) :
    s.serviceTx.2.lineQuiet = false ∧ s.serviceTx.2.tick.1.isSome = true ∧
      Sent s 1 s.serviceTx.2.tick.2 := by
  have hserved := sent_serviceTx hs
  have hkept : s.serviceTx.2.pending ≠ [] := by
    rw [hserved.pending]
    exact hn
  obtain ⟨b, hb⟩ := Option.ne_none_iff_exists'.1 ((shifter_serviceTx hs).not.2 hkept)
  obtain ⟨hleft, htick⟩ := sent_tick hserved.steady hb
  refine ⟨?_, by rw [hleft]; rfl, ?_⟩
  · rw [← Bool.not_eq_true, lineQuiet_iff hserved.steady]
    exact hkept
  · have h := hserved.trans htick
    rwa [Nat.zero_add] at h

theorem sent_runUntilIdle (hs : s.Steady) (limit : Nat) :
    (s.runUntilIdle limit).1 = min limit s.pending.length ∧
      Sent s (min limit s.pending.length) (s.runUntilIdle limit).2 := by
  -- every pass leaves another port to go on with, one pending byte shorter
  induction limit generalizing s with
  | zero =>
    rw [Nat.zero_min]
    exact ⟨rfl, .refl hs⟩
  | succ limit ih =>
    rw [runUntilIdle_succ]
    by_cases hn : s.pending = []
    · have hserved := sent_serviceTx hs
      have hquiet : s.serviceTx.2.lineQuiet = true := by
        rw [lineQuiet_iff hserved.steady, hserved.pending, hn]
        rfl
      rw [if_pos hquiet, hn, List.length_nil, Nat.min_zero]
      exact ⟨rfl, hserved⟩
    · obtain ⟨hbusy, hleft, hpass⟩ := sent_pass hs hn
      obtain ⟨hcount, hrest⟩ := ih hpass.steady
      have hlen : s.serviceTx.2.tick.2.pending.length = s.pending.length - 1 := by
        rw [hpass.pending, List.length_drop]
      have hmin : min (limit + 1) s.pending.length =
          1 + min limit s.serviceTx.2.tick.2.pending.length := by
        have hpos := List.length_pos_iff.2 hn
        rw [hlen]
        omega
      rw [hbusy, if_neg Bool.false_ne_true, hleft, hcount, hmin]
      exact ⟨rfl, hpass.trans hrest⟩

end Observed

namespace Port

/-- Ticking until the line is quiet sends the oldest bytes in their order, as many as there are or
as the limit allows. It ends with the line idle, the buffer empty and the interrupt off unless the
limit stops it, even if it finds an interrupt pending. -/
theorem runUntilIdle_sends_oldest {rxSlots txSlots : Nat} {clockHz : UInt32} {trim : Int8}
    {freeRunning : Bool} {hrx : 2 ≤ rxSlots} {htx : 2 ≤ txSlots} {h : List (Step × Outcome)}
    {p : Port}
    (he : Executes (fun _ st => st.offRegisters)
      (Port.new rxSlots txSlots clockHz trim freeRunning hrx htx) h p) (limit : Nat) :
    ∃ o, p.step (.line (.runUntilIdle limit)) = some o ∧
      o.answer = .count (min limit p.backlog) ∧
      o.port.usart.wire = p.usart.wire ++ p.pending.take (min limit p.backlog) ∧
      o.port.usart.wire.length = p.usart.wire.length + min limit p.backlog ∧
      o.port.pending = p.pending.drop (min limit p.backlog) ∧
      (p.backlog ≤ limit →
        o.port.usart.lineIdle = true ∧ o.port.tx.toList = [] ∧
          o.port.usart.txInterrupt = false) := by
  have hs : p.Steady := he.steady (steady_new ..)
  have hlen : p.pending.length = p.backlog := length_pending p
  obtain ⟨hcount, hsent⟩ := Observed.sent_runUntilIdle (s := p.observe) hs limit
  rw [Observed.toPort_observe, hlen] at hcount hsent
  refine ⟨_, rfl, congrArg Answer.count hcount, hsent.wire, ?_, hsent.pending, fun hle => ?_⟩
  · refine (congrArg List.length hsent.wire).trans ?_
    rw [List.length_append, List.length_take, Observed.toPort_observe, hlen]
    omega
  · have hnone : (p.observe.runUntilIdle limit).2.pending = [] := by
      rw [hsent.pending]
      apply List.drop_eq_nil_of_le
      rw [Observed.toPort_observe, hlen]
      omega
    obtain ⟨hq, hd, hf⟩ := (pending_eq_nil_iff _).1 hnone
    refine ⟨?_, hq, hsent.steady.interrupt_eq_false_iff.2 hq⟩
    change (p.observe.runUntilIdle limit).2.usart.lineIdle = true
    rw [Usart.lineIdle, hd, hf]
    rfl

def unservedTraffic : List Step :=
  [.call (.enable 9600 .standard), .call (.writeBytes [1, 2, 3, 4]), .usart .tick]

theorem runUntilIdle_sends_oldest_unserved :
    ∃ h p, Executes (fun _ st => st.offRegisters) (Port.new 2 3) h p ∧
      h.map Prod.fst = unservedTraffic ∧ p.usart.txInterruptPending = true ∧
      (∃ o, p.step (.line (.runUntilIdle 2)) = some o ∧ o.answer = .count 2 ∧
        o.port.usart.wire = [1, 2, 3] ∧ o.port.pending = [4]) ∧
      ∃ o, p.step (.line (.runUntilIdle 9)) = some o ∧ o.answer = .count 3 ∧
        o.port.usart.wire = [1, 2, 3, 4] ∧ o.port.usart.lineIdle = true ∧
        o.port.tx.toList = [] ∧ o.port.usart.txInterrupt = false := by
  obtain ⟨p, hp, he⟩ := exists_executes (fun _ st => st.offRegisters) (Port.new 2 3)
    unservedTraffic (by decide +kernel)
  have hstate : ((Port.new 2 3).after unservedTraffic).all (fun q =>
      q.usart.txInterruptPending = true ∧ q.usart.wire = [1] ∧ q.pending = [2, 3, 4] ∧
        q.backlog = 3) = true := by
    decide +kernel
  rw [hp, Option.all_some, decide_eq_true_iff] at hstate
  obtain ⟨hi, hwire, hpending, hbacklog⟩ := hstate
  obtain ⟨o, ho, hcount, hgrown, _, hrest, _⟩ := runUntilIdle_sends_oldest he 2
  obtain ⟨o', ho', hcount', hgrown', _, _, hends⟩ := runUntilIdle_sends_oldest he 9
  rw [hbacklog] at hcount hgrown hrest hcount' hgrown' hends
  rw [hwire, hpending] at hgrown hgrown'
  rw [hpending] at hrest
  exact ⟨_, p, he, by decide +kernel, hi, ⟨o, ho, hcount, hgrown, hrest⟩,
    o', ho', hcount', hgrown', hends (by decide)⟩

end Port

end SerialPort
