import SerialPort.Proofs.Conservation

namespace SerialPort

theorem Usart.clock_of_shifter_none {u : Usart} (h : u.shifter = none) : u.clock = u := by
  rw [clock, shiftOut_of_none h, ite_self]

theorem Usart.clock_of_not_freeRunning {u : Usart} (h : u.freeRunning = false) : u.clock = u := by
  simp [clock, h]

/-- Nothing is queued and nothing is in the transmitter. -/
def Port.Drained (p : Port) : Prop :=
  p.tx.toList = [] ∧ p.usart.data = none ∧ p.usart.shifter = none

theorem Port.pending_eq_nil_iff (p : Port) : p.pending = [] ↔ p.Drained := by
  rw [pending, List.append_eq_nil_iff, Usart.inFlight_eq_nil_iff, Drained, and_comm]

namespace Observed

theorem wire_onTxEmpty (s : Observed) : s.onTxEmpty.usart.wire = s.usart.wire := by
  cases hp : s.tx.pop? with
  | none => rw [toPort_onTxEmpty_of_none hp ((Ring.pop?_eq_none_iff _).1 hp)]
  | some popped =>
    rw [toPort_onTxEmpty_of_some hp]
    exact Usart.wire_putData s.usart popped.1

theorem wire_pollTx {s : Observed} (hf : s.usart.freeRunning = false) :
    s.pollTx.usart.wire = s.usart.wire := by
  have hc := Usart.clock_of_not_freeRunning hf
  rw [pollTx_eq, hc]
  split
  · split
    · rw [wire_onTxEmpty]
      simp [hc]
    · simp [hc]
  · rfl

theorem freeRunning_of_transmits {s t : Observed} {bs : List UInt8} (h : Transmits s bs t) :
    t.usart.freeRunning = s.usart.freeRunning :=
  congrArg (fun v : Port × List Record => v.1.usart.freeRunning) h.receiveView_eq

/-- Output is pending on a line that nobody clocks. -/
structure Stranded (s : Observed) : Prop where
  steady : s.Steady
  still : s.usart.freeRunning = false
  pending : s.pending ≠ []

theorem Stranded.drained {s : Observed} (h : Stranded s) :
    s.drained.1 = false ∧ Stranded s.drained.2 := by
  have hd : s.drained.2.toPort = s.toPort := by
    rw [toPort_drained, Usart.clock_of_not_freeRunning h.still, ite_self]
  refine ⟨?_, hd ▸ h.steady, hd ▸ h.still, hd ▸ h.pending⟩
  have hn := (fst_drained_iff h.steady (h.steady.written_of_pending h.pending)).not
  rw [hd] at hn
  simpa using hn.2 h.pending

theorem Stranded.pollTx {s : Observed} (h : Stranded s) : Stranded s.pollTx := by
  have hm := transmits_pollTx s
  have hsend := hm.sends h.steady
  refine ⟨hsend.steady, (freeRunning_of_transmits hm).trans h.still, ?_⟩
  have ho := hsend.output
  rw [List.append_nil, Port.output, Port.output, wire_pollTx h.still] at ho
  rw [List.append_cancel_left ho]
  exact h.pending

theorem Stranded.pollUntil_drained {s : Observed} (h : Stranded s) (n : Nat) :
    s.pollUntil Observed.drained n = none := by
  induction n generalizing s with
  | zero => rw [pollUntil_zero, h.drained.1, if_neg Bool.false_ne_true]
  | succ n ih =>
    rw [pollUntil_succ, h.drained.1, if_neg Bool.false_ne_true]
    exact ih h.drained.2.pollTx

theorem fst_drained_of_pending_nil {s : Observed} (hs : s.Steady) (hw : s.written = true)
    (hp : s.pending = []) : s.drained.1 = true := by
  obtain ⟨hi, hc⟩ := (hs.drained_iff hw).2 hp
  have hd := ((Port.pending_eq_nil_iff _).1 hp).2.2
  rw [fst_drained, Usart.clock_of_shifter_none hd, hi, hc]
  rfl

theorem flush_of_pending_nil {s : Observed} (hs : s.Steady) (hp : s.pending = []) :
    s.flush.isSome = true := by
  rw [flush]
  by_cases hw : s.written = true
  · rw [if_pos hw, pollUntil_of_true (fst_drained_of_pending_nil hs hw hp)]
    rfl
  · rw [if_neg hw]
    rfl

theorem flush_isSome_iff {s : Observed} (hs : s.Steady) (hf : s.usart.freeRunning = false) :
    s.flush.isSome = true ↔ s.pending = [] := by
  refine ⟨fun h => ?_, flush_of_pending_nil hs⟩
  by_cases hp : s.pending = []
  · exact hp
  · rw [flush, if_pos (hs.written_of_pending hp), (Stranded.mk hs hf hp).pollUntil_drained] at h
    cases h

end Observed

/-- The steps that wait for the output before they end. -/
def Port.Step.drains : Port.Step → Answer → Bool
  | .call .flush, _ | .call .disable, _ | .call (.enable ..), .ok => true
  | _, _ => false

/-- Receiver, transmitter and both interrupts are off. -/
structure Port.Off (p : Port) : Prop where
  receiver : p.usart.receiver = false
  transmitter : p.usart.transmitter = false
  rxInterrupt : p.usart.rxInterrupt = false
  txInterrupt : p.usart.txInterrupt = false

namespace Observed

theorem pending_of_drains {s t : Observed} {st : Port.Step} {a : Answer} (hs : s.Steady)
    (hd : st.drains a = true) (h : s.runStep st = some (a, t)) : t.pending = [] := by
  cases st with
  | call c =>
    cases c with
    | flush =>
      obtain ⟨r, hr, e⟩ := Option.map_eq_some_iff.1 h
      cases e
      exact (flush_spec hs hr).2
    | disable =>
      obtain ⟨r, hr, e⟩ := Option.map_eq_some_iff.1 h
      cases e
      exact (retired_disable hs hr).pending
    | enable baud frame =>
      cases stepsTo_enable h with
      | enable _ hr => exact ((retired_retire (s := s.readTrim.2) hs hr).switchOn _ frame).pending
      | refuse => cases hd
      | transmit hk | receive hk | look hk => cases hk
    | _ => cases hd
  | line e => cases hd
  | usart op => cases hd

theorem off_of_disable {s t : Observed} (h : s.disable = some t) :
    t.state = .disabled ∧ t.Off ∧ t.rx.toList = [] ∧
      t.usart.pinsRouted = s.usart.pinsRouted ∧ t.usart.txPinDriven = s.usart.txPinDriven := by
  obtain ⟨u, hu, rfl⟩ := disable_eq_some.1 h
  have hside : u.toPort.receiveSide = s.toPort.receiveSide :=
    congrArg Prod.fst (transmits_flush hu).receiveView_eq
  have hrouted : u.usart.pinsRouted = s.usart.pinsRouted :=
    (congrArg (fun q : Port => q.usart.pinsRouted) hside :)
  have hdriven : u.usart.txPinDriven = s.usart.txPinDriven :=
    (congrArg (fun q : Port => q.usart.txPinDriven) hside :)
  rw [toPort_log, toPort_switchOff]
  exact ⟨rfl, ⟨rfl, rfl, rfl, rfl⟩, Ring.toList_discard _, hrouted, hdriven⟩

end Observed

namespace Port

theorem orderly_of_drains {st : Step} {a : Answer} (hd : st.drains a = true) (p : Port) :
    p.orderly st = true ∧ st.accepted a = [] ∧ st.removed a = [] := by
  unfold Step.drains at hd
  split at hd
  · exact ⟨rfl, rfl, rfl⟩
  · exact ⟨rfl, rfl, rfl⟩
  · exact ⟨rfl, rfl, rfl⟩
  · cases hd

theorem flush_isSome (p : Port) :
    (p.step (.call .flush)).isSome = p.observe.flush.isSome := by
  simp only [step, Observed.runStep, Observed.runCall, Option.isSome_map]

theorem disable_isSome (p : Port) :
    (p.step (.call .disable)).isSome = p.observe.flush.isSome := by
  simp only [step, Observed.runStep, Observed.runCall, Observed.disable, Option.isSome_map]

/-- What a wait for the output waits for, in every state that an orderly run of a new port reaches:
the test, what holds when the wait is over, and when it is never over, however often it polls. -/
theorem flush_ends_when_drained {rxSlots txSlots : Nat} {clockHz : UInt32} {trim : Int8}
    {freeRunning : Bool} {hrx : 2 ≤ rxSlots} {htx : 2 ≤ txSlots} {h : List (Step × Outcome)}
    {p : Port}
    (he : Executes orderly (Port.new rxSlots txSlots clockHz trim freeRunning hrx htx) h p) :
    (p.written = true →
      (p.usart.txInterrupt = false ∧ p.usart.txComplete = true ↔ p.Drained) ∧
      (p.observe.drained.1 = true ↔ p.observe.drained.2.Drained)) ∧
    (p.written = false → p.Drained) ∧
    (∀ st o, p.step st = some o → st.drains o.answer = true →
      removed h ++ o.port.usart.wire = accepted h ∧ o.port.Drained ∧
        o.port.usart.lineIdle = true) ∧
    (p.usart.freeRunning = false →
      ((p.step (.call .flush)).isSome = true ↔ p.Drained) ∧
      ((p.step (.call .disable)).isSome = true ↔ p.Drained) ∧
      (¬ p.Drained → p.written = true ∧
        ∀ polls, p.observe.pollUntil Observed.drained polls = none)) ∧
    (∀ o, p.step (.call .disable) = some o →
      o.port.state = .disabled ∧ o.port.Off ∧ o.port.rx.toList = [] ∧
        o.port.usart.pinsRouted = p.usart.pinsRouted ∧
        o.port.usart.txPinDriven = p.usart.txPinDriven) := by
  obtain ⟨hp, hout, _⟩ := he.accounts (steady_new ..)
  rw [output_new, List.nil_append] at hout
  refine ⟨fun hw => ?_, fun hw => ?_, fun st o hst hd => ?_, fun hf => ?_, fun o ho => ?_⟩
  · rw [← pending_eq_nil_iff, ← pending_eq_nil_iff]
    exact ⟨hp.drained_iff hw, Observed.fst_drained_iff (s := p.observe) hp hw⟩
  · exact (pending_eq_nil_iff p).1 (hp.pending_eq_nil hw)
  · obtain ⟨t, ht, hport, _⟩ := observe_of_step hst
    have hn := Observed.pending_of_drains (s := p.observe) hp hd ht
    rw [hport] at hn
    obtain ⟨hord, hacc, hrem⟩ := orderly_of_drains hd p
    obtain ⟨_, hstep, _⟩ := step_accounts hord hst hp
    rw [hrem, hacc, List.nil_append, List.append_nil, output, hn, List.append_nil] at hstep
    have hdrained := (pending_eq_nil_iff o.port).1 hn
    refine ⟨by rw [hstep, hout], hdrained, ?_⟩
    rw [Usart.lineIdle, hdrained.2.1, hdrained.2.2]
    rfl
  · rw [flush_isSome, disable_isSome, ← pending_eq_nil_iff]
    have hends := Observed.flush_isSome_iff (s := p.observe) hp hf
    refine ⟨hends, hends, fun hn => ?_⟩
    have hstranded : Observed.Stranded p.observe := ⟨hp, hf, hn⟩
    exact ⟨hp.written_of_pending hn, hstranded.pollUntil_drained⟩
  · obtain ⟨t, ht, hport, _⟩ := observe_of_step ho
    obtain ⟨r, hr, e⟩ := Option.map_eq_some_iff.1 ht
    rw [← hport, ← (Prod.mk.inj e).2]
    exact Observed.off_of_disable hr

def clockedTraffic : List Step :=
  [.call (.enable 9600 .standard), .call (.write 1), .call (.tryWrite 2), .line (.inject 7 false),
    .call (.tryWrite 3), .line .tick, .usart .takeWire, .line (.runUntilIdle 5)]

theorem flush_ends_when_drained_clocked :
    ∃ h p, Executes orderly (Port.new 2 3) h p ∧ h.map Prod.fst = clockedTraffic ∧
      p.written = true ∧ p.Drained ∧ (p.step (.call .flush)).isSome = true ∧
      ∃ o, p.step (.call .disable) = some o ∧ removed h ++ o.port.usart.wire = accepted h ∧
        accepted h = [1, 2, 3] ∧ o.port.state = .disabled ∧ o.port.rx.toList = [] := by
  obtain ⟨p, hp, he⟩ := exists_executes orderly (Port.new 2 3) clockedTraffic (by decide +kernel)
  have hstate : ((Port.new 2 3).after clockedTraffic).all (fun q =>
      q.written && !q.usart.txInterrupt && q.usart.txComplete && !q.usart.freeRunning) = true := by
    decide +kernel
  rw [hp] at hstate
  simp only [Option.all_some, Bool.and_eq_true, Bool.not_eq_true'] at hstate
  obtain ⟨⟨⟨hw, hi⟩, hc⟩, hf⟩ := hstate
  obtain ⟨htest, _, hreturn, hends, hoff⟩ := flush_ends_when_drained he
  have hd : p.Drained := (htest hw).1.1 ⟨hi, hc⟩
  obtain ⟨hflush, hdisable, _⟩ := hends hf
  obtain ⟨o, ho⟩ := Option.isSome_iff_exists.1 (hdisable.2 hd)
  obtain ⟨hs, _, hr, _⟩ := hoff o ho
  have hdone : Step.drains (.call .disable) o.answer = true := by cases o.answer <;> rfl
  exact ⟨_, p, he, by decide +kernel, hw, hd, hflush.2 hd, o, ho, (hreturn _ o ho hdone).1,
    by decide +kernel, hs, hr⟩

end Port

end SerialPort
