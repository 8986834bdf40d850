import SerialPort.Proofs.Draining
import SerialPort.Proofs.Written

namespace SerialPort

namespace Port

/-- Three enable bits agree with the lifecycle. -/
structure Switched (p : Port) : Prop where
  receiver : p.usart.receiver = true ↔ p.state = .enabled
  transmitter : p.usart.transmitter = true ↔ p.state = .enabled
  rxInterrupt : p.usart.rxInterrupt = true ↔ p.state = .enabled

variable {p q : Port}

theorem Switched.of_receiveSide (h : q.receiveSide = p.receiveSide) (hp : p.Switched) :
    q.Switched := by
  have hs : p.receiveSide.Switched := ⟨hp.1, hp.2, hp.3⟩
  rw [← h] at hs
  exact ⟨hs.1, hs.2, hs.3⟩

theorem Switched.of_transmitSide (h : q.transmitSide = p.transmitSide) (hp : p.Switched) :
    q.Switched := by
  have hs : p.transmitSide.Switched := ⟨hp.1, hp.2, hp.3⟩
  rw [← h] at hs
  exact ⟨hs.1, hs.2, hs.3⟩

theorem switched_new (rxSlots txSlots : Nat) (clockHz : UInt32) (trim : Int8)
    (freeRunning : Bool) (hrx : 2 ≤ rxSlots) (htx : 2 ≤ txSlots) :
    (Port.new rxSlots txSlots clockHz trim freeRunning hrx htx).Switched :=
  ⟨by simp [Port.new], by simp [Port.new], by simp [Port.new]⟩

theorem Switched.of_disabled (h : p.Switched) (hd : p.state = .disabled) :
    p.usart.receiver = false ∧ p.usart.transmitter = false ∧ p.usart.rxInterrupt = false := by
  have hn : ¬ p.state = .enabled := by simp [hd]
  exact ⟨by simpa using h.receiver.not.2 hn, by simpa using h.transmitter.not.2 hn,
    by simpa using h.rxInterrupt.not.2 hn⟩

end Port

namespace Observed

theorem switched_switchOff (s : Observed) : s.switchOff.Switched := by
  rw [toPort_switchOff]
  exact ⟨by simp, by simp, by simp⟩

theorem switched_switchOn (s : Observed) (d : UInt16) (f : FrameWord) :
    (s.switchOn d f).Switched := by
  rw [toPort_switchOn]
  exact ⟨by simp, by simp, by simp⟩

theorem StepsTo.switched {s t : Observed} {st : Port.Step} {a : Answer} (h : StepsTo s st a t)
    (hs : s.Switched) : t.Switched := by
  cases h with
  | transmit _ ht => exact hs.of_receiveSide (congrArg Prod.fst ht.receiveView_eq)
  | receive _ hv => exact hs.of_transmitSide (congrArg Prod.fst hv)
  | look _ hp _ => exact hp ▸ hs
  | serve => exact hs.of_receiveSide (congrArg Prod.fst (receiveView_onTxEmpty s))
  | refuse => exact hs
  | enable => exact switched_switchOn _ _ _
  | disable hd =>
    obtain ⟨u, _, rfl⟩ := disable_eq_some.1 hd
    exact switched_switchOff u
  | takeWire | freeRunning => exact ⟨hs.1, hs.2, hs.3⟩

end Observed

namespace Port

variable {p q : Port} {h : List (Step × Outcome)}

theorem Executes.switched (he : Executes (fun _ st => st.offRegisters) p h q) (hp : p.Switched) :
    q.Switched := by
  refine he.keeps (fun p st o hl hs hst => ?_) hp
  obtain ⟨t, ht, hport, _⟩ := stepsTo_of_step hl hst
  exact hport ▸ ht.switched hs

/-- The receiving half of a disabled port and its transmitter are off. Its data-empty interrupt
is off while nothing is queued, and nothing is held unless a byte was accepted since the last
switch. -/
theorem off_of_disabled {rxSlots txSlots : Nat} {clockHz : UInt32} {trim : Int8}
    {freeRunning : Bool} {hrx : 2 ≤ rxSlots} {htx : 2 ≤ txSlots}
    (he : Executes orderly (Port.new rxSlots txSlots clockHz trim freeRunning hrx htx) h p)
    (hd : p.state = .disabled) :
    p.usart.receiver = false ∧ p.usart.transmitter = false ∧ p.usart.rxInterrupt = false ∧
      (p.Off ↔ p.tx.toList = []) ∧ (acceptedSince [] h = [] → p.Off ∧ p.Drained) := by
  have hoff : Executes (fun _ st => st.offRegisters) _ h p :=
    he.mono fun _ _ => offRegisters_of_orderly
  have hs := hoff.steady (steady_new ..)
  obtain ⟨hr, ht, hx⟩ := (hoff.switched (switched_new ..)).of_disabled hd
  have hiff : p.Off ↔ p.tx.toList = [] := by
    rw [← hs.interrupt_eq_false_iff]
    exact ⟨fun h => h.txInterrupt, fun hi => ⟨hr, ht, hx, hi⟩⟩
  refine ⟨hr, ht, hx, hiff, fun hn => ?_⟩
  have hwritten : p.written = true ↔ acceptedSince [] h ≠ [] :=
    hoff.written_iff (by simp [Port.new])
  have hw : p.written = false := by simpa [hn] using hwritten
  have hdrained := (pending_eq_nil_iff p).1 (hs.pending_eq_nil hw)
  exact ⟨hiff.2 hdrained.1, hdrained⟩

def retiredTraffic : List Step :=
  [.call (.write 1), .line .tick, .call (.enable 9600 .standard), .call (.write 2), .line .tick,
    .call .disable, .line (.inject 3 false), .call .pollTx]

theorem off_of_disabled_retired :
    ∃ h p, Executes orderly (Port.new 2 2) h p ∧ h.map Prod.fst = retiredTraffic ∧
      p.state = .disabled ∧ acceptedSince [] h = [] ∧ p.Off ∧ p.Drained := by
  obtain ⟨p, hp, he⟩ := exists_executes orderly (Port.new 2 2) retiredTraffic (by decide +kernel)
  have hstate :
      ((Port.new 2 2).after retiredTraffic).all (fun q => q.state = .disabled) = true := by
    decide +kernel
  rw [hp, Option.all_some, decide_eq_true_iff] at hstate
  have hnone : acceptedSince [] ((Port.new 2 2).history retiredTraffic) = [] := by decide +kernel
  obtain ⟨_, _, _, _, hoff⟩ := off_of_disabled he hstate
  exact ⟨_, p, he, by decide +kernel, hstate, hnone, hoff hnone⟩

/-- A port that was never switched on takes three bytes: one in the shift register, one in the data
register, and one in the queue with the interrupt on. -/
theorem disabled_port_accepts_bytes :
    ∃ h p, Executes orderly (Port.new 2 2) h p ∧
      h.map Prod.fst = [.call (.tryWrite 65), .call (.tryWrite 66), .call (.tryWrite 67)] ∧
      p.state = .disabled ∧ p.usart.txInterrupt = true ∧ p.tx.toList = [67] ∧
      p.usart.inFlight = [65, 66] := by
  obtain ⟨p, hp, he⟩ := exists_executes orderly (Port.new 2 2)
    [.call (.tryWrite 65), .call (.tryWrite 66), .call (.tryWrite 67)] (by decide +kernel)
  have hstate : ((Port.new 2 2).after
      [.call (.tryWrite 65), .call (.tryWrite 66), .call (.tryWrite 67)]).all (fun q =>
        q.state = .disabled ∧ q.usart.txInterrupt = true ∧ q.tx.toList = [67] ∧
          q.usart.inFlight = [65, 66]) = true := by
    decide +kernel
  rw [hp, Option.all_some, decide_eq_true_iff] at hstate
  exact ⟨_, p, he, by decide +kernel, hstate⟩

end Port

end SerialPort
