import SerialPort.Proofs.Disabled
import SerialPort.Proofs.Session

namespace SerialPort

def Event.act : Event → Usart → Usart
  | .store w, u => u.store w
  | .load (.txEmpty _), u | .load (.txComplete _), u => u.clock
  | .load (.data _), u => u.readData.2
  | _, u => u

/-- Whether an access writes the baud register or the frame register. -/
def Event.programs : Event → Bool
  | .store (.divisor _) | .store (.frame _) => true
  | _ => false

namespace Usart

/-- The transceiver after a row of accesses. -/
def replay (u : Usart) (es : List Event) : Usart := es.foldl (fun u e => e.act u) u

/-- The transceiver at each moment at which an access writes its baud or its frame register. -/
def programmedAt (u : Usart) : List Event → List Usart
  | [] => []
  | e :: es => (if e.programs then [u] else []) ++ (e.act u).programmedAt es

theorem replay_append (u : Usart) (es fs : List Event) :
    u.replay (es ++ fs) = (u.replay es).replay fs := List.foldl_append

theorem programmedAt_append (u : Usart) (es fs : List Event) :
    u.programmedAt (es ++ fs) = u.programmedAt es ++ (u.replay es).programmedAt fs := by
  induction es generalizing u with
  | nil => rfl
  | cons e es ih =>
    rw [List.cons_append, programmedAt, programmedAt, ih, List.append_assoc]
    rfl

/-- A transceiver with nothing to send: on, and holding a byte that waited, exactly if it is
live. -/
structure Found (live : Bool) (waiting : Option Received) (u : Usart) : Prop where
  receiver : u.receiver = live
  transmitter : u.transmitter = live
  received : u.received = if live then waiting else none
  inFlight : u.inFlight = []

end Usart

namespace Observed

structure Traced (u : Usart) (s : Observed) : Prop where
  replay : u.replay s.events.toList = s.usart
  programmedAt : u.programmedAt s.events.toList = []

namespace Traced

variable {u : Usart} {s t : Observed}

theorem congr (h : Traced u s) (he : t.events = s.events) (hu : t.usart = s.usart) :
    Traced u t :=
  ⟨by rw [he, hu, h.replay], by rw [he, h.programmedAt]⟩

theorem push {e : Event} (h : Traced u s) (hp : e.programs = false)
    (he : t.events = s.events.push e) (hu : t.usart = e.act s.usart) : Traced u t := by
  refine ⟨?_, ?_⟩
  · rw [he, Array.toList_push, Usart.replay_append, h.replay, hu]
    rfl
  · rw [he, Array.toList_push, Usart.programmedAt_append, h.programmedAt, Usart.programmedAt, hp]
    rfl

theorem log (h : Traced u s) (r : Record) : Traced u (s.log r) := h.push rfl rfl rfl

theorem store {w : RegisterWrite} (h : Traced u s) (hw : (Event.store w).programs = false) :
    Traced u (s.store w) := by
  have hn : Traced u ({ s with usart := s.usart.store w }.note (.store w)) := h.push hw rfl rfl
  rw [Observed.store, warnIf]
  split
  · exact hn.log .overwritten
  · exact hn

theorem interruptEnabled (h : Traced u s) (i : Interrupt) :
    Traced u (s.interruptEnabled i).2 := h.push rfl rfl rfl

theorem txEmpty (h : Traced u s) : Traced u s.txEmpty.2 := h.push rfl rfl rfl

theorem txComplete (h : Traced u s) : Traced u s.txComplete.2 := h.push rfl rfl rfl

theorem readTrim (h : Traced u s) : Traced u s.readTrim.2 := h.push rfl rfl rfl

theorem onTxEmpty (h : Traced u s) : Traced u s.onTxEmpty := by
  have hoff {t : Observed} (ht : Traced u t) :
      Traced u (if t.tx.isEmpty then t.store (.interrupt .txEmpty false) else t) := by
    split
    · exact ht.store rfl
    · exact ht
  rw [Observed.onTxEmpty]
  cases s.tx.pop? with
  | none => exact hoff h
  | some popped =>
    have hb : Traced u { s with tx := popped.2 } := h.congr rfl rfl
    exact hoff ((hb.store (w := .data popped.1) rfl).store rfl)

theorem pollTx (h : Traced u s) : Traced u s.pollTx := by
  have hi := h.interruptEnabled .txEmpty
  rw [pollTx_eq]
  split
  · split
    · exact hi.txEmpty.onTxEmpty
    · exact hi.txEmpty
  · exact hi

theorem drained (h : Traced u s) : Traced u s.drained.2 := by
  have hi := h.interruptEnabled .txEmpty
  change Traced u (if s.usart.txInterrupt then _ else _ : Bool × Observed).2
  split
  · exact hi
  · exact hi.txComplete

theorem flush (h : Traced u s) (hf : s.flush = some t) : Traced u t := by
  rw [Observed.flush] at hf
  split at hf
  · exact pollUntil_keeps (fun _ hs => hs.drained) (fun _ hs => hs.pollTx) h hf
  · cases hf
    exact h

theorem switchOff (h : Traced u s) : Traced u s.switchOff := by
  have hr := h.store (w := .receiver false) rfl
  have ht := hr.store (w := .transmitter false) rfl
  have hx := ht.store (w := .interrupt .rxComplete false) rfl
  exact (hx.store (w := .interrupt .txEmpty false) rfl).congr rfl rfl

theorem retire (h : Traced u s) (hr : s.retire = some t) : Traced u t := by
  rw [Observed.retire] at hr
  split at hr
  · obtain ⟨v, hv, rfl⟩ := disable_eq_some.1 hr
    exact (h.flush hv).switchOff.log .ended
  · cases hr
    exact h

end Traced

theorem traced_observe (p : Port) : Traced p.usart p.observe := ⟨rfl, rfl⟩

theorem programmedAt_switchOn {u : Usart} {s : Observed} (h : Traced u s) (baud : UInt32)
    (d : UInt16) (f : FrameWord) :
    u.programmedAt ((s.switchOn d f).log (.begun baud d f)).events.toList =
        [{ s.usart with pinsRouted := true, doubleSpeed := false },
          { s.usart with pinsRouted := true, doubleSpeed := false, divisor := d }] ∧
      u.replay ((s.switchOn d f).log (.begun baud d f)).events.toList =
        (s.switchOn d f).usart := by
  have he : ((s.switchOn d f).log (.begun baud d f)).events.toList =
      (s.switchOn d f).events.toList ++ [.log (.begun baud d f)] := Array.toList_push
  rw [he, events_switchOn, List.append_assoc, Usart.programmedAt_append, Usart.replay_append,
    h.programmedAt, h.replay, toPort_switchOn]
  refine ⟨?_, ?_⟩
  · simp [Usart.programmedAt, Event.programs, Event.act, Usart.store]
  · simp [Usart.replay, Event.act, Usart.store]

/-- Switched on, and nothing was sent since. -/
def unsent (s : Observed) : Bool := s.state = .enabled && !s.written

theorem found_retire {s r : Observed} (hs : s.Steady) (hw : s.Switched)
    (hn : s.state = .disabled → s.usart.received = none) (h : s.readTrim.2.retire = some r) :
    Usart.Found s.unsent s.usart.received r.usart := by
  have hf : r.usart.inFlight = [] :=
    (List.append_eq_nil_iff.1 (retired_retire (s := s.readTrim.2) hs h).pending).1
  rw [retire] at h
  by_cases hwritten : s.written = true
  · rw [toPort_readTrim, if_pos hwritten] at h
    obtain ⟨u, _, rfl⟩ := disable_eq_some.1 h
    have hlive : s.unsent = false := by simp [unsent, hwritten]
    rw [toPort_log, toPort_switchOff] at hf ⊢
    rw [hlive]
    exact ⟨rfl, rfl, rfl, hf⟩
  · rw [toPort_readTrim, if_neg hwritten] at h
    cases h
    cases hstate : s.state with
    | disabled =>
      obtain ⟨hr, ht, _⟩ := hw.of_disabled hstate
      have hlive : s.unsent = false := by simp [unsent, hstate]
      rw [hlive]
      exact ⟨hr, ht, hn hstate, hf⟩
    | enabled =>
      have hlive : s.unsent = true := by simp [unsent, hstate, hwritten]
      rw [hlive]
      exact ⟨hw.receiver.2 hstate, hw.transmitter.2 hstate, rfl, hf⟩

end Observed

namespace Port

variable {p q : Port} {h : List (Step × Outcome)}

theorem Aligned.switched (hp : p.Aligned) : p.Switched := by
  have hon : p.inbox.enabled = true ↔ p.state = .enabled := decide_eq_true_iff
  exact ⟨hp.receiver ▸ hon, hp.transmitter ▸ hon, hp.rxInterrupt ▸ hon⟩

theorem Switched.aligned (hp : p.Switched) (hr : p.usart.received = none) : p.Aligned := by
  have hon : p.inbox.enabled = true ↔ p.state = .enabled := decide_eq_true_iff
  refine ⟨?_, ?_, ?_, hr⟩
  · rw [Bool.eq_iff_iff, hon, hp.receiver]
  · rw [Bool.eq_iff_iff, hon, hp.transmitter]
  · rw [Bool.eq_iff_iff, hon, hp.rxInterrupt]

theorem received_of_switched_off {st : Step} {o : Outcome} (hl : st.offRegisters = true)
    (ho : p.step st = some o) (hon : p.state = .enabled) (hoff : o.port.state = .disabled) :
    o.port.usart.received = none := by
  obtain ⟨t, ht, hport, _⟩ := stepsTo_of_step hl ho
  have hsame (hk : t.state = p.state) : o.port.usart.received = none := by
    rw [hport, hoff, hon] at hk
    cases hk
  generalize o.answer = a at ht
  cases ht with
  | transmit _ hm =>
    exact hsame (congrArg (fun v : Port × List Record => v.1.state) hm.receiveView_eq)
  | receive _ hv => exact hsame (congrArg (fun v : Port × List Record => v.1.state) hv)
  | look _ hk _ => exact hsame (congrArg Port.state hk)
  | serve =>
    exact hsame (congrArg (fun v : Port × List Record => v.1.state)
      (Observed.receiveView_onTxEmpty p.observe))
  | refuse | takeWire | freeRunning => exact hsame rfl
  | enable =>
    rw [← hport, Observed.toPort_log, Observed.toPort_switchOn] at hoff
    cases hoff
  | disable hd =>
    obtain ⟨u, _, rfl⟩ := Observed.disable_eq_some.1 hd
    rw [← hport, Observed.toPort_log, Observed.toPort_switchOff]

theorem received_of_step {st : Step} {o : Outcome} (hl : st.offRegisters = true)
    (hp : p.Switched) (hn : p.state = .disabled → p.usart.received = none)
    (ho : p.step st = some o) (hoff : o.port.state = .disabled) :
    o.port.usart.received = none := by
  cases hstate : p.state with
  | enabled => exact received_of_switched_off hl ho hstate hoff
  | disabled =>
    have ha := hp.aligned (hn hstate)
    cases hk : st.harnessed with
    | true => exact (make_of_step hk ha ho).1.received
    | false =>
      -- A byte that arrives on the line is lost, since the receiver is off.
      have hr := (hp.of_disabled hstate).1
      cases st with
      | usart op =>
        cases op with
        | receive b corrupt =>
          have hu : (p.observe.runUsart (.receive b corrupt)).2.toPort = p := by
            simp [Observed.runUsart, Usart.Op.apply, Usart.receive, hr]
          cases ho
          change (p.observe.runUsart (.receive b corrupt)).2.usart.received = none
          rw [hu]
          exact ha.received
        | tick | wire | takeWire | freeRunning => cases hk
        | _ => cases hl
      | _ => cases hk

theorem Executes.received_of_disabled (he : Executes (fun _ st => st.offRegisters) p h q)
    (hp : p.Aligned) : q.Switched ∧ (q.state = .disabled → q.usart.received = none) := by
  refine he.keeps (P := fun r => r.Switched ∧ (r.state = .disabled → r.usart.received = none))
    (fun r st o hl hr ho => ?_) ⟨hp.switched, fun _ => hp.received⟩
  obtain ⟨t, ht, hport, _⟩ := stepsTo_of_step hl ho
  exact ⟨hport ▸ ht.switched hr.1, received_of_step hl hr.1 hr.2 ho⟩

/-- Switched on, and no byte was accepted since. -/
def unsentAfter (h : List (Step × Outcome)) (p : Port) : Bool :=
  p.state = .enabled && (acceptedSince [] h).isEmpty

/-- A port that sent is off when it is programmed. One that was switched on and did not send is
programmed while it is on, and keeps the byte that waits in its transceiver, but none that it had
taken over. -/
theorem programmed_live_iff {rxSlots txSlots : Nat} {clockHz : UInt32} {trim : Int8}
    {freeRunning : Bool} {hrx : 2 ≤ rxSlots} {htx : 2 ≤ txSlots} {baud : UInt32}
    {frame : FrameWord} {o : Outcome}
    (he : Executes (fun _ st => st.offRegisters)
      (Port.new rxSlots txSlots clockHz trim freeRunning hrx htx) h p)
    (ho : p.step (.call (.enable baud frame)) = some o) :
    p.usart.replay o.events = o.port.usart ∧
    (∀ u ∈ p.usart.programmedAt o.events,
      Usart.Found (p.unsentAfter h) p.usart.received u) ∧
    (o.answer = .ok → (p.usart.programmedAt o.events).length = 2 ∧ o.port.rx.toList = [] ∧
      o.port.usart.received = if p.unsentAfter h then p.usart.received else none) ∧
    (o.answer ≠ .ok → p.usart.programmedAt o.events = []) := by
  have hs := he.steady (steady_new ..)
  obtain ⟨hw, hn⟩ := he.received_of_disabled ⟨rfl, rfl, rfl, rfl⟩
  have hunsent : p.observe.unsent = p.unsentAfter h := by
    have hwritten : p.written = true ↔ acceptedSince [] h ≠ [] :=
      he.written_iff (by simp [Port.new])
    rw [Observed.unsent, unsentAfter, Observed.toPort_observe]
    congr 1
    rw [Bool.eq_iff_iff, List.isEmpty_iff, Bool.not_eq_true', ← Bool.not_eq_true, hwritten,
      not_not]
  have htrim := (Observed.traced_observe p).readTrim
  obtain ⟨t, ht, hport, hevents⟩ := events_of_step ho
  rw [← hport, ← hevents]
  generalize o.answer = a at ht
  cases Observed.stepsTo_enable ht with
  | refuse hd =>
    refine ⟨htrim.replay, fun u hu => ?_, fun hok => ?_, fun _ => htrim.programmedAt⟩
    · rw [htrim.programmedAt] at hu
      cases hu
    · cases hok
  | @enable _ _ d r hd hr =>
    have hf := Observed.found_retire (s := p.observe) hs hw hn hr
    rw [hunsent, Observed.toPort_observe] at hf
    obtain ⟨hat, hreplay⟩ := Observed.programmedAt_switchOn (htrim.retire hr) baud d frame
    refine ⟨hreplay, fun u hu => ?_, fun _ => ⟨?_, ?_⟩, fun hok => absurd rfl hok⟩
    · rw [hat] at hu
      rcases List.mem_pair.1 hu with rfl | rfl
      · exact ⟨hf.1, hf.2, hf.3, hf.4⟩
      · exact ⟨hf.1, hf.2, hf.3, hf.4⟩
    · rw [hat]
      rfl
    · rw [Observed.toPort_log, Observed.toPort_switchOn]
      exact ⟨r.rx.toList_reset, hf.received⟩
  | transmit hk | receive hk | look hk => cases hk

def sentTraffic : List Step :=
  [.call (.enable 9600 .standard), .call (.write 1), .line .tick, .usart (.receive 7 false)]

theorem programmed_live_iff_sent :
    ∃ h p o, Executes (fun _ st => st.offRegisters) (Port.new 2 2) h p ∧
      h.map Prod.fst = sentTraffic ∧ p.step (.call (.enable 19200 .standard)) = some o ∧
      o.answer = .ok ∧ p.usart.receiver = true ∧ p.usart.received = some ⟨7, false⟩ ∧
      (p.usart.programmedAt o.events).length = 2 ∧
      (∀ u ∈ p.usart.programmedAt o.events,
        u.receiver = false ∧ u.transmitter = false ∧ u.received = none) ∧
      o.port.usart.received = none := by
  obtain ⟨p, hp, he⟩ := exists_executes (fun _ st => st.offRegisters) (Port.new 2 2) sentTraffic
    (by decide +kernel)
  have hstate : ((Port.new 2 2).after sentTraffic).all (fun q => q.usart.receiver = true ∧
      q.usart.received = some ⟨7, false⟩ ∧
      (q.step (.call (.enable 19200 .standard))).any (fun o => o.answer = .ok)) = true := by
    decide +kernel
  rw [hp, Option.all_some, decide_eq_true_iff] at hstate
  obtain ⟨hon, hwaits, hstep⟩ := hstate
  obtain ⟨o, ho, hout⟩ := (Option.any_eq_true _ _).1 hstep
  have hok : o.answer = .ok := of_decide_eq_true hout
  have hsent : p.unsentAfter ((Port.new 2 2).history sentTraffic) = false := by
    have ha : acceptedSince [] ((Port.new 2 2).history sentTraffic) = [1] := by decide +kernel
    rw [unsentAfter, ha, List.isEmpty_cons, Bool.and_false]
  obtain ⟨_, hall, hprog, _⟩ := programmed_live_iff he ho
  obtain ⟨htwo, _, hreceived⟩ := hprog hok
  rw [hsent] at hall hreceived
  exact ⟨_, p, o, he, by decide +kernel, ho, hok, hon, hwaits, htwo,
    fun u hu => ⟨(hall u hu).receiver, (hall u hu).transmitter, (hall u hu).received⟩, hreceived⟩

/-- A port that did not send is programmed with receiver and transmitter on, and a byte that came
in before is read afterwards. -/
theorem unsent_port_programmed_live :
    ∃ h p o, Executes orderly (Port.new 2 2) h p ∧
      h.map Prod.fst = [.call (.enable 9600 .standard), .usart (.receive 65 false)] ∧
      p.step (.call (.enable 19200 .standard)) = some o ∧ o.answer = .ok ∧
      (p.usart.programmedAt o.events).length = 2 ∧
      (∀ u ∈ p.usart.programmedAt o.events,
        u.receiver = true ∧ u.transmitter = true ∧ u.received = some ⟨65, false⟩) ∧
      o.port.usart.rxInterruptPending = true ∧
      (o.port.run [.call .onRxComplete, .call .read]).1.map (·.answer) =
        [.done, .byte? (some 65)] := by
  obtain ⟨p, hp, he⟩ := exists_executes orderly (Port.new 2 2)
    [.call (.enable 9600 .standard), .usart (.receive 65 false)] (by decide +kernel)
  have hstate : ((Port.new 2 2).after
      [.call (.enable 9600 .standard), .usart (.receive 65 false)]).all (fun q =>
        (q.step (.call (.enable 19200 .standard))).any (fun o => o.answer = .ok ∧
          (q.usart.programmedAt o.events).length = 2 ∧
          (∀ u ∈ q.usart.programmedAt o.events,
            u.receiver = true ∧ u.transmitter = true ∧ u.received = some ⟨65, false⟩) ∧
          o.port.usart.rxInterruptPending = true ∧
          (o.port.run [.call .onRxComplete, .call .read]).1.map (·.answer) =
            [.done, .byte? (some 65)])) = true := by
    decide +kernel
  rw [hp, Option.all_some] at hstate
  obtain ⟨o, ho, hout⟩ := (Option.any_eq_true _ _).1 hstate
  exact ⟨_, p, o, he, by decide +kernel, ho, of_decide_eq_true hout⟩

end Port

end SerialPort
