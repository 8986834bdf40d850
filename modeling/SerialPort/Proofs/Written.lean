import SerialPort.Proofs.Conservation

namespace SerialPort

namespace Port

/-- Whether a step switched the port on or off. -/
def Step.switches : Step → Answer → Bool
  | .call .disable, _ | .call (.enable ..), .ok => true
  | _, _ => false

theorem Step.switches_eq_false {st : Step} (h : st.side ≠ .control) (a : Answer) :
    st.switches a = false := by
  unfold switches
  split
  · exact absurd rfl h
  · exact absurd rfl h
  · rfl

/-- The bytes accepted since the port was last switched on or off; `bs` are those before the run. -/
def acceptedSince (bs : List UInt8) : List (Step × Outcome) → List UInt8
  | [] => bs
  | x :: h =>
    acceptedSince (if x.1.switches x.2.answer then [] else bs ++ x.1.accepted x.2.answer) h

end Port

namespace Observed

theorem written_onTxEmpty (s : Observed) : s.onTxEmpty.written = s.written := by
  cases hp : s.tx.pop? with
  | none => rw [toPort_onTxEmpty_of_none hp ((Ring.pop?_eq_none_iff _).1 hp)]
  | some popped => rw [toPort_onTxEmpty_of_some hp]

theorem Transmits.written_eq {s t : Observed} {bs : List UInt8} (h : Transmits s bs t) :
    t.written = (s.written || !bs.isEmpty) := by
  induction h with
  | refl | look | shift => simp
  | @trans _ _ _ as _ _ _ ih ih' =>
    rw [ih', ih, Bool.or_assoc]
    cases as <;> simp
  | serve s => simp [written_onTxEmpty]
  | send | queue => simp

theorem written_disable {s t : Observed} (h : s.disable = some t) : t.written = false := by
  obtain ⟨u, _, rfl⟩ := disable_eq_some.1 h
  rw [toPort_log, toPort_switchOff]

theorem written_retire {s t : Observed} (h : s.retire = some t) : t.written = false := by
  rw [retire] at h
  by_cases hw : s.written = true
  · rw [if_pos hw] at h
    exact written_disable h
  · rw [if_neg hw] at h
    cases h
    simpa using hw

theorem StepsTo.written_eq {s t : Observed} {st : Port.Step} {a : Answer} (h : StepsTo s st a t) :
    t.written = (!st.switches a && (s.written || !(st.accepted a).isEmpty)) := by
  cases h with
  | transmit hst ht =>
    rw [Port.Step.switches_eq_false (by simp [hst]), ht.written_eq, Bool.not_false, Bool.true_and]
  | receive hst hv =>
    have hw : t.written = s.written := congrArg (fun v : Port × List Record => v.1.written) hv
    rw [Port.Step.switches_eq_false (by simp [hst]), Port.Step.accepted_eq_nil (by simp [hst]), hw]
    simp
  | look hst hp _ =>
    rw [Port.Step.switches_eq_false (by simp [hst]), Port.Step.accepted_eq_nil (by simp [hst]), hp]
    simp
  | serve =>
    rw [written_onTxEmpty]
    simp [Port.Step.switches, Port.Step.accepted]
  | refuse => simp [Port.Step.switches, Port.Step.accepted]
  | enable _ hr =>
    rw [toPort_log, toPort_switchOn]
    exact written_retire hr
  | disable hd => exact written_disable hd
  | takeWire | freeRunning => simp [Port.Step.switches, Port.Step.accepted]

theorem written_runUsart (s : Observed) (op : Usart.Op) :
    (s.runUsart op).2.written = s.written := by
  change ((({ s with usart := (op.apply s.usart).2 } : Observed)).warnIf _).toPort.written = _
  rw [toPort_warnIf]

theorem written_of_runStep {s t : Observed} {st : Port.Step} {a : Answer}
    (h : s.runStep st = some (a, t)) :
    t.written = (!st.switches a && (s.written || !(st.accepted a).isEmpty)) := by
  cases hl : st.offRegisters with
  | true => exact (stepsTo_of_runStep hl h).written_eq
  | false =>
    cases st with
    | call | line => cases hl
    | usart op =>
      have ht : (s.runUsart op).2 = t := congrArg Prod.snd (Option.some.inj h)
      rw [← ht, written_runUsart]
      simp [Port.Step.switches, Port.Step.accepted]

/-- What a wait does in so many polls, or in fewer if it is over before. -/
def pollFor (s : Observed) (test : Observed → Bool × Observed) : Nat → Observed
  | 0 => (test s).2
  | polls + 1 => if (test s).1 then (test s).2 else (test s).2.pollTx.pollFor test polls

theorem pollFor_of_pollUntil {s r : Observed} {test : Observed → Bool × Observed} {n : Nat}
    (h : s.pollUntil test n = some r) : s.pollFor test n = r := by
  induction n generalizing s with
  | zero =>
    rw [pollUntil_zero] at h
    split at h <;> cases h
    rfl
  | succ n ih =>
    rw [pollUntil_succ] at h
    rw [pollFor]
    split at h
    next ht =>
      rw [if_pos ht]
      exact Option.some.inj h
    next ht =>
      rw [if_neg ht]
      exact ih h

theorem exists_pollFor_eq (s : Observed) (test : Observed → Bool × Observed) (n : Nat) :
    ∃ t, s.pollFor test n = (test t).2 := by
  induction n generalizing s with
  | zero => exact ⟨s, rfl⟩
  | succ n ih =>
    rw [pollFor]
    split
    · exact ⟨s, rfl⟩
    · exact ih _

/-- What the wait for the output does in so many polls, be it that it never ends. -/
def flushFor (s : Observed) (polls : Nat) : Observed :=
  if s.written then s.pollFor drained polls else s

theorem flushFor_of_flush {s r : Observed} (h : s.flush = some r) :
    s.flushFor s.patience = r := by
  rw [flush] at h
  rw [flushFor]
  split at h
  next hw =>
    rw [if_pos hw]
    exact pollFor_of_pollUntil h
  next hw =>
    rw [if_neg hw]
    exact Option.some.inj h

end Observed

/-- Whether an event is a register that was read or written. -/
def Event.isAccess : Event → Bool
  | .store _ | .load _ => true
  | .log _ => false

def Observed.accesses (s : Observed) : List Event := s.events.toList.filter Event.isAccess

theorem Observed.accesses_drained (s : Observed) : s.drained.2.accesses ≠ [] := by
  have hlook (t : Observed) (r : Reading) : (t.note (.load r)).accesses ≠ [] := by
    simp [accesses, note, Event.isAccess]
  change Observed.accesses (if s.usart.txInterrupt then _ else _ : Bool × Observed).2 ≠ []
  split
  · exact hlook s _
  · exact hlook _ _

namespace Port

/-- A wait for the output would access no register, however long it goes on. -/
def Silent (p : Port) : Prop := ∀ polls, (p.observe.flushFor polls).accesses = []

theorem silent_iff (p : Port) : p.Silent ↔ p.written = false := by
  constructor
  · intro h
    cases hw : p.written with
    | false => rfl
    | true =>
      have hnone : (p.observe.flushFor 0).accesses = [] := h 0
      rw [Observed.flushFor, if_pos (show p.observe.written = true from hw)] at hnone
      exact absurd hnone p.observe.accesses_drained
  · intro hw polls
    rw [Observed.flushFor, if_neg (by simp [hw])]
    rfl

theorem step_flush_of_silent {p : Port} (h : p.Silent) :
    p.step (.call .flush) = some ⟨.done, p, []⟩ := by
  have hw : ¬p.observe.written = true := by simp [(silent_iff p).1 h]
  rw [step, Observed.runStep, Observed.runCall, Observed.flush, if_neg hw]
  rfl

theorem events_flush {p : Port} {o : Outcome} (h : p.step (.call .flush) = some o) :
    o.events.filter Event.isAccess = [] ↔ p.Silent := by
  constructor
  · intro hnone
    obtain ⟨⟨a, t⟩, ht, e⟩ := Option.map_eq_some_iff.1 h
    obtain ⟨r, hr, e'⟩ := Option.map_eq_some_iff.1 ht
    cases e
    cases e'
    rw [silent_iff]
    cases hw : p.written with
    | false => rfl
    | true =>
      obtain ⟨u, hu⟩ := p.observe.exists_pollFor_eq Observed.drained p.observe.patience
      have hlast := Observed.flushFor_of_flush hr
      rw [Observed.flushFor, if_pos (show p.observe.written = true from hw), hu] at hlast
      exact absurd hnone (hlast ▸ u.accesses_drained)
  · intro hs
    rw [step_flush_of_silent hs] at h
    cases h
    rfl

variable {allowed : Port → Step → Bool} {p q : Port} {st : Step} {o : Outcome}
  {h : List (Step × Outcome)}

theorem written_eq_of_step (ho : p.step st = some o) :
    o.port.written =
      (!st.switches o.answer && (p.written || !(st.accepted o.answer).isEmpty)) := by
  obtain ⟨t, ht, hport, _⟩ := events_of_step ho
  rw [← hport]
  exact Observed.written_of_runStep ht

theorem Executes.written_iff (he : Executes allowed p h q) {bs : List UInt8}
    (hp : p.written = true ↔ bs ≠ []) : q.written = true ↔ acceptedSince bs h ≠ [] := by
  induction he generalizing bs with
  | nil => exact hp
  | @cons p q st o h _ hst _ ih =>
    refine ih ?_
    rw [written_eq_of_step hst]
    cases st.switches o.answer with
    | true => simp
    | false => simp [hp, List.append_eq_nil_iff, or_iff_not_imp_left]

/-- The wait for the output is silent exactly if no byte was accepted since the port was made or
last switched on or off, whoever else accesses the registers. A step that neither accepts a byte nor
switches the port, be it refused, a poll, a handler or a tick, changes nothing about that. -/
theorem flush_silent_iff {rxSlots txSlots : Nat} {clockHz : UInt32} {trim : Int8}
    {freeRunning : Bool} {hrx : 2 ≤ rxSlots} {htx : 2 ≤ txSlots}
    (he : Executes (fun _ _ => true)
      (Port.new rxSlots txSlots clockHz trim freeRunning hrx htx) h p) :
    (p.Silent ↔ acceptedSince [] h = []) ∧
    (p.Silent → p.step (.call .flush) = some ⟨.done, p, []⟩) ∧
    (∀ o, p.step (.call .flush) = some o →
      (o.events.filter Event.isAccess = [] ↔ p.Silent)) ∧
    ∀ st o, p.step st = some o → st.switches o.answer = false → st.accepted o.answer = [] →
      (o.port.Silent ↔ p.Silent) := by
  refine ⟨?_, step_flush_of_silent, fun o ho => events_flush ho, fun st o ho hs ha => ?_⟩
  · have hw : p.written = true ↔ acceptedSince [] h ≠ [] := he.written_iff (by simp [Port.new])
    rw [silent_iff, ← Bool.not_eq_true, hw, not_not]
  · rw [silent_iff, silent_iff, written_eq_of_step ho, hs, ha]
    simp

def idledTraffic : List Step :=
  [.call (.enable 9600 .standard), .call (.write 1), .line .tick, .call .disable,
    .call (.enable 0 .standard), .call .pollTx, .call .onTxEmpty, .call .onRxComplete,
    .usart (.store (.data 9)), .line .tick]

theorem flush_silent_iff_idled :
    (∃ h p, Executes (fun _ _ => true) (Port.new 2 2) h p ∧ h.map Prod.fst = idledTraffic ∧
      accepted h = [1] ∧ acceptedSince [] h = [] ∧ p.Silent ∧
      p.step (.call .flush) = some ⟨.done, p, []⟩) ∧
    ∃ h p o, Executes (fun _ _ => true) (Port.new 2 2) h p ∧
      h.map Prod.fst = idledTraffic ++ [.call (.writeBytes [2, 3, 4])] ∧
      acceptedSince [] h = [2, 3, 4] ∧ ¬p.Silent ∧
      p.step (.call (.tryWrite 5)) = some o ∧ o.answer = .wouldBlock ∧ ¬o.port.Silent := by
  constructor
  · obtain ⟨p, _, he⟩ := exists_executes (fun _ _ => true) (Port.new 2 2) idledTraffic
      (by decide +kernel)
    have hnone : acceptedSince [] ((Port.new 2 2).history idledTraffic) = [] := by decide +kernel
    obtain ⟨hiff, hflush, _, _⟩ := flush_silent_iff he
    have hs := hiff.2 hnone
    exact ⟨_, p, he, by decide +kernel, by decide +kernel, hnone, hs, hflush hs⟩
  · obtain ⟨p, hp, he⟩ := exists_executes (fun _ _ => true) (Port.new 2 2)
      (idledTraffic ++ [.call (.writeBytes [2, 3, 4])]) (by decide +kernel)
    have hstate : ((Port.new 2 2).after (idledTraffic ++ [.call (.writeBytes [2, 3, 4])])).all
        (fun q => (q.step (.call (.tryWrite 5))).any (·.answer = .wouldBlock)) = true := by
      decide +kernel
    rw [hp, Option.all_some] at hstate
    obtain ⟨o, ho, hans⟩ := (Option.any_eq_true _ _).1 hstate
    have ha : o.answer = .wouldBlock := of_decide_eq_true hans
    have hsome : acceptedSince [] ((Port.new 2 2).history
        (idledTraffic ++ [.call (.writeBytes [2, 3, 4])])) = [2, 3, 4] := by decide +kernel
    obtain ⟨hiff, _, _, hkept⟩ := flush_silent_iff he
    have hs : ¬p.Silent := by
      rw [hiff, hsome]
      exact List.cons_ne_nil _ _
    refine ⟨_, p, o, he, by decide +kernel, hsome, hs, ho, ha, ?_⟩
    rw [hkept _ o ho rfl (by rw [ha]; rfl)]
    exact hs

example (baud : UInt32) (frame : FrameWord) (e : SerialError) (b : UInt8) (left : Option UInt8) :
    [(Step.call (.enable baud frame), Answer.failed e), (.call (.tryWrite b), .wouldBlock),
      (.call .pollTx, .done), (.call .onTxEmpty, .done), (.call .onRxComplete, .done),
      (.line .tick, .byte? left)].all
        (fun x => !x.1.switches x.2 && (x.1.accepted x.2).isEmpty) = true := rfl

end Port

end SerialPort
