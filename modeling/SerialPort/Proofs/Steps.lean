import SerialPort.Proofs.Switching

namespace SerialPort

/-- Whether a step leaves the registers to the port. -/
def Port.Step.offRegisters : Port.Step → Bool
  | .usart op => op.isLine
  | _ => true

theorem Port.offRegisters_of_orderly {p : Port} {st : Port.Step} (h : p.orderly st = true) :
    st.offRegisters = true := by
  cases st with
  | call c => rfl
  | line e => rfl
  | usart op => exact h

namespace Observed

inductive StepsTo (s : Observed) : Port.Step → Answer → Observed → Prop
  | transmit {st : Port.Step} {a : Answer} {t : Observed} : st.side = .transmit →
      Transmits s (st.accepted a) t → StepsTo s st a t
  | receive {st : Port.Step} {a : Answer} {t : Observed} : st.side = .receive →
      t.transmitView = s.transmitView → StepsTo s st a t
  | look {st : Port.Step} {a : Answer} {t : Observed} : st.side = .look →
      t.toPort = s.toPort → t.records = s.records → StepsTo s st a t
  | serve : StepsTo s (.call .onTxEmpty) .done s.onTxEmpty
  | refuse {baud : UInt32} {frame : FrameWord} {e : SerialError} :
      Baud.divisor s.clockHz baud s.usart.trim = .error e →
      StepsTo s (.call (.enable baud frame)) (.failed e) s.readTrim.2
  | enable {baud : UInt32} {frame : FrameWord} {d : UInt16} {r : Observed} :
      Baud.divisor s.clockHz baud s.usart.trim = .ok d → s.readTrim.2.retire = some r →
      StepsTo s (.call (.enable baud frame)) .ok ((r.switchOn d frame).log (.begun baud d frame))
  | disable {r : Observed} : s.disable = some r → StepsTo s (.call .disable) .done r
  | takeWire : StepsTo s (.usart .takeWire) (.bytes s.usart.wire)
      { s with usart := { s.usart with wire := [] } }
  | freeRunning (on : Bool) : StepsTo s (.usart (.freeRunning on)) .done
      { s with usart := { s.usart with freeRunning := on } }

@[simp] theorem toPort_readTrim (s : Observed) : s.readTrim.2.toPort = s.toPort := rfl

@[simp] theorem records_readTrim (s : Observed) : s.readTrim.2.records = s.records :=
  records_note_load s _

theorem enable_eq (s : Observed) (baud : UInt32) (frame : FrameWord) :
    s.enable baud frame =
      match Baud.divisor s.clockHz baud s.usart.trim with
      | .error e => some (.error e, s.readTrim.2)
      | .ok d => s.readTrim.2.retire.map fun r =>
        (.ok (), (r.switchOn d frame).log (.begun baud d frame)) := rfl

theorem stepsTo_enable {s t : Observed} {baud : UInt32} {frame : FrameWord} {a : Answer}
    (h : s.runCall (.enable baud frame) = some (a, t)) :
    StepsTo s (.call (.enable baud frame)) a t := by
  obtain ⟨⟨r, u⟩, hr, e⟩ := Option.map_eq_some_iff.1 h
  cases e
  rw [enable_eq] at hr
  cases hd : Baud.divisor s.clockHz baud s.usart.trim with
  | error e =>
    rw [hd] at hr
    cases hr
    exact .refuse hd
  | ok d =>
    rw [hd] at hr
    obtain ⟨v, hv, e⟩ := Option.map_eq_some_iff.1 hr
    cases e
    exact .enable hd hv

theorem stepsTo_of_runStep {s t : Observed} {st : Port.Step} {a : Answer}
    (hl : st.offRegisters = true) (h : s.runStep st = some (a, t)) : StepsTo s st a t := by
  cases hk : st.side with
  | transmit => exact .transmit hk (transmits_of_runStep hk h)
  | receive => exact .receive hk (transmitView_of_runStep hk h)
  | look => exact .look hk (look_of_runStep hk h).1 (look_of_runStep hk h).2
  | control =>
    cases st with
    | call c =>
      cases c with
      | enable baud frame => exact stepsTo_enable h
      | disable =>
        obtain ⟨r, hd, e⟩ := Option.map_eq_some_iff.1 h
        cases e
        exact .disable hd
      | onTxEmpty =>
        cases h
        exact .serve
      | _ => cases hk
    | line e => cases e <;> cases hk
    | usart op =>
      cases op with
      | takeWire =>
        cases h
        exact .takeWire
      | freeRunning on =>
        cases h
        exact .freeRunning on
      | tick | receive | wire => cases hk
      | store | interruptEnabled | txEmpty | txComplete | parityError | readData => cases hl

/-- The handler may run when it is not due. -/
theorem StepsTo.steady {s t : Observed} {st : Port.Step} {a : Answer} (h : StepsTo s st a t)
    (hs : s.Steady) : t.Steady := by
  cases h with
  | transmit _ ht => exact (ht.sends hs).steady
  | receive _ hv => exact hs.of_transmitSide (congrArg Prod.fst hv)
  | look _ hp _ => exact hp ▸ hs
  | serve => exact steady_onTxEmpty hs
  | refuse => exact hs
  | @enable baud frame d r _ hr =>
    exact ((retired_retire (s := s.readTrim.2) hs hr).switchOn d frame).steady
  | disable hd => exact (retired_disable hs hd).steady
  | takeWire | freeRunning => exact ⟨hs.1, hs.2, hs.3, hs.4⟩

end Observed

namespace Port

theorem events_of_step {p : Port} {st : Step} {o : Outcome} (h : p.step st = some o) :
    ∃ t, p.observe.runStep st = some (o.answer, t) ∧ t.toPort = o.port ∧
      t.events.toList = o.events := by
  obtain ⟨⟨a, t⟩, ht, e⟩ := Option.map_eq_some_iff.1 h
  cases e
  exact ⟨t, ht, rfl, rfl⟩

theorem observe_of_step {p : Port} {st : Step} {o : Outcome} (h : p.step st = some o) :
    ∃ t, p.observe.runStep st = some (o.answer, t) ∧ t.toPort = o.port ∧ t.records = o.records := by
  obtain ⟨t, ht, hport, he⟩ := events_of_step h
  exact ⟨t, ht, hport, congrArg (List.filterMap Event.record?) he⟩

theorem stepsTo_of_step {p : Port} {st : Step} {o : Outcome} (hl : st.offRegisters = true)
    (h : p.step st = some o) :
    ∃ t, Observed.StepsTo p.observe st o.answer t ∧ t.toPort = o.port ∧ t.records = o.records := by
  obtain ⟨t, ht, hport, hrec⟩ := observe_of_step h
  exact ⟨t, Observed.stepsTo_of_runStep hl ht, hport, hrec⟩

/-- Whether a baud rate can be had is settled before anything is written or waited for. -/
theorem step_enable_eq (p : Port) (baud : UInt32) (frame : FrameWord) :
    p.step (.call (.enable baud frame)) =
      match Baud.divisor p.clockHz baud p.usart.trim with
      | .error e => some ⟨.failed e, p, [.load (.trim p.usart.trim)]⟩
      | .ok d => p.observe.readTrim.2.retire.map fun r =>
        ⟨.ok, (r.switchOn d frame).toPort,
          ((r.switchOn d frame).log (.begun baud d frame)).events.toList⟩ := by
  rw [step, Observed.runStep, Observed.runCall, Observed.enable_eq, Observed.toPort_observe]
  cases Baud.divisor p.clockHz baud p.usart.trim with
  | error e => rfl
  | ok d =>
    rw [Option.map_map, Option.map_map]
    rfl

variable {allowed : Port → Step → Bool} {p q : Port} {h : List (Step × Outcome)}

theorem Executes.mono {wider : Port → Step → Bool}
    (hw : ∀ p st, allowed p st = true → wider p st = true) (he : Executes allowed p h q) :
    Executes wider p h q := by
  induction he with
  | nil => exact .nil _
  | cons hl hst _ ih => exact .cons (hw _ _ hl) hst ih

theorem Executes.keeps {P : Port → Prop}
    (hstep : ∀ p st o, allowed p st = true → P p → p.step st = some o → P o.port)
    (he : Executes allowed p h q) (hp : P p) : P q := by
  induction he with
  | nil => exact hp
  | cons hl hst _ ih => exact ih (hstep _ _ _ hl hp hst)

theorem Executes.steady (he : Executes (fun _ st => st.offRegisters) p h q) (hp : p.Steady) :
    q.Steady := by
  refine he.keeps (fun p st o hl hs hst => ?_) hp
  obtain ⟨t, ht, hport, _⟩ := stepsTo_of_step hl hst
  exact hport ▸ ht.steady hs

end Port

end SerialPort
