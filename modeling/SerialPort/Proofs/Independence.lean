import SerialPort.Proofs.Projections
import SerialPort.Proofs.Written

namespace SerialPort

namespace Observed

theorem receiveSide_switchOff {s t : Observed} (h : s.receiveSide = t.receiveSide) :
    s.switchOff.receiveSide = t.switchOff.receiveSide := by
  have hoff (u : Observed) :
      u.switchOff.receiveSide = u.receiveSide.observe.switchOff.receiveSide := rfl
  rw [hoff s, hoff t, h]

theorem receiveSide_switchOn {s t : Observed} (h : s.receiveSide = t.receiveSide) (d : UInt16)
    (f : FrameWord) : (s.switchOn d f).receiveSide = (t.switchOn d f).receiveSide := by
  have hon (u : Observed) :
      (u.switchOn d f).receiveSide = (u.receiveSide.observe.switchOn d f).receiveSide := rfl
  rw [hon s, hon t, h]

theorem receiveSide_switchOff_switchOn {s : Observed} (hr : s.usart.received = none) (d : UInt16)
    (f : FrameWord) :
    ((s.switchOff.log .ended).switchOn d f).receiveSide = (s.switchOn d f).receiveSide := by
  change ({ s with usart := { s.usart with received := none } }.switchOn d f).receiveSide = _
  rw [← hr]

theorem receiveSide_retire_switchOn {s r : Observed} (ha : s.Aligned) (hr : s.retire = some r)
    (d : UInt16) (f : FrameWord) : (r.switchOn d f).receiveSide = (s.switchOn d f).receiveSide := by
  obtain ⟨u, hu, hor⟩ := retire_cases hr
  have hs : u.receiveSide = s.receiveSide := congrArg Prod.fst hu.receiveView_eq
  have hn : u.usart.received = none :=
    (congrArg (fun p : Port => p.usart.received) hs).trans ha.received
  rw [← receiveSide_switchOn hs]
  rcases hor with rfl | rfl
  · rfl
  · exact receiveSide_switchOff_switchOn hn d f

end Observed

namespace Port

/-- Two outcomes that nobody tells apart who sees no more of the port than a part. -/
structure Outcome.Same (part : Port → Port) (o o' : Outcome) : Prop where
  answer : o.answer = o'.answer
  events : o.events = o'.events
  port : part o.port = part o'.port

variable {p p' q : Port} {h : List (Step × Outcome)} {st : Step} {o : Outcome}

theorem exists_same {part : Port → Port}
    (hs : ∀ p : Port, (part p).step st = (p.step st).map fun o => { o with port := part o.port })
    (hp : part p = part p') (ho : p.step st = some o) :
    ∃ o', p'.step st = some o' ∧ o.Same part o' := by
  have h := hs p
  rw [hp, hs p', ho] at h
  obtain ⟨o', ho', e⟩ := Option.map_eq_some_iff.1 h
  exact ⟨o', ho', (congrArg Outcome.answer e).symm, (congrArg Outcome.events e).symm,
    (congrArg Outcome.port e).symm⟩

/-- What the steps of one side keep on the one port, and all others on both, carries a run to the
run without the steps of that side. -/
theorem Executes.without {legal : Step → Bool} (k : Side) {R : Port → Port → Prop}
    {Q : Step → Outcome → Outcome → Prop}
    (hdrop : ∀ {p p' st o}, st.side = k → R p p' → legal st = true → p.step st = some o →
      R o.port p')
    (hkeep : ∀ {p p' st o}, st.side ≠ k → R p p' → legal st = true → p.step st = some o →
      ∃ o', p'.step st = some o' ∧ R o.port o'.port ∧ Q st o o')
    (he : Executes (fun _ st => legal st) p h q) (hr : R p p') :
    ∃ h' q', Executes (fun _ st => legal st) p' h' q' ∧
      List.Forall₂ (fun x y => x.1 = y.1 ∧ Q x.1 x.2 y.2) (h.filter (·.1.side ≠ k)) h' ∧
      R q q' := by
  induction he generalizing p' with
  | nil p => exact ⟨[], p', .nil p', .nil, hr⟩
  | @cons p q st o h hl hst _ ih =>
    by_cases hk : st.side = k
    · rw [List.filter_cons_of_neg (by simp [hk])]
      exact ih (hdrop hk hr hl hst)
    · rw [List.filter_cons_of_pos (by simp [hk])]
      obtain ⟨o', ho', hr', hq⟩ := hkeep hk hr hl hst
      obtain ⟨h', q', he', hf, hrq⟩ := ih hr'
      exact ⟨(st, o') :: h', q', .cons hl ho' he', .cons ⟨rfl, hq⟩ hf, hrq⟩

theorem transmitSide_of_step (hk : st.side = .receive) (ho : p.step st = some o) :
    o.port.transmitSide = p.transmitSide := by
  obtain ⟨t, ht, hport, _⟩ := events_of_step ho
  rw [← hport]
  exact congrArg Prod.fst (Observed.transmitView_of_runStep hk ht)

theorem step_transmitSide (hl : st.offRegisters = true) (hk : st.side ≠ .receive) (p : Port) :
    p.transmitSide.step st =
      (p.step st).map fun o => { o with port := o.port.transmitSide } := by
  have hr := p.observe.runStep_outward hl hk
  change p.transmitSide.observe.runStep st = _ at hr
  rw [step, step, hr, Option.map_map, Option.map_map]
  rfl

theorem Executes.without_receive (he : Executes (fun _ st => st.harnessed) p h q) :
    ∃ h' q', Executes (fun _ st => st.harnessed) p h' q' ∧
      List.Forall₂ (fun x y => x.1 = y.1 ∧ x.2.Same transmitSide y.2)
        (h.filter (·.1.side ≠ .receive)) h' ∧
      q.transmitSide = q'.transmitSide := by
  refine he.without .receive (R := fun p p' => p.transmitSide = p'.transmitSide)
    (Q := fun _ => Outcome.Same transmitSide) (fun hk hr _ ho => ?_) (fun hk hr hl ho => ?_) rfl
  · exact (transmitSide_of_step hk ho).trans hr
  · have hs := step_transmitSide (Step.offRegisters_of_harnessed hl) hk
    obtain ⟨o', ho', hsame⟩ := exists_same hs hr ho
    exact ⟨o', ho', hsame.port, hsame⟩

theorem step_receiveSide (hk : st.side = .receive) (p : Port) :
    p.receiveSide.step st = (p.step st).map fun o => { o with port := o.port.receiveSide } := by
  have hr := p.observe.runStep_inward hk
  change p.receiveSide.observe.runStep st = _ at hr
  rw [step, step, hr, Option.map_map, Option.map_map]
  rfl

theorem receiveSide_of_step (hk : st.side = .transmit) (ho : p.step st = some o) :
    o.port.receiveSide = p.receiveSide := by
  obtain ⟨t, ht, hport, _⟩ := events_of_step ho
  rw [← hport]
  exact congrArg Prod.fst (Observed.transmits_of_runStep hk ht).receiveView_eq

theorem written_of_step (hl : st.offRegisters = true) (hk : st.side ≠ .transmit)
    (hw : p.written = false) (ho : p.step st = some o) : o.port.written = false := by
  obtain ⟨t, ht, hport, _⟩ := stepsTo_of_step hl ho
  have h := ht.written_eq
  rw [Port.Step.accepted_eq_nil hk] at h
  rw [← hport, h]
  simp [hw]

theorem step_of_look (hk : st.side = .look) (p : Port) :
    ∃ o, p.step st = some o ∧ o.port = p := by
  cases st with
  | call c =>
    cases c with
    | state | isEnabled | clockHz | trim | availableForWrite | writeReady => exact ⟨_, rfl, rfl⟩
    | _ => cases hk
  | line e => cases e <;> cases hk
  | usart op =>
    cases op with
    | wire => exact ⟨_, rfl, rfl⟩
    | _ => cases hk

theorem step_disable_port (hw : p.written = false) :
    ∃ o, p.step (.call .disable) = some o ∧ o.port = (p.observe.switchOff.log .ended).toPort := by
  have hf : p.observe.flush = some p.observe := by
    rw [Observed.flush, Observed.toPort_observe, hw]
    rfl
  rw [step, Observed.runStep, Observed.runCall, Observed.disable, hf]
  exact ⟨_, rfl, rfl⟩

/-- To their readers the two ports are one, and the second has nothing to wait for when it is
switched off. -/
structure Muted (p p' : Port) : Prop where
  aligned : p.Aligned
  receiveSide : p.receiveSide = p'.receiveSide
  written : p'.written = false

theorem Muted.step_control (hm : Muted p p') (hl : st.harnessed = true) (hr : st.side ≠ .receive)
    (ht : st.side ≠ .transmit) (ho : p.step st = some o) :
    ∃ o', p'.step st = some o' ∧ o.port.receiveSide = o'.port.receiveSide := by
  obtain ⟨t, hst, hport, _⟩ := stepsTo_of_step (Step.offRegisters_of_harnessed hl) ho
  rw [← hport]
  generalize o.answer = a at hst
  have hclock : p.clockHz = p'.clockHz := (congrArg Port.clockHz hm.receiveSide :)
  have htrim : p.usart.trim = p'.usart.trim :=
    (congrArg (fun p : Port => p.usart.trim) hm.receiveSide :)
  cases hst with
  | transmit hk => exact absurd hk ht
  | receive hk => exact absurd hk hr
  | look hk hp =>
    obtain ⟨o', ho', hp'⟩ := step_of_look hk p'
    refine ⟨o', ho', ?_⟩
    rw [hp, hp']
    exact hm.receiveSide
  | serve =>
    have hp : p.observe.onTxEmpty.receiveSide = p.receiveSide :=
      congrArg Prod.fst (Observed.receiveView_onTxEmpty p.observe)
    have hp' : p'.observe.onTxEmpty.receiveSide = p'.receiveSide :=
      congrArg Prod.fst (Observed.receiveView_onTxEmpty p'.observe)
    exact ⟨_, rfl, hp.trans (hm.receiveSide.trans hp'.symm)⟩
  | @refuse baud frame e hd =>
    change Baud.divisor p.clockHz baud p.usart.trim = _ at hd
    rw [hclock, htrim] at hd
    obtain ⟨o', ho', _, hp'⟩ := step_enable_error hd frame
    refine ⟨o', ho', ?_⟩
    rw [hp']
    exact hm.receiveSide
  | @enable baud frame d r hd hret =>
    -- The first port may have to be switched off before; the second is not, as it did not send.
    change Baud.divisor p.clockHz baud p.usart.trim = _ at hd
    rw [hclock, htrim] at hd
    obtain ⟨o', ho', _, hp'⟩ := step_enable_port hm.written hd frame
    refine ⟨o', ho', ?_⟩
    rw [hp', Observed.toPort_log]
    exact (Observed.receiveSide_retire_switchOn (s := p.observe.readTrim.2) hm.aligned hret d
      frame).trans (Observed.receiveSide_switchOn hm.receiveSide d frame)
  | disable hd =>
    obtain ⟨u, hu, rfl⟩ := Observed.disable_eq_some.1 hd
    have hus : u.receiveSide = p.receiveSide :=
      congrArg Prod.fst (Observed.transmits_flush hu).receiveView_eq
    obtain ⟨o', ho', hp'⟩ := step_disable_port hm.written
    refine ⟨o', ho', ?_⟩
    rw [hp']
    exact Observed.receiveSide_switchOff (t := p'.observe) (hus.trans hm.receiveSide)
  | takeWire => exact ⟨_, rfl, hm.receiveSide⟩
  | freeRunning on =>
    have hf := congrArg (fun p : Port => { p with usart := { p.usart with freeRunning := on } })
      hm.receiveSide
    exact ⟨_, rfl, hf⟩

theorem Muted.step (hm : Muted p p') (hl : st.harnessed = true) (hk : st.side ≠ .transmit)
    (ho : p.step st = some o) :
    ∃ o', p'.step st = some o' ∧ Muted o.port o'.port ∧
      (st.side = .receive → o.Same Port.receiveSide o') := by
  have hal := (make_of_step hl hm.aligned ho).1
  have hoff := Step.offRegisters_of_harnessed hl
  by_cases hr : st.side = .receive
  · obtain ⟨o', ho', hsame⟩ := exists_same (step_receiveSide hr) hm.receiveSide ho
    exact ⟨o', ho', ⟨hal, hsame.port, written_of_step hoff hk hm.written ho'⟩, fun _ => hsame⟩
  · obtain ⟨o', ho', hport⟩ := hm.step_control hl hr hk ho
    exact ⟨o', ho', ⟨hal, hport, written_of_step hoff hk hm.written ho'⟩, fun h => absurd h hr⟩

theorem Executes.without_transmit (he : Executes (fun _ st => st.harnessed) p h q)
    (ha : p.Aligned) (hw : p.written = false) :
    ∃ h' q', Executes (fun _ st => st.harnessed) p h' q' ∧
      List.Forall₂ (fun x y => x.1 = y.1 ∧ x.2.port.receiveSide = y.2.port.receiveSide ∧
        (x.1.side = .receive → x.2.Same receiveSide y.2)) (h.filter (·.1.side ≠ .transmit)) h' ∧
      q.receiveSide = q'.receiveSide := by
  have hdrop {p p' : Port} {st : Step} {o : Outcome} (hk : st.side = .transmit) (hm : Muted p p')
      (hl : st.harnessed = true) (ho : p.step st = some o) : Muted o.port p' :=
    ⟨(make_of_step hl hm.aligned ho).1, (receiveSide_of_step hk ho).trans hm.receiveSide,
      hm.written⟩
  have hkeep {p p' : Port} {st : Step} {o : Outcome} (hk : st.side ≠ .transmit) (hm : Muted p p')
      (hl : st.harnessed = true) (ho : p.step st = some o) :
      ∃ o', p'.step st = some o' ∧ Muted o.port o'.port ∧
        o.port.receiveSide = o'.port.receiveSide ∧
        (st.side = .receive → o.Same receiveSide o') := by
    obtain ⟨o', ho', hm', hsame⟩ := hm.step hl hk ho
    exact ⟨o', ho', hm', hm'.receiveSide, hsame⟩
  obtain ⟨h', q', he', hf, hm⟩ := he.without .transmit (R := Muted)
    (Q := fun st o o' => o.port.receiveSide = o'.port.receiveSide ∧
      (st.side = .receive → o.Same receiveSide o')) hdrop hkeep ⟨ha, rfl, hw⟩
  exact ⟨h', q', he', hf, hm.receiveSide⟩

/-- In every run of a new port that ends, the steps that bring input in or take it can be left out,
and each other step still ends with the same answer and the same events and leaves the output as it
did; and so the other way round, with what goes out left out. -/
theorem input_and_output_independent {rxSlots txSlots : Nat} {clockHz : UInt32} {trim : Int8}
    {freeRunning : Bool} {hrx : 2 ≤ rxSlots} {htx : 2 ≤ txSlots}
    (he : Executes (fun _ st => st.harnessed)
      (Port.new rxSlots txSlots clockHz trim freeRunning hrx htx) h p) :
    (∃ h' p', Executes (fun _ st => st.harnessed)
        (Port.new rxSlots txSlots clockHz trim freeRunning hrx htx) h' p' ∧
      List.Forall₂ (fun x y => x.1 = y.1 ∧ x.2.Same transmitSide y.2)
        (h.filter (·.1.side ≠ .receive)) h' ∧
      p.transmitSide = p'.transmitSide) ∧
    ∃ h' p', Executes (fun _ st => st.harnessed)
        (Port.new rxSlots txSlots clockHz trim freeRunning hrx htx) h' p' ∧
      List.Forall₂ (fun x y => x.1 = y.1 ∧ x.2.port.receiveSide = y.2.port.receiveSide ∧
        (x.1.side = .receive → x.2.Same receiveSide y.2)) (h.filter (·.1.side ≠ .transmit)) h' ∧
      p.receiveSide = p'.receiveSide :=
  ⟨he.without_receive, he.without_transmit ⟨rfl, rfl, rfl, rfl⟩ rfl⟩

def duplexTraffic : List Step :=
  [.call (.enable 9600 .standard), .line (.inject 1 false), .call (.writeBytes [10, 11]),
    .line (.inject 2 true), .call (.tryWrite 12), .line .tick, .call .read, .call .hasData,
    .usart (.freeRunning true), .line (.inject 3 false), .call (.enable 19200 .standard),
    .line (.injectAll [4, 5, 6]), .call .flush, .call (.write 13), .call (.readAvailable 3),
    .call .availableForWrite, .call .disable, .usart .wire]

theorem input_and_output_independent_duplex :
    ∃ h p, Executes (fun _ st => st.harnessed) (Port.new 3 2) h p ∧
      h.map Prod.fst = duplexTraffic ∧
      (∃ h' p', Executes (fun _ st => st.harnessed) (Port.new 3 2) h' p' ∧
        List.Forall₂ (fun a y => a = y.2.answer)
          [.ok, .count 2, .ok, .byte? (some 10), .done, .ok, .done, .count 1, .count 1, .done,
            .bytes [10, 11, 12, 13]] h') ∧
      ∃ h' p', Executes (fun _ st => st.harnessed) (Port.new 3 2) h' p' ∧
        List.Forall₂ (fun a y => y.1.side = .receive → a = y.2.answer)
          [.ok, .flag true, .flag true, .byte? (some 1), .flag false, .done, .flag true, .ok,
            .count 3, .filled 2 [4, 5, 0], .count 1, .done, .bytes [10, 11, 12, 13]] h' := by
  obtain ⟨p, _, he⟩ := exists_executes (fun _ st => st.harnessed) (Port.new 3 2) duplexTraffic
    (by decide +kernel)
  obtain ⟨⟨h₁, p₁, he₁, hf₁, _⟩, h₂, p₂, he₂, hf₂, _⟩ := input_and_output_independent he
  refine ⟨_, p, he, by decide +kernel, ⟨h₁, p₁, he₁, ?_⟩, h₂, p₂, he₂, ?_⟩
  · have hkept : (((Port.new 3 2).history duplexTraffic).filter (·.1.side ≠ .receive)).map
        (·.2.answer) = [.ok, .count 2, .ok, .byte? (some 10), .done, .ok, .done, .count 1,
          .count 1, .done, .bytes [10, 11, 12, 13]] := by decide +kernel
    rw [← hkept, List.forall₂_map_left_iff]
    exact hf₁.imp fun _ _ h => h.2.answer
  · have hkept : (((Port.new 3 2).history duplexTraffic).filter (·.1.side ≠ .transmit)).map
        (·.2.answer) = [.ok, .flag true, .flag true, .byte? (some 1), .flag false, .done,
          .flag true, .ok, .count 3, .filled 2 [4, 5, 0], .count 1, .done,
          .bytes [10, 11, 12, 13]] := by decide +kernel
    rw [← hkept, List.forall₂_map_left_iff]
    exact hf₂.imp fun x y h hy => (h.2.2 (h.1 ▸ hy)).answer

end Port

end SerialPort
