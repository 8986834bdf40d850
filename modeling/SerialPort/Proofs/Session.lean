import SerialPort.Proofs.InStep
import SerialPort.Proofs.Reception

namespace SerialPort

/-- The steps that leave the registers to the port and bring bytes in only through the line, whose
handler takes them at once. -/
def Port.Step.harnessed : Port.Step → Bool
  | .usart (.receive ..) => false
  | st => st.offRegisters

theorem Port.Step.offRegisters_of_harnessed {st : Port.Step} (h : st.harnessed = true) :
    st.offRegisters = true := by
  unfold harnessed at h
  split at h
  · cases h
  · exact h

namespace Observed

theorem follows_onRxComplete {s : Observed} (hs : s.Aligned) :
    ∃ rs q, Follows s rs q s.onRxComplete ∧ Inbox.Same s.inbox q := by
  have hport : s.fetched.toPort = s.toPort := by
    change { s.toPort with usart := { s.usart with received := none } } = s.toPort
    rw [← hs.received]
  have hrec : s.fetched.records = s.records :=
    (records_note_load _ _).trans (records_note_load _ _)
  have hd := follows_of_toPort hs hport hrec
  rw [onRxComplete_eq, Usart.parityError, hs.received]
  cases hp : s.rx.push? s.waitingByte with
  | none => exact ⟨_, _, hd.log rfl, ⟨rfl, rfl, rfl⟩⟩
  | some rx =>
    rw [← hport] at hp
    exact ⟨_, _, follows_push hd hp, ⟨rfl, rfl, rfl⟩⟩

theorem follows_streamRead {s t : Observed} (hs : s.Aligned) {buffer bs : List UInt8} {n : Nat}
    (h : s.streamRead buffer = some (n, bs, t)) :
    ∃ rs q, Follows s rs q t ∧ Inbox.Same s.inbox q := by
  obtain ⟨_, _, hf⟩ := follows_readAvailable hs buffer
  rw [streamRead_eq_some h] at hf
  exact ⟨_, _, hf, ⟨rfl, rfl, rfl⟩⟩

theorem follows_readExactWithin {s t : Observed} (hs : s.Aligned) {wanted reads : Nat}
    {bs : List UInt8} (h : s.readExactWithin wanted reads = some (bs, t)) :
    ∃ rs q, Follows s rs q t ∧ Inbox.Same s.inbox q := by
  have hrefl : Follows s [] s.inbox s := follows_of_toPort hs rfl rfl
  induction reads generalizing s wanted bs with
  | zero =>
    rw [readExactWithin] at h
    split at h <;> cases h
    exact ⟨_, _, hrefl, ⟨rfl, rfl, rfl⟩⟩
  | succ reads ih =>
    rw [readExactWithin] at h
    split at h
    · cases h
      exact ⟨_, _, hrefl, ⟨rfl, rfl, rfl⟩⟩
    · obtain ⟨⟨n, buffer, u⟩, hr, h⟩ := Option.bind_eq_some_iff.1 h
      obtain ⟨⟨rest, v⟩, hx, h⟩ := Option.bind_eq_some_iff.1 h
      cases h
      obtain ⟨_, _, hf, hsame⟩ := follows_streamRead hs hr
      obtain ⟨_, _, hf', hsame'⟩ := ih hf.aligned hx (follows_of_toPort hf.aligned rfl rfl)
      rw [hf.inbox] at hsame'
      exact ⟨_, _, hf.trans hf', hsame.trans hsame'⟩

theorem follows_of_harnessed {s t : Observed} {st : Port.Step} {a : Answer}
    (hl : st.harnessed = true) (hs : s.Aligned) (h : s.runStep st = some (a, t)) :
    ∃ rs q, Follows s rs q t ∧ Inbox.Same s.inbox q := by
  cases hv : st.served with
  | true =>
    have hm := mirrors_of_runStep hv hs h
    exact ⟨_, _, hm.follows, Inbox.same_step _ _⟩
  | false =>
    cases st with
    | call c =>
      cases c with
      | onRxComplete =>
        cases h
        exact follows_onRxComplete hs
      | streamRead size =>
        obtain ⟨⟨n, bs, u⟩, hr, e⟩ := Option.map_eq_some_iff.1 h
        cases e
        exact follows_streamRead hs hr
      | readExact size =>
        obtain ⟨⟨bs, u⟩, hr, e⟩ := Option.map_eq_some_iff.1 h
        cases e
        exact follows_readExactWithin hs hr
      | _ => cases hv
    | line e =>
      cases e with
      | readWhile size b =>
        obtain ⟨⟨n, bs, u⟩, hr, e⟩ := Option.map_eq_some_iff.1 h
        cases e
        obtain ⟨_, hf⟩ := follows_inject hs b false
        obtain ⟨_, _, hf', hsame⟩ := follows_streamRead hf.aligned hr
        rw [hf.inbox] at hsame
        exact ⟨_, _, hf.trans hf', (Inbox.same_arrive _ b false).trans hsame⟩
      | _ => cases hv
    | usart op =>
      cases op with
      | tick | wire | takeWire | freeRunning => cases hv
      | _ => cases hl

theorem capacity_tx_onTxEmpty (s : Observed) : s.onTxEmpty.tx.capacity = s.tx.capacity := by
  cases hp : s.tx.pop? with
  | none => rw [toPort_onTxEmpty_of_none hp ((Ring.pop?_eq_none_iff _).1 hp)]
  | some popped =>
    rw [toPort_onTxEmpty_of_some hp]
    exact congrArg (· - 1) (Ring.size_pop hp)

theorem Transmits.capacity_tx {s t : Observed} {bs : List UInt8} (h : Transmits s bs t) :
    t.tx.capacity = s.tx.capacity := by
  induction h with
  | refl | look | shift => rfl
  | trans _ _ ih ih' => exact ih'.trans ih
  | serve s => exact capacity_tx_onTxEmpty s
  | send s b =>
    change (s.load b).tx.capacity = _
    rw [toPort_load]
  | queue s b tx _ hp => exact congrArg (· - 1) (Ring.size_push hp)

theorem retire_cases {s r : Observed} (h : s.retire = some r) :
    ∃ u, Transmits s [] u ∧ (r = u ∨ r = u.switchOff.log .ended) := by
  rw [retire] at h
  split at h
  · obtain ⟨u, hu, rfl⟩ := disable_eq_some.1 h
    exact ⟨u, transmits_flush hu, .inr rfl⟩
  · cases h
    exact ⟨s, .refl s, .inl rfl⟩

theorem StepsTo.capacity_tx {s t : Observed} {st : Port.Step} {a : Answer} (h : StepsTo s st a t) :
    t.tx.capacity = s.tx.capacity := by
  cases h with
  | transmit _ ht => exact ht.capacity_tx
  | receive _ hv => exact congrArg (fun v : Port × List Record => v.1.tx.capacity) hv
  | look _ hp _ => rw [hp]
  | serve => exact capacity_tx_onTxEmpty s
  | enable _ hr =>
    rw [toPort_log, toPort_switchOn]
    obtain ⟨u, hu, rfl | rfl⟩ := retire_cases hr
    · exact hu.capacity_tx
    · exact hu.capacity_tx
  | disable hd =>
    obtain ⟨u, hu, rfl⟩ := disable_eq_some.1 hd
    rw [toPort_log, toPort_switchOff]
    exact (transmits_flush hu).capacity_tx
  | refuse | takeWire | freeRunning => rfl

end Observed

/-- What a port was made with. -/
structure Make where
  clockHz : UInt32
  trim : Int8
  rxCapacity : Nat
  txCapacity : Nat
  deriving DecidableEq

namespace Port

def make (p : Port) : Make where
  clockHz := p.clockHz
  trim := p.usart.trim
  rxCapacity := p.rx.capacity
  txCapacity := p.tx.capacity

/-- A port that was just switched on. Only the wire and the transmit-complete flag may tell what it
did before. -/
structure Begun (m : Make) (freeRunning : Bool) (d : UInt16) (f : FrameWord) (p : Port) :
    Prop where
  usart : p.usart = {
    receiver := true
    transmitter := true
    rxInterrupt := true
    divisor := d
    frame := f
    pinsRouted := true
    txPinDriven := true
    txComplete := p.usart.txComplete
    wire := p.usart.wire
    freeRunning
    trim := m.trim }
  make : p.make = m
  rx_nil : p.rx.toList = []
  tx_nil : p.tx.toList = []
  written : p.written = false
  state : p.state = .enabled

theorem Begun.alike {p q : Port} {m : Make} {freeRunning : Bool} {d : UInt16} {f : FrameWord}
    (hp : p.Begun m freeRunning d f) (hq : q.Begun m freeRunning d f) (hw : p.usart.wire = []) :
    p.Alike q.usart.wire false q := by
  have hu : q.usart = { p.usart with
      wire := q.usart.wire ++ p.usart.wire
      txComplete := q.usart.txComplete } := by
    rw [hw, List.append_nil, hp.usart, ← hq.usart]
  have hm : p.make = q.make := hp.make.trans hq.make.symm
  exact {
    usart := .of_eq hu fun h => nomatch h
    clockHz := congrArg Make.clockHz hm
    rx := ⟨congrArg Make.rxCapacity hm, by rw [hp.rx_nil, hq.rx_nil]⟩
    tx := ⟨congrArg Make.txCapacity hm, by rw [hp.tx_nil, hq.tx_nil]⟩
    written := by rw [hp.written, hq.written]
    state := by rw [hp.state, hq.state] }

end Port

namespace Observed

theorem begun_switchOn {s r : Observed} (hs : s.Steady) (ha : s.Aligned)
    (hr : s.readTrim.2.retire = some r) (baud : UInt32) (d : UInt16) (f : FrameWord) :
    ((r.switchOn d f).log (.begun baud d f)).Begun s.make s.usart.freeRunning d f := by
  have hq := (retired_retire (s := s.readTrim.2) hs hr).switchOn d f
  have hf := follows_enable ha hr baud d f
  obtain ⟨htx, hfree⟩ : r.tx.capacity = s.tx.capacity ∧
      r.usart.freeRunning = s.usart.freeRunning := by
    obtain ⟨u, hu, rfl | rfl⟩ := retire_cases hr
    · exact ⟨(hu.capacity_tx :), (freeRunning_of_transmits hu :)⟩
    · rw [toPort_log, toPort_switchOff]
      exact ⟨(hu.capacity_tx :), (freeRunning_of_transmits hu :)⟩
  obtain ⟨hdata, hshift⟩ := (Usart.inFlight_eq_nil_iff _).1 (List.append_eq_nil_iff.1 hq.pending).1
  have hreceived := hf.aligned.received
  have hinbox := hf.inbox
  have hwritten := hq.written
  rw [toPort_log] at hreceived hinbox ⊢
  rw [toPort_switchOn] at hdata hshift hreceived hinbox hwritten ⊢
  have hclock : r.clockHz = s.clockHz := congrArg Inbox.clockHz hinbox
  have htrim : r.usart.trim = s.usart.trim := congrArg Inbox.trim hinbox
  have hrx : r.rx.capacity = s.rx.capacity := congrArg Inbox.capacity hinbox
  refine ⟨?_, ?_, r.rx.toList_reset, r.tx.toList_reset, hwritten, rfl⟩
  · dsimp only [Port.make] at hdata hshift hreceived ⊢
    rw [hdata, hshift, hreceived, hfree, htrim]
  · rw [Port.make, Port.make, ← hclock, ← htrim, ← hrx, ← htx]
    rfl

end Observed

namespace Port

variable {p q : Port} {h : List (Step × Outcome)}

theorem make_of_step {st : Step} {o : Outcome} (hl : st.harnessed = true) (ha : p.Aligned)
    (ho : p.step st = some o) : o.port.Aligned ∧ o.port.make = p.make := by
  obtain ⟨t, ht, hport, _⟩ := observe_of_step ho
  obtain ⟨_, _, hf, hsame⟩ := Observed.follows_of_harnessed (s := p.observe) hl ha ht
  have htx := (Observed.stepsTo_of_runStep (Step.offRegisters_of_harnessed hl) ht).capacity_tx
  have hi := hf.inbox
  have hal := hf.aligned
  rw [hport] at htx hi hal
  rw [← hi] at hsame
  have hclock : o.port.clockHz = p.clockHz := hsame.clockHz
  have htrim : o.port.usart.trim = p.usart.trim := hsame.trim
  have hrx : o.port.rx.capacity = p.rx.capacity := hsame.capacity
  refine ⟨hal, ?_⟩
  rw [make, make, hclock, htrim, hrx, htx]
  rfl

theorem Executes.make_eq (he : Executes (fun _ st => st.harnessed) p h q) (hp : p.Aligned) :
    q.Aligned ∧ q.make = p.make := by
  refine he.keeps (P := fun r => r.Aligned ∧ r.make = p.make) (fun r st o hl hr ho => ?_) ⟨hp, rfl⟩
  obtain ⟨ha, hm⟩ := make_of_step hl hr.1 ho
  exact ⟨ha, hm.trans hr.2⟩

theorem begun_of_step {baud : UInt32} {frame : FrameWord} {o : Outcome} (hs : p.Steady)
    (ha : p.Aligned) (ho : p.step (.call (.enable baud frame)) = some o) (hok : o.answer = .ok) :
    ∃ d, Baud.divisor p.clockHz baud p.usart.trim = .ok d ∧ o.port.Steady ∧
      o.port.Begun p.make p.usart.freeRunning d frame := by
  have hl : Step.offRegisters (.call (.enable baud frame)) = true := rfl
  obtain ⟨t, ht, hport, _⟩ := stepsTo_of_step hl ho
  have hst := ht.steady hs
  rw [hok] at ht
  rw [← hport]
  cases ht with
  | enable hd hr => exact ⟨_, hd, hst, Observed.begun_switchOn hs ha hr baud _ frame⟩
  | transmit hk | receive hk | look hk => cases hk

theorem step_enable_port {baud : UInt32} {d : UInt16} (hw : p.written = false)
    (hd : Baud.divisor p.clockHz baud p.usart.trim = .ok d) (frame : FrameWord) :
    ∃ o, p.step (.call (.enable baud frame)) = some o ∧ o.answer = .ok ∧
      o.port = (p.observe.readTrim.2.switchOn d frame).toPort := by
  have hr : p.observe.readTrim.2.retire = some p.observe.readTrim.2 := by
    rw [Observed.retire, Observed.toPort_readTrim, Observed.toPort_observe, hw]
    rfl
  rw [step_enable_eq, hd, hr]
  exact ⟨_, rfl, rfl, rfl⟩

theorem step_enable_ok {baud : UInt32} {d : UInt16} (hw : p.written = false)
    (hd : Baud.divisor p.clockHz baud p.usart.trim = .ok d) (frame : FrameWord) :
    ∃ o, p.step (.call (.enable baud frame)) = some o ∧ o.answer = .ok ∧
      o.port.usart.wire = p.usart.wire := by
  obtain ⟨o, ho, hok, hport⟩ := step_enable_port hw hd frame
  refine ⟨o, ho, hok, ?_⟩
  rw [hport, Observed.toPort_switchOn]
  rfl

/-- A port that is switched on, whatever it did before, does in every run what a new port does that
is switched on likewise. -/
theorem enable_starts_afresh {rxSlots txSlots : Nat} {clockHz : UInt32} {trim : Int8}
    {freeRunning : Bool} {hrx : 2 ≤ rxSlots} {htx : 2 ≤ txSlots} {baud : UInt32}
    {frame : FrameWord} {o : Outcome}
    (he : Executes (fun _ st => st.harnessed)
      (Port.new rxSlots txSlots clockHz trim freeRunning hrx htx) h p)
    (ho : p.step (.call (.enable baud frame)) = some o) (hok : o.answer = .ok) :
    ∃ o', (Port.new rxSlots txSlots clockHz trim p.usart.freeRunning hrx htx).step
        (.call (.enable baud frame)) = some o' ∧ o'.answer = .ok ∧
      ∀ sts : List Step, (∀ st ∈ sts, st.offRegisters = true) →
        InStep o.port.usart.wire false o'.port o.port sts := by
  -- Both ports are just switched on and of one make, so only the wire and the flag can differ.
  have hs := (he.mono fun _ _ => Step.offRegisters_of_harnessed).steady (steady_new ..)
  obtain ⟨ha, hm⟩ := he.make_eq ⟨rfl, rfl, rfl, rfl⟩
  obtain ⟨d, hd, _, hb⟩ := begun_of_step hs ha ho hok
  have hclock : p.clockHz = clockHz := congrArg Make.clockHz hm
  have htrim : p.usart.trim = trim := congrArg Make.trim hm
  rw [hclock, htrim] at hd
  obtain ⟨o', ho', hok', hw'⟩ := step_enable_ok
    (p := Port.new rxSlots txSlots clockHz trim p.usart.freeRunning hrx htx) rfl hd frame
  obtain ⟨d', hd', hs', hb'⟩ := begun_of_step (steady_new ..) ⟨rfl, rfl, rfl, rfl⟩ ho' hok'
  have hdd : d' = d := Except.ok.inj (hd'.symm.trans hd)
  subst hdd
  rw [hm] at hb
  refine ⟨o', ho', hok', fun sts hl => (hb'.alike hb hw').inStep hs' (fun hwr => ?_) hl⟩
  rw [hb'.written] at hwr
  cases hwr

def usedTraffic : List Step :=
  [.call (.enable 9600 .standard), .call (.writeBytes [1, 2]), .line (.injectAll [3, 4]),
    .line .tick, .line .tick]

def nextSession : List Step :=
  [.call .flush, .usart .wire, .call (.write 5), .call (.tryWrite 6), .line .tick,
    .line (.inject 7 false), .call .read, .usart .takeWire, .call .flush, .call .state]

theorem enable_starts_afresh_reused :
    ∃ h p o o', Executes (fun _ st => st.harnessed) (Port.new 2 3) h p ∧
      h.map Prod.fst = usedTraffic ∧ p.step (.call (.enable 19200 .standard)) = some o ∧
      o.answer = .ok ∧ (Port.new 2 3).step (.call (.enable 19200 .standard)) = some o' ∧
      o'.answer = .ok ∧ o.port.usart.txComplete = true ∧
      InStep [1, 2] false o'.port o.port nextSession := by
  obtain ⟨p, hp, he⟩ := exists_executes (fun _ st => st.harnessed) (Port.new 2 3) usedTraffic
    (by decide +kernel)
  have hstate : ((Port.new 2 3).after usedTraffic).all (fun q => q.usart.freeRunning = false ∧
      (q.step (.call (.enable 19200 .standard))).any (fun o =>
        o.answer = .ok ∧ o.port.usart.txComplete = true ∧ o.port.usart.wire = [1, 2])) = true := by
    decide +kernel
  rw [hp, Option.all_some, decide_eq_true_iff] at hstate
  obtain ⟨hfree, hstep⟩ := hstate
  obtain ⟨o, ho, hout⟩ := (Option.any_eq_true _ _).1 hstep
  rw [decide_eq_true_iff] at hout
  obtain ⟨hok, hcomplete, hwire⟩ := hout
  obtain ⟨o', ho', hok', hruns⟩ := enable_starts_afresh he ho hok
  have hnext := hruns nextSession (by decide)
  rw [hfree] at ho'
  rw [hwire] at hnext
  exact ⟨_, p, o, o', he, by decide +kernel, ho, hok, ho', hok', hcomplete, hnext⟩

end Port

end SerialPort
