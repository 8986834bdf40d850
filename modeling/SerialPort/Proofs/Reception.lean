import Mathlib.Data.List.Forall2
import SerialPort.Proofs.Inbox
import SerialPort.Proofs.Steps

namespace SerialPort

/-- The steps that leave the receive register to its handler and the handler to the line, and do not
wait for input. -/
def Port.Step.served : Port.Step → Bool
  | .call .onRxComplete | .call (.streamRead _) | .call (.readExact _) | .line (.readWhile ..) =>
    false
  | .usart op =>
    match op with
    | .tick | .wire | .takeWire | .freeRunning _ => true
    | _ => false
  | _ => true

def Port.inbox (p : Port) : Inbox where
  capacity := p.rx.capacity
  clockHz := p.clockHz
  trim := p.usart.trim
  enabled := p.state = .enabled
  unread := p.rx.toList

/-- Three enable bits agree with the lifecycle, and no byte waits in the transceiver. -/
structure Port.Aligned (p : Port) : Prop where
  receiver : p.usart.receiver = p.inbox.enabled
  transmitter : p.usart.transmitter = p.inbox.enabled
  rxInterrupt : p.usart.rxInterrupt = p.inbox.enabled
  received : p.usart.received = none

theorem Port.hasData_eq (p : Port) : p.hasData = !p.rx.toList.isEmpty := by
  rw [hasData, available, ← Ring.length_toList]
  cases p.rx.toList <;> rfl

namespace Observed

/-- From an aligned port to an aligned one: the inbox after it, and what was logged of bytes that
came in. -/
structure Follows (s : Observed) (rs : List Record) (q : Inbox) (t : Observed) : Prop where
  inbox : t.inbox = q
  aligned : t.Aligned
  records : t.records.filter Record.isReceive = s.records.filter Record.isReceive ++ rs

theorem Follows.trans {s t u : Observed} {rs rs' : List Record} {q q' : Inbox}
    (h : Follows s rs q t) (h' : Follows t rs' q' u) : Follows s (rs ++ rs') q' u := by
  refine ⟨h'.inbox, h'.aligned, ?_⟩
  rw [h'.records, h.records, List.append_assoc]

theorem follows_of_toPort {s t : Observed} (hs : s.Aligned) (hp : t.toPort = s.toPort)
    (hr : t.records = s.records) : Follows s [] s.inbox t := by
  rw [← hp] at hs ⊢
  exact ⟨rfl, hs, by rw [hr, List.append_nil]⟩

theorem follows_of_receiveView {s t : Observed} (hs : s.Aligned)
    (h : t.receiveView = s.receiveView) : Follows s [] s.inbox t := by
  have hp : t.receiveSide = s.receiveSide := congrArg Prod.fst h
  have hr : t.records.filter Record.isReceive = s.records.filter Record.isReceive :=
    congrArg Prod.snd h
  have hi : t.inbox = s.inbox := (congrArg Port.inbox hp :)
  have ha : t.receiveSide.Aligned := by
    rw [hp]
    exact ⟨hs.receiver, hs.transmitter, hs.rxInterrupt, hs.received⟩
  exact ⟨hi, ⟨ha.receiver, ha.transmitter, ha.rxInterrupt, ha.received⟩,
    by rw [hr, List.append_nil]⟩

theorem follows_read {s : Observed} (hs : s.Aligned) :
    s.read.1 = s.inbox.unread.head? ∧
      Follows s [] { s.inbox with unread := s.inbox.unread.tail } s.read.2 := by
  rw [read]
  change _ = s.rx.toList.head? ∧ Follows s [] { s.inbox with unread := s.rx.toList.tail } _
  cases hp : s.rx.pop? with
  | none =>
    have hq : s.rx.toList = [] := (Ring.toList_eq_nil_iff _).2 ((Ring.pop?_eq_none_iff _).1 hp)
    have hi : { s.inbox with unread := [] } = s.inbox := by rw [← hq]; rfl
    rw [hq, List.tail_nil, hi]
    exact ⟨rfl, follows_of_toPort hs rfl rfl⟩
  | some popped =>
    obtain ⟨b, rx⟩ := popped
    have hc : rx.capacity = s.rx.capacity := congrArg (· - 1) (Ring.size_pop hp)
    rw [Ring.toList_pop hp]
    refine ⟨rfl, ?_, ⟨hs.receiver, hs.transmitter, hs.rxInterrupt, hs.received⟩,
      (List.append_nil _).symm⟩
    change ({ s.inbox with capacity := rx.capacity, unread := rx.toList } : Inbox) = _
    rw [hc]
    rfl

theorem follows_readAvailable {s : Observed} (hs : s.Aligned) (buffer : List UInt8) :
    (s.readAvailable buffer).1 = min buffer.length s.inbox.unread.length ∧
      (s.readAvailable buffer).2.1 =
        s.inbox.unread.take buffer.length ++ buffer.drop s.inbox.unread.length ∧
      Follows s [] { s.inbox with unread := s.inbox.unread.drop buffer.length }
        (s.readAvailable buffer).2.2 := by
  induction buffer generalizing s with
  | nil => exact ⟨by simp [readAvailable], by simp [readAvailable], follows_of_toPort hs rfl rfl⟩
  | cons old rest ih =>
    obtain ⟨hb, hf⟩ := follows_read hs
    rw [readAvailable_cons, hb]
    cases hq : s.inbox.unread with
    | nil =>
      rw [hq] at hf
      exact ⟨by simp, by simp, hf⟩
    | cons b bs =>
      rw [hq] at hf
      obtain ⟨hn, hl, hrest⟩ := ih hf.aligned
      rw [hf.inbox] at hn hl hrest
      refine ⟨?_, ?_, hf.trans hrest⟩
      · simp [hn, Nat.succ_min_succ]
      · simp [hl]

theorem toPort_fetched {s : Observed} (hs : s.usart.received = none) (b : UInt8) (corrupt : Bool) :
    (s.arrived b corrupt).fetched.toPort = s.toPort := by
  change { s.toPort with usart := { s.usart with received := none } } = s.toPort
  rw [← hs]

theorem records_fetched (s : Observed) (b : UInt8) (corrupt : Bool) :
    (s.arrived b corrupt).fetched.records = s.records :=
  (records_note_load _ _).trans (records_note_load _ _)

theorem serviceRx_arrived {s : Observed} (hs : s.Aligned) (he : s.inbox.enabled = true) (b : UInt8)
    (corrupt : Bool) :
    (s.arrived b corrupt).serviceRx =
      if corrupt then (s.arrived b corrupt).fetched.log (.parityError b)
      else
        match s.rx.push? b with
        | none => (s.arrived b corrupt).fetched.log (.overflow b)
        | some rx => { (s.arrived b corrupt).fetched with rx } := by
  have hp : (s.arrived b corrupt).usart.rxInterruptPending = true := by
    simp [Usart.rxInterruptPending, arrived, hs.rxInterrupt, he]
  rw [serviceRx, if_pos hp, onRxComplete_eq]
  rfl

theorem follows_push {s t : Observed} {b : UInt8} {rx : Ring} (h : Follows s [] s.inbox t)
    (hp : t.rx.push? b = some rx) :
    Follows s [] { s.inbox with unread := s.inbox.unread ++ [b] } { t with rx } := by
  have ht := h.aligned
  have hc : rx.capacity = t.rx.capacity := congrArg (· - 1) (Ring.size_push hp)
  refine ⟨?_, ⟨ht.receiver, ht.transmitter, ht.rxInterrupt, ht.received⟩, h.records⟩
  change ({ t.inbox with capacity := rx.capacity, unread := rx.toList } : Inbox) = _
  rw [hc, Ring.toList_push hp, ← h.inbox]
  rfl

theorem Follows.log {s t : Observed} {q : Inbox} {r : Record} (h : Follows s [] q t)
    (hr : r.isReceive = true) : Follows s [r] q (t.log r) := by
  refine ⟨h.inbox, h.aligned, ?_⟩
  rw [records_log, List.filter_append, h.records]
  simp [hr]

theorem follows_inject {s : Observed} (hs : s.Aligned) (b : UInt8) (corrupt : Bool) :
    (s.inject b corrupt).1 = (s.inbox.arrive b corrupt).1 ∧
      Follows s (s.inbox.arrive b corrupt).2.1 (s.inbox.arrive b corrupt).2.2
        (s.inject b corrupt).2 := by
  rw [inject_eq, Inbox.arrive, hs.receiver]
  by_cases he : s.inbox.enabled = true
  · have hd : Follows s [] s.inbox (s.arrived b corrupt).fetched :=
      follows_of_toPort hs (toPort_fetched hs.received b corrupt) (records_fetched s b corrupt)
    rw [if_pos he, if_pos he, serviceRx_arrived hs he]
    cases corrupt with
    | true => exact ⟨rfl, hd.log rfl⟩
    | false =>
      have hroom : (s.rx.push? b).isSome ↔ s.inbox.unread.length < s.inbox.capacity := by
        rw [Ring.push?_isSome_iff, ← Ring.length_toList]
        rfl
      cases hp : s.rx.push? b with
      | none =>
        rw [hp] at hroom
        rw [if_neg Bool.false_ne_true, if_neg fun h => Bool.false_ne_true (hroom.2 h)]
        exact ⟨rfl, hd.log rfl⟩
      | some rx =>
        rw [hp] at hroom
        rw [if_neg Bool.false_ne_true, if_pos (hroom.1 rfl)]
        refine ⟨rfl, follows_push hd ?_⟩
        rw [toPort_fetched hs.received]
        exact hp
  · rw [if_neg he, if_neg he]
    exact ⟨rfl, follows_of_toPort hs rfl rfl⟩

theorem follows_injectAll {s : Observed} (hs : s.Aligned) (bs : List UInt8) :
    (s.injectAll bs).1 = (s.inbox.arriveAll bs).1 ∧
      Follows s (s.inbox.arriveAll bs).2.1 (s.inbox.arriveAll bs).2.2 (s.injectAll bs).2 := by
  induction bs generalizing s with
  | nil => exact ⟨rfl, follows_of_toPort hs rfl rfl⟩
  | cons b bs ih =>
    obtain ⟨hb, hf⟩ := follows_inject hs b false
    obtain ⟨hn, hrest⟩ := ih hf.aligned
    rw [hf.inbox] at hn hrest
    refine ⟨?_, hf.trans hrest⟩
    change (s.inject b false).1.toNat + ((s.inject b false).2.injectAll bs).1 = _
    rw [hb, hn]
    rfl

theorem follows_switchOff (s : Observed) :
    Follows s [] { s.inbox with enabled := false, unread := [] } (s.switchOff.log .ended) := by
  have hp : (s.switchOff.log .ended).toPort = _ := toPort_switchOff s
  refine ⟨?_, ?_, ?_⟩
  · rw [hp, ← s.rx.toList_discard]
    rfl
  · rw [hp]
    exact ⟨rfl, rfl, rfl, rfl⟩
  · rw [records_log, records_switchOff, List.filter_append]
    rfl

theorem follows_disable {s t : Observed} (hs : s.Aligned) (h : s.disable = some t) :
    Follows s [] { s.inbox with enabled := false, unread := [] } t := by
  obtain ⟨u, hu, rfl⟩ := disable_eq_some.1 h
  have hf := follows_of_receiveView hs (transmits_flush hu).receiveView_eq
  have hoff := follows_switchOff u
  rw [hf.inbox] at hoff
  exact hf.trans hoff

theorem follows_switchOn {s : Observed} (hs : s.Aligned) (baud : UInt32) (d : UInt16)
    (f : FrameWord) :
    Follows s [] { s.inbox with enabled := true, unread := [] }
      ((s.switchOn d f).log (.begun baud d f)) := by
  have hp : ((s.switchOn d f).log (.begun baud d f)).toPort = _ := toPort_switchOn s d f
  refine ⟨?_, ?_, ?_⟩
  · rw [hp, ← s.rx.toList_reset]
    rfl
  · rw [hp]
    exact ⟨rfl, rfl, rfl, hs.received⟩
  · rw [records_log, records_switchOn, List.filter_append]
    rfl

theorem follows_enable {s r : Observed} (hs : s.Aligned) (h : s.readTrim.2.retire = some r)
    (baud : UInt32) (d : UInt16) (f : FrameWord) :
    Follows s [] { s.inbox with enabled := true, unread := [] }
      ((r.switchOn d f).log (.begun baud d f)) := by
  have hl : Follows s [] s.inbox s.readTrim.2 :=
    follows_of_toPort hs (toPort_readTrim s) (records_readTrim s)
  rw [retire] at h
  split at h
  · have hoff := follows_disable hl.aligned h
    have hon := follows_switchOn hoff.aligned baud d f
    rw [hoff.inbox] at hon
    exact hl.trans (hoff.trans hon)
  · cases h
    exact hl.trans (follows_switchOn hl.aligned baud d f)

/-- A step answers, and does to the inbox, what the inbox itself does. -/
structure Mirrors (s : Observed) (st : Port.Step) (a : Answer) (t : Observed) : Prop where
  answer : ∀ b, (s.inbox.step st).1.answer = some b → a = b
  follows : Follows s (s.inbox.step st).1.records (s.inbox.step st).2 t

theorem Mirrors.silent {s t : Observed} {st : Port.Step} {a : Answer}
    (h : s.inbox.step st = ({}, s.inbox)) (hf : Follows s [] s.inbox t) : Mirrors s st a t := by
  refine ⟨fun b hb => ?_, ?_⟩
  · rw [h] at hb
    cases hb
  · rw [h]
    exact hf

theorem Mirrors.spoken {s t : Observed} {st : Port.Step} {a b : Answer} {rs : List Record}
    {q : Inbox} (h : s.inbox.step st = (⟨some b, rs⟩, q)) (ha : a = b) (hf : Follows s rs q t) :
    Mirrors s st a t := by
  refine ⟨fun c hc => ?_, ?_⟩
  · rw [h] at hc
    cases hc
    exact ha
  · rw [h]
    exact hf

theorem mirrors_of_receive {s t : Observed} {st : Port.Step} {a : Answer} (hv : st.served = true)
    (hk : st.side = .receive) (hs : s.Aligned) (h : s.runStep st = some (a, t)) :
    Mirrors s st a t := by
  cases st with
  | call c =>
    cases c with
    | available =>
      cases h
      exact .spoken rfl (congrArg Answer.count (Ring.length_toList _).symm)
        (follows_of_toPort hs rfl rfl)
    | hasData =>
      cases h
      exact .spoken rfl (congrArg Answer.flag (Port.hasData_eq _)) (follows_of_toPort hs rfl rfl)
    | peek =>
      cases h
      exact .spoken rfl (congrArg Answer.byte? (Ring.peek?_eq_head? _))
        (follows_of_toPort hs rfl rfl)
    | read =>
      cases h
      obtain ⟨hb, hf⟩ := follows_read hs
      exact .spoken rfl (congrArg Answer.byte? hb) hf
    | tryRead =>
      cases h
      obtain ⟨hb, hf⟩ := follows_read hs
      exact .spoken rfl (congrArg (fun o : Option UInt8 => o.elim Answer.wouldBlock Answer.byte) hb)
        hf
    | readAvailable size =>
      cases h
      obtain ⟨hn, hl, hf⟩ := follows_readAvailable hs (zeros size)
      rw [zeros, List.length_replicate] at hn hl hf
      rw [List.drop_replicate] at hl
      exact .spoken rfl (congrArg₂ Answer.filled hn hl) hf
    | onRxComplete | streamRead | readExact => cases hv
    | _ => cases hk
  | line e =>
    cases e with
    | inject b corrupt =>
      cases h
      obtain ⟨hb, hf⟩ := follows_inject hs b corrupt
      exact .spoken rfl (congrArg Answer.flag hb) hf
    | injectAll bs =>
      cases h
      obtain ⟨hn, hf⟩ := follows_injectAll hs bs
      exact .spoken rfl (congrArg Answer.count hn) hf
    | readWhile => cases hv
    | _ => cases hk
  | usart op =>
    cases op with
    | receive => cases hv
    | _ => cases hk

theorem mirrors_of_look {s t : Observed} {st : Port.Step} {a : Answer} (hk : st.side = .look)
    (hs : s.Aligned) (h : s.runStep st = some (a, t)) : Mirrors s st a t := by
  obtain ⟨hp, hr⟩ := look_of_runStep hk h
  have hf := follows_of_toPort hs hp hr
  cases st with
  | call c =>
    cases c with
    | state =>
      cases h
      refine .spoken rfl ?_ hf
      rw [Port.inbox]
      cases s.state <;> rfl
    | isEnabled =>
      cases h
      exact .spoken rfl rfl hf
    | clockHz | trim | availableForWrite | writeReady => exact .silent rfl hf
    | _ => cases hk
  | line e => cases e <;> cases hk
  | usart op =>
    cases op with
    | wire => exact .silent rfl hf
    | _ => cases hk

theorem mirrors_of_control {s t : Observed} {st : Port.Step} {a : Answer} (hv : st.served = true)
    (hk : st.side = .control) (hs : s.Aligned) (h : s.runStep st = some (a, t)) :
    Mirrors s st a t := by
  cases st with
  | call c =>
    cases c with
    | enable baud frame =>
      cases stepsTo_enable h with
      | refuse hd =>
        exact .spoken (Inbox.step_enable_error (q := s.inbox) hd frame) rfl
          (follows_of_toPort hs (toPort_readTrim s) (records_readTrim s))
      | enable hd hr =>
        exact .spoken (Inbox.step_enable_ok (q := s.inbox) hd frame) rfl
          (follows_enable hs hr baud _ frame)
      | transmit hk | receive hk | look hk => cases hk
    | disable =>
      obtain ⟨r, hr, e⟩ := Option.map_eq_some_iff.1 h
      cases e
      exact .spoken rfl rfl (follows_disable hs hr)
    | onTxEmpty =>
      cases h
      exact .silent rfl (follows_of_receiveView hs (receiveView_onTxEmpty s))
    | _ => cases hk
  | line e => cases e <;> cases hk
  | usart op =>
    cases op with
    | takeWire =>
      cases h
      exact .silent rfl (follows_of_receiveView hs rfl)
    | freeRunning on =>
      cases h
      exact .silent rfl ⟨rfl, ⟨hs.receiver, hs.transmitter, hs.rxInterrupt, hs.received⟩,
        (List.append_nil _).symm⟩
    | tick | receive | wire => cases hk
    | _ => cases hv

theorem mirrors_of_runStep {s t : Observed} {st : Port.Step} {a : Answer} (hv : st.served = true)
    (hs : s.Aligned) (h : s.runStep st = some (a, t)) : Mirrors s st a t := by
  cases hk : st.side with
  | transmit =>
    have hf := follows_of_receiveView hs (transmits_of_runStep hk h).receiveView_eq
    exact .silent (Inbox.step_of_transmit hk s.inbox) hf
  | receive => exact mirrors_of_receive hv hk hs h
  | look => exact mirrors_of_look hk hs h
  | control => exact mirrors_of_control hv hk hs h

theorem runStep_of_receive (s : Observed) {st : Port.Step} (hv : st.served = true)
    (hk : st.side = .receive) : (s.runStep st).isSome = true := by
  cases st with
  | call c =>
    cases c with
    | available | hasData | peek | read | tryRead | readAvailable => rfl
    | onRxComplete | streamRead | readExact => cases hv
    | _ => cases hk
  | line e =>
    cases e with
    | inject | injectAll => rfl
    | readWhile => cases hv
    | _ => cases hk
  | usart op =>
    cases op with
    | receive => cases hv
    | _ => cases hk

end Observed

namespace Port

theorem step_describes {p : Port} {st : Step} {o : Outcome} (hv : st.served = true)
    (hp : p.Aligned) (h : p.step st = some o) :
    (p.inbox.step st).1.Describes o ∧ o.port.inbox = (p.inbox.step st).2 ∧ o.port.Aligned := by
  obtain ⟨t, ht, hport, hrec⟩ := observe_of_step h
  obtain ⟨ha, hi, hal, hr⟩ := Observed.mirrors_of_runStep (s := p.observe) hv hp ht
  rw [hport] at hi hal
  rw [hrec] at hr
  exact ⟨⟨ha, hr⟩, hi, hal⟩

theorem Executes.describes {p q : Port} {h : List (Step × Outcome)}
    (he : Executes (fun _ st => st.served) p h q) (hp : p.Aligned) :
    List.Forall₂ Inbox.Reply.Describes (p.inbox.run (h.map Prod.fst)).1 (h.map Prod.snd) ∧
      q.inbox = (p.inbox.run (h.map Prod.fst)).2 ∧ q.Aligned := by
  induction he with
  | nil => exact ⟨.nil, rfl, hp⟩
  | @cons p q st o h hv hst _ ih =>
    obtain ⟨hd, hi, hal⟩ := step_describes hv hp hst
    obtain ⟨hrest, hq, hqal⟩ := ih hal
    rw [hi] at hrest hq
    exact ⟨.cons hd hrest, hq, hqal⟩

theorem inbox_new (rxSlots txSlots : Nat) (clockHz : UInt32) (trim : Int8) (freeRunning : Bool)
    (hrx : 2 ≤ rxSlots) (htx : 2 ≤ txSlots) :
    (Port.new rxSlots txSlots clockHz trim freeRunning hrx htx).inbox =
      { capacity := rxSlots - 1, clockHz, trim } := by
  have hs : (Ring.empty rxSlots hrx).capacity = rxSlots - 1 := by
    rw [Ring.capacity, Ring.size_empty]
  have hl : (Ring.empty rxSlots hrx).toList = [] := Ring.toList_empty rxSlots hrx
  rw [← hs, ← hl]
  rfl

theorem step_enable_error {p : Port} {baud : UInt32} {e : SerialError}
    (h : Baud.divisor p.clockHz baud p.usart.trim = .error e) (frame : FrameWord) :
    ∃ o, p.step (.call (.enable baud frame)) = some o ∧ o.answer = .failed e ∧ o.port = p := by
  rw [step_enable_eq, h]
  exact ⟨_, rfl, rfl, rfl⟩

/-- To whoever reads from it, a new port is a queue that keeps the oldest bytes; reading never
waits, and a refused baud rate changes nothing. -/
theorem receive_refines_inbox {rxSlots txSlots : Nat} {clockHz : UInt32} {trim : Int8}
    {freeRunning : Bool} {hrx : 2 ≤ rxSlots} {htx : 2 ≤ txSlots} {h : List (Step × Outcome)}
    {p : Port}
    (he : Executes (fun _ st => st.served)
      (Port.new rxSlots txSlots clockHz trim freeRunning hrx htx) h p) :
    List.Forall₂ Inbox.Reply.Describes
        (Inbox.run { capacity := rxSlots - 1, clockHz, trim } (h.map Prod.fst)).1
        (h.map Prod.snd) ∧
      p.inbox = (Inbox.run { capacity := rxSlots - 1, clockHz, trim } (h.map Prod.fst)).2 ∧
      p.inbox.unread.length ≤ rxSlots - 1 ∧
      (∀ st, st.served = true → st.side = .receive →
        ∃ o, p.step st = some o ∧ (p.inbox.step st).1.Describes o ∧
          o.port.inbox = (p.inbox.step st).2) ∧
      (∀ baud frame e, Baud.divisor clockHz baud trim = .error e →
        ∃ o, p.step (.call (.enable baud frame)) = some o ∧ o.answer = .failed e ∧ o.port = p) ∧
      (p.state = .enabled ↔ p.usart.receiver = true) ∧
      (p.state = .enabled ↔ p.usart.transmitter = true) ∧
      (p.state = .enabled ↔ p.usart.rxInterrupt = true) := by
  obtain ⟨hd, hi, hal⟩ := he.describes ⟨rfl, rfl, rfl, rfl⟩
  rw [inbox_new] at hd hi
  have hsame := Inbox.same_run { capacity := rxSlots - 1, clockHz, trim } (h.map Prod.fst)
  rw [← hi] at hsame
  have hon : p.inbox.enabled = true ↔ p.state = .enabled := decide_eq_true_iff
  refine ⟨hd, hi, ?_, fun st hv hk => ?_, fun baud frame e hb => ?_, ?_, ?_, ?_⟩
  · have hle := p.rx.length_le_capacity
    rw [← Ring.length_toList] at hle
    exact Nat.le_trans hle (Nat.le_of_eq hsame.capacity)
  · obtain ⟨o, ho⟩ : ∃ o, p.step st = some o := by
      apply Option.isSome_iff_exists.1
      rw [step, Option.isSome_map]
      exact p.observe.runStep_of_receive hv hk
    obtain ⟨hdesc, hnext, _⟩ := step_describes hv hal ho
    exact ⟨o, ho, hdesc, hnext⟩
  · have hc : p.clockHz = clockHz := hsame.clockHz
    have ht : p.usart.trim = trim := hsame.trim
    rw [← hc, ← ht] at hb
    exact step_enable_error hb frame
  · rw [hal.receiver, hon]
  · rw [hal.transmitter, hon]
  · rw [hal.rxInterrupt, hon]

def crowdedTraffic : List Step :=
  [.line (.inject 1 false), .call (.enable 9600 .standard), .line (.inject 1 false),
    .line (.inject 2 true), .call (.write 9), .line (.injectAll [3, 4]), .call .read, .line .tick,
    .line (.inject 5 false), .call (.enable 0 .standard), .call (.readAvailable 3), .call .disable]

theorem receive_refines_inbox_crowded :
    ∃ h p, Executes (fun _ st => st.served) (Port.new 3 2) h p ∧ h.map Prod.fst = crowdedTraffic ∧
      List.Forall₂ Inbox.Reply.Describes
        [⟨some (.flag false), []⟩, ⟨some .ok, []⟩, ⟨some (.flag true), []⟩,
          ⟨some (.flag true), [.parityError 2]⟩, {}, ⟨some (.count 2), [.overflow 4]⟩,
          ⟨some (.byte? (some 1)), []⟩, {}, ⟨some (.flag true), []⟩,
          ⟨some (.failed .invalidBaudRate), []⟩, ⟨some (.filled 2 [3, 5, 0]), []⟩,
          ⟨some .done, []⟩]
        (h.map Prod.snd) ∧
      (p.state = .enabled ↔ p.usart.receiver = true) := by
  obtain ⟨p, _, he⟩ := exists_executes (fun _ st => st.served) (Port.new 3 2) crowdedTraffic
    (by decide +kernel)
  have hsteps : ((Port.new 3 2).history crowdedTraffic).map Prod.fst = crowdedTraffic := by
    decide +kernel
  obtain ⟨hreplies, _, _, _, _, hreceiver, _⟩ := receive_refines_inbox he
  rw [hsteps] at hreplies
  exact ⟨_, p, he, hsteps, hreplies, hreceiver⟩

end Port

end SerialPort
