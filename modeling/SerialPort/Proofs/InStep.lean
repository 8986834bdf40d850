import SerialPort.Proofs.Alike
import SerialPort.Proofs.Draining
import SerialPort.Proofs.Written

namespace SerialPort

namespace Port

/-- What the port with `before` on its wire answers where the other answers `a`. -/
def Step.shown (before : List UInt8) : Step → Answer → Answer
  | .usart .wire, .bytes bs | .usart .takeWire, .bytes bs => .bytes (before ++ bs)
  | _, a => a

/-- What a step leaves of the bytes that were on the wire before. -/
def Step.left (before : List UInt8) : Step → List UInt8
  | .usart .takeWire => []
  | _ => before

/-- The second port, with `before` on its wire, does all along what the first does: each step gives
the same answer and the same events, or can never end on both. Once a byte is accepted, nothing but
`before` sets them apart; `sent` tells whether one was. -/
inductive InStep : List UInt8 → Bool → Port → Port → List Step → Prop
  | nil {before : List UInt8} {sent : Bool} {p q : Port} : p.Alike before sent q →
      InStep before sent p q []
  | stuck {before : List UInt8} {sent : Bool} {p q : Port} {st : Step} {sts : List Step} :
      p.Alike before sent q → p.step st = none → q.step st = none →
      InStep before sent p q (st :: sts)
  | cons {before : List UInt8} {sent : Bool} {p q : Port} {st : Step} {sts : List Step}
      {o o' : Outcome} : p.Alike before sent q → p.step st = some o → q.step st = some o' →
      st.shown before o.answer = o'.answer → o.events = o'.events →
      InStep (st.left before) (sent || !(st.accepted o.answer).isEmpty) o.port o'.port sts →
      InStep before sent p q (st :: sts)

end Port

namespace Observed

structure Matches (before : List UInt8) (sent : Bool) (st : Port.Step) (x y : Answer × Observed) :
    Prop where
  answer : st.shown before x.1 = y.1
  alike : Alike (st.left before) (sent || !(st.accepted x.1).isEmpty) x.2 y.2

variable {before : List UInt8} {sent : Bool} {s t : Observed}

theorem Matches.plain {st : Port.Step} {x y : Answer × Observed} (hn : st.accepted x.1 = [])
    (ha : st.shown before x.1 = y.1) (h : Alike (st.left before) sent x.2 y.2) :
    Matches before sent st x y := by
  refine ⟨ha, ?_⟩
  rw [hn]
  simpa using h

theorem transmitterFree_of_not_written (hs : s.Steady) (hw : s.written = false) :
    s.transmitterFree.1 = true := by
  obtain ⟨hf, hq⟩ := List.append_eq_nil_iff.1 (hs.pending_eq_nil hw)
  obtain ⟨hd, hsh⟩ := s.usart.inFlight_eq_nil_iff.1 hf
  rw [fst_transmitterFree, Usart.clock_of_shifter_none hsh, hs.interrupt_eq_false_iff.2 hq, hd]
  rfl

namespace Alike

theorem runCall (h : Alike before sent s t) (hs : s.Steady) (hw : s.written = true → sent = true)
    (c : Port.Call) :
    Option.Rel (Matches before sent (.call c)) (s.runCall c) (t.runCall c) := by
  have hfree : s.transmitterFree.1 = false → sent = true := fun hf => by
    refine hw ((Bool.eq_false_or_eq_true s.written).resolve_right fun hn => ?_)
    rw [transmitterFree_of_not_written hs hn] at hf
    cases hf
  have hsend (bs : List UInt8) {c : Port.Call} {a : Answer}
      (ha : (Port.Step.call c).accepted a = bs) {x y : Observed}
      (hxy : Alike before (sent || !bs.isEmpty) x y) :
      Matches before sent (.call c) (a, x) (a, y) := ⟨rfl, by rw [ha]; exact hxy⟩
  cases hsent : c.written? with
  | some bs =>
    rw [s.runCall_of_written hsent, t.runCall_of_written hsent]
    exact rel_map (h.sendBytes hfree bs) fun _ _ hxy =>
      hsend bs (Port.Call.accepted_of_written hsent _) hxy
  | none =>
    cases c with
    | enable baud frame =>
      refine rel_map (h.enable hw baud frame) fun x y hxy => ?_
      exact .plain rfl (congrArg Answer.ofResult hxy.1) hxy.2
    | disable => exact rel_map (h.disable hw) fun _ _ hxy => .plain rfl rfl hxy
    | flush => exact rel_map (h.flush hw) fun _ _ hxy => .plain rfl rfl hxy
    | onRxComplete => exact .some (.plain rfl rfl h.onRxComplete)
    | onTxEmpty => exact .some (.plain rfl rfl h.onTxEmpty)
    | pollTx => exact .some (.plain rfl rfl h.pollTx)
    | state => exact .some (.plain rfl (congrArg Answer.state h.state) h)
    | isEnabled =>
      exact .some
        (.plain rfl (congrArg (fun l : Lifecycle => Answer.flag (l = .enabled)) h.state) h)
    | clockHz =>
      exact .some (.plain rfl (congrArg (fun n : UInt32 => Answer.count n.toNat) h.clockHz) h)
    | trim => exact .some (.plain rfl (congrArg Answer.trim h.readTrim.1) h.readTrim.2)
    | available => exact .some (.plain rfl (congrArg Answer.count h.rx.length_eq) h)
    | availableForWrite => exact .some (.plain rfl (congrArg Answer.count h.tx.free_eq) h)
    | hasData => exact .some (.plain rfl (congrArg Answer.flag h.hasData_eq) h)
    | writeReady => exact .some (.plain rfl (congrArg Answer.flag h.writeReady_eq) h)
    | peek => exact .some (.plain rfl (congrArg Answer.byte? h.rx.peek?_eq) h)
    | read => exact .some (.plain rfl (congrArg Answer.byte? h.read.1) h.read.2)
    | tryRead =>
      refine .some (.plain rfl ?_ h.read.2)
      exact congrArg (fun o : Option UInt8 => o.elim Answer.wouldBlock Answer.byte) h.read.1
    | readAvailable size =>
      obtain ⟨hn, hl, hr⟩ := h.readAvailable (zeros size)
      exact .some (.plain rfl (congrArg₂ Answer.filled hn hl) hr)
    | streamRead size =>
      refine rel_map (h.streamRead _) fun x y hxy => ?_
      exact .plain rfl (congrArg₂ Answer.filled hxy.1 hxy.2.1) hxy.2.2
    | readExact size =>
      refine rel_map (h.readExactWithin size size) fun x y hxy => ?_
      exact .plain rfl (congrArg Answer.bytes hxy.1) hxy.2
    | tryWrite b =>
      obtain ⟨ht, hn⟩ := h.tryWrite hfree b
      change Option.Rel _
        (some (if (s.tryWrite b).1 then Answer.ok else .wouldBlock, (s.tryWrite b).2))
        (some (if (t.tryWrite b).1 then Answer.ok else .wouldBlock, (t.tryWrite b).2))
      rw [← ht]
      cases htaken : (s.tryWrite b).1 with
      | true =>
        rw [htaken] at hn
        exact .some (hsend [b] rfl hn)
      | false =>
        rw [htaken] at hn
        exact .some (hsend [] rfl hn)
    | write | writeBytes | streamWrite | writeAll | print => cases hsent

theorem runLine (h : Alike before sent s t) (e : Port.LineEvent) :
    Option.Rel (Matches before sent (.line e)) (s.runLine e) (t.runLine e) := by
  cases e with
  | tick => exact .some (.plain rfl (congrArg Answer.byte? h.tick.1) h.tick.2)
  | serviceTx =>
    exact .some (.plain rfl (congrArg Answer.flag h.serviceTx.1) h.serviceTx.2)
  | inject b corrupt =>
    obtain ⟨ha, hr⟩ := h.inject b corrupt
    exact .some (.plain rfl (congrArg Answer.flag ha) hr)
  | injectAll bs =>
    obtain ⟨ha, hr⟩ := h.injectAll bs
    exact .some (.plain rfl (congrArg Answer.count ha) hr)
  | runUntilIdle limit =>
    obtain ⟨ha, hr⟩ := h.runUntilIdle limit
    exact .some (.plain rfl (congrArg Answer.count ha) hr)
  | readWhile size b =>
    refine rel_map ((h.inject b false).2.streamRead _) fun x y hxy => ?_
    exact .plain rfl (congrArg₂ Answer.filled hxy.1 hxy.2.1) hxy.2.2

theorem runUsart (h : Alike before sent s t) {op : Usart.Op} (hl : op.isLine = true) :
    Matches before sent (.usart op) (s.runUsart op) (t.runUsart op) := by
  cases op with
  | tick =>
    obtain ⟨hb, hu⟩ := h.usart.shiftOut
    exact .plain rfl (congrArg Answer.byte? hb) (h.withUsart hu)
  | receive b corrupt =>
    obtain ⟨hb, hu⟩ := h.usart.receive b corrupt
    exact .plain rfl (congrArg Answer.flag hb) (h.withUsart hu)
  | wire => exact .plain rfl (congrArg Answer.bytes h.usart.wire_eq) h
  | takeWire =>
    obtain ⟨hb, hu⟩ := h.usart.takeWire
    exact .plain rfl (congrArg Answer.bytes hb) (h.withUsart hu)
  | freeRunning on => exact .plain rfl rfl (h.withUsart (h.usart.freeRunning on))
  | store | interruptEnabled | txEmpty | txComplete | parityError | readData => cases hl

theorem runStep (h : Alike before sent s t) (hs : s.Steady) (hw : s.written = true → sent = true)
    {st : Port.Step} (hl : st.offRegisters = true) :
    Option.Rel (Matches before sent st) (s.runStep st) (t.runStep st) := by
  cases st with
  | call c => exact h.runCall hs hw c
  | line e => exact h.runLine e
  | usart op => exact .some (h.runUsart hl)

end Alike

end Observed

namespace Port

variable {before : List UInt8} {sent : Bool} {p q : Port}

theorem Alike.observe (h : p.Alike before sent q) :
    Observed.Alike before sent p.observe q.observe := ⟨h, rfl⟩

theorem Alike.step (h : p.Alike before sent q) (hp : p.Steady) (hw : p.written = true → sent = true)
    {st : Step} (hl : st.offRegisters = true) :
    Option.Rel (fun o o' => st.shown before o.answer = o'.answer ∧ o.events = o'.events ∧
        o.port.Alike (st.left before) (sent || !(st.accepted o.answer).isEmpty) o'.port)
      (p.step st) (q.step st) :=
  rel_map (h.observe.runStep hp hw hl) fun _ _ hm =>
    ⟨hm.answer, congrArg Array.toList hm.alike.events, hm.alike.toAlike⟩

theorem Alike.inStep (h : p.Alike before sent q) (hp : p.Steady)
    (hw : p.written = true → sent = true) {sts : List Step}
    (hl : ∀ st ∈ sts, st.offRegisters = true) : InStep before sent p q sts := by
  induction sts generalizing before sent p q with
  | nil => exact .nil h
  | cons st sts ih =>
    have hst := hl st (List.mem_cons_self ..)
    have hmatch := h.step hp hw hst
    generalize ho : p.step st = x, ho' : q.step st = y at hmatch
    cases hmatch with
    | none => exact .stuck h ho ho'
    | @some o o' hm =>
      obtain ⟨ha, he, hn⟩ := hm
      obtain ⟨t, ht, hport, _⟩ := stepsTo_of_step hst ho
      have hwn : o.port.written = true → (sent || !(st.accepted o.answer).isEmpty) = true := by
        rw [← hport, ht.written_eq, Bool.and_eq_true, Bool.or_eq_true, Bool.or_eq_true]
        exact fun hwt => hwt.2.imp_left hw
      have hsts (st' : Step) (hm : st' ∈ sts) : st'.offRegisters = true :=
        hl st' (List.mem_cons_of_mem _ hm)
      exact .cons h ho ho' ha he (ih hn (hport ▸ ht.steady hp) hwn hsts)

end Port

end SerialPort
