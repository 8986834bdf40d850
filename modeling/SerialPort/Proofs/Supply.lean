import SerialPort.Proofs.Quiescence

namespace SerialPort

/-- Whether a step leaves the registers to the port, and neither clocks the line nor runs the
data-empty handler by itself. -/
def Port.Step.driven : Port.Step → Bool
  | .usart .tick | .call .onTxEmpty => false
  | st => st.offRegisters

theorem Port.Step.offRegisters_of_driven {st : Port.Step} (h : st.driven = true) :
    st.offRegisters = true := by
  unfold driven at h
  split at h
  · cases h
  · cases h
  · exact h

theorem Port.orderly_of_driven (p : Port) {st : Port.Step} (h : st.driven = true) :
    p.orderly st = true := by
  cases st with
  | call c =>
    cases c with
    | onTxEmpty => cases h
    | _ => rfl
  | line e => rfl
  | usart op => exact Port.Step.offRegisters_of_driven h

theorem Usart.data_putData {u : Usart} (h : u.shifter ≠ none) (b : UInt8) :
    (u.putData b).data = some b := by
  rw [putData, if_neg (by simpa using h)]

namespace Port

/-- While bytes are queued, one is being shifted out: what a look at the line or a tick leaves to
the handler. -/
structure Fed (p : Port) : Prop where
  steady : p.Steady
  shifter : p.tx.toList ≠ [] → p.usart.shifter ≠ none

/-- While bytes are queued, the data register is taken. -/
structure Supplied (p : Port) : Prop where
  steady : p.Steady
  data : p.tx.toList ≠ [] → p.usart.data ≠ none

variable {p q : Port}

theorem supplied_of_queue_nil (hs : p.Steady) (hq : p.tx.toList = []) : p.Supplied :=
  ⟨hs, fun hn => absurd hq hn⟩

theorem Supplied.of_transmitSide (h : q.transmitSide = p.transmitSide) (hp : p.Supplied) :
    q.Supplied := by
  have hside : p.transmitSide.tx.toList ≠ [] → p.transmitSide.usart.data ≠ none := hp.data
  rw [← h] at hside
  exact ⟨hp.steady.of_transmitSide h, hside⟩

theorem Supplied.fed (h : p.Supplied) : p.Fed :=
  ⟨h.steady, fun hq hn => h.data hq (h.steady.shifting hn)⟩

theorem Supplied.served (h : p.Supplied) : p.usart.txInterruptPending = false := by
  cases hi : p.usart.txInterrupt with
  | false => rw [Usart.txInterruptPending, hi, Bool.false_and]
  | true =>
    have hd := h.data (h.steady.interrupt_iff.1 hi)
    rw [Usart.txInterruptPending, hi, Bool.true_and, Option.isNone_eq_false_iff]
    exact Option.isSome_iff_ne_none.2 hd

theorem Supplied.fed_shiftOut (h : p.Supplied) :
    Fed { p with usart := p.usart.shiftOut.2 } := by
  refine ⟨h.steady.shiftOut.1, fun hq => ?_⟩
  obtain ⟨b, hb⟩ := Option.ne_none_iff_exists'.1 (h.fed.shifter hq)
  rw [Usart.shiftOut_of_some hb]
  exact h.data hq

theorem Supplied.fed_clock (h : p.Supplied) : Fed { p with usart := p.usart.clock } := by
  rw [Usart.clock]
  split
  · exact h.fed_shiftOut
  · exact h.fed

end Port

namespace Observed

variable {s t : Observed}

theorem supplied_onTxEmpty (h : s.Fed) : s.onTxEmpty.Supplied := by
  refine ⟨steady_onTxEmpty h.steady, ?_⟩
  cases hpop : s.tx.pop? with
  | none =>
    have he := (Ring.pop?_eq_none_iff _).1 hpop
    rw [toPort_onTxEmpty_of_none hpop he]
    exact fun hq => absurd ((Ring.toList_eq_nil_iff _).2 he) hq
  | some popped =>
    have hf : s.usart.shifter ≠ none := h.shifter (by simp [Ring.toList_pop hpop])
    rw [toPort_onTxEmpty_of_some hpop]
    intro _
    change (s.usart.putData popped.1).data ≠ none
    rw [Usart.data_putData hf]
    exact Option.some_ne_none _

theorem supplied_serviceTx (h : s.Fed) : s.serviceTx.2.Supplied := by
  rw [serviceTx]
  split
  next => exact supplied_onTxEmpty h
  next hi =>
    refine ⟨h.steady, fun hq hd => hi ?_⟩
    rw [Usart.txInterruptPending, h.steady.interrupt_iff.2 hq, hd]
    rfl

theorem supplied_tick (h : s.Supplied) : s.tick.2.Supplied :=
  supplied_serviceTx h.fed_shiftOut

theorem supplied_pollTx (h : s.Supplied) : s.pollTx.Supplied := by
  have hfed : (s.interruptEnabled .txEmpty).2.txEmpty.2.Fed := h.fed_clock
  rw [pollTx_eq]
  split
  · split
    · exact supplied_onTxEmpty hfed
    next hd =>
      refine ⟨hfed.steady, fun _ hn => hd ?_⟩
      change s.usart.clock.data = none at hn
      rw [hn]
      rfl
  · exact h

/-- The looks before a write and of the wait clock the line only if nothing is queued. -/
theorem supplied_look (h : s.Supplied)
    (ht : t.toPort =
      if s.usart.txInterrupt then s.toPort else { s.toPort with usart := s.usart.clock }) :
    t.Supplied := by
  rw [ht]
  split
  next => exact h
  next hi =>
    have hq : s.tx.toList = [] := h.steady.interrupt_eq_false_iff.1 (by simpa using hi)
    exact Port.supplied_of_queue_nil h.fed_clock.steady hq

theorem data_of_not_free (h : s.Supplied) (hf : s.transmitterFree.1 = false) :
    s.transmitterFree.2.usart.data ≠ none := by
  rw [fst_transmitterFree] at hf
  rw [toPort_transmitterFree]
  cases hi : s.usart.txInterrupt with
  | true => exact h.data (h.steady.interrupt_iff.1 hi)
  | false =>
    rw [hi, Bool.not_false, Bool.true_and, Option.isNone_eq_false_iff] at hf
    exact Option.isSome_iff_ne_none.1 hf

theorem supplied_tryWrite (h : s.Supplied) (b : UInt8) : (s.tryWrite b).2.Supplied := by
  have hlook := supplied_look h (toPort_transmitterFree s)
  refine ⟨((transmits_tryWrite s b).sends h.steady).steady, ?_⟩
  rw [tryWrite_eq]
  cases hf : s.transmitterFree.1 with
  | true =>
    rw [fst_transmitterFree, Bool.and_eq_true, Bool.not_eq_true'] at hf
    have hq : s.tx.toList = [] := h.steady.interrupt_eq_false_iff.1 hf.1
    rw [if_pos rfl]
    change (s.transmitterFree.2.load b).tx.toList ≠ [] → _
    rw [toPort_load, tx_transmitterFree]
    exact fun hn => absurd hq hn
  | false =>
    rw [if_neg Bool.false_ne_true]
    cases s.transmitterFree.2.tx.push? b with
    | none => exact hlook.data
    | some tx =>
      intro _
      exact data_of_not_free h hf

theorem supplied_sendBytes {bs : List UInt8} (h : s.Supplied) (hw : s.sendBytes bs = some t) :
    t.Supplied := by
  induction bs generalizing s with
  | nil =>
    cases hw
    exact h
  | cons b bs ih =>
    obtain ⟨r, hb, hbs⟩ := Option.bind_eq_some_iff.1 hw
    have hr : r.Supplied := pollUntil_keeps (P := fun u => u.Supplied)
      (fun _ hu => supplied_tryWrite hu b) (fun _ => supplied_pollTx) h hb
    exact ih hr hbs

theorem supplied_flush (h : s.Supplied) (hf : s.flush = some t) : t.Supplied := by
  rw [flush] at hf
  split at hf
  · exact pollUntil_keeps (P := fun u => u.Supplied)
      (fun u hu => supplied_look hu (toPort_drained u)) (fun _ => supplied_pollTx) h hf
  · cases hf
    exact h

theorem supplied_runUntilIdle (h : s.Supplied) (limit : Nat) :
    (s.runUntilIdle limit).2.Supplied := by
  induction limit generalizing s with
  | zero => exact h
  | succ limit ih =>
    have hserved := supplied_serviceTx h.fed
    rw [runUntilIdle_succ]
    split
    · exact hserved
    · exact ih (supplied_tick hserved)

theorem supplied_of_runCall {c : Port.Call} {a : Answer} (h : s.Supplied)
    (hc : (Port.Step.call c).side = .transmit) (hr : s.runCall c = some (a, t)) : t.Supplied := by
  -- the forms of writing differ in what they answer alone
  cases hw : c.written? with
  | some bs =>
    rw [s.runCall_of_written hw] at hr
    obtain ⟨r, hbs, e⟩ := Option.map_eq_some_iff.1 hr
    cases e
    exact supplied_sendBytes h hbs
  | none =>
    cases c with
    | flush =>
      obtain ⟨r, hf, e⟩ := Option.map_eq_some_iff.1 hr
      cases e
      exact supplied_flush h hf
    | pollTx =>
      cases hr
      exact supplied_pollTx h
    | tryWrite b =>
      cases hr
      exact supplied_tryWrite h b
    | write | writeBytes | streamWrite | writeAll | print => cases hw
    | _ => cases hc

theorem supplied_of_runStep {st : Port.Step} {a : Answer} (h : s.Supplied)
    (hl : st.driven = true) (hr : s.runStep st = some (a, t)) : t.Supplied := by
  cases stepsTo_of_runStep (Port.Step.offRegisters_of_driven hl) hr with
  | transmit hk =>
    -- its moves do not tell a tick that is served from one that is not
    cases st with
    | call c => exact supplied_of_runCall h hk hr
    | line e =>
      cases e with
      | tick =>
        cases hr
        exact supplied_tick h
      | serviceTx =>
        cases hr
        exact supplied_serviceTx h.fed
      | runUntilIdle limit =>
        cases hr
        exact supplied_runUntilIdle h limit
      | _ => cases hk
    | usart op =>
      cases op with
      | tick => cases hl
      | _ => cases hk
  | receive _ hv => exact h.of_transmitSide (congrArg Prod.fst hv)
  | look _ hp _ => exact hp ▸ h
  | serve => cases hl
  | refuse => exact h
  | @enable baud frame d r _ hret =>
    have hon := (retired_retire (s := s.readTrim.2) h.steady hret).switchOn d frame
    exact Port.supplied_of_queue_nil hon.steady (List.append_eq_nil_iff.1 hon.pending).2
  | disable hd =>
    have hoff := retired_disable h.steady hd
    exact Port.supplied_of_queue_nil hoff.steady (List.append_eq_nil_iff.1 hoff.pending).2
  | takeWire | freeRunning => exact ⟨⟨h.steady.1, h.steady.2, h.steady.3, h.steady.4⟩, h.data⟩

theorem send_isSome_iff_room (h : s.Supplied) (hf : s.usart.freeRunning = false) (b : UInt8) :
    (s.send b).isSome = true ↔ s.tx.length < s.tx.capacity := by
  have htwo := s.usart.length_inFlight_le_two
  have hle := s.tx.length_le_capacity
  rw [Still.send_isSome_iff ⟨h.steady, hf⟩ b, Port.length_pending]
  constructor
  · intro hlt
    refine Nat.lt_of_le_of_ne hle fun hfull => ?_
    have hd := h.data (Ring.toList_ne_nil_of_full hfull)
    rw [Ne, h.steady.data_eq_none_iff] at hd
    omega
  · intro hroom
    omega

end Observed

namespace Port

variable {p q : Port} {h : List (Step × Outcome)}

theorem Executes.supplied (he : Executes (fun _ st => st.driven) p h q) (hp : p.Supplied) :
    q.Supplied := by
  refine he.keeps (fun p st o hl hs hst => ?_) hp
  obtain ⟨t, ht, hport, _⟩ := observe_of_step hst
  exact hport ▸ Observed.supplied_of_runStep hs hl ht

theorem answer_tick (p : Port) :
    (p.step (.line .tick)).map (·.answer) = some (.byte? p.usart.shifter) := by
  have hout : p.usart.shiftOut.1 = p.usart.shifter := by
    rw [Usart.shiftOut]
    cases p.usart.shifter <;> rfl
  exact congrArg (fun b => some (Answer.byte? b)) hout

/-- While every tick serves the interrupt that it raises, bytes are queued only behind two full
registers. So no interrupt stays pending, a tick finds a byte exactly if one was accepted that is
not on the wire yet, and on a line that stands still a write ends exactly if the buffer has room. -/
theorem transmitter_never_starved {rxSlots txSlots : Nat} {clockHz : UInt32} {trim : Int8}
    {freeRunning : Bool} {hrx : 2 ≤ rxSlots} {htx : 2 ≤ txSlots}
    (he : Executes (fun _ st => st.driven)
      (Port.new rxSlots txSlots clockHz trim freeRunning hrx htx) h p) :
    (p.tx.toList ≠ [] → p.usart.data.isSome = true ∧ p.usart.shifter.isSome = true) ∧
    p.usart.txInterruptPending = false ∧
    ((∃ b, (p.step (.line .tick)).map (·.answer) = some (.byte? (some b))) ↔
      removed h ++ p.usart.wire ≠ accepted h) ∧
    (p.usart.freeRunning = false → ∀ b,
      ((p.step (.call (.write b))).isSome = true ↔ 0 < p.availableForWrite) ∧
      ((p.step (.call (.write b))).isSome = true ↔
        (p.step (.call .writeReady)).map (·.answer) = some (.flag true))) := by
  have hs : p.Supplied :=
    he.supplied (supplied_of_queue_nil (steady_new ..) (Ring.toList_empty txSlots htx))
  refine ⟨fun hq => ?_, hs.served, ?_, fun hf b => ?_⟩
  · exact ⟨Option.isSome_iff_ne_none.2 (hs.data hq),
      Option.isSome_iff_ne_none.2 (hs.fed.shifter hq)⟩
  · obtain ⟨_, hout, _⟩ := (he.mono fun r st hl => r.orderly_of_driven hl).accounts (steady_new ..)
    rw [output_new, List.nil_append, output, ← List.append_assoc] at hout
    have hsent : removed h ++ p.usart.wire ≠ accepted h ↔ p.pending ≠ [] := by
      rw [← hout, Ne, List.self_eq_append_right]
    rw [hsent, Ne, ← hs.steady.shifter_eq_none_iff hs.served, answer_tick]
    constructor
    · rintro ⟨b, hb⟩ hn
      rw [hn] at hb
      cases hb
    · intro hb
      obtain ⟨b, hb⟩ := Option.ne_none_iff_exists'.1 hb
      exact ⟨b, by rw [hb]⟩
  · have hw : (p.step (.call (.write b))).isSome = (p.observe.send b).isSome := by
      simp only [step, Observed.runStep, Observed.runCall, Observed.write, Option.isSome_map]
    have hroom : (p.step (.call (.write b))).isSome = true ↔ 0 < p.availableForWrite := by
      rw [hw, Observed.send_isSome_iff_room (s := p.observe) hs hf b, availableForWrite, Ring.free,
        Observed.toPort_observe]
      omega
    refine ⟨hroom, hroom.trans ?_⟩
    change _ ↔ some (Answer.flag p.writeReady) = some (.flag true)
    rw [writeReady]
    simp

def suppliedTraffic : List Step :=
  [.call (.enable 9600 .standard), .call (.writeBytes [1, 2, 3, 4]), .line .tick,
    .usart (.freeRunning true), .call .pollTx, .usart (.freeRunning false), .call (.tryWrite 5),
    .call (.tryWrite 6)]

theorem transmitter_never_starved_full :
    ∃ h p, Executes (fun _ st => st.driven) (Port.new 2 3) h p ∧
      h.map Prod.fst = suppliedTraffic ∧ p.tx.toList = [5, 6] ∧ p.usart.data.isSome = true ∧
      p.usart.shifter.isSome = true ∧ p.usart.txInterruptPending = false ∧
      (∃ b, (p.step (.line .tick)).map (·.answer) = some (.byte? (some b))) ∧
      p.step (.call (.write 7)) = none := by
  obtain ⟨p, hp, he⟩ := exists_executes (fun _ st => st.driven) (Port.new 2 3) suppliedTraffic
    (by decide +kernel)
  have hstate : ((Port.new 2 3).after suppliedTraffic).all (fun q =>
      q.tx.toList = [5, 6] ∧ q.usart.wire = [1, 2] ∧ q.usart.freeRunning = false ∧
        q.availableForWrite = 0) = true := by
    decide +kernel
  rw [hp, Option.all_some, decide_eq_true_iff] at hstate
  obtain ⟨hq, hwire, hf, hfull⟩ := hstate
  obtain ⟨hfilled, hserved, htick, hwrite⟩ := transmitter_never_starved he
  obtain ⟨hd, hs⟩ := hfilled (by simp [hq])
  have hleft : removed ((Port.new 2 3).history suppliedTraffic) ++ p.usart.wire ≠
      accepted ((Port.new 2 3).history suppliedTraffic) := by
    rw [hwire]
    decide +kernel
  have hnone : p.step (.call (.write 7)) = none := by
    rw [← Option.not_isSome_iff_eq_none, (hwrite hf 7).1, hfull]
    decide
  exact ⟨_, p, he, by decide +kernel, hq, hd, hs, hserved, htick.2 hleft, hnone⟩

end Port

end SerialPort
