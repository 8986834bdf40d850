import Mathlib.Logic.Basic
import SerialPort.Proofs.Sides

namespace SerialPort

/-- What is on the wire or will be. -/
def Port.output (p : Port) : List UInt8 := p.usart.wire ++ p.pending

theorem Port.output_of_transmitSide {p q : Port} (h : q.transmitSide = p.transmitSide) :
    q.output = p.output := by
  have ho : q.transmitSide.output = p.transmitSide.output := by rw [h]
  exact ho

structure Port.Steady (p : Port) : Prop where
  interrupt_iff : p.usart.txInterrupt = true ↔ p.tx.toList ≠ []
  shifting : p.usart.shifter = none → p.usart.data = none
  written_of_pending : p.pending ≠ [] → p.written = true
  complete_iff : p.written = true → (p.usart.txComplete = true ↔ p.usart.inFlight = [])

theorem Port.Steady.of_transmitSide {p q : Port} (h : q.transmitSide = p.transmitSide)
    (hp : p.Steady) : q.Steady := by
  have hs : p.transmitSide.Steady := ⟨hp.1, hp.2, hp.3, hp.4⟩
  rw [← h] at hs
  exact ⟨hs.1, hs.2, hs.3, hs.4⟩

theorem Port.steady_new (rxSlots txSlots : Nat) (clockHz : UInt32) (trim : Int8)
    (freeRunning : Bool) (hrx : 2 ≤ rxSlots) (htx : 2 ≤ txSlots) :
    (Port.new rxSlots txSlots clockHz trim freeRunning hrx htx).Steady where
  interrupt_iff := by simp [Port.new]
  shifting _ := rfl
  written_of_pending h := by simp [Port.new, Port.pending, Usart.inFlight] at h
  complete_iff h := by simp [Port.new] at h

namespace Usart

theorem shiftOut_of_none {u : Usart} (h : u.shifter = none) : u.shiftOut = (none, u) := by
  rw [shiftOut, h]

theorem shiftOut_of_some {u : Usart} {b : UInt8} (h : u.shifter = some b) :
    u.shiftOut = (some b, { u with
      wire := u.wire ++ [b]
      shifter := u.data
      data := none
      txComplete := u.txComplete || u.data.isNone }) := by
  rw [shiftOut, h]

theorem inFlight_eq_nil_iff (u : Usart) :
    u.inFlight = [] ↔ u.data = none ∧ u.shifter = none := by
  rw [inFlight, List.append_eq_nil_iff, Option.toList_eq_nil_iff, Option.toList_eq_nil_iff,
    and_comm]

theorem inFlight_putData {u : Usart} (h : u.data = none) (b : UInt8) :
    (u.putData b).inFlight = u.inFlight ++ [b] := by
  rw [putData]
  split <;> simp_all [inFlight]

theorem wire_putData (u : Usart) (b : UInt8) : (u.putData b).wire = u.wire := by
  rw [putData]
  split <;> rfl

theorem txInterrupt_putData (u : Usart) (b : UInt8) :
    (u.putData b).txInterrupt = u.txInterrupt := by
  rw [putData]
  split <;> rfl

theorem shifter_putData_ne_none (u : Usart) (b : UInt8) : (u.putData b).shifter ≠ none := by
  rw [putData]
  split <;> simp_all

theorem displaced_data {u : Usart} (h : u.data = none) (b : UInt8) :
    u.displaced (.data b) = none := by
  rw [displaced, h, ite_self]

end Usart

namespace Port.Steady

variable {p : Port}

theorem written_of_tx (h : p.Steady) (ht : p.tx.toList ≠ []) : p.written = true := by
  apply h.written_of_pending
  simp [pending, ht]

theorem pending_eq_nil (h : p.Steady) (hw : p.written = false) : p.pending = [] := by
  by_cases hn : p.pending = []
  · exact hn
  · rw [h.written_of_pending hn] at hw
    cases hw

theorem interrupt_eq_false_iff (h : p.Steady) :
    p.usart.txInterrupt = false ↔ p.tx.toList = [] := by
  have hn := not_congr h.interrupt_iff
  simpa using hn

theorem pending_of_interrupt (h : p.Steady) (hi : p.usart.txInterrupt = false) :
    p.pending = p.usart.inFlight := by
  rw [pending, h.interrupt_eq_false_iff.1 hi, List.append_nil]

/-- The flush test looks at all places where bytes can be. -/
theorem drained_iff (h : p.Steady) (hw : p.written = true) :
    p.usart.txInterrupt = false ∧ p.usart.txComplete = true ↔ p.pending = [] := by
  constructor
  · rintro ⟨hi, hc⟩
    rw [h.pending_of_interrupt hi]
    exact (h.complete_iff hw).1 hc
  · intro hn
    rw [pending, List.append_eq_nil_iff] at hn
    exact ⟨h.interrupt_eq_false_iff.2 hn.2, (h.complete_iff hw).2 hn.1⟩

theorem shiftOut (h : p.Steady) :
    Steady { p with usart := p.usart.shiftOut.2 } ∧
      output { p with usart := p.usart.shiftOut.2 } = p.output := by
  have ho : output { p with usart := p.usart.shiftOut.2 } = p.output := by
    have hk := p.usart.wire_append_inFlight_shiftOut
    simp only [output, pending, ← List.append_assoc, hk]
  refine ⟨?_, ho⟩
  cases hs : p.usart.shifter with
  | none =>
    rw [Usart.shiftOut_of_none hs]
    exact ⟨h.1, h.2, h.3, h.4⟩
  | some b =>
    have hw : p.written = true := h.written_of_pending (by simp [pending, Usart.inFlight, hs])
    have hc : p.usart.txComplete = false := by
      have := (h.complete_iff hw).not.2 (by simp [Usart.inFlight, hs])
      simpa using this
    rw [Usart.shiftOut_of_some hs]
    refine ⟨h.interrupt_iff, fun _ => rfl, fun _ => hw, fun _ => ?_⟩
    cases hd : p.usart.data <;> simp [Usart.inFlight, hc]

theorem of_putData (hw : p.written = true) (b : UInt8) (tx : Ring) (on : Bool)
    (hi : on = true ↔ tx.toList ≠ []) :
    Steady { p with
      tx
      usart := { p.usart.putData b with txComplete := false, txInterrupt := on } } := by
  have hs := p.usart.shifter_putData_ne_none b
  have hf : (p.usart.putData b).inFlight ≠ [] := fun hn =>
    hs ((Usart.inFlight_eq_nil_iff _).1 hn).2
  refine ⟨hi, fun hn => absurd hn hs, fun _ => hw, fun _ => ?_⟩
  exact ⟨fun hc => (by cases hc), fun hn => absurd hn hf⟩

end Port.Steady

namespace Observed

theorem toPort_load (s : Observed) (b : UInt8) :
    (s.load b).toPort = { s.toPort with
      usart := { s.usart.putData b with txComplete := false } } := by
  simp [load, Usart.store]

theorem records_load {s : Observed} (hd : s.usart.data = none) (b : UInt8) :
    (s.load b).records = s.records := by
  have hn : (s.store (.data b)).usart.displaced .clearTxComplete = none := rfl
  rw [load, records_store, hn, records_store, Usart.displaced_data hd]
  simp

theorem onTxEmpty_of_some {s : Observed} {b : UInt8} {tx : Ring} (h : s.tx.pop? = some (b, tx)) :
    s.onTxEmpty =
      if tx.isEmpty then (({ s with tx } : Observed).load b).store (.interrupt .txEmpty false)
      else ({ s with tx } : Observed).load b := by
  have ht : (({ s with tx } : Observed).load b).tx = tx := by rw [toPort_load]
  rw [onTxEmpty, h]
  change (if (({ s with tx } : Observed).load b).tx.isEmpty then _ else _) = _
  rw [ht]
  rfl

/-- What moves do to a port between two steps: they send in order, and log nothing. -/
structure Sends (s : Observed) (bs : List UInt8) (t : Observed) : Prop where
  steady : t.Steady
  output : t.output = s.output ++ bs
  records : t.records = s.records
  written : t.written = (s.written || !bs.isEmpty)

theorem interrupt_iff_of_pop {s : Observed} {b : UInt8} {tx : Ring}
    (hs : s.usart.txInterrupt = true ↔ s.tx.toList ≠ []) (h : s.tx.pop? = some (b, tx)) :
    (s.usart.txInterrupt && !tx.isEmpty) = true ↔ tx.toList ≠ [] := by
  have hi : s.usart.txInterrupt = true := hs.2 (by simp [Ring.toList_pop h])
  rw [hi, Ne, Ring.toList_eq_nil_iff]
  simp

/-- The handler may run at any moment: with the data register taken it overwrites a byte, but
leaves a steady port. -/
theorem steady_onTxEmpty {s : Observed} (hs : s.Steady) : s.onTxEmpty.Steady := by
  cases hpop : s.tx.pop? with
  | none =>
    have he := (Ring.pop?_eq_none_iff _).1 hpop
    rw [toPort_onTxEmpty_of_none hpop he]
    exact ⟨by simp [(Ring.toList_eq_nil_iff _).2 he], hs.2, hs.3, hs.4⟩
  | some popped =>
    obtain ⟨b, tx⟩ := popped
    have hq : s.tx.toList ≠ [] := by simp [Ring.toList_pop hpop]
    have hon := interrupt_iff_of_pop hs.interrupt_iff hpop
    rw [toPort_onTxEmpty_of_some hpop]
    exact Port.Steady.of_putData (hs.written_of_tx hq) b tx _ hon

theorem sends_serve {s : Observed} (hs : s.Steady) (hp : s.usart.txInterruptPending = true) :
    Sends s [] s.onTxEmpty := by
  obtain ⟨hi, hd⟩ : s.usart.txInterrupt = true ∧ s.usart.data = none := by
    simpa [Usart.txInterruptPending] using hp
  obtain ⟨b, tx, hpop⟩ := Ring.exists_pop (hs.interrupt_iff.1 hi)
  have hl := Ring.toList_pop hpop
  have ht := toPort_onTxEmpty_of_some hpop
  have hf := Usart.inFlight_putData hd b
  refine ⟨steady_onTxEmpty hs, ?_, ?_, ?_⟩
  · rw [ht]
    simp only [Port.output, Port.pending, Usart.inFlight] at hf ⊢
    simp [hl, hf, Usart.wire_putData]
  · have hr : (({ s with tx } : Observed).load b).records = s.records :=
      records_load (s := { s with tx }) hd b
    rw [onTxEmpty_of_some hpop]
    split
    · rw [records_store, hr]
      exact List.append_nil _
    · exact hr
  · rw [ht]
    simp

theorem sends_send {s : Observed} (hs : s.Steady) (b : UInt8) (hi : s.usart.txInterrupt = false)
    (hd : s.usart.data = none) : Sends s [b] { s.load b with written := true } := by
  have hp := hs.pending_of_interrupt hi
  have ht : s.tx.toList = [] := by
    rw [Port.pending] at hp
    simpa using hp
  have hf := Usart.inFlight_putData hd b
  have hon : s.usart.txInterrupt = true ↔ s.tx.toList ≠ [] := hs.interrupt_iff
  have he : ({ s.load b with written := true } : Observed).toPort = { s.toPort with
      written := true
      usart := { s.usart.putData b with
        txComplete := false
        txInterrupt := s.usart.txInterrupt } } := by
    rw [← Usart.txInterrupt_putData s.usart b]
    exact congrArg (fun p : Port => { p with written := true }) (toPort_load s b)
  refine ⟨?_, ?_, records_load hd b, by simp⟩
  · rw [he]
    exact Port.Steady.of_putData (p := { s.toPort with written := true }) rfl b s.tx _ hon
  · rw [he]
    simp only [Port.output, Port.pending, Usart.inFlight] at hf ⊢
    simp [ht, hf, Usart.wire_putData]

theorem sends_queue {s : Observed} (hs : s.Steady) (b : UInt8) (tx : Ring)
    (hb : s.usart.txInterrupt = true ∨ s.usart.data ≠ none) (hp : s.tx.push? b = some tx) :
    Sends s [b] ({ s with tx, written := true }.store (.interrupt .txEmpty true)) := by
  have hl := Ring.toList_push hp
  have hw : s.written = true := by
    cases hb with
    | inl hi => exact hs.written_of_tx (hs.interrupt_iff.1 hi)
    | inr hd =>
      apply hs.written_of_pending
      simp [Port.pending, Usart.inFlight, hd]
  refine ⟨⟨?_, hs.shifting, fun _ => rfl, fun _ => hs.complete_iff hw⟩, ?_, ?_, ?_⟩
  · simp [hl, Usart.store]
  · simp [Port.output, Port.pending, Usart.inFlight, hl, Usart.store]
  · rw [records_store]
    exact List.append_nil _
  · simp

theorem Transmits.sends {s t : Observed} {bs : List UInt8} (h : Transmits s bs t)
    (hs : s.Steady) : Sends s bs t := by
  induction h with
  | refl => exact ⟨hs, by simp, rfl, by simp⟩
  | @trans _ _ _ as _ _ _ ih ih' =>
    have h1 := ih hs
    have h2 := ih' h1.steady
    refine ⟨h2.steady, ?_, h2.records.trans h1.records, ?_⟩
    · rw [h2.output, h1.output, List.append_assoc]
    · rw [h2.written, h1.written, Bool.or_assoc]
      cases as <;> simp
  | look s r => exact ⟨hs, by simp, records_note_load s r, by simp⟩
  | shift s =>
    obtain ⟨hst, ho⟩ := hs.shiftOut
    exact ⟨hst, by simpa using ho, rfl, by simp⟩
  | serve s hp => exact sends_serve hs hp
  | send s b hi hd => exact sends_send hs b hi hd
  | queue s b tx hb hp => exact sends_queue hs b tx hb hp

end Observed

end SerialPort
