import SerialPort.Proofs.Steady

namespace SerialPort

theorem Port.steady_of_quiet {p : Port} (hp : p.pending = []) (hi : p.usart.txInterrupt = false)
    (hw : p.written = false) : p.Steady := by
  have hn := hp
  rw [pending, List.append_eq_nil_iff] at hn
  refine ⟨by simp [hi, hn.2], fun _ => ?_, fun h => absurd hp h, fun h => ?_⟩
  · exact (p.usart.inFlight_eq_nil_iff.1 hn.1).1
  · rw [hw] at h
    cases h

namespace Observed

theorem toPort_switchOff (s : Observed) :
    s.switchOff.toPort = { s.toPort with
      rx := s.rx.discard
      written := false
      state := .disabled
      usart := { s.usart with
        receiver := false
        transmitter := false
        rxInterrupt := false
        txInterrupt := false
        received := none } } := by
  simp [switchOff, Usart.store]

theorem records_switchOff (s : Observed) : s.switchOff.records = s.records := by
  have he : s.switchOff.events =
      (((s.events.push (.store (.receiver false))).push (.store (.transmitter false))).push
        (.store (.interrupt .rxComplete false))).push (.store (.interrupt .txEmpty false)) := rfl
  simp [records, he, Event.record?]

theorem toPort_switchOn (s : Observed) (d : UInt16) (f : FrameWord) :
    (s.switchOn d f).toPort = { s.toPort with
      rx := s.rx.reset
      tx := s.tx.reset
      state := .enabled
      usart := { s.usart with
        pinsRouted := true
        doubleSpeed := false
        divisor := d
        frame := f
        txInterrupt := false
        receiver := true
        transmitter := true
        rxInterrupt := true
        txPinDriven := true } } := by
  simp [switchOn, Usart.store]

theorem events_switchOn (s : Observed) (d : UInt16) (f : FrameWord) :
    (s.switchOn d f).events.toList = s.events.toList ++
      [.store .routePins, .store (.doubleSpeed false), .store (.divisor d), .store (.frame f),
        .store (.interrupt .txEmpty false), .store (.receiver true), .store (.transmitter true),
        .store (.interrupt .rxComplete true), .store .driveTxPin] := by
  have he : (s.switchOn d f).events =
      ((((((((s.events.push (.store .routePins)).push (.store (.doubleSpeed false))).push
        (.store (.divisor d))).push (.store (.frame f))).push
        (.store (.interrupt .txEmpty false))).push (.store (.receiver true))).push
        (.store (.transmitter true))).push (.store (.interrupt .rxComplete true))).push
        (.store .driveTxPin) := rfl
  simp only [he, Array.toList_push, List.append_assoc, List.cons_append, List.nil_append]

theorem records_switchOn (s : Observed) (d : UInt16) (f : FrameWord) :
    (s.switchOn d f).records = s.records := by
  rw [records, events_switchOn, List.filterMap_append]
  exact List.append_nil _

/-- The test of the wait, which may itself clock the line, succeeds exactly if it leaves nothing
pending. -/
theorem fst_drained_iff {s : Observed} (hs : s.Steady) (hw : s.written = true) :
    s.drained.1 = true ↔ s.drained.2.pending = [] := by
  have hsend := (transmits_drained s).sends hs
  have hwd : s.drained.2.written = true := by simpa [hw] using hsend.written
  rw [← hsend.steady.drained_iff hwd, fst_drained, toPort_drained]
  cases hi : s.usart.txInterrupt <;> simp [hi]

theorem flush_spec {s r : Observed} (hs : s.Steady) (h : s.flush = some r) :
    Sends s [] r ∧ r.pending = [] := by
  have hsend := (transmits_flush h).sends hs
  refine ⟨hsend, ?_⟩
  by_cases hw : s.written = true
  · rw [flush, if_pos hw] at h
    obtain ⟨t, hst, htt, rfl⟩ := pollUntil_some (fun u _ => transmits_drained u) h
    have ht := hst.sends hs
    exact (fst_drained_iff ht.steady (by simpa [hw] using ht.written)).1 htt
  · rw [flush, if_neg hw] at h
    cases h
    exact hs.pending_eq_nil (by simpa using hw)

theorem disable_eq_some {s r : Observed} :
    s.disable = some r ↔ ∃ u, s.flush = some u ∧ u.switchOff.log .ended = r := by
  rw [disable, Option.map_eq_some_iff]

/-- Nothing pending survives the switch, and the wire is what was to be on it. -/
structure Retired (s r : Observed) : Prop where
  pending : r.pending = []
  output : r.output = s.output
  written : r.written = false
  interrupt : r.usart.txInterrupt = false
  records : ∀ x, x ∈ r.records → x = .ended ∨ x ∈ s.records

theorem retired_disable {s r : Observed} (hs : s.Steady) (h : s.disable = some r) :
    Retired s r := by
  obtain ⟨u, hu, rfl⟩ := disable_eq_some.1 h
  obtain ⟨hsend, hp⟩ := flush_spec hs hu
  have ho := hsend.output
  rw [List.append_nil] at ho
  have he := toPort_switchOff u
  refine ⟨?_, ?_, ?_, ?_, ?_⟩
  · rw [toPort_log, he]
    exact hp
  · rw [toPort_log, he]
    exact ho
  · rw [toPort_log, he]
  · rw [toPort_log, he]
  · intro x hx
    rw [records_log, records_switchOff, hsend.records] at hx
    simpa [or_comm] using hx

theorem retired_retire {s r : Observed} (hs : s.Steady) (h : s.retire = some r) :
    Retired s r := by
  rw [retire] at h
  by_cases hw : s.written = true
  · rw [if_pos hw] at h
    exact retired_disable hs h
  · rw [if_neg hw] at h
    cases h
    have hw' : s.written = false := by simpa using hw
    have hn := hs.pending_eq_nil hw'
    have ht : s.tx.toList = [] := (List.append_eq_nil_iff.1 hn).2
    exact ⟨hn, rfl, hw', hs.interrupt_eq_false_iff.2 ht, fun x hx => .inr hx⟩

theorem Retired.steady {s r : Observed} (h : Retired s r) : r.Steady :=
  Port.steady_of_quiet h.pending h.interrupt h.written

theorem Retired.switchOn {s r : Observed} (h : Retired s r) (d : UInt16) (f : FrameWord) :
    Retired s (r.switchOn d f) := by
  have he := toPort_switchOn r d f
  have hf : r.usart.inFlight = [] := (List.append_eq_nil_iff.1 h.pending).1
  have hw := h.output
  rw [Port.output, h.pending, List.append_nil] at hw
  have hp : (r.switchOn d f).pending = [] := by
    rw [he, Port.pending, Ring.toList_reset, List.append_nil]
    exact hf
  refine ⟨hp, ?_, ?_, ?_, ?_⟩
  · rw [Port.output, hp, List.append_nil, he]
    exact hw
  · rw [he]
    exact h.written
  · rw [he]
  · rw [records_switchOn]
    exact h.records

end Observed

end SerialPort
