import SerialPort.Proofs.Steps

namespace SerialPort

namespace Port.Step

theorem accepted_eq_nil {st : Step} (h : st.side ≠ .transmit) (a : Answer) :
    st.accepted a = [] := by
  unfold accepted
  split <;> first | rfl | exact absurd rfl h

theorem removed_eq_nil {st : Step} (h : st.side ≠ .control) (a : Answer) : st.removed a = [] := by
  unfold removed
  split
  · exact absurd rfl h
  · rfl

end Port.Step

namespace Observed

theorem StepsTo.accounts {s t : Observed} {st : Port.Step} {a : Answer} (h : StepsTo s st a t)
    (ho : s.orderly st = true) (hs : s.Steady) :
    t.Steady ∧ st.removed a ++ t.output = s.output ++ st.accepted a ∧
      (Record.overwritten ∈ t.records → Record.overwritten ∈ s.records) := by
  refine ⟨h.steady hs, ?_⟩
  cases h with
  | transmit hst ht =>
    have hsend := ht.sends hs
    have hr : st.removed a = [] := Port.Step.removed_eq_nil (by simp [hst]) a
    refine ⟨?_, fun hm => hsend.records ▸ hm⟩
    rw [hr, List.nil_append, hsend.output]
  | receive hst hv =>
    have hr : st.removed a = [] := Port.Step.removed_eq_nil (by simp [hst]) a
    have ha : st.accepted a = [] := Port.Step.accepted_eq_nil (by simp [hst]) a
    have hp : t.transmitSide = s.transmitSide := congrArg Prod.fst hv
    have hl : t.records.filter (!·.isReceive) = s.records.filter (!·.isReceive) :=
      congrArg Prod.snd hv
    have hout := Port.output_of_transmitSide hp
    refine ⟨?_, fun hm => ?_⟩
    · rw [hr, ha, hout, List.nil_append, List.append_nil]
    · have hf : Record.overwritten ∈ t.records.filter (!·.isReceive) :=
        List.mem_filter.2 ⟨hm, rfl⟩
      rw [hl] at hf
      exact (List.mem_filter.1 hf).1
  | look hst hp hl =>
    have hr : st.removed a = [] := Port.Step.removed_eq_nil (by simp [hst]) a
    have ha : st.accepted a = [] := Port.Step.accepted_eq_nil (by simp [hst]) a
    rw [hr, ha, hp, hl]
    exact ⟨by simp, id⟩
  | serve =>
    have hsend := sends_serve hs ho
    exact ⟨hsend.output, fun hm => hsend.records ▸ hm⟩
  | refuse =>
    rw [toPort_readTrim, records_readTrim]
    exact ⟨(List.append_nil _).symm, id⟩
  | @enable baud frame d r hd hr =>
    have hon := (retired_retire (s := s.readTrim.2) hs hr).switchOn d frame
    refine ⟨hon.output.trans (List.append_nil _).symm, fun hm => ?_⟩
    rw [records_log] at hm
    have hx := hon.records .overwritten (by simpa using hm)
    simpa using hx
  | disable hd =>
    have hoff := retired_disable hs hd
    refine ⟨hoff.output.trans (List.append_nil _).symm, fun hm => ?_⟩
    simpa using hoff.records .overwritten hm
  | takeWire =>
    refine ⟨?_, fun hm => hm⟩
    simp [Port.Step.removed, Port.Step.accepted, Port.output, Port.pending, Usart.inFlight]
  | freeRunning on =>
    exact ⟨(List.append_nil _).symm, fun hm => hm⟩

end Observed

namespace Port

theorem step_accounts {p : Port} {st : Step} {o : Outcome} (ho : p.orderly st = true)
    (h : p.step st = some o) (hp : p.Steady) :
    o.port.Steady ∧ st.removed o.answer ++ o.port.output = p.output ++ st.accepted o.answer ∧
      Record.overwritten ∉ o.records := by
  obtain ⟨t, hst, hport, hrec⟩ := stepsTo_of_step (offRegisters_of_orderly ho) h
  obtain ⟨hs, hout, hov⟩ := hst.accounts ho hp
  rw [hport] at hs hout
  rw [hrec] at hov
  exact ⟨hs, hout, fun hm => by simpa using hov hm⟩

theorem Executes.accounts {p q : Port} {h : List (Step × Outcome)}
    (he : Executes orderly p h q) (hp : p.Steady) :
    q.Steady ∧ removed h ++ q.output = p.output ++ accepted h ∧
      ∀ x ∈ h, Record.overwritten ∉ x.2.records := by
  induction he with
  | nil => exact ⟨hp, by simp [removed, accepted], by simp⟩
  | @cons p q st o h ho hst _ ih =>
    obtain ⟨hs, hout, hov⟩ := step_accounts ho hst hp
    obtain ⟨hq, hrest, hall⟩ := ih hs
    refine ⟨hq, ?_, ?_⟩
    · calc removed ((st, o) :: h) ++ q.output
          = st.removed o.answer ++ (removed h ++ q.output) := by
            simp only [removed, List.flatMap_cons, List.append_assoc]
        _ = st.removed o.answer ++ o.port.output ++ accepted h := by
            rw [hrest, List.append_assoc]
        _ = p.output ++ accepted ((st, o) :: h) := by
            rw [hout]
            simp only [accepted, List.flatMap_cons, List.append_assoc]
    · intro x hx
      cases List.mem_cons.1 hx with
      | inl e => exact e ▸ hov
      | inr hm => exact hall x hm

theorem output_new (rxSlots txSlots : Nat) (clockHz : UInt32) (trim : Int8) (freeRunning : Bool)
    (hrx : 2 ≤ rxSlots) (htx : 2 ≤ txSlots) :
    (Port.new rxSlots txSlots clockHz trim freeRunning hrx htx).output = [] := by
  simp [output, pending, Port.new, Usart.inFlight]

/-- The transmit path of a new port is a queue that loses nothing, and nothing is overwritten. -/
theorem wire_append_pending_eq_accepted {rxSlots txSlots : Nat} {clockHz : UInt32} {trim : Int8}
    {freeRunning : Bool} {hrx : 2 ≤ rxSlots} {htx : 2 ≤ txSlots} {h : List (Step × Outcome)}
    {p : Port}
    (he : Executes orderly (Port.new rxSlots txSlots clockHz trim freeRunning hrx htx) h p) :
    removed h ++ p.usart.wire ++ p.usart.shifter.toList ++ p.usart.data.toList ++ p.tx.toList =
        accepted h ∧
      ∀ x ∈ h, Record.overwritten ∉ x.2.records := by
  obtain ⟨_, hout, hov⟩ := he.accounts (steady_new ..)
  rw [output_new, List.nil_append] at hout
  refine ⟨?_, hov⟩
  rw [← hout]
  simp only [output, pending, Usart.inFlight, List.append_assoc]

def mixedTraffic : List Step :=
  [.call (.enable 9600 .standard), .call (.write 1), .call (.tryWrite 2),
    .call (.writeBytes [3, 4]), .call (.tryWrite 5), .usart .tick, .call .onTxEmpty, .line .tick,
    .usart .takeWire, .usart (.freeRunning true), .call .pollTx, .call (.enable 19200 .standard),
    .call (.print "a"), .line (.runUntilIdle 1), .call .disable]

theorem wire_append_pending_eq_accepted_mixed :
    ∃ h p, Executes orderly (Port.new 2 3) h p ∧ h.map Prod.fst = mixedTraffic ∧
      accepted h = [1, 2, 3, 4, 97] ∧
      removed h ++ p.usart.wire ++ p.usart.shifter.toList ++ p.usart.data.toList ++ p.tx.toList =
        accepted h ∧
      ∀ x ∈ h, Record.overwritten ∉ x.2.records := by
  obtain ⟨p, _, he⟩ := exists_executes orderly (Port.new 2 3) mixedTraffic (by decide +kernel)
  exact ⟨_, p, he, by decide +kernel, by decide +kernel, wire_append_pending_eq_accepted he⟩

end Port

end SerialPort
