import SerialPort.Port.Waiting
import SerialPort.Proofs.Execution

namespace SerialPort.Observed

def records (s : Observed) : List Record := s.events.toList.filterMap Event.record?

@[simp] theorem records_observe (p : Port) : p.observe.records = [] := rfl

@[simp] theorem records_note_load (s : Observed) (r : Reading) :
    (s.note (.load r)).records = s.records := by
  simp [records, note, Event.record?]

@[simp] theorem records_note_store (s : Observed) (w : RegisterWrite) :
    (s.note (.store w)).records = s.records := by
  simp [records, note, Event.record?]

@[simp] theorem records_log (s : Observed) (r : Record) : (s.log r).records = s.records ++ [r] := by
  simp [records, log, note, Event.record?]

theorem records_store (s : Observed) (w : RegisterWrite) :
    (s.store w).records =
      s.records ++ if (s.usart.displaced w).isSome then [.overwritten] else [] := by
  have hn : ({ s with usart := s.usart.store w }.note (.store w)).records = s.records :=
    records_note_store _ w
  rw [store, warnIf]
  split
  · rw [records_log, hn]
  · rw [hn, List.append_nil]

def load (s : Observed) (b : UInt8) : Observed := (s.store (.data b)).store .clearTxComplete

/-- The moves of the transmitter, with the bytes that they accept for sending. Every call that sends
or waits, and every event of the line that clocks bytes out, is made of them. -/
inductive Transmits : Observed → List UInt8 → Observed → Prop
  | refl (s : Observed) : Transmits s [] s
  | trans {s t u : Observed} {as bs : List UInt8} :
      Transmits s as t → Transmits t bs u → Transmits s (as ++ bs) u
  | look (s : Observed) (r : Reading) : Transmits s [] (s.note (.load r))
  | shift (s : Observed) : Transmits s [] { s with usart := s.usart.shiftOut.2 }
  | serve (s : Observed) : s.usart.txInterruptPending = true → Transmits s [] s.onTxEmpty
  | send (s : Observed) (b : UInt8) : s.usart.txInterrupt = false → s.usart.data = none →
      Transmits s [b] { s.load b with written := true }
  | queue (s : Observed) (b : UInt8) (tx : Ring) :
      s.usart.txInterrupt = true ∨ s.usart.data ≠ none → s.tx.push? b = some tx →
      Transmits s [b] ({ s with tx, written := true }.store (.interrupt .txEmpty true))

theorem Transmits.after {s t u : Observed} {bs : List UInt8} (h : Transmits s [] t)
    (h' : Transmits t bs u) : Transmits s bs u := .trans h h'

theorem transmits_clock (s : Observed) : Transmits s [] { s with usart := s.usart.clock } := by
  rw [Usart.clock]
  split
  · exact .shift s
  · exact .refl s

theorem transmits_txEmpty (s : Observed) : Transmits s [] s.txEmpty.2 :=
  (transmits_clock s).after (.look _ _)

theorem transmits_txComplete (s : Observed) : Transmits s [] s.txComplete.2 :=
  (transmits_clock s).after (.look _ _)

theorem transmits_transmitterFree (s : Observed) : Transmits s [] s.transmitterFree.2 := by
  have hl : Transmits s [] (s.interruptEnabled .txEmpty).2 := .look s _
  change Transmits s [] (if s.usart.txInterrupt then _ else _ : Bool × Observed).2
  split
  · exact hl
  · exact hl.after (transmits_txEmpty _)

theorem transmits_drained (s : Observed) : Transmits s [] s.drained.2 := by
  have hl : Transmits s [] (s.interruptEnabled .txEmpty).2 := .look s _
  change Transmits s [] (if s.usart.txInterrupt then _ else _ : Bool × Observed).2
  split
  · exact hl
  · exact hl.after (transmits_txComplete _)

theorem transmits_pollTx (s : Observed) : Transmits s [] s.pollTx := by
  have hl : Transmits s [] (s.interruptEnabled .txEmpty).2 := .look s _
  have he := hl.after (transmits_txEmpty _)
  rw [pollTx_eq]
  split
  next hi =>
    split
    next hd =>
      refine he.after (.serve _ ?_)
      simpa [Usart.txInterruptPending, hi] using hd
    next => exact he
  next => exact hl

theorem transmits_tryWrite (s : Observed) (b : UInt8) :
    Transmits s (if (s.tryWrite b).1 then [b] else []) (s.tryWrite b).2 := by
  have hf := transmits_transmitterFree s
  have ht : s.transmitterFree.2.usart.txInterrupt = s.usart.txInterrupt := by
    rw [toPort_transmitterFree]
    split <;> simp
  have hd : s.transmitterFree.1 = true ↔
      s.transmitterFree.2.usart.txInterrupt = false ∧ s.transmitterFree.2.usart.data = none := by
    rw [fst_transmitterFree, toPort_transmitterFree]
    cases hi : s.usart.txInterrupt <;> simp [hi]
  rw [tryWrite_eq]
  split
  next h => exact hf.after (.send _ b (hd.1 h).1 (hd.1 h).2)
  next h =>
    cases hp : s.transmitterFree.2.tx.push? b with
    | none => exact hf
    | some tx =>
      refine hf.after (.queue _ b tx ?_ hp)
      by_cases hi : s.transmitterFree.2.usart.txInterrupt = true
      · exact .inl hi
      · exact .inr fun hn => h (hd.2 ⟨by simpa using hi, hn⟩)

/-- A wait ends with its test: what passes before is moves alone. -/
theorem pollUntil_some {test : Observed → Bool × Observed}
    (ht : ∀ s, (test s).1 = false → Transmits s [] (test s).2) {s r : Observed} {n : Nat}
    (h : s.pollUntil test n = some r) :
    ∃ t, Transmits s [] t ∧ (test t).1 = true ∧ r = (test t).2 := by
  induction n generalizing s with
  | zero =>
    rw [pollUntil_zero] at h
    split at h
    next hd => exact ⟨s, .refl s, hd, (Option.some.inj h).symm⟩
    next => cases h
  | succ n ih =>
    rw [pollUntil_succ] at h
    split at h
    next hd => exact ⟨s, .refl s, hd, (Option.some.inj h).symm⟩
    next hd =>
      obtain ⟨t, hst, htt, hr⟩ := ih h
      have hs := (ht s (by simpa using hd)).after (transmits_pollTx _)
      exact ⟨t, hs.after hst, htt, hr⟩

theorem pollUntil_keeps {P : Observed → Prop} {test : Observed → Bool × Observed}
    (htest : ∀ s, P s → P (test s).2) (hpoll : ∀ s, P s → P s.pollTx) {s r : Observed}
    {n : Nat} (hs : P s) (h : s.pollUntil test n = some r) : P r := by
  induction n generalizing s with
  | zero =>
    rw [pollUntil_zero] at h
    split at h <;> cases h
    exact htest s hs
  | succ n ih =>
    rw [pollUntil_succ] at h
    split at h
    · cases h
      exact htest s hs
    · exact ih (hpoll _ (htest s hs)) h

theorem transmits_send {s r : Observed} {b : UInt8} (h : s.send b = some r) :
    Transmits s [b] r := by
  obtain ⟨t, hst, htt, hr⟩ := pollUntil_some (fun u hu => by
    simpa [hu] using transmits_tryWrite u b) h
  have hw := transmits_tryWrite t b
  rw [if_pos htt, ← hr] at hw
  exact hst.after hw

def sendBytes (s : Observed) : List UInt8 → Option Observed
  | [] => some s
  | b :: bs => (s.send b).bind (·.sendBytes bs)

theorem sendBytes_singleton (s : Observed) (b : UInt8) : s.sendBytes [b] = s.send b :=
  Option.bind_fun_some _

theorem writeBytes_eq (s : Observed) (bs : List UInt8) :
    s.writeBytes bs = (s.sendBytes bs).map (bs.length, ·) := by
  induction bs generalizing s with
  | nil => rfl
  | cons b bs ih =>
    rw [sendBytes, writeBytes, write]
    cases s.send b with
    | none => rfl
    | some t =>
      change (t.writeBytes bs).bind _ = (t.sendBytes bs).map _
      rw [ih]
      cases t.sendBytes bs with
      | none => rfl
      | some r =>
        change some (1 + bs.length, r) = some (bs.length + 1, r)
        rw [Nat.add_comm]

theorem writeBytes_eq_some_iff {s r : Observed} {bs : List UInt8} :
    s.writeBytes bs = some (bs.length, r) ↔ s.sendBytes bs = some r := by
  rw [writeBytes_eq]
  simp

theorem transmits_sendBytes {s r : Observed} {bs : List UInt8} (h : s.sendBytes bs = some r) :
    Transmits s bs r := by
  induction bs generalizing s with
  | nil =>
    cases h
    exact .refl _
  | cons b bs ih =>
    obtain ⟨t, hb, hbs⟩ := Option.bind_eq_some_iff.1 h
    exact (transmits_send hb).trans (ih hbs)

theorem transmits_flush {s r : Observed} (h : s.flush = some r) : Transmits s [] r := by
  rw [flush] at h
  split at h
  · obtain ⟨t, hst, _, hr⟩ := pollUntil_some (fun u _ => transmits_drained u) h
    exact hr ▸ hst.after (transmits_drained t)
  · cases h
    exact .refl _

/-- A write takes the whole of what it is given, so the first one leaves nothing for a second. -/
theorem writeAll_eq (s : Observed) (bs : List UInt8) : s.writeAll bs = s.sendBytes bs := by
  cases bs with
  | nil => rfl
  | cons b bs =>
    have hnone (t : Observed) (n : Nat) : t.writeAllWithin [] n = some t := by cases n <;> rfl
    change (s.streamWrite (b :: bs)).bind _ = _
    rw [streamWrite, writeBytes_eq, Option.bind_map]
    cases s.sendBytes (b :: bs) with
    | none => rfl
    | some t =>
      change t.writeAllWithin ((b :: bs).drop (b :: bs).length) bs.length = some t
      rw [List.drop_length, hnone]

/-- All forms of writing are one, but for what they answer. -/
theorem runCall_of_written (s : Observed) {c : Port.Call} {bs : List UInt8}
    (hc : c.written? = some bs) : s.runCall c = (s.sendBytes bs).map (c.receipt, ·) := by
  cases c with
  | write b =>
    cases hc
    rw [runCall, write, Option.map_map, sendBytes_singleton]
    rfl
  | writeBytes bs =>
    cases hc
    rw [runCall, writeBytes_eq, Option.map_map]
    rfl
  | streamWrite bs =>
    cases hc
    rw [runCall, streamWrite, writeBytes_eq, Option.map_map]
    rfl
  | writeAll bs =>
    cases hc
    rw [runCall, writeAll_eq]
    rfl
  | print text =>
    cases hc
    rw [runCall, print, writeBytes_eq, Option.map_map, Option.map_map]
    rfl
  | _ => cases hc

theorem transmits_serviceTx (s : Observed) : Transmits s [] s.serviceTx.2 := by
  rw [serviceTx]
  split
  next h => exact .serve s h
  next => exact .refl s

theorem transmits_tick (s : Observed) : Transmits s [] s.tick.2 :=
  (Transmits.shift s).after (transmits_serviceTx _)

theorem runUntilIdle_succ (s : Observed) (limit : Nat) :
    s.runUntilIdle (limit + 1) =
      if s.serviceTx.2.lineQuiet then (0, s.serviceTx.2)
      else
        (s.serviceTx.2.tick.1.isSome.toNat + (s.serviceTx.2.tick.2.runUntilIdle limit).1,
          (s.serviceTx.2.tick.2.runUntilIdle limit).2) := rfl

theorem transmits_runUntilIdle (s : Observed) (limit : Nat) :
    Transmits s [] (s.runUntilIdle limit).2 := by
  induction limit generalizing s with
  | zero => exact .refl s
  | succ limit ih =>
    have hs := transmits_serviceTx s
    rw [runUntilIdle_succ]
    split
    · exact hs
    · exact (hs.after (transmits_tick _)).after (ih _)

end SerialPort.Observed

namespace SerialPort.Observed

theorem transmits_of_runCall {s t : Observed} {c : Port.Call} {a : Answer}
    (hc : (Port.Step.call c).side = .transmit) (h : s.runCall c = some (a, t)) :
    Transmits s ((Port.Step.call c).accepted a) t := by
  cases hw : c.written? with
  | some bs =>
    rw [s.runCall_of_written hw] at h
    obtain ⟨r, hr, e⟩ := Option.map_eq_some_iff.1 h
    cases e
    rw [Port.Call.accepted_of_written hw]
    exact transmits_sendBytes hr
  | none =>
    cases c with
    | flush =>
      obtain ⟨r, hr, e⟩ := Option.map_eq_some_iff.1 h
      cases e
      exact transmits_flush hr
    | pollTx =>
      cases h
      exact transmits_pollTx s
    | tryWrite b =>
      have hsent := transmits_tryWrite s b
      change some (if (s.tryWrite b).1 then Answer.ok else .wouldBlock, (s.tryWrite b).2) = _ at h
      cases ht : (s.tryWrite b).1 <;> rw [ht] at h hsent <;> cases h <;> exact hsent
    | write | writeBytes | streamWrite | writeAll | print => cases hw
    | _ => cases hc

theorem transmits_of_runStep {s t : Observed} {st : Port.Step} {a : Answer}
    (hst : st.side = .transmit) (h : s.runStep st = some (a, t)) :
    Transmits s (st.accepted a) t := by
  cases st with
  | call c => exact transmits_of_runCall hst h
  | line e =>
    cases e with
    | tick =>
      cases h
      exact transmits_tick s
    | serviceTx =>
      cases h
      exact transmits_serviceTx s
    | runUntilIdle limit =>
      cases h
      exact transmits_runUntilIdle s limit
    | _ => cases hst
  | usart op =>
    cases op with
    | tick =>
      cases h
      exact .shift s
    | _ => cases hst

theorem look_of_runStep {s t : Observed} {st : Port.Step} {a : Answer} (hst : st.side = .look)
    (h : s.runStep st = some (a, t)) : t.toPort = s.toPort ∧ t.records = s.records := by
  cases st with
  | call c =>
    cases c with
    | trim =>
      cases h
      exact ⟨rfl, records_note_load s _⟩
    | state | isEnabled | clockHz | availableForWrite | writeReady =>
      cases h
      exact ⟨rfl, rfl⟩
    | _ => cases hst
  | line e => cases e <;> cases hst
  | usart op =>
    cases op with
    | wire =>
      cases h
      exact ⟨rfl, rfl⟩
    | _ => cases hst

end SerialPort.Observed
