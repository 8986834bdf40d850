import SerialPort.Proofs.FreeRunning
import SerialPort.Proofs.Session

namespace SerialPort

/-- Bytes wait only behind a byte that is being shifted out, so the data register is taken exactly
if both registers are. -/
theorem Port.Steady.data_eq_none_iff {p : Port} (h : p.Steady) :
    p.usart.data = none ↔ p.usart.inFlight.length < 2 := by
  cases hs : p.usart.shifter with
  | none => simp [Usart.inFlight, hs, h.shifting hs]
  | some b => cases hd : p.usart.data <;> simp [Usart.inFlight, hs, hd]

theorem Port.length_pending (p : Port) :
    p.pending.length = p.usart.inFlight.length + p.tx.length := by
  rw [pending, List.length_append, Ring.length_toList]

theorem Port.length_pending_le (p : Port) : p.pending.length ≤ p.tx.capacity + 2 := by
  have htwo := p.usart.length_inFlight_le_two
  have hle := p.tx.length_le_capacity
  rw [length_pending]
  omega

namespace Observed

/-- Between two steps, on a line that only moves from outside. -/
structure Still (s : Observed) : Prop where
  steady : s.Steady
  still : s.usart.freeRunning = false

variable {s r : Observed}

theorem Still.of_transmits {t : Observed} {bs : List UInt8} (h : Still s)
    (ht : Transmits s bs t) : Still t :=
  ⟨(ht.sends h.steady).steady, (freeRunning_of_transmits ht).trans h.still⟩

theorem wire_tryWrite (hf : s.usart.freeRunning = false) (b : UInt8) :
    (s.tryWrite b).2.usart.wire = s.usart.wire := by
  have hp : s.transmitterFree.2.toPort = s.toPort := by
    rw [toPort_transmitterFree, Usart.clock_of_not_freeRunning hf, ite_self]
  rw [tryWrite_eq]
  split
  · change (s.transmitterFree.2.load b).usart.wire = _
    rw [toPort_load, hp]
    exact Usart.wire_putData s.usart b
  · cases s.transmitterFree.2.tx.push? b with
    | none => exact congrArg (·.usart.wire) hp
    | some tx =>
      change (Observed.store _ (.interrupt .txEmpty true)).usart.wire = _
      rw [toPort_store]
      exact congrArg (·.usart.wire) hp

theorem Still.wire_send (h : Still s) {b : UInt8} (hw : s.send b = some r) :
    r.usart.wire = s.usart.wire := by
  have hkept : Still r ∧ r.usart.wire = s.usart.wire := by
    refine pollUntil_keeps (P := fun t => Still t ∧ t.usart.wire = s.usart.wire) ?_ ?_ ⟨h, rfl⟩ hw
    · intro t ht
      exact ⟨ht.1.of_transmits (transmits_tryWrite t b), (wire_tryWrite ht.1.still b).trans ht.2⟩
    · intro t ht
      exact ⟨ht.1.of_transmits (transmits_pollTx t), (wire_pollTx ht.1.still).trans ht.2⟩
  exact hkept.2

theorem Still.wire_sendBytes (h : Still s) {bs : List UInt8} (hw : s.sendBytes bs = some r) :
    r.usart.wire = s.usart.wire := by
  induction bs generalizing s with
  | nil =>
    cases hw
    rfl
  | cons b bs ih =>
    obtain ⟨t, hb, hbs⟩ := Option.bind_eq_some_iff.1 hw
    exact (ih (h.of_transmits (transmits_send hb)) hbs).trans (h.wire_send hb)

theorem Still.pending_sendBytes (h : Still s) {bs : List UInt8} (hw : s.sendBytes bs = some r) :
    r.pending = s.pending ++ bs := by
  have ho := ((transmits_sendBytes hw).sends h.steady).output
  rw [Port.output, Port.output, h.wire_sendBytes hw, List.append_assoc] at ho
  exact List.append_cancel_left ho

theorem Still.send_spins (h : Still s) (hfull : s.pending.length = s.tx.capacity + 2) (b : UInt8)
    (polls : Nat) : s.pollUntil (·.tryWrite b) polls = none := by
  have htwo := s.usart.length_inFlight_le_two
  have hle := s.tx.length_le_capacity
  rw [Port.length_pending] at hfull
  have htx : s.tx.length = s.tx.capacity := by omega
  have hd : ¬ s.usart.data = none := by
    rw [h.steady.data_eq_none_iff]
    omega
  have hi : s.usart.txInterrupt = true :=
    h.steady.interrupt_iff.2 (Ring.toList_ne_nil_of_full htx)
  have hc := Usart.clock_of_not_freeRunning h.still
  have hw := tryWrite_of_full h.steady.interrupt_iff htx b
  refine pollUntil_eq_none (watches_tryWrite b) (congrArg Prod.fst hw) ?_ polls
  rw [hw, pollTx_eq, toPort_interruptEnabled, if_pos hi, hc, if_neg (by simpa using hd),
    toPort_txEmpty]
  exact congrArg (fun u => ({ s.toPort with usart := u } : Port)) hc

/-- A byte fits if any place is free, be it in the data register behind a full buffer. -/
theorem Still.send_isSome_iff (h : Still s) (b : UInt8) :
    (s.send b).isSome = true ↔ s.pending.length < s.tx.capacity + 2 := by
  constructor
  · intro hw
    refine Nat.lt_of_le_of_ne s.length_pending_le fun hfull => ?_
    rw [send, h.send_spins hfull b] at hw
    cases hw
  · intro hlt
    have hends : ∃ polls r, s.pollUntil (·.tryWrite b) polls = some r := by
      by_cases hroom : s.tx.length < s.tx.capacity
      · exact ⟨0, _, pollUntil_of_true (tryWrite_of_room hroom b) 0⟩
      · have hd : s.usart.data = none := by
          rw [h.steady.data_eq_none_iff]
          rw [Port.length_pending] at hlt
          omega
        rw [← Usart.clock_of_not_freeRunning h.still] at hd
        exact ⟨1, send_polls_once h.steady hd b⟩
    obtain ⟨polls, r, hr⟩ := hends
    rw [(send_eq_some_iff s r b).2 ⟨polls, hr⟩]
    rfl

theorem Still.capacity_pending_send (h : Still s) {b : UInt8} (hw : s.send b = some r) :
    Still r ∧ r.tx.capacity = s.tx.capacity ∧ r.pending.length = s.pending.length + 1 := by
  have ht := transmits_send hw
  have hb : s.sendBytes [b] = some r := (s.sendBytes_singleton b).trans hw
  refine ⟨h.of_transmits ht, ht.capacity_tx, ?_⟩
  rw [h.pending_sendBytes hb, List.length_append, List.length_singleton]

/-- A row of bytes waits for ever if, after some of them, the wait for the next one does. -/
def SpinsOn (s : Observed) (bs : List UInt8) : Prop :=
  ∃ as b cs r, bs = as ++ b :: cs ∧ s.writeBytes as = some (as.length, r) ∧
    ∀ polls, r.pollUntil (·.tryWrite b) polls = none

theorem Still.sendBytes_cases (h : Still s) (bs : List UInt8) :
    (∃ r, s.sendBytes bs = some r ∧ s.pending.length + bs.length ≤ s.tx.capacity + 2) ∨
      s.sendBytes bs = none ∧ s.tx.capacity + 2 < s.pending.length + bs.length ∧
        s.SpinsOn bs := by
  induction bs generalizing s with
  | nil => exact .inl ⟨s, rfl, s.length_pending_le⟩
  | cons b bs ih =>
    have hiff := h.send_isSome_iff b
    cases hw : s.send b with
    | none =>
      have hle := s.length_pending_le
      have hfull : s.pending.length = s.tx.capacity + 2 := by
        rw [hw] at hiff
        simp only [Option.isSome_none, Bool.false_eq_true, false_iff] at hiff
        omega
      refine .inr ⟨?_, ?_, [], b, bs, s, rfl, rfl, h.send_spins hfull b⟩
      · rw [sendBytes, hw]
        rfl
      · rw [List.length_cons]
        omega
    | some t =>
      obtain ⟨ht, hcap, hlen⟩ := h.capacity_pending_send hw
      have hbind : s.sendBytes (b :: bs) = t.sendBytes bs := by
        rw [sendBytes, hw]
        rfl
      rw [hbind, List.length_cons]
      rcases ih ht with ⟨r, hr, hfits⟩ | ⟨hr, hfits, as, c, cs, u, rfl, hu, hspin⟩
      · exact .inl ⟨r, hr, by omega⟩
      · refine .inr ⟨hr, by omega, b :: as, c, cs, u, rfl, ?_, hspin⟩
        rw [writeBytes_eq_some_iff] at hu ⊢
        rw [sendBytes, hw]
        exact hu

end Observed

namespace Port

/-- The bytes in the transmitter and, as the free slots tell, those in a buffer of so many slots. -/
def held (slots : Nat) (p : Port) : Nat :=
  p.usart.inFlight.length + (slots - 1 - p.availableForWrite)

variable {p q : Port} {h : List (Step × Outcome)}

theorem held_eq {slots : Nat} (hc : p.tx.capacity = slots - 1) :
    p.held slots = p.pending.length := by
  have hle := p.tx.length_le_capacity
  rw [held, availableForWrite, Ring.free, length_pending]
  omega

theorem Executes.capacity_tx (he : Executes (fun _ st => st.offRegisters) p h q) :
    q.tx.capacity = p.tx.capacity := by
  refine he.keeps (P := fun r => r.tx.capacity = p.tx.capacity) (fun r st o hl hr ho => ?_) rfl
  obtain ⟨t, ht, hport, _⟩ := stepsTo_of_step hl ho
  rw [← hport]
  exact ht.capacity_tx.trans hr

/-- On a line that stands still a write ends exactly if all its bytes fit, and puts nothing on the
wire; otherwise it spins on the first byte too many. -/
theorem writes_end_iff_fit {rxSlots txSlots : Nat} {clockHz : UInt32} {trim : Int8}
    {freeRunning : Bool} {hrx : 2 ≤ rxSlots} {htx : 2 ≤ txSlots} {c : Call} {bs : List UInt8}
    (he : Executes (fun _ st => st.offRegisters)
      (Port.new rxSlots txSlots clockHz trim freeRunning hrx htx) h p)
    (hf : p.usart.freeRunning = false) (hc : c.written? = some bs) :
    ((p.step (.call c)).isSome = true ↔ p.held txSlots + bs.length ≤ txSlots + 1) ∧
    (∀ o, p.step (.call c) = some o →
      o.port.held txSlots = p.held txSlots + bs.length ∧ o.port.usart.wire = p.usart.wire) ∧
    (p.step (.call c) = none → p.observe.SpinsOn bs) := by
  have hstill : Observed.Still p.observe := ⟨he.steady (steady_new ..), hf⟩
  have hcap : p.tx.capacity = txSlots - 1 := by
    rw [he.capacity_tx]
    exact congrArg (· - 1) (Ring.size_empty txSlots htx)
  have hstep : p.step (.call c) =
      (p.observe.sendBytes bs).map fun r => ⟨c.receipt, r.toPort, r.events.toList⟩ := by
    rw [step, Observed.runStep, p.observe.runCall_of_written hc, Option.map_map]
    rfl
  rw [held_eq hcap]
  rcases hstill.sendBytes_cases bs with ⟨r, hr, hfits⟩ | ⟨hr, hfits, hspin⟩
  · have hcap' : r.tx.capacity = txSlots - 1 :=
      (Observed.transmits_sendBytes hr).capacity_tx.trans hcap
    rw [Observed.toPort_observe, hcap] at hfits
    rw [hr, Option.map_some] at hstep
    rw [hstep]
    refine ⟨⟨fun _ => by omega, fun _ => rfl⟩, fun o ho => ?_, fun hn => by cases hn⟩
    cases ho
    refine ⟨?_, hstill.wire_sendBytes hr⟩
    rw [held_eq hcap', hstill.pending_sendBytes hr, List.length_append]
    rfl
  · rw [Observed.toPort_observe, hcap] at hfits
    rw [hr, Option.map_none] at hstep
    rw [hstep]
    refine ⟨⟨fun hn => ?_, fun hle => ?_⟩, fun o ho => ?_, fun _ => hspin⟩
    · cases hn
    · omega
    · cases ho

def crampedTraffic : List Step :=
  [.call (.enable 9600 .standard), .call (.writeBytes [1, 2]), .call (.tryWrite 3),
    .call (.tryWrite 4), .usart .tick]

theorem writes_end_iff_fit_cramped :
    ∃ h p, Executes (fun _ st => st.offRegisters) (Port.new 2 2) h p ∧
      h.map Prod.fst = crampedTraffic ∧ p.usart.freeRunning = false ∧ p.usart.data = none ∧
      p.availableForWrite = 0 ∧
      (∃ o, p.step (.call (.print "a")) = some o ∧ o.port.held 2 = 3 ∧ o.port.usart.wire = [1]) ∧
      p.step (.call (.writeBytes [5, 6])) = none ∧ p.observe.SpinsOn [5, 6] := by
  obtain ⟨p, hp, he⟩ := exists_executes (fun _ st => st.offRegisters) (Port.new 2 2)
    crampedTraffic (by decide +kernel)
  have hstate : ((Port.new 2 2).after crampedTraffic).all (fun q =>
      q.usart.freeRunning = false ∧ q.usart.data = none ∧ q.availableForWrite = 0 ∧
        q.held 2 = 2 ∧ q.usart.wire = [1]) = true := by
    decide +kernel
  rw [hp, Option.all_some, decide_eq_true_iff] at hstate
  obtain ⟨hf, hd, hfull, hheld, hwire⟩ := hstate
  have hone : Call.written? (.print "a") = some [97] := by decide +kernel
  obtain ⟨hfits, hkept, _⟩ := writes_end_iff_fit he hf hone
  obtain ⟨o, ho⟩ := Option.isSome_iff_exists.1 (hfits.2 (by simp [hheld]))
  obtain ⟨hgrown, hsame⟩ := hkept o ho
  obtain ⟨htwo, _, hspins⟩ := writes_end_iff_fit he hf (c := .writeBytes [5, 6]) rfl
  have hnone : p.step (.call (.writeBytes [5, 6])) = none := by
    rw [← Option.not_isSome_iff_eq_none, htwo, hheld]
    decide
  exact ⟨_, p, he, by decide +kernel, hf, hd, hfull,
    ⟨o, ho, by rw [hgrown, hheld]; rfl, hsame.trans hwire⟩, hnone, hspins hnone⟩

end Port

end SerialPort
