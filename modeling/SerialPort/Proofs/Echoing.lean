import SerialPort.Port.Echo
import SerialPort.Proofs.Reception
import SerialPort.Proofs.Supply

namespace SerialPort

namespace Port

/-- A port that is switched on and holds these bytes to be read, in a buffer of so much room. -/
structure Unread (room : Nat) (bytes : List UInt8) (p : Port) : Prop where
  aligned : p.Aligned
  enabled : p.inbox.enabled = true
  room : p.inbox.capacity = room
  bytes : p.inbox.unread = bytes

/-- A port that has sent one row of bytes and holds another to be sent, in front of a line that only
moves from outside. -/
structure Unsent (room : Nat) (sent bytes : List UInt8) (p : Port) : Prop where
  supplied : p.Supplied
  still : p.usart.freeRunning = false
  room : p.tx.capacity = room
  sent : p.usart.wire = sent
  bytes : p.pending = bytes

end Port

namespace Observed

variable {s t : Observed} {room : Nat} {sent bytes : List UInt8}

theorem unread_of_receiveView (h : t.receiveView = s.receiveView) (hs : s.Unread room bytes) :
    t.Unread room bytes := by
  have hf := follows_of_receiveView hs.aligned h
  exact ⟨hf.aligned, hf.inbox ▸ hs.enabled, hf.inbox ▸ hs.room, hf.inbox ▸ hs.bytes⟩

theorem unsent_of_transmitView (h : t.transmitView = s.transmitView)
    (hs : s.Unsent room sent bytes) : t.Unsent room sent bytes := by
  have hp : t.transmitSide = s.transmitSide := congrArg Prod.fst h
  exact ⟨hs.supplied.of_transmitSide hp,
    (congrArg (fun p : Port => p.usart.freeRunning) hp).trans hs.still,
    (congrArg (fun p : Port => p.tx.capacity) hp).trans hs.room,
    (congrArg (fun p : Port => p.usart.wire) hp).trans hs.sent,
    (congrArg Port.pending hp).trans hs.bytes⟩

theorem unread_inject (hs : s.Unread room bytes) (hroom : bytes.length < room) (b : UInt8) :
    (s.inject b false).2.Unread room (bytes ++ [b]) := by
  have harrive : s.inbox.arrive b false =
      (true, [], { s.inbox with unread := s.inbox.unread ++ [b] }) := by
    rw [Inbox.arrive, if_pos hs.enabled, if_neg Bool.false_ne_true,
      if_pos (by rwa [hs.bytes, hs.room])]
  obtain ⟨-, hf⟩ := follows_inject hs.aligned b false
  rw [harrive] at hf
  exact ⟨hf.aligned, hf.inbox ▸ hs.enabled, hf.inbox ▸ hs.room,
    (congrArg Inbox.unread hf.inbox).trans (congrArg (· ++ [b]) hs.bytes)⟩

theorem unread_read {b : UInt8} (hs : s.Unread room (b :: bytes)) :
    s.read.1 = some b ∧ s.read.2.Unread room bytes := by
  obtain ⟨hb, hf⟩ := follows_read hs.aligned
  rw [hs.bytes] at hb hf
  exact ⟨hb, hf.aligned, hf.inbox ▸ hs.enabled, hf.inbox ▸ hs.room,
    congrArg Inbox.unread hf.inbox⟩

theorem still_of_unsent (hs : s.Unsent room sent bytes) : Still s := ⟨hs.supplied.steady, hs.still⟩

/-- The transmitter has room for two bytes beside those in the buffer, and bytes are queued only
when it is full. So the first try succeeds. -/
theorem exists_tryWrite (hs : s.Unsent room sent bytes) (hroom : bytes.length < room + 2)
    (b : UInt8) : ∃ t, s.tryWrite b = (true, t) ∧ s.send b = some t ∧
      t.receiveView = s.receiveView ∧ t.Unsent room sent (bytes ++ [b]) := by
  have hstill := still_of_unsent hs
  have hends : (s.send b).isSome = true := by
    rwa [hstill.send_isSome_iff, hs.bytes, hs.room]
  have htaken : (s.tryWrite b).1 = true :=
    tryWrite_of_room ((send_isSome_iff_room hs.supplied hs.still b).1 hends) b
  have ht : s.send b = some (s.tryWrite b).2 := pollUntil_of_true htaken _
  have hrow : s.sendBytes [b] = some (s.tryWrite b).2 := (s.sendBytes_singleton b).trans ht
  have hmoves := transmits_send ht
  exact ⟨_, Prod.ext htaken rfl, ht, hmoves.receiveView_eq, supplied_sendBytes hs.supplied hrow,
    (freeRunning_of_transmits hmoves).trans hs.still, hmoves.capacity_tx.trans hs.room,
    (hstill.wire_send ht).trans hs.sent,
    (hstill.pending_sendBytes hrow).trans (congrArg (· ++ [b]) hs.bytes)⟩

theorem sent_tick_of_supplied (h : s.Supplied) : Sent s 1 s.tick.2 := by
  cases hf : s.usart.shifter with
  | some b => exact (sent_tick h.steady hf).2
  | none =>
    have hnone := (h.steady.shifter_eq_none_iff h.served).1 hf
    refine (transmits_tick s).sent h.steady ?_
    rw [hnone, List.take_nil, List.append_nil]
    exact (wire_serviceTx _).trans (congrArg (·.2.wire) (Usart.shiftOut_of_none hf))

theorem unsent_tick (hs : s.Unsent room sent bytes) :
    s.tick.2.Unsent room (sent ++ bytes.take 1) (bytes.drop 1) := by
  have hsent := sent_tick_of_supplied hs.supplied
  have hmoves := transmits_tick s
  exact ⟨supplied_tick hs.supplied, (freeRunning_of_transmits hmoves).trans hs.still,
    hmoves.capacity_tx.trans hs.room, by rw [hsent.wire, hs.sent, hs.bytes],
    by rw [hsent.pending, hs.bytes]⟩

theorem exists_disable (hs : s.Unsent room sent []) :
    (s.written = true → s.drained.1 = true) ∧ ∃ t, s.disable = some t ∧ t.usart.wire = sent := by
  have hsteady := hs.supplied.steady
  obtain ⟨u, hu⟩ := Option.isSome_iff_exists.1 (flush_of_pending_nil hsteady hs.bytes)
  have ht : s.disable = some (u.switchOff.log .ended) := disable_eq_some.2 ⟨u, hu, rfl⟩
  have hoff := retired_disable hsteady ht
  have hout := hoff.output
  rw [Port.output, Port.output, hoff.pending, hs.bytes, List.append_nil, List.append_nil] at hout
  exact ⟨fun hw => fst_drained_of_pending_nil hsteady hw hs.bytes, _, ht, hout.trans hs.sent⟩

/-- An echo that tries each byte once, and gives up if it is refused. -/
def echoAtOnce (s : Observed) : Nat → Option Observed
  | 0 => some s
  | n + 1 =>
    match s.read with
    | (none, s) => some s
    | (some b, s) =>
      let (taken, s) := s.tryWrite (upperCase b)
      if taken then s.echoAtOnce n else none

theorem exists_echo {inRoom outRoom : Nat} {unread : List UInt8} (hr : s.Unread inRoom unread)
    (hs : s.Unsent outRoom sent bytes) (hroom : bytes.length + unread.length ≤ outRoom + 2) :
    ∃ t, s.echo = some t ∧ s.echoAtOnce s.available = some t ∧ t.Unread inRoom [] ∧
      t.Unsent outRoom sent (bytes ++ unread.map upperCase) := by
  have hlen : s.available = unread.length := by
    rw [Port.available, ← Ring.length_toList]
    exact congrArg List.length hr.bytes
  rw [echo, hlen]
  clear hlen
  -- the induction is on what is unread; what is unsent grows meanwhile
  induction unread generalizing s bytes with
  | nil => exact ⟨s, rfl, rfl, hr, by rwa [List.map_nil, List.append_nil]⟩
  | cons b unread ih =>
    obtain ⟨hb, hread⟩ := unread_read hr
    have hs' := unsent_of_transmitView (transmitView_read s) hs
    rw [List.length_cons] at hroom
    obtain ⟨u, htry, hu, hview, hsu⟩ := exists_tryWrite hs' (by omega) (upperCase b)
    obtain ⟨t, ht, honce, hrt, hst⟩ := ih (unread_of_receiveView hview hread) hsu
      (by rw [List.length_append, List.length_singleton]; omega)
    have hsplit : s.read = (some b, s.read.2) := Prod.ext hb rfl
    have hstep : s.echoUpTo (unread.length + 1) = u.echoUpTo unread.length := by
      rw [echoUpTo, hsplit]
      change (s.read.2.write (upperCase b)).bind _ = _
      rw [write, hu]
      rfl
    have htried : s.echoAtOnce (unread.length + 1) = u.echoAtOnce unread.length := by
      rw [echoAtOnce, hsplit]
      simp only [htry, if_true]
    rw [List.append_assoc] at hst
    exact ⟨t, hstep.trans ht, htried.trans honce, hrt, hst⟩

end Observed

namespace Port

variable {p : Port} {inRoom outRoom : Nat} {unread sent unsent : List UInt8}

structure Relays (inRoom outRoom : Nat) (unread sent unsent : List UInt8) (p : Port) : Prop where
  unread : p.Unread inRoom unread
  unsent : p.Unsent outRoom sent unsent

theorem Begun.relays {m : Make} {d : UInt16} {f : FrameWord} (h : p.Begun m false d f) :
    p.Relays m.rxCapacity m.txCapacity [] p.usart.wire [] := by
  have hon : p.inbox.enabled = true := decide_eq_true h.state
  have haligned : p.Aligned :=
    ⟨(congrArg Usart.receiver h.usart).trans hon.symm,
      (congrArg Usart.transmitter h.usart).trans hon.symm,
      (congrArg Usart.rxInterrupt h.usart).trans hon.symm, congrArg Usart.received h.usart⟩
  have hpending : p.pending = [] :=
    (pending_eq_nil_iff p).2
      ⟨h.tx_nil, congrArg Usart.data h.usart, congrArg Usart.shifter h.usart⟩
  have hsteady : p.Steady :=
    steady_of_quiet hpending (congrArg Usart.txInterrupt h.usart) h.written
  exact ⟨⟨haligned, hon, congrArg Make.rxCapacity h.make, h.rx_nil⟩,
    ⟨supplied_of_queue_nil hsteady h.tx_nil, congrArg Usart.freeRunning h.usart,
      congrArg Make.txCapacity h.make, rfl, hpending⟩⟩

theorem relays_of_enable {rxSlots txSlots : Nat} {clockHz : UInt32} {trim : Int8}
    {hrx : 2 ≤ rxSlots} {htx : 2 ≤ txSlots} {baud : UInt32} {frame : FrameWord} {o : Outcome}
    (ho : (Port.new rxSlots txSlots clockHz trim false hrx htx).step (.call (.enable baud frame)) =
      some o) (hok : o.answer = .ok) :
    o.port.Relays (rxSlots - 1) (txSlots - 1) [] [] [] := by
  obtain ⟨d, hd, _, hbegun⟩ := begun_of_step (steady_new ..) ⟨rfl, rfl, rfl, rfl⟩ ho hok
  obtain ⟨o', ho', _, hwire⟩ := step_enable_ok
    (p := Port.new rxSlots txSlots clockHz trim false hrx htx) rfl hd frame
  obtain rfl : o = o' := Option.some.inj (ho.symm.trans ho')
  have hrel := hbegun.relays
  rw [hwire] at hrel
  have hin : (Ring.empty rxSlots hrx).capacity = rxSlots - 1 :=
    congrArg (· - 1) (Ring.size_empty rxSlots hrx)
  have hout : (Ring.empty txSlots htx).capacity = txSlots - 1 :=
    congrArg (· - 1) (Ring.size_empty txSlots htx)
  rw [← hin, ← hout]
  exact hrel

theorem exists_after_arrivals (h : p.Relays inRoom outRoom unread sent unsent)
    (bytes : List UInt8) (hroom : unread.length + bytes.length ≤ inRoom) :
    ∃ q, p.after (bytes.map fun b => .line (.inject b false)) = some q ∧
      q.Relays inRoom outRoom (unread ++ bytes) sent unsent := by
  induction bytes generalizing p unread with
  | nil => exact ⟨p, rfl, by rwa [List.append_nil]⟩
  | cons b bytes ih =>
    rw [List.length_cons] at hroom
    have hone : (p.observe.inject b false).2.Relays inRoom outRoom (unread ++ [b]) sent unsent :=
      ⟨Observed.unread_inject (s := p.observe) h.unread (by omega) b,
        Observed.unsent_of_transmitView (Observed.transmitView_inject p.observe b false) h.unsent⟩
    obtain ⟨q, hq, hrel⟩ := ih hone (by rw [List.length_append, List.length_singleton]; omega)
    rw [List.append_assoc] at hrel
    exact ⟨q, hq, hrel⟩

theorem exists_after_ticks (h : p.Relays inRoom outRoom unread sent unsent) (ticks : Nat) :
    ∃ q, p.after (List.replicate ticks (.line .tick)) = some q ∧
      q.Relays inRoom outRoom unread (sent ++ unsent.take ticks) (unsent.drop ticks) := by
  induction ticks generalizing p sent unsent with
  | zero => exact ⟨p, rfl, by simpa using h⟩
  | succ ticks ih =>
    have hone : p.observe.tick.2.Relays inRoom outRoom unread (sent ++ unsent.take 1)
        (unsent.drop 1) :=
      ⟨Observed.unread_of_receiveView (Observed.transmits_tick p.observe).receiveView_eq h.unread,
        Observed.unsent_tick (s := p.observe) h.unsent⟩
    obtain ⟨q, hq, hrel⟩ := ih hone
    rw [List.append_assoc, ← List.take_add, List.drop_drop, Nat.add_comm 1 ticks] at hrel
    exact ⟨q, hq, hrel⟩

end Port

end SerialPort
