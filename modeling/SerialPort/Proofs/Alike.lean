import SerialPort.Proofs.Steps

namespace SerialPort

theorem rel_map {α β γ δ : Type} {R : α → β → Prop} {S : γ → δ → Prop} {x : Option α} {y : Option β}
    {f : α → γ} {g : β → δ} (h : Option.Rel R x y) (hf : ∀ a b, R a b → S (f a) (g b)) :
    Option.Rel S (x.map f) (y.map g) := by
  cases h with
  | some h => exact .some (hf _ _ h)
  | none => exact .none

theorem rel_bind {α β γ δ : Type} {R : α → β → Prop} {S : γ → δ → Prop} {x : Option α}
    {y : Option β} {f : α → Option γ} {g : β → Option δ} (h : Option.Rel R x y)
    (hf : ∀ a b, R a b → Option.Rel S (f a) (g b)) : Option.Rel S (x.bind f) (y.bind g) := by
  cases h with
  | some h => exact hf _ _ h
  | none => exact .none

structure Ring.Alike (r q : Ring) : Prop where
  capacity_eq : r.capacity = q.capacity
  toList_eq : r.toList = q.toList

/-- The second is the first but for bytes that left `before`, and for the flag if nothing was `sent`
since. -/
inductive Usart.Alike (before : List UInt8) (sent : Bool) (u : Usart) : Usart → Prop
  | intro (complete : Bool) : (sent = true → complete = u.txComplete) →
      Alike before sent u { u with wire := before ++ u.wire, txComplete := complete }

structure Port.Alike (before : List UInt8) (sent : Bool) (p q : Port) : Prop where
  usart : p.usart.Alike before sent q.usart
  clockHz : p.clockHz = q.clockHz
  rx : p.rx.Alike q.rx
  tx : p.tx.Alike q.tx
  written : p.written = q.written
  state : p.state = q.state

structure Observed.Alike (before : List UInt8) (sent : Bool) (s t : Observed) : Prop
    extends Port.Alike before sent s.toPort t.toPort where
  events : s.events = t.events

/-- An operation gives the same on two ports and leaves them alike. -/
structure Observed.Agree {α : Type} (before : List UInt8) (sent : Bool) (x y : α × Observed) :
    Prop where
  result : x.1 = y.1
  alike : Alike before sent x.2 y.2

namespace Ring.Alike

variable {r q : Ring}

theorem length_eq (h : r.Alike q) : r.length = q.length := by
  rw [← length_toList, ← length_toList, h.toList_eq]

theorem free_eq (h : r.Alike q) : r.free = q.free := by
  rw [free, free, h.capacity_eq, h.length_eq]

theorem isEmpty_eq (h : r.Alike q) : r.isEmpty = q.isEmpty := by
  rw [Bool.eq_iff_iff, ← toList_eq_nil_iff, ← toList_eq_nil_iff, h.toList_eq]

theorem peek?_eq (h : r.Alike q) : r.peek? = q.peek? := by
  rw [peek?_eq_head?, peek?_eq_head?, h.toList_eq]

theorem pop?_cases (h : r.Alike q) :
    (r.pop? = none ∧ q.pop? = none) ∨
      ∃ b r' q', r.pop? = some (b, r') ∧ q.pop? = some (b, q') ∧ r'.Alike q' := by
  cases hr : r.pop? with
  | none =>
    have he := (pop?_eq_none_iff r).1 hr
    rw [h.isEmpty_eq] at he
    exact .inl ⟨rfl, (pop?_eq_none_iff q).2 he⟩
  | some x =>
    cases hq : q.pop? with
    | none =>
      have he := (pop?_eq_none_iff q).1 hq
      rw [← h.isEmpty_eq, ← pop?_eq_none_iff, hr] at he
      cases he
    | some y =>
      obtain ⟨b, r'⟩ := x
      obtain ⟨c, q'⟩ := y
      have hl := h.toList_eq
      rw [toList_pop hr, toList_pop hq] at hl
      obtain ⟨rfl, hrest⟩ := List.cons.inj hl
      refine .inr ⟨b, r', q', rfl, rfl, ?_, hrest⟩
      rw [capacity, size_pop hr, capacity, size_pop hq]
      exact h.capacity_eq

theorem push? (h : r.Alike q) (b : UInt8) : Option.Rel Alike (r.push? b) (q.push? b) := by
  have hsome : (r.push? b).isSome ↔ (q.push? b).isSome := by
    rw [push?_isSome_iff, push?_isSome_iff, h.length_eq, h.capacity_eq]
  cases hr : r.push? b with
  | none =>
    cases hq : q.push? b with
    | none => exact .none
    | some q' => simp [hr, hq] at hsome
  | some r' =>
    cases hq : q.push? b with
    | none => simp [hr, hq] at hsome
    | some q' =>
      refine .some ⟨?_, ?_⟩
      · rw [capacity, size_push hr, capacity, size_push hq]
        exact h.capacity_eq
      · rw [toList_push hr, toList_push hq, h.toList_eq]

theorem discard (h : r.Alike q) : r.discard.Alike q.discard :=
  ⟨h.capacity_eq, by simp⟩

theorem reset (h : r.Alike q) : r.reset.Alike q.reset :=
  ⟨h.capacity_eq, by simp⟩

end Ring.Alike

namespace Usart.Alike

variable {before : List UInt8} {sent : Bool} {u v : Usart}

theorem of_eq {complete : Bool}
    (h : v = { u with wire := before ++ u.wire, txComplete := complete })
    (hc : sent = true → complete = u.txComplete) : u.Alike before sent v :=
  h ▸ .intro complete hc

theorem mono (h : u.Alike before true v) : u.Alike before sent v := by
  cases h with
  | intro complete hc => exact .intro complete fun _ => hc rfl

theorem store (h : u.Alike before sent v) (w : RegisterWrite) :
    (u.store w).Alike before sent (v.store w) := by
  cases h with
  | intro complete hc =>
    cases w with
    | data b =>
      simp only [Usart.store, putData]
      split <;> exact .intro complete hc
    | interrupt i on => cases i <;> exact .intro complete hc
    | clearTxComplete => exact .intro false fun _ => rfl
    | _ => exact .intro complete hc

theorem store_clearTxComplete (h : u.Alike before sent v) :
    (u.store .clearTxComplete).Alike before true (v.store .clearTxComplete) := by
  cases h with
  | intro => exact .intro false fun _ => rfl

theorem shiftOut (h : u.Alike before sent v) :
    u.shiftOut.1 = v.shiftOut.1 ∧ u.shiftOut.2.Alike before sent v.shiftOut.2 := by
  cases h with
  | intro complete hc =>
    simp only [Usart.shiftOut]
    split
    · exact ⟨rfl, .intro complete hc⟩
    · rw [List.append_assoc]
      exact ⟨rfl, .intro (complete || u.data.isNone) fun hs => by rw [hc hs]⟩

theorem clock (h : u.Alike before sent v) : u.clock.Alike before sent v.clock := by
  have hf : u.freeRunning = v.freeRunning := by cases h; rfl
  rw [Usart.clock, Usart.clock, hf]
  split
  · exact h.shiftOut.2
  · exact h

theorem receive (h : u.Alike before sent v) (b : UInt8) (corrupt : Bool) :
    (u.receive b corrupt).1 = (v.receive b corrupt).1 ∧
      (u.receive b corrupt).2.Alike before sent (v.receive b corrupt).2 := by
  cases h with
  | intro complete hc =>
    simp only [Usart.receive]
    split <;> exact ⟨rfl, .intro complete hc⟩

theorem readData (h : u.Alike before sent v) :
    u.readData.1 = v.readData.1 ∧ u.readData.2.Alike before sent v.readData.2 := by
  cases h with
  | intro complete hc => exact ⟨rfl, .intro complete hc⟩

theorem freeRunning (h : u.Alike before sent v) (on : Bool) :
    Alike before sent { u with freeRunning := on } { v with freeRunning := on } := by
  cases h with
  | intro complete hc => exact .intro complete hc

theorem takeWire (h : u.Alike before sent v) :
    before ++ u.takeWire.1 = v.takeWire.1 ∧ u.takeWire.2.Alike [] sent v.takeWire.2 := by
  cases h with
  | intro complete hc => exact ⟨rfl, .intro complete hc⟩

theorem txComplete_eq (h : u.Alike before true v) : u.txComplete = v.txComplete := by
  cases h with
  | intro _ hc => exact (hc rfl).symm

variable (h : u.Alike before sent v)
include h

theorem wire_eq : before ++ u.wire = v.wire := by cases h; rfl

theorem displaced_eq (w : RegisterWrite) : u.displaced w = v.displaced w := by cases h; rfl

theorem interruptEnabled_eq (i : Interrupt) : u.interruptEnabled i = v.interruptEnabled i := by
  cases h
  cases i <;> rfl

theorem txInterrupt_eq : u.txInterrupt = v.txInterrupt := by cases h; rfl

theorem data_eq : u.data = v.data := by cases h; rfl

theorem trim_eq : u.trim = v.trim := by cases h; rfl

theorem received_eq : u.received = v.received := by cases h; rfl

theorem inFlight_eq : u.inFlight = v.inFlight := by cases h; rfl

theorem lineIdle_eq : u.lineIdle = v.lineIdle := by cases h; rfl

theorem txInterruptPending_eq : u.txInterruptPending = v.txInterruptPending := by cases h; rfl

theorem rxInterruptPending_eq : u.rxInterruptPending = v.rxInterruptPending := by cases h; rfl

end Usart.Alike

theorem Port.Alike.hasData_eq {before : List UInt8} {sent : Bool} {p q : Port}
    (h : p.Alike before sent q) : p.hasData = q.hasData := by
  rw [hasData, hasData, available, available, h.rx.length_eq]

theorem Port.Alike.writeReady_eq {before : List UInt8} {sent : Bool} {p q : Port}
    (h : p.Alike before sent q) : p.writeReady = q.writeReady := by
  rw [writeReady, writeReady, availableForWrite, availableForWrite, h.tx.free_eq]

namespace Observed.Alike

variable {before : List UInt8} {sent : Bool} {s t : Observed}

theorem mono (h : Alike before true s t) : Alike before sent s t :=
  { h with usart := h.usart.mono }

theorem withUsart {later : List UInt8} {sent' : Bool} {u v : Usart} (h : Alike before sent s t)
    (hu : u.Alike later sent' v) :
    Alike later sent' { s with usart := u } { t with usart := v } :=
  ⟨⟨hu, h.clockHz, h.rx, h.tx, h.written, h.state⟩, h.events⟩

theorem withRx {r q : Ring} (h : Alike before sent s t) (hr : r.Alike q) :
    Alike before sent { s with rx := r } { t with rx := q } :=
  ⟨⟨h.usart, h.clockHz, hr, h.tx, h.written, h.state⟩, h.events⟩

theorem withTx {r q : Ring} (h : Alike before sent s t) (hr : r.Alike q) :
    Alike before sent { s with tx := r } { t with tx := q } :=
  ⟨⟨h.usart, h.clockHz, h.rx, hr, h.written, h.state⟩, h.events⟩

theorem withWritten (h : Alike before sent s t) (on : Bool) :
    Alike before sent { s with written := on } { t with written := on } :=
  ⟨⟨h.usart, h.clockHz, h.rx, h.tx, rfl, h.state⟩, h.events⟩

theorem withState (h : Alike before sent s t) (l : Lifecycle) :
    Alike before sent { s with state := l } { t with state := l } :=
  ⟨⟨h.usart, h.clockHz, h.rx, h.tx, h.written, rfl⟩, h.events⟩

theorem note (h : Alike before sent s t) (e : Event) : Alike before sent (s.note e) (t.note e) :=
  ⟨h.toAlike, congrArg (·.push e) h.events⟩

theorem log (h : Alike before sent s t) (r : Record) : Alike before sent (s.log r) (t.log r) :=
  h.note (.log r)

theorem warnIf (h : Alike before sent s t) (displaced : Option UInt8) :
    Alike before sent (s.warnIf displaced) (t.warnIf displaced) := by
  rw [Observed.warnIf, Observed.warnIf]
  split
  · exact h.log .overwritten
  · exact h

theorem store (h : Alike before sent s t) (w : RegisterWrite) :
    Alike before sent (s.store w) (t.store w) := by
  rw [Observed.store, Observed.store, h.usart.displaced_eq w]
  exact ((h.withUsart (h.usart.store w)).note (.store w)).warnIf _

theorem load (h : Alike before sent s t) (b : UInt8) : Alike before true (s.load b) (t.load b) := by
  have hd := h.store (.data b)
  exact (hd.withUsart hd.usart.store_clearTxComplete).note (.store .clearTxComplete)

theorem interruptEnabled (h : Alike before sent s t) (i : Interrupt) :
    Agree before sent (s.interruptEnabled i) (t.interruptEnabled i) := by
  rw [Observed.interruptEnabled, Observed.interruptEnabled, h.usart.interruptEnabled_eq i]
  exact ⟨rfl, h.note _⟩

theorem txEmpty (h : Alike before sent s t) : Agree before sent s.txEmpty t.txEmpty := by
  have hd := h.usart.clock.data_eq
  rw [Observed.txEmpty, Observed.txEmpty, Usart.readTxEmpty, Usart.readTxEmpty, hd]
  exact ⟨rfl, (h.withUsart h.usart.clock).note _⟩

theorem txComplete (h : Alike before true s t) : Agree before true s.txComplete t.txComplete := by
  have hc := h.usart.clock.txComplete_eq
  rw [Observed.txComplete, Observed.txComplete, Usart.readTxComplete, Usart.readTxComplete, hc]
  exact ⟨rfl, (h.withUsart h.usart.clock).note _⟩

theorem readTrim (h : Alike before sent s t) : Agree before sent s.readTrim t.readTrim := by
  rw [Observed.readTrim, Observed.readTrim, h.usart.trim_eq]
  exact ⟨rfl, h.note _⟩

theorem onTxEmpty (h : Alike before sent s t) : Alike before sent s.onTxEmpty t.onTxEmpty := by
  have hoff {s t : Observed} (h : Alike before sent s t) : Alike before sent
      (if s.tx.isEmpty then s.store (.interrupt .txEmpty false) else s)
      (if t.tx.isEmpty then t.store (.interrupt .txEmpty false) else t) := by
    rw [h.tx.isEmpty_eq]
    split
    · exact h.store _
    · exact h
  rw [Observed.onTxEmpty, Observed.onTxEmpty]
  rcases h.tx.pop?_cases with ⟨hs, ht⟩ | ⟨b, r, q, hs, ht, hr⟩
  · rw [hs, ht]
    exact hoff h
  · rw [hs, ht]
    exact hoff ((h.withTx hr).load b).mono

theorem pollTx (h : Alike before sent s t) : Alike before sent s.pollTx t.pollTx := by
  have hi := (h.interruptEnabled .txEmpty).2
  have he := hi.txEmpty.2
  rw [pollTx_eq, pollTx_eq, h.usart.txInterrupt_eq, h.usart.clock.data_eq]
  split
  · split
    · exact he.onTxEmpty
    · exact he
  · exact hi

theorem unlessQueueing {look : Observed → Bool × Observed}
    (hlook : ∀ {s t : Observed}, Alike before sent s t → Agree before sent (look s) (look t))
    (h : Alike before sent s t) : Agree before sent
      (if s.usart.txInterrupt then (false, (s.interruptEnabled .txEmpty).2)
        else look (s.interruptEnabled .txEmpty).2)
      (if t.usart.txInterrupt then (false, (t.interruptEnabled .txEmpty).2)
        else look (t.interruptEnabled .txEmpty).2) := by
  have hi := (h.interruptEnabled .txEmpty).2
  rw [h.usart.txInterrupt_eq]
  split
  · exact ⟨rfl, hi⟩
  · exact hlook hi

theorem transmitterFree (h : Alike before sent s t) :
    Agree before sent s.transmitterFree t.transmitterFree := h.unlessQueueing txEmpty

theorem drained (h : Alike before true s t) : Agree before true s.drained t.drained :=
  h.unlessQueueing txComplete

theorem tryWrite (h : Alike before sent s t) (hq : s.transmitterFree.1 = false → sent = true)
    (b : UInt8) :
    Agree before (sent || (s.tryWrite b).1) (s.tryWrite b) (t.tryWrite b) := by
  obtain ⟨hf, hs⟩ := h.transmitterFree
  rw [tryWrite_eq, tryWrite_eq, ← hf]
  split
  next => exact ⟨rfl, ((hs.load b).withWritten true).mono⟩
  next hfree =>
    -- A byte that is queued leaves the flags alone, so they must agree already.
    obtain rfl := hq (by simpa using hfree)
    match s.transmitterFree.2.tx.push? b, t.transmitterFree.2.tx.push? b, hs.tx.push? b with
    | _, _, .none => exact ⟨rfl, hs⟩
    | some _, some _, .some hr =>
      exact ⟨rfl, ((hs.withTx hr).withWritten true).store (.interrupt .txEmpty true)⟩

theorem pollUntil {test : Observed → Bool × Observed}
    (htest : ∀ {s t : Observed}, Alike before true s t →
      Agree before true (test s) (test t))
    (h : Alike before true s t) (n : Nat) :
    Option.Rel (Alike before true) (s.pollUntil test n) (t.pollUntil test n) := by
  induction n generalizing s t with
  | zero =>
    obtain ⟨hd, hn⟩ := htest h
    rw [pollUntil_zero, pollUntil_zero, hd]
    split
    · exact .some hn
    · exact .none
  | succ n ih =>
    obtain ⟨hd, hn⟩ := htest h
    rw [pollUntil_succ, pollUntil_succ, hd]
    split
    · exact .some hn
    · exact ih hn.pollTx

theorem patience_eq (h : Alike before sent s t) : s.patience = t.patience := by
  rw [patience, patience, h.tx.length_eq, h.usart.inFlight_eq, h.usart.txInterrupt_eq]

theorem flush (h : Alike before sent s t) (hq : s.written = true → sent = true) :
    Option.Rel (Alike before sent) s.flush t.flush := by
  rw [Observed.flush, Observed.flush, ← h.written]
  cases hw : s.written with
  | false => exact .some h
  | true =>
    obtain rfl := hq hw
    rw [h.patience_eq]
    exact h.pollUntil drained _

theorem send (h : Alike before sent s t) (hq : s.transmitterFree.1 = false → sent = true)
    (b : UInt8) : Option.Rel (Alike before true) (s.send b) (t.send b) := by
  obtain ⟨hb, hn⟩ := h.tryWrite hq b
  rw [Observed.send, Observed.send, h.patience_eq]
  cases hfree : s.transmitterFree.1 with
  | true =>
    have ht : (s.tryWrite b).1 = true := by rw [tryWrite_eq, hfree]; rfl
    rw [pollUntil_of_true ht, pollUntil_of_true (hb ▸ ht)]
    rw [ht, Bool.or_true] at hn
    exact .some hn
  | false =>
    obtain rfl := hq hfree
    exact h.pollUntil (fun h => h.tryWrite (fun _ => rfl) b) _

theorem sendBytes (h : Alike before sent s t) (hq : s.transmitterFree.1 = false → sent = true)
    (bs : List UInt8) :
    Option.Rel (Alike before (sent || !bs.isEmpty)) (s.sendBytes bs) (t.sendBytes bs) := by
  induction bs generalizing sent s t with
  | nil =>
    refine .some ?_
    simpa using h
  | cons b bs ih =>
    refine rel_bind (h.send hq b) fun s' t' h' => ?_
    simpa using ih h' fun _ => rfl

theorem serviceTx (h : Alike before sent s t) : Agree before sent s.serviceTx t.serviceTx := by
  rw [Observed.serviceTx, Observed.serviceTx, h.usart.txInterruptPending_eq]
  split
  · exact ⟨rfl, h.onTxEmpty⟩
  · exact ⟨rfl, h⟩

theorem tick (h : Alike before sent s t) : Agree before sent s.tick t.tick := by
  obtain ⟨hb, hu⟩ := h.usart.shiftOut
  exact ⟨hb, (h.withUsart hu).serviceTx.2⟩

theorem runUntilIdle (h : Alike before sent s t) (limit : Nat) :
    Agree before sent (s.runUntilIdle limit) (t.runUntilIdle limit) := by
  induction limit generalizing s t with
  | zero => exact ⟨rfl, h⟩
  | succ limit ih =>
    have hs := h.serviceTx.2
    obtain ⟨hb, ht⟩ := hs.tick
    obtain ⟨hn, hrest⟩ := ih ht
    rw [runUntilIdle_succ, runUntilIdle_succ, lineQuiet, lineQuiet, hs.usart.lineIdle_eq,
      hs.usart.txInterruptPending_eq, hb, hn]
    split
    · exact ⟨rfl, hs⟩
    · exact ⟨rfl, hrest⟩

theorem onRxComplete (h : Alike before sent s t) :
    Alike before sent s.onRxComplete t.onRxComplete := by
  have hr := h.usart.received_eq
  have hp : s.usart.parityError = t.usart.parityError := by
    rw [Usart.parityError, Usart.parityError, hr]
  have hb : s.waitingByte = t.waitingByte := by rw [waitingByte, waitingByte, hr]
  have hd : Alike before sent s.fetched t.fetched := by
    obtain ⟨hbyte, hu⟩ := h.usart.readData
    change Alike before sent
      ({ s.note _ with usart := s.usart.readData.2 }.note (.load (.data s.usart.readData.1)))
      ({ t.note _ with usart := t.usart.readData.2 }.note (.load (.data t.usart.readData.1)))
    rw [hp, hbyte]
    exact ((h.note _).withUsart hu).note _
  rw [onRxComplete_eq, onRxComplete_eq, hp, hb]
  split
  · exact hd.log _
  · match s.rx.push? t.waitingByte, t.rx.push? t.waitingByte, h.rx.push? t.waitingByte with
    | _, _, .none => exact hd.log _
    | some _, some _, .some hr => exact hd.withRx hr

theorem serviceRx (h : Alike before sent s t) : Alike before sent s.serviceRx t.serviceRx := by
  rw [Observed.serviceRx, Observed.serviceRx, h.usart.rxInterruptPending_eq]
  split
  · exact h.onRxComplete
  · exact h

theorem inject (h : Alike before sent s t) (b : UInt8) (corrupt : Bool) :
    Agree before sent (s.inject b corrupt) (t.inject b corrupt) := by
  obtain ⟨htaken, hu⟩ := h.usart.receive b corrupt
  have hd := (h.withUsart hu).serviceRx
  rw [Observed.inject, Observed.inject]
  simp only [htaken]
  split
  · exact ⟨rfl, hd⟩
  · exact ⟨rfl, h⟩

theorem injectAll (h : Alike before sent s t) (bs : List UInt8) :
    Agree before sent (s.injectAll bs) (t.injectAll bs) := by
  induction bs generalizing s t with
  | nil => exact ⟨rfl, h⟩
  | cons b bs ih =>
    obtain ⟨htaken, ht⟩ := h.inject b false
    obtain ⟨hn, hrest⟩ := ih ht
    refine ⟨?_, hrest⟩
    change (s.inject b false).1.toNat + ((s.inject b false).2.injectAll bs).1 = _
    rw [htaken, hn]
    rfl

theorem read (h : Alike before sent s t) : Agree before sent s.read t.read := by
  rw [Observed.read, Observed.read]
  rcases h.rx.pop?_cases with ⟨hs, ht⟩ | ⟨b, r, q, hs, ht, hr⟩
  · rw [hs, ht]
    exact ⟨rfl, h⟩
  · rw [hs, ht]
    exact ⟨rfl, h.withRx hr⟩

theorem readAvailable (h : Alike before sent s t) (buffer : List UInt8) :
    (s.readAvailable buffer).1 = (t.readAvailable buffer).1 ∧
      Agree before sent (s.readAvailable buffer).2 (t.readAvailable buffer).2 := by
  induction buffer generalizing s t with
  | nil => exact ⟨rfl, rfl, h⟩
  | cons old rest ih =>
    obtain ⟨hb, hr⟩ := h.read
    obtain ⟨hn, hl, hrest⟩ := ih hr
    rw [readAvailable_cons, readAvailable_cons, hb]
    cases t.read.1 with
    | none => exact ⟨rfl, rfl, hr⟩
    | some b => exact ⟨congrArg (· + 1) hn, congrArg (b :: ·) hl, hrest⟩

theorem streamRead (h : Alike before sent s t) (buffer : List UInt8) :
    Option.Rel (fun x y => x.1 = y.1 ∧ Agree before sent x.2 y.2)
      (s.streamRead buffer) (t.streamRead buffer) := by
  rw [Observed.streamRead, Observed.streamRead, h.hasData_eq]
  split
  · exact .some (h.readAvailable buffer)
  · exact .none

theorem readExactWithin (h : Alike before sent s t) (wanted reads : Nat) :
    Option.Rel (Agree before sent)
      (s.readExactWithin wanted reads) (t.readExactWithin wanted reads) := by
  induction reads generalizing s t wanted with
  | zero =>
    rw [Observed.readExactWithin, Observed.readExactWithin]
    split
    · exact .some ⟨rfl, h⟩
    · exact .none
  | succ reads ih =>
    rw [Observed.readExactWithin, Observed.readExactWithin]
    split
    · exact .some ⟨rfl, h⟩
    · refine rel_bind (h.streamRead _) fun x y hxy => ?_
      obtain ⟨n, buffer, u⟩ := x
      obtain ⟨_, _, v⟩ := y
      obtain ⟨rfl, rfl, hu⟩ := hxy
      refine rel_bind (ih hu _) fun x y hxy => ?_
      exact .some ⟨congrArg (buffer.take n ++ ·) hxy.1, hxy.2⟩

theorem switchOff (h : Alike before sent s t) : Alike before sent s.switchOff t.switchOff := by
  have hr := h.store (.receiver false)
  have ht := hr.store (.transmitter false)
  have hoff := (ht.store (.interrupt .rxComplete false)).store (.interrupt .txEmpty false)
  exact ((hoff.withRx hoff.rx.discard).withWritten false).withState .disabled

theorem disable (h : Alike before sent s t) (hq : s.written = true → sent = true) :
    Option.Rel (Alike before sent) s.disable t.disable :=
  rel_map (h.flush hq) fun _ _ hu => hu.switchOff.log .ended

theorem retire (h : Alike before sent s t) (hq : s.written = true → sent = true) :
    Option.Rel (Alike before sent) s.retire t.retire := by
  rw [Observed.retire, Observed.retire, ← h.written]
  split
  · exact h.disable hq
  · exact .some h

theorem switchOn (h : Alike before sent s t) (d : UInt16) (f : FrameWord) :
    Alike before sent (s.switchOn d f) (t.switchOn d f) := by
  have hroute := (h.store .routePins).store (.doubleSpeed false)
  have hframe := (hroute.store (.divisor d)).store (.frame f)
  have hreset := (hframe.withRx hframe.rx.reset).withTx hframe.tx.reset
  have hon := ((hreset.store (.interrupt .txEmpty false)).store (.receiver true)).store
    (.transmitter true)
  exact ((hon.store (.interrupt .rxComplete true)).store .driveTxPin).withState .enabled

theorem enable (h : Alike before sent s t) (hq : s.written = true → sent = true) (baud : UInt32)
    (frame : FrameWord) :
    Option.Rel (Agree before sent) (s.enable baud frame)
      (t.enable baud frame) := by
  rw [enable_eq, enable_eq, ← h.clockHz, ← h.usart.trim_eq]
  split
  · exact .some ⟨rfl, h.readTrim.2⟩
  · exact rel_map (h.readTrim.2.retire hq) fun _ _ hu => ⟨rfl, (hu.switchOn _ frame).log _⟩

end Observed.Alike

end SerialPort
