import SerialPort.Proofs.Session

namespace SerialPort

namespace Usart

theorem store_transmitSide (u : Usart) (w : RegisterWrite) :
    u.transmitSide.store w = (u.store w).transmitSide := by
  cases w with
  | receiver on => cases on <;> rfl
  | interrupt i on => cases i <;> rfl
  | data b =>
    change (if u.shifter.isNone then _ else _ : Usart) = Usart.transmitSide (if _ then _ else _)
    split <;> rfl
  | _ => rfl

theorem shiftOut_transmitSide (u : Usart) :
    u.transmitSide.shiftOut = (u.shiftOut.1, u.shiftOut.2.transmitSide) := by
  have hs : u.transmitSide.shifter = u.shifter := rfl
  rw [shiftOut, shiftOut, hs]
  cases u.shifter <;> rfl

theorem clock_transmitSide (u : Usart) : u.transmitSide.clock = u.clock.transmitSide := by
  rw [clock, clock, shiftOut_transmitSide]
  change (if u.freeRunning then _ else _ : Usart) = _
  split <;> rfl

theorem receive_receiveSide (u : Usart) (b : UInt8) (corrupt : Bool) :
    u.receiveSide.receive b corrupt =
      ((u.receive b corrupt).1, (u.receive b corrupt).2.receiveSide) := by
  rw [receive, receive]
  change (if u.receiver then _ else _ : Bool × Usart) = _
  split <;> rfl

end Usart

namespace Observed

def outward (s : Observed) : Observed := { s with toPort := s.transmitSide }

def inward (s : Observed) : Observed := { s with toPort := s.receiveSide }

theorem warnIf_outward (s : Observed) (x : Option UInt8) :
    s.outward.warnIf x = (s.warnIf x).outward := by
  cases x <;> rfl

theorem store_outward (s : Observed) (w : RegisterWrite) :
    s.outward.store w = (s.store w).outward := by
  have hu := s.usart.store_transmitSide w
  rw [store, store, ← warnIf_outward]
  change (({ s.outward with usart := s.usart.transmitSide.store w }).note _).warnIf _ = _
  rw [hu]
  rfl

theorem interruptEnabled_outward (s : Observed) (i : Interrupt) :
    s.outward.interruptEnabled i =
      ((s.interruptEnabled i).1, (s.interruptEnabled i).2.outward) := by
  cases i <;> rfl

theorem txEmpty_outward (s : Observed) :
    s.outward.txEmpty = (s.txEmpty.1, s.txEmpty.2.outward) := by
  have hc := s.usart.clock_transmitSide
  change (s.usart.transmitSide.clock.data.isNone,
    { s.outward with usart := s.usart.transmitSide.clock }.note
      (.load (.txEmpty s.usart.transmitSide.clock.data.isNone))) = _
  rw [hc]
  rfl

theorem txComplete_outward (s : Observed) :
    s.outward.txComplete = (s.txComplete.1, s.txComplete.2.outward) := by
  have hc := s.usart.clock_transmitSide
  change (s.usart.transmitSide.clock.txComplete,
    { s.outward with usart := s.usart.transmitSide.clock }.note
      (.load (.txComplete s.usart.transmitSide.clock.txComplete))) = _
  rw [hc]
  rfl

theorem onTxEmpty_outward (s : Observed) : s.outward.onTxEmpty = s.onTxEmpty.outward := by
  have hoff (t : Observed) :
      (if t.outward.tx.isEmpty then t.outward.store (.interrupt .txEmpty false) else t.outward) =
        (if t.tx.isEmpty then t.store (.interrupt .txEmpty false) else t : Observed).outward := by
    rw [store_outward]
    change (if t.tx.isEmpty then _ else _ : Observed) = _
    split <;> rfl
  have htx : s.outward.tx = s.tx := rfl
  rw [onTxEmpty, onTxEmpty, htx]
  cases s.tx.pop? with
  | none => exact hoff s
  | some popped =>
    have h := hoff ({ s with tx := popped.2 }.load popped.1)
    rw [load, ← store_outward, ← store_outward] at h
    exact h

theorem pollTx_outward (s : Observed) : s.outward.pollTx = s.pollTx.outward := by
  have hi : s.outward.usart.txInterrupt = s.usart.txInterrupt := rfl
  have hd : s.outward.usart.clock.data = s.usart.clock.data :=
    (congrArg Usart.data s.usart.clock_transmitSide :)
  rw [pollTx_eq, pollTx_eq, hi, hd, interruptEnabled_outward, txEmpty_outward, onTxEmpty_outward]
  split
  · split <;> rfl
  · rfl

/-- The tests of the waits look at the interrupt first, and at a flag only while it is off. -/
theorem unlessQueueing_outward {look test : Observed → Bool × Observed}
    (hlook : ∀ s : Observed, look s.outward = ((look s).1, (look s).2.outward))
    (htest : ∀ s : Observed, test s =
      if s.usart.txInterrupt then (false, (s.interruptEnabled .txEmpty).2)
      else look (s.interruptEnabled .txEmpty).2) (s : Observed) :
    test s.outward = ((test s).1, (test s).2.outward) := by
  have hl := hlook (s.interruptEnabled .txEmpty).2
  rw [htest, htest]
  change (if s.usart.txInterrupt then _ else
    look (s.interruptEnabled .txEmpty).2.outward : Bool × Observed) = _
  rw [hl]
  split <;> rfl

theorem transmitterFree_outward (s : Observed) :
    s.outward.transmitterFree = (s.transmitterFree.1, s.transmitterFree.2.outward) :=
  unlessQueueing_outward txEmpty_outward (fun _ => rfl) s

theorem drained_outward (s : Observed) :
    s.outward.drained = (s.drained.1, s.drained.2.outward) :=
  unlessQueueing_outward txComplete_outward (fun _ => rfl) s

theorem tryWrite_outward (s : Observed) (b : UInt8) :
    s.outward.tryWrite b = ((s.tryWrite b).1, (s.tryWrite b).2.outward) := by
  have htx : s.transmitterFree.2.outward.tx = s.transmitterFree.2.tx := rfl
  rw [tryWrite_eq, tryWrite_eq, transmitterFree_outward]
  dsimp only
  split
  · rw [store_outward, store_outward]
    rfl
  · rw [htx]
    cases s.transmitterFree.2.tx.push? b with
    | none => rfl
    | some tx =>
      have h := store_outward { s.transmitterFree.2 with tx, written := true }
        (.interrupt .txEmpty true)
      exact congrArg (true, ·) h

theorem pollUntil_outward {test : Observed → Bool × Observed}
    (ht : ∀ s : Observed, test s.outward = ((test s).1, (test s).2.outward)) (s : Observed)
    (n : Nat) : s.outward.pollUntil test n = (s.pollUntil test n).map outward := by
  induction n generalizing s with
  | zero =>
    rw [pollUntil_zero, pollUntil_zero, ht]
    split <;> rfl
  | succ n ih =>
    rw [pollUntil_succ, pollUntil_succ, ht]
    dsimp only
    split
    · rfl
    · rw [pollTx_outward, ih]

theorem send_outward (s : Observed) (b : UInt8) :
    s.outward.send b = (s.send b).map outward :=
  pollUntil_outward (tryWrite_outward · b) s s.patience

theorem sendBytes_outward (s : Observed) (bs : List UInt8) :
    s.outward.sendBytes bs = (s.sendBytes bs).map outward := by
  induction bs generalizing s with
  | nil => rfl
  | cons b bs ih =>
    rw [sendBytes, sendBytes, send_outward]
    cases s.send b with
    | none => rfl
    | some t => exact ih t

theorem flush_outward (s : Observed) : s.outward.flush = s.flush.map outward := by
  have hp := pollUntil_outward drained_outward s s.patience
  rw [flush, flush]
  change (if s.written then s.outward.pollUntil drained s.patience else _ : Option Observed) = _
  rw [hp]
  split <;> rfl

theorem serviceTx_outward (s : Observed) :
    s.outward.serviceTx = (s.serviceTx.1, s.serviceTx.2.outward) := by
  rw [serviceTx, serviceTx, onTxEmpty_outward]
  change (if s.usart.txInterruptPending then _ else _ : Bool × Observed) = _
  split <;> rfl

theorem tick_outward (s : Observed) : s.outward.tick = (s.tick.1, s.tick.2.outward) := by
  have hu := s.usart.shiftOut_transmitSide
  have hs := serviceTx_outward { s with usart := s.usart.shiftOut.2 }
  change (s.usart.transmitSide.shiftOut.1,
    { s.outward with usart := s.usart.transmitSide.shiftOut.2 }.serviceTx.2) = _
  rw [hu]
  exact congrArg (fun r : Bool × Observed => (s.usart.shiftOut.1, r.2)) hs

theorem runUntilIdle_outward (s : Observed) (limit : Nat) :
    s.outward.runUntilIdle limit =
      ((s.runUntilIdle limit).1, (s.runUntilIdle limit).2.outward) := by
  induction limit generalizing s with
  | zero => rfl
  | succ limit ih =>
    have hq : s.serviceTx.2.outward.lineQuiet = s.serviceTx.2.lineQuiet := rfl
    rw [runUntilIdle_succ, runUntilIdle_succ, serviceTx_outward]
    dsimp only
    rw [hq, tick_outward]
    dsimp only
    rw [ih]
    split <;> rfl

theorem switchOff_outward (s : Observed) : s.outward.switchOff = s.switchOff.outward := by
  rfl

theorem switchOn_outward (s : Observed) (d : UInt16) (f : FrameWord) :
    s.outward.switchOn d f = (s.switchOn d f).outward := rfl

theorem disable_outward (s : Observed) : s.outward.disable = s.disable.map outward := by
  rw [disable, disable, flush_outward]
  cases s.flush with
  | none => rfl
  | some t =>
    have h := switchOff_outward t
    change some (t.outward.switchOff.log .ended) = _
    rw [h]
    rfl

theorem retire_outward (s : Observed) : s.outward.retire = s.retire.map outward := by
  rw [retire, retire, disable_outward]
  change (if s.written then _ else _ : Option Observed) = _
  split <;> rfl

theorem enable_outward (s : Observed) (baud : UInt32) (frame : FrameWord) :
    s.outward.enable baud frame = (s.enable baud frame).map fun r => (r.1, r.2.outward) := by
  have hr : s.outward.readTrim.2 = s.readTrim.2.outward := rfl
  have hd : Baud.divisor s.outward.clockHz baud s.outward.usart.trim =
      Baud.divisor s.clockHz baud s.usart.trim := rfl
  rw [enable_eq, enable_eq, hr, retire_outward, hd]
  cases Baud.divisor s.clockHz baud s.usart.trim with
  | error e => rfl
  | ok d =>
    cases s.readTrim.2.retire with
    | none => rfl
    | some r =>
      have h := switchOn_outward r d frame
      change some (_, (r.outward.switchOn d frame).log _) = _
      rw [h]
      rfl

theorem runCall_outward (s : Observed) {c : Port.Call} (hc : (Port.Step.call c).side ≠ .receive) :
    s.outward.runCall c = (s.runCall c).map fun r => (r.1, r.2.outward) := by
  cases hw : c.written? with
  | some bs =>
    rw [runCall_of_written _ hw, runCall_of_written _ hw, sendBytes_outward, Option.map_map,
      Option.map_map]
    rfl
  | none =>
    cases c with
    | enable baud frame =>
      rw [runCall, runCall, enable_outward, Option.map_map, Option.map_map]
      rfl
    | disable =>
      rw [runCall, runCall, disable_outward, Option.map_map, Option.map_map]
      rfl
    | flush =>
      rw [runCall, runCall, flush_outward, Option.map_map, Option.map_map]
      rfl
    | onTxEmpty =>
      rw [runCall, runCall, onTxEmpty_outward]
      rfl
    | pollTx =>
      rw [runCall, runCall, pollTx_outward]
      rfl
    | tryWrite b =>
      rw [runCall, runCall, tryWrite_outward]
      rfl
    | write | writeBytes | streamWrite | writeAll | print => cases hw
    | state | isEnabled | clockHz | trim | availableForWrite | writeReady => rfl
    | _ => exact absurd rfl hc

theorem runStep_outward (s : Observed) {st : Port.Step} (hl : st.offRegisters = true)
    (hk : st.side ≠ .receive) :
    s.outward.runStep st = (s.runStep st).map fun r => (r.1, r.2.outward) := by
  cases st with
  | call c => exact runCall_outward s hk
  | line e =>
    cases e with
    | tick =>
      rw [runStep, runStep, runLine, runLine, tick_outward]
      rfl
    | serviceTx =>
      rw [runStep, runStep, runLine, runLine, serviceTx_outward]
      rfl
    | runUntilIdle limit =>
      rw [runStep, runStep, runLine, runLine, runUntilIdle_outward]
      rfl
    | _ => exact absurd rfl hk
  | usart op =>
    cases op with
    | tick =>
      have hu := s.usart.shiftOut_transmitSide
      change some (Answer.byte? s.usart.transmitSide.shiftOut.1,
        { s.outward with usart := s.usart.transmitSide.shiftOut.2 }) = _
      rw [hu]
      rfl
    | wire | takeWire | freeRunning => rfl
    | receive => exact absurd rfl hk
    | _ => cases hl

theorem read_inward (s : Observed) : s.inward.read = (s.read.1, s.read.2.inward) := by
  have hrx : s.inward.rx = s.rx := rfl
  rw [read, read, hrx]
  cases s.rx.pop? <;> rfl

theorem readAvailable_inward (s : Observed) (buffer : List UInt8) :
    s.inward.readAvailable buffer =
      ((s.readAvailable buffer).1, (s.readAvailable buffer).2.1,
        (s.readAvailable buffer).2.2.inward) := by
  induction buffer generalizing s with
  | nil => rfl
  | cons old rest ih =>
    rw [readAvailable_cons, readAvailable_cons, read_inward]
    cases s.read.1 with
    | none => rfl
    | some b =>
      dsimp only
      rw [ih]

theorem streamRead_inward (s : Observed) (buffer : List UInt8) :
    s.inward.streamRead buffer =
      (s.streamRead buffer).map fun r => (r.1, r.2.1, r.2.2.inward) := by
  rw [streamRead, streamRead, readAvailable_inward]
  change (if buffer.isEmpty || s.hasData then _ else _ : Option (Nat × List UInt8 × Observed)) = _
  split <;> rfl

theorem readExactWithin_inward (s : Observed) (wanted reads : Nat) :
    s.inward.readExactWithin wanted reads =
      (s.readExactWithin wanted reads).map fun r => (r.1, r.2.inward) := by
  induction reads generalizing s wanted with
  | zero =>
    rw [readExactWithin, readExactWithin]
    split <;> rfl
  | succ reads ih =>
    rw [readExactWithin, readExactWithin, streamRead_inward]
    split
    · rfl
    · cases s.streamRead (List.replicate wanted 0) with
      | none => rfl
      | some r =>
        change (r.2.2.inward.readExactWithin (wanted - r.1) reads).bind _ =
          ((r.2.2.readExactWithin (wanted - r.1) reads).bind _).map _
        rw [ih]
        cases r.2.2.readExactWithin (wanted - r.1) reads <;> rfl

theorem onRxComplete_inward (s : Observed) : s.inward.onRxComplete = s.onRxComplete.inward := by
  have hp : s.inward.usart.parityError = s.usart.parityError := rfl
  have hrx : s.inward.rx.push? s.inward.waitingByte = s.rx.push? s.waitingByte := rfl
  rw [onRxComplete_eq, onRxComplete_eq, hp, hrx]
  split
  · rfl
  · cases s.rx.push? s.waitingByte <;> rfl

theorem inject_inward (s : Observed) (b : UInt8) (corrupt : Bool) :
    s.inward.inject b corrupt = ((s.inject b corrupt).1, (s.inject b corrupt).2.inward) := by
  have hs : (s.inward.arrived b corrupt).serviceRx = (s.arrived b corrupt).serviceRx.inward := by
    have h := onRxComplete_inward (s.arrived b corrupt)
    rw [serviceRx, serviceRx]
    change (if (s.arrived b corrupt).usart.rxInterruptPending then
      (s.arrived b corrupt).inward.onRxComplete else _ : Observed) = _
    rw [h]
    split <;> rfl
  rw [inject_eq, inject_eq, hs]
  change (if s.usart.receiver then _ else _ : Bool × Observed) = _
  split <;> rfl

theorem injectAll_inward (s : Observed) (bs : List UInt8) :
    s.inward.injectAll bs = ((s.injectAll bs).1, (s.injectAll bs).2.inward) := by
  induction bs generalizing s with
  | nil => rfl
  | cons b bs ih =>
    rw [injectAll, injectAll, inject_inward]
    dsimp only
    rw [ih]

theorem runStep_inward (s : Observed) {st : Port.Step} (hk : st.side = .receive) :
    s.inward.runStep st = (s.runStep st).map fun r => (r.1, r.2.inward) := by
  cases st with
  | call c =>
    cases c with
    | onRxComplete =>
      rw [runStep, runStep, runCall, runCall, onRxComplete_inward]
      rfl
    | available | hasData | peek => rfl
    | read | tryRead =>
      rw [runStep, runStep, runCall, runCall, read_inward]
      rfl
    | readAvailable size =>
      rw [runStep, runStep, runCall, runCall, readAvailable_inward]
      rfl
    | streamRead size =>
      rw [runStep, runStep, runCall, runCall, streamRead_inward, Option.map_map, Option.map_map]
      rfl
    | readExact size =>
      rw [runStep, runStep, runCall, runCall, readExact, readExact, readExactWithin_inward,
        Option.map_map, Option.map_map]
      rfl
    | _ => cases hk
  | line e =>
    cases e with
    | inject b corrupt =>
      rw [runStep, runStep, runLine, runLine, inject_inward]
      rfl
    | injectAll bs =>
      rw [runStep, runStep, runLine, runLine, injectAll_inward]
      rfl
    | readWhile size b =>
      rw [runStep, runStep, runLine, runLine, inject_inward, streamRead_inward, Option.map_map,
        Option.map_map]
      rfl
    | _ => cases hk
  | usart op =>
    cases op with
    | receive b corrupt =>
      have hu := s.usart.receive_receiveSide b corrupt
      change some (Answer.flag (s.usart.receiveSide.receive b corrupt).1,
        { s.inward with usart := (s.usart.receiveSide.receive b corrupt).2 }) = _
      rw [hu]
      rfl
    | _ => cases hk

end Observed

end SerialPort
