import SerialPort.Port.Transmit

namespace SerialPort.Observed

@[simp] theorem toPort_observe (p : Port) : p.observe.toPort = p := rfl

@[simp] theorem toPort_note (s : Observed) (e : Event) : (s.note e).toPort = s.toPort := rfl

@[simp] theorem toPort_log (s : Observed) (r : Record) : (s.log r).toPort = s.toPort := rfl

@[simp] theorem toPort_warnIf (s : Observed) (displaced : Option UInt8) :
    (s.warnIf displaced).toPort = s.toPort := by
  unfold warnIf
  split <;> rfl

@[simp] theorem toPort_store (s : Observed) (w : RegisterWrite) :
    (s.store w).toPort = { s.toPort with usart := s.usart.store w } := by
  simp [store]

@[simp] theorem toPort_interruptEnabled (s : Observed) (i : Interrupt) :
    (s.interruptEnabled i).2.toPort = s.toPort := rfl

@[simp] theorem toPort_txEmpty (s : Observed) :
    s.txEmpty.2.toPort = { s.toPort with usart := s.usart.clock } := rfl

theorem fst_transmitterFree (s : Observed) :
    s.transmitterFree.1 = (!s.usart.txInterrupt && s.usart.clock.data.isNone) := by
  show (if s.usart.txInterrupt then _ else _ : Bool × Observed).1 = _
  cases s.usart.txInterrupt <;> rfl

theorem toPort_transmitterFree (s : Observed) :
    s.transmitterFree.2.toPort =
      if s.usart.txInterrupt then s.toPort else { s.toPort with usart := s.usart.clock } := by
  show (if s.usart.txInterrupt then _ else _ : Bool × Observed).2.toPort = _
  cases s.usart.txInterrupt <;> rfl

theorem fst_drained (s : Observed) :
    s.drained.1 = (!s.usart.txInterrupt && s.usart.clock.txComplete) := by
  show (if s.usart.txInterrupt then _ else _ : Bool × Observed).1 = _
  cases s.usart.txInterrupt <;> rfl

theorem toPort_drained (s : Observed) :
    s.drained.2.toPort =
      if s.usart.txInterrupt then s.toPort else { s.toPort with usart := s.usart.clock } := by
  show (if s.usart.txInterrupt then _ else _ : Bool × Observed).2.toPort = _
  cases s.usart.txInterrupt <;> rfl

theorem tryWrite_eq (s : Observed) (b : UInt8) :
    s.tryWrite b =
      if s.transmitterFree.1 then
        (true, { (s.transmitterFree.2.store (.data b)).store .clearTxComplete with
          written := true })
      else
        match s.transmitterFree.2.tx.push? b with
        | none => (false, s.transmitterFree.2)
        | some tx => (true, { s.transmitterFree.2 with tx, written := true }.store
          (.interrupt .txEmpty true)) := rfl

theorem pollTx_eq (s : Observed) :
    s.pollTx =
      if s.usart.txInterrupt then
        if s.usart.clock.data.isNone then (s.interruptEnabled .txEmpty).2.txEmpty.2.onTxEmpty
        else (s.interruptEnabled .txEmpty).2.txEmpty.2
      else (s.interruptEnabled .txEmpty).2 := rfl

theorem toPort_onTxEmpty_of_none {s : Observed} (h : s.tx.pop? = none) (he : s.tx.isEmpty) :
    s.onTxEmpty.toPort = { s.toPort with usart := { s.usart with txInterrupt := false } } := by
  simp [onTxEmpty, h, he, Usart.store]

theorem toPort_onTxEmpty_of_some {s : Observed} {b : UInt8} {tx : Ring}
    (h : s.tx.pop? = some (b, tx)) :
    s.onTxEmpty.toPort = { s.toPort with
      tx
      usart := { s.usart.putData b with
        txComplete := false
        txInterrupt := s.usart.txInterrupt && !tx.isEmpty } } := by
  have ht : (s.usart.putData b).txInterrupt = s.usart.txInterrupt := by
    unfold Usart.putData
    split <;> rfl
  simp only [onTxEmpty, h, toPort_store, Usart.store]
  split
  next he => simp [he, Usart.store]
  next he => simp [he, Usart.store, ← ht]

end SerialPort.Observed
