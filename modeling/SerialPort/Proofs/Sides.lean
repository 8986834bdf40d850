import SerialPort.Proofs.Transmission

namespace SerialPort

/-- The transceiver with what belongs to sending cleared. -/
def Usart.receiveSide (u : Usart) : Usart :=
  { u with data := none, shifter := none, txComplete := false, txInterrupt := false, wire := [] }

def Usart.transmitSide (u : Usart) : Usart := { u with received := none }

def Port.receiveSide (p : Port) : Port :=
  { p with tx := .empty 2, written := false, usart := p.usart.receiveSide }

def Port.transmitSide (p : Port) : Port :=
  { p with rx := .empty 2, usart := p.usart.transmitSide }

def Record.isReceive : Record → Bool
  | .parityError _ | .overflow _ => true
  | _ => false

namespace Observed

def receiveView (s : Observed) : Port × List Record :=
  (s.receiveSide, s.records.filter Record.isReceive)

def transmitView (s : Observed) : Port × List Record :=
  (s.transmitSide, s.records.filter (!·.isReceive))

theorem receiveView_congr {s t : Observed} (hp : t.toPort.receiveSide = s.toPort.receiveSide)
    (hr : t.records.filter Record.isReceive = s.records.filter Record.isReceive) :
    t.receiveView = s.receiveView := Prod.ext hp hr

theorem transmitView_congr {s t : Observed} (hp : t.toPort.transmitSide = s.toPort.transmitSide)
    (hr : t.records.filter (!·.isReceive) = s.records.filter (!·.isReceive)) :
    t.transmitView = s.transmitView := Prod.ext hp hr

theorem receiveSide_shiftOut (u : Usart) : u.shiftOut.2.receiveSide = u.receiveSide := by
  rw [Usart.shiftOut]
  cases u.shifter <;> rfl

theorem receiveSide_putData (u : Usart) (b : UInt8) :
    (u.putData b).receiveSide = u.receiveSide := by
  rw [Usart.putData]
  split <;> rfl

theorem receiveView_store {s : Observed} {w : RegisterWrite}
    (hw : (s.usart.store w).receiveSide = s.usart.receiveSide) :
    (s.store w).receiveView = s.receiveView := by
  apply receiveView_congr
  · rw [toPort_store]
    exact congrArg (fun u => ({ s.toPort.receiveSide with usart := u } : Port)) hw
  · rw [records_store, List.filter_append]
    split <;> exact List.append_nil _

theorem receiveView_load (s : Observed) (b : UInt8) : (s.load b).receiveView = s.receiveView :=
  (receiveView_store rfl).trans (receiveView_store (receiveSide_putData s.usart b))

theorem receiveView_onTxEmpty (s : Observed) : s.onTxEmpty.receiveView = s.receiveView := by
  have hoff (t : Observed) : (if t.tx.isEmpty then t.store (.interrupt .txEmpty false) else t
      : Observed).receiveView = t.receiveView := by
    split
    · exact receiveView_store rfl
    · rfl
  rw [onTxEmpty]
  cases hp : s.tx.pop? with
  | none => exact hoff s
  | some popped => exact (hoff _).trans (receiveView_load { s with tx := popped.2 } popped.1)

theorem Transmits.receiveView_eq {s t : Observed} {bs : List UInt8} (h : Transmits s bs t) :
    t.receiveView = s.receiveView := by
  induction h with
  | refl => rfl
  | trans _ _ ih ih' => exact ih'.trans ih
  | look s r => exact receiveView_congr rfl (by rw [records_note_load])
  | shift s =>
    have hu := receiveSide_shiftOut s.usart
    exact receiveView_congr
      (congrArg (fun u => ({ s.toPort.receiveSide with usart := u } : Port)) hu) rfl
  | serve s _ => exact receiveView_onTxEmpty s
  | send s b _ _ => exact receiveView_load s b
  | queue s b tx _ _ => exact receiveView_store rfl

theorem transmitView_read (s : Observed) : s.read.2.transmitView = s.transmitView := by
  rw [read]
  cases s.rx.pop? <;> rfl

theorem readAvailable_cons (s : Observed) (old : UInt8) (rest : List UInt8) :
    s.readAvailable (old :: rest) =
      match s.read.1 with
      | none => (0, old :: rest, s.read.2)
      | some b =>
        ((s.read.2.readAvailable rest).1 + 1, b :: (s.read.2.readAvailable rest).2.1,
          (s.read.2.readAvailable rest).2.2) := by
  rw [readAvailable]
  cases hr : s.read with
  | mk b t => cases b <;> rfl

theorem transmitView_readAvailable (s : Observed) (buffer : List UInt8) :
    (s.readAvailable buffer).2.2.transmitView = s.transmitView := by
  induction buffer generalizing s with
  | nil => rfl
  | cons old rest ih =>
    rw [readAvailable_cons]
    cases s.read.1 with
    | none => exact transmitView_read s
    | some b => exact (ih s.read.2).trans (transmitView_read s)

theorem streamRead_eq_some {s : Observed} {buffer : List UInt8}
    {r : Nat × List UInt8 × Observed} (h : s.streamRead buffer = some r) :
    s.readAvailable buffer = r := by
  rw [streamRead] at h
  split at h
  · exact Option.some.inj h
  · cases h

theorem transmitView_readExactWithin {s t : Observed} {wanted reads : Nat} {bs : List UInt8}
    (h : s.readExactWithin wanted reads = some (bs, t)) : t.transmitView = s.transmitView := by
  induction reads generalizing s wanted bs with
  | zero =>
    rw [readExactWithin] at h
    split at h <;> cases h
    rfl
  | succ reads ih =>
    rw [readExactWithin] at h
    split at h
    · cases h
      rfl
    · obtain ⟨⟨n, buffer, u⟩, hr, h⟩ := Option.bind_eq_some_iff.1 h
      obtain ⟨⟨rest, v⟩, hx, h⟩ := Option.bind_eq_some_iff.1 h
      cases h
      have hu := transmitView_readAvailable s (List.replicate wanted 0)
      rw [streamRead_eq_some hr] at hu
      exact (ih hx).trans hu

theorem transmitView_note_load (s : Observed) (r : Reading) :
    (s.note (.load r)).transmitView = s.transmitView :=
  transmitView_congr rfl (by rw [records_note_load])

theorem transmitView_log {s : Observed} {r : Record} (hr : r.isReceive = true) :
    (s.log r).transmitView = s.transmitView := by
  have hf : [r].filter (!·.isReceive) = [] := by simp [hr]
  refine transmitView_congr (s := s) (t := s.log r) rfl ?_
  rw [records_log, List.filter_append, hf, List.append_nil]

theorem transmitView_readData (s : Observed) : s.readData.2.transmitView = s.transmitView :=
  transmitView_note_load { s with usart := { s.usart with received := none } } _

def fetched (s : Observed) : Observed := s.parityError.2.readData.2

def waitingByte (s : Observed) : UInt8 := s.usart.received.elim 0 (·.byte)

theorem onRxComplete_eq (s : Observed) :
    s.onRxComplete =
      if s.usart.parityError then s.fetched.log (.parityError s.waitingByte)
      else
        match s.rx.push? s.waitingByte with
        | none => s.fetched.log (.overflow s.waitingByte)
        | some rx => { s.fetched with rx } := rfl

theorem transmitView_onRxComplete (s : Observed) :
    s.onRxComplete.transmitView = s.transmitView := by
  have hd : s.fetched.transmitView = s.transmitView :=
    (transmitView_readData _).trans (transmitView_note_load s _)
  rw [onRxComplete_eq]
  split
  · exact (transmitView_log (s := s.fetched) (r := .parityError _) rfl).trans hd
  · cases s.rx.push? s.waitingByte with
    | none => exact (transmitView_log (s := s.fetched) (r := .overflow _) rfl).trans hd
    | some rx => exact hd

theorem transmitView_serviceRx (s : Observed) : s.serviceRx.transmitView = s.transmitView := by
  rw [serviceRx]
  split
  · exact transmitView_onRxComplete s
  · rfl

/-- The port when a byte has come in and its interrupt is not served yet. -/
def arrived (s : Observed) (b : UInt8) (corrupt : Bool) : Observed :=
  { s with usart := { s.usart with received := some ⟨b, corrupt⟩ } }

theorem inject_eq (s : Observed) (b : UInt8) (corrupt : Bool) :
    s.inject b corrupt =
      if s.usart.receiver then (true, (s.arrived b corrupt).serviceRx) else (false, s) := by
  rw [inject, Usart.receive]
  by_cases hr : s.usart.receiver = true
  · rw [if_pos hr, if_pos hr]
    rfl
  · rw [if_neg hr, if_neg hr]
    rfl

theorem transmitView_inject (s : Observed) (b : UInt8) (corrupt : Bool) :
    (s.inject b corrupt).2.transmitView = s.transmitView := by
  rw [inject_eq]
  split
  · exact transmitView_serviceRx (s.arrived b corrupt)
  · rfl

theorem transmitSide_receive (u : Usart) (b : UInt8) (corrupt : Bool) :
    (u.receive b corrupt).2.transmitSide = u.transmitSide := by
  rw [Usart.receive]
  split <;> rfl

theorem transmitView_injectAll (s : Observed) (bs : List UInt8) :
    (s.injectAll bs).2.transmitView = s.transmitView := by
  induction bs generalizing s with
  | nil => rfl
  | cons b bs ih => exact (ih _).trans (transmitView_inject s b false)

theorem transmitView_of_runCall {s t : Observed} {c : Port.Call} {a : Answer}
    (hc : (Port.Step.call c).side = .receive) (h : s.runCall c = some (a, t)) :
    t.transmitView = s.transmitView := by
  cases c with
  | onRxComplete =>
    cases h
    exact transmitView_onRxComplete s
  | available | hasData | peek =>
    cases h
    rfl
  | read | tryRead =>
    cases h
    exact transmitView_read s
  | readAvailable size =>
    cases h
    exact transmitView_readAvailable s (zeros size)
  | streamRead size =>
    obtain ⟨r, hr, e⟩ := Option.map_eq_some_iff.1 h
    have hv := transmitView_readAvailable s (zeros size)
    rw [streamRead_eq_some hr] at hv
    cases e
    exact hv
  | readExact size =>
    obtain ⟨r, hr, e⟩ := Option.map_eq_some_iff.1 h
    cases e
    exact transmitView_readExactWithin hr
  | _ => cases hc

theorem transmitView_of_runStep {s t : Observed} {st : Port.Step} {a : Answer}
    (hst : st.side = .receive) (h : s.runStep st = some (a, t)) :
    t.transmitView = s.transmitView := by
  cases st with
  | call c => exact transmitView_of_runCall hst h
  | line e =>
    cases e with
    | inject b corrupt =>
      cases h
      exact transmitView_inject s b corrupt
    | injectAll bs =>
      cases h
      exact transmitView_injectAll s bs
    | readWhile size b =>
      obtain ⟨r, hr, e⟩ := Option.map_eq_some_iff.1 h
      have hv := transmitView_readAvailable (s.inject b false).2 (zeros size)
      rw [streamRead_eq_some hr] at hv
      cases e
      exact hv.trans (transmitView_inject s b false)
    | _ => cases hst
  | usart op =>
    cases op with
    | receive b corrupt =>
      have hu := transmitSide_receive s.usart b corrupt
      change some (_, { s with usart := (s.usart.receive b corrupt).2 }) = _ at h
      cases h
      exact transmitView_congr
        (congrArg (fun u => ({ s.toPort.transmitSide with usart := u } : Port)) hu) rfl
    | _ => cases hst

end Observed

end SerialPort
