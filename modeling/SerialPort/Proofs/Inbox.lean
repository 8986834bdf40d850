import SerialPort.Proofs.Sides

namespace SerialPort

/-- What a reader knows of a port: what it was made with, whether it is switched on, and the bytes
not yet read. -/
structure Inbox where
  capacity : Nat
  clockHz : UInt32
  trim : Int8
  enabled : Bool := false
  unread : List UInt8 := []
  deriving DecidableEq

namespace Inbox

/-- The answer of a step, if the inbox decides it, and what is logged of bytes that come in. -/
structure Reply where
  answer : Option Answer := none
  records : List Record := []
  deriving DecidableEq

def arrive (q : Inbox) (b : UInt8) (corrupt : Bool) : Bool × List Record × Inbox :=
  if q.enabled then
    if corrupt then (true, [.parityError b], q)
    else if q.unread.length < q.capacity then (true, [], { q with unread := q.unread ++ [b] })
    else (true, [.overflow b], q)
  else (false, [], q)

def arriveAll (q : Inbox) : List UInt8 → Nat × List Record × Inbox
  | [] => (0, [], q)
  | b :: bs =>
    let (taken, rs, q) := q.arrive b false
    let (n, rest, q) := q.arriveAll bs
    (taken.toNat + n, rs ++ rest, q)

def answers (q : Inbox) (a : Answer) : Reply × Inbox := ({ answer := some a }, q)

/-- Sending, waiting and the clock do not concern the inbox. -/
def step (q : Inbox) : Port.Step → Reply × Inbox
  | .call (.enable baud _) =>
    match Baud.divisor q.clockHz baud q.trim with
    | .error e => q.answers (.failed e)
    | .ok _ => { q with enabled := true, unread := [] }.answers .ok
  | .call .disable => { q with enabled := false, unread := [] }.answers .done
  | .call .state => q.answers (.state (if q.enabled then .enabled else .disabled))
  | .call .isEnabled => q.answers (.flag q.enabled)
  | .call .available => q.answers (.count q.unread.length)
  | .call .hasData => q.answers (.flag (!q.unread.isEmpty))
  | .call .peek => q.answers (.byte? q.unread.head?)
  | .call .read => { q with unread := q.unread.tail }.answers (.byte? q.unread.head?)
  | .call .tryRead =>
    { q with unread := q.unread.tail }.answers (q.unread.head?.elim .wouldBlock .byte)
  | .call (.readAvailable size) =>
    { q with unread := q.unread.drop size }.answers
      (.filled (min size q.unread.length)
        (q.unread.take size ++ List.replicate (size - q.unread.length) 0))
  | .line (.inject b corrupt) =>
    let (taken, rs, q) := q.arrive b corrupt
    (⟨some (.flag taken), rs⟩, q)
  | .line (.injectAll bs) =>
    let (n, rs, q) := q.arriveAll bs
    (⟨some (.count n), rs⟩, q)
  | _ => ({}, q)

def run (q : Inbox) : List Port.Step → List Reply × Inbox
  | [] => ([], q)
  | st :: sts => ((q.step st).1 :: ((q.step st).2.run sts).1, ((q.step st).2.run sts).2)

theorem step_enable_error {q : Inbox} {baud : UInt32} {e : SerialError}
    (h : Baud.divisor q.clockHz baud q.trim = .error e) (frame : FrameWord) :
    q.step (.call (.enable baud frame)) = (⟨some (.failed e), []⟩, q) := by
  rw [step, h]
  rfl

theorem step_enable_ok {q : Inbox} {baud : UInt32} {d : UInt16}
    (h : Baud.divisor q.clockHz baud q.trim = .ok d) (frame : FrameWord) :
    q.step (.call (.enable baud frame)) =
      (⟨some .ok, []⟩, { q with enabled := true, unread := [] }) := by
  rw [step, h]
  rfl

theorem step_of_transmit {st : Port.Step} (h : st.side = .transmit) (q : Inbox) :
    q.step st = ({}, q) := by
  unfold step
  split <;> first | cases h | rfl

structure Same (q r : Inbox) : Prop where
  capacity : r.capacity = q.capacity
  clockHz : r.clockHz = q.clockHz
  trim : r.trim = q.trim

theorem Same.trans {q r s : Inbox} (h : Same q r) (h' : Same r s) : Same q s :=
  ⟨h'.capacity.trans h.capacity, h'.clockHz.trans h.clockHz, h'.trim.trans h.trim⟩

theorem same_arrive (q : Inbox) (b : UInt8) (corrupt : Bool) :
    Same q (q.arrive b corrupt).2.2 := by
  rw [arrive]
  split
  · split
    · exact ⟨rfl, rfl, rfl⟩
    · split <;> exact ⟨rfl, rfl, rfl⟩
  · exact ⟨rfl, rfl, rfl⟩

theorem same_arriveAll (q : Inbox) (bs : List UInt8) : Same q (q.arriveAll bs).2.2 := by
  induction bs generalizing q with
  | nil => exact ⟨rfl, rfl, rfl⟩
  | cons b bs ih => exact (same_arrive q b false).trans (ih _)

theorem same_step (q : Inbox) (st : Port.Step) : Same q (q.step st).2 := by
  cases st with
  | call c =>
    cases c with
    | enable baud frame =>
      rw [step]
      split <;> exact ⟨rfl, rfl, rfl⟩
    | _ => exact ⟨rfl, rfl, rfl⟩
  | line e =>
    cases e with
    | inject b corrupt => exact same_arrive q b corrupt
    | injectAll bs => exact same_arriveAll q bs
    | _ => exact ⟨rfl, rfl, rfl⟩
  | usart op => exact ⟨rfl, rfl, rfl⟩

theorem same_run (q : Inbox) (sts : List Port.Step) : Same q (q.run sts).2 := by
  induction sts generalizing q with
  | nil => exact ⟨rfl, rfl, rfl⟩
  | cons st sts ih => exact (same_step q st).trans (ih _)

/-- An outcome is as the inbox says: it gives the same answer and logs the same of what came in. -/
structure Reply.Describes (r : Reply) (o : Port.Outcome) : Prop where
  answer : ∀ a, r.answer = some a → o.answer = a
  records : o.records.filter Record.isReceive = r.records

end Inbox

end SerialPort
