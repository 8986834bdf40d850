import SerialPort.Port.Run

namespace SerialPort

def Event.record? : Event → Option Record
  | .log r => some r
  | _ => none

namespace Port

def Outcome.records (o : Outcome) : List Record := o.events.filterMap Event.record?

/-- Each step is allowed at the port it finds, and ends. The history pairs it with its outcome. -/
inductive Executes (allowed : Port → Step → Bool) : Port → List (Step × Outcome) → Port → Prop
  | nil (p : Port) : Executes allowed p [] p
  | cons {p q : Port} {st : Step} {o : Outcome} {h : List (Step × Outcome)} :
      allowed p st = true → p.step st = some o → Executes allowed o.port h q →
      Executes allowed p ((st, o) :: h) q

def allows (allowed : Port → Step → Bool) (p : Port) : List Step → Bool
  | [] => true
  | st :: sts => allowed p st && (p.step st).all fun o => o.port.allows allowed sts

/-- The steps of a run that ended, each with its outcome. -/
def history (p : Port) (sts : List Step) : List (Step × Outcome) := sts.zip (p.run sts).1

theorem executes_history {allowed : Port → Step → Bool} {p q : Port} {sts : List Step}
    (hl : p.allows allowed sts = true) (ha : p.after sts = some q) :
    Executes allowed p (p.history sts) q := by
  induction sts generalizing p with
  | nil =>
    cases ha
    exact .nil _
  | cons st sts ih =>
    rw [allows, Bool.and_eq_true] at hl
    obtain ⟨hst, hrest⟩ := hl
    cases hs : p.step st with
    | none => simp [after, hs] at ha
    | some o =>
      rw [hs, Option.all_some] at hrest
      have hh : p.history (st :: sts) = (st, o) :: o.port.history sts := by
        simp only [history, run, hs, List.zip_cons_cons]
      rw [hh]
      exact .cons hst hs (ih hrest (by simpa [after, hs] using ha))

theorem exists_executes (allowed : Port → Step → Bool) (p : Port) (sts : List Step)
    (h : (p.allows allowed sts && (p.after sts).isSome) = true) :
    ∃ q, p.after sts = some q ∧ Executes allowed p (p.history sts) q := by
  rw [Bool.and_eq_true] at h
  obtain ⟨q, hq⟩ := Option.isSome_iff_exists.1 h.2
  exact ⟨q, hq, executes_history h.1 hq⟩

theorem Executes.run_eq {allowed : Port → Step → Bool} {p q : Port}
    {h : List (Step × Outcome)} (he : Executes allowed p h q) :
    p.run (h.map Prod.fst) = (h.map Prod.snd, true) := by
  induction he with
  | nil => rfl
  | cons _ hs _ ih => simp only [List.map_cons, run, hs, ih]

theorem Executes.append {allowed : Port → Step → Bool} {p q r : Port}
    {h h' : List (Step × Outcome)} (he : Executes allowed p h q) (he' : Executes allowed q h' r) :
    Executes allowed p (h ++ h') r := by
  induction he with
  | nil => exact he'
  | cons hl hs _ ih => exact .cons hl hs (ih he')

inductive Side where
  | transmit
  | receive
  | look
  | control
  deriving DecidableEq

/-- Steps that send, wait for the line or clock it; steps that bring input in or take it; steps that
look at neither; and the rest, which switch the port or go around it. -/
def Step.side : Step → Side
  | .call .flush | .call .pollTx | .call (.tryWrite _) | .call (.write _) | .call (.writeBytes _)
  | .call (.streamWrite _) | .call (.writeAll _) | .call (.print _)
  | .line .tick | .line .serviceTx | .line (.runUntilIdle _) | .usart .tick => .transmit
  | .call .onRxComplete | .call .available | .call .hasData | .call .peek | .call .read
  | .call .tryRead | .call (.readAvailable _) | .call (.streamRead _) | .call (.readExact _)
  | .line (.inject ..) | .line (.injectAll _) | .line (.readWhile ..)
  | .usart (.receive ..) => .receive
  | .call .state | .call .isEnabled | .call .clockHz | .call .trim | .call .availableForWrite
  | .call .writeReady | .usart .wire => .look
  | .call (.enable ..) | .call .disable | .call .onTxEmpty | .usart _ => .control

/-- The bytes that a step accepts for sending, the first to be sent first. -/
def Step.accepted : Step → Answer → List UInt8
  | .call (.tryWrite b), .ok => [b]
  | .call (.write b), _ => [b]
  | .call (.writeBytes bs), _ | .call (.streamWrite bs), _ | .call (.writeAll bs), _ => bs
  | .call (.print text), _ => text.toUTF8.toList
  | _, _ => []

/-- The bytes that a call sends, if it is one of the forms of writing. -/
def Call.written? : Call → Option (List UInt8)
  | .write b => some [b]
  | .writeBytes bs | .streamWrite bs | .writeAll bs => some bs
  | .print text => some text.toUTF8.toList
  | _ => none

def Call.receipt : Call → Answer
  | .write _ => .count 1
  | .writeBytes bs | .streamWrite bs => .count bs.length
  | .print _ => .flag true
  | _ => .done

theorem Call.accepted_of_written {c : Call} {bs : List UInt8} (hc : c.written? = some bs)
    (a : Answer) : (Step.call c).accepted a = bs := by
  cases c with
  | write | writeBytes | streamWrite | writeAll | print =>
    cases hc
    rfl
  | _ => cases hc

/-- The bytes that a step takes off the wire. -/
def Step.removed : Step → Answer → List UInt8
  | .usart .takeWire, .bytes bs => bs
  | _, _ => []

def accepted (h : List (Step × Outcome)) : List UInt8 := h.flatMap fun x => x.1.accepted x.2.answer

def removed (h : List (Step × Outcome)) : List UInt8 := h.flatMap fun x => x.1.removed x.2.answer

end Port

/-- What happens on the line, or is read off it, without an access to a register. -/
def Usart.Op.isLine : Usart.Op → Bool
  | .tick | .receive .. | .wire | .takeWire | .freeRunning _ => true
  | .store _ | .interruptEnabled _ | .txEmpty | .txComplete | .parityError | .readData => false

/-- Only the port accesses its registers, and its data-empty handler runs only when its interrupt is
enabled and due. -/
def Port.orderly (p : Port) : Port.Step → Bool
  | .call .onTxEmpty => p.usart.txInterruptPending
  | .call _ | .line _ => true
  | .usart op => op.isLine

end SerialPort
