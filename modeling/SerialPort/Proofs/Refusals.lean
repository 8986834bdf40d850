import SerialPort.Proofs.FreeRunning
import SerialPort.Proofs.Queueing

namespace SerialPort

namespace Port

/-- Whether a step was refused. -/
def Step.refused : Step → Answer → Bool
  | .call (.enable ..), .failed _ | .call (.tryWrite _), .wouldBlock | .call .tryRead, .wouldBlock
  | .line (.inject ..), .flag false | .usart (.receive ..), .flag false => true
  | _, _ => false

/-- What a step that is refused looks at: the calibration before the baud rate is judged, and the
enable bit of the data-empty interrupt, which is on while the buffer is full. -/
def Step.looks (p : Port) : Step → List Event
  | .call (.enable ..) => [.load (.trim p.usart.trim)]
  | .call (.tryWrite _) => [.load (.interruptEnabled .txEmpty true)]
  | _ => []

theorem availableForWrite_eq_zero_iff (p : Port) :
    p.availableForWrite = 0 ↔ p.tx.length = p.tx.capacity := by
  have hle := p.tx.length_le_capacity
  unfold availableForWrite Ring.free
  omega

variable {p : Port} {st : Step} {o : Outcome}

theorem step_tryWrite_of_full (hp : p.Armed) (hfull : p.tx.length = p.tx.capacity) (b : UInt8) :
    p.step (.call (.tryWrite b)) =
      some ⟨.wouldBlock, p, [.load (.interruptEnabled .txEmpty true)]⟩ := by
  -- The interrupt is on while the buffer is full, so the flag that clocks the line is not read.
  have hon := hp.interrupt_iff.2 (Ring.toList_ne_nil_of_full hfull)
  have hw := Observed.tryWrite_of_full (s := p.observe) hp.interrupt_iff hfull b
  rw [step, Observed.runStep, Observed.runCall, hw]
  change some (⟨_, p, [.load (.interruptEnabled .txEmpty p.usart.txInterrupt)]⟩ : Outcome) = _
  rw [hon]
  rfl

theorem step_tryWrite_iff (hp : p.Armed) (b : UInt8) :
    (p.step (.call (.tryWrite b))).map (·.answer) = some .wouldBlock ↔
      p.availableForWrite = 0 := by
  have hstep : (p.step (.call (.tryWrite b))).map (·.answer) =
      some (if (p.observe.tryWrite b).1 then .ok else .wouldBlock) := rfl
  rw [hstep, availableForWrite_eq_zero_iff]
  constructor
  · intro h
    apply Observed.full_of_refused (s := p.observe) (b := b)
    cases hw : (p.observe.tryWrite b).1 with
    | false => rfl
    | true =>
      rw [hw] at h
      cases h
  · intro h
    rw [← hstep, step_tryWrite_of_full hp h, Option.map_some]

theorem step_enable_iff (baud : UInt32) (frame : FrameWord) (e : SerialError) :
    (p.step (.call (.enable baud frame))).map (·.answer) = some (.failed e) ↔
      Baud.divisor p.clockHz baud p.usart.trim = .error e := by
  rw [step_enable_eq]
  cases Baud.divisor p.clockHz baud p.usart.trim with
  | error e' => simp
  | ok d => simp

theorem step_refused (hp : p.Armed) (h : p.step st = some o) (hr : st.refused o.answer = true) :
    o.port = p ∧ o.events = st.looks p := by
  cases st with
  | call c =>
    cases c with
    | enable baud frame =>
      rw [step_enable_eq] at h
      cases hd : Baud.divisor p.clockHz baud p.usart.trim with
      | error e =>
        rw [hd] at h
        cases h
        exact ⟨rfl, rfl⟩
      | ok d =>
        rw [hd] at h
        obtain ⟨r, _, e⟩ := Option.map_eq_some_iff.1 h
        cases e
        cases hr
    | tryWrite b =>
      have hans : o.answer = .wouldBlock := by
        cases ha : o.answer with
        | wouldBlock => rfl
        | _ =>
          rw [ha] at hr
          cases hr
      have hfull := (step_tryWrite_iff hp b).1 (by rw [h, Option.map_some, hans])
      rw [step_tryWrite_of_full hp ((availableForWrite_eq_zero_iff p).1 hfull)] at h
      cases h
      exact ⟨rfl, rfl⟩
    | tryRead =>
      rw [step, Observed.runStep, Observed.runCall, Observed.read] at h
      cases hpop : p.rx.pop? with
      | none =>
        rw [Observed.toPort_observe, hpop] at h
        cases h
        exact ⟨rfl, rfl⟩
      | some popped =>
        rw [Observed.toPort_observe, hpop] at h
        cases h
        cases hr
    | _ => cases hr
  | line e =>
    cases e with
    | inject b corrupt =>
      rw [step, Observed.runStep, Observed.runLine, Observed.inject_eq] at h
      by_cases hon : p.usart.receiver = true
      · rw [Observed.toPort_observe, if_pos hon] at h
        cases h
        cases hr
      · rw [Observed.toPort_observe, if_neg hon] at h
        cases h
        exact ⟨rfl, rfl⟩
    | _ => cases hr
  | usart op =>
    cases op with
    | receive b corrupt =>
      change some (⟨.flag (p.usart.receive b corrupt).1,
        { p with usart := (p.usart.receive b corrupt).2 }, []⟩ : Outcome) = some o at h
      rw [Usart.receive] at h
      by_cases hon : p.usart.receiver = true
      · rw [if_pos hon] at h
        cases h
        cases hr
      · rw [if_neg hon] at h
        cases h
        exact ⟨rfl, rfl⟩
    | _ => cases hr

end Port

namespace Board

section

variable {n : Nat} {η ν : Type} {b : Board n η ν} {e : SerialError}

theorem snd_bind {id : PortId} {k : Fin n} (h : (b.bind id k).1 = .error e) :
    (b.bind id k).2 = b := by
  rw [bind] at h ⊢
  cases hb : b.registry.bind id k with
  | error => rfl
  | ok registry =>
    rw [hb] at h
    cases h

theorem snd_unbind {id : PortId} (h : (b.unbind id).1 = .error e) : (b.unbind id).2 = b := by
  rw [unbind] at h ⊢
  cases hb : b.registry.unbind id with
  | error => rfl
  | ok registry =>
    rw [hb] at h
    cases h

theorem snd_dispatch {id : PortId} {i : Interrupt} (h : (b.dispatch id i).1 = .error e) :
    (b.dispatch id i).2 = b := by
  rw [dispatch] at h ⊢
  cases hb : b.registry.find id with
  | error => rfl
  | ok k =>
    rw [hb] at h
    cases h

theorem snd_setHook {id : PortId} {hook : η} (h : (b.setHook id hook).1 = .error e) :
    (b.setHook id hook).2 = b := by
  rw [setHook] at h ⊢
  cases hb : b.hooks.set id hook with
  | error => rfl
  | ok hooks =>
    rw [hb] at h
    cases h

end

variable {n : Nat} {η ν : Type} {call : η → Board n η ν → Option (Board n η ν)}

theorem exists_after_of_any {b : Board n η ν} {sts : List (Step n η)} {p : Board n η ν → Prop}
    [DecidablePred p] (h : (b.after call sts).any (fun c => p c) = true) :
    ∃ c, b.after call sts = some c ∧ p c := by
  obtain ⟨c, hc, hp⟩ := (Option.any_eq_true _ _).1 h
  exact ⟨c, hc, of_decide_eq_true hp⟩

/-- The steps of a run that ended, each with its answer and the board it left. -/
def history (call : η → Board n η ν → Option (Board n η ν)) (b : Board n η ν)
    (sts : List (Step n η)) : List (Step n η × Answer × Board n η ν) :=
  sts.zip (b.run call sts).1

def Step.refused : Step n η → Answer → Bool
  | .port _ st, a => st.refused a
  | .bind .., .failed _ | .unbind _, .failed _ | .dispatch .., .failed _
  | .setHook .., .failed _ => true
  | _, _ => false

def Step.looks (b : Board n η ν) : Step n η → List (Entry n ν)
  | .port k st => (st.looks (b.port k)).map (Entry.port k)
  | _ => []

/-- A run without its refused calls. -/
def unrefused (call : η → Board n η ν → Option (Board n η ν)) (b : Board n η ν) :
    List (Step n η) → List (Step n η)
  | [] => []
  | st :: sts =>
    match b.step call st with
    | none => st :: sts
    | some (a, c) => if st.refused a then c.unrefused call sts else st :: c.unrefused call sts

theorem step_port (call : η → Board n η ν → Option (Board n η ν)) (b : Board n η ν) (k : Fin n)
    (st : Port.Step) :
    b.step call (.port k st) = ((b.port k).step st).map fun o =>
      (o.answer, { b with
        ports := b.ports.set k o.port k.isLt
        journal := (o.events.map (Entry.port k)).toArray }) := by
  rw [Port.step, Option.map_map]
  change ((b.port k).observe.runStep st).map _ = _
  congr 1
  funext r
  obtain ⟨a, s⟩ := r
  simp [restore, ← List.map_toArray]

theorem answer_port (b : Board n η ν) (k : Fin n) (st : Port.Step) :
    (b.step call (.port k st)).map (·.1) = ((b.port k).step st).map (·.answer) := by
  rw [step_port, Option.map_map]
  rfl

theorem set_port (b : Board n η ν) (k : Fin n) : b.ports.set k (b.port k) k.isLt = b.ports :=
  Vector.set_getElem_self ..

theorem eq_of_failed {b c : Board n η ν} {r : Except SerialError Unit × Board n η ν} {a : Answer}
    (h : some (Answer.ofResult r.1, r.2) = some (a, c)) (ha : ∃ e, a = .failed e)
    (hr : ∀ e, r.1 = .error e → r.2 = b) : c = b := by
  obtain ⟨rfl, rfl⟩ := Prod.mk.inj (Option.some.inj h)
  obtain ⟨e, he⟩ := ha
  cases hres : r.1 with
  | error e => exact hr e hres
  | ok =>
    rw [hres] at he
    cases he

theorem Step.failed_of_refused {st : Step n η} {a : Answer} (hr : st.refused a = true)
    (hst : ∀ k s, st ≠ .port k s) : ∃ e, a = .failed e := by
  unfold refused at hr
  split at hr
  · exact absurd rfl (hst _ _)
  · exact ⟨_, rfl⟩
  · exact ⟨_, rfl⟩
  · exact ⟨_, rfl⟩
  · exact ⟨_, rfl⟩
  · cases hr

theorem step_refused {b c : Board n η ν} {st : Step n η} {a : Answer} (hb : b.All Port.Armed)
    (h : b.step call st = some (a, c)) (hr : st.refused a = true) :
    c = { b with journal := (st.looks b).toArray } := by
  have hfail := Step.failed_of_refused hr
  cases st with
  | port k st =>
    rw [step_port] at h
    obtain ⟨o, ho, e⟩ := Option.map_eq_some_iff.1 h
    cases e
    obtain ⟨hport, hevents⟩ := Port.step_refused (hb k) ho hr
    rw [hport, hevents, set_port]
    rfl
  | bind id k => exact eq_of_failed h (hfail nofun) fun _ => snd_bind
  | unbind id => exact eq_of_failed h (hfail nofun) fun _ => snd_unbind
  | dispatch id i => exact eq_of_failed h (hfail nofun) fun _ => snd_dispatch
  | setHook id hook => exact eq_of_failed h (hfail nofun) fun _ => snd_setHook
  | _ => cases hr

theorem run_journal (call : η → Board n η ν → Option (Board n η ν)) (b : Board n η ν)
    (journal : Array (Entry n ν)) (sts : List (Step n η)) :
    { b with journal }.run call sts = b.run call sts := by
  cases sts <;> rfl

theorem history_cons {b c : Board n η ν} {st : Step n η} {a : Answer}
    (h : b.step call st = some (a, c)) (sts : List (Step n η)) :
    b.history call (st :: sts) = (st, a, c) :: c.history call sts := by
  simp only [history, run, h, List.zip_cons_cons]

theorem run_cons {b c : Board n η ν} {st : Step n η} {a : Answer}
    (h : b.step call st = some (a, c)) (sts : List (Step n η)) :
    (b.run call (st :: sts)).2 = (c.run call sts).2 := by
  simp only [run, h]

theorem armed_step {b c : Board n η ν} {st : Step n η} {a : Answer}
    (hcall : HooksReach Port.Step.sparesTxInterrupt call) (hst : st.sparesTxInterrupt = true)
    (hb : b.All Port.Armed) (h : b.step call st = some (a, c)) : c.All Port.Armed := by
  have hreach : b.Reaches Port.Step.sparesTxInterrupt c := by
    refine reaches_step (fun _ => rfl) hcall (fun k st' e => ?_) h
    subst e
    exact hst
  exact hreach.armed hb

theorem history_unrefused {b : Board n η ν} {sts : List (Step n η)}
    (hcall : HooksReach Port.Step.sparesTxInterrupt call) (hb : b.All Port.Armed)
    (hsts : ∀ st ∈ sts, st.sparesTxInterrupt = true) :
    b.history call (b.unrefused call sts) =
        (b.history call sts).filter (fun x => !x.1.refused x.2.1) ∧
      (b.run call (b.unrefused call sts)).2 = (b.run call sts).2 := by
  induction sts generalizing b with
  | nil => exact ⟨rfl, rfl⟩
  | cons st sts ih =>
    cases hs : b.step call st with
    | none =>
      have hu : b.unrefused call (st :: sts) = st :: sts := by rw [unrefused, hs]
      have hh : b.history call (st :: sts) = [] := by
        simp only [history, run, hs, List.zip_nil_right]
      rw [hu, hh]
      exact ⟨rfl, rfl⟩
    | some next =>
      obtain ⟨a, c⟩ := next
      have hc := armed_step hcall (hsts st List.mem_cons_self) hb hs
      obtain ⟨hh, hr⟩ := ih hc fun st h => hsts st (List.mem_cons_of_mem _ h)
      rw [history_cons hs, run_cons hs, ← hr]
      cases href : st.refused a with
      | true =>
        have hu : b.unrefused call (st :: sts) = c.unrefused call sts := by
          simp only [unrefused, hs, href, if_true]
        -- The board after a refused step differs in its journal alone, which no step reads.
        have hrun := run_journal call b (st.looks b).toArray (c.unrefused call sts)
        rw [← step_refused hb hs href] at hrun
        rw [List.filter_cons_of_neg (by simp [href]), ← hh, hu, history, history, ← hrun]
        exact ⟨rfl, rfl⟩
      | false =>
        have hu : b.unrefused call (st :: sts) = st :: c.unrefused call sts := by
          simp only [unrefused, hs, href, Bool.false_eq_true, if_false]
        rw [List.filter_cons_of_pos (by simp [href]), ← hh, hu, history_cons hs, run_cons hs]
        exact ⟨rfl, rfl⟩

/-- On a board of new ports, after any run: switching a port on fails exactly if the baud rate
cannot be had, a byte is refused exactly if the transmit buffer is full, a refused call changes
nothing, and a further run without its refused calls is the same for all others. The hooks may do
what they like to the tables, and to the ports what else may be done to them. -/
theorem refused_calls_change_nothing {call : η → Board n η ν → Option (Board n η ν)}
    {ports : Vector Port n} {slots : Nat} {sts : List (Step n η)} {b : Board n η ν}
    (hcall : HooksReach Port.Step.sparesTxInterrupt call) (hnew : ∀ k, (ports.get k).Fresh)
    (hsts : ∀ st ∈ sts, st.sparesTxInterrupt = true)
    (h : (new ports slots : Board n η ν).after call sts = some b) :
    (∀ k baud frame e,
      (b.step call (.port k (.call (.enable baud frame)))).map (·.1) = some (.failed e) ↔
        Baud.divisor (b.port k).clockHz baud (b.port k).usart.trim = .error e) ∧
    (∀ k byte, (b.step call (.port k (.call (.tryWrite byte)))).map (·.1) = some .wouldBlock ↔
      (b.port k).availableForWrite = 0) ∧
    (∀ st a c, b.step call st = some (a, c) → st.refused a = true →
      c = { b with journal := (st.looks b).toArray }) ∧
    ∀ more : List (Step n η), (∀ st ∈ more, st.sparesTxInterrupt = true) →
      b.history call (b.unrefused call more) =
          (b.history call more).filter (fun x => !x.1.refused x.2.1) ∧
        (b.run call (b.unrefused call more)).2 = (b.run call more).2 := by
  have hfresh : All Port.Armed (new ports slots : Board n η ν) := fun k => (hnew k).armed
  have hreach : Reaches Port.Step.sparesTxInterrupt (new ports slots) b :=
    reaches_after (fun _ => rfl) hcall (fun k st hm => hsts _ hm) h
  have hb := hreach.armed hfresh
  refine ⟨fun k baud frame e => ?_, fun k byte => ?_, fun st a c hst hr => ?_, fun more hmore => ?_⟩
  · rw [answer_port]
    exact Port.step_enable_iff baud frame e
  · rw [answer_port]
    exact Port.step_tryWrite_iff (hb k) byte
  · exact step_refused hb hst hr
  · exact history_unrefused hcall hb hmore

def crammedTraffic (j : Fin n) : List (Step n (Hook n)) :=
  [.bind ⟨0⟩ j, .port j (.call (.enable 9600 .standard)), .port j (.call (.writeBytes [1, 2, 3])),
    .port j (.usart (.freeRunning true))]

def refusedTraffic (j k : Fin n) : List (Step n (Hook n)) :=
  [.port j (.call (.tryWrite 4)), .port j (.call (.enable 0 .standard)), .port j (.call .tryRead),
    .port k (.line (.inject 7 true)), .bind ⟨0⟩ k, .unbind ⟨2⟩, .dispatch ⟨1⟩ .txEmpty,
    .setHook ⟨2⟩ ⟨.echo, j⟩, .port j (.usart .wire), .port j (.call .pollTx),
    .port j (.call (.tryWrite 4)), .port j (.call .flush), .port j (.usart .wire)]

theorem refused_calls_change_nothing_crammed :
    ∃ b, (new #v[.new 2 2, .new 2 2] 2 : HookBoard 2).after
        (Hook.call Hook.maxLevels) (crammedTraffic 0) = some b ∧
      (b.step (Hook.call Hook.maxLevels) (.port 0 (.call (.enable 1 .standard)))).map (·.1) =
        some (.failed .divisorOutOfRange) ∧
      (∃ c, b.step (Hook.call Hook.maxLevels) (.port 0 (.call (.tryWrite 4))) =
          some (.wouldBlock, c) ∧
        c = { b with journal := #[.port 0 (.load (.interruptEnabled .txEmpty true))] }) ∧
      b.unrefused (Hook.call Hook.maxLevels) (refusedTraffic 0 1) =
        [.port 0 (.usart .wire), .port 0 (.call .pollTx), .port 0 (.call (.tryWrite 4)),
          .port 0 (.call .flush), .port 0 (.usart .wire)] ∧
      (b.history (Hook.call Hook.maxLevels)
          (b.unrefused (Hook.call Hook.maxLevels) (refusedTraffic 0 1))).map (·.2.1) =
        [.bytes [], .done, .ok, .done, .bytes [1, 2, 3, 4]] := by
  have hstate : ((new #v[.new 2 2, .new 2 2] 2 : HookBoard 2).after
      (Hook.call Hook.maxLevels) (crammedTraffic 0)).any (fun b =>
      (b.port 0).clockHz = Usart.clockHz ∧ (b.port 0).usart.trim = 0 ∧
      (b.port 0).availableForWrite = 0 ∧
      b.unrefused (Hook.call Hook.maxLevels) (refusedTraffic 0 1) =
        [.port 0 (.usart .wire), .port 0 (.call .pollTx), .port 0 (.call (.tryWrite 4)),
          .port 0 (.call .flush), .port 0 (.usart .wire)] ∧
      ((b.history (Hook.call Hook.maxLevels) (refusedTraffic 0 1)).filter
          (fun x => !x.1.refused x.2.1)).map (·.2.1) =
        [.bytes [], .done, .ok, .done, .bytes [1, 2, 3, 4]]) = true := by decide +kernel
  obtain ⟨b, hb, hstate⟩ := (Option.any_eq_true _ _).1 hstate
  rw [decide_eq_true_iff] at hstate
  obtain ⟨hclock, htrim, hfull, hkept, hanswers⟩ := hstate
  have hbaud : Baud.divisor (b.port 0).clockHz 1 (b.port 0).usart.trim =
      .error .divisorOutOfRange := by
    rw [hclock, htrim]
    rfl
  have hnew (k : Fin 2) : ((#v[.new 2 2, .new 2 2] : Vector Port 2).get k).Fresh := by
    match k with
    | 0 => exact .new ..
    | 1 => exact .new ..
  obtain ⟨henable, hwrite, hsame, hrun⟩ :=
    refused_calls_change_nothing hooksReach_stock hnew (by decide) hb
  obtain ⟨⟨a, c⟩, hc, e⟩ := Option.map_eq_some_iff.1 ((hwrite 0 4).2 hfull)
  cases e
  refine ⟨b, hb, (henable 0 1 .standard _).2 hbaud, ⟨c, hc, hsame _ _ _ hc rfl⟩, hkept, ?_⟩
  rw [(hrun (refusedTraffic 0 1) (by decide)).1, hanswers]

end Board

end SerialPort
