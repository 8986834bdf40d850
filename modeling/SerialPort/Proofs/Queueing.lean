import SerialPort.Proofs.BoardPorts

namespace SerialPort

inductive Port.Fresh : Port → Prop
  | new (rxSlots txSlots : Nat) (clockHz : UInt32) (trim : Int8) (freeRunning : Bool)
      (hrx : 2 ≤ rxSlots) (htx : 2 ≤ txSlots) :
      Fresh (.new rxSlots txSlots clockHz trim freeRunning hrx htx)

structure Port.Armed (p : Port) : Prop where
  interrupt_iff : p.usart.txInterrupt = true ↔ p.tx.toList ≠ []
  written : p.tx.toList ≠ [] → p.written = true

namespace Port

variable {p q : Port}

theorem Fresh.armed (h : p.Fresh) : p.Armed := by
  cases h with
  | new => exact ⟨by simp [Port.new], by simp [Port.new]⟩

theorem Armed.of_transmitSide (h : q.transmitSide = p.transmitSide) (hp : p.Armed) : q.Armed := by
  have hs : p.transmitSide.Armed := ⟨hp.1, hp.2⟩
  rw [← h] at hs
  exact ⟨hs.1, hs.2⟩

theorem Armed.queue_eq_nil (h : p.Armed) (hi : p.usart.txInterrupt = false) :
    p.tx.toList = [] := by
  by_cases hn : p.tx.toList = []
  · exact hn
  · rw [h.interrupt_iff.2 hn] at hi
    cases hi

theorem armed_of_queue_nil (hq : p.tx.toList = []) (hi : p.usart.txInterrupt = false) :
    p.Armed :=
  ⟨by simp [hq, hi], fun hn => absurd hq hn⟩

end Port

theorem Usart.txInterrupt_shiftOut (u : Usart) : u.shiftOut.2.txInterrupt = u.txInterrupt := by
  rw [shiftOut]
  cases u.shifter <;> rfl

namespace Observed

theorem armed_onTxEmpty {s : Observed} (hs : s.Armed) : s.onTxEmpty.Armed := by
  cases hpop : s.tx.pop? with
  | none =>
    have he := (Ring.pop?_eq_none_iff _).1 hpop
    rw [toPort_onTxEmpty_of_none hpop he]
    exact Port.armed_of_queue_nil ((Ring.toList_eq_nil_iff _).2 he) rfl
  | some popped =>
    obtain ⟨b, tx⟩ := popped
    have hq : s.tx.toList ≠ [] := by simp [Ring.toList_pop hpop]
    rw [toPort_onTxEmpty_of_some hpop]
    exact ⟨interrupt_iff_of_pop hs.interrupt_iff hpop, fun _ => hs.written hq⟩

theorem Transmits.armed {s t : Observed} {bs : List UInt8} (h : Transmits s bs t)
    (hs : s.Armed) : t.Armed := by
  induction h with
  | refl => exact hs
  | trans _ _ ih ih' => exact ih' (ih hs)
  | look => exact ⟨hs.1, hs.2⟩
  | shift s => exact ⟨(Usart.txInterrupt_shiftOut s.usart).symm ▸ hs.1, hs.2⟩
  | serve => exact armed_onTxEmpty hs
  | send s b =>
    have hi : (s.load b).usart.txInterrupt = s.usart.txInterrupt := by
      rw [toPort_load]
      exact Usart.txInterrupt_putData s.usart b
    have ht : (s.load b).tx = s.tx := by rw [toPort_load]
    refine ⟨?_, fun _ => rfl⟩
    change (s.load b).usart.txInterrupt = true ↔ (s.load b).tx.toList ≠ []
    rw [hi, ht]
    exact hs.interrupt_iff
  | queue s b tx _ hp =>
    rw [toPort_store]
    exact ⟨by simp [Ring.toList_push hp, Usart.store], fun _ => rfl⟩

theorem interrupt_of_flush {s r : Observed} (hs : s.Armed) (h : s.flush = some r) :
    r.usart.txInterrupt = false := by
  by_cases hw : s.written = true
  · rw [flush, if_pos hw] at h
    obtain ⟨t, _, ht, rfl⟩ := pollUntil_some (fun u _ => transmits_drained u) h
    rw [fst_drained] at ht
    have hi : t.usart.txInterrupt = false := by
      cases hi : t.usart.txInterrupt with
      | false => rfl
      | true => simp [hi] at ht
    rw [toPort_drained]
    split <;> simp [hi]
  · rw [flush, if_neg hw] at h
    cases h
    cases hi : s.usart.txInterrupt with
    | false => rfl
    | true => exact absurd (hs.written (hs.interrupt_iff.1 hi)) hw

/-- Switching off turns the interrupt off without a look at the queue, which the wait before it has
emptied. -/
theorem armed_disable {s r : Observed} (hs : s.Armed) (h : s.disable = some r) : r.Armed := by
  obtain ⟨u, hu, rfl⟩ := disable_eq_some.1 h
  have hq := ((transmits_flush hu).armed hs).queue_eq_nil (interrupt_of_flush hs hu)
  rw [toPort_log, toPort_switchOff]
  exact Port.armed_of_queue_nil hq rfl

theorem armed_switchOn (s : Observed) (d : UInt16) (f : FrameWord) : (s.switchOn d f).Armed := by
  rw [toPort_switchOn]
  exact Port.armed_of_queue_nil (Ring.toList_reset _) rfl

theorem StepsTo.armed {s t : Observed} {st : Port.Step} {a : Answer} (h : StepsTo s st a t)
    (hs : s.Armed) : t.Armed := by
  cases h with
  | transmit _ ht => exact ht.armed hs
  | receive _ hv => exact hs.of_transmitSide (congrArg Prod.fst hv)
  | look _ hp _ => exact hp ▸ hs
  | serve => exact armed_onTxEmpty hs
  | refuse => exact hs
  | enable => exact armed_switchOn _ _ _
  | disable hd => exact armed_disable hs hd
  | takeWire | freeRunning => exact ⟨hs.1, hs.2⟩

end Observed

/-- Whether an operation leaves the enable bit of the data-empty interrupt as it is. -/
def Usart.Op.sparesTxInterrupt : Usart.Op → Bool
  | .store (.interrupt .txEmpty _) => false
  | _ => true

theorem Usart.txInterrupt_apply {op : Usart.Op} (h : op.sparesTxInterrupt = true) (u : Usart) :
    (op.apply u).2.txInterrupt = u.txInterrupt := by
  cases op with
  | store w =>
    cases w with
    | data b => exact txInterrupt_putData u b
    | interrupt i on =>
      cases i with
      | rxComplete => rfl
      | txEmpty => cases h
    | _ => rfl
  | txEmpty | txComplete => exact txInterrupt_clock u
  | tick => exact txInterrupt_shiftOut u
  | receive b corrupt =>
    change (u.receive b corrupt).2.txInterrupt = _
    rw [receive]
    split <;> rfl
  | _ => rfl

theorem Observed.armed_runUsart {s : Observed} {op : Usart.Op} (h : op.sparesTxInterrupt = true)
    (hs : s.Armed) : (s.runUsart op).2.Armed := by
  have hi := Usart.txInterrupt_apply h s.usart
  change ((({ s with usart := (op.apply s.usart).2 } : Observed)).warnIf _).toPort.Armed
  rw [toPort_warnIf]
  exact ⟨hi.symm ▸ hs.interrupt_iff, hs.written⟩

namespace Port

def Step.sparesTxInterrupt : Step → Bool
  | .usart op => op.sparesTxInterrupt
  | _ => true

theorem Step.sparesTxInterrupt_of_offRegisters {st : Step} (h : st.offRegisters = true) :
    st.sparesTxInterrupt = true := by
  cases st with
  | call | line => rfl
  | usart op =>
    cases op with
    | store w => cases h
    | _ => rfl

theorem Armed.step {p : Port} {st : Step} {o : Outcome} (hp : p.Armed)
    (hst : st.sparesTxInterrupt = true) (h : p.step st = some o) : o.port.Armed := by
  obtain ⟨t, ht, hport, _⟩ := observe_of_step h
  rw [← hport]
  cases st with
  | call c =>
    have hs : Observed.StepsTo p.observe (.call c) o.answer t := Observed.stepsTo_of_runStep rfl ht
    exact hs.armed hp
  | line e =>
    have hs : Observed.StepsTo p.observe (.line e) o.answer t := Observed.stepsTo_of_runStep rfl ht
    exact hs.armed hp
  | usart op =>
    have e : (p.observe.runUsart op).2 = t := congrArg Prod.snd (Option.some.inj ht)
    rw [← e]
    exact Observed.armed_runUsart hst hp

end Port

namespace Board

variable {n : Nat} {η ν : Type}

def Step.sparesTxInterrupt : Step n η → Bool
  | .port _ st => st.sparesTxInterrupt
  | _ => true

def All (P : Port → Prop) (b : Board n η ν) : Prop := ∀ k, P (b.port k)

theorem Reaches.armed {b c : Board n η ν} (h : b.Reaches Port.Step.sparesTxInterrupt c)
    (hb : b.All Port.Armed) : c.All Port.Armed := by
  intro k
  obtain ⟨l, hl⟩ := h k
  exact hl.keeps (fun _ _ _ hst hp ho => hp.step hst ho) (hb k)

/-- On a board of new ports no queued byte is ever left with the interrupt off, and the interrupt
never stays on with nothing to send, whatever handlers are dispatched and whatever the hooks do, as
long as they leave the enable bit alone. -/
theorem txInterrupt_iff_queued {call : η → Board n η ν → Option (Board n η ν)}
    {ports : Vector Port n} {slots : Nat} {sts : List (Step n η)}
    (hcall : HooksReach Port.Step.sparesTxInterrupt call) (hnew : ∀ k, (ports.get k).Fresh)
    (hsts : ∀ st ∈ sts, st.sparesTxInterrupt = true) :
    ∀ x ∈ ((new ports slots : Board n η ν).run call sts).1, ∀ k,
      ((x.2.port k).usart.txInterrupt = true ↔ (x.2.port k).tx.toList ≠ []) ∧
      ((x.2.port k).tx.toList ≠ [] → (x.2.port k).written = true) := by
  intro x hx k
  have hb : (new ports slots : Board n η ν).All Port.Armed := fun j => (hnew j).armed
  have hreach : Reaches Port.Step.sparesTxInterrupt (new ports slots) x.2 :=
    reaches_of_mem_run (fun _ => rfl) hcall (fun j st hm => hsts _ hm) hx
  have harmed := hreach.armed hb k
  exact ⟨harmed.interrupt_iff, harmed.written⟩

theorem hooksReach_stock :
    HooksReach Port.Step.sparesTxInterrupt (Hook.call (n := n) Hook.maxLevels) :=
  (Hook.hooksReach_call Hook.maxLevels).mono fun _ => Port.Step.sparesTxInterrupt_of_offRegisters

def meddledTraffic : List (Step 2 (Hook 2)) :=
  [.bind ⟨0⟩ 0, .port 0 (.call (.enable 9600 .standard)), .port 0 (.call (.writeBytes [1, 2, 3])),
    .dispatch ⟨0⟩ .txEmpty, .dispatch ⟨0⟩ .rxComplete, .port 0 (.usart (.store (.data 9))),
    .port 0 (.call (.write 4)), .interrupt 1 .txEmpty, .setHook ⟨0⟩ ⟨.echo, 0⟩,
    .events .collected, .port 0 (.usart (.freeRunning true)), .port 0 (.call .disable)]

theorem txInterrupt_iff_queued_meddled :
    (∀ st ∈ meddledTraffic, st.sparesTxInterrupt = true) ∧
      ((new #v[.new 3 3, .new 2 2] 2 : HookBoard 2).run
          (Hook.call Hook.maxLevels) meddledTraffic).1.map
          (fun x => ((x.2.port 0).usart.txInterrupt, (x.2.port 0).tx.toList)) =
        [(false, []), (false, []), (true, [3]), (false, []), (false, []), (false, []), (true, [4]),
          (true, [4]), (true, [4]), (true, [4, 0]), (true, [4, 0]), (false, [])] ∧
      ∀ x ∈ ((new #v[.new 3 3, .new 2 2] 2 : HookBoard 2).run
          (Hook.call Hook.maxLevels) meddledTraffic).1, ∀ k,
        ((x.2.port k).usart.txInterrupt = true ↔ (x.2.port k).tx.toList ≠ []) ∧
        ((x.2.port k).tx.toList ≠ [] → (x.2.port k).written = true) := by
  have hsts : ∀ st ∈ meddledTraffic, st.sparesTxInterrupt = true := by decide
  refine ⟨hsts, by decide +kernel, txInterrupt_iff_queued hooksReach_stock (fun k => ?_) hsts⟩
  match k with
  | 0 => exact .new ..
  | 1 => exact .new ..

end Board

end SerialPort
