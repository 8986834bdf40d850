import SerialPort.Board.Hook
import SerialPort.Board.Run
import SerialPort.Proofs.Steps

namespace SerialPort

namespace Port

variable {allowed : Step → Bool}

theorem executes_of_runStep {p : Port} {st : Step} {a : Answer} {t : Observed}
    (hst : allowed st = true) (h : p.observe.runStep st = some (a, t)) :
    Executes (fun _ st => allowed st) p [(st, ⟨a, t.toPort, t.events.toList⟩)] t.toPort :=
  .cons hst (by rw [step, h, Option.map_some]) (.nil _)

theorem exists_executes_echoUpTo (hcalls : ∀ c, allowed (.call c) = true) {s t : Observed} {n : Nat}
    (h : s.echoUpTo n = some t) : ∃ l, Executes (fun _ st => allowed st) s.toPort l t.toPort := by
  induction n generalizing s with
  | zero =>
    cases h
    exact ⟨[], .nil _⟩
  | succ n ih =>
    have hread : Executes (fun _ st => allowed st) s.toPort _ s.toPort.observe.read.2.toPort :=
      executes_of_runStep (hcalls .read) rfl
    have hsame : s.toPort.observe.read.2.toPort = s.read.2.toPort := by
      rw [Observed.read, Observed.read, Observed.toPort_observe]
      cases s.rx.pop? <;> rfl
    rw [hsame] at hread
    rw [Observed.echoUpTo] at h
    generalize s.read = x at h hread
    obtain ⟨b, u⟩ := x
    cases b with
    | none =>
      cases h
      exact ⟨_, hread⟩
    | some b =>
      obtain ⟨⟨m, v⟩, hwrite, hrest⟩ := Option.bind_eq_some_iff.1 h
      obtain ⟨v, hv, e⟩ := Option.map_eq_some_iff.1 hwrite
      cases e
      -- what was noted before the write does not touch the port
      have hport := Observed.toPort_send_congr (s := u.toPort.observe) (t := u) rfl (upperCase b)
      rw [hv, Option.map_some] at hport
      obtain ⟨w, hw, hwv⟩ := Option.map_eq_some_iff.1 hport
      have hsend :
          u.toPort.observe.runStep (.call (.write (upperCase b))) = some (.count 1, w) := by
        rw [Observed.runStep, Observed.runCall, Observed.write, hw]
        rfl
      obtain ⟨l, hl⟩ := ih hrest
      rw [← hwv] at hl
      exact ⟨_, hread.append ((executes_of_runStep (hcalls _) hsend).append hl)⟩

end Port

namespace Board

section

variable {n : Nat} {η ν : Type}

theorem port_restore_self (b : Board n η ν) (k : Fin n) (s : Observed) :
    (b.restore k s).port k = s.toPort :=
  Vector.getElem_set_self ..

theorem port_restore_of_ne {j k : Fin n} (h : j ≠ k) (b : Board n η ν) (s : Observed) :
    (b.restore k s).port j = b.port j :=
  Vector.getElem_set_ne k.isLt j.isLt fun e => h (Fin.ext e.symm)

theorem port_bind (b : Board n η ν) (id : PortId) (k j : Fin n) :
    (b.bind id k).2.port j = b.port j := by
  rw [bind]
  cases b.registry.bind id k <;> rfl

theorem port_unbind (b : Board n η ν) (id : PortId) (j : Fin n) :
    (b.unbind id).2.port j = b.port j := by
  rw [unbind]
  cases b.registry.unbind id with
  | error => rfl
  | ok registry =>
    dsimp only
    split <;> rfl

theorem port_setHook (b : Board n η ν) (id : PortId) (h : η) (j : Fin n) :
    (b.setHook id h).2.port j = b.port j := by
  rw [setHook]
  cases b.hooks.set id h <;> rfl

end

variable {n : Nat} {η ν : Type} {allowed : Port.Step → Bool} {b c d : Board n η ν}

/-- Each port of the one board comes to that of the other by a row of steps of its own. -/
def Reaches (allowed : Port.Step → Bool) (b c : Board n η ν) : Prop :=
  ∀ k, ∃ l, Port.Executes (fun _ st => allowed st) (b.port k) l (c.port k)

/-- Whatever else a hook does, what it does to each port is a row of allowed steps of that port. -/
def HooksReach (allowed : Port.Step → Bool) (call : η → Board n η ν → Option (Board n η ν)) :
    Prop :=
  ∀ h b c, call h b = some c → b.Reaches allowed c

theorem Reaches.of_ports (h : ∀ k, c.port k = b.port k) : b.Reaches allowed c := fun k =>
  ⟨[], h k ▸ .nil _⟩

theorem Reaches.trans (hbc : b.Reaches allowed c) (hcd : c.Reaches allowed d) :
    b.Reaches allowed d := by
  intro k
  obtain ⟨l, hl⟩ := hbc k
  obtain ⟨l', hl'⟩ := hcd k
  exact ⟨l ++ l', hl.append hl'⟩

theorem HooksReach.mono {wider : Port.Step → Bool} {call : η → Board n η ν → Option (Board n η ν)}
    (hw : ∀ st, allowed st = true → wider st = true) (h : HooksReach allowed call) :
    HooksReach wider call := by
  intro hook b c hc k
  obtain ⟨l, hl⟩ := h hook b c hc k
  exact ⟨l, hl.mono fun _ => hw⟩

theorem reaches_restore {k : Fin n} {s : Observed} {l : List (Port.Step × Port.Outcome)}
    (hl : Port.Executes (fun _ st => allowed st) (b.port k) l s.toPort) :
    b.Reaches allowed (b.restore k s) := by
  intro j
  by_cases hj : j = k
  · subst hj
    rw [port_restore_self]
    exact ⟨l, hl⟩
  · rw [port_restore_of_ne hj]
    exact ⟨[], .nil _⟩

theorem reaches_runStep {k : Fin n} {a : Answer} {s : Observed} (st : Port.Step)
    (hst : allowed st = true) (h : (b.port k).observe.runStep st = some (a, s)) :
    b.Reaches allowed (b.restore k s) :=
  reaches_restore (Port.executes_of_runStep hst h)

theorem reaches_handle (hcalls : ∀ c, allowed (.call c) = true) (b : Board n η ν) (k : Fin n)
    (i : Interrupt) : b.Reaches allowed (b.handle k i) := by
  cases i with
  | rxComplete => exact reaches_runStep (.call .onRxComplete) (hcalls _) rfl
  | txEmpty => exact reaches_runStep (.call .onTxEmpty) (hcalls _) rfl

theorem reaches_dispatch (hcalls : ∀ c, allowed (.call c) = true) (b : Board n η ν) (id : PortId)
    (i : Interrupt) : b.Reaches allowed (b.dispatch id i).2 := by
  rw [dispatch]
  cases b.registry.find id with
  | error e => exact .of_ports fun _ => rfl
  | ok k => exact reaches_handle hcalls b k i

variable {call : η → Board n η ν → Option (Board n η ν)}

theorem reaches_callAll (hcall : HooksReach allowed call) {ds : List (Due n η)}
    (h : b.callAll call ds = some c) : b.Reaches allowed c := by
  induction ds generalizing b with
  | nil =>
    cases h
    exact .of_ports fun _ => rfl
  | cons d ds ih =>
    obtain ⟨e, he, hds⟩ := Option.bind_eq_some_iff.1 h
    exact (hcall _ _ _ he).trans (ih hds)

theorem reaches_runCollected (hcall : HooksReach allowed call) {m : Nat}
    (h : b.runCollected call = some (m, c)) : b.Reaches allowed c := by
  obtain ⟨e, he, hc⟩ := Option.map_eq_some_iff.1 h
  cases hc
  exact reaches_callAll hcall he

theorem reaches_runEntries (hcall : HooksReach allowed call) {hooks : Table η}
    {entries : List (PortId × Fin n)} {m : Nat}
    (h : b.runEntries call hooks entries = some (m, c)) :
    b.Reaches allowed c := by
  induction entries generalizing b m with
  | nil =>
    cases h
    exact .of_ports fun _ => rfl
  | cons entry rest ih =>
    obtain ⟨id, k⟩ := entry
    rw [runEntries] at h
    cases hd : b.dueAt hooks id k with
    | none =>
      rw [hd] at h
      exact ih h
    | some d =>
      rw [hd] at h
      obtain ⟨e, he, h⟩ := Option.bind_eq_some_iff.1 h
      obtain ⟨⟨m', e'⟩, hrest, h⟩ := Option.bind_eq_some_iff.1 h
      cases h
      exact (hcall _ _ _ he).trans (ih hrest)

theorem reaches_step (hcalls : ∀ c, allowed (.call c) = true) (hcall : HooksReach allowed call)
    {st : Step n η} {a : Answer} (hst : ∀ k st', st = .port k st' → allowed st' = true)
    (h : b.step call st = some (a, c)) : b.Reaches allowed c := by
  have hfresh : b.Reaches allowed { b with journal := #[] } := .of_ports fun _ => rfl
  refine hfresh.trans ?_
  cases st with
  | port k st =>
    obtain ⟨⟨a, s⟩, hs, e⟩ := Option.map_eq_some_iff.1 h
    cases e
    exact reaches_runStep st (hst k st rfl) hs
  | bind id k =>
    cases h
    exact .of_ports fun j => port_bind _ id k j
  | unbind id =>
    cases h
    exact .of_ports fun j => port_unbind _ id j
  | dispatch id i =>
    cases h
    exact reaches_dispatch hcalls _ id i
  | setHook id hook =>
    cases h
    exact .of_ports fun j => port_setHook _ id hook j
  | events how =>
    obtain ⟨⟨m, c⟩, hrun, e⟩ := Option.map_eq_some_iff.1 h
    cases e
    cases how with
    | inTurn => exact reaches_runEntries hcall hrun
    | collected => exact reaches_runCollected hcall hrun
  | interrupt k i =>
    cases h
    exact reaches_handle hcalls _ k i
  | get | isBound | boundIds | waiting | clearHook | hasHook =>
    cases h
    exact .of_ports fun _ => rfl

theorem reaches_of_mem_run (hcalls : ∀ c, allowed (.call c) = true)
    (hcall : HooksReach allowed call) {sts : List (Step n η)}
    (hsts : ∀ k st, .port k st ∈ sts → allowed st = true)
    {x : Answer × Board n η ν} (hx : x ∈ (b.run call sts).1) : b.Reaches allowed x.2 := by
  induction sts generalizing b with
  | nil => cases hx
  | cons st sts ih =>
    rw [run] at hx
    cases hs : b.step call st with
    | none =>
      rw [hs] at hx
      cases hx
    | some next =>
      obtain ⟨a, c⟩ := next
      rw [hs] at hx
      have hc : b.Reaches allowed c :=
        reaches_step hcalls hcall (fun k st' e => hsts k st' (e ▸ List.mem_cons_self)) hs
      rcases List.mem_cons.1 hx with rfl | hx
      · exact hc
      · exact hc.trans (ih (fun k st' he => hsts k st' (List.mem_cons_of_mem _ he)) hx)

theorem reaches_after (hcalls : ∀ c, allowed (.call c) = true) (hcall : HooksReach allowed call)
    {sts : List (Step n η)} (hsts : ∀ k st, .port k st ∈ sts → allowed st = true)
    (h : b.after call sts = some c) : b.Reaches allowed c := by
  induction sts generalizing b with
  | nil =>
    cases h
    exact .of_ports fun _ => rfl
  | cons st sts ih =>
    obtain ⟨d, hd, hrest⟩ := Option.bind_eq_some_iff.1 h
    obtain ⟨⟨a, e⟩, hst, rfl⟩ := Option.map_eq_some_iff.1 hd
    have he : b.Reaches allowed e :=
      reaches_step hcalls hcall (fun k st' e => hsts k st' (e ▸ List.mem_cons_self)) hst
    exact he.trans (ih (fun k st' hm => hsts k st' (List.mem_cons_of_mem _ hm)) hrest)

end Board

namespace Hook

variable {n : Nat} {b c : HookBoard n}

theorem reaches_readOne (h : Hook n) (b : HookBoard n) :
    b.Reaches Port.Step.offRegisters (h.readOne b) :=
  Board.reaches_runStep (k := h.port) (.call .read) rfl rfl

theorem reaches_call_of_below {levels : Nat} {h : Hook n}
    (below : ∀ l, levels = l + 1 → Board.HooksReach Port.Step.offRegisters (call (n := n) l))
    (hc : call levels h b = some c) : b.Reaches Port.Step.offRegisters c := by
  unfold call at hc
  cases hk : h.kind with
  | count | clear =>
    rw [hk] at hc
    cases hc
    exact .of_ports fun _ => rfl
  | drain =>
    rw [hk] at hc
    cases hc
    exact Board.reaches_runStep (k := h.port) (.call (.readAvailable (b.port h.port).available))
      rfl rfl
  | one =>
    rw [hk] at hc
    cases hc
    exact reaches_readOne h b
  | echo =>
    rw [hk] at hc
    obtain ⟨⟨u, c⟩, hw, e⟩ := Option.map_eq_some_iff.1 hc
    cases e
    obtain ⟨⟨u, t⟩, ht, e⟩ := Option.map_eq_some_iff.1 hw
    cases e
    obtain ⟨t, hecho, e⟩ := Option.map_eq_some_iff.1 ht
    cases e
    have hcalls : ∀ c, Port.Step.offRegisters (.call c) = true := fun _ => rfl
    obtain ⟨l, hl⟩ := Port.exists_executes_echoUpTo hcalls hecho
    exact Board.reaches_restore (b := b.note h.note) hl
  | inject =>
    rw [hk] at hc
    cases hc
    exact Board.reaches_runStep (k := h.port) (.line (.inject injected false)) rfl rfl
  | unbind =>
    rw [hk] at hc
    cases hc
    exact .of_ports fun j => Board.port_unbind b h.ownId j
  | rehook =>
    rw [hk] at hc
    cases hc
    exact .of_ports fun j => Board.port_setHook (b.note h.note) h.ownId _ j
  | nest =>
    rw [hk] at hc
    have hr := reaches_readOne h b
    cases levels with
    | zero =>
      cases hc
      exact hr
    | succ l =>
      obtain ⟨⟨ran, d⟩, hrun, e⟩ := Option.map_eq_some_iff.1 hc
      cases e
      have hran : (h.readOne b).Reaches Port.Step.offRegisters d :=
        Board.reaches_runCollected (below l rfl) hrun
      exact (hr.trans hran).trans (.of_ports fun _ => rfl)

theorem hooksReach_call (levels : Nat) :
    Board.HooksReach Port.Step.offRegisters (call (n := n) levels) := by
  induction levels with
  | zero => exact fun h b c hc => reaches_call_of_below (fun l e => by cases e) hc
  | succ levels ih =>
    intro h b c hc
    refine reaches_call_of_below (fun l e => ?_) hc
    cases e
    exact ih

end Hook

end SerialPort
