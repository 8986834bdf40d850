import SerialPort.Proofs.EventCalls
import SerialPort.Proofs.Refusals

namespace SerialPort

namespace Board

variable {n : Nat} {η ν : Type} {call : η → Board n η ν → Option (Board n η ν)}

/-- Whatever a hook does, it leaves every port but one as it was. -/
def KeepsTo (call : η → Board n η ν → Option (Board n η ν)) (h : η) (k : Fin n) : Prop :=
  ∀ b c, call h b = some c → ∀ j, j ≠ k → c.port j = b.port j

theorem callsOfEntries_eq_calls {hooks : Table η} {entries : List (PortId × Fin n)}
    (hnodup : (entries.map (·.2)).Nodup)
    (hown : ∀ entry ∈ entries, ∀ h, hooks.get? entry.1 = some h → KeepsTo call h entry.2)
    (b : Board n η ν) :
    b.callsOfEntries call hooks entries =
      b.calls call (entries.filterMap fun e => b.dueAt hooks e.1 e.2) := by
  -- a hook that was called has left the ports of the entries still to be visited as they were
  induction entries generalizing b with
  | nil => rfl
  | cons entry rest ih =>
    obtain ⟨id, k⟩ := entry
    obtain ⟨hk, hrest⟩ := List.nodup_cons.1 hnodup
    have ih := ih hrest fun e he => hown e (List.mem_cons_of_mem _ he)
    rw [callsOfEntries]
    cases hd : b.dueAt hooks id k with
    | none =>
      rw [List.filterMap_cons_none (a := (id, k)) hd]
      exact ih b
    | some d =>
      rw [List.filterMap_cons_some (a := (id, k)) hd, calls]
      dsimp only
      cases hc : call d.hook b with
      | none => rfl
      | some c =>
        have hkeep := hown (id, k) List.mem_cons_self d.hook (dueAt_eq_some.1 hd).2.1
        have hsame : ∀ e ∈ rest, c.dueAt hooks e.1 e.2 = b.dueAt hooks e.1 e.2 := by
          intro e he
          apply dueAt_congr
          apply hkeep b c hc
          intro hek
          exact hk (List.mem_map.2 ⟨e, he, hek⟩)
        rw [Option.elim_some, Option.elim_some, ih c, List.filterMap_congr hsame]

/-- With each port bound under one id at most, and each hook keeping to the port bound to its id,
the run in turn and the collected run make the same calls on the same boards. Both end, with the
same count and the same board, or neither does. -/
theorem runInTurn_agrees_with_runCollected {b : Board n η ν}
    (hsize : b.registry.size = Table.maxPorts)
    (hsingle : ∀ id id' k, b.registry.get? id = some k → b.registry.get? id' = some k → id = id')
    (hown : ∀ id k h, b.registry.get? id = some k → b.hooks.get? id = some h → KeepsTo call h k) :
    b.callsInTurn call = b.callsCollected call ∧ b.runInTurn call = b.runCollected call := by
  have hnarrow := Table.narrow_of_maxPorts hsize
  have hcalls : b.callsInTurn call = b.callsCollected call := by
    rw [callsCollected, collected_eq_due hsize]
    apply callsOfEntries_eq_calls ((Table.nodup_entries_iff hnarrow).2 hsingle)
    intro entry hentry h hh
    exact hown entry.1 entry.2 h ((Table.mem_entries hnarrow).1 hentry) hh
  refine ⟨hcalls, ?_⟩
  rw [runInTurn_eq_callAll, runCollected_eq_callAll, hcalls]

theorem port_of_await {α : Type} {j k : Fin n} (h : j ≠ k) {b c : Board n η ν} {a : α}
    {f : Observed → Option (α × Observed)} (hf : b.await k f = some (a, c)) :
    c.port j = b.port j := by
  obtain ⟨⟨_, s⟩, _, e⟩ := Option.map_eq_some_iff.1 hf
  cases e
  exact port_restore_of_ne h b s

theorem keepsTo_of_not_nest {h : Hook n} (hk : h.kind ≠ .nest) (levels : Nat) :
    KeepsTo (Hook.call levels) h h.port := by
  intro b c hc j hj
  unfold Hook.call at hc
  cases hkind : h.kind with
  | count | clear =>
    rw [hkind] at hc
    cases hc
    rfl
  | drain | one | inject =>
    rw [hkind] at hc
    cases hc
    exact port_restore_of_ne hj b _
  | echo =>
    rw [hkind] at hc
    obtain ⟨⟨_, c⟩, hw, rfl⟩ := Option.map_eq_some_iff.1 hc
    exact port_of_await hj (b := b.note h.note) hw
  | unbind =>
    rw [hkind] at hc
    cases hc
    exact port_unbind b h.ownId j
  | rehook =>
    rw [hkind] at hc
    cases hc
    exact port_setHook (b.note h.note) h.ownId _ j
  | nest => exact absurd hkind hk

def busyTraffic (i j k : Fin n) : List (Step n (Hook n)) :=
  [.bind ⟨3⟩ i, .bind ⟨0⟩ j, .bind ⟨2⟩ k, .setHook ⟨0⟩ ⟨.echo, j⟩, .setHook ⟨1⟩ ⟨.drain, i⟩,
    .setHook ⟨2⟩ ⟨.inject, k⟩, .setHook ⟨3⟩ ⟨.one, i⟩,
    .port i (.call (.enable 9600 .standard)), .port i (.line (.injectAll [0x61, 0x62])),
    .port j (.call (.enable 9600 .standard)), .port j (.line (.injectAll [0x63])),
    .port k (.call (.enable 9600 .standard)), .port k (.line (.injectAll [0x64]))]

theorem runInTurn_agrees_with_runCollected_busy :
    ∃ b, (new #v[.new 4 2, .new 4 2, .new 4 2] 4 : HookBoard 3).after (Hook.call Hook.maxLevels)
        (busyTraffic 0 1 2) = some b ∧
      b.registry.size = Table.maxPorts ∧
      ((b.callsInTurn (Hook.call Hook.maxLevels)).map fun x => (x.1.id, x.1.hook)) =
        [(⟨0⟩, ⟨.echo, 1⟩), (⟨2⟩, ⟨.inject, 2⟩), (⟨3⟩, ⟨.one, 0⟩)] ∧
      (b.runInTurn (Hook.call Hook.maxLevels)).map (fun r =>
          (r.1, (r.2.port 0).rx.toList, (r.2.port 1).pending, (r.2.port 2).rx.toList)) =
        some (3, [0x62], [0x43], [0x64, 0x68]) ∧
      b.callsInTurn (Hook.call Hook.maxLevels) = b.callsCollected (Hook.call Hook.maxLevels) ∧
      b.runInTurn (Hook.call Hook.maxLevels) = b.runCollected (Hook.call Hook.maxLevels) := by
  have hstate : ((new #v[.new 4 2, .new 4 2, .new 4 2] 4 : HookBoard 3).after
      (Hook.call Hook.maxLevels) (busyTraffic 0 1 2)).any
      (fun b => b.registry.size = Table.maxPorts ∧ (b.registry.entries.map (·.2)).Nodup ∧
        (∀ e ∈ b.registry.entries, ∀ h ∈ b.hooks.get? e.1, h.port = e.2 ∧ h.kind ≠ .nest) ∧
        ((b.callsInTurn (Hook.call Hook.maxLevels)).map fun x => (x.1.id, x.1.hook)) =
          [(⟨0⟩, ⟨.echo, 1⟩), (⟨2⟩, ⟨.inject, 2⟩), (⟨3⟩, ⟨.one, 0⟩)] ∧
        (b.runInTurn (Hook.call Hook.maxLevels)).map (fun r =>
            (r.1, (r.2.port 0).rx.toList, (r.2.port 1).pending, (r.2.port 2).rx.toList)) =
          some (3, [0x62], [0x43], [0x64, 0x68])) = true := by
    decide +kernel
  obtain ⟨b, hb, hsize, hnodup, hown, hcalled, hran⟩ := exists_after_of_any hstate
  have hnarrow := Table.narrow_of_maxPorts hsize
  refine ⟨b, hb, hsize, hcalled, hran, runInTurn_agrees_with_runCollected hsize
    ((Table.nodup_entries_iff hnarrow).1 hnodup) fun id k h hid hh => ?_⟩
  obtain ⟨rfl, hk⟩ := hown (id, k) ((Table.mem_entries hnarrow).2 hid) h hh
  exact keepsTo_of_not_nest hk _

end Board

end SerialPort
