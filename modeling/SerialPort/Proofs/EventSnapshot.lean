import SerialPort.Proofs.EventCalls
import SerialPort.Proofs.Refusals

namespace SerialPort

namespace Board

variable {n : Nat} {η ν : Type}

/-- What a hook does: it ends and leaves a board, it never ends, or it runs the events on a board
and goes on with the count and the board that this gives. -/
inductive Course (n : Nat) (η ν : Type) where
  | stop (b : Board n η ν)
  | spin
  | events (b : Board n η ν) (rest : Nat → Board n η ν → Course n η ν)

namespace Course

variable (run : Board n η ν → Option (Nat × Board n η ν))

def finish : Course n η ν → Option (Board n η ν)
  | .stop b => some b
  | .spin => none
  | .events b rest => (run b).bind fun r => (rest r.1 r.2).finish

/-- The boards on which the events are run on the way. -/
def starts : Course n η ν → List (Board n η ν)
  | .stop _ | .spin => []
  | .events b rest => b :: (run b).elim [] fun r => (rest r.1 r.2).starts

variable {run}

theorem isSome_of_mem_starts {a : Course n η ν} (h : (a.finish run).isSome = true)
    {b : Board n η ν} (hb : b ∈ a.starts run) : (run b).isSome = true := by
  induction a with
  | stop _ | spin => cases hb
  | events c rest ih =>
    obtain ⟨e, he⟩ := Option.isSome_iff_exists.1 h
    obtain ⟨r, hr, hrest⟩ := Option.bind_eq_some_iff.1 he
    rw [starts, hr, Option.elim_some] at hb
    rcases List.mem_cons.1 hb with rfl | hb
    · exact Option.isSome_iff_exists.2 ⟨r, hr⟩
    · exact ih r.1 r.2 (Option.isSome_iff_exists.2 ⟨e, hrest⟩) hb

end Course

variable (course : Nat → η → Board n η ν → Course n η ν)

/-- Call a hook whose course may run the events again at most so many levels deep. A course that
goes deeper never ends. -/
def callNested : (levels : Nat) → η → Board n η ν → Option (Board n η ν)
  | 0, h, b => (course 0 h b).finish fun _ => none
  | levels + 1, h, b => (course (levels + 1) h b).finish (runCollected (callNested levels))

/-- A run of the events and all runs that its hooks start, directly or through the hooks of such a
run: the levels that are left to each and the board it starts on. -/
def runsWithin : (levels : Nat) → Board n η ν → List (Nat × Board n η ν)
  | 0, b => [(0, b)]
  | levels + 1, b =>
    (levels + 1, b) :: (b.callsCollected (callNested course (levels + 1))).flatMap fun x =>
      ((course (levels + 1) x.1.hook x.2).starts (runCollected (callNested course levels))).flatMap
        (runsWithin levels)

variable {course}

theorem isSome_of_mem_runsWithin {levels : Nat} {b : Board n η ν}
    (h : (b.runCollected (callNested course levels)).isSome = true) {r : Nat × Board n η ν}
    (hr : r ∈ runsWithin course levels b) :
    (r.2.runCollected (callNested course r.1)).isSome = true := by
  -- a hook that ends has seen the end of each run it started
  induction levels generalizing b with
  | zero =>
    obtain rfl := List.mem_singleton.1 hr
    exact h
  | succ levels ih =>
    rcases List.mem_cons.1 hr with rfl | hr
    · exact h
    · obtain ⟨x, hx, hr⟩ := List.mem_flatMap.1 hr
      obtain ⟨c, hc, hr⟩ := List.mem_flatMap.1 hr
      have hcall := isSome_of_mem_callsCollected h hx
      exact ih (Course.isSome_of_mem_starts hcall hc) hr

/-- A run goes by the board it starts on: it calls, in the order of the ids, each once and no
others, the hooks installed there for ids whose port has unread input. Each call is made on the
board that the calls before it leave, and the run ends on the board that all of them leave. -/
structure GoesByStart (call : η → Board n η ν → Option (Board n η ν)) (b : Board n η ν) : Prop where
  called : (b.callsCollected call).map (·.1) = b.due
  reached : ∀ before x after, b.callsCollected call = before ++ x :: after →
    b.callAll call (before.map (·.1)) = some x.2
  mem_due_iff : ∀ d, d ∈ b.due ↔ b.registry.get? d.id = some d.port ∧
    b.hooks.get? d.id = some d.hook ∧ (b.port d.port).hasData = true
  ascending : b.due.Pairwise (·.id.index < ·.id.index)
  length_le : b.due.length ≤ Table.maxPorts
  counted : ∃ c, b.callAll call ((b.callsCollected call).map (·.1)) = some c ∧
    b.callAll call b.due = some c ∧ b.runCollected call = some (b.due.length, c)

theorem goesByStart_of_isSome {call : η → Board n η ν → Option (Board n η ν)} {b : Board n η ν}
    (hsize : b.registry.size = Table.maxPorts) (h : (b.runCollected call).isSome = true) :
    GoesByStart call b := by
  have hnarrow := Table.narrow_of_maxPorts hsize
  obtain ⟨r, hr⟩ := Option.isSome_iff_exists.1 h
  rw [runCollected, collected_eq_due hsize] at hr
  obtain ⟨c, hc, _⟩ := Option.map_eq_some_iff.1 hr
  have hcalled : (b.callsCollected call).map (·.1) = b.due := by
    rw [callsCollected, collected_eq_due hsize]
    exact map_calls hc
  refine ⟨hcalled, fun _ _ _ => callAll_of_calls, fun d => mem_due hnarrow, pairwise_due hnarrow,
    hsize ▸ b.length_due_le, c, hcalled ▸ hc, hc, ?_⟩
  rw [runCollected, collected_eq_due hsize, hc, Option.map_some]

end Board

namespace Hook

variable {n : Nat}

def course : (levels : Nat) → Hook n → HookBoard n → Board.Course n (Hook n) (HookNote n)
  | 0, h, b => (h.call 0 b).elim .spin .stop
  | _ + 1, h, b =>
    if h.kind = .nest then
      .events (h.readOne b) fun ran c => .stop (c.note (h.note (.ran ran)))
    else (h.call 0 b).elim .spin .stop

theorem call_eq_callNested (levels : Nat) :
    Hook.call levels = Board.callNested (course (n := n)) levels := by
  induction levels with
  | zero =>
    funext h b
    rw [Board.callNested, course]
    cases h.call 0 b <;> rfl
  | succ levels ih =>
    funext h b
    rw [Board.callNested, course, ← ih]
    by_cases hk : h.kind = .nest
    · rw [if_pos hk, Board.Course.finish, call, hk]
      dsimp only
      cases (h.readOne b).runCollected (call levels) <;> rfl
    · rw [if_neg hk]
      have hcall : h.call (levels + 1) b = h.call 0 b := by
        unfold call
        cases hkind : h.kind with
        | nest => exact absurd hkind hk
        | _ => rfl
      rw [hcall]
      cases h.call 0 b <;> rfl

end Hook

namespace Board

def shiftingTraffic (i j k : Fin n) : List (Step n (Hook n)) :=
  [.bind ⟨0⟩ i, .bind ⟨1⟩ j, .bind ⟨2⟩ k, .setHook ⟨0⟩ ⟨.clear, k⟩, .setHook ⟨1⟩ ⟨.nest, j⟩,
    .setHook ⟨2⟩ ⟨.count, k⟩,
    .port i (.call (.enable 9600 .standard)), .port i (.line (.injectAll [0x61])),
    .port j (.call (.enable 9600 .standard)), .port j (.line (.injectAll [0x62])),
    .port k (.call (.enable 9600 .standard)), .port k (.line (.injectAll [0x63]))]

section

variable {call : η → Board n η ν → Option (Board n η ν)}

theorem exists_taken_of_gone {k : Fin n} {b c : Board n η ν} {before : List (Due n η)}
    (hdata : (b.port k).hasData = true) (hc : b.callAll call before = some c)
    (hgone : (c.port k).hasData = false) :
    ∃ earlier d later u v, before = earlier ++ d :: later ∧ b.callAll call earlier = some u ∧
      call d.hook u = some v ∧ (u.port k).hasData = true ∧ (v.port k).hasData = false := by
  -- the first call that leaves the port empty is the one looked for
  induction before generalizing b with
  | nil =>
    cases hc
    rw [hdata] at hgone
    cases hgone
  | cons d before ih =>
    obtain ⟨v, hv, hrest⟩ := Option.bind_eq_some_iff.1 hc
    by_cases hleft : (v.port k).hasData = true
    · obtain ⟨earlier, e, later, u, w, rfl, hu, htaken⟩ := ih hleft hrest
      refine ⟨d :: earlier, e, later, u, w, rfl, ?_, htaken⟩
      rw [callAll, hv]
      exact hu
    · exact ⟨[], d, before, b, v, rfl, rfl, hv, hdata, Bool.eq_false_iff.2 hleft⟩

/-- When the hooks collected before a hook have ended, the run calls that hook on the board `c` that
they leave. Its port had unread input when the run started. If it has none at the call, one of the
earlier hooks of this run took the last of it. -/
theorem unread_unless_taken {b c : Board n η ν} (hsize : b.registry.size = Table.maxPorts)
    {before after : List (Due n η)} {d : Due n η} (hd : b.collected = before ++ d :: after)
    (hc : b.callAll call before = some c) :
    b.runCollected call =
        ((call d.hook c).bind (·.callAll call after)).map (b.collected.length, ·) ∧
      b.registry.get? d.id = some d.port ∧ b.hooks.get? d.id = some d.hook ∧
      (b.port d.port).hasData = true ∧
      ((c.port d.port).hasData = false →
        ∃ earlier e later u v, before = earlier ++ e :: later ∧
          b.callAll call earlier = some u ∧ call e.hook u = some v ∧
          (u.port d.port).hasData = true ∧ (v.port d.port).hasData = false) := by
  have hdue : d ∈ b.due := by
    rw [← collected_eq_due hsize, hd]
    exact List.mem_append_right _ List.mem_cons_self
  obtain ⟨hport, hhook, hdata⟩ := (mem_due (Table.narrow_of_maxPorts hsize)).1 hdue
  refine ⟨?_, hport, hhook, hdata, exists_taken_of_gone hdata hc⟩
  have hrun : b.callAll call b.collected = (call d.hook c).bind (·.callAll call after) := by
    rw [hd, callAll_append, hc]
    rfl
  rw [runCollected, hrun]

end

def crossedTraffic (j k : Fin n) : List (Step n (Hook n)) :=
  [.bind ⟨0⟩ j, .bind ⟨1⟩ k, .setHook ⟨0⟩ ⟨.drain, k⟩, .setHook ⟨1⟩ ⟨.count, k⟩,
    .port j (.call (.enable 9600 .standard)), .port j (.line (.injectAll [0x41])),
    .port k (.call (.enable 9600 .standard)), .port k (.line (.injectAll [0x42]))]

theorem unread_unless_taken_crossed :
    ∃ b c, (new #v[.new 4 2, .new 4 2] 4 : HookBoard 2).after (Hook.call Hook.maxLevels)
        (crossedTraffic 0 1) = some b ∧
      b.registry.size = Table.maxPorts ∧
      b.collected = [⟨⟨0⟩, 0, ⟨.drain, 1⟩⟩] ++ [⟨⟨1⟩, 1, ⟨.count, 1⟩⟩] ∧
      b.callAll (Hook.call Hook.maxLevels) [⟨⟨0⟩, 0, ⟨.drain, 1⟩⟩] = some c ∧
      (b.port 1).hasData = true ∧ (c.port 1).hasData = false ∧
      ∃ earlier e later u v,
        ([⟨⟨0⟩, 0, ⟨.drain, 1⟩⟩] : List (Due 2 (Hook 2))) = earlier ++ e :: later ∧
        b.callAll (Hook.call Hook.maxLevels) earlier = some u ∧
        Hook.call Hook.maxLevels e.hook u = some v ∧
        (u.port 1).hasData = true ∧ (v.port 1).hasData = false := by
  have hstate : ((new #v[.new 4 2, .new 4 2] 4 : HookBoard 2).after (Hook.call Hook.maxLevels)
      (crossedTraffic 0 1)).any (fun b => b.registry.size = Table.maxPorts ∧
        b.collected = [⟨⟨0⟩, 0, ⟨.drain, 1⟩⟩] ++ [⟨⟨1⟩, 1, ⟨.count, 1⟩⟩] ∧
        (b.callAll (Hook.call Hook.maxLevels) [⟨⟨0⟩, 0, ⟨.drain, 1⟩⟩]).any
          (fun c => (c.port 1).hasData = false) = true) = true := by
    decide +kernel
  obtain ⟨b, hb, hsize, hcollected, hcalled⟩ := exists_after_of_any hstate
  obtain ⟨c, hc, hgone⟩ := (Option.any_eq_true _ _).1 hcalled
  rw [decide_eq_true_iff] at hgone
  obtain ⟨_, _, _, hdata, htaken⟩ := unread_unless_taken hsize hcollected hc
  exact ⟨b, c, hb, hsize, hcollected, hc, hdata, hgone, htaken hgone⟩

/-- The collected run calls the hook of the drained port, with nothing unread on it. The run in turn
does not call it. -/
theorem hook_called_without_input :
    ∃ b c d, ∃ before after : List (Due 2 (Hook 2)),
      (new #v[.new 4 2, .new 4 2] 4 : HookBoard 2).after (Hook.call Hook.maxLevels)
        (crossedTraffic 0 1) = some b ∧
      b.collected = before ++ d :: after ∧
      b.callAll (Hook.call Hook.maxLevels) before = some c ∧ (c.port d.port).hasData = false ∧
      (b.runCollected (Hook.call Hook.maxLevels)).map (·.1) = some 2 ∧
      (b.runInTurn (Hook.call Hook.maxLevels)).map (·.1) = some 1 := by
  have hstate : ((new #v[.new 4 2, .new 4 2] 4 : HookBoard 2).after (Hook.call Hook.maxLevels)
      (crossedTraffic 0 1)).any (fun b =>
        b.collected = [⟨⟨0⟩, 0, ⟨.drain, 1⟩⟩] ++ [⟨⟨1⟩, 1, ⟨.count, 1⟩⟩] ∧
        (b.callAll (Hook.call Hook.maxLevels) [⟨⟨0⟩, 0, ⟨.drain, 1⟩⟩]).any
          (fun c => (c.port 1).hasData = false) = true ∧
        (b.runCollected (Hook.call Hook.maxLevels)).map (·.1) = some 2 ∧
        (b.runInTurn (Hook.call Hook.maxLevels)).map (·.1) = some 1) = true := by
    decide +kernel
  obtain ⟨b, hb, hcollected, hcalled, hcounts⟩ := exists_after_of_any hstate
  obtain ⟨c, hc, hgone⟩ := (Option.any_eq_true _ _).1 hcalled
  rw [decide_eq_true_iff] at hgone
  exact ⟨b, c, _, _, _, hb, hcollected, hc, hgone, hcounts⟩

end Board

end SerialPort
