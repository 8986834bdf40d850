import SerialPort.Board.Events
import SerialPort.Proofs.TableEntries

namespace SerialPort

namespace Board

variable {n : Nat} {η ν : Type}

section

variable (call : η → Board n η ν → Option (Board n η ν))

/-- The calls of a row of hooks, each with the board it is made on. A call that never ends is the
last one. -/
def calls (b : Board n η ν) : List (Due n η) → List (Due n η × Board n η ν)
  | [] => []
  | d :: ds => (d, b) :: (call d.hook b).elim [] (·.calls ds)

def callsOfEntries (b : Board n η ν) (hooks : Table η) :
    List (PortId × Fin n) → List (Due n η × Board n η ν)
  | [] => []
  | (id, k) :: rest =>
    match b.dueAt hooks id k with
    | none => b.callsOfEntries hooks rest
    | some d => (d, b) :: (call d.hook b).elim [] (·.callsOfEntries hooks rest)

def callsCollected (b : Board n η ν) : List (Due n η × Board n η ν) := b.calls call b.collected

def callsInTurn (b : Board n η ν) : List (Due n η × Board n η ν) :=
  b.callsOfEntries call b.hooks b.registry.entries

end

variable {call : η → Board n η ν → Option (Board n η ν)}

theorem callAll_calls (b : Board n η ν) (ds : List (Due n η)) :
    b.callAll call ((b.calls call ds).map (·.1)) = b.callAll call ds := by
  induction ds generalizing b with
  | nil => rfl
  | cons d ds ih =>
    rw [calls, List.map_cons, callAll, callAll]
    cases call d.hook b with
    | none => rfl
    | some c => exact ih c

theorem callAll_append (b : Board n η ν) (ds ds' : List (Due n η)) :
    b.callAll call (ds ++ ds') = (b.callAll call ds).bind (·.callAll call ds') := by
  induction ds generalizing b with
  | nil => rfl
  | cons d ds ih =>
    rw [List.cons_append, callAll, callAll, Option.bind_assoc]
    simp only [ih]

theorem callAll_of_calls {b : Board n η ν} {ds : List (Due n η)}
    {before after : List (Due n η × Board n η ν)} {x : Due n η × Board n η ν}
    (h : b.calls call ds = before ++ x :: after) :
    b.callAll call (before.map (·.1)) = some x.2 := by
  induction before generalizing b ds with
  | nil =>
    cases ds with
    | nil => cases h
    | cons d ds =>
      obtain ⟨rfl, _⟩ := List.cons.inj h
      rfl
  | cons y before ih =>
    cases ds with
    | nil => cases h
    | cons d ds =>
      obtain ⟨rfl, hrest⟩ := List.cons.inj h
      rw [List.map_cons, callAll]
      cases hc : call d.hook b with
      | none =>
        rw [hc] at hrest
        cases before <;> cases hrest
      | some c =>
        rw [hc] at hrest
        exact ih hrest

theorem map_calls {b c : Board n η ν} {ds : List (Due n η)} (h : b.callAll call ds = some c) :
    (b.calls call ds).map (·.1) = ds := by
  induction ds generalizing b with
  | nil => rfl
  | cons d ds ih =>
    obtain ⟨e, he, hrest⟩ := Option.bind_eq_some_iff.1 h
    rw [calls, he, List.map_cons, Option.elim_some, ih hrest]

theorem exists_callAll {b : Board n η ν} {ds : List (Due n η)}
    (h : ∀ x ∈ b.calls call ds, (call x.1.hook x.2).isSome = true) :
    ∃ c, b.callAll call ds = some c := by
  induction ds generalizing b with
  | nil => exact ⟨b, rfl⟩
  | cons d ds ih =>
    have hd := h (d, b) List.mem_cons_self
    obtain ⟨e, he⟩ := Option.isSome_iff_exists.1 hd
    have hrest : ∀ x ∈ e.calls call ds, (call x.1.hook x.2).isSome = true := by
      intro x hx
      apply h
      rw [calls, he]
      exact List.mem_cons_of_mem _ hx
    obtain ⟨c, hc⟩ := ih hrest
    exact ⟨c, by rw [callAll, he, Option.bind_some, hc]⟩

theorem isSome_of_mem_calls {b c : Board n η ν} {ds : List (Due n η)}
    (h : b.callAll call ds = some c) {x : Due n η × Board n η ν} (hx : x ∈ b.calls call ds) :
    (call x.1.hook x.2).isSome = true := by
  induction ds generalizing b with
  | nil => cases hx
  | cons d ds ih =>
    obtain ⟨e, he, hrest⟩ := Option.bind_eq_some_iff.1 h
    rw [calls, he, Option.elim_some] at hx
    rcases List.mem_cons.1 hx with rfl | hx
    · exact Option.isSome_iff_exists.2 ⟨e, he⟩
    · exact ih hrest hx

theorem runEntries_eq_callAll (b : Board n η ν) (hooks : Table η)
    (entries : List (PortId × Fin n)) :
    b.runEntries call hooks entries =
      (b.callAll call ((b.callsOfEntries call hooks entries).map (·.1))).map
        ((b.callsOfEntries call hooks entries).length, ·) := by
  induction entries generalizing b with
  | nil => rfl
  | cons entry rest ih =>
    obtain ⟨id, k⟩ := entry
    rw [runEntries, callsOfEntries]
    cases b.dueAt hooks id k with
    | none => exact ih b
    | some d =>
      simp only [List.map_cons, callAll, List.length_cons]
      cases call d.hook b with
      | none => rfl
      | some c =>
        simp only [Option.bind_eq_bind, Option.bind_some, Option.elim_some, ih c, Option.pure_def]
        cases c.callAll call ((c.callsOfEntries call hooks rest).map (·.1)) <;> rfl

theorem runInTurn_eq_callAll (b : Board n η ν) :
    b.runInTurn call =
      (b.callAll call ((b.callsInTurn call).map (·.1))).map ((b.callsInTurn call).length, ·) :=
  runEntries_eq_callAll b b.hooks b.registry.entries

theorem runCollected_eq_callAll (b : Board n η ν) :
    b.runCollected call =
      (b.callAll call ((b.callsCollected call).map (·.1))).map
        ((b.callsCollected call).length, ·) := by
  rw [runCollected, callsCollected, callAll_calls]
  cases h : b.callAll call b.collected with
  | none => rfl
  | some c =>
    have hlen := congrArg List.length (map_calls h)
    rw [List.length_map] at hlen
    rw [hlen]

theorem isSome_of_mem_callsCollected {b : Board n η ν}
    (h : (b.runCollected call).isSome = true) {x : Due n η × Board n η ν}
    (hx : x ∈ b.callsCollected call) : (call x.1.hook x.2).isSome = true := by
  obtain ⟨r, hr⟩ := Option.isSome_iff_exists.1 h
  obtain ⟨c, hc, _⟩ := Option.map_eq_some_iff.1 hr
  exact isSome_of_mem_calls hc hx

theorem dueAt_congr {b c : Board n η ν} {k : Fin n} (h : c.port k = b.port k) (hooks : Table η)
    (id : PortId) : c.dueAt hooks id k = b.dueAt hooks id k := by
  rw [dueAt, dueAt, h]

theorem dueAt_eq_some {b : Board n η ν} {hooks : Table η} {id : PortId} {k : Fin n} {d : Due n η} :
    b.dueAt hooks id k = some d ↔
      (b.port k).hasData = true ∧ hooks.get? id = some d.hook ∧ d.id = id ∧ d.port = k := by
  rw [dueAt]
  by_cases hd : (b.port k).hasData = true
  · rw [if_pos hd, Option.map_eq_some_iff]
    constructor
    · rintro ⟨h, hh, rfl⟩
      exact ⟨hd, hh, rfl, rfl⟩
    · rintro ⟨_, hh, rfl, rfl⟩
      exact ⟨d.hook, hh, rfl⟩
  · rw [if_neg hd]
    constructor
    · intro h
      cases h
    · rintro ⟨hdata, _⟩
      exact absurd hdata hd

theorem mem_due {b : Board n η ν} (hb : b.registry.Narrow) {d : Due n η} :
    d ∈ b.due ↔ b.registry.get? d.id = some d.port ∧ b.hooks.get? d.id = some d.hook ∧
      (b.port d.port).hasData = true := by
  rw [due, List.mem_filterMap]
  constructor
  · rintro ⟨⟨id, k⟩, hmem, hd⟩
    obtain ⟨hdata, hhook, rfl, rfl⟩ := dueAt_eq_some.1 hd
    exact ⟨(Table.mem_entries hb).1 hmem, hhook, hdata⟩
  · rintro ⟨hport, hhook, hdata⟩
    exact ⟨(d.id, d.port), (Table.mem_entries hb).2 hport, dueAt_eq_some.2 ⟨hdata, hhook, rfl, rfl⟩⟩

theorem pairwise_due {b : Board n η ν} (hb : b.registry.Narrow) :
    b.due.Pairwise (·.id.index < ·.id.index) := by
  refine (Table.pairwise_entries hb).filterMap _ fun e e' hlt d hd d' hd' => ?_
  obtain ⟨_, _, hid, _⟩ := dueAt_eq_some.1 hd
  obtain ⟨_, _, hid', _⟩ := dueAt_eq_some.1 hd'
  rw [hid, hid']
  exact hlt

theorem length_due_le (b : Board n η ν) : b.due.length ≤ b.registry.size :=
  (List.length_filterMap_le _ _).trans b.registry.length_entries_le

/-- There is room for every hook that is due, so none is dropped. -/
theorem collected_eq_due {b : Board n η ν} (hb : b.registry.size = Table.maxPorts) :
    b.collected = b.due :=
  Bounded.items_gather (hb ▸ b.length_due_le)

end Board

end SerialPort
