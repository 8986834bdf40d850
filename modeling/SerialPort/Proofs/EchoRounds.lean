import SerialPort.Proofs.Echoing
import SerialPort.Proofs.OwnPort

namespace SerialPort

namespace Board

section

variable {n : Nat} {η ν : Type} (call : η → Board n η ν → Option (Board n η ν)) {b : Board n η ν}
  {k : Fin n}

theorem after_append (b : Board n η ν) (sts sts' : List (Step n η)) :
    b.after call (sts ++ sts') = (b.after call sts).bind (·.after call sts') :=
  List.foldlM_append

theorem exists_step_port {st : Port.Step} {o : Port.Outcome} (ho : (b.port k).step st = some o) :
    ∃ c, b.step call (.port k st) = some (o.answer, c) ∧ c.port k = o.port ∧
      c.registry = b.registry ∧ c.hooks = b.hooks := by
  have hstep := step_port call b k st
  rw [ho] at hstep
  exact ⟨_, hstep, Vector.getElem_set_self .., rfl, rfl⟩

theorem exists_after_port {sts : List Port.Step} {q : Port} (h : (b.port k).after sts = some q) :
    ∃ c, b.after call (sts.map (.port k)) = some c ∧ c.port k = q ∧ c.registry = b.registry ∧
      c.hooks = b.hooks := by
  induction sts generalizing b with
  | nil => exact ⟨b, rfl, Option.some.inj h, rfl, rfl⟩
  | cons st sts ih =>
    obtain ⟨r, hr, hrest⟩ := Option.bind_eq_some_iff.1 h
    obtain ⟨o, ho, rfl⟩ := Option.map_eq_some_iff.1 hr
    obtain ⟨c, hc, hport, hreg, hhooks⟩ := exists_step_port call ho
    obtain ⟨d, hd, hq, hreg', hhooks'⟩ := ih (hport ▸ hrest)
    refine ⟨d, ?_, hq, hreg'.trans hreg, hhooks'.trans hhooks⟩
    change ((b.step call _).map _).bind _ = _
    rw [hc]
    exact hd

end

variable {n : Nat} (levels : Nat) {b c : HookBoard n} {id : PortId} {k : Fin n}

/-- One port alone is bound, and the hook of its id is the echo on it. -/
structure EchoesOn (b : HookBoard n) (id : PortId) (k : Fin n) : Prop where
  size : b.registry.size = Table.maxPorts
  only : ∀ id' k', b.registry.get? id' = some k' ↔ id' = id ∧ k' = k
  hook : b.hooks.get? id = some ⟨.echo, k⟩

theorem EchoesOn.of_tables (h : b.EchoesOn id k) (hr : c.registry = b.registry)
    (hh : c.hooks = b.hooks) : c.EchoesOn id k :=
  ⟨hr ▸ h.size, hr ▸ h.only, hh ▸ h.hook⟩

theorem EchoesOn.mem_due (h : b.EchoesOn id k) {d : Due n (Hook n)} :
    d ∈ b.due ↔ d = ⟨id, k, ⟨.echo, k⟩⟩ ∧ (b.port k).hasData = true := by
  rw [Board.mem_due (Table.narrow_of_maxPorts h.size), h.only]
  obtain ⟨i, j, hook⟩ := d
  constructor
  · rintro ⟨⟨hi, hj⟩, hhook, hdata⟩
    dsimp only at hi hj hhook hdata
    subst hi hj
    rw [h.hook] at hhook
    cases hhook
    exact ⟨rfl, hdata⟩
  · rintro ⟨e, hdata⟩
    cases e
    exact ⟨⟨rfl, rfl⟩, h.hook, hdata⟩

theorem EchoesOn.collected_eq (h : b.EchoesOn id k) :
    b.collected = if (b.port k).hasData then [⟨id, k, ⟨.echo, k⟩⟩] else [] := by
  rw [collected_eq_due h.size]
  by_cases hd : (b.port k).hasData = true
  · have hnodup : b.due.Nodup := by
      refine (pairwise_due (Table.narrow_of_maxPorts h.size)).imp fun hlt he => ?_
      rw [he] at hlt
      exact Nat.lt_irrefl _ hlt
    rw [if_pos hd, ← List.perm_singleton,
      List.perm_ext_iff_of_nodup hnodup (List.nodup_singleton _)]
    intro d
    simp [h.mem_due, hd]
  · rw [if_neg hd, List.eq_nil_iff_forall_not_mem]
    intro d hmem
    exact hd (h.mem_due.1 hmem).2

/-- A board whose one bound port is in the midst of an echo. -/
structure Relays (id : PortId) (k : Fin n) (inRoom outRoom : Nat)
    (unread sent unsent : List UInt8) (b : HookBoard n) : Prop where
  tables : b.EchoesOn id k
  port : (b.port k).Relays inRoom outRoom unread sent unsent

variable {inRoom outRoom : Nat} {unread sent unsent : List UInt8}

theorem call_echo {s : Observed} (h : (b.port k).observe.echo = some s) :
    Hook.call levels ⟨.echo, k⟩ b =
      some ((b.note (Hook.note (⟨.echo, k⟩ : Hook n))).restore k s) := by
  unfold Hook.call
  change (((b.port k).observe.echo.map _).map _).map _ = _
  rw [h]
  rfl

theorem exists_runCollected (h : b.Relays id k inRoom outRoom unread sent unsent)
    (hroom : unsent.length + unread.length ≤ outRoom + 2) :
    ∃ c, b.runCollected (Hook.call levels) = some (if unread = [] then 0 else 1, c) ∧
      c.Relays id k inRoom outRoom [] sent (unsent ++ unread.map upperCase) := by
  have hdata : (b.port k).hasData = !unread.isEmpty := by
    rw [Port.hasData_eq]
    exact congrArg (fun bs : List UInt8 => !bs.isEmpty) h.port.unread.bytes
  rw [runCollected, h.tables.collected_eq, hdata]
  cases unread with
  | nil =>
    refine ⟨b, rfl, h.tables, ?_⟩
    rw [List.map_nil, List.append_nil]
    exact h.port
  | cons x unread =>
    obtain ⟨s, hs, _, hunread, hunsent⟩ :=
      Observed.exists_echo (s := (b.port k).observe) h.port.unread h.port.unsent hroom
    refine ⟨(b.note (Hook.note (⟨.echo, k⟩ : Hook n))).restore k s, ?_,
      h.tables.of_tables rfl rfl, ?_⟩
    · change ((Hook.call levels ⟨.echo, k⟩ b).bind some).map _ = _
      rw [call_echo levels hs]
      rfl
    · rw [port_restore_self]
      exact ⟨hunread, hunsent⟩

theorem exists_events (h : b.Relays id k inRoom outRoom unread sent unsent)
    (hroom : unsent.length + unread.length ≤ outRoom + 2) :
    ∃ c, b.step (Hook.call levels) (.events .collected) =
        some (.count (if unread = [] then 0 else 1), c) ∧
      c.Relays id k inRoom outRoom [] sent (unsent ++ unread.map upperCase) := by
  have hfresh : Relays id k inRoom outRoom unread sent unsent { b with journal := #[] } :=
    ⟨h.tables.of_tables rfl rfl, h.port⟩
  obtain ⟨c, hc, hrel⟩ := exists_runCollected levels hfresh hroom
  refine ⟨c, ?_, hrel⟩
  change (runCollected (Hook.call levels) { b with journal := #[] }).map _ = _
  rw [hc]
  rfl

theorem Relays.of_port {q : Port} (h : b.Relays id k inRoom outRoom unread sent unsent)
    {sts : List Port.Step} {unread' sent' unsent' : List UInt8}
    (hq : (b.port k).after sts = some q)
    (hrel : q.Relays inRoom outRoom unread' sent' unsent') :
    ∃ c, b.after (Hook.call levels) (sts.map (.port k)) = some c ∧
      c.Relays id k inRoom outRoom unread' sent' unsent' := by
  obtain ⟨c, hc, hport, hreg, hhooks⟩ := exists_after_port (Hook.call levels) hq
  exact ⟨c, hc, h.tables.of_tables hreg hhooks, hport ▸ hrel⟩

structure Round where
  bytes : List UInt8
  ticks : Nat

def Round.arrivals (r : Round) (k : Fin n) : List (Step n (Hook n)) :=
  (r.bytes.map fun byte => Port.Step.line (.inject byte false)).map (.port k)

def Round.steps (r : Round) (k : Fin n) : List (Step n (Hook n)) :=
  r.arrivals k ++
    .events .collected :: (List.replicate r.ticks (Port.Step.line .tick)).map (.port k)

/-- Whether a round brings no more than there is room for, and ticks for each byte. -/
structure Round.Fits (inRoom outRoom : Nat) (r : Round) : Prop where
  arrivals : r.bytes.length ≤ inRoom
  echo : r.bytes.length ≤ outRoom + 2
  ticks : r.bytes.length ≤ r.ticks

theorem exists_after_arrivals (h : b.Relays id k inRoom outRoom [] sent unsent) {r : Round}
    (hr : r.bytes.length ≤ inRoom) :
    ∃ c, b.after (Hook.call levels) (r.arrivals k) = some c ∧
      c.Relays id k inRoom outRoom r.bytes sent unsent := by
  obtain ⟨q, hq, hrel⟩ := Port.exists_after_arrivals h.port r.bytes (by simpa using hr)
  exact h.of_port levels hq hrel

theorem exists_after_round (h : b.Relays id k inRoom outRoom [] sent []) {r : Round}
    (hr : r.Fits inRoom outRoom) :
    ∃ c, b.after (Hook.call levels) (r.steps k) = some c ∧
      c.Relays id k inRoom outRoom [] (sent ++ r.bytes.map upperCase) [] := by
  obtain ⟨c, hc, hfull⟩ := exists_after_arrivals levels h hr.arrivals
  obtain ⟨d, hd, hechoed⟩ := exists_events levels hfull (by simpa using hr.echo)
  obtain ⟨q, hq, hrel⟩ := Port.exists_after_ticks hechoed.port r.ticks
  have hlen : (r.bytes.map upperCase).length ≤ r.ticks := by
    rw [List.length_map]
    exact hr.ticks
  rw [List.nil_append, List.take_of_length_le hlen, List.drop_of_length_le hlen] at hrel
  obtain ⟨e, he, hrest⟩ := hechoed.of_port levels hq hrel
  refine ⟨e, ?_, hrest⟩
  rw [Round.steps, after_append, hc]
  change ((c.step _ _).map _).bind _ = _
  rw [hd]
  exact he

theorem exists_after_rounds (h : b.Relays id k inRoom outRoom [] sent []) {rounds : List Round}
    (hr : ∀ r ∈ rounds, r.Fits inRoom outRoom) :
    ∃ c, b.after (Hook.call levels) (rounds.flatMap (·.steps k)) = some c ∧
      c.Relays id k inRoom outRoom [] (sent ++ (rounds.flatMap (·.bytes)).map upperCase) [] := by
  -- each round starts and ends with the port at rest, with its bytes added to the wire
  induction rounds generalizing b sent with
  | nil => exact ⟨b, rfl, by simpa using h⟩
  | cons r rounds ih =>
    obtain ⟨c, hc, hrest⟩ := exists_after_round levels h (hr r List.mem_cons_self)
    obtain ⟨d, hd, hall⟩ := ih hrest fun r' hr' => hr r' (List.mem_cons_of_mem r hr')
    refine ⟨d, ?_, by simpa using hall⟩
    rw [List.flatMap_cons, after_append, hc]
    exact hd

/-- One port of a board is bound, new and just switched on, and its hook is the echo. Then rounds
that fit always end, and each of them calls the hook once if it brought bytes and not at all if it
brought none; the hook sends each byte at the first try. After them the port can be switched off
without a wait, and everything that arrived has gone out in capitals, in its order. -/
theorem echo_returns_upper_case {rxSlots txSlots : Nat} {clockHz : UInt32} {trim : Int8}
    {hrx : 2 ≤ rxSlots} {htx : 2 ≤ txSlots} {baud : UInt32} {frame : FrameWord}
    {o : Port.Outcome} {rounds : List Round}
    (ho : (Port.new rxSlots txSlots clockHz trim false hrx htx).step (.call (.enable baud frame)) =
      some o) (hok : o.answer = .ok) (hport : b.port k = o.port) (htables : b.EchoesOn id k)
    (hfits : ∀ r ∈ rounds, r.bytes.length ≤ min (rxSlots - 1) (txSlots + 1) ∧
      r.bytes.length ≤ r.ticks) :
    (∀ before r after, rounds = before ++ r :: after → ∃ c d s,
      b.after (Hook.call levels) (before.flatMap (·.steps k) ++ r.arrivals k) = some c ∧
      c.step (Hook.call levels) (.events .collected) =
        some (.count (if r.bytes = [] then 0 else 1), d) ∧
      (c.port k).observe.echo = some s ∧
      (c.port k).observe.echoAtOnce (c.port k).available = some s) ∧
    ∃ c d, b.after (Hook.call levels) (rounds.flatMap (·.steps k)) = some c ∧
      ((c.port k).written = true → (c.port k).observe.drained.1 = true) ∧
      c.step (Hook.call levels) (.port k (.call .disable)) = some (.done, d) ∧
      (d.port k).usart.wire = (rounds.flatMap (·.bytes)).map upperCase := by
  have hrest : b.Relays id k (rxSlots - 1) (txSlots - 1) [] [] [] :=
    ⟨htables, hport ▸ Port.relays_of_enable ho hok⟩
  have hr : ∀ r ∈ rounds, r.Fits (rxSlots - 1) (txSlots - 1) := fun r hmem => by
    obtain ⟨hbytes, hticks⟩ := hfits r hmem
    exact ⟨by omega, by omega, hticks⟩
  constructor
  · rintro before r after rfl
    obtain ⟨c, hc, hbefore⟩ := exists_after_rounds levels hrest fun r' hr' =>
      hr r' (List.mem_append_left _ hr')
    have hfit := hr r (by simp)
    have hroom : ([] : List UInt8).length + r.bytes.length ≤ txSlots - 1 + 2 := by
      simpa using hfit.echo
    obtain ⟨d, hd, harrived⟩ := exists_after_arrivals levels hbefore hfit.arrivals
    obtain ⟨e, he, _⟩ := exists_events levels harrived hroom
    obtain ⟨s, hs, honce, _⟩ := Observed.exists_echo (s := (d.port k).observe) harrived.port.unread
      harrived.port.unsent hroom
    refine ⟨d, e, s, ?_, he, hs, honce⟩
    rw [after_append, hc]
    exact hd
  · obtain ⟨c, hc, hall⟩ := exists_after_rounds levels hrest hr
    obtain ⟨htest, s, hs, hwire⟩ :=
      Observed.exists_disable (s := (c.port k).observe) hall.port.unsent
    have hstep : (c.port k).step (.call .disable) = some ⟨.done, s.toPort, s.events.toList⟩ := by
      rw [Port.step, Observed.runStep, Observed.runCall, hs]
      rfl
    obtain ⟨d, hd, hport, _⟩ := exists_step_port (Hook.call levels) hstep
    refine ⟨c, d, hc, htest, hd, ?_⟩
    rw [hport]
    exact hwire

def echoTraffic (j k : Fin n) : List (Step n (Hook n)) :=
  [.port k (.call (.enable 9600 .standard)), .setHook ⟨0⟩ ⟨.drain, j⟩, .bind ⟨2⟩ k,
    .setHook ⟨2⟩ ⟨.echo, k⟩]

def echoRounds : List Round :=
  [⟨[0x68, 0x69, 0x21], 3⟩, ⟨[], 0⟩, ⟨[0x7a, 0x41], 4⟩, ⟨[0x61, 0x7b, 0x62], 3⟩]

theorem echo_returns_upper_case_rotating :
    ∃ b, (new #v[.new 2 2, .new 4 2] Table.maxPorts : HookBoard 2).after
        (Hook.call Hook.maxLevels) (echoTraffic 0 1) = some b ∧
      (∃ c d s, b.after (Hook.call Hook.maxLevels)
          (([⟨[0x68, 0x69, 0x21], 3⟩, ⟨[], 0⟩] : List Round).flatMap (·.steps 1) ++
            Round.arrivals ⟨[0x7a, 0x41], 4⟩ 1) = some c ∧
        c.step (Hook.call Hook.maxLevels) (.events .collected) = some (.count 1, d) ∧
        (c.port 1).observe.echo = some s ∧
        (c.port 1).observe.echoAtOnce (c.port 1).available = some s) ∧
      ∃ c d, b.after (Hook.call Hook.maxLevels) (echoRounds.flatMap (·.steps 1)) = some c ∧
        ((c.port 1).written = true → (c.port 1).observe.drained.1 = true) ∧
        c.step (Hook.call Hook.maxLevels) (.port 1 (.call .disable)) = some (.done, d) ∧
        (d.port 1).usart.wire = [0x48, 0x49, 0x21, 0x5a, 0x41, 0x41, 0x7b, 0x42] := by
  have hstate : ((new #v[.new 2 2, .new 4 2] Table.maxPorts : HookBoard 2).after
      (Hook.call Hook.maxLevels) (echoTraffic 0 1)).any (fun b =>
        b.registry.size = Table.maxPorts ∧
        b.registry.entries = [(⟨2⟩, 1)] ∧ b.hooks.get? ⟨2⟩ = some ⟨.echo, 1⟩ ∧
        ((Port.new 4 2).step (.call (.enable 9600 .standard))).any
          (fun o => o.answer = .ok ∧ b.port 1 = o.port)) = true := by
    decide +kernel
  obtain ⟨b, hb, hsize, hentries, hhook, hbegun⟩ := exists_after_of_any hstate
  obtain ⟨o, ho, hbegun⟩ := (Option.any_eq_true _ _).1 hbegun
  obtain ⟨hok, hport⟩ := of_decide_eq_true hbegun
  have htables : b.EchoesOn ⟨2⟩ 1 := by
    refine ⟨hsize, fun id' k' => ?_, hhook⟩
    rw [← Table.mem_entries (Table.narrow_of_maxPorts hsize), hentries, List.mem_singleton,
      Prod.mk.injEq]
  have hfits : ∀ r ∈ echoRounds,
      r.bytes.length ≤ min (4 - 1) (2 + 1) ∧ r.bytes.length ≤ r.ticks := by decide
  obtain ⟨hevents, hend⟩ := echo_returns_upper_case Hook.maxLevels ho hok hport htables hfits
  exact ⟨b, hb, hevents [⟨[0x68, 0x69, 0x21], 3⟩, ⟨[], 0⟩] ⟨[0x7a, 0x41], 4⟩ _ rfl, hend⟩

end Board

end SerialPort
