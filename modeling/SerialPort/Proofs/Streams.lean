import Mathlib.Data.List.Forall2
import Mathlib.Logic.Function.Iterate
import SerialPort.Proofs.Capacity

namespace SerialPort

namespace Observed

variable {s t : Observed}

theorem sendBytes_append (s : Observed) (as bs : List UInt8) :
    s.sendBytes (as ++ bs) = (s.sendBytes as).bind (·.sendBytes bs) := by
  induction as generalizing s with
  | nil => rfl
  | cons a as ih =>
    rw [List.cons_append, sendBytes, sendBytes, Option.bind_assoc]
    simp only [ih]

theorem toPort_sendBytes_congr (h : s.toPort = t.toPort) (bs : List UInt8) :
    (s.sendBytes bs).map (·.toPort) = (t.sendBytes bs).map (·.toPort) := by
  induction bs generalizing s t with
  | nil => exact congrArg some h
  | cons b bs ih =>
    have hw := toPort_send_congr h b
    rw [sendBytes, sendBytes, Option.map_bind, Option.map_bind]
    cases hs : s.send b with
    | none =>
      rw [hs, Option.map_none, eq_comm, Option.map_eq_none_iff] at hw
      rw [hw]
    | some r =>
      rw [hs, Option.map_some, eq_comm] at hw
      obtain ⟨u, hu, hr⟩ := Option.map_eq_some_iff.1 hw
      rw [hu]
      exact ih hr.symm

/-- After so many single reads. -/
def skip (s : Observed) (n : Nat) : Observed := (fun s => s.read.2)^[n] s

theorem skip_skip (s : Observed) (m n : Nat) : (s.skip m).skip n = s.skip (m + n) := by
  rw [skip, skip, skip, Nat.add_comm, Function.iterate_add_apply]

theorem read_of_nil (h : s.rx.toList = []) : s.read = (none, s) := by
  rw [read, (Ring.pop?_eq_none_iff _).2 ((Ring.toList_eq_nil_iff _).1 h)]

theorem read_of_cons {b : UInt8} {bs : List UInt8} (h : s.rx.toList = b :: bs) :
    s.read.1 = some b ∧ s.read.2.rx.toList = bs := by
  obtain ⟨c, rx, hp⟩ := Ring.exists_pop (h ▸ List.cons_ne_nil b bs)
  rw [Ring.toList_pop hp] at h
  injection h with hc hrx
  rw [read, hp]
  exact ⟨congrArg some hc, hrx⟩

theorem toList_skip (s : Observed) (n : Nat) : (s.skip n).rx.toList = s.rx.toList.drop n := by
  induction n generalizing s with
  | zero => rfl
  | succ n ih =>
    have hstep : (s.skip (n + 1)).rx.toList = s.read.2.rx.toList.drop n := ih s.read.2
    rw [hstep]
    cases hq : s.rx.toList with
    | nil => rw [read_of_nil hq, hq, List.drop_nil, List.drop_nil]
    | cons b bs => rw [(read_of_cons hq).2, List.drop_succ_cons]

theorem readAvailable_eq {q buffer : List UInt8} {n : Nat} (h : s.rx.toList = q)
    (hn : n = min buffer.length q.length) :
    s.readAvailable buffer = (n, q.take n ++ buffer.drop n, s.skip n) := by
  induction buffer generalizing s q n with
  | nil =>
    rw [List.length_nil, Nat.zero_min] at hn
    rw [hn]
    rfl
  | cons old rest ih =>
    rw [readAvailable_cons]
    cases q with
    | nil =>
      rw [List.length_nil, Nat.min_zero] at hn
      rw [hn, read_of_nil h]
      rfl
    | cons b bs =>
      obtain ⟨hb, hbs⟩ := read_of_cons h
      rw [List.length_cons, List.length_cons, Nat.succ_min_succ] at hn
      rw [hn, hb, ih hbs rfl]
      rfl

theorem streamRead_eq {q : List UInt8} (h : s.rx.toList = q) (buffer : List UInt8) :
    s.streamRead buffer =
      if buffer ≠ [] ∧ q = [] then none else some (s.readAvailable buffer) := by
  have hd : s.hasData = !q.isEmpty := h ▸ s.hasData_eq
  rw [streamRead, hd]
  cases buffer <;> cases q <;> simp

theorem readExactWithin_zero (s : Observed) (reads : Nat) :
    s.readExactWithin 0 reads = some ([], s) := by
  cases reads <;> rfl

theorem readExactWithin_of_nil (h : s.rx.toList = []) {wanted : Nat} (hw : wanted ≠ 0)
    (reads : Nat) : s.readExactWithin wanted reads = none := by
  cases reads with
  | zero => rw [readExactWithin, if_neg hw]
  | succ reads =>
    rw [readExactWithin, if_neg hw, streamRead_eq h, if_pos ⟨by simpa using hw, rfl⟩]
    rfl

theorem readExact_eq {q : List UInt8} (h : s.rx.toList = q) (n : Nat) :
    s.readExact n = if n ≤ q.length then some (q.take n, s.skip n) else none := by
  cases n with
  | zero => rfl
  | succ n =>
    have hread {m : Nat} (hm : m = min (n + 1) q.length) :
        s.readAvailable (List.replicate (n + 1) 0) =
          (m, q.take m ++ (List.replicate (n + 1) 0).drop m, s.skip m) :=
      readAvailable_eq h (by rwa [List.length_replicate])
    rw [readExact, readExactWithin, if_neg (Nat.succ_ne_zero n), streamRead_eq h]
    by_cases hq : q = []
    · rw [if_pos ⟨List.cons_ne_nil _ _, hq⟩, hq]
      rfl
    · rw [if_neg fun hn => hq hn.2]
      by_cases hle : n + 1 ≤ q.length
      · have htaken : (q.take (n + 1)).length = n + 1 := by
          rw [List.length_take, Nat.min_eq_left hle]
        rw [if_pos hle, hread (Nat.min_eq_left hle).symm]
        change (Observed.readExactWithin _ (n + 1 - (n + 1)) n).bind _ = _
        rw [Nat.sub_self, readExactWithin_zero]
        change some (List.take (n + 1) (_ ++ _) ++ [], _) = _
        rw [List.append_nil, List.take_left' htaken]
      · have hnone : (s.skip q.length).rx.toList = [] := by
          rw [toList_skip, h, List.drop_length]
        rw [if_neg hle, hread (m := q.length) (by omega)]
        change (Observed.readExactWithin _ (n + 1 - q.length) n).bind _ = _
        rw [readExactWithin_of_nil hnone (by omega)]
        rfl

/-- The two ways of reading into a buffer. -/
inductive Reader where
  | plain
  | stream
  deriving DecidableEq

/-- How many bytes were read, the buffer then, and what is left behind. -/
def readBy (s : Observed) : Reader → List UInt8 → Option (Nat × List UInt8 × Observed)
  | .plain, buffer => some (s.readAvailable buffer)
  | .stream, buffer => s.streamRead buffer

/-- One read after another, unless one of them waits. -/
def readInTurn (s : Observed) (rs : List (Reader × List UInt8)) : Option Observed :=
  rs.foldlM (fun s r => (s.readBy r.1 r.2).map (·.2.2)) s

def room (rs : List (Reader × List UInt8)) : Nat := (rs.flatMap (·.2)).length

theorem readBy_eq {q buffer : List UInt8} {n : Nat} (h : s.rx.toList = q)
    (hn : n = min buffer.length q.length) (w : Reader) :
    s.readBy w buffer =
      if w = .stream ∧ buffer ≠ [] ∧ q = [] then none
      else some (n, q.take n ++ buffer.drop n, s.skip n) := by
  rw [← readAvailable_eq h hn]
  cases w with
  | plain => rfl
  | stream =>
    rw [readBy, streamRead_eq h]
    simp only [true_and]

theorem readInTurn_cons (s : Observed) (r : Reader × List UInt8)
    (rs : List (Reader × List UInt8)) :
    s.readInTurn (r :: rs) = (s.readBy r.1 r.2).bind (·.2.2.readInTurn rs) := by
  change ((s.readBy r.1 r.2).map _).bind _ = _
  rw [Option.bind_map]
  rfl

theorem room_cons (r : Reader × List UInt8) (rs : List (Reader × List UInt8)) :
    room (r :: rs) = r.2.length + room rs := by
  rw [room, List.flatMap_cons, List.length_append, room]

theorem readInTurn_eq_some {rs : List (Reader × List UInt8)} (h : s.readInTurn rs = some t) :
    t = s.skip (min (room rs) s.rx.toList.length) := by
  induction rs generalizing s with
  | nil =>
    cases h
    rw [room, List.flatMap_nil, List.length_nil, Nat.zero_min]
    rfl
  | cons r rs ih =>
    rw [readInTurn_cons] at h
    obtain ⟨⟨n, buffer, u⟩, hr, hu⟩ := Option.bind_eq_some_iff.1 h
    rw [readBy_eq rfl rfl] at hr
    split at hr <;> cases hr
    rw [ih hu, toList_skip, skip_skip, List.length_drop, room_cons]
    congr 1
    omega

theorem readInTurn_isSome_iff (s : Observed) (rs : List (Reader × List UInt8)) :
    (s.readInTurn rs).isSome = true ↔ ∀ before buffer after,
      rs = before ++ (.stream, buffer) :: after → buffer ≠ [] →
        room before < s.rx.toList.length := by
  induction rs generalizing s with
  | nil => simp [readInTurn]
  | cons r rs ih =>
    rw [readInTurn_cons, readBy_eq rfl rfl]
    split
    next hwaits =>
      obtain ⟨hw, hb, hq⟩ := hwaits
      have hr : r = (.stream, r.2) := Prod.ext hw rfl
      refine ⟨fun hn => (nomatch hn), fun hall => ?_⟩
      have hpos := hall [] r.2 rs (congrArg (· :: rs) hr) hb
      rw [hq] at hpos
      exact absurd hpos (Nat.not_lt_zero _)
    next hgoes =>
      rw [Option.bind_some, ih, toList_skip, List.length_drop]
      constructor
      · intro hall before b after he hb
        cases before with
        | nil =>
          cases he
          exact List.length_pos_iff.2 fun hq => hgoes ⟨rfl, hb, hq⟩
        | cons r before =>
          cases he
          have hlt := hall before b after rfl hb
          rw [room_cons]
          omega
      · intro hall before b after he hb
        have hlt := hall (r :: before) b after (congrArg _ he) hb
        rw [room_cons] at hlt
        omega

end Observed

namespace Port

variable {p : Port}

theorem after_cons (p : Port) (st : Step) (sts : List Step) :
    p.after (st :: sts) = ((p.step st).map (·.port)).bind (·.after sts) := rfl

theorem port_step_of_written (p : Port) {c : Call} {bs : List UInt8} (hc : c.written? = some bs) :
    (p.step (.call c)).map (·.port) = (p.observe.sendBytes bs).map (·.toPort) := by
  rw [step, Observed.runStep, p.observe.runCall_of_written hc, Option.map_map, Option.map_map]
  rfl

theorem after_of_written {cs : List Call} {bss : List (List UInt8)}
    (h : List.Forall₂ (fun c bs => c.written? = some bs) cs bss) (p : Port) :
    p.after (cs.map .call) = (p.observe.sendBytes bss.flatten).map (·.toPort) := by
  induction h generalizing p with
  | nil => rfl
  | @cons c bs cs bss hc _ ih =>
    rw [List.map_cons, after_cons, port_step_of_written p hc, List.flatten_cons,
      Observed.sendBytes_append]
    cases p.observe.sendBytes bs with
    | none => rfl
    | some r =>
      have hr : r.toPort.observe.toPort = r.toPort := rfl
      rw [Option.map_some, Option.bind_some, Option.bind_some, ih]
      exact Observed.toPort_sendBytes_congr hr _

theorem after_single_writes (p : Port) (bs : List UInt8) :
    p.after (bs.map fun b => .call (.write b)) = (p.observe.sendBytes bs).map (·.toPort) := by
  have hone : List.Forall₂ (fun c bs => c.written? = some bs) (bs.map Call.write)
      (bs.map ([·])) := by
    rw [List.forall₂_map_left_iff, List.forall₂_map_right_iff, List.forall₂_same]
    exact fun _ _ => rfl
  have h := after_of_written hone p
  rwa [List.map_map, ← List.flatMap_def, List.flatMap_singleton'] at h

/-- Bytes may be sent in pieces, each by any writer: the port goes on, or waits for ever, as if each
byte had been written by itself. And they may be read in pieces, by either reader: each read finds
the bytes that follow those taken before, leaves the rest of its buffer as it was, and leaves the
port as so many single reads do. -/
theorem streams_ignore_cuts (p : Port) :
    (∀ cs bss, List.Forall₂ (fun (c : Call) bs => c.written? = some bs) cs bss →
      p.after (cs.map .call) = p.after (bss.flatten.map fun b => .call (.write b))) ∧
    (∀ bs c o, c = .writeBytes bs ∨ c = .streamWrite bs → p.step (.call c) = some o →
      o.answer = .count bs.length) ∧
    (∀ rs, (p.observe.readInTurn rs).isSome = true ↔ ∀ before buffer after,
      rs = before ++ (.stream, buffer) :: after → buffer ≠ [] →
        Observed.room before < p.rx.toList.length) ∧
    (∀ rs s, p.observe.readInTurn rs = some s → ∀ taken w buffer n,
      taken = min (Observed.room rs) p.rx.toList.length →
      n = min buffer.length (p.rx.toList.length - taken) →
      s.readBy w buffer =
        if w = .stream ∧ buffer ≠ [] ∧ p.rx.toList.drop taken = [] then none
        else some (n, (p.rx.toList.drop taken).take n ++ buffer.drop n,
          p.observe.skip (taken + n))) ∧
    ∀ n, p.observe.readExact n =
      if n ≤ p.rx.toList.length then some (p.rx.toList.take n, p.observe.skip n) else none := by
  refine ⟨fun cs bss h => ?_, fun bs c o hc ho => ?_, p.observe.readInTurn_isSome_iff,
    fun rs s hs taken w buffer n htaken hn => ?_, Observed.readExact_eq rfl⟩
  · rw [after_of_written h, after_single_writes]
  · obtain ⟨t, ht, -⟩ := events_of_step ho
    have hforms : c.written? = some bs ∧ c.receipt = .count bs.length := by
      rcases hc with rfl | rfl <;> exact ⟨rfl, rfl⟩
    rw [Observed.runStep, p.observe.runCall_of_written hforms.1] at ht
    obtain ⟨r, _, e⟩ := Option.map_eq_some_iff.1 ht
    exact (congrArg Prod.fst e).symm.trans hforms.2
  · have hs' : s = p.observe.skip taken := htaken ▸ Observed.readInTurn_eq_some hs
    have hq : s.rx.toList = p.rx.toList.drop taken := by
      rw [hs', Observed.toList_skip]
      rfl
    have hn' : n = min buffer.length (p.rx.toList.drop taken).length := by
      rw [hn, List.length_drop]
    rw [Observed.readBy_eq hq hn', hs', Observed.skip_skip]

def cutTraffic : List Step :=
  [.call (.enable 9600 .standard), .line (.injectAll [5, 1, 2]), .call .read, .call .read,
    .line (.injectAll [3, 4])]

theorem streams_ignore_cuts_around :
    ∃ p, (Port.new 4 3).after cutTraffic = some p ∧ p.rx.toList = [2, 3, 4] ∧
      (p.after ([.print "ab", .writeBytes [], .streamWrite [7, 8]].map .call)).isSome = true ∧
      p.after ([.print "ab", .writeBytes [], .streamWrite [7, 8]].map .call) =
        p.after ([97, 98, 7, 8].map fun b => .call (.write b)) ∧
      p.after ([.writeAll [1, 2, 3], .print "ab"].map .call) = none ∧
      p.after ([1, 2, 3, 97, 98].map fun b => .call (.write b)) = none ∧
      (∃ s, p.observe.readInTurn [(.stream, [0, 0])] = some s ∧
        s.readBy .stream [9, 9, 9] = some (1, [4, 9, 9], p.observe.skip 3)) ∧
      p.observe.readExact 3 = some ([2, 3, 4], p.observe.skip 3) ∧
      p.observe.readExact 4 = none := by
  have hstate : ((Port.new 4 3).after cutTraffic).any (fun q => q.rx.toList = [2, 3, 4] ∧
      (q.after ([.print "ab", .writeBytes [], .streamWrite [7, 8]].map .call)).isSome = true ∧
      q.after ([.writeAll [1, 2, 3], .print "ab"].map .call) = none) = true := by
    decide +kernel
  obtain ⟨p, hp, hstate⟩ := (Option.any_eq_true _ _).1 hstate
  obtain ⟨hq, hends, hwaits⟩ := of_decide_eq_true hstate
  obtain ⟨hwrites, _, hreads, hread, hexact⟩ := streams_ignore_cuts p
  rw [hq] at hreads hread hexact
  have hab : Call.written? (.print "ab") = some [97, 98] := by decide +kernel
  have htwo := hwrites [.print "ab", .writeBytes [], .streamWrite [7, 8]] [[97, 98], [], [7, 8]]
    (.cons hab (.cons rfl (.cons rfl .nil)))
  have hall := hwrites [.writeAll [1, 2, 3], .print "ab"] [[1, 2, 3], [97, 98]]
    (.cons rfl (.cons hab .nil))
  obtain ⟨s, hs⟩ : ∃ s, p.observe.readInTurn [(.stream, [0, 0])] = some s := by
    refine Option.isSome_iff_exists.1 ((hreads _).2 fun before buffer after he _ => ?_)
    cases before with
    | nil => exact Nat.succ_pos 2
    | cons r before => cases before <;> cases he
  exact ⟨p, hp, hq, hends, htwo, hwaits, hall ▸ hwaits,
    ⟨s, hs, hread _ _ hs 2 .stream _ 1 rfl rfl⟩, hexact 3, hexact 4⟩

end Port

end SerialPort
