import SerialPort.Proofs.Conservation

namespace SerialPort

namespace Usart

def trail (u : Usart) : List UInt8 := u.wire ++ u.inFlight

/-- The data register is taken only while a byte is being shifted out. -/
def Backed (u : Usart) : Prop := u.shifter = none → u.data = none

/-- The bytes that an operation hands to the transmitter. -/
def Op.handed : Op → List UInt8
  | .store (.data b) => [b]
  | _ => []

/-- The bytes that an operation takes off the wire. -/
def Op.taken : Op → Usart → List UInt8
  | .takeWire, u => u.wire
  | _, _ => []

variable {u : Usart}

/-- What an operation does to the transmitter. -/
structure Moves (op : Op) (u v : Usart) : Prop where
  backed : v.Backed
  trail : op.taken u ++ v.trail =
    (if (op.displaced u).isSome then u.trail.dropLast else u.trail) ++ op.handed
  data : ∀ b, v.data = some b → op.handed = [b] ∨ op.handed = [] ∧ u.data = some b

theorem moves_data (h : u.Backed) (b : UInt8) : Moves (.store (.data b)) u (u.putData b) := by
  cases hs : u.shifter with
  | none =>
    have hd := h hs
    refine ⟨?_, ?_, ?_⟩ <;>
      simp [Backed, Op.taken, Op.displaced, Op.handed, displaced, trail, inFlight, putData, hs, hd]
  | some a =>
    refine ⟨?_, ?_, ?_⟩
    · simp [Backed, putData, hs]
    · cases hd : u.data with
      | none =>
        simp [Op.taken, Op.displaced, Op.handed, displaced, trail, inFlight, putData, hs, hd]
      | some d =>
        have hlast : u.trail = (u.wire ++ [a]) ++ [d] := by simp [trail, inFlight, hs, hd]
        rw [hlast, List.dropLast_concat]
        simp [Op.taken, Op.displaced, Op.handed, displaced, trail, inFlight, putData, hs, hd]
    · simp [Op.handed, putData, hs]

theorem moves_of_same {op : Op} {v : Usart} (h : u.Backed) (hh : op.handed = [])
    (hd : op.displaced u = none) (ht : op.taken u ++ v.wire = u.wire)
    (hs : v.shifter = u.shifter) (hv : v.data = u.data) : Moves op u v := by
  refine ⟨?_, ?_, fun b hb => .inr ⟨hh, hv ▸ hb⟩⟩
  · rw [Backed, hs, hv]
    exact h
  · rw [hd, hh, trail, trail, inFlight, inFlight, hs, hv, ← List.append_assoc, ht]
    simp

theorem moves_shiftOut {op : Op} (h : u.Backed) (hh : op.handed = [])
    (hd : op.displaced u = none) (ht : op.taken u = []) : Moves op u u.shiftOut.2 := by
  refine ⟨?_, ?_, fun b hb => ?_⟩
  · cases hs : u.shifter with
    | none =>
      rw [shiftOut_of_none hs]
      exact h
    | some a =>
      rw [shiftOut_of_some hs]
      exact fun _ => rfl
  · rw [hd, hh, ht, trail, wire_append_inFlight_shiftOut]
    exact (List.append_nil _).symm
  · cases hs : u.shifter with
    | none =>
      rw [shiftOut_of_none hs] at hb
      exact .inr ⟨hh, hb⟩
    | some a =>
      rw [shiftOut_of_some hs] at hb
      cases hb

theorem moves_clock {op : Op} (h : u.Backed) (hh : op.handed = []) (hd : op.displaced u = none)
    (ht : op.taken u = []) : Moves op u u.clock := by
  rw [clock]
  split
  · exact moves_shiftOut h hh hd ht
  · exact moves_of_same h hh hd (by rw [ht, List.nil_append]) rfl rfl

theorem moves_apply (h : u.Backed) (op : Op) : Moves op u (op.apply u).2 := by
  cases op with
  | store w =>
    cases w with
    | data b => exact moves_data h b
    | interrupt i on => cases i <;> exact moves_of_same h rfl rfl rfl rfl rfl
    | _ => exact moves_of_same h rfl rfl rfl rfl rfl
  | txEmpty | txComplete => exact moves_clock h rfl rfl rfl
  | tick => exact moves_shiftOut h rfl rfl rfl
  | receive b corrupt =>
    change Moves _ u (u.receive b corrupt).2
    rw [receive]
    split <;> exact moves_of_same h rfl rfl rfl rfl rfl
  | takeWire => exact moves_of_same h rfl rfl (List.append_nil _) rfl rfl
  | _ => exact moves_of_same h rfl rfl rfl rfl rfl

theorem trail_ne_nil_of_displaced {op : Op} (h : (op.displaced u).isSome = true) :
    u.trail ≠ [] := by
  cases op with
  | store w =>
    cases w with
    | data b =>
      change (if u.shifter.isNone then none else u.data).isSome = true at h
      split at h
      next => cases h
      next hs =>
        intro hn
        rw [trail, List.append_eq_nil_iff, inFlight_eq_nil_iff] at hn
        rw [hn.2.2] at hs
        exact hs rfl
    | _ => cases h
  | _ => cases h

theorem Moves.length {op : Op} {v : Usart} (h : Moves op u v) :
    op.handed.length + u.trail.length =
      (op.taken u).length + v.trail.length + (op.displaced u).isSome.toNat := by
  have hlen := congrArg List.length h.trail
  rw [List.length_append, List.length_append] at hlen
  cases hd : (op.displaced u).isSome with
  | false =>
    rw [hd, if_neg Bool.false_ne_true] at hlen
    rw [Bool.toNat_false]
    omega
  | true =>
    have hpos := List.length_pos_iff.2 (trail_ne_nil_of_displaced hd)
    rw [hd, if_pos rfl, List.length_dropLast] at hlen
    rw [Bool.toNat_true]
    omega

end Usart

namespace Observed

theorem runUsart_eq (s : Observed) (op : Usart.Op) :
    s.runUsart op = ((op.apply s.usart).1,
      ({ s with usart := (op.apply s.usart).2 } : Observed).warnIf (op.displaced s.usart)) := rfl

theorem records_warnIf (s : Observed) (displaced : Option UInt8) :
    (s.warnIf displaced).records =
      s.records ++ if displaced.isSome then [.overwritten] else [] := by
  rw [warnIf]
  split
  · exact records_log s _
  · exact (List.append_nil _).symm

end Observed

namespace Port

/-- Whether a step is an operation on the transceiver behind the port's back. -/
def Step.bare : Step → Bool
  | .usart _ | .call .trim => true
  | _ => false

/-- The bytes that a step hands to the transmitter behind the port's back. -/
def Step.handed : Step → List UInt8
  | .usart op => op.handed
  | _ => []

def handed (h : List (Step × Outcome)) : List UInt8 := h.flatMap (·.1.handed)

/-- How often the transceiver warned. -/
def overwrites (h : List (Step × Outcome)) : Nat :=
  (h.flatMap (·.2.records)).count .overwritten

/-- Adds to a row of bytes what a step hands over, in place of the last one if that is written
over. -/
def keep (bs : List UInt8) (x : Step × Outcome) : List UInt8 :=
  (if .overwritten ∈ x.2.records then bs.dropLast else bs) ++ x.1.handed

def kept (h : List (Step × Outcome)) : List UInt8 := h.foldl keep []

/-- The account of a run, up to the port that it has reached. -/
structure Balanced (h : List (Step × Outcome)) (q : Port) : Prop where
  backed : q.usart.Backed
  kept : kept h = removed h ++ q.usart.trail
  last : ∀ b, q.usart.data = some b → (handed h).getLast? = some b
  count : (handed h).length = (removed h).length + q.usart.trail.length + overwrites h

variable {p q : Port} {st : Step} {o : Outcome} {g h : List (Step × Outcome)}

theorem of_step_usart {op : Usart.Op} (h : p.step (.usart op) = some o) :
    o.port.usart = (op.apply p.usart).2 ∧
      Step.removed (.usart op) o.answer = op.taken p.usart ∧
      o.records = if (op.displaced p.usart).isSome then [.overwritten] else [] := by
  obtain ⟨t, ht, hport, hrec⟩ := observe_of_step h
  have hans : (p.observe.runUsart op).1 = o.answer := congrArg Prod.fst (Option.some.inj ht)
  have hleft : (p.observe.runUsart op).2 = t := congrArg Prod.snd (Option.some.inj ht)
  rw [← hport, ← hrec, ← hans, ← hleft, Observed.runUsart_eq, Observed.records_warnIf,
    Observed.toPort_warnIf]
  exact ⟨rfl, by cases op <;> rfl, List.nil_append _⟩

theorem of_step_trim (h : p.step (.call .trim) = some o) :
    o.port = p ∧ Step.removed (.call .trim) o.answer = [] ∧ o.records = [] := by
  obtain rfl : (⟨.trim p.usart.trim, p, [.load (.trim p.usart.trim)]⟩ : Outcome) = o :=
    Option.some.inj h
  exact ⟨rfl, rfl, rfl⟩

theorem kept_concat (h : List (Step × Outcome)) (x : Step × Outcome) :
    kept (h ++ [x]) = keep (kept h) x := by
  rw [kept, List.foldl_append]
  rfl

theorem removed_concat (h : List (Step × Outcome)) (x : Step × Outcome) :
    removed (h ++ [x]) = removed h ++ x.1.removed x.2.answer := by
  simp [removed]

theorem handed_concat (h : List (Step × Outcome)) (x : Step × Outcome) :
    handed (h ++ [x]) = handed h ++ x.1.handed := by
  simp [handed]

theorem overwrites_concat (h : List (Step × Outcome)) (x : Step × Outcome) :
    overwrites (h ++ [x]) = overwrites h + x.2.records.count .overwritten := by
  simp [overwrites]

theorem Balanced.usart (hb : Balanced h q) (op : Usart.Op) (ho : q.step (.usart op) = some o) :
    Balanced (h ++ [(.usart op, o)]) o.port := by
  obtain ⟨hport, hans, hrec⟩ := of_step_usart ho
  have hm := Usart.moves_apply hb.backed op
  have hlen := hm.length
  rw [← hport] at hm hlen
  have hhanded : handed (h ++ [(.usart op, o)]) = handed h ++ op.handed := handed_concat ..
  refine ⟨hm.backed, ?_, fun b hd => ?_, ?_⟩
  · rw [kept_concat, removed_concat, keep, hb.kept, hans, hrec, List.append_assoc, hm.trail,
      ← List.append_assoc]
    congr 1
    cases hd : (op.displaced q.usart).isSome with
    | false => rfl
    | true => exact List.dropLast_append_of_ne_nil (Usart.trail_ne_nil_of_displaced hd)
  · rw [hhanded]
    rcases hm.data b hd with hh | ⟨hh, hold⟩
    · rw [hh, List.getLast?_concat]
    · rw [hh, List.append_nil]
      exact hb.last b hold
  · rw [hhanded, removed_concat, overwrites_concat, hans, hrec, List.length_append,
      List.length_append, hb.count]
    cases hd : (op.displaced q.usart).isSome with
    | false =>
      rw [hd, Bool.toNat_false] at hlen
      rw [if_neg Bool.false_ne_true, List.count_nil]
      omega
    | true =>
      rw [hd, Bool.toNat_true] at hlen
      rw [if_pos rfl, List.count_singleton_self]
      omega

theorem Balanced.trim (hb : Balanced h q) (ho : q.step (.call .trim) = some o) :
    Balanced (h ++ [(.call .trim, o)]) o.port := by
  obtain ⟨hport, hans, hrec⟩ := of_step_trim ho
  rw [hport]
  refine ⟨hb.backed, ?_, ?_, ?_⟩
  · simp [kept_concat, removed_concat, keep, Step.handed, hans, hrec, hb.kept]
  · simpa [handed_concat, Step.handed] using hb.last
  · simp [handed_concat, removed_concat, overwrites_concat, Step.handed, hans, hrec, hb.count]

theorem Balanced.step (hb : Balanced h q) (hl : st.bare = true) (ho : q.step st = some o) :
    Balanced (h ++ [(st, o)]) o.port := by
  cases st with
  | call c =>
    cases c with
    | trim => exact hb.trim ho
    | _ => cases hl
  | line e => cases hl
  | usart op => exact hb.usart op ho

theorem Executes.balanced (he : Executes (fun _ st => st.bare) p h q) (hb : Balanced g p) :
    Balanced (g ++ h) q := by
  induction he generalizing g with
  | nil => rwa [List.append_nil]
  | @cons p q st o h hl ho _ ih =>
    rw [List.append_cons]
    exact ih (hb.step hl ho)

theorem balanced_new (rxSlots txSlots : Nat) (clockHz : UInt32) (trim : Int8)
    (freeRunning : Bool) (hrx : 2 ≤ rxSlots) (htx : 2 ≤ txSlots) :
    Balanced [] (Port.new rxSlots txSlots clockHz trim freeRunning hrx htx) :=
  ⟨fun _ => rfl, rfl, fun _ hd => (nomatch hd), rfl⟩

/-- A new transceiver may be used in any way. The bytes handed to its transmitter, less those
written over, are those that left the line and those still held, in this order. A warning tells of
each byte written over, and a taken data register holds the byte handed over last, so that it is
always this one that is written over. -/
theorem transmitter_conserves_bytes {rxSlots txSlots : Nat} {clockHz : UInt32} {trim : Int8}
    {freeRunning : Bool} {hrx : 2 ≤ rxSlots} {htx : 2 ≤ txSlots}
    (he : Executes (fun _ st => st.bare)
      (Port.new rxSlots txSlots clockHz trim freeRunning hrx htx) h p) :
    (p.usart.data ≠ none → p.usart.shifter ≠ none) ∧
    kept h = removed h ++ p.usart.wire ++ p.usart.shifter.toList ++ p.usart.data.toList ∧
    (∀ b, p.usart.data = some b → (handed h).getLast? = some b) ∧
    (handed h).length =
      (removed h ++ p.usart.wire).length + p.usart.inFlight.length + overwrites h ∧
    ∀ st, st.bare = true → (p.step st).isSome = true := by
  have hb : Balanced h p := he.balanced (balanced_new ..)
  refine ⟨fun hd hs => hd (hb.backed hs), ?_, hb.last, ?_, fun st hst => ?_⟩
  · rw [hb.kept, Usart.trail, Usart.inFlight]
    simp only [List.append_assoc]
  · rw [hb.count, Usart.trail, List.length_append, List.length_append]
    omega
  · cases st with
    | call c =>
      cases c with
      | trim => rfl
      | _ => cases hst
    | line e => cases hst
    | usart op => rfl

def storedTraffic : List Step :=
  [.usart (.store (.data 65)), .usart (.store (.data 66)), .usart (.store (.data 67)), .usart .tick,
    .usart .takeWire, .usart (.freeRunning true), .usart .txEmpty, .usart (.store (.data 68)),
    .usart (.freeRunning false), .usart (.store (.data 69)), .usart (.store (.data 70)),
    .usart .txComplete, .call .trim]

theorem transmitter_conserves_bytes_stored :
    ∃ h p, Executes (fun _ st => st.bare) (Port.new 2 2) h p ∧ h.map Prod.fst = storedTraffic ∧
      handed h = [65, 66, 67, 68, 69, 70] ∧ removed h = [65] ∧ overwrites h = 2 ∧
      [65, 67, 68, 70] = [65] ++ p.usart.wire ++ p.usart.shifter.toList ++ p.usart.data.toList ∧
      6 = ([65] ++ p.usart.wire).length + p.usart.inFlight.length + 2 := by
  obtain ⟨p, _, he⟩ := exists_executes (fun _ st => st.bare) (Port.new 2 2) storedTraffic
    (by decide +kernel)
  have hh : handed ((Port.new 2 2).history storedTraffic) = [65, 66, 67, 68, 69, 70] := by
    decide +kernel
  have hr : removed ((Port.new 2 2).history storedTraffic) = [65] := by decide +kernel
  have hw : overwrites ((Port.new 2 2).history storedTraffic) = 2 := by decide +kernel
  have hk : kept ((Port.new 2 2).history storedTraffic) = [65, 67, 68, 70] := by decide +kernel
  obtain ⟨_, hbytes, _, hcount, _⟩ := transmitter_conserves_bytes he
  rw [hk, hr] at hbytes
  rw [hh, hr, hw] at hcount
  exact ⟨_, p, he, by decide +kernel, hh, hr, hw, hbytes, hcount⟩

end Port

end SerialPort
