import Mathlib.Logic.Function.Basic
import SerialPort.Board.Basic
import SerialPort.Proofs.TableEntries

namespace SerialPort

/-- The ids for which a table of so many slots has one. -/
abbrev Key (size : Nat) := {id : PortId // id.index < size}

def Interrupt.serve (i : Interrupt) (p : Port) : Port :=
  match i with
  | .rxComplete => p.observe.onRxComplete.toPort
  | .txEmpty => p.observe.onTxEmpty.toPort

/-- Two partial maps, and the ports that the first of them leads to. -/
structure Directory (n size : Nat) (η : Type) where
  bound : Key size → Option (Fin n)
  hook : Key size → Option η
  port : Fin n → Port

namespace Directory

variable {n size : Nat} {η : Type}

inductive Request (n : Nat) (η : Type) where
  | bind (id : PortId) (k : Fin n)
  | unbind (id : PortId)
  | get (id : PortId)
  | isBound (id : PortId)
  | dispatch (id : PortId) (i : Interrupt)
  | boundIds
  | entries
  | setHook (id : PortId) (h : η)
  | clearHook (id : PortId)
  | getHook (id : PortId)

inductive Reply (n : Nat) (η : Type) where
  | done
  | result (r : Except SerialError Unit)
  | port? (k : Option (Fin n))
  | flag (on : Bool)
  | ids (ids : List PortId)
  | entries (entries : List (PortId × Fin n))
  | hook? (h : Option η)

def lookup {α : Type} (m : Key size → Option α) (id : PortId) : Option α :=
  if h : id.index < size then m ⟨id, h⟩ else none

def entries (d : Directory n size η) : List (PortId × Fin n) := PortId.listing (lookup d.bound)

def refuse (d : Directory n size η) (e : SerialError) : Reply n η × Directory n size η :=
  (.result (.error e), d)

def comply (d : Directory n size η) : Reply n η × Directory n size η := (.result (.ok ()), d)

def serve (d : Directory n size η) : Request n η → Reply n η × Directory n size η
  | .bind id k =>
    if h : id.index < size then
      match d.bound ⟨id, h⟩ with
      | some _ => d.refuse .portInUse
      | none => { d with bound := Function.update d.bound ⟨id, h⟩ (some k) }.comply
    else d.refuse .invalidPort
  | .unbind id =>
    if h : id.index < size then
      { d with bound := Function.update d.bound ⟨id, h⟩ none }.comply
    else d.refuse .invalidPort
  | .get id => (.port? (lookup d.bound id), d)
  | .isBound id => (.flag (lookup d.bound id).isSome, d)
  | .dispatch id i =>
    if h : id.index < size then
      match d.bound ⟨id, h⟩ with
      | none => d.refuse .portNotBound
      | some k => { d with port := Function.update d.port k (i.serve (d.port k)) }.comply
    else d.refuse .invalidPort
  | .boundIds => (.ids (d.entries.map (·.1)), d)
  | .entries => (.entries d.entries, d)
  | .setHook id hook =>
    if h : id.index < size then
      { d with hook := Function.update d.hook ⟨id, h⟩ (some hook) }.comply
    else d.refuse .invalidPort
  | .clearHook id =>
    if h : id.index < size then
      (.done, { d with hook := Function.update d.hook ⟨id, h⟩ none })
    else (.done, d)
  | .getHook id => (.hook? (lookup d.hook id), d)

def serveAll (d : Directory n size η) :
    List (Request n η) → List (Reply n η × Directory n size η)
  | [] => []
  | r :: rs => d.serve r :: (d.serve r).2.serveAll rs

def empty (port : Fin n → Port) : Directory n size η := ⟨fun _ => none, fun _ => none, port⟩

theorem lookup_eq_some {α : Type} {m : Key size → Option α} {id : PortId} {a : α} :
    lookup m id = some a ↔ ∃ h : id.index < size, m ⟨id, h⟩ = some a := by
  rw [lookup]
  by_cases h : id.index < size
  · rw [dif_pos h]
    exact ⟨fun ha => ⟨h, ha⟩, fun ⟨_, ha⟩ => ha⟩
  · rw [dif_neg h]
    constructor
    · intro ha
      cases ha
    · rintro ⟨hlt, _⟩
      exact absurd hlt h

end Directory

namespace Board

open Directory (Request Reply)

variable {n size : Nat} {η ν : Type}

def serve (b : Board n η ν) : Request n η → Reply n η × Board n η ν
  | .bind id k => let (r, b) := b.bind id k; (.result r, b)
  | .unbind id => let (r, b) := b.unbind id; (.result r, b)
  | .get id => (.port? (b.registry.get? id), b)
  | .isBound id => (.flag (b.registry.contains id), b)
  | .dispatch id i => let (r, b) := b.dispatch id i; (.result r, b)
  | .boundIds => (.ids b.registry.ids, b)
  | .entries => (.entries b.registry.entries, b)
  | .setHook id h => let (r, b) := b.setHook id h; (.result r, b)
  | .clearHook id => (.done, b.clearHook id)
  | .getHook id => (.hook? (b.hooks.get? id), b)

def serveAll (b : Board n η ν) : List (Request n η) → List (Reply n η × Board n η ν)
  | [] => []
  | r :: rs => b.serve r :: (b.serve r).2.serveAll rs

/-- The tables of a board as partial maps. -/
def directory (size : Nat) (b : Board n η ν) : Directory n size η where
  bound key := b.registry.get? key.1
  hook key := b.hooks.get? key.1
  port := b.port

/-- Both tables are as large as they were made, and no slot is taken that no id can name. -/
structure Tabled (size : Nat) (b : Board n η ν) : Prop where
  registry_size : b.registry.size = size
  hooks_size : b.hooks.size = size
  narrow : b.registry.Narrow

theorem lookup_get? {α : Type} {t : Table α} (ht : t.size = size) (id : PortId) :
    Directory.lookup (fun key : Key size => t.get? key.1) id = t.get? id := by
  rw [Directory.lookup]
  by_cases h : id.index < size
  · rw [dif_pos h]
  · rw [dif_neg h, Table.get?_eq_none_of_le t (ht.trans_le (Nat.not_lt.1 h))]

theorem get?_put_eq_update {α : Type} {t : Table α} (ht : t.size = size) {id : PortId}
    (h : id.index < size) (slot : Option α) :
    (fun key : Key size => (t.put id slot).get? key.1) =
      Function.update (fun key : Key size => t.get? key.1) ⟨id, h⟩ slot := by
  funext key
  by_cases hkey : key = ⟨id, h⟩
  · subst hkey
    rw [Function.update_self, Table.get?_put_self t (h.trans_eq ht.symm)]
  · have hid : key.1 ≠ id := fun e => hkey (Subtype.ext e)
    rw [Function.update_of_ne hkey, Table.get?_put_ne t hid]

theorem put_of_le {α : Type} {t : Table α} {id : PortId} (h : t.size ≤ id.index)
    (slot : Option α) : t.put id slot = t := by
  rw [Table.put, Array.setIfInBounds_eq_of_size_le h]

theorem port_handle (b : Board n η ν) (k : Fin n) (i : Interrupt) :
    (b.handle k i).port = Function.update b.port k (i.serve (b.port k)) := by
  have hset : ∀ s : Observed, (b.restore k s).port = Function.update b.port k s.toPort := by
    intro s
    funext j
    change (b.ports.set k s.toPort k.isLt)[j.1] = _
    by_cases hj : j = k
    · subst hj
      rw [Function.update_self, Vector.getElem_set_self]
    · rw [Function.update_of_ne hj,
        Vector.getElem_set_ne k.isLt j.isLt fun e => hj (Fin.ext e.symm)]
      rfl
  cases i with
  | rxComplete => exact hset _
  | txEmpty => exact hset _

variable {b : Board n η ν}

theorem directory_withRegistry (hb : b.Tabled size) {id : PortId} (h : id.index < size)
    (slot : Option (Fin n)) :
    directory size { b with registry := b.registry.put id slot } =
      { b.directory size with
        bound := Function.update (b.directory size).bound ⟨id, h⟩ slot } :=
  congrArg (fun bound => ({ b.directory size with bound } : Directory n size η))
    (get?_put_eq_update hb.registry_size h slot)

theorem directory_withHooks (hb : b.Tabled size) {id : PortId} (h : id.index < size)
    (slot : Option η) :
    directory size { b with hooks := b.hooks.put id slot } =
      { b.directory size with
        hook := Function.update (b.directory size).hook ⟨id, h⟩ slot } :=
  congrArg (fun hook => ({ b.directory size with hook } : Directory n size η))
    (get?_put_eq_update hb.hooks_size h slot)

theorem Tabled.withRegistry (hb : b.Tabled size) (id : PortId) (slot : Option (Fin n)) :
    Tabled size { b with registry := b.registry.put id slot } :=
  ⟨(Table.size_put ..).trans hb.registry_size, hb.hooks_size, hb.narrow.put id slot⟩

theorem Tabled.withHooks (hb : b.Tabled size) (id : PortId) (slot : Option η) :
    Tabled size { b with hooks := b.hooks.put id slot } :=
  ⟨hb.registry_size, (Table.size_put ..).trans hb.hooks_size, hb.narrow⟩

theorem Tabled.log (hb : b.Tabled size) (r : Record) : (b.log r).Tabled size :=
  ⟨hb.registry_size, hb.hooks_size, hb.narrow⟩

theorem tabled_handle (hb : b.Tabled size) (k : Fin n) (i : Interrupt) :
    (b.handle k i).Tabled size := by
  cases i with
  | rxComplete => exact ⟨hb.registry_size, hb.hooks_size, hb.narrow⟩
  | txEmpty => exact ⟨hb.registry_size, hb.hooks_size, hb.narrow⟩

theorem directory_handle (b : Board n η ν) (k : Fin n) (i : Interrupt) :
    (b.handle k i).directory size =
      { b.directory size with
        port := Function.update (b.directory size).port k
          (i.serve ((b.directory size).port k)) } := by
  have hport := port_handle b k i
  cases i with
  | rxComplete => exact congrArg (fun port => { b.directory size with port }) hport
  | txEmpty => exact congrArg (fun port => { b.directory size with port }) hport

theorem entries_directory (hb : b.Tabled size) :
    (b.directory size).entries = b.registry.entries := by
  rw [Directory.entries, Table.entries_eq hb.narrow]
  congr 1
  funext id
  exact lookup_get? hb.registry_size id

/-- A request is answered from the tables as from the maps, and leaves tables that are again those
of the maps. -/
structure Conforms (size : Nat) (b : Board n η ν) (r : Request n η) : Prop where
  serve_eq : (b.directory size).serve r = ((b.serve r).1, (b.serve r).2.directory size)
  tabled : (b.serve r).2.Tabled size

theorem conforms_of_same (hb : b.Tabled size) {r : Request n η} {a : Reply n η}
    (hmaps : (b.directory size).serve r = (a, b.directory size)) (hserve : b.serve r = (a, b)) :
    Conforms size b r := by
  refine ⟨?_, ?_⟩
  · rw [hmaps, hserve]
  · rw [hserve]
    exact hb

theorem conforms_bind (hb : b.Tabled size) (id : PortId) (k : Fin n) :
    Conforms size b (.bind id k) := by
  by_cases h : id.index < size
  · have hroom : ¬b.registry.size ≤ id.index := Nat.not_le.2 (h.trans_eq hb.registry_size.symm)
    cases hget : b.registry.get? id with
    | some j =>
      refine conforms_of_same hb (a := .result (.error .portInUse)) ?_ ?_
      · simp only [Directory.serve, dif_pos h, directory, hget, Directory.refuse]
      · simp only [serve, bind, Table.bind, if_neg hroom, Table.contains, hget,
          Option.isSome_some, if_true]
    | none =>
      have hserve : b.serve (.bind id k) =
          (.result (.ok ()),
            { b with registry := b.registry.put id (some k) }.log (.bound id)) := by
        simp only [serve, bind, Table.bind, if_neg hroom, Table.contains, hget,
          Option.isSome_none, Bool.false_eq_true, if_false]
      refine ⟨?_, ?_⟩
      · rw [hserve, Directory.serve, dif_pos h]
        simp only [directory, hget, Directory.comply]
        rw [← get?_put_eq_update hb.registry_size h]
        rfl
      · rw [hserve]
        exact (hb.withRegistry id (some k)).log _
  · have hout : b.registry.size ≤ id.index := hb.registry_size.trans_le (Nat.not_lt.1 h)
    refine conforms_of_same hb (a := .result (.error .invalidPort)) ?_ ?_
    · rw [Directory.serve, dif_neg h]
      rfl
    · simp only [serve, bind, Table.bind, if_pos hout]

theorem conforms_unbind (hb : b.Tabled size) (id : PortId) : Conforms size b (.unbind id) := by
  by_cases h : id.index < size
  · have hroom : id.index < b.registry.size := h.trans_eq hb.registry_size.symm
    have hserve : (b.serve (.unbind id)).1 = .result (.ok ()) ∧
        (b.serve (.unbind id)).2.directory size =
          directory size { b with registry := b.registry.put id none } ∧
        (b.serve (.unbind id)).2.Tabled size := by
      have hput := hb.withRegistry id none
      simp only [serve, unbind, Table.unbind, if_pos hroom, Table.clear]
      split
      · exact ⟨trivial, rfl, hput.log _⟩
      · exact ⟨trivial, rfl, hput⟩
    obtain ⟨hreply, hmaps, htabled⟩ := hserve
    refine ⟨?_, htabled⟩
    rw [hreply, hmaps, directory_withRegistry hb h, Directory.serve, dif_pos h]
    rfl
  · have hout : ¬id.index < b.registry.size := fun hlt => h (hlt.trans_eq hb.registry_size)
    refine conforms_of_same hb (a := .result (.error .invalidPort)) ?_ ?_
    · rw [Directory.serve, dif_neg h]
      rfl
    · simp only [serve, unbind, Table.unbind, if_neg hout]

theorem conforms_dispatch (hb : b.Tabled size) (id : PortId) (i : Interrupt) :
    Conforms size b (.dispatch id i) := by
  by_cases h : id.index < size
  · have hroom : ¬b.registry.size ≤ id.index := Nat.not_le.2 (h.trans_eq hb.registry_size.symm)
    cases hget : b.registry.get? id with
    | none =>
      refine conforms_of_same hb (a := .result (.error .portNotBound)) ?_ ?_
      · simp only [Directory.serve, dif_pos h, directory, hget, Directory.refuse]
      · simp only [serve, dispatch, Table.find, if_neg hroom, hget]
    | some k =>
      have hserve : b.serve (.dispatch id i) = (.result (.ok ()), b.handle k i) := by
        simp only [serve, dispatch, Table.find, if_neg hroom, hget]
      refine ⟨?_, ?_⟩
      · rw [hserve, directory_handle, Directory.serve, dif_pos h]
        simp only [directory, hget, Directory.comply]
      · rw [hserve]
        exact tabled_handle hb k i
  · have hout : b.registry.size ≤ id.index := hb.registry_size.trans_le (Nat.not_lt.1 h)
    refine conforms_of_same hb (a := .result (.error .invalidPort)) ?_ ?_
    · rw [Directory.serve, dif_neg h]
      rfl
    · simp only [serve, dispatch, Table.find, if_pos hout]

theorem conforms_setHook (hb : b.Tabled size) (id : PortId) (hook : η) :
    Conforms size b (.setHook id hook) := by
  by_cases h : id.index < size
  · have hroom : id.index < b.hooks.size := h.trans_eq hb.hooks_size.symm
    have hserve : b.serve (.setHook id hook) =
        (.result (.ok ()), { b with hooks := b.hooks.put id (some hook) }) := by
      simp only [serve, setHook, Table.set, if_pos hroom]
    refine ⟨?_, ?_⟩
    · rw [hserve, directory_withHooks hb h, Directory.serve, dif_pos h]
      rfl
    · rw [hserve]
      exact hb.withHooks id (some hook)
  · have hout : ¬id.index < b.hooks.size := fun hlt => h (hlt.trans_eq hb.hooks_size)
    refine conforms_of_same hb (a := .result (.error .invalidPort)) ?_ ?_
    · rw [Directory.serve, dif_neg h]
      rfl
    · simp only [serve, setHook, Table.set, if_neg hout]

theorem conforms_clearHook (hb : b.Tabled size) (id : PortId) :
    Conforms size b (.clearHook id) := by
  by_cases h : id.index < size
  · refine ⟨?_, hb.withHooks id none⟩
    rw [Directory.serve, dif_pos h, ← directory_withHooks hb h]
    rfl
  · have hout : b.hooks.size ≤ id.index := hb.hooks_size.trans_le (Nat.not_lt.1 h)
    refine conforms_of_same hb (a := .done) ?_ ?_
    · rw [Directory.serve, dif_neg h]
    · rw [serve, clearHook, Table.clear, put_of_le hout]

theorem conforms_request (hb : b.Tabled size) (r : Request n η) : Conforms size b r := by
  have hlookup := lookup_get? hb.registry_size
  have hentries := entries_directory hb
  cases r with
  | bind id k => exact conforms_bind hb id k
  | unbind id => exact conforms_unbind hb id
  | dispatch id i => exact conforms_dispatch hb id i
  | setHook id hook => exact conforms_setHook hb id hook
  | clearHook id => exact conforms_clearHook hb id
  | get id =>
    refine conforms_of_same hb (a := .port? (b.registry.get? id)) ?_ rfl
    rw [Directory.serve, directory, hlookup]
  | isBound id =>
    refine conforms_of_same hb (a := .flag (b.registry.get? id).isSome) ?_ rfl
    rw [Directory.serve, directory, hlookup]
  | boundIds =>
    refine conforms_of_same hb (a := .ids (b.registry.entries.map (·.1))) ?_ ?_
    · rw [Directory.serve, hentries]
    · rw [serve, Table.ids_eq]
  | entries =>
    refine conforms_of_same hb (a := .entries b.registry.entries) ?_ rfl
    rw [Directory.serve, hentries]
  | getHook id =>
    refine conforms_of_same hb (a := .hook? (b.hooks.get? id)) ?_ rfl
    rw [Directory.serve, directory, lookup_get? hb.hooks_size]

theorem serveAll_directory (hb : b.Tabled size) (rs : List (Request n η)) :
    (b.directory size).serveAll rs =
      (b.serveAll rs).map fun x => (x.1, x.2.directory size) := by
  induction rs generalizing b with
  | nil => rfl
  | cons r rs ih =>
    obtain ⟨hserve, htabled⟩ := conforms_request hb r
    rw [Directory.serveAll, serveAll, List.map_cons, hserve, ih htabled]

theorem tabled_new (ports : Vector Port n) (size : Nat) :
    (new ports size : Board n η ν).Tabled size :=
  ⟨Array.size_replicate, Array.size_replicate, Table.narrow_empty size⟩

theorem directory_new (ports : Vector Port n) (size : Nat) :
    (new ports size : Board n η ν).directory size = .empty ports.get := by
  have hnone {α : Type} : (fun key : Key size => (Table.empty size : Table α).get? key.1) =
      fun _ => none := by
    funext key
    exact Table.get?_empty size key.1
  rw [directory, Directory.empty]
  simp only [new, hnone]
  rfl

/-- From new tables on, every request is answered as by two partial maps from the ids below the size
of the tables, and a dispatch does to one port what its handler does, once. What is listed is each
id that is mapped, lowest first, with its port. -/
theorem tables_are_partial_maps (ports : Vector Port n) (size : Nat) (rs : List (Request n η)) :
    ((new ports size : Board n η ν).serveAll rs).map (fun x => (x.1, x.2.directory size)) =
        (Directory.empty ports.get).serveAll rs ∧
      ∀ d : Directory n size η, d.entries.Pairwise (·.1.index < ·.1.index) ∧
        ∀ id k, (id, k) ∈ d.entries ↔ ∃ h : id.index < size, d.bound ⟨id, h⟩ = some k := by
  refine ⟨?_, fun d => ⟨PortId.pairwise_listing _, fun id k => ?_⟩⟩
  · rw [← directory_new (η := η) (ν := ν), serveAll_directory (tabled_new ports size)]
  · rw [Directory.entries, PortId.mem_listing, Directory.lookup_eq_some]

end Board

end SerialPort
