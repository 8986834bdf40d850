import Mathlib.Data.List.Nodup
import Mathlib.Data.List.Pairwise
import Mathlib.Data.List.Range
import SerialPort.Table

namespace SerialPort

namespace PortId

def all : List PortId := (List.range 256).map fun i => ⟨.ofNat i⟩

theorem index_ofNat {i : Nat} (h : i < 256) : (⟨.ofNat i⟩ : PortId).index = i :=
  UInt8.toNat_ofNat_of_lt' h

theorem mem_all (id : PortId) : id ∈ all :=
  List.mem_map.2 ⟨id.index, List.mem_range.2 id.index_lt, index_inj (index_ofNat id.index_lt)⟩

theorem pairwise_all : all.Pairwise (·.index < ·.index) := by
  rw [all, List.pairwise_map]
  refine List.pairwise_lt_range.imp_of_mem fun {i j} hi hj hij => ?_
  rw [index_ofNat (List.mem_range.1 hi), index_ofNat (List.mem_range.1 hj)]
  exact hij

variable {α : Type}

/-- The ids that are mapped to something, lowest first, each with what it is mapped to. -/
def listing (m : PortId → Option α) : List (PortId × α) :=
  all.filterMap fun id => (m id).map (id, ·)

theorem mem_listing {m : PortId → Option α} {id : PortId} {a : α} :
    (id, a) ∈ listing m ↔ m id = some a := by
  rw [listing, List.mem_filterMap]
  constructor
  · rintro ⟨_, _, he⟩
    obtain ⟨_, hget, e⟩ := Option.map_eq_some_iff.1 he
    cases e
    exact hget
  · intro hget
    exact ⟨id, id.mem_all, by rw [hget, Option.map_some]⟩

theorem pairwise_listing (m : PortId → Option α) :
    (listing m).Pairwise (·.1.index < ·.1.index) := by
  refine pairwise_all.filterMap _ fun i j hij a ha b hb => ?_
  obtain ⟨_, _, rfl⟩ := Option.map_eq_some_iff.1 ha
  obtain ⟨_, _, rfl⟩ := Option.map_eq_some_iff.1 hb
  exact hij

end PortId

namespace Table

variable {α : Type} {t : Table α}

def entryAt (t : Table α) (i : Nat) : Option (PortId × α) := t.slots[i]?.join.map (⟨.ofNat i⟩, ·)

/-- No slot is taken that no id can name. -/
def Narrow (t : Table α) : Prop := ∀ i, 256 ≤ i → t.slots[i]?.join = none

theorem narrow_of_size_le (h : t.size ≤ 256) : t.Narrow := by
  intro i hi
  rw [Array.getElem?_eq_none (Nat.le_trans h hi), Option.join_none]

theorem narrow_of_maxPorts (h : t.size = maxPorts) : t.Narrow :=
  narrow_of_size_le (h ▸ by decide)

theorem narrow_empty (size : Nat) : (empty size : Table α).Narrow := by
  intro i _
  rw [empty, Array.getElem?_replicate]
  split <;> rfl

theorem Narrow.put (h : t.Narrow) (id : PortId) (slot : Option α) : (t.put id slot).Narrow := by
  intro i hi
  have hne : id.index ≠ i := Nat.ne_of_lt (Nat.lt_of_lt_of_le id.index_lt hi)
  rw [Table.put, Array.getElem?_setIfInBounds_ne hne]
  exact h i hi

theorem filterMap_zipIdx_eq_range {β γ : Type} (l : List β) (f : β × Nat → Option γ) :
    l.zipIdx.filterMap f =
      (List.range l.length).filterMap fun i => l[i]?.bind fun x => f (x, i) := by
  induction l using List.reverseRecOn with
  | nil => rfl
  | append_singleton l x ih =>
    have hl : ∀ i ∈ List.range l.length,
        (l[i]?.bind fun y => f (y, i)) = ((l ++ [x])[i]?.bind fun y => f (y, i)) := by
      intro i hi
      rw [List.getElem?_append_left (List.mem_range.1 hi)]
    rw [List.zipIdx_append, List.filterMap_append, ih, List.length_append, List.length_singleton,
      List.range_succ, List.filterMap_append, List.filterMap_congr hl]
    simp [List.filterMap_cons]

theorem entries_eq_range (t : Table α) : t.entries = (List.range t.size).filterMap t.entryAt := by
  rw [entries, filterMap_zipIdx_eq_range, Array.length_toList, size]
  congr 1
  funext i
  rw [entryAt, Array.getElem?_toList]
  cases t.slots[i]? <;> rfl

theorem filterMap_range_of_none {β : Type} {f : Nat → Option β} {m k : Nat} (hmk : m ≤ k)
    (h : ∀ i, m ≤ i → f i = none) : (List.range k).filterMap f = (List.range m).filterMap f := by
  obtain ⟨j, rfl⟩ := Nat.exists_eq_add_of_le hmk
  have hrest : ((List.range j).map (m + ·)).filterMap f = [] := by
    rw [List.filterMap_eq_nil_iff]
    intro i hi
    obtain ⟨r, _, rfl⟩ := List.mem_map.1 hi
    exact h _ (Nat.le_add_right m r)
  rw [List.range_add, List.filterMap_append, hrest, List.append_nil]

/-- A narrow table lists, id by id, what it maps. -/
theorem entries_eq (h : t.Narrow) : t.entries = PortId.listing t.get? := by
  have hsize : ∀ i, t.size ≤ i → t.entryAt i = none := by
    intro i hi
    rw [entryAt, Array.getElem?_eq_none hi]
    rfl
  have hnarrow : ∀ i, 256 ≤ i → t.entryAt i = none := by
    intro i hi
    rw [entryAt, h i hi]
    rfl
  have hid : ∀ i ∈ List.range 256,
      t.entryAt i = (t.get? ⟨.ofNat i⟩).map ((⟨.ofNat i⟩ : PortId), ·) := by
    intro i hi
    rw [entryAt, get?, PortId.index_ofNat (List.mem_range.1 hi)]
  rw [entries_eq_range, ← filterMap_range_of_none (Nat.le_max_left t.size 256) hsize,
    filterMap_range_of_none (Nat.le_max_right t.size 256) hnarrow, PortId.listing, PortId.all,
    List.filterMap_map, List.filterMap_congr hid]
  rfl

theorem mem_entries (h : t.Narrow) {id : PortId} {a : α} :
    (id, a) ∈ t.entries ↔ t.get? id = some a := by
  rw [entries_eq h, PortId.mem_listing]

theorem pairwise_entries (h : t.Narrow) : t.entries.Pairwise (·.1.index < ·.1.index) :=
  entries_eq h ▸ PortId.pairwise_listing _

theorem nodup_entries_iff (h : t.Narrow) : (t.entries.map (·.2)).Nodup ↔
    ∀ id id' a, t.get? id = some a → t.get? id' = some a → id = id' := by
  constructor
  · intro hnodup id id' a hid hid'
    exact congrArg Prod.fst (List.inj_on_of_nodup_map hnodup ((mem_entries h).2 hid)
      ((mem_entries h).2 hid') rfl)
  · intro hinj
    have hlist : t.entries.Nodup := by
      refine (pairwise_entries h).imp fun {x y} hlt hxy => ?_
      rw [hxy] at hlt
      exact Nat.lt_irrefl _ hlt
    refine hlist.map_on fun x hx y hy hxy => ?_
    have hy' := (mem_entries h).1 hy
    rw [← hxy] at hy'
    exact Prod.ext (hinj _ _ _ ((mem_entries h).1 hx) hy') hxy

theorem length_entries_le (t : Table α) : t.entries.length ≤ t.size := by
  rw [entries_eq_range]
  exact (List.length_filterMap_le _ _).trans_eq List.length_range

theorem ids_eq (t : Table α) : t.ids = t.entries.map (·.1) := by
  rw [ids, Bounded.items_gather]
  rw [List.length_map]
  exact t.length_entries_le

end Table

end SerialPort
