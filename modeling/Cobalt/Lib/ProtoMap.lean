import Mathlib.Algebra.Order.Ring.Int
import Mathlib.Data.List.AList
import Mathlib.Data.List.Induction
import Mathlib.Data.List.Perm.Basic

/-!
# Map fields of protocol buffer messages

A map field is a finite map whose iteration order is unspecified. It is represented by an
association list with distinct keys (`AList`); the order of the entries is the order in which one
iteration happens to visit them, so a statement about every `ProtoMap` is a statement about every
iteration order.

## Main definitions

* `ProtoMap K V`: a map field with keys `K` and values `V`.
* `ProtoMap.update`: assignment through `(*map)[k]`, which inserts a default value first.
* `ProtoMap.filterMap`: an iteration that rewrites or erases every entry.
* `ProtoMap.ofPairs`: a map that is built by assignments.
* `MapOrder`: the order in which iterations visit the entries of maps that a function builds itself.

## Main results

* `ProtoMap.lookup_update`, `ProtoMap.lookup_foldl_update`, `ProtoMap.lookup_filterMap`: what a
  lookup finds afterwards.
* `ProtoMap.perm_flatMap_of_lookup`: what an iteration collects depends, up to order, only on
  what lookups find.
-/

/-- A map field with keys `K` and values `V`. -/
abbrev ProtoMap (K V : Type) : Type := AList fun _ : K => V

namespace ProtoMap

variable {K V W O : Type} [DecidableEq K]

/-- The entry of the value `v` at the key `k`. -/
abbrev entry (k : K) (v : V) : (_ : K) × V := ⟨k, v⟩

/-- The value at `k`, `d` where there is none, is replaced by its image under `f`. -/
def update (m : ProtoMap K V) (k : K) (d : V) (f : V → V) : ProtoMap K V :=
  m.insert k (f ((m.lookup k).getD d))

@[simp] theorem lookup_update_self (m : ProtoMap K V) (k : K) (d : V) (f : V → V) :
    (m.update k d f).lookup k = some (f ((m.lookup k).getD d)) :=
  AList.lookup_insert m

@[simp] theorem lookup_update_of_ne (m : ProtoMap K V) {k k' : K} (h : k' ≠ k) (d : V)
    (f : V → V) : (m.update k d f).lookup k' = m.lookup k' :=
  AList.lookup_insert_ne h

theorem lookup_update (m : ProtoMap K V) (k k' : K) (d : V) (f : V → V) :
    (m.update k d f).lookup k' =
      if k' = k then some (f ((m.lookup k).getD d)) else m.lookup k' := by
  split_ifs with h
  · rw [h, lookup_update_self]
  · exact lookup_update_of_ne m h d f

/-- An absent map is read as an empty one. -/
theorem bind_lookup (o : Option (ProtoMap K V)) (k : K) :
    (o.bind fun m => m.lookup k) = (o.getD ∅).lookup k := by
  cases o <;> rfl

theorem lookup_insert_eq_ite (m : ProtoMap K V) (k k' : K) (v : V) :
    (m.insert k v).lookup k' = if k' = k then some v else m.lookup k' := by
  split_ifs with h
  · rw [h, AList.lookup_insert]
  · rw [AList.lookup_insert_ne h]

/-- Membership in the entries, read as a lookup. -/
theorem mem_entries_iff {m : ProtoMap K V} {e : (_ : K) × V} :
    e ∈ m.entries ↔ m.lookup e.1 = some e.2 := by
  rw [← Option.mem_def, AList.mem_lookup_iff]

omit [DecidableEq K] in
private theorem keys_filterMap_sublist (f : K → V → Option W) (l : List ((_ : K) × V)) :
    (l.filterMap fun e => (f e.1 e.2).map (entry e.1)).keys.Sublist l.keys := by
  induction l with
  | nil => exact List.Sublist.slnil
  | cons e l ih =>
    rw [List.filterMap_cons]
    cases f e.1 e.2 with
    | none => exact ih.cons _
    | some w => exact ih.cons_cons _

/-- Every entry is rewritten to `some` value of `f` or erased. -/
def filterMap (f : K → V → Option W) (m : ProtoMap K V) : ProtoMap K W where
  entries := m.entries.filterMap fun e : (_ : K) × V => (f e.1 e.2).map (entry e.1)
  nodupKeys := (keys_filterMap_sublist f m.entries).nodup m.nodupKeys

omit [DecidableEq K] in
theorem mem_entries_filterMap {f : K → V → Option W} {m : ProtoMap K V} {k : K} {w : W} :
    entry k w ∈ (m.filterMap f).entries ↔
      ∃ v, entry k v ∈ m.entries ∧ f k v = some w := by
  simp only [filterMap, List.mem_filterMap, Option.map_eq_some_iff]
  constructor
  · rintro ⟨⟨k', v⟩, hmem, w', hw, heq⟩
    obtain ⟨rfl, rfl⟩ := Sigma.mk.inj heq
    exact ⟨v, hmem, hw⟩
  · rintro ⟨v, hmem, hw⟩
    exact ⟨⟨k, v⟩, hmem, w, hw, rfl⟩

@[simp] theorem lookup_filterMap (f : K → V → Option W) (m : ProtoMap K V) (k : K) :
    (m.filterMap f).lookup k = (m.lookup k).bind (f k) := by
  ext w
  rw [← Option.mem_def, AList.mem_lookup_iff, mem_entries_filterMap]
  simp only [Option.bind_eq_some_iff, ← AList.mem_lookup_iff, Option.mem_def]

/-- The entry at a key comes first, up to order. -/
theorem entries_perm_cons {m : ProtoMap K V} {k : K} {v : V} (h : m.lookup k = some v) :
    m.entries.Perm (entry k v :: (m.erase k).entries) := by
  have hmem : entry k v ∈ m.entries := AList.mem_lookup_iff.mp h
  refine List.lookup_ext m.nodupKeys ?_ fun a b => ?_
  · refine List.nodupKeys_cons.mpr ⟨?_, (m.erase k).nodupKeys⟩
    exact fun hk => (AList.mem_erase.mp (AList.mem_keys.mpr hk)).1 rfl
  · by_cases ha : a = k
    · subst ha
      rw [List.dlookup_cons_eq, show m.entries.dlookup a = some v from h]
    · rw [List.dlookup_cons_ne _ _ ha]
      change _ ↔ b ∈ (m.erase k).lookup a
      rw [AList.lookup_erase_ne ha]
      rfl

theorem erase_eq_self {m : ProtoMap K V} {k : K} (h : m.lookup k = none) : m.erase k = m := by
  ext1
  exact List.kerase_of_notMem_keys (AList.lookup_eq_none.mp h)

/-- An assignment puts the entry first and leaves the other ones. -/
theorem entries_insert_eq_cons (m : ProtoMap K V) (k : K) (v : V) :
    (m.insert k v).entries = entry k v :: (m.erase k).entries :=
  AList.entries_insert

theorem mem_entries_of_mem_insert {m : ProtoMap K V} {k : K} {v : V} {e : (_ : K) × V}
    (h : e ∈ (m.insert k v).entries) : e = entry k v ∨ e ∈ m.entries := by
  rw [entries_insert_eq_cons, List.mem_cons] at h
  exact h.imp_right fun hmem => (List.kerase_sublist k m.entries).subset hmem

/-- Two iterations collect the same values, up to order, when what they collect for each key
agrees up to order; a key that is absent contributes nothing. -/
theorem perm_flatMap_of_lookup {m₁ : ProtoMap K V} {m₂ : ProtoMap K W} (f : K → V → List O)
    (g : K → W → List O)
    (h : ∀ k, ((m₁.lookup k).elim [] (f k)).Perm ((m₂.lookup k).elim [] (g k))) :
    (m₁.entries.flatMap fun e => f e.1 e.2).Perm (m₂.entries.flatMap fun e => g e.1 e.2) := by
  induction m₁ using AList.insertRec generalizing m₂ with
  | H0 =>
    have hnil : ∀ e ∈ m₂.entries, g e.1 e.2 = [] := by
      intro e he
      have hk := h e.1
      rw [mem_entries_iff.mp he] at hk
      exact List.nil_perm.mp hk
    simp only [AList.empty_entries, List.flatMap_nil]
    rw [List.flatMap_eq_nil_iff.mpr hnil]
  | IH k v m₁ hk ih =>
    have hrest : ∀ k', ((m₁.lookup k').elim [] (f k')).Perm
        (((m₂.erase k).lookup k').elim [] (g k')) := by
      intro k'
      by_cases hkk : k' = k
      · subst hkk
        rw [AList.lookup_erase, AList.lookup_eq_none.mpr hk]
        exact List.Perm.refl _
      · rw [AList.lookup_erase_ne hkk]
        simpa [AList.lookup_insert_ne hkk] using h k'
    have hhead := h k
    rw [AList.lookup_insert] at hhead
    rw [AList.entries_insert_of_notMem hk, List.flatMap_cons]
    cases hm : m₂.lookup k with
    | none =>
      rw [hm] at hhead
      have hnil : f k v = [] := List.perm_nil.mp hhead
      simpa [hnil, erase_eq_self hm] using ih hrest
    | some w =>
      rw [hm] at hhead
      refine (hhead.append (ih hrest)).trans ?_
      exact ((entries_perm_cons hm).flatMap_right fun e => g e.1 e.2).symm

/-- Assignments through `(*map)[k]` at distinct keys. -/
theorem lookup_foldl_update (d : V) (f : V → V) {l : List K} (hnodup : l.Nodup) (m : ProtoMap K V)
    (k : K) :
    (l.foldl (fun m k => m.update k d f) m).lookup k =
      if k ∈ l then some (f ((m.lookup k).getD d)) else m.lookup k := by
  induction l generalizing m with
  | nil => rfl
  | cons a l ih =>
    obtain ⟨ha, hnodup⟩ := List.nodup_cons.mp hnodup
    rw [List.foldl_cons, ih hnodup, lookup_update]
    by_cases hk : k = a
    · subst hk
      simp [ha]
    · simp [hk]

/-! ### Maps built by assignments -/

/-- The map after the assignments of a list; the last assignment to a key stands. -/
def ofPairs (l : List (K × V)) : ProtoMap K V :=
  l.foldl (fun m p => m.insert p.1 p.2) ∅

theorem ofPairs_concat (l : List (K × V)) (p : K × V) :
    ofPairs (l ++ [p]) = (ofPairs l).insert p.1 p.2 := by
  rw [ofPairs, List.foldl_append, List.foldl_cons, List.foldl_nil, ofPairs]

/-- A value of the map was assigned. -/
theorem mem_of_lookup_ofPairs {l : List (K × V)} {k : K} {v : V}
    (h : (ofPairs l).lookup k = some v) : (k, v) ∈ l := by
  induction l using List.reverseRecOn with
  | nil => exact absurd h (by simp [ofPairs])
  | append_singleton l p ih =>
    rw [ofPairs_concat, lookup_insert_eq_ite] at h
    split_ifs at h with hk
    · obtain rfl := Option.some.inj h
      rw [hk]
      exact List.mem_append_right l List.mem_cons_self
    · exact List.mem_append_left [p] (ih h)

/-- Distinct keys. Every assignment to distinct keys stands. -/
theorem lookup_ofPairs_iff {l : List (K × V)} (hnodup : (l.map Prod.fst).Nodup) {k : K} {v : V} :
    (ofPairs l).lookup k = some v ↔ (k, v) ∈ l := by
  refine ⟨mem_of_lookup_ofPairs, fun h => ?_⟩
  induction l using List.reverseRecOn with
  | nil => exact absurd h List.not_mem_nil
  | append_singleton l p ih =>
    rw [List.map_append, List.nodup_append] at hnodup
    rw [ofPairs_concat, lookup_insert_eq_ite]
    rcases List.mem_append.mp h with hmem | hmem
    · have hne : k ≠ p.1 := hnodup.2.2 k (List.mem_map_of_mem hmem) p.1 List.mem_cons_self
      rw [if_neg hne]
      exact ih hnodup.1 hmem
    · rw [← List.mem_singleton.mp hmem, if_pos rfl]

end ProtoMap

/-- One way in which iterations visit the entries of maps. The entries of a map that is itself an
input are already in the order of its iteration; this order is for the maps that a function
builds. -/
structure MapOrder where
  range : {K V : Type} → ProtoMap K V → List ((_ : K) × V)
  perm : ∀ {K V : Type} (m : ProtoMap K V), (range m).Perm m.entries

namespace MapOrder

variable {K V : Type} [DecidableEq K]

theorem mem_range {order : MapOrder} {m : ProtoMap K V} {e : (_ : K) × V} :
    e ∈ order.range m ↔ m.lookup e.1 = some e.2 := by
  rw [(order.perm m).mem_iff, ProtoMap.mem_entries_iff]

/-- The order of the assignments, the last one first. -/
def lastFirst : MapOrder where
  range m := m.entries
  perm _ := List.Perm.refl _

end MapOrder
