import Cobalt.Lib.ProtoMap
import Mathlib.Data.List.Sort

/-!
# Indexes of nested lists

A loop over a list, or nested loops over the parts of it, build maps by assignments. Each of the
maps is the one that the assignments of all parts build after each other, and the last assignment to
a key stands. A map with an order visits its keys in that order.

## Main definitions

* `ProtoMap.insertAll`: the assignments of a list, on top of a map.
* `ProtoMap.sortedKeys`: the keys in their order.

## Main results

* `ProtoMap.field_foldl`: what nested loops assign.
* `ProtoMap.lookup_ofPairs`: the last assignment stands.
* `ProtoMap.lookup_ofPairs_map_iff`: an index by a key.
* `ProtoMap.sortedKeys_ofPairs`: distinct keys are visited in their order.
-/

namespace ProtoMap

variable {K V : Type} [DecidableEq K]

/-- The assignments of a list, after each other. -/
def insertAll (m : ProtoMap K V) (l : List (K × V)) : ProtoMap K V :=
  l.foldl (fun m p => m.insert p.1 p.2) m

theorem insertAll_append (m : ProtoMap K V) (l l' : List (K × V)) :
    m.insertAll (l ++ l') = (m.insertAll l).insertAll l' :=
  List.foldl_append

/-- The keys that are assigned. -/
theorem lookup_insertAll_eq_none_iff {m : ProtoMap K V} {l : List (K × V)} {k : K} :
    (m.insertAll l).lookup k = none ↔ k ∉ l.map Prod.fst ∧ m.lookup k = none := by
  induction l generalizing m with
  | nil => simp [insertAll]
  | cons p l ih =>
    have hcons : m.insertAll (p :: l) = ProtoMap.insertAll (m.insert p.1 p.2) l := rfl
    rw [hcons, ih, lookup_insert_eq_ite, List.map_cons, List.mem_cons, not_or]
    split_ifs with hk <;> simp [hk]

/-- A loop whose body assigns a key and a value. -/
theorem foldl_insert_eq_insertAll {A : Type} (m : ProtoMap K V) (key : A → K) (value : A → V)
    (l : List A) :
    l.foldl (fun m a => m.insert (key a) (value a)) m =
      m.insertAll (l.map fun a => (key a, value a)) := by
  rw [insertAll, List.foldl_map]

/-- **A loop over the parts.** Where the body of a loop makes the assignments of a part in one field
of its state, the loop makes those of all parts. -/
theorem field_foldl {S A : Type} {step : S → A → S} (field : S → ProtoMap K V)
    (pairs : A → List (K × V)) (hstep : ∀ s a, field (step s a) = (field s).insertAll (pairs a))
    (l : List A) (s : S) : field (l.foldl step s) = (field s).insertAll (l.flatMap pairs) := by
  induction l generalizing s with
  | nil => rfl
  | cons a l ih => rw [List.foldl_cons, ih, hstep, ← insertAll_append, List.flatMap_cons]

/-- The last assignment to a key stands. -/
theorem lookup_ofPairs (l : List (K × V)) (k : K) :
    (ofPairs l).lookup k = (l.reverse.find? fun p => p.1 = k).map Prod.snd := by
  induction l using List.reverseRecOn with
  | nil => rfl
  | append_singleton l p ih =>
    rw [ofPairs_concat, lookup_insert_eq_ite, List.reverse_append, List.reverse_singleton,
      List.singleton_append, List.find?_cons]
    by_cases hk : k = p.1
    · subst hk
      simp
    · rw [if_neg hk, ih]
      have hne : decide (p.1 = k) = false := decide_eq_false fun h => hk h.symm
      rw [hne]

/-- An index by a key that no two values share. -/
theorem lookup_ofPairs_map_iff {l : List V} {key : V → K} (hnodup : (l.map key).Nodup) {k : K}
    {v : V} : (ofPairs (l.map fun v => (key v, v))).lookup k = some v ↔ v ∈ l ∧ key v = k := by
  rw [lookup_ofPairs_iff (by rwa [List.map_map]), List.mem_map]
  constructor
  · rintro ⟨v, hmem, heq⟩
    obtain ⟨rfl, rfl⟩ := Prod.mk.inj heq
    exact ⟨hmem, rfl⟩
  · rintro ⟨hmem, rfl⟩
    exact ⟨v, hmem, rfl⟩

/-- The keys are those that were assigned. -/
theorem mem_keys_ofPairs {l : List (K × V)} {k : K} :
    k ∈ (ofPairs l).keys ↔ k ∈ l.map Prod.fst := by
  rw [← AList.mem_keys, ← AList.lookup_isSome, lookup_ofPairs, Option.isSome_map, List.find?_isSome]
  simp only [List.mem_reverse, decide_eq_true_eq, List.mem_map]

/-- The keys in the order of a map. -/
def sortedKeys {O : Type} [LinearOrder O] (order : K → O) (m : ProtoMap K V) : List K :=
  m.keys.insertionSort fun a b => order a ≤ order b

/-- Distinct keys are visited in their order. -/
theorem sortedKeys_ofPairs {O : Type} [LinearOrder O] {order : K → O}
    (horder : Function.Injective order) {l : List (K × V)} (hnodup : (l.map Prod.fst).Nodup) :
    (ofPairs l).sortedKeys order =
      (l.map Prod.fst).insertionSort fun a b => order a ≤ order b := by
  have hkeys : (ofPairs l).keys.Perm (l.map Prod.fst) :=
    (List.perm_ext_iff_of_nodup (AList.keys_nodup _) hnodup).mpr fun _ => mem_keys_ofPairs
  have hperm := (List.perm_insertionSort (fun a b => order a ≤ order b) _).trans
    (hkeys.trans (List.perm_insertionSort (fun a b => order a ≤ order b) _).symm)
  have : Std.Total fun a b : K => order a ≤ order b := ⟨fun a b => le_total (order a) (order b)⟩
  have : IsTrans K fun a b => order a ≤ order b := ⟨fun _ _ _ => le_trans⟩
  exact hperm.eq_of_pairwise (fun a b _ _ hle hge => horder (le_antisymm hle hge))
    (List.pairwise_insertionSort _ _) (List.pairwise_insertionSort _ _)

end ProtoMap
