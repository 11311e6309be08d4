import Cobalt.Lib.ProtoMap
import Mathlib.Logic.Function.Basic

/-!
# Map fields read as functions

What a map field says does not depend on the order of its entries: it is the function that sends a
key to what a lookup finds. Maps of maps are read level by level. Assignments become assignments to
functions, of which two commute when they are to different keys or their values do not depend on
the order.

## Main definitions

* `PartialMap.alter`, `PartialMap.adjust`: the value at a key is replaced, from what was there
  before; `adjust` leaves a key alone that has no value.
* `ProtoMap.view`: the function of a map, with its values read as well.

## Main results

* `PartialMap.alter_comm`, `PartialMap.adjust_comm`: two assignments commute.
* `ProtoMap.view_update`, `ProtoMap.view_insert`: the view of an assignment.
* `ProtoMap.view_eq_iff`: maps have the same entries when they have the same view.
-/

namespace PartialMap

variable {K V : Type} [DecidableEq K]

/-- The value at `k` is replaced by the image of what was there. -/
def alter (m : K → Option V) (k : K) (f : Option V → V) : K → Option V :=
  Function.update m k (some (f (m k)))

@[simp] theorem alter_self (m : K → Option V) (k : K) (f : Option V → V) :
    alter m k f k = some (f (m k)) :=
  Function.update_self ..

@[simp] theorem alter_of_ne (m : K → Option V) {k k' : K} (h : k' ≠ k) (f : Option V → V) :
    alter m k f k' = m k' :=
  Function.update_of_ne h ..

theorem alter_apply (m : K → Option V) (k k' : K) (f : Option V → V) :
    alter m k f k' = if k' = k then some (f (m k)) else m k' := by
  split_ifs with h
  · rw [h, alter_self]
  · exact alter_of_ne m h f

omit [DecidableEq K] in
/-- A map that is absent is read as an empty one. -/
theorem getD_empty_apply (o : Option (K → Option V)) (k : K) :
    (o.getD fun _ => none) k = o.bind (· k) := by
  cases o <;> rfl

/-- Only the image of the old value matters. -/
theorem alter_congr {m : K → Option V} {k : K} {f f' : Option V → V} (h : f (m k) = f' (m k)) :
    alter m k f = alter m k f' := by
  rw [alter, alter, h]

/-- **Two assignments commute** when they are to different keys, or each gives the same value after
the other one. -/
theorem alter_comm {m : K → Option V} {k k' : K} {f f' : Option V → V}
    (h : k = k' → ∀ o, f (some (f' o)) = f' (some (f o))) :
    alter (alter m k f) k' f' = alter (alter m k' f') k f := by
  funext j
  by_cases hk : k = k'
  · subst hk
    by_cases hj : j = k
    · subst hj
      rw [alter_self, alter_self, alter_self, alter_self, h rfl]
    · rw [alter_of_ne _ hj, alter_of_ne _ hj, alter_of_ne _ hj, alter_of_ne _ hj]
  · by_cases hj : j = k
    · subst hj
      rw [alter_of_ne _ hk, alter_self, alter_self, alter_of_ne _ hk]
    · by_cases hj' : j = k'
      · subst hj'
        rw [alter_self, alter_of_ne _ hj, alter_of_ne _ hj, alter_self]
      · rw [alter_of_ne _ hj', alter_of_ne _ hj, alter_of_ne _ hj, alter_of_ne _ hj']

/-- An assignment of the value that is there already. -/
theorem alter_eq_self_iff {m : K → Option V} {k : K} {f : Option V → V} :
    alter m k f = m ↔ m k = some (f (m k)) := by
  rw [alter, Function.update_eq_self_iff, eq_comm]

/-- The value at `k`, if there is one, is replaced by its image. -/
def adjust (m : K → Option V) (k : K) (f : V → V) : K → Option V :=
  Function.update m k ((m k).map f)

@[simp] theorem adjust_self (m : K → Option V) (k : K) (f : V → V) :
    adjust m k f k = (m k).map f :=
  Function.update_self ..

@[simp] theorem adjust_of_ne (m : K → Option V) {k k' : K} (h : k' ≠ k) (f : V → V) :
    adjust m k f k' = m k' :=
  Function.update_of_ne h ..

theorem adjust_eq_self_iff {m : K → Option V} {k : K} {f : V → V} :
    adjust m k f = m ↔ ∀ v, m k = some v → f v = v := by
  rw [adjust, Function.update_eq_self_iff]
  cases m k with
  | none => simp
  | some v => simp

/-- Two replacements commute when they are at different keys, or their functions commute on the
value. -/
theorem adjust_comm {m : K → Option V} {k k' : K} {f f' : V → V}
    (h : k = k' → ∀ v, m k = some v → f' (f v) = f (f' v)) :
    adjust (adjust m k f) k' f' = adjust (adjust m k' f') k f := by
  funext j
  by_cases hk : k = k'
  · subst hk
    by_cases hj : j = k
    · subst hj
      simp only [adjust_self, Option.map_map]
      cases hv : m j with
      | none => rfl
      | some v => exact congrArg some (h rfl v hv)
    · rw [adjust_of_ne _ hj, adjust_of_ne _ hj, adjust_of_ne _ hj, adjust_of_ne _ hj]
  · by_cases hj : j = k
    · subst hj
      rw [adjust_of_ne _ hk, adjust_self, adjust_self, adjust_of_ne _ hk]
    · by_cases hj' : j = k'
      · subst hj'
        rw [adjust_self, adjust_of_ne _ hj, adjust_of_ne _ hj, adjust_self]
      · rw [adjust_of_ne _ hj', adjust_of_ne _ hj, adjust_of_ne _ hj, adjust_of_ne _ hj']

end PartialMap

namespace ProtoMap

open PartialMap (alter)

variable {K V W : Type} [DecidableEq K]

/-- What lookups find in a map, with the values read by `f`. -/
def view (f : V → W) (m : ProtoMap K V) : K → Option W :=
  fun k => (m.lookup k).map f

@[simp] theorem view_apply (f : V → W) (m : ProtoMap K V) (k : K) :
    view f m k = (m.lookup k).map f :=
  rfl

theorem view_insert (f : V → W) (m : ProtoMap K V) (k : K) (v : V) :
    view f (m.insert k v) = alter (view f m) k fun _ => f v := by
  funext j
  by_cases hj : j = k
  · subst hj
    simp
  · simp [hj]

/-- The view of an assignment to an element of the map. -/
theorem view_update (f : V → W) {g : V → V} (g' : W → W) (h : ∀ v, f (g v) = g' (f v))
    (m : ProtoMap K V) (k : K) (d : V) :
    view f (m.update k d g) = alter (view f m) k fun o => g' (o.getD (f d)) := by
  funext j
  by_cases hj : j = k
  · subst hj
    rw [view_apply, lookup_update_self, PartialMap.alter_self, view_apply, Option.map_some, h,
      Option.getD_map]
  · rw [view_apply, lookup_update_of_ne m hj, PartialMap.alter_of_ne _ hj, view_apply]

/-- Maps are the same up to a relation on the values when their views are, for a way of reading the
values that the relation comes from. -/
theorem view_eq_iff {R : V → V → Prop} {f : V → W} (h : ∀ v v', R v v' ↔ f v = f v')
    (m m' : ProtoMap K V) :
    (∀ k, Option.Rel R (m.lookup k) (m'.lookup k)) ↔ view f m = view f m' := by
  rw [funext_iff]
  refine forall_congr' fun k => ?_
  rw [view_apply, view_apply]
  cases m.lookup k with
  | none =>
    cases m'.lookup k with
    | none => exact ⟨fun _ => rfl, fun _ => .none⟩
    | some v' => exact ⟨fun hrel => (by cases hrel), fun heq => absurd heq (by simp)⟩
  | some v =>
    cases m'.lookup k with
    | none => exact ⟨fun hrel => (by cases hrel), fun heq => absurd heq (by simp)⟩
    | some v' =>
      constructor
      · rintro ⟨hvv'⟩
        exact congrArg some ((h v v').mp hvv')
      · intro heq
        exact .some ((h v v').mpr (Option.some.inj heq))

end ProtoMap
