import Mathlib.Algebra.Order.Ring.Int
import Mathlib.Data.List.Nodup
import Mathlib.Data.List.OfFn
import Mathlib.Order.Filter.Finite

/-!
# Passes over a list that may fail

A pass changes the elements of a list one after the other, and stops at the first error. A pass over
items changes the element at the place of each item, if it has one. What a pass makes of a list is
given place by place when no two items have one place. If the result at each place is the same for
almost all values of a parameter, such as the fuel of a recursion, so is the list of the results.

## Main definitions

* `UpdatePass.updateAt`: changes the element at one place.
* `UpdatePass.updateEach`: a pass over items.

## Main results

* `UpdatePass.mapM_eq_ok`: a pass over all elements.
* `UpdatePass.updateEach_eq_ok`: a pass over items.
* `UpdatePass.exists_list_of_eventually`: the list of the results.
* `UpdatePass.exists_mapM_of_eventually`: a pass over all elements that is made twice.
-/

namespace UpdatePass

variable {ι α β ε : Type}

/-- A pass over all elements of a list, place by place. -/
theorem mapM_eq_ok {f : α → Except ε β} {l : List α} {l' : List β} (hlen : l'.length = l.length)
    (h : ∀ (i : ℕ) a b, l[i]? = some a → l'[i]? = some b → f a = .ok b) : l.mapM f = .ok l' := by
  induction l generalizing l' with
  | nil =>
    rw [List.length_eq_zero_iff.mp hlen]
    rfl
  | cons a l ih =>
    cases l' with
    | nil => exact absurd hlen (by simp)
    | cons b l' =>
      have hhead : f a = .ok b := h 0 a b rfl rfl
      have htail : l.mapM f = .ok l' := ih (Nat.succ.inj hlen) fun i => h (i + 1)
      rw [List.mapM_cons, hhead, htail]
      rfl

/-- Changes the element at one place. -/
def updateAt (outOfRange : ε) (i : ℕ) (f : α → Except ε α) (l : List α) : Except ε (List α) :=
  match l[i]? with
  | none => .error outOfRange
  | some a => (f a).map (l.set i)

/-- A pass over items, each of which may have a place in the list. -/
def updateEach (outOfRange : ε) (place : ι → Option ℕ) (f : ι → ℕ → α → Except ε α) (items : List ι)
    (l : List α) : Except ε (List α) :=
  items.foldlM (fun l item =>
    match place item with
    | none => .ok l
    | some i => updateAt outOfRange i (f item i) l) l

variable {outOfRange : ε} {place : ι → Option ℕ} {f : ι → ℕ → α → Except ε α}

/-- **What a pass makes of a list**, place by place, when no two items have one place. -/
theorem updateEach_eq_ok {items : List ι} {l l' : List α} (hnodup : (items.filterMap place).Nodup)
    (hlen : l'.length = l.length)
    (hitem : ∀ item ∈ items, ∀ i : ℕ, place item = some i →
      ∃ a b, l[i]? = some a ∧ l'[i]? = some b ∧ f item i a = .ok b)
    (hkeep : ∀ i : ℕ, i ∉ items.filterMap place → l'[i]? = l[i]?) :
    updateEach outOfRange place f items l = .ok l' := by
  induction items generalizing l with
  | nil =>
    have heq : l' = l := List.ext_getElem? fun i => hkeep i (List.not_mem_nil)
    rw [heq]
    rfl
  | cons item items ih =>
    have hitem' : ∀ item ∈ items, ∀ i, place item = some i →
        ∃ a b, l[i]? = some a ∧ l'[i]? = some b ∧ f item i a = .ok b :=
      fun item h => hitem item (List.mem_cons_of_mem _ h)
    rw [updateEach, List.foldlM_cons]
    cases hplace : place item with
    | none =>
      rw [List.filterMap_cons_none hplace] at hnodup hkeep
      exact ih hnodup hlen hitem' hkeep
    | some i =>
      rw [List.filterMap_cons_some hplace] at hnodup hkeep
      obtain ⟨hi, hnodup⟩ := List.nodup_cons.mp hnodup
      obtain ⟨a, b, ha, hb, hf⟩ := hitem item List.mem_cons_self i hplace
      have hlt : i < l.length := (List.getElem?_eq_some_iff.mp ha).1
      have hupdate : updateAt outOfRange i (f item i) l = .ok (l.set i b) := by
        simp only [updateAt, ha, hf]
        rfl
      dsimp only
      rw [hupdate]
      refine ih hnodup (by rw [List.length_set, hlen]) ?_ ?_
      · intro item' hmem j hj
        have hne : i ≠ j := fun h => hi (List.mem_filterMap.mpr ⟨item', hmem, h ▸ hj⟩)
        rw [List.getElem?_set_ne hne]
        exact hitem' item' hmem j hj
      · intro j hj
        by_cases hij : i = j
        · subst hij
          rw [hb, List.getElem?_set_self hlt]
        · rw [List.getElem?_set_ne hij]
          exact hkeep j (by simp [hj, Ne.symm hij])

/-- The list of the results, if there is a result at each place for almost all values of a
parameter. -/
theorem exists_list_of_eventually {γ : Type} {F : Filter γ} {l : List α} {P : ℕ → α → β → Prop}
    {E : γ → ℕ → α → β → Prop}
    (h : ∀ (i : ℕ) a, l[i]? = some a → ∃ b, P i a b ∧ ∀ᶠ x in F, E x i a b) :
    ∃ l' : List β, l'.length = l.length ∧
      (∀ (i : ℕ) a b, l[i]? = some a → l'[i]? = some b → P i a b) ∧
      ∀ᶠ x in F, ∀ (i : ℕ) a b, l[i]? = some a → l'[i]? = some b → E x i a b := by
  choose result hP hE using fun i : Fin l.length => h i l[i] (List.getElem?_eq_getElem i.2)
  have hplace {i : ℕ} {a : α} {b : β} (ha : l[i]? = some a)
      (hb : (List.ofFn result)[i]? = some b) :
      ∃ hi : i < l.length, l[i] = a ∧ result ⟨i, hi⟩ = b := by
    obtain ⟨hi, ha⟩ := List.getElem?_eq_some_iff.mp ha
    exact ⟨hi, ha, by simpa [List.getElem?_ofFn, hi] using hb⟩
  refine ⟨List.ofFn result, List.length_ofFn, ?_, ?_⟩
  · intro i a b ha hb
    obtain ⟨hi, rfl, rfl⟩ := hplace ha hb
    exact hP ⟨i, hi⟩
  · filter_upwards [Filter.eventually_all.mpr hE] with x hx i a b ha hb
    obtain ⟨hi, rfl, rfl⟩ := hplace ha hb
    exact hx ⟨i, hi⟩

/-- A pass over all elements, each of which it leaves as they are the second time. -/
theorem exists_mapM_of_eventually {γ : Type} {F : Filter γ} {f : γ → α → Except ε α} {l : List α}
    {P : α → α → Prop}
    (h : ∀ a ∈ l, ∃ b, P a b ∧ ∀ᶠ x in F, f x a = .ok b ∧ f x b = .ok b) :
    ∃ l' : List α, l'.length = l.length ∧
      (∀ (i : ℕ) a b, l[i]? = some a → l'[i]? = some b → P a b) ∧
      ∀ᶠ x in F, l.mapM (f x) = .ok l' ∧ l'.mapM (f x) = .ok l' := by
  have hplaces (i : ℕ) (a : α) (ha : l[i]? = some a) :
      ∃ b, P a b ∧ ∀ᶠ x in F, f x a = .ok b ∧ f x b = .ok b := h a (List.mem_of_getElem? ha)
  obtain ⟨l', hlen, hP, hE⟩ := exists_list_of_eventually hplaces
  refine ⟨l', hlen, hP, ?_⟩
  filter_upwards [hE] with x hx
  refine ⟨mapM_eq_ok hlen fun i a b ha hb => (hx i a b ha hb).1, mapM_eq_ok rfl ?_⟩
  intro i b b' hb hb'
  obtain rfl : b = b' := Option.some.inj (hb.symm.trans hb')
  obtain ⟨hlt, -⟩ := List.getElem?_eq_some_iff.mp hb
  exact (hx i l[i] b (List.getElem?_eq_getElem _) hb).2

end UpdatePass
