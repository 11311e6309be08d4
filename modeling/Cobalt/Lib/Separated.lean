import Mathlib.Algebra.Order.Ring.Int
import Mathlib.Data.List.Infix

/-!
# Lists with separators

A list of items that do not have the separator in them, written one after the other with the
separator between two of them. The search for a word that is followed by the separator finds only
what an item ends in.

## Main results

* `Separated.append_inj_of_first`, `Separated.append_inj_of_last`: what stands before and after the
  first, or the last, separator.
* `Separated.exists_suffix_of_infix`: a word that is found ends an item.
* `Separated.infix_intercalate`: the items that are found.
-/

namespace Separated

variable {α : Type} {s : α}

/-- What stands before the first separator, and after it. -/
theorem append_inj_of_first {a a' b b' : List α} (ha : s ∉ a) (ha' : s ∉ a')
    (h : a ++ s :: b = a' ++ s :: b') : a = a' ∧ b = b' := by
  induction a generalizing a' with
  | nil =>
    cases a' with
    | nil => exact ⟨rfl, (List.cons.inj h).2⟩
    | cons c a' => exact absurd (List.mem_cons.mpr (Or.inl (List.cons.inj h).1)) ha'
  | cons c a ih =>
    cases a' with
    | nil => exact absurd (List.mem_cons.mpr (Or.inl (List.cons.inj h).1.symm)) ha
    | cons c' a' =>
      obtain ⟨rfl, htail⟩ := List.cons.inj h
      obtain ⟨rfl, hb⟩ :=
        ih (List.not_mem_of_not_mem_cons ha) (List.not_mem_of_not_mem_cons ha') htail
      exact ⟨rfl, hb⟩

/-- What stands before the last separator, and after it. -/
theorem append_inj_of_last {a a' b b' : List α} (hb : s ∉ b) (hb' : s ∉ b')
    (h : a ++ s :: b = a' ++ s :: b') : a = a' ∧ b = b' := by
  have hreverse : b.reverse ++ s :: a.reverse = b'.reverse ++ s :: a'.reverse := by
    simpa using congrArg List.reverse h
  obtain ⟨hb, ha⟩ := append_inj_of_first (mt List.mem_reverse.mp hb) (mt List.mem_reverse.mp hb')
    hreverse
  exact ⟨List.reverse_injective ha, List.reverse_injective hb⟩

/-- **A word that is found ends an item.** -/
theorem exists_suffix_of_infix {w : List α} {items : List (List α)} (hw : s ∉ w)
    (hitems : ∀ item ∈ items, s ∉ item) (h : w ++ [s] <:+: List.intercalate [s] items) :
    ∃ item ∈ items, w <:+ item := by
  induction items with
  | nil => exact absurd (List.infix_nil.mp h) (by simp)
  | cons item items ih =>
    have hitem : s ∉ item := hitems item List.mem_cons_self
    obtain ⟨p, q, hpq⟩ := h
    cases items with
    | nil =>
      rw [List.intercalate_singleton] at hpq
      exact absurd (hpq ▸ by simp) hitem
    | cons next items =>
      rw [List.intercalate_cons_cons] at hpq
      by_cases hp : s ∈ p
      · -- The first item stands before the word, which is found in the rest.
        obtain ⟨p₁, p₂, rfl, hp₁⟩ := List.eq_append_cons_of_mem hp
        obtain ⟨-, hrest⟩ := append_inj_of_first hp₁ hitem
          (b := p₂ ++ (w ++ [s]) ++ q) (by simpa using hpq)
        obtain ⟨found, hfound, hsuffix⟩ :=
          ih (fun item h => hitems item (List.mem_cons_of_mem _ h)) ⟨p₂, q, hrest⟩
        exact ⟨found, List.mem_cons_of_mem _ hfound, hsuffix⟩
      · obtain ⟨heq, -⟩ := append_inj_of_first (a := p ++ w) (b := q)
          (by simp [hp, hw]) hitem (by simpa using hpq)
        exact ⟨item, List.mem_cons_self, p, heq⟩

/-- An item that is not the last one is found. -/
theorem infix_intercalate (before : List (List α)) (item next : List α) (after : List (List α)) :
    item ++ [s] <:+: List.intercalate [s] (before ++ item :: next :: after) := by
  induction before with
  | nil =>
    rw [List.nil_append, List.intercalate_cons_cons]
    exact (List.prefix_append _ _).isInfix
  | cons a before ih =>
    rw [List.cons_append, List.intercalate_cons_of_ne_nil (by simp)]
    exact ih.trans (List.suffix_append _ _).isInfix

end Separated
