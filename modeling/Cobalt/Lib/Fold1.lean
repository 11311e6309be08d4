import Mathlib.Algebra.Order.Ring.Int
import Mathlib.Data.List.Induction
import Mathlib.Data.List.Perm.Basic

/-!
# Aggregating a list that may be empty

The aggregate of the values of a list under a binary operation without a neutral element, such as
the minimum: there is none of the empty list.

## Main definitions

* `Fold1.fold1`: the aggregate.

## Main results

* `Fold1.fold1_concat`: one more value.
* `Fold1.fold1_perm`: the order of the values does not matter.
* `Fold1.fold1_flatten`: an aggregate of aggregates.
-/

namespace Fold1

variable {α : Type} {op : α → α → α}

/-- The aggregate of the values of a list, `none` when there are none. -/
def fold1 (op : α → α → α) : List α → Option α
  | [] => none
  | a :: l => some (l.foldl op a)

@[simp] theorem fold1_nil : fold1 op [] = none := rfl

/-- One more value. -/
theorem fold1_concat (l : List α) (v : α) :
    fold1 op (l ++ [v]) = some ((fold1 op l).elim v (op · v)) := by
  cases l with
  | nil => rfl
  | cons a l => simp [fold1]

variable [Std.Associative op]

/-- The aggregates of two lists are merged. -/
theorem fold1_append (l l' : List α) :
    fold1 op (l ++ l') = Option.merge op (fold1 op l) (fold1 op l') := by
  induction l' using List.reverseRecOn with
  | nil => rw [List.append_nil, fold1_nil, Option.merge_none_right]
  | append_singleton l' v ih =>
    rw [← List.append_assoc, fold1_concat, fold1_concat, ih]
    cases fold1 op l with
    | none => cases fold1 op l' <;> rfl
    | some a =>
      cases fold1 op l' with
      | none => rfl
      | some b =>
        have hassoc : op (op a b) v = op a (op b v) := Std.Associative.assoc a b v
        simp [hassoc]

/-- The lists of a list can be aggregated one by one. -/
theorem fold1_flatten (ls : List (List α)) :
    fold1 op ls.flatten = fold1 op (ls.filterMap (fold1 op)) := by
  induction ls with
  | nil => rfl
  | cons l ls ih =>
    rw [List.flatten_cons, fold1_append, ih, List.filterMap_cons]
    cases hl : fold1 op l with
    | none => simp
    | some a =>
      dsimp only
      rw [← List.singleton_append, fold1_append]
      rfl

/-- The order of the values does not matter. -/
theorem fold1_perm [Std.Commutative op] {l l' : List α} (h : l.Perm l') :
    fold1 op l = fold1 op l' := by
  induction h with
  | nil => rfl
  | cons a _ ih => rw [← List.singleton_append, fold1_append, ih, ← fold1_append]; rfl
  | swap a b l =>
    have hpair : fold1 op [b, a] = fold1 op [a, b] :=
      congrArg some (Std.Commutative.comm b a)
    calc fold1 op (b :: a :: l)
        = Option.merge op (fold1 op [b, a]) (fold1 op l) := fold1_append [b, a] l
      _ = Option.merge op (fold1 op [a, b]) (fold1 op l) := by rw [hpair]
      _ = fold1 op (a :: b :: l) := (fold1_append [a, b] l).symm
  | trans _ _ ih ih' => exact ih.trans ih'

end Fold1
