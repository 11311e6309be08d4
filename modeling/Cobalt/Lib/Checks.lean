import Mathlib.Algebra.Order.Ring.Int
import Mathlib.Data.List.Forall2

/-!
# Functions that return at the first error

A function that goes through a sequence of checks and returns the error of the first one that fails
is a computation in `Except`. The lemmas say when such a computation succeeds.

## Main definitions

* `Checks.require`: a condition, with the error where it does not hold.
* `Checks.get`: a value that may be missing, with the error where it is.
* `Checks.Fresh`: what a loop that collects the values it has seen finds not to be repeated.

## Main results

* `Checks.bind_eq_ok`, `Checks.forM_eq_ok`: a sequence and a loop of checks succeed if and only if
  every check does.
-/

namespace Checks

variable {E α β : Type} {error : E}

/-- The condition `p`, or the error. -/
def require (error : E) (p : Prop) [Decidable p] : Except E Unit :=
  if p then .ok () else .error error

/-- The value, or the error where there is none. -/
def get (error : E) : Option α → Except E α
  | some a => .ok a
  | none => .error error

@[simp] theorem require_eq_ok {p : Prop} [Decidable p] {u : Unit} :
    require error p = .ok u ↔ p := by
  rw [require]
  split_ifs with hp <;> simp [hp]

/-- An error under a condition. -/
theorem ite_error_eq_ok {p : Prop} [Decidable p] :
    (if p then (.error error : Except E Unit) else .ok ()) = .ok () ↔ ¬ p := by
  split_ifs with hp <;> simp [hp]

@[simp] theorem get_eq_ok {o : Option α} {a : α} : get error o = .ok a ↔ o = some a := by
  cases o <;> simp [get]

@[simp] theorem bind_eq_ok {x : Except E α} {f : α → Except E β} {b : β} :
    (x >>= f) = .ok b ↔ ∃ a, x = .ok a ∧ f a = .ok b := by
  cases x <;> simp [bind, Except.bind]

theorem ok_bind {a : α} {f : α → Except E β} : (Except.ok a >>= f) = f a :=
  rfl

/-- A check, and then what follows it. -/
theorem check_bind_eq_ok {check : Except E Unit} {f : Unit → Except E β} {b : β} :
    (check >>= f) = .ok b ↔ check = .ok () ∧ f () = .ok b := by
  cases check <;> simp [bind, Except.bind]

@[simp] theorem pure_eq_ok {a b : α} : (pure a : Except E α) = .ok b ↔ a = b := by
  simp [pure, Except.pure]

/-- A loop that returns the first error returns none if and only if no body does. -/
theorem forM_eq_ok {body : α → Except E Unit} {l : List α} :
    forM l body = .ok () ↔ ∀ a ∈ l, body a = .ok () := by
  induction l with
  | nil => simp
  | cons a l ih => rw [List.forM_cons, check_bind_eq_ok, List.forall_mem_cons, ih]

/-- A loop that returns a value for each element, or the first error. -/
theorem mapM_eq_ok_iff {f : α → Except E β} {l : List α} {l' : List β} :
    l.mapM f = .ok l' ↔ List.Forall₂ (fun a b => f a = .ok b) l l' := by
  induction l generalizing l' with
  | nil => rw [List.mapM_nil, pure_eq_ok, List.forall₂_nil_left_iff, eq_comm]
  | cons a l ih =>
    rw [List.mapM_cons, bind_eq_ok, List.forall₂_cons_left_iff]
    refine exists_congr fun b => ?_
    rw [bind_eq_ok]
    constructor
    · rintro ⟨hb, l', hl', heq⟩
      exact ⟨l', hb, ih.mp hl', (pure_eq_ok.mp heq).symm⟩
    · rintro ⟨l', hb, hl', heq⟩
      exact ⟨hb, l', ih.mpr hl', pure_eq_ok.mpr heq.symm⟩

/-- The values of the list are distinct, and none of them was seen before. -/
def Fresh (seen l : List α) : Prop :=
  l.Nodup ∧ ∀ a ∈ l, a ∉ seen

theorem fresh_nil (seen : List α) : Fresh seen [] :=
  ⟨List.nodup_nil, fun _ ha => absurd ha List.not_mem_nil⟩

/-- One turn of the loop. -/
theorem fresh_cons {seen l : List α} {a : α} :
    Fresh seen (a :: l) ↔ a ∉ seen ∧ Fresh (a :: seen) l := by
  rw [Fresh, Fresh, List.nodup_cons, List.forall_mem_cons]
  simp only [List.mem_cons, not_or]
  constructor
  · rintro ⟨⟨hnotMem, hnodup⟩, ha, hl⟩
    exact ⟨ha, hnodup, fun b hb => ⟨fun heq => hnotMem (heq ▸ hb), hl b hb⟩⟩
  · rintro ⟨ha, hnodup, hl⟩
    exact ⟨⟨fun hmem => (hl a hmem).1 rfl, hnodup⟩, ha, fun b hb => (hl b hb).2⟩

/-! ### Lists that are read entry by entry -/

variable {R : α → β → Prop}

/-- Every value that was read comes from an entry. -/
theorem exists_mem_left {l : List α} {l' : List β} (h : List.Forall₂ R l l') {b : β} (hb : b ∈ l') :
    ∃ a ∈ l, R a b := by
  induction h with
  | nil => exact absurd hb List.not_mem_nil
  | @cons a b' l l' hab _ ih =>
    rcases List.mem_cons.mp hb with rfl | hb
    · exact ⟨a, List.mem_cons_self, hab⟩
    · obtain ⟨a', ha', hR⟩ := ih hb
      exact ⟨a', List.mem_cons_of_mem a ha', hR⟩

/-- Every entry was read. -/
theorem exists_mem_right {l : List α} {l' : List β} (h : List.Forall₂ R l l') {a : α} (ha : a ∈ l) :
    ∃ b ∈ l', R a b :=
  exists_mem_left (R := fun b a => R a b) (List.Forall₂.flip h) ha

end Checks
