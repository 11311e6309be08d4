import Mathlib.Algebra.Order.Ring.Int
import Mathlib.Data.List.Basic

/-!
# Loops that stop at the first failure

A loop whose body returns a status and a new state is run over a list until a body returns a
status other than the one that means success. The state reached by the failing body is kept: this
is a C++ loop with `if (status != kOK) return status;` in its body.

## Main definitions

* `Loop.runAll`: the loop.
* `Loop.Local`: the status, the outputs and the next view of a body depend on a view of the state.

## Main results

* `Loop.runAll_rel`: a reflexive and transitive relation kept by every body relates the state
  before the loop to the state after it.
* `Loop.runAll_view`: a loop whose bodies agree, on a view of the state, with those of another loop.
* `Loop.runAll_ok_mem`: in a loop that succeeds, every body was run and succeeded.
* `Loop.runAll_ok_iff`: when a loop succeeds.
* `Loop.runAll_outputs`: a loop whose bodies cannot fail, each of which appends outputs that no
  earlier body influences, appends the concatenation of these outputs.
* `Loop.Local.runAll`: a loop of bodies that read and write one part of the state only does so
  too.
-/

namespace Loop

variable {α σ E O D : Type} [DecidableEq E]

/-- Runs `f` on the elements of a list in order, up to the first result other than `ok`. -/
def runAll (ok : E) (f : α → σ → E × σ) : List α → σ → E × σ
  | [], s => (ok, s)
  | a :: l, s => if (f a s).1 = ok then runAll ok f l (f a s).2 else f a s

variable {ok : E} {f g : α → σ → E × σ} {l : List α} {R : σ → σ → Prop}

@[simp] theorem runAll_nil (s : σ) : runAll ok f [] s = (ok, s) := rfl

theorem runAll_cons_of_ok {a : α} {s : σ} (h : (f a s).1 = ok) :
    runAll ok f (a :: l) s = runAll ok f l (f a s).2 := by
  simp only [runAll, h, ↓reduceIte]

theorem runAll_cons_of_ne {a : α} {s : σ} (h : (f a s).1 ≠ ok) :
    runAll ok f (a :: l) s = f a s := by
  simp only [runAll, h, ↓reduceIte]

theorem runAll_append (l' : List α) (s : σ) :
    runAll ok f (l ++ l') s =
      if (runAll ok f l s).1 = ok then runAll ok f l' (runAll ok f l s).2 else runAll ok f l s := by
  induction l generalizing s with
  | nil => simp
  | cons a l ih =>
    by_cases h : (f a s).1 = ok
    · rw [List.cons_append, runAll_cons_of_ok h, runAll_cons_of_ok h, ih]
    · rw [List.cons_append, runAll_cons_of_ne h, runAll_cons_of_ne h]
      simp only [h, ↓reduceIte]

/-- A loop that succeeds, cut at one of its elements. -/
theorem runAll_append_cons_of_ok {a : α} {l' : List α} {s : σ}
    (hok : (runAll ok f (l ++ a :: l') s).1 = ok) :
    (runAll ok f l s).1 = ok ∧ (f a (runAll ok f l s).2).1 = ok ∧
      runAll ok f (l ++ a :: l') s = runAll ok f l' (f a (runAll ok f l s).2).2 := by
  rw [runAll_append] at hok ⊢
  by_cases hl : (runAll ok f l s).1 = ok
  · rw [if_pos hl] at hok ⊢
    by_cases ha : (f a (runAll ok f l s).2).1 = ok
    · exact ⟨hl, ha, runAll_cons_of_ok ha⟩
    · rw [runAll_cons_of_ne ha] at hok
      exact absurd hok ha
  · rw [if_neg hl] at hok
    exact absurd hok hl

/-- A loop of loops over lists is one loop over the concatenation of the lists. -/
theorem runAll_flatMap {β : Type} (g : β → List α) (l : List β) (s : σ) :
    runAll ok f (l.flatMap g) s = runAll ok (fun b => runAll ok f (g b)) l s := by
  induction l generalizing s with
  | nil => rfl
  | cons b l ih =>
    rw [List.flatMap_cons, runAll_append, runAll]
    split_ifs with h
    · exact ih _
    · rfl

theorem runAll_map {β : Type} (g : β → α) (l : List β) (s : σ) :
    runAll ok f (l.map g) s = runAll ok (fun b => f (g b)) l s := by
  induction l generalizing s with
  | nil => rfl
  | cons b l ih => simp only [List.map_cons, runAll, ih]

/-- A loop whose bodies all succeed does. -/
theorem runAll_ok (h : ∀ a ∈ l, ∀ s, (f a s).1 = ok) (s : σ) : (runAll ok f l s).1 = ok := by
  induction l generalizing s with
  | nil => rfl
  | cons a l ih =>
    rw [runAll_cons_of_ok (h a List.mem_cons_self s)]
    exact ih (fun b hb => h b (List.mem_cons_of_mem a hb)) _

/-- Loops with bodies that agree on the elements of the list agree. -/
theorem runAll_congr (h : ∀ a ∈ l, ∀ s, f a s = g a s) (s : σ) :
    runAll ok f l s = runAll ok g l s := by
  induction l generalizing s with
  | nil => rfl
  | cons a l ih =>
    simp only [runAll, h a List.mem_cons_self s,
      ih fun b hb => h b (List.mem_cons_of_mem a hb)]

/-- A loop on states of which only a view is looked at, where the bodies agree with those of a loop
on the views. -/
theorem runAll_view {τ : Type} {view : σ → τ} {h : α → τ → E × τ}
    (hbody : ∀ a ∈ l, ∀ s, ((f a s).1, view (f a s).2) = h a (view s)) (s : σ) :
    ((runAll ok f l s).1, view (runAll ok f l s).2) = runAll ok h l (view s) := by
  induction l generalizing s with
  | nil => rfl
  | cons a l ih =>
    have hfirst := hbody a List.mem_cons_self s
    rw [runAll, runAll, ← hfirst]
    split_ifs with hok
    · exact ih (fun b hb => hbody b (List.mem_cons_of_mem a hb)) _
    · rfl

/-- A relation kept by every body holds between the states before and after the loop. -/
theorem runAll_rel (hrefl : ∀ s, R s s) (htrans : ∀ s t u, R s t → R t u → R s u)
    (h : ∀ a ∈ l, ∀ s, R s (f a s).2) (s : σ) : R s (runAll ok f l s).2 := by
  induction l generalizing s with
  | nil => exact hrefl s
  | cons a l ih =>
    have hstep := h a List.mem_cons_self s
    by_cases hok : (f a s).1 = ok
    · rw [runAll_cons_of_ok hok]
      exact htrans _ _ _ hstep (ih (fun b hb => h b (List.mem_cons_of_mem a hb)) _)
    · rwa [runAll_cons_of_ne hok]

/-- In a loop that succeeds every body was run, from a state related to the first one, and
succeeded, in a state related to the last one. -/
theorem runAll_ok_mem (hrefl : ∀ s, R s s) (htrans : ∀ s t u, R s t → R t u → R s u)
    (h : ∀ a ∈ l, ∀ s, R s (f a s).2) {s : σ} (hok : (runAll ok f l s).1 = ok) {a : α}
    (ha : a ∈ l) :
    ∃ s₁, R s s₁ ∧ (f a s₁).1 = ok ∧ R (f a s₁).2 (runAll ok f l s).2 := by
  induction l generalizing s with
  | nil => exact absurd ha List.not_mem_nil
  | cons b l ih =>
    have hrest := fun c hc => h c (List.mem_cons_of_mem b hc)
    by_cases hb : (f b s).1 = ok
    · rw [runAll_cons_of_ok hb] at hok ⊢
      rcases List.mem_cons.mp ha with rfl | ha
      · exact ⟨s, hrefl s, hb, runAll_rel hrefl htrans hrest _⟩
      · obtain ⟨s₁, h₁, h₂, h₃⟩ := ih hrest hok ha
        exact ⟨s₁, htrans _ _ _ (h b List.mem_cons_self s) h₁, h₂, h₃⟩
    · rw [runAll_cons_of_ne hb] at hok
      exact absurd hok hb

/-- **When a loop succeeds**: every body does, where what it depends on holds of every state. -/
theorem runAll_ok_iff {Inv : σ → Prop} {P : α → Prop}
    (hbody : ∀ a ∈ l, ∀ s, Inv s → ((f a s).1 = ok ↔ P a) ∧ Inv (f a s).2) {s : σ} (hs : Inv s) :
    (runAll ok f l s).1 = ok ↔ ∀ a ∈ l, P a := by
  induction l generalizing s with
  | nil => simp
  | cons a l ih =>
    obtain ⟨hfirst, hnext⟩ := hbody a List.mem_cons_self s hs
    have hrest := ih (fun b hb => hbody b (List.mem_cons_of_mem a hb)) hnext
    rw [List.forall_mem_cons]
    by_cases ha : (f a s).1 = ok
    · rw [runAll_cons_of_ok ha, hrest]
      exact (and_iff_right (hfirst.mp ha)).symm
    · rw [runAll_cons_of_ne ha]
      exact iff_of_false ha fun h => ha (hfirst.mpr h.1)

/-- If no body fails, each appends outputs that depend on a view of the state, and no body changes
the view of a later one, the loop appends what each body appends from the first state. -/
theorem runAll_outputs (out : σ → List O) (view : α → σ → D) (c : α → D → List O)
    (hok : ∀ a ∈ l, ∀ s, (f a s).1 = ok)
    (hout : ∀ a ∈ l, ∀ s, out (f a s).2 = out s ++ c a (view a s))
    (hframe : l.Pairwise fun a b => ∀ s, view b (f a s).2 = view b s) (s : σ) :
    out (runAll ok f l s).2 = out s ++ l.flatMap fun a => c a (view a s) := by
  induction l generalizing s with
  | nil => simp
  | cons a l ih =>
    obtain ⟨ha, hl⟩ := List.pairwise_cons.mp hframe
    have hrest := ih (fun b hb => hok b (List.mem_cons_of_mem a hb))
      (fun b hb => hout b (List.mem_cons_of_mem a hb)) hl (f a s).2
    rw [runAll_cons_of_ok (hok a List.mem_cons_self s)]
    have hview : (l.flatMap fun b => c b (view b (f a s).2)) =
        l.flatMap fun b => c b (view b s) :=
      List.flatMap_congr fun b hb => by rw [ha b hb s]
    rw [hrest, hout a List.mem_cons_self s, hview, List.flatMap_cons, List.append_assoc]

/-! ### Bodies that depend on a part of the state -/

/-- What `f` returns, what it appends to the outputs and what it leaves in the view of the state
depend on the view alone. -/
def Local (view : σ → D) (out : σ → List O) (f : σ → E × σ) : Prop :=
  ∀ s t, view s = view t → (f s).1 = (f t).1 ∧ view (f s).2 = view (f t).2 ∧
    ∃ new, out (f s).2 = out s ++ new ∧ out (f t).2 = out t ++ new

namespace Local

variable {view : σ → D} {out : σ → List O} {h : σ → E × σ}

omit [DecidableEq E] in
/-- The outputs that a local body appends are the same from two states with the same view. -/
theorem drop_eq (hf : Local view out h) {s t : σ} (hview : view s = view t) :
    (out (h s).2).drop (out s).length = (out (h t).2).drop (out t).length := by
  obtain ⟨_, _, new, hs, ht⟩ := hf s t hview
  rw [hs, ht, List.drop_left, List.drop_left]

omit [DecidableEq E] in
theorem append_drop (hf : Local view out h) (s : σ) :
    out (h s).2 = out s ++ (out (h s).2).drop (out s).length := by
  obtain ⟨_, _, new, hs, _⟩ := hf s s rfl
  rw [hs, List.drop_left]

omit [DecidableEq E] in
/-- A body that agrees, on any two states with the same view, with some local body. -/
theorem of_exists (hh : ∀ s t, view s = view t →
    ∃ g, Local view out g ∧ h s = g s ∧ h t = g t) : Local view out h := by
  intro s t hview
  obtain ⟨g, hg, hs, ht⟩ := hh s t hview
  rw [hs, ht]
  exact hg s t hview

/-- One step and, if it succeeds, a second one. -/
theorem ite_ok {g : σ → E × σ} (hh : Local view out h) (hg : Local view out g) :
    Local view out fun s => if (h s).1 = ok then g (h s).2 else h s := by
  intro s t hview
  obtain ⟨hst, hview', new, hs, ht⟩ := hh s t hview
  dsimp only
  rw [hst]
  split_ifs
  · obtain ⟨hst', hview'', new', hs', ht'⟩ := hg _ _ hview'
    exact ⟨hst', hview'', new ++ new', by rw [hs', hs, List.append_assoc],
      by rw [ht', ht, List.append_assoc]⟩
  · exact ⟨hst, hview', new, hs, ht⟩

theorem runAll (hf : ∀ a ∈ l, Local view out (f a)) : Local view out (Loop.runAll ok f l) := by
  induction l with
  | nil => exact fun s t hview => ⟨rfl, hview, [], by simp⟩
  | cons a l ih =>
    exact ite_ok (hf a List.mem_cons_self) (ih fun b hb => hf b (List.mem_cons_of_mem a hb))

end Local

end Loop
