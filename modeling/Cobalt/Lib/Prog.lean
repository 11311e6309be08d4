import Cobalt.Lib.Loop

/-!
# Programs that can be interrupted

A program is a tree of operations: it is done, or it asks for an operation and goes on with the
result. Between two operations other parties can act. A program that is executed alone, with a
handler for its operations, is a function on the state.

## Main definitions

* `Prog`, `Prog.bind`, `Prog.exec`.
* `Prog.runAll`, `Prog.runAllWith`: loops that stop at the first failure, without and with a local
  state.
* `Prog.Asks P`: every operation that the program can ask for satisfies `P`.

## Main results

* `Prog.exec_bind`, `Prog.exec_runAll`, `Prog.exec_runAllWith`: executing composed programs.
* `Prog.Asks.bind`, `Prog.Asks.runAll`, `Prog.Asks.runAllWith`: operations of composed programs.
-/

/-- A program with results in `A`, whose operation `op` has results in `Res op`. -/
inductive Prog (Op : Type) (Res : Op → Type) (A : Type) : Type
  | done (a : A)
  | ask (op : Op) (next : Res op → Prog Op Res A)

namespace Prog

variable {Op : Type} {Res : Op → Type} {A B S E α σ : Type} [DecidableEq E]

/-- One program after another. -/
def bind : Prog Op Res A → (A → Prog Op Res B) → Prog Op Res B
  | done a, f => f a
  | ask op next, f => ask op fun r => (next r).bind f

/-- Executes a program without interruption. -/
def exec (handle : (op : Op) → S → Res op × S) : Prog Op Res A → S → A × S
  | done a, s => (a, s)
  | ask op next, s => exec handle (next (handle op s).1) (handle op s).2

/-- Runs the programs for the elements of a list in order, up to the first result other than
`ok`. -/
def runAll (ok : E) (f : α → Prog Op Res E) : List α → Prog Op Res E
  | [] => done ok
  | a :: l => (f a).bind fun e => if e = ok then runAll ok f l else done e

/-- The same with a local state. -/
def runAllWith (ok : E) (f : α → σ → Prog Op Res (E × σ)) : List α → σ → Prog Op Res (E × σ)
  | [], x => done (ok, x)
  | a :: l, x => (f a x).bind fun r => if r.1 = ok then runAllWith ok f l r.2 else done r

/-! ### Execution -/

section Exec

variable {handle : (op : Op) → S → Res op × S}

theorem exec_bind (p : Prog Op Res A) (f : A → Prog Op Res B) (s : S) :
    exec handle (p.bind f) s = exec handle (f (exec handle p s).1) (exec handle p s).2 := by
  induction p generalizing s with
  | done a => rfl
  | ask op next ih => exact ih _ _

/-- A loop of programs is executed as the loop of their executions. -/
theorem exec_runAll {ok : E} {f : α → Prog Op Res E} {g : α → S → E × S} {l : List α}
    (h : ∀ a ∈ l, ∀ s, exec handle (f a) s = g a s) (s : S) :
    exec handle (runAll ok f l) s = Loop.runAll ok g l s := by
  induction l generalizing s with
  | nil => rfl
  | cons a l ih =>
    rw [runAll, exec_bind, h a List.mem_cons_self, Loop.runAll]
    split_ifs with hok
    · exact ih (fun b hb => h b (List.mem_cons_of_mem a hb)) _
    · rfl

/-- The same for loops with a local state. -/
theorem exec_runAllWith {ok : E} {f : α → σ → Prog Op Res (E × σ)} {g : α → σ × S → E × σ × S}
    {l : List α}
    (h : ∀ a ∈ l, ∀ x s, exec handle (f a x) s = (((g a (x, s)).1, (g a (x, s)).2.1), (g a (x, s)).2.2))
    (x : σ) (s : S) :
    exec handle (runAllWith ok f l x) s = (((Loop.runAll ok g l (x, s)).1,
      (Loop.runAll ok g l (x, s)).2.1), (Loop.runAll ok g l (x, s)).2.2) := by
  induction l generalizing x s with
  | nil => rfl
  | cons a l ih =>
    rw [runAllWith, exec_bind, h a List.mem_cons_self, Loop.runAll]
    dsimp only
    split_ifs with hok
    · exact ih (fun b hb => h b (List.mem_cons_of_mem a hb)) _ _
    · rfl

end Exec

/-! ### The operations of a program -/

/-- Every operation that the program can ask for satisfies `P`. -/
def Asks (P : Op → Prop) : Prog Op Res A → Prop
  | done _ => True
  | ask op next => P op ∧ ∀ r, (next r).Asks P

namespace Asks

variable {P : Op → Prop}

theorem bind {p : Prog Op Res A} {f : A → Prog Op Res B} (hp : p.Asks P)
    (hf : ∀ a, (f a).Asks P) : (p.bind f).Asks P := by
  induction p with
  | done a => exact hf a
  | ask op next ih => exact ⟨hp.1, fun r => ih r (hp.2 r)⟩

theorem runAll {ok : E} {f : α → Prog Op Res E} {l : List α} (h : ∀ a ∈ l, (f a).Asks P) :
    (Prog.runAll ok f l).Asks P := by
  induction l with
  | nil => trivial
  | cons a l ih =>
    refine (h a List.mem_cons_self).bind fun e => ?_
    split_ifs
    · exact ih fun b hb => h b (List.mem_cons_of_mem a hb)
    · trivial

theorem runAllWith {ok : E} {f : α → σ → Prog Op Res (E × σ)} {l : List α}
    (h : ∀ a ∈ l, ∀ x, (f a x).Asks P) (x : σ) : (Prog.runAllWith ok f l x).Asks P := by
  induction l generalizing x with
  | nil => trivial
  | cons a l ih =>
    refine (h a List.mem_cons_self x).bind fun r => ?_
    split_ifs
    · exact ih (fun b hb => h b (List.mem_cons_of_mem a hb)) _
    · trivial

end Asks

end Prog
