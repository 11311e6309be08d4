import Mathlib.Algebra.Order.Ring.Int
import Mathlib.Data.List.Nodup

/-!
# Watermarks

A producer emits items `(k, d)`, an occasion `d` of a key `k`, and keeps for every key a
*watermark*: the last occasion that is taken care of. `Sweep P m m' new` says that between the
watermarks `m` and `m'` the producer emitted exactly the items between them that are due
according to `P`, each once. Sweeps compose, so a producer made of loops, early exits and repeated
calls is described step by step. `Fresh m m' new` forgets what was due; it composes also when that
changes from call to call.

## Main definitions

* `Watermark.Sweep`, `Watermark.Fresh`.

## Main results

* `Watermark.Sweep.refl`, `Watermark.Sweep.trans`, `Watermark.Fresh.trans`: they compose.
* `Watermark.Sweep.emit`, `Watermark.Sweep.skip`: one watermark moves to an occasion that is
  emitted, or past occasions none of which is due.
* `Watermark.Sweep.mem_of_le`: everything due below a final watermark was emitted.
-/

namespace Watermark

variable {K : Type} {P : K → ℕ → Prop} {m m' m'' : K → ℕ} {a b : List (K × ℕ)}

/-- Between the watermarks `m` and `m'` the items `new` were emitted: the ones between the two
watermarks that are due, each once. -/
structure Sweep (P : K → ℕ → Prop) (m m' : K → ℕ) (new : List (K × ℕ)) : Prop where
  mono : ∀ k, m k ≤ m' k
  nodup : new.Nodup
  mem_iff : ∀ k d, (k, d) ∈ new ↔ P k d ∧ m k < d ∧ d ≤ m' k

namespace Sweep

theorem refl (P : K → ℕ → Prop) (m : K → ℕ) : Sweep P m m [] where
  mono _ := le_rfl
  nodup := List.nodup_nil
  mem_iff k d := by
    simp only [List.not_mem_nil, false_iff, not_and, not_le]
    exact fun _ h => h

/-- Sweeps compose: what the second one emits lies above the watermarks the first one left. -/
theorem trans (h₁ : Sweep P m m' a) (h₂ : Sweep P m' m'' b) : Sweep P m m'' (a ++ b) where
  mono k := (h₁.mono k).trans (h₂.mono k)
  nodup := by
    refine h₁.nodup.append h₂.nodup ?_
    rintro ⟨k, d⟩ ha hb
    have hle := ((h₁.mem_iff k d).mp ha).2.2
    have hlt := ((h₂.mem_iff k d).mp hb).2.1
    omega
  mem_iff k d := by
    have hm := h₁.mono k
    have hm' := h₂.mono k
    rw [List.mem_append, h₁.mem_iff, h₂.mem_iff]
    constructor
    · rintro (⟨hP, hlt, hle⟩ | ⟨hP, hlt, hle⟩)
      · exact ⟨hP, hlt, by omega⟩
      · exact ⟨hP, by omega, hle⟩
    · rintro ⟨hP, hlt, hle⟩
      rcases Nat.lt_or_ge (m' k) d with h | h
      · exact Or.inr ⟨hP, h, hle⟩
      · exact Or.inl ⟨hP, hlt, h⟩

/-- The watermark of `k` moves to `d`, which is emitted; no earlier occasion is due. -/
theorem emit [DecidableEq K] {k : K} {d : ℕ} (hlt : m k < d) (hP : P k d)
    (hskip : ∀ e, m k < e → e < d → ¬ P k e) (hm' : ∀ k', m' k' = if k' = k then d else m k') :
    Sweep P m m' [(k, d)] where
  mono k' := by
    rw [hm' k']
    split_ifs with h
    · exact h ▸ hlt.le
    · exact le_rfl
  nodup := List.nodup_singleton _
  mem_iff k' e := by
    rw [List.mem_singleton, Prod.mk.injEq, hm' k']
    constructor
    · rintro ⟨rfl, rfl⟩
      exact ⟨hP, hlt, by simp⟩
    · rintro ⟨hPe, hlte, hle⟩
      split_ifs at hle with h
      · subst h
        refine ⟨rfl, ?_⟩
        by_contra hne
        exact hskip e hlte (by omega) hPe
      · omega

/-- The watermark of `k` moves to `d`; no occasion up to `d` is due. -/
theorem skip [DecidableEq K] {k : K} {d : ℕ} (hle : m k ≤ d)
    (hskip : ∀ e, m k < e → e ≤ d → ¬ P k e) (hm' : ∀ k', m' k' = if k' = k then d else m k') :
    Sweep P m m' [] where
  mono k' := by
    rw [hm' k']
    split_ifs with h
    · exact h ▸ hle
    · exact le_rfl
  nodup := List.nodup_nil
  mem_iff k' e := by
    rw [hm' k']
    simp only [List.not_mem_nil, false_iff]
    rintro ⟨hPe, hlt, hle'⟩
    split_ifs at hle' with h
    · subst h
      exact hskip e hlt hle' hPe
    · omega

/-- Everything due below the final watermark and above the initial one was emitted. -/
theorem mem_of_le (h : Sweep P m m' a) {k : K} {d : ℕ} (hP : P k d) (hlt : m k < d)
    (hle : d ≤ m' k) : (k, d) ∈ a :=
  (h.mem_iff k d).mpr ⟨hP, hlt, hle⟩

end Sweep

/-- Between the watermarks `m` and `m'` the items `new` were emitted, each once and each above the
first watermark of its key and up to the second one. -/
structure Fresh (m m' : K → ℕ) (new : List (K × ℕ)) : Prop where
  mono : ∀ k, m k ≤ m' k
  nodup : new.Nodup
  bound : ∀ k d, (k, d) ∈ new → m k < d ∧ d ≤ m' k

/-- What a sweep emits is fresh, whatever is due. -/
theorem Sweep.fresh (h : Sweep P m m' a) : Fresh m m' a where
  mono := h.mono
  nodup := h.nodup
  bound k d hmem := ((h.mem_iff k d).mp hmem).2

namespace Fresh

theorem refl (m : K → ℕ) : Fresh m m [] where
  mono _ := le_rfl
  nodup := List.nodup_nil
  bound _ _ h := absurd h List.not_mem_nil

theorem trans (h₁ : Fresh m m' a) (h₂ : Fresh m' m'' b) : Fresh m m'' (a ++ b) where
  mono k := (h₁.mono k).trans (h₂.mono k)
  nodup := by
    refine h₁.nodup.append h₂.nodup ?_
    rintro ⟨k, d⟩ ha hb
    exact absurd ((h₁.bound k d ha).2) (not_le.mpr (h₂.bound k d hb).1)
  bound k d hmem := by
    rcases List.mem_append.mp hmem with ha | hb
    · exact ⟨(h₁.bound k d ha).1, (h₁.bound k d ha).2.trans (h₂.mono k)⟩
    · exact ⟨(h₁.mono k).trans_lt (h₂.bound k d hb).1, (h₂.bound k d hb).2⟩

end Fresh

end Watermark
