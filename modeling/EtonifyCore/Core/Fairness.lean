/-
Progress of programs whose parts take turns.

A schedule is an infinite sequence of operations; it is fair if every turn comes again and again. `reaches` is the rule by
which a goal is shown to come true under every fair schedule: a relation `way s k a` says that the goal is on its way in `s`,
that turn `k` is the next to help, and that `a` bounds how far it is.
-/
import Mathlib.Order.WellFounded
import Mathlib.Tactic

namespace EtonifyCore.Core

variable {σ ω κ α : Type*}

/-- every turn comes again and again -/
def Fair (takes : κ → ω → Prop) (sched : ℕ → ω) : Prop := ∀ k n, ∃ m ≥ n, takes k (sched m)

/-- the state after the first `n` operations of a schedule -/
def after (step : σ → ω → σ) (s : σ) (sched : ℕ → ω) (n : ℕ) : σ := ((List.range n).map sched).foldl step s

variable (step : σ → ω → σ) (s : σ) (sched : ℕ → ω)

@[simp] theorem after_zero : after step s sched 0 = s := rfl

theorem after_succ (n : ℕ) : after step s sched (n + 1) = step (after step s sched n) (sched n) := by
  simp [after, List.range_succ]

variable {step s sched} {takes : κ → ω → Prop} {goal : σ → Prop} {way : σ → κ → α → Prop}

section

variable [Preorder α]

/-- what a step does while the goal is on its way: it gets there, it comes nearer, or it leaves the way as it is, which the
turn that helps does not -/
def Advances (goal : σ → Prop) (way : σ → κ → α → Prop) (s' : σ) (k : κ) (a : α) (helps : Prop) : Prop :=
  goal s' ∨ (∃ k' b, b < a ∧ way s' k' b) ∨ way s' k a ∧ ¬ helps

variable (hstep : ∀ s op k a, way s k a → Advances goal way (step s op) k a (takes k op))

include hstep in
/-- until the next turn of `k` the goal is reached, or nearer, or still as far -/
theorem way_until {k : κ} {a : α} {n : ℕ} (hway : way (after step s sched n) k a) (d : ℕ) :
    (∃ m ≥ n, goal (after step s sched m)) ∨ (∃ m ≥ n, ∃ k' b, b < a ∧ way (after step s sched m) k' b) ∨
      way (after step s sched (n + d)) k a := by
  induction d with
  | zero => exact .inr (.inr hway)
  | succ d ih =>
    rcases ih with hgoal | hnear | hsame
    · exact .inl hgoal
    · exact .inr (.inl hnear)
    · have hnext := hstep _ (sched (n + d)) k a hsame
      rw [← after_succ step s sched] at hnext
      rcases hnext with hgoal | ⟨k', b, hb, hway'⟩ | ⟨hway', -⟩
      · exact .inl ⟨n + d + 1, by omega, hgoal⟩
      · exact .inr (.inl ⟨n + d + 1, by omega, k', b, hb, hway'⟩)
      · exact .inr (.inr hway')

include hstep in
/-- **Progress under fairness**: a goal that is on its way is reached. -/
theorem Fair.reaches [WellFoundedLT α] (hfair : Fair takes sched) {k : κ} {a : α} {n : ℕ}
    (hway : way (after step s sched n) k a) : ∃ m ≥ n, goal (after step s sched m) := by
  induction a using WellFoundedLT.induction generalizing k n with
  | ind a ih =>
    have hnearer : (∃ m ≥ n, ∃ k' b, b < a ∧ way (after step s sched m) k' b) → ∃ m ≥ n, goal (after step s sched m) := by
      rintro ⟨m, hm, k', b, hb, hway'⟩
      obtain ⟨m', hm', hgoal⟩ := ih b hb hway'
      exact ⟨m', hm.trans hm', hgoal⟩
    obtain ⟨m, hm, hturn⟩ := hfair k n
    obtain ⟨d, rfl⟩ := Nat.exists_eq_add_of_le hm
    rcases way_until hstep hway d with hgoal | hnear | hsame
    · exact hgoal
    · exact hnearer hnear
    · have hnext := hstep _ (sched (n + d)) k a hsame
      rw [← after_succ step s sched] at hnext
      rcases hnext with hgoal | ⟨k', b, hb, hway'⟩ | ⟨-, hidle⟩
      · exact ⟨n + d + 1, by omega, hgoal⟩
      · exact hnearer ⟨n + d + 1, by omega, k', b, hb, hway'⟩
      · exact absurd hturn hidle

end

end EtonifyCore.Core
