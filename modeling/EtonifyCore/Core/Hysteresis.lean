/-
The best of a list of costs, where a choice is given up only for one that is cheaper by more than a tolerance.
-/
import Mathlib.Order.Nat
import Mathlib.Tactic.Common

namespace EtonifyCore.Core.Hysteresis

variable {α : Type*} (tolerance : ℕ)

def better (current : Option (α × ℕ)) (next : α × ℕ) : Option (α × ℕ) :=
  match current with
  | none => some next
  | some choice => if next.2 + tolerance < choice.2 then some next else some choice

def best (start : Option (α × ℕ)) (choices : List (α × ℕ)) : Option (α × ℕ) := choices.foldl (better tolerance) start

section

variable (start : Option (α × ℕ))

@[simp] theorem best_nil : best tolerance start [] = start := rfl

@[simp] theorem best_cons (next : α × ℕ) (choices : List (α × ℕ)) :
    best tolerance start (next :: choices) = best tolerance (better tolerance start next) choices := rfl

theorem better_spec (next : α × ℕ) :
    ∃ choice, better tolerance start next = some choice ∧ (start = some choice ∨ next = choice) ∧
      choice.2 ≤ next.2 + tolerance ∧ ∀ old, start = some old → choice.2 ≤ old.2 := by
  cases start with
  | none => exact ⟨next, rfl, .inr rfl, Nat.le_add_right _ _, nofun⟩
  | some old =>
    by_cases hless : next.2 + tolerance < old.2
    · refine ⟨next, if_pos hless, .inr rfl, Nat.le_add_right _ _, ?_⟩
      rintro _ ⟨⟩
      omega
    · refine ⟨old, if_neg hless, .inl rfl, by omega, ?_⟩
      rintro _ ⟨⟩
      exact le_rfl

end

variable {start : Option (α × ℕ)} {choices : List (α × ℕ)}

theorem best_isSome (h : start.isSome = true ∨ choices ≠ []) :
    ∃ choice, best tolerance start choices = some choice := by
  induction choices generalizing start with
  | nil =>
    obtain ⟨choice, hchoice⟩ := Option.isSome_iff_exists.1 (h.resolve_right fun hne => hne rfl)
    exact ⟨choice, hchoice⟩
  | cons next choices ih =>
    obtain ⟨choice, hchoice, -⟩ := better_spec tolerance start next
    rw [best_cons, hchoice]
    exact ih (.inl rfl)

theorem best_mem {choice : α × ℕ}
    (h : best tolerance start choices = some choice) : start = some choice ∨ choice ∈ choices := by
  induction choices generalizing start with
  | nil => exact .inl h
  | cons next choices ih =>
    obtain ⟨first, hfirst, hof, -⟩ := better_spec tolerance start next
    rw [best_cons, hfirst] at h
    rcases ih h with heq | hmem
    · obtain rfl := Option.some.inj heq
      rcases hof with hstart | hnext
      · exact .inl hstart
      · exact .inr (hnext ▸ List.mem_cons_self)
    · exact .inr (List.mem_cons_of_mem _ hmem)

theorem best_le_start {choice old : α × ℕ}
    (h : best tolerance start choices = some choice) (hstart : start = some old) : choice.2 ≤ old.2 := by
  induction choices generalizing start old with
  | nil =>
    obtain rfl := Option.some.inj (hstart.symm.trans h)
    exact le_rfl
  | cons next choices ih =>
    obtain ⟨first, hfirst, -, -, hold⟩ := better_spec tolerance start next
    rw [best_cons] at h
    exact (ih h hfirst).trans (hold old hstart)

theorem best_le {choice : α × ℕ}
    (h : best tolerance start choices = some choice) : ∀ other ∈ choices, choice.2 ≤ other.2 + tolerance := by
  induction choices generalizing start with
  | nil => nofun
  | cons next choices ih =>
    intro other hother
    rw [best_cons] at h
    rcases List.mem_cons.1 hother with rfl | hother
    · obtain ⟨first, hfirst, -, hle, -⟩ := better_spec tolerance start other
      exact (best_le_start tolerance h hfirst).trans hle
    · exact ih h other hother

theorem best_stays {start : α × ℕ} (h : ∀ other ∈ choices, start.2 ≤ other.2 + tolerance) :
    best tolerance (some start) choices = some start := by
  induction choices with
  | nil => rfl
  | cons next choices ih =>
    have hstay : better tolerance (some start) next = some start := if_neg (Nat.not_lt.2 (h next List.mem_cons_self))
    rw [best_cons, hstay]
    exact ih fun other hother => h other (List.mem_cons_of_mem _ hother)

end EtonifyCore.Core.Hysteresis
