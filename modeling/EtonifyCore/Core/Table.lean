/-
Tables of records that are added and changed, never removed: the calls of a concurrent program, with what each of them
holds. An item that moves from one record to another leaves `Table.total f` as it is (`total_set`), so that "it is in exactly
one place" is an equation between sums.
-/
import Mathlib.Tactic

namespace EtonifyCore.Core

open Finset

/-- the records `0, …, size - 1` -/
structure Table (α : Type*) where
  size : ℕ
  get : ℕ → α

namespace Table

variable {α : Type*}

def empty [Inhabited α] : Table α := ⟨0, fun _ => default⟩

def push (t : Table α) (a : α) : Table α := ⟨t.size + 1, Function.update t.get t.size a⟩

def set (t : Table α) (i : ℕ) (a : α) : Table α := { t with get := Function.update t.get i a }

def Forall (t : Table α) (P : α → Prop) : Prop := ∀ i < t.size, P (t.get i)

def total (t : Table α) (f : α → ℕ) : ℕ := ∑ i ∈ Finset.range t.size, f (t.get i)

variable (t : Table α) (f : α → ℕ) {i j : ℕ} {a : α} {P : α → Prop}

@[simp] theorem size_empty [Inhabited α] : (empty : Table α).size = 0 := rfl

@[simp] theorem size_push (a : α) : (t.push a).size = t.size + 1 := rfl

@[simp] theorem size_set (i : ℕ) (a : α) : (t.set i a).size = t.size := rfl

@[simp] theorem get_push_size (a : α) : (t.push a).get t.size = a := by simp [push]

theorem get_push_of_ne (a : α) (h : i ≠ t.size) : (t.push a).get i = t.get i := Function.update_of_ne h _ _

theorem get_push (a : α) (h : i < t.size) : (t.push a).get i = t.get i := get_push_of_ne t a (Nat.ne_of_lt h)

@[simp] theorem get_set_self (i : ℕ) (a : α) : (t.set i a).get i = a := by simp [set]

theorem get_set_of_ne (a : α) (h : j ≠ i) : (t.set i a).get j = t.get j := Function.update_of_ne h _ _

@[simp] theorem set_set (i : ℕ) (a b : α) : (t.set i a).set i b = t.set i b := by simp [set]

theorem get_set_cases (hself : j = i → P a) (hother : j ≠ i → P (t.get j)) : P ((t.set i a).get j) := by
  by_cases hij : j = i
  · subst hij
    rw [get_set_self]
    exact hself rfl
  · rw [get_set_of_ne t a hij]
    exact hother hij

theorem get_set_imp (ha : P (t.get i) → P a) (hj : P (t.get j)) : P ((t.set i a).get j) :=
  get_set_cases t (fun hij => ha (hij ▸ hj)) (fun _ => hj)

theorem apply_get_set {β : Type*} (f : α → β) (h : f a = f (t.get i)) (j : ℕ) : f ((t.set i a).get j) = f (t.get j) :=
  get_set_cases t (P := fun k => f k = f (t.get j)) (fun hij => hij ▸ h) (fun _ => rfl)

theorem push_facts {t' : Table α} (h : t' = t.push a) :
    (∀ i < t.size, t'.get i = t.get i) ∧ t'.get t.size = a ∧ t.size < t'.size ∧
      ∀ i < t'.size, i < t.size ∨ i = t.size := by
  subst h
  exact ⟨fun i hi => get_push t a hi, get_push_size t a, Nat.lt_succ_self _, fun i hi => Nat.lt_succ_iff_lt_or_eq.1 hi⟩

theorem get_push_cases (hj : j < (t.push a).size) (hnew : j = t.size → P a) (hold : j < t.size → P (t.get j)) :
    P ((t.push a).get j) := by
  rcases Nat.lt_succ_iff_lt_or_eq.1 hj with hlt | rfl
  · rw [get_push t a hlt]
    exact hold hlt
  · rw [get_push_size]
    exact hnew rfl

theorem set_comm (a b : α) (h : i ≠ j) : (t.set i a).set j b = (t.set j b).set i a := by
  simp only [set, Function.update_comm h]

theorem forall_push (h : t.Forall P) (ha : P a) : (t.push a).Forall P :=
  fun i hi => get_push_cases t hi (fun _ => ha) (h i)

theorem forall_set (h : t.Forall P) (ha : P a) (i : ℕ) : (t.set i a).Forall P :=
  fun j hj => get_set_cases t (fun _ => ha) (fun _ => h j hj)

@[simp] theorem total_empty [Inhabited α] : (empty : Table α).total f = 0 := rfl

@[simp] theorem total_push (a : α) : (t.push a).total f = t.total f + f a := by
  rw [total, size_push, sum_range_succ, get_push_size]
  congr 1
  refine sum_congr rfl fun i hi => ?_
  rw [get_push t a (mem_range.1 hi)]

theorem total_set (a : α) (h : i < t.size) : (t.set i a).total f + f (t.get i) = t.total f + f a := by
  have hi : i ∈ range t.size := mem_range.2 h
  have hrest : ∑ j ∈ (range t.size).erase i, f ((t.set i a).get j) =
      ∑ j ∈ (range t.size).erase i, f (t.get j) :=
    sum_congr rfl fun j hj => by rw [get_set_of_ne t a (ne_of_mem_erase hj)]
  have hnew := sum_erase_add (range t.size) (fun j => f ((t.set i a).get j)) hi
  have hold := sum_erase_add (range t.size) (fun j => f (t.get j)) hi
  simp only [get_set_self] at hnew
  simp only [total, size_set]
  omega

theorem total_set_of_eq (h : f a = f (t.get i)) : (t.set i a).total f = t.total f := by
  refine sum_congr rfl fun j _ => ?_
  by_cases hij : j = i
  · subst hij
    rw [get_set_self, h]
  · rw [get_set_of_ne t a hij]

theorem le_total (h : i < t.size) : f (t.get i) ≤ t.total f :=
  single_le_sum (f := fun i => f (t.get i)) (fun _ _ => Nat.zero_le _) (mem_range.2 h)

theorem add_le_total (hi : i < t.size) (hj : j < t.size) (hne : i ≠ j) : f (t.get i) + f (t.get j) ≤ t.total f :=
  add_le_sum (f := fun i => f (t.get i)) (fun _ _ => Nat.zero_le _) (mem_range.2 hi) (mem_range.2 hj) hne

variable {f} in
theorem total_le_total {g : α → ℕ} (h : ∀ a, f a ≤ g a) : t.total f ≤ t.total g :=
  sum_le_sum fun i _ => h (t.get i)

theorem total_eq_zero (h : ∀ i < t.size, f (t.get i) = 0) : t.total f = 0 :=
  sum_eq_zero fun i hi => h i (mem_range.1 hi)

theorem exists_of_total_pos (h : 0 < t.total f) : ∃ i < t.size, 0 < f (t.get i) := by
  by_contra hno
  push Not at hno
  exact Nat.lt_irrefl 0 ((total_eq_zero t f fun i hi => Nat.le_zero.1 (hno i hi)) ▸ h)

end Table

end EtonifyCore.Core
