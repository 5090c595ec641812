/-
Answers given before all facts are known.

A `Truth` bounds a Boolean from above (`possible`) and from below (`definite`). Negation swaps the bounds; conjunction and
disjunction of lists act on each bound.
-/
import Mathlib.Tactic

namespace EtonifyCore.Core

open List

@[ext]
structure Truth where
  possible : Bool
  definite : Bool
  le : definite = true → possible = true

theorem any_congr_mem {α : Type*} {l : List α} {p q : α → Bool} (h : ∀ a ∈ l, p a = q a) : l.any p = l.any q := by
  rw [Bool.eq_iff_iff, any_eq_true, any_eq_true]
  exact exists_congr fun a => and_congr_right fun ha => by rw [h a ha]

theorem all_congr_mem {α : Type*} {l : List α} {p q : α → Bool} (h : ∀ a ∈ l, p a = q a) : l.all p = l.all q := by
  rw [Bool.eq_iff_iff, all_eq_true, all_eq_true]
  exact forall₂_congr fun a ha => by rw [h a ha]

namespace Truth

/-- an answer that may still be withdrawn when `pending` -/
def held (b pending : Bool) : Truth := ⟨b, b && !pending, by simp +contextual⟩

def ofBool (b : Bool) : Truth := ⟨b, b, id⟩

def neg (t : Truth) : Truth :=
  ⟨!t.definite, !t.possible, by
    intro h
    cases hd : t.definite
    · rfl
    · rw [t.le hd] at h; simp at h⟩

def xor (t : Truth) (invert : Bool) : Truth := if invert then t.neg else t

def all (ts : List Truth) : Truth :=
  ⟨ts.all possible, ts.all definite, by
    simp only [List.all_eq_true]
    exact fun h t ht => t.le (h t ht)⟩

def any (ts : List Truth) : Truth :=
  ⟨ts.any possible, ts.any definite, by
    simp only [List.any_eq_true]
    rintro ⟨t, ht, h⟩
    exact ⟨t, ht, t.le h⟩⟩

theorem ofBool_xor (b invert : Bool) : (ofBool b).xor invert = ofBool (invert ^^ b) := by
  cases invert <;> cases b <;> rfl

variable {α : Type*} {l : List α} {t : α → Truth} {b : α → Bool} (h : ∀ a ∈ l, t a = ofBool (b a))

include h

theorem all_ofBool : all (l.map t) = ofBool (l.all b) := by
  rw [map_congr_left h]
  ext1 <;> simp [all, ofBool, all_map] <;> rfl

theorem any_ofBool : any (l.map t) = ofBool (l.any b) := by
  rw [map_congr_left h]
  ext1 <;> simp [any, ofBool, any_map] <;> rfl

end Truth

end EtonifyCore.Core
