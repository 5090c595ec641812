/-
A text with two optional fields behind it, each introduced by a separator of its own.

Without a condition on the text, another text may end in what looks like the fields (`Shift`). `fields_eq_iff`: that is the
only way in which two of them are the same.
-/
import Mathlib.Tactic

namespace EtonifyCore.Core

open List

variable {α : Type*} {a b : α} {t t' : List α} {x x' y y' : Option (List α)}

def field (a : α) : Option (List α) → List α
  | none => []
  | some text => a :: text

/-- no separator inside the field -/
def Plain (a b : α) (x : Option (List α)) : Prop := ∀ text ∈ x, a ∉ text ∧ b ∉ text

/-- the second text ends in the fields of the first, and lacks them itself -/
def Shift (a b : α) (t : List α) (x y : Option (List α)) (t' : List α) (x' y' : Option (List α)) : Prop :=
  x' = none ∧ (y' = none ∧ t' = t ++ (field a x ++ field b y) ∨ y' = y ∧ t' = t ++ field a x)

theorem not_mem_field (hab : a ≠ b) (hx : Plain a b x) : b ∉ field a x := by
  cases x with
  | none => exact not_mem_nil
  | some text =>
    intro hmem
    rcases mem_cons.1 hmem with heq | hmem
    · exact hab heq.symm
    · exact (hx text rfl).2 hmem

theorem shift_of_eq {rest : List α} (hab : a ≠ b) (hx : Plain a b x) (hy : Plain a b y) (hx' : Plain a b x')
    (h : field a x ++ field b y = rest ++ (field a x' ++ field b y')) :
    (rest = [] ∧ x = x' ∧ y = y') ∨ Shift a b t x y (t ++ rest) x' y' := by
  have hay : a ∉ field b y := not_mem_field hab.symm fun text htext => (hy text htext).symm
  have hbx : b ∉ field a x := not_mem_field hab hx
  have hby : ∀ text, y = some text → b ∉ text := fun text htext => (hy text htext).2
  cases x' with
  | some text' =>
    -- the separator of the first field is there once
    cases x with
    | none =>
      refine absurd (?_ : a ∈ field b y) hay
      have hmem : a ∈ rest ++ (field a (some text') ++ field b y') := by simp [field]
      rw [← h] at hmem
      exact hmem
    | some text =>
      have hnot : a ∉ text ++ field b y := by
        rw [mem_append]
        rintro (hmem | hmem)
        · exact (hx text rfl).1 hmem
        · exact hay hmem
      have hcut : [] ++ a :: (text ++ field b y) = rest ++ a :: (text' ++ field b y') := h
      obtain ⟨hrest, -, htail⟩ := (append_cons_inj_of_notMem not_mem_nil hnot).1 hcut
      left
      refine ⟨hrest.symm, ?_⟩
      cases y with
      | none =>
        cases y' with
        | none => exact ⟨by simpa [field] using htail, rfl⟩
        | some second' =>
          have hmem : b ∈ text ++ field b none := by rw [htail]; simp [field]
          rw [field, append_nil] at hmem
          exact absurd hmem (hx text rfl).2
      | some second =>
        cases y' with
        | none =>
          have hmem : b ∈ text' ++ field b none := by rw [← htail]; simp [field]
          rw [field, append_nil] at hmem
          exact absurd hmem (hx' text' rfl).2
        | some second' =>
          obtain ⟨htext, -, hsecond⟩ := (append_cons_inj_of_notMem (hx text rfl).2 (hby second rfl)).1 htail
          exact ⟨by rw [htext], by rw [hsecond]⟩
  | none =>
    right
    cases y' with
    | none =>
      refine ⟨rfl, .inl ⟨rfl, ?_⟩⟩
      have hrest : rest = field a x ++ field b y := by simpa [field] using h.symm
      rw [hrest]
    | some second' =>
      cases y with
      | none =>
        refine absurd (?_ : b ∈ field a x) hbx
        have hmem : b ∈ rest ++ (field a none ++ field b (some second')) := by simp [field]
        rw [← h] at hmem
        simpa [field] using hmem
      | some second =>
        have hcut : field a x ++ b :: second = rest ++ b :: second' := h
        obtain ⟨hrest, -, hsecond⟩ := (append_cons_inj_of_notMem hbx (hby second rfl)).1 hcut
        exact ⟨rfl, .inr ⟨by rw [hsecond], by rw [hrest]⟩⟩

theorem eq_of_shift (h : Shift a b t x y t' x' y') :
    t ++ (field a x ++ field b y) = t' ++ (field a x' ++ field b y') := by
  obtain ⟨rfl, ⟨rfl, rfl⟩ | ⟨rfl, rfl⟩⟩ := h
  · simp [field]
  · simp [field]

/-- **Two texts with fields are the same** only if all parts are, or if one of them ends in the fields of the other. -/
theorem fields_eq_iff (hab : a ≠ b) (hx : Plain a b x) (hy : Plain a b y) (hx' : Plain a b x') (hy' : Plain a b y') :
    t ++ (field a x ++ field b y) = t' ++ (field a x' ++ field b y') ↔
      (t = t' ∧ x = x' ∧ y = y') ∨ Shift a b t x y t' x' y' ∨ Shift a b t' x' y' t x y := by
  constructor
  · intro h
    rcases append_eq_append_iff.1 h with ⟨rest, rfl, hrest⟩ | ⟨rest, rfl, hrest⟩
    · rcases shift_of_eq (t := t) hab hx hy hx' hrest with ⟨rfl, hfields⟩ | hshift
      · exact .inl ⟨(append_nil t).symm, hfields⟩
      · exact .inr (.inl hshift)
    · rcases shift_of_eq (t := t') hab hx' hy' hx hrest with ⟨rfl, hx, hy⟩ | hshift
      · exact .inl ⟨append_nil t', hx.symm, hy.symm⟩
      · exact .inr (.inr hshift)
  · rintro (⟨rfl, rfl, rfl⟩ | hshift | hshift)
    · rfl
    · exact eq_of_shift hshift
    · exact (eq_of_shift hshift).symm

end EtonifyCore.Core
