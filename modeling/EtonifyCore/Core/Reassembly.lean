/-
A message that is cut into fragments, put together again by their offsets.

`stitchFrom` appends a fragment that starts where the last one ended, until there is none.
-/
import Mathlib.Data.List.Infix
import Mathlib.Order.Nat

namespace EtonifyCore.Core

open List

structure Fragment (α : Type) where
  offset : ℕ
  payload : List α
deriving DecidableEq, Repr

namespace Fragment

variable {α : Type}

def stop (f : Fragment α) : ℕ := f.offset + f.payload.length

def Covers (f : Fragment α) (i : ℕ) : Prop := f.offset ≤ i ∧ i < f.stop

def PartOf (message : List α) (f : Fragment α) : Prop := f.payload <+: message.drop f.offset

def Covered (message : List α) (fragments : List (Fragment α)) : Prop :=
  ∀ i < message.length, ∃ f ∈ fragments, f.Covers i

def next (fragments : List (Fragment α)) (index : ℕ) : Option (Fragment α) :=
  fragments.find? fun f => f.offset = index && !f.payload.isEmpty

variable {fragments : List (Fragment α)} {index : ℕ} {f : Fragment α}

theorem next_some (h : next fragments index = some f) : f ∈ fragments ∧ f.offset = index ∧ f.payload ≠ [] := by
  have hfound : (decide (f.offset = index) && !f.payload.isEmpty) = true :=
    List.find?_some (p := fun f : Fragment α => decide (f.offset = index) && !f.payload.isEmpty) h
  rw [Bool.and_eq_true_iff] at hfound
  refine ⟨mem_of_find?_eq_some h, of_decide_eq_true hfound.1, ?_⟩
  intro hempty
  rw [hempty] at hfound
  cases hfound.2

theorem next_none (h : next fragments index = none) (hf : f ∈ fragments) (hoffset : f.offset = index) : f.payload = [] := by
  have hnot := List.find?_eq_none.1 h f hf
  by_contra hne
  apply hnot
  rw [Bool.and_eq_true_iff]
  exact ⟨decide_eq_true hoffset, by simpa using hne⟩

theorem length_filter_lt (h : next fragments index = some f) :
    (fragments.filter (f.stop ≤ ·.offset)).length < (fragments.filter (index ≤ ·.offset)).length := by
  obtain ⟨hmem, hoffset, hne⟩ := next_some h
  have hpos := length_pos_iff.2 hne
  have hlater : fragments.filter (f.stop ≤ ·.offset) =
      (fragments.filter (index ≤ ·.offset)).filter (f.stop ≤ ·.offset) := by
    rw [filter_filter]
    apply filter_congr
    intro other _
    unfold stop
    by_cases hstop : f.offset + f.payload.length ≤ other.offset
    · simp only [hstop, decide_true, Bool.true_and]
      exact (decide_eq_true (by omega)).symm
    · simp [hstop]
  rw [hlater, length_filter_lt_length_iff_exists]
  refine ⟨f, mem_filter.2 ⟨hmem, by simp [hoffset]⟩, ?_⟩
  unfold stop
  simp only [decide_eq_true_eq]
  omega

def stitchFrom (fragments : List (Fragment α)) (index : ℕ) : List α :=
  match _h : next fragments index with
  | none => []
  | some f => f.payload ++ stitchFrom fragments f.stop
termination_by (fragments.filter (index ≤ ·.offset)).length
decreasing_by exact length_filter_lt _h

theorem stitchFrom_none (h : next fragments index = none) : stitchFrom fragments index = [] := by
  rw [stitchFrom]
  split
  · rfl
  · rename_i f hf
    rw [h] at hf
    cases hf

theorem stitchFrom_some (h : next fragments index = some f) :
    stitchFrom fragments index = f.payload ++ stitchFrom fragments f.stop := by
  rw [stitchFrom]
  split
  · rename_i hnone
    rw [h] at hnone
    cases hnone
  · rename_i f' hf
    rw [h] at hf
    obtain rfl := Option.some.inj hf
    rfl

theorem stitch_induction (fragments : List (Fragment α)) {motive : ℕ → Prop} (hnone : ∀ index, next fragments index = none → motive index)
    (hsome : ∀ index f, next fragments index = some f → motive f.stop → motive index) (index : ℕ) : motive index := by
  induction hlength : (fragments.filter (index ≤ ·.offset)).length using Nat.strong_induction_on generalizing index with
  | _ n ih =>
    cases hnext : next fragments index with
    | none => exact hnone index hnext
    | some f => exact hsome index f hnext (ih _ (hlength ▸ length_filter_lt hnext) f.stop rfl)

theorem stitchFrom_begins {message : List α} (h : ∀ f ∈ fragments, f.PartOf message) (index : ℕ) :
    stitchFrom fragments index <+: message.drop index := by
  induction index using stitch_induction fragments with
  | hnone index hnext =>
    rw [stitchFrom_none hnext]
    exact nil_prefix
  | hsome index f hnext ih =>
    obtain ⟨hmem, rfl, -⟩ := next_some hnext
    obtain ⟨rest, hrest⟩ := h f hmem
    have hdrop : message.drop f.stop = rest := by
      unfold stop
      rw [← drop_drop, ← hrest, drop_left]
    rw [stitchFrom_some hnext, ← hrest]
    exact (prefix_append_right_inj f.payload).2 (hdrop ▸ ih)

theorem covers_of_lt (index : ℕ) : ∀ i, index ≤ i → i < index + (stitchFrom fragments index).length →
    ∃ f ∈ fragments, f.Covers i := by
  induction index using stitch_induction fragments with
  | hnone index hnext =>
    intro i hle hlt
    rw [stitchFrom_none hnext] at hlt
    exact absurd hlt (by simpa using hle)
  | hsome index f hnext ih =>
    intro i hle hlt
    obtain ⟨hmem, hoffset, -⟩ := next_some hnext
    rw [stitchFrom_some hnext, length_append] at hlt
    have hstop : f.stop = f.offset + f.payload.length := rfl
    by_cases hin : i < f.stop
    · exact ⟨f, hmem, by omega, hin⟩
    · exact ih i (by omega) (by omega)

theorem stitch_stops (fragments : List (Fragment α)) (index : ℕ) : ∃ last, last = index + (stitchFrom fragments index).length ∧
    next fragments last = none ∧ (last = index ∨ ∃ f ∈ fragments, f.payload ≠ [] ∧ f.stop = last) := by
  induction index using stitch_induction fragments with
  | hnone index hnext => exact ⟨index, by rw [stitchFrom_none hnext]; rfl, hnext, .inl rfl⟩
  | hsome index f hnext ih =>
    obtain ⟨hmem, hoffset, hne⟩ := next_some hnext
    obtain ⟨last, hlast, hnone, hstop⟩ := ih
    refine ⟨last, ?_, hnone, .inr ?_⟩
    · rw [stitchFrom_some hnext, length_append, hlast, stop, hoffset]
      omega
    · rcases hstop with rfl | hstop
      · exact ⟨f, hmem, hne, rfl⟩
      · exact hstop

/-! ## Cuts -/

def cut (offset : ℕ) : List (List α) → List (Fragment α)
  | [] => []
  | part :: parts => ⟨offset, part⟩ :: cut (offset + part.length) parts

variable {parts : List (List α)}

theorem offset_le_of_mem_cut {offset : ℕ} (h : f ∈ cut offset parts) : offset ≤ f.offset := by
  induction parts generalizing offset with
  | nil => cases h
  | cons part parts ih =>
    rcases mem_cons.1 h with rfl | h
    · exact le_rfl
    · exact (Nat.le_add_right _ _).trans (ih h)

theorem partOf_of_mem_cut {front : List α} (h : f ∈ cut front.length parts) : f.PartOf (front ++ parts.flatten) := by
  induction parts generalizing front with
  | nil => cases h
  | cons part parts ih =>
    rcases mem_cons.1 h with rfl | h
    · unfold PartOf
      rw [drop_left]
      exact prefix_append _ _
    · rw [← length_append] at h
      have hpart := ih h
      rwa [append_assoc] at hpart

theorem eq_of_covers {offset : ℕ} {g : Fragment α} {i : ℕ} (hf : f ∈ cut offset parts)
    (hg : g ∈ cut offset parts) (hfi : f.Covers i) (hgi : g.Covers i) : f = g := by
  induction parts generalizing offset with
  | nil => cases hf
  | cons part parts ih =>
    -- the first part ends where the others begin
    have hapart {h : Fragment α} (hh : h ∈ cut (offset + part.length) parts) (hhi : h.Covers i)
        (hfirst : Covers ⟨offset, part⟩ i) : False := by
      have hle := offset_le_of_mem_cut hh
      have hstop : i < offset + part.length := hfirst.2
      exact absurd (hle.trans hhi.1) (by omega)
    rcases mem_cons.1 hf with rfl | hf
    · rcases mem_cons.1 hg with rfl | hg
      · rfl
      · exact (hapart hg hgi hfi).elim
    · rcases mem_cons.1 hg with rfl | hg
      · exact (hapart hf hfi hgi).elim
      · exact ih hf hg

theorem stitch_eq_iff (h : ∀ f ∈ fragments, f ∈ cut 0 parts) :
    stitchFrom fragments 0 = parts.flatten ↔ Covered parts.flatten fragments := by
  constructor
  · intro heq i hi
    exact covers_of_lt 0 i (Nat.zero_le _) (by rw [heq]; omega)
  · intro hcovered
    obtain ⟨last, hlast, hnone, hstop⟩ := stitch_stops fragments 0
    have hpart : ∀ f ∈ fragments, f.PartOf parts.flatten := by
      intro f hf
      have hmem : f ∈ cut ([] : List α).length parts := h f hf
      exact partOf_of_mem_cut hmem
    have hbegins : stitchFrom fragments 0 <+: parts.flatten := stitchFrom_begins hpart 0
    by_contra hne
    have hshort : last < parts.flatten.length := by
      have hle := hbegins.length_le
      have hneLength : (stitchFrom fragments 0).length ≠ parts.flatten.length := fun heq => hne (hbegins.eq_of_length heq)
      omega
    -- the fragment that covers the next element begins there
    obtain ⟨f, hf, hle, hlt⟩ := hcovered last hshort
    have hoffset : f.offset = last := by
      rcases hstop with rfl | ⟨g, hg, hgne, rfl⟩
      · omega
      · by_contra hbefore
        have hpos := length_pos_iff.2 hgne
        have hstopg : g.stop = g.offset + g.payload.length := rfl
        obtain rfl := eq_of_covers (i := g.stop - 1) (h f hf) (h g hg) ⟨by omega, by omega⟩ ⟨by omega, by omega⟩
        omega
    have hempty := next_none hnone hf hoffset
    unfold stop at hlt
    rw [hempty, length_nil] at hlt
    omega

end Fragment

end EtonifyCore.Core
