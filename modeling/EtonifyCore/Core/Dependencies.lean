/-
Dependency graphs of named items: which items can be brought up one after another, and what stands in the way.

An item has a name and the names it depends on (`nm`, `needs`). `Buildable items t`: some item named `t` can be brought up
after its dependencies; `Missing` and `Cyclic` are the two defects. `Ordered l`: different names, each after everything it
depends on, so that all are buildable (`Ordered.buildable`).
-/
import Mathlib.Tactic

namespace EtonifyCore.Core.Dependencies

open List

variable {α κ : Type} (nm : α → κ) (needs : α → List κ)

inductive Buildable (items : List α) : κ → Prop
  | intro (a : α) (hmem : a ∈ items) (hneeds : ∀ d ∈ needs a, Buildable items d) : Buildable items (nm a)

def Edge (items : List α) (a b : κ) : Prop :=
  ∃ o ∈ items, nm o = a ∧ b ∈ needs o

def Missing (items : List α) : Prop :=
  ∃ o ∈ items, ∃ d ∈ needs o, d ∉ items.map nm

def Cyclic (items : List α) : Prop :=
  ∃ t, Relation.TransGen (Edge nm needs items) t t

inductive Ordered : List α → Prop
  | nil : Ordered []
  | snoc (l : List α) (a : α) (hl : Ordered l) (hneeds : ∀ d ∈ needs a, d ∈ l.map nm) (hnew : nm a ∉ l.map nm) :
      Ordered (l ++ [a])

variable {nm needs}

/-! ## Ordered lists -/

theorem Ordered.nodup {l : List α} (h : Ordered nm needs l) : (l.map nm).Nodup := by
  induction h with
  | nil => exact nodup_nil
  | snoc l a hl hneeds hnew ih =>
    rw [map_append, map_singleton]
    exact nodup_append.2 ⟨ih, nodup_singleton _, fun x hx y hy hxy => hnew (by
      rw [mem_singleton] at hy
      rw [← hy, ← hxy]
      exact hx)⟩

theorem Ordered.before {l : List α} (h : Ordered nm needs l) :
    ∀ pre a post, l = pre ++ a :: post → ∀ d ∈ needs a, d ∈ pre.map nm := by
  induction h with
  | nil =>
    intro pre a post hl
    simp at hl
  | snoc l a hl hneeds hnew ih =>
    intro pre b post hsplit d hd
    rcases eq_nil_or_concat post with hpost | ⟨post, c, hpost⟩
    · subst hpost
      obtain ⟨hpre, hab⟩ := append_inj' hsplit rfl
      cases hab
      rw [← hpre]
      exact hneeds d hd
    · subst hpost
      have hsplit' : l ++ [a] = (pre ++ b :: post) ++ [c] := by simpa using hsplit
      exact ih pre b post (append_inj' hsplit' rfl).1 d hd

section

variable {items l : List α} (h : Ordered nm needs l) (hsub : l ⊆ items)
include h hsub

theorem Ordered.buildable : ∀ t ∈ l.map nm, Buildable nm needs items t := by
  induction h with
  | nil =>
    intro t ht
    simp at ht
  | snoc l a hl hneeds hnew ih =>
    have hl' : ∀ t ∈ l.map nm, Buildable nm needs items t := ih (fun x hx => hsub (mem_append_left _ hx))
    intro t ht
    rw [map_append, mem_append, map_singleton, mem_singleton] at ht
    rcases ht with ht | ht
    · exact hl' t ht
    · subst ht
      exact .intro a (hsub (by simp)) fun d hd => hl' d (hneeds d hd)

theorem Ordered.length_le : l.length ≤ items.length :=
  (subperm_of_subset (List.Nodup.of_map _ h.nodup) hsub).length_le

theorem Ordered.perm (hlen : l.length = items.length) : l.Perm items :=
  (subperm_of_subset (List.Nodup.of_map _ h.nodup) hsub).perm_of_length_le hlen.ge

end

/-! ## What can be built -/

variable {items : List α}

theorem buildable_sub_of_closed {S : κ → Prop}
    (hclosed : ∀ a ∈ items, (∀ d ∈ needs a, S d) → S (nm a)) {t : κ} (h : Buildable nm needs items t) : S t := by
  induction h with
  | intro a hmem hneeds ih => exact hclosed a hmem ih

theorem buildable_name {t : κ} (h : Buildable nm needs items t) : t ∈ items.map nm := by
  cases h with
  | intro a hmem hneeds => exact mem_map_of_mem hmem

theorem needs_buildable (hnodup : (items.map nm).Nodup) {a : α} (ha : a ∈ items)
    (h : Buildable nm needs items (nm a)) : ∀ d ∈ needs a, Buildable nm needs items d := by
  generalize ht : nm a = t at h
  cases h with
  | intro b hb hneeds =>
    have hab : a = b := inj_on_of_nodup_map hnodup ha hb ht
    subst hab
    exact hneeds

theorem buildable_acc (hnodup : (items.map nm).Nodup) {t : κ} (h : Buildable nm needs items t) :
    Acc (fun b a => Edge nm needs items a b) t := by
  induction h with
  | intro a hmem hneeds ih =>
    refine Acc.intro _ ?_
    intro d hd
    obtain ⟨o, ho, hname, hdo⟩ := hd
    have hoa : o = a := inj_on_of_nodup_map hnodup ho hmem hname
    subst hoa
    exact ih d hdo

theorem no_self_below {r : κ → κ → Prop} {t : κ} (h : Acc (fun b a => r a b) t) : ¬ Relation.TransGen r t t := by
  intro hcycle
  have hswap : Relation.TransGen (fun b a => r a b) t t := Relation.transGen_swap.2 hcycle
  have hacc : Acc (Relation.TransGen fun b a => r a b) t := Acc.transGen h
  clear h hcycle
  -- a name below itself would be below itself again, for ever
  induction hacc with
  | intro x _ ih => exact ih x hswap hswap

theorem no_defect (hnodup : (items.map nm).Nodup) (hall : ∀ a ∈ items, Buildable nm needs items (nm a)) :
    ¬ (Missing nm needs items ∨ Cyclic nm needs items) := by
  intro hdefect
  rcases hdefect with ⟨a, ha, d, hd, hmiss⟩ | ⟨t, hcycle⟩
  · exact hmiss (buildable_name (needs_buildable hnodup ha (hall a ha) d hd))
  · obtain ⟨u, ⟨o, ho, hname, _⟩, _⟩ := Relation.TransGen.head'_iff.1 hcycle
    have hbuild : Buildable nm needs items t := by
      rw [← hname]
      exact hall o ho
    exact no_self_below (buildable_acc hnodup hbuild) hcycle

/-! ## Paths -/

theorem reach_of_path {r : κ → κ → Prop} {l : List κ} {p : κ} (hpath : (l ++ [p]).IsChain r) :
    ∀ q ∈ l, Relation.TransGen r q p := by
  have hpairs := isChain_iff_pairwise.1 (hpath.imp fun _ _ => Relation.TransGen.single)
  intro q hq
  exact (pairwise_append.1 hpairs).2.2 q hq p mem_cons_self

theorem cyclic_of_path {l : List κ} {p : κ} (hpath : (l ++ [p]).IsChain (Edge nm needs items))
    (hback : p ∈ l) : Cyclic nm needs items :=
  ⟨p, reach_of_path hpath p hback⟩

end EtonifyCore.Core.Dependencies
