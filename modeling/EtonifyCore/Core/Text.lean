/-
Texts as lists: what string functions find, cut off and split, with lemmas for texts that are put together from parts.
-/
import Mathlib.Tactic

namespace EtonifyCore.Core.Text

open List

variable {α : Type*} [DecidableEq α]

def contains (sub : List α) : List α → Bool
  | [] => sub.isEmpty
  | c :: s => sub.isPrefixOf (c :: s) || contains sub s

def before (sub : List α) : List α → List α
  | [] => []
  | c :: s => if sub.isPrefixOf (c :: s) then [] else c :: before sub s

def after (sub text : List α) : List α :=
  if contains sub text then text.drop ((before sub text).length + sub.length) else text

def trimSuffix (sub text : List α) : List α :=
  if sub.isSuffixOf text then text.take (text.length - sub.length) else text

def cutPrefix (sub text : List α) : List α × Bool :=
  if sub.isPrefixOf text then (text.drop sub.length, true) else (text, false)

def cutSuffix (sub text : List α) : List α × Bool :=
  if sub.isSuffixOf text then (text.take (text.length - sub.length), true) else (text, false)

variable {c : α}

variable {text : List α}

theorem contains_eq_false {sub : List α} (hc : c ∈ sub) (h : c ∉ text) : contains sub text = false := by
  induction text with
  | nil =>
    cases sub with
    | nil => cases hc
    | cons => rfl
  | cons d text ih =>
    rw [contains, Bool.or_eq_false_iff]
    constructor
    · rw [Bool.eq_false_iff]
      intro hpre
      exact h ((List.isPrefixOf_iff_prefix.1 hpre).subset hc)
    · exact ih fun hmem => h (mem_cons_of_mem _ hmem)

theorem contains_append (sub s t : List α) : contains sub (s ++ sub ++ t) := by
  induction s with
  | nil =>
    cases sub with
    | nil => cases t <;> rfl
    | cons c sub =>
      have hpre : (c :: sub).isPrefixOf (c :: (sub ++ t)) := isPrefixOf_iff_prefix.2 (prefix_append (c :: sub) t)
      exact Bool.or_eq_true_iff.2 (.inl hpre)
  | cons d s ih => exact Bool.or_eq_true_iff.2 (.inr ih)

theorem before_append {s t : List α} (h : c ∉ s) : before [c] (s ++ c :: t) = s := by
  induction s with
  | nil => simp [before, List.isPrefixOf]
  | cons d s ih =>
    have hne : (c == d) = false := beq_false_of_ne fun heq => h (heq ▸ mem_cons_self)
    have hrest : c ∉ s := fun hmem => h (mem_cons_of_mem _ hmem)
    rw [cons_append, before, List.isPrefixOf, hne, Bool.false_and, if_neg Bool.false_ne_true, ih hrest]

theorem after_append {s t : List α} (h : c ∉ s) : after [c] (s ++ c :: t) = t := by
  have hcontains : contains [c] (s ++ c :: t) := by
    have hself := contains_append [c] s t
    rwa [append_assoc] at hself
  rw [after, if_pos hcontains, before_append h]
  simp

variable {sub text : List α}

theorem before_append_after (h : contains sub text) : before sub text ++ sub ++ after sub text = text := by
  have htake : before sub text ++ sub = text.take ((before sub text).length + sub.length) := by
    induction text with
    | nil =>
      obtain rfl : sub = [] := isEmpty_iff.1 h
      rfl
    | cons d text ih =>
      rw [before]
      split_ifs with hpre
      · obtain ⟨t, ht⟩ := isPrefixOf_iff_prefix.1 hpre
        rw [← ht]
        simp
      · rw [contains, Bool.or_eq_true] at h
        rw [cons_append, ih (h.resolve_left hpre), length_cons, Nat.add_right_comm, take_succ_cons]
  rw [after, if_pos h, htake, take_append_drop]

theorem isPrefixOf_concat {sub : List α} (hc : c ∉ sub) (text : List α) :
    sub.isPrefixOf (text ++ [c]) = sub.isPrefixOf text := by
  rw [Bool.eq_iff_iff, isPrefixOf_iff_prefix, isPrefixOf_iff_prefix, prefix_concat_iff]
  constructor
  · intro h
    rcases h with heq | hpre
    · exact absurd (heq ▸ mem_append_right text mem_cons_self) hc
    · exact hpre
  · exact .inr

theorem before_concat {sub : List α} (hc : c ∉ sub) (hne : sub ≠ []) (text : List α) :
    before sub (text ++ [c]) = if contains sub text then before sub text else text ++ [c] := by
  induction text with
  | nil =>
    have hpre : sub.isPrefixOf [c] = false := by
      rw [← nil_append [c], isPrefixOf_concat hc]
      cases sub with
      | nil => exact absurd rfl hne
      | cons => rfl
    have hcontains : contains sub [] = false := by simpa [contains] using hne
    rw [hcontains]
    change (if sub.isPrefixOf [c] then [] else [c]) = [c]
    rw [hpre]
    rfl
  | cons d text ih =>
    have hpre := isPrefixOf_concat hc (d :: text)
    rw [cons_append] at hpre
    rw [cons_append, before, before, contains, hpre, ih]
    cases sub.isPrefixOf (d :: text) <;> cases contains sub text <;> simp

theorem notMem_before : c ∉ before [c] text := by
  induction text with
  | nil => exact not_mem_nil
  | cons d text ih =>
    rw [before]
    split_ifs with hpre
    · exact not_mem_nil
    · intro hmem
      rcases mem_cons.1 hmem with rfl | hmem
      · simp [List.isPrefixOf] at hpre
      · exact ih hmem

theorem before_subset : before sub text ⊆ text := by
  induction text with
  | nil => exact List.Subset.refl _
  | cons d text ih =>
    rw [before]
    split_ifs
    · exact nil_subset _
    · exact cons_subset_cons d ih

theorem trimSuffix_eq_self (h : text.getLast? ≠ some c) : trimSuffix [c] text = text := by
  rw [trimSuffix, if_neg]
  intro hsuf
  obtain ⟨s, rfl⟩ := isSuffixOf_iff_suffix.1 hsuf
  simp at h

theorem cutSuffix_eq_self (h : text.getLast? ≠ some c) : cutSuffix [c] text = (text, false) := by
  rw [cutSuffix, if_neg]
  intro hsuf
  obtain ⟨s, rfl⟩ := isSuffixOf_iff_suffix.1 hsuf
  simp at h

theorem cutSuffix_append : cutSuffix sub (text ++ sub) = (text, true) := by
  rw [cutSuffix, if_pos (isSuffixOf_iff_suffix.2 (suffix_append text sub))]
  simp

theorem cutPrefix_append : cutPrefix sub (sub ++ text) = (text, true) := by
  rw [cutPrefix, if_pos (List.isPrefixOf_iff_prefix.2 (prefix_append sub text))]
  simp

theorem cutPrefix_eq_self (h : text.head? ≠ some c) : cutPrefix (c :: sub) text = (text, false) := by
  rw [cutPrefix, if_neg]
  intro hpre
  obtain ⟨t, rfl⟩ := isPrefixOf_iff_prefix.1 hpre
  simp at h

/-! ## What was cut off -/

theorem cutPrefix_spec (sub text : List α) :
    text = (if (cutPrefix sub text).2 then sub else []) ++ (cutPrefix sub text).1 := by
  unfold cutPrefix
  by_cases h : sub.isPrefixOf text
  · obtain ⟨t, rfl⟩ := isPrefixOf_iff_prefix.1 h
    simp
  · simp [h]

theorem cutSuffix_spec (sub text : List α) :
    text = (cutSuffix sub text).1 ++ if (cutSuffix sub text).2 then sub else [] := by
  unfold cutSuffix
  by_cases h : sub.isSuffixOf text
  · obtain ⟨t, rfl⟩ := isSuffixOf_iff_suffix.1 h
    simp
  · simp [h]

theorem trimSuffix_spec (sub text : List α) : ∃ tail, text = trimSuffix sub text ++ tail := by
  unfold trimSuffix
  split_ifs with h
  · obtain ⟨t, rfl⟩ := isSuffixOf_iff_suffix.1 h
    exact ⟨sub, by simp⟩
  · exact ⟨[], (append_nil _).symm⟩

theorem length_le_of_mem_splitOn {text part : List α} (h : part ∈ text.splitOn c) : part.length ≤ text.length := by
  have hjoin : [c].intercalate (text.splitOn c) = text := intercalate_splitOn c
  rw [← hjoin]
  generalize text.splitOn c = parts at h
  induction parts with
  | nil => cases h
  | cons first parts ih =>
    cases parts with
    | nil =>
      obtain rfl := mem_singleton.1 h
      simp [List.intercalate]
    | cons second parts =>
      have hlength : ([c].intercalate (first :: second :: parts)).length =
          first.length + 1 + ([c].intercalate (second :: parts)).length := by
        simp [List.intercalate]
        omega
      rw [hlength]
      rcases mem_cons.1 h with rfl | hmem
      · omega
      · have := ih hmem
        omega

theorem notMem_of_mem_splitOn {text part : List α} (h : part ∈ text.splitOn c) : c ∉ part := by
  unfold List.splitOn at h
  induction text generalizing part with
  | nil =>
    rw [splitOnP_nil] at h
    obtain rfl := mem_singleton.1 h
    exact not_mem_nil
  | cons d text ih =>
    rw [splitOnP_cons_eq_if_modifyHead] at h
    split_ifs at h with heq
    · rcases mem_cons.1 h with rfl | hmem
      · exact not_mem_nil
      · exact ih hmem
    · cases hparts : text.splitOnP (· == c) with
      | nil =>
        rw [hparts] at h
        cases h
      | cons first parts =>
        rw [hparts] at h ih
        rcases mem_cons.1 h with rfl | hmem
        · intro hmem
          rcases mem_cons.1 hmem with rfl | hmem
          · simp at heq
          · exact ih mem_cons_self hmem
        · exact ih (mem_cons_of_mem _ hmem)

theorem length_splitOn (c : α) (text : List α) : (text.splitOn c).length = text.count c + 1 := by
  unfold List.splitOn
  induction text with
  | nil => rfl
  | cons d text ih =>
    rw [splitOnP_cons_eq_if_modifyHead, count_cons]
    split_ifs
    · rw [length_cons, ih]
    · rw [length_modifyHead, ih, Nat.add_zero]

theorem splitOn_flatMap {lines : List (List α)} (h : ∀ line ∈ lines, c ∉ line) :
    (lines.flatMap (· ++ [c])).splitOn c = lines ++ [[]] := by
  induction lines with
  | nil => rfl
  | cons line lines ih =>
    have hrest := ih fun line hmem => h line (mem_cons_of_mem _ hmem)
    rw [flatMap_cons, append_assoc, singleton_append, splitOn_append_cons_self_of_not_mem (h line mem_cons_self), hrest]
    rfl

end EtonifyCore.Core.Text
