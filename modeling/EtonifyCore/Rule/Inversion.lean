/-
`invert` as the negation of a DNS rule.

A rule without any item matches everything, whether it is inverted or not. So a rule with `match_response` alone and its
inversion both match a response that is there; when the response is missing, only the inversion matches.
-/
import EtonifyCore.Rule.Semantics

namespace EtonifyCore.RuleMatch

open RuleMatchState (dst)

variable {E : Type}

namespace DefaultDNSRule

def withInvert (r : DefaultDNSRule E) (invert : Bool) : DefaultDNSRule E := { r with invert }

section

variable (r : DefaultDNSRule E) (m : InboundContext E)

/-- the rule has an item or a rule-set, or its response is missing -/
def tests : Bool :=
  !r.noItems || r.ruleSetItem.isSome || (r.matchResponse && (r.boundResponse m).isNone)

theorem abstractEval_withInvert : (r.withInvert true).abstractEval m = !(r.withInvert false).abstractEval m ↔
      (!r.noItems || r.ruleSetItem.isSome) := by
  have hset (b : Bool) : (r.withInvert b).ruleSetItem = r.ruleSetItem := rfl
  unfold abstractEval
  rw [hset, hset]
  cases r.ruleSetItem with
  | none =>
    change (r.noItems || (true ^^ r.base m)) = !(r.noItems || (false ^^ r.base m)) ↔ _
    cases r.noItems <;> simp
  | some item =>
    change (true ^^ (r.items.all (RuleItem.matchOn m) && item.setList.any (item.evalSet m (r.groups m)))) =
      !(false ^^ (r.items.all (RuleItem.matchOn m) && item.setList.any (item.evalSet m (r.groups m)))) ↔ _
    simp

theorem eval_withInvert : (r.withInvert true).eval m = !(r.withInvert false).eval m ↔ r.tests m := by
  have hbound : ∀ invert, (r.withInvert invert).boundResponse m = r.boundResponse m := fun _ => rfl
  have hmatch : ∀ invert, (r.withInvert invert).matchResponse = r.matchResponse := fun _ => rfl
  unfold eval tests
  simp only [hbound, hmatch]
  cases r.matchResponse with
  | false => simpa using r.abstractEval_withInvert m
  | true =>
    cases r.boundResponse m with
    | none => simp [withInvert]
    | some response => simpa using r.abstractEval_withInvert (responseContext m (some response))

end

theorem matchForMatch_of_not_tests (r : DefaultDNSRule E) {m : InboundContext E} (h : r.tests m = false) :
    (r.matchForMatch m).1 := by
  unfold tests at h
  simp only [Bool.or_eq_false_iff, Bool.not_eq_false'] at h
  obtain ⟨⟨hitems, hset⟩, hresponse⟩ := h
  have habstract (m : InboundContext E) : (r.abstractMatch m).1 := by
    rw [abstractMatch, Option.isSome_eq_false_iff.1 hset |> Option.isNone_iff_eq_none.1]
    simp [AbstractDefaultRule.matchOn, hitems]
  unfold matchForMatch
  cases hmatch : r.matchResponse with
  | false => exact habstract m
  | true =>
    rw [hmatch, Bool.true_and] at hresponse
    cases hbound : r.boundResponse m with
    | none =>
      rw [hbound] at hresponse
      cases hresponse
    | some response => exact habstract _

end DefaultDNSRule

/-! ## Logical rules -/

theorem logicalMatch_reset (mode : LogicalMode) (invert : Bool) (fs : List (Matcher E)) (m : InboundContext E) :
    (logicalMatch mode invert fs m).1 = (logicalMatch mode invert fs m.resetRuleCache).1 := by
  cases fs with
  | nil => cases mode <;> rfl
  | cons f fs => cases mode <;> rfl

namespace DNSRuleTree

def withInvert (r : DNSRuleTree E) (invert : Bool) : DNSRuleTree E :=
  match r with
  | .default d => .default (d.withInvert invert)
  | .logical mode _ rules => .logical mode invert rules

def tests (r : DNSRuleTree E) (m : InboundContext E) : Bool :=
  match r with
  | .default d => d.tests m
  | .logical _ _ _ => true

def isLogical : DNSRuleTree E → Bool
  | .default _ => false
  | .logical _ _ _ => true

def Negates (r : DNSRuleTree E) (m : InboundContext E) : Prop :=
  ((r.withInvert true).matchOn m).1 = !((r.withInvert false).matchOn m).1

theorem negates_iff_of_plain (r : DNSRuleTree E) {m : InboundContext E} (hm : Plain m) : r.Negates m ↔ r.tests m := by
  unfold Negates
  rw [(answer_of_truth (dnsRule_answers _ m hm)).1, (answer_of_truth (dnsRule_answers _ m hm)).1]
  cases r with
  | default d => exact d.eval_withInvert m
  | logical mode invert rules =>
    change (true ^^ _) = !(false ^^ _) ↔ _
    simp [tests]

theorem tests_of_negates (r : DNSRuleTree E) {m : InboundContext E} (h : r.Negates m) : r.tests m := by
  cases r with
  | logical mode invert rules => rfl
  | default d =>
    by_contra hnot
    have hnone : ∀ invert, (d.withInvert invert).tests m = false := fun _ => Bool.eq_false_iff.2 hnot
    have hyes : ((d.withInvert true).matchForMatch m).1 = !((d.withInvert false).matchForMatch m).1 := h
    rw [DefaultDNSRule.matchForMatch_of_not_tests _ (hnone true),
      DefaultDNSRule.matchForMatch_of_not_tests _ (hnone false)] at hyes
    cases hyes

end DNSRuleTree

/-- **Inversion is negation** outside of `LegacyPreMatch`, if the rule tests something. A rule that tests nothing matches
either way. -/
theorem inversion_negates (r : DNSRuleTree E) (m : InboundContext E) (hi : m.ignoreDestinationIPCIDRMatch = false) :
    (r.Negates m → r.tests m = true) ∧
      (r.isLogical = true ∨ m.deferredIPCIDRMatchGroups = RuleMatchState.empty → r.tests m = true → r.Negates m) := by
  refine ⟨r.tests_of_negates, ?_⟩
  intro hdeferred htests
  rcases hdeferred with hlogical | hempty
  · cases r with
    | default d => cases hlogical
    | logical mode invert rules =>
      -- what was deferred before is not seen
      have hreset : Plain m.resetRuleCache := ⟨hi, rfl⟩
      have hnegates := (DNSRuleTree.negates_iff_of_plain (.logical mode invert rules) hreset).2 rfl
      unfold DNSRuleTree.Negates DNSRuleTree.matchOn DNSRuleTree.withInvert at hnegates ⊢
      simp only [Rule.matchOn] at hnegates ⊢
      rw [logicalMatch_reset, logicalMatch_reset mode false]
      exact hnegates
  · exact (r.negates_iff_of_plain ⟨hi, hempty⟩).2 htests

theorem inversion_negates_sample :
    let r : DNSRuleTree Unit := .default { items := [.queryType [1]], matchResponse := true }
    let m : InboundContext Unit := { query := ⟨none, {}, [], 4, 1, ()⟩ }
    r.tests m = true ∧ r.Negates m := by
  intro r m
  exact ⟨rfl, (inversion_negates r m rfl).2 (.inr rfl) rfl⟩

/-- `match_response` alone matches a response, and so does its inversion -/
theorem match_response_ignores_invert :
    let r : DNSRuleTree Unit := .default { matchResponse := true }
    let m : InboundContext Unit := { query := ⟨none, {}, [], 4, 1, ()⟩, dnsResponse := some {} }
    ((r.withInvert false).matchOn m).1 = true ∧ ((r.withInvert true).matchOn m).1 = true := by
  decide +kernel

/-! ## Laws of logical rules -/

open List
open Core
open Core.Truth

namespace LogicalMode

def other : LogicalMode → LogicalMode
  | .and => .or
  | .or => .and

variable (mode : LogicalMode)

theorem combine_splice (ts₁ ts₂ ts₃ : List Truth) :
    mode.combine (ts₁ ++ mode.combine ts₂ :: ts₃) = mode.combine (ts₁ ++ ts₂ ++ ts₃) := by
  cases mode <;> ext1 <;> simp [combine, Truth.all, Truth.any]

theorem combine_singleton (t : Truth) : mode.combine [t] = t := by
  cases mode <;> ext1 <;> simp [combine, Truth.all, Truth.any]

theorem combine_perm {ts ts' : List Truth} (h : ts.Perm ts') : mode.combine ts = mode.combine ts' := by
  cases mode <;> ext1 <;> simp only [combine, Truth.all, Truth.any]
  · exact h.all_eq
  · exact h.all_eq
  · exact h.any_eq
  · exact h.any_eq

theorem neg_combine (ts : List Truth) : (mode.combine ts).neg = mode.other.combine (ts.map neg) := by
  cases mode <;> ext1 <;>
    simp [combine, other, Truth.all, Truth.any, neg, not_all_eq_any_not, not_any_eq_all_not, Function.comp_def]

end LogicalMode

namespace DNSRuleTree

theorem truth_logical_reset (mode : LogicalMode) (invert : Bool) (rs : List (DNSRuleTree E)) (m : InboundContext E) :
    truth (matchOn (.logical mode invert rs)) m.resetRuleCache =
      (mode.combine (rs.map fun r => truth (matchOn r) m.resetRuleCache)).xor invert :=
  truth_logical DefaultDNSRule.matchForMatch_regular mode invert rs rfl

/-- **Logical rules can be rewritten**: a sub-rule of the same mode spliced in, sub-rules reordered, an inversion pushed
to the sub-rules; also while `LegacyPreMatch` runs. -/
theorem logical_laws (mode : LogicalMode) (invert : Bool) (rs l₁ l₂ : List (DNSRuleTree E)) (m : InboundContext E) :
    truth (matchOn (.logical mode invert (l₁ ++ .logical mode false rs :: l₂))) m.resetRuleCache =
        truth (matchOn (.logical mode invert (l₁ ++ rs ++ l₂))) m.resetRuleCache ∧
      (∀ rs', rs.Perm rs' → truth (matchOn (.logical mode invert rs)) m.resetRuleCache =
        truth (matchOn (.logical mode invert rs')) m.resetRuleCache) ∧
      truth (matchOn (.logical mode (!invert) rs)) m.resetRuleCache =
        truth (matchOn (.logical mode.other invert (rs.map fun r => .logical mode true [r]))) m.resetRuleCache := by
  simp only [truth_logical_reset, map_append, map_cons, map_nil, map_map, Function.comp_def]
  refine ⟨?_, fun rs' h => ?_, ?_⟩
  · rw [← mode.combine_splice]
    rfl
  · rw [mode.combine_perm (h.map _)]
  · have hneg := mode.neg_combine (rs.map fun r => truth (matchOn r) m.resetRuleCache)
    rw [map_map] at hneg
    simp only [LogicalMode.combine_singleton, Truth.xor, if_true, Function.comp_def] at hneg ⊢
    rw [← hneg]
    cases invert with
    | false => rfl
    | true => ext1 <;> simp [neg]

end DNSRuleTree

end EtonifyCore.RuleMatch
