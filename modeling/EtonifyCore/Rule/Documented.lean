/-
The documented matching logic (`docs/configuration/dns/rule.md`, "default rule matching logic"), stated on its own, and
the proof that `Match` computes it.

A default rule holds when all its other items hold and every group that has an item has one that matches. A reference holds
when some set does: a set that is one plain default rule is merged, any other is matched on its own next to the groups of the
referring rule. `invert` negates.

Result: `matchOn_documented`. Premises: no default rule is empty (rules are rejected at load otherwise), no reference uses
`ip_cidr_match_source` or `ip_cidr_accept_empty`, `LegacyPreMatch` is not running and nothing is deferred.
-/
import EtonifyCore.Rule.Semantics

namespace EtonifyCore.RuleMatch

open List
open RuleMatchState (dst)

variable {E D : Type}

/-! ## The logic -/

def invertIf (invert : Bool) (P : Prop) : Prop := if invert then ¬P else P

namespace AbstractDefaultRule

def ipCIDRGroup (m : InboundContext E) : Group := if m.ipCidrMatchSource then .sourceAddress else .destinationAddress

section

variable (r : AbstractDefaultRule E) (m : InboundContext E)

def Requires (g : Group) : Prop :=
  r.groupItems g ≠ [] ∨ (g = ipCIDRGroup m ∧ r.destinationIPCIDRItems ≠ [])

def Hits (g : Group) : Prop :=
  (∃ i ∈ r.groupItems g, i.matchOn m = true) ∨
    (g = ipCIDRGroup m ∧ ∃ i ∈ r.destinationIPCIDRItems, i.matchOn m = true)

def OthersHold : Prop := ∀ i ∈ r.items, i.matchOn m = true

def Documented : Prop :=
  invertIf r.invert (r.OthersHold m ∧ ∀ g, r.Requires m g → r.Hits m g)

end

end AbstractDefaultRule

mutual

def Rule.Documented (leaf : D → InboundContext E → Prop) : Rule D → InboundContext E → Prop
  | .default d, m => leaf d m
  | .logical .and invert rules, m => invertIf invert (Rule.DocumentedAll leaf rules m.resetRuleCache)
  | .logical .or invert rules, m => invertIf invert (Rule.DocumentedAny leaf rules m.resetRuleCache)

def Rule.DocumentedAll (leaf : D → InboundContext E → Prop) : List (Rule D) → InboundContext E → Prop
  | [], _ => True
  | r :: rs, m => Rule.Documented leaf r m ∧ Rule.DocumentedAll leaf rs m

def Rule.DocumentedAny (leaf : D → InboundContext E → Prop) : List (Rule D) → InboundContext E → Prop
  | [], _ => False
  | r :: rs, m => Rule.Documented leaf r m ∨ Rule.DocumentedAny leaf rs m

end

def RuleSet.IsMergeable (s : RuleSet E) (inner : DefaultHeadlessRule E) : Prop :=
  s.rules = [.default inner] ∧ inner.invert = false

/-- a set referred to by `r`: merged into `r`, or matched on its own -/
def RuleSet.Documented (s : RuleSet E) (r : AbstractDefaultRule E) (m : InboundContext E) : Prop :=
  (∃ inner, s.IsMergeable inner ∧ inner.OthersHold m.resetRuleCache ∧
    ∀ g, r.Requires m g ∨ inner.Requires m.resetRuleCache g → r.Hits m g ∨ inner.Hits m.resetRuleCache g) ∨
  ((¬∃ inner, s.IsMergeable inner) ∧ (∀ g, r.Requires m g → r.Hits m g) ∧
    ∃ rule ∈ s.rules, Rule.Documented (fun d => d.toAbstractDefaultRule.Documented) rule m.resetRuleCache)

namespace DefaultDNSRule

def DocumentedBody (d : DefaultDNSRule E) (m : InboundContext E) : Prop :=
  match d.ruleSetItem with
  | none => d.toAbstractDefaultRule.Documented m
  | some item => invertIf d.invert (d.OthersHold m ∧ ∃ s ∈ item.setList, s.Documented d.toAbstractDefaultRule m)

/-- `match_response` reads the bound response; without one the rule does not match -/
def Documented (d : DefaultDNSRule E) (m : InboundContext E) : Prop :=
  if d.matchResponse then
    match d.boundResponse m with
    | none => invertIf d.invert False
    | some response => d.DocumentedBody (responseContext m (some response))
  else d.DocumentedBody m

/-- the rules the logic is about: not empty, and without the flags of a rule-set reference -/
def admissible (d : DefaultDNSRule E) : Bool :=
  match d.ruleSetItem with
  | none => !d.noItems
  | some item => !item.ipCidrMatchSource && !item.ipCidrAcceptEmpty &&
      item.setList.all fun s => s.rules.all fun r => !Rule.has (fun d => d.noItems) r

end DefaultDNSRule

def DNSRuleTree.Documented (r : DNSRuleTree E) (m : InboundContext E) : Prop :=
  Rule.Documented DefaultDNSRule.Documented r m

def DNSRuleTree.admissible (r : DNSRuleTree E) : Bool := !Rule.has (fun d => !d.admissible) r

/-! ## Groups -/

theorem invertIf_iff {invert b : Bool} {P : Prop} (h : b ↔ P) : (invert ^^ b) ↔ invertIf invert P := by
  cases invert with
  | false => simpa [invertIf] using h
  | true => simp [invertIf, ← h]

namespace AbstractDefaultRule

variable {m : InboundContext E}

variable (r : AbstractDefaultRule E)

theorem ipCIDRIn_iff (hm : Plain m) (g : Group) :
    r.ipCIDRIn m g ↔ g = ipCIDRGroup m ∧ r.destinationIPCIDRItems ≠ [] := by
  have hi := hm.ignore
  cases hs : m.ipCidrMatchSource <;> cases g <;>
    simp [ipCIDRIn, ipCIDRGroup, destinationIPCIDRMatchesSource, destinationIPCIDRMatchesDestination, hs, hi]

theorem required_iff (hm : Plain m) (g : Group) : (r.groups m).required g ↔ r.Requires m g := by
  rw [groups_required, Bool.or_eq_true, r.ipCIDRIn_iff hm, Requires]
  simp

theorem satisfied_iff (hm : Plain m) (g : Group) : (r.groups m).satisfied g ↔ r.Hits m g := by
  rw [groups_satisfied, Bool.or_eq_true, Bool.and_eq_true, r.ipCIDRIn_iff hm, Hits, matchAnyItem, matchAnyAddressItem,
    any_eq_true, any_eq_true]
  constructor
  · rintro (h | ⟨⟨hg, -⟩, h⟩)
    · exact .inl h
    · exact .inr ⟨hg, h⟩
  · rintro (h | ⟨hg, i, hi, h⟩)
    · exact .inl h
    · exact .inr ⟨⟨hg, ne_nil_of_mem hi⟩, i, hi, h⟩

theorem groups_done_iff (hm : Plain m) : (r.groups m).done ↔ ∀ g, r.Requires m g → r.Hits m g := by
  rw [done_iff]
  exact forall_congr' fun g => by rw [r.required_iff hm, r.satisfied_iff hm]

theorem eval_iff (hne : r.noItems = false) (hm : Plain m) : r.eval m ↔ r.Documented m := by
  rw [eval, hne, Bool.false_or, Documented]
  refine invertIf_iff ?_
  rw [base, Bool.and_eq_true, r.groups_done_iff hm, all_eq_true, OthersHold]

end AbstractDefaultRule

/-! ## Trees and rule-sets -/

section

variable (leaf : D → InboundContext E → Prop) (rs : List (Rule D)) (m : InboundContext E)

theorem Rule.documentedAll_iff : Rule.DocumentedAll leaf rs m ↔ ∀ r ∈ rs, Rule.Documented leaf r m := by
  induction rs with
  | nil => simp [Rule.DocumentedAll]
  | cons r rs ih => simp [Rule.DocumentedAll, ih]

theorem Rule.documentedAny_iff : Rule.DocumentedAny leaf rs m ↔ ∃ r ∈ rs, Rule.Documented leaf r m := by
  induction rs with
  | nil => simp [Rule.DocumentedAny]
  | cons r rs ih => simp [Rule.DocumentedAny, ih]

end

theorem Rule.eval_iff {leafEval : D → InboundContext E → Bool} {leaf : D → InboundContext E → Prop} {bad : D → Bool}
    (hl : ∀ d, bad d = false → ∀ m, Plain m → (leafEval d m ↔ leaf d m)) (r : Rule D)
    (hr : Rule.has bad r = false) (hm : Plain m) :
    Rule.eval InboundContext.resetRuleCache leafEval r m ↔ Rule.Documented leaf r m := by
  induction r using Rule.inductionOn generalizing m with
  | default d => exact hl d hr m hm
  | logical mode invert rs ih =>
    rw [Rule.has, Rule.hasAny_eq, any_eq_false] at hr
    have hsub : ∀ r ∈ rs, Rule.eval InboundContext.resetRuleCache leafEval r m.resetRuleCache ↔
        Rule.Documented leaf r m.resetRuleCache := fun r h => ih r h (by simpa using hr r h) hm.reset
    rw [Rule.eval, Rule.evals_eq]
    cases mode with
    | and =>
      refine invertIf_iff ?_
      rw [LogicalMode.eval, all_map, all_eq_true, Rule.documentedAll_iff]
      exact forall₂_congr hsub
    | or =>
      refine invertIf_iff ?_
      rw [LogicalMode.eval, any_map, any_eq_true, Rule.documentedAny_iff]
      exact exists_congr fun r => and_congr_right fun h => hsub r h

theorem mergeableRuleIn_iff (s : RuleSet E) (inner : DefaultHeadlessRule E) :
    mergeableRuleIn s.rules = some inner ↔ s.IsMergeable inner := by
  unfold mergeableRuleIn RuleSet.IsMergeable
  split
  · next r h =>
    split_ifs with hi
    · simp only [h, false_iff, not_and]
      rintro ⟨⟩
      simpa using hi
    · simp only [h, Option.some.injEq, List.cons.injEq, and_true, Rule.default.injEq]
      constructor
      · rintro rfl
        exact ⟨rfl, by simpa using hi⟩
      · exact And.left
  · next h =>
    simp only [false_iff, not_and, reduceCtorEq]
    intro hs
    exact absurd hs (h inner)

theorem RuleSetItem.evalSet_iff (item : RuleSetItem E) (hsrc : item.ipCidrMatchSource = false)
    (hempty : item.ipCidrAcceptEmpty = false) (s : RuleSet E)
    (hs : ∀ r ∈ s.rules, Rule.has (fun d => d.noItems) r = false) (r : AbstractDefaultRule E) (hm : Plain m) :
    item.evalSet m (r.groups m) s ↔ s.Documented r m := by
  have hp : item.prepareNestedMatch m = m.resetRuleCache := by
    unfold RuleSetItem.prepareNestedMatch
    rw [hsrc, hempty]
    rfl
  unfold RuleSetItem.evalSet RuleSet.Documented
  rw [hp]
  cases hmerge : mergeableRuleIn s.rules with
  | some inner =>
    have huniq : ∀ x, s.IsMergeable x ↔ x = inner := by
      intro x
      rw [← mergeableRuleIn_iff, hmerge, Option.some.injEq]
      exact eq_comm
    simp only [huniq, exists_eq_left, not_true_eq_false, false_and, or_false, exists_eq]
    rw [Bool.and_eq_true, all_eq_true, RuleSetItem.merged, hp, done_iff]
    refine and_congr Iff.rfl (forall_congr' fun g => ?_)
    simp only [RuleGroupMatch.mergeWith, RuleMatchState.union, Bool.or_eq_true, r.required_iff hm, r.satisfied_iff hm,
      inner.toAbstractDefaultRule.required_iff hm.reset, inner.toAbstractDefaultRule.satisfied_iff hm.reset]
  | none =>
    have hex : ¬∃ inner, s.IsMergeable inner := by
      rintro ⟨inner, h⟩
      rw [← mergeableRuleIn_iff, hmerge] at h
      cases h
    have hno : ∀ inner, ¬s.IsMergeable inner := fun inner h => hex ⟨inner, h⟩
    simp only [hno, false_and, exists_false, false_or, not_false_eq_true, true_and]
    rw [Bool.and_eq_true, r.groups_done_iff hm, any_eq_true]
    refine and_congr Iff.rfl (exists_congr fun rule => and_congr_right fun hrule => ?_)
    exact Rule.eval_iff (fun d hd m hm => d.toAbstractDefaultRule.eval_iff hd hm) rule (hs rule hrule) hm.reset

namespace DefaultDNSRule

theorem abstractEval_iff (d : DefaultDNSRule E) (hd : d.admissible) (hm : Plain m) :
    d.abstractEval m ↔ d.DocumentedBody m := by
  unfold abstractEval DocumentedBody
  unfold admissible at hd
  cases hi : d.ruleSetItem with
  | none =>
    rw [hi] at hd
    exact d.toAbstractDefaultRule.eval_iff (by simpa using hd) hm
  | some item =>
    rw [hi] at hd
    simp only [Bool.and_eq_true, Bool.not_eq_true', all_eq_true] at hd
    obtain ⟨⟨hsrc, hempty⟩, hsets⟩ := hd
    refine invertIf_iff ?_
    rw [Bool.and_eq_true, all_eq_true, any_eq_true]
    refine and_congr Iff.rfl (exists_congr fun s => and_congr_right fun hs => ?_)
    exact item.evalSet_iff hsrc hempty s (hsets s hs) d.toAbstractDefaultRule hm

theorem eval_iff (d : DefaultDNSRule E) (hd : d.admissible) (hm : Plain m) : d.eval m ↔ d.Documented m := by
  unfold eval Documented
  split_ifs
  · cases d.boundResponse m with
    | none => cases d.invert <;> simp [invertIf]
    | some response => exact d.abstractEval_iff hd (hm.response (some response))
  · exact d.abstractEval_iff hd hm

end DefaultDNSRule

/-- **Match is the documented logic** for every tree of rules, in every context in which nothing is deferred. -/
theorem matchOn_documented (r : DNSRuleTree E) (hr : r.admissible = true) (m : InboundContext E)
    (hi : m.ignoreDestinationIPCIDRMatch = false) (hd : m.deferredIPCIDRMatchGroups = RuleMatchState.empty) :
    (r.matchOn m).1 = true ↔ r.Documented m := by
  have hm : Plain m := ⟨hi, hd⟩
  have hleaf : ∀ d : DefaultDNSRule E, (!d.admissible) = false → ∀ m, Plain m → (d.eval m = true ↔ d.Documented m) :=
    fun d hd m hm => d.eval_iff (by simpa using hd) hm
  have htree : Rule.has (fun d : DefaultDNSRule E => !d.admissible) r = false := by
    simpa [DNSRuleTree.admissible] using hr
  rw [(answer_of_truth (dnsRule_answers r m hm)).1]
  exact Rule.eval_iff hleaf r htree hm

def sampleRule : DNSRuleTree String :=
  .logical .and false [
    .default {
      destinationAddressItems := [.other fun q => q.destination.fqdn == "example.org"]
      sourcePortItems := [.other fun q => q.rest == "lan"]
      ruleSetItem := some { setList := [
        ⟨"direct", [.default { destinationIPCIDRItems := [.ipCIDR fun a => a == .v4 1] }]⟩,
        ⟨"proxy", [.logical .or true [.default { items := [.queryType [28]] }],
          .default { items := [.queryType [65]] }]⟩] } },
    .logical .or true [.default { items := [.queryType [255]], invert := false }]]

def sampleContext : InboundContext String :=
  { query := { source := none, destination := { fqdn := "example.net", port := 53 }, destinationAddresses := [.v4 1],
               ipVersion := 4, queryType := 1, rest := "lan" } }

theorem matchOn_documented_sample : sampleRule.admissible = true ∧ sampleRule.Documented sampleContext :=
  ⟨by decide, (matchOn_documented sampleRule (by decide) sampleContext rfl rfl).1 (by decide)⟩

end EtonifyCore.RuleMatch
