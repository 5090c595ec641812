/-
What a match reads of the DNS responses: only those that the rule binds with `match_response`, if no item looks into a
response without it (`DNSRuleTree.matchOn_congr`).

Premise: the match is an ordinary one (`Plain`), and it starts with `destinationAddressMatchFromResponse` off.
-/
import EtonifyCore.Rule.Semantics

namespace EtonifyCore.RuleMatch

open List AbstractDefaultRule DefaultDNSRule Rule
open Core (any_congr_mem all_congr_mem)

variable {E : Type}

/-! ## Items -/

/-- contexts of one query that may differ in the named responses, and in the anonymous one where no address is read from
it -/
structure Reading (m m' : InboundContext E) : Prop where
  query : m'.query = m.query
  fromResponse : m'.destinationAddressMatchFromResponse = m.destinationAddressMatchFromResponse
  matchSource : m'.ipCidrMatchSource = m.ipCidrMatchSource
  acceptEmpty : m'.ipCidrAcceptEmpty = m.ipCidrAcceptEmpty
  ignore : m'.ignoreDestinationIPCIDRMatch = m.ignoreDestinationIPCIDRMatch
  response : m'.dnsResponse = m.dnsResponse ∨ m.destinationAddressMatchFromResponse = false

namespace Reading

variable {m m' : InboundContext E}

section

variable (h : Reading m m')
include h

theorem reset : Reading m.resetRuleCache m'.resetRuleCache :=
  ⟨h.query, h.fromResponse, rfl, rfl, h.ignore, h.response⟩

theorem prepare (item : RuleSetItem E) : Reading (item.prepareNestedMatch m) (item.prepareNestedMatch m') :=
  ⟨h.query, h.fromResponse, rfl, rfl, h.ignore, h.response⟩

theorem addressItem_eq (i : AddressItem) : i.matchOn m = i.matchOn m' := by
  rcases h.response with hr | hf
  · cases i <;> simp [AddressItem.matchOn, ipCIDRItemMatch, InboundContext.dnsResponseAddressesForMatch, h.query,
      h.fromResponse, h.matchSource, h.acceptEmpty, hr]
  · cases i <;> simp [AddressItem.matchOn, ipCIDRItemMatch, h.query, h.fromResponse, h.matchSource, h.acceptEmpty, hf]

theorem ruleItem_eq {i : RuleItem E}
    (hi : i.readsResponse = false ∨ m'.dnsResponse = m.dnsResponse) : i.matchOn m = i.matchOn m' := by
  rcases hi with hi | hr
  · cases i <;> simp_all [RuleItem.matchOn, ipCIDRItemMatch, h.query, RuleItem.readsResponse]
  · cases i <;> simp [RuleItem.matchOn, ipCIDRItemMatch, h.query, hr]

section

variable {is : List (RuleItem E)} (hi : is.any (·.readsResponse) = false ∨ m'.dnsResponse = m.dnsResponse)
include hi

theorem items_all_eq : is.all (RuleItem.matchOn m) = is.all (RuleItem.matchOn m') := by
  refine all_congr_mem fun i hmem => ?_
  rw [h.ruleItem_eq (hi.imp_left fun hn => by simpa using any_eq_false.mp hn i hmem)]

theorem matchAnyItem_eq : matchAnyItem is m = matchAnyItem is m' := by
  refine any_congr_mem fun i hmem => ?_
  rw [h.ruleItem_eq (hi.imp_left fun hn => by simpa using any_eq_false.mp hn i hmem)]

end

theorem matchAnyAddressItem_eq (is : List AddressItem) : matchAnyAddressItem is m = matchAnyAddressItem is m' := by
  exact any_congr_mem fun i _ => by rw [h.addressItem_eq]

end

/-! ## Default rules -/

variable {r : AbstractDefaultRule E}

section

variable (h : Reading m m')
include h

section

variable (hr : r.readsResponse = false ∨ m'.dnsResponse = m.dnsResponse)
include hr

theorem others_eq : r.items.all (RuleItem.matchOn m) = r.items.all (RuleItem.matchOn m') := by
  refine h.items_all_eq (hr.imp_left fun hn => ?_)
  simp only [AbstractDefaultRule.readsResponse, Bool.or_eq_false_iff] at hn
  exact hn.1.1.1.1

theorem groups_eq : r.groups m = r.groups m' := by
  refine groups_congr (fun g => ?_) (fun g => ?_) (h.matchAnyAddressItem_eq _)
  · cases g <;> simp [ipCIDRIn, destinationIPCIDRMatchesSource,
      destinationIPCIDRMatchesDestination, h.matchSource, h.ignore]
  · refine h.matchAnyItem_eq (hr.imp_left fun hn => ?_)
    simp only [AbstractDefaultRule.readsResponse, Bool.or_eq_false_iff] at hn
    obtain ⟨⟨⟨⟨-, hs⟩, hsp⟩, hd⟩, hdp⟩ := hn
    cases g
    · exact hs
    · exact hsp
    · exact hd
    · exact hdp

theorem eval_eq : r.eval m = r.eval m' := by
  rw [AbstractDefaultRule.eval, AbstractDefaultRule.eval, base, base, h.others_eq hr, h.groups_eq hr]

end

/-! ## Rule-sets -/

theorem headless_eq (r : HeadlessRule E) : r.eval m = r.eval m' := by
  refine eval_congr (R := Reading) (fun _ _ h => h.reset) (fun d _ x x' h => ?_) r (has_false r) h
  exact h.eval_eq (r := d.toAbstractDefaultRule) (.inl d.noResponse)

theorem evalSet_eq (item : RuleSetItem E) (outer : RuleGroupMatch) (s : RuleSet E) :
    item.evalSet m outer s = item.evalSet m' outer s := by
  have hp := h.prepare item
  unfold RuleSetItem.evalSet RuleSetItem.merged
  cases mergeableRuleIn s.rules with
  | some branch =>
    dsimp only
    rw [hp.others_eq (.inl branch.noResponse), hp.groups_eq (.inl branch.noResponse)]
  | none =>
    dsimp only
    rw [any_congr_mem fun r _ => hp.headless_eq r]

theorem abstractEval_eq (d : DefaultDNSRule E)
    (hr : d.readsResponse = false ∨ m'.dnsResponse = m.dnsResponse) : d.abstractEval m = d.abstractEval m' := by
  unfold abstractEval
  cases d.ruleSetItem with
  | none => exact h.eval_eq hr
  | some item =>
    dsimp only
    rw [h.others_eq hr, h.groups_eq hr]
    rw [any_congr_mem fun s _ => h.evalSet_eq item (d.groups m') s]

end

end Reading

/-! ## Rule trees -/

/-- an item looks into a response although the rule has no `match_response` -/
def DefaultDNSRule.readsUnbound (d : DefaultDNSRule E) : Bool := d.readsResponse && !d.matchResponse

variable {m m' : InboundContext E}

theorem DefaultDNSRule.eval_reading {d : DefaultDNSRule E} (h : Reading m m')
    (hd : d.readsUnbound = false) (hb : d.matchResponse → d.boundResponse m = d.boundResponse m') :
    d.eval m = d.eval m' := by
  unfold DefaultDNSRule.eval
  cases hmr : d.matchResponse with
  | false =>
    have hread : d.readsResponse = false := by simpa [readsUnbound, hmr] using hd
    simpa using h.abstractEval_eq d (.inl hread)
  | true =>
    rw [← hb hmr]
    cases d.boundResponse m with
    | none => rfl
    | some response =>
      have hr : Reading (responseContext m (some response)) (responseContext m' (some response)) :=
        ⟨h.query, rfl, h.matchSource, h.acceptEmpty, h.ignore, .inl rfl⟩
      simpa using hr.abstractEval_eq d (.inr rfl)

namespace DNSRuleTree

theorem responseTagsIn_eq (rs : List (DNSRuleTree E)) : responseTagsIn rs = rs.flatMap responseTags := by
  induction rs with
  | nil => rfl
  | cons r rs ih => rw [responseTagsIn, ih, flatMap_cons]

/-- contexts with the same responses for everything that a rule binds -/
structure SameBound (r : DNSRuleTree E) (m m' : InboundContext E) : Prop where
  tagged : ∀ tag ∈ responseTags r, m.namedDNSResponses tag = m'.namedDNSResponses tag
  anonymous : matchResponseAnonymous r = true → m.dnsResponse = m'.dnsResponse

theorem SameBound.sub {mode : LogicalMode} {invert : Bool} {rs : List (DNSRuleTree E)}
    (h : SameBound (.logical mode invert rs) m m') {r : DNSRuleTree E} (hr : r ∈ rs) : SameBound r m m' := by
  refine ⟨fun tag ht => h.tagged tag ?_, fun ha => h.anonymous ?_⟩
  · rw [responseTags, responseTagsIn_eq, mem_flatMap]
    exact ⟨r, hr, ht⟩
  · rw [matchResponseAnonymous, has, hasAny_eq, any_eq_true]
    exact ⟨r, hr, ha⟩

theorem SameBound.bound {d : DefaultDNSRule E} (h : SameBound (.default d) m m')
    (hd : d.matchResponse) : d.boundResponse m = d.boundResponse m' := by
  unfold boundResponse
  by_cases ht : d.matchResponseTag = ""
  · simpa [ht] using h.anonymous (by simp [matchResponseAnonymous, has, hd, ht])
  · simpa [ht] using h.tagged d.matchResponseTag (by simp [responseTags, ht])

theorem eval_reading {r : DNSRuleTree E} (h : Reading m m')
    (hr : has readsUnbound r = false) (hb : SameBound r m m') : r.eval m = r.eval m' := by
  -- resetting the cache keeps the responses, so the sub-rules see the same ones
  unfold eval
  induction r using inductionOn generalizing m m' with
  | default d => exact eval_reading h hr hb.bound
  | logical mode invert rs ih =>
    rw [has, hasAny_eq, any_eq_false] at hr
    rw [Rule.eval, Rule.eval, evals_eq, evals_eq]
    congr 2
    refine map_congr_left fun r hmem => ih r hmem h.reset (by simpa using hr r hmem) ?_
    exact ⟨(hb.sub hmem).tagged, (hb.sub hmem).anonymous⟩

/-- **A match reads the bound responses only.** -/
theorem matchOn_congr {r : DNSRuleTree E} (hm : Plain m) (hm' : Plain m') (h : Reading m m')
    (hr : has readsUnbound r = false) (hb : SameBound r m m') :
    (r.matchOn m).1 = (r.matchOn m').1 := by
  rw [(answer_of_truth (dnsRule_answers r m hm)).1, (answer_of_truth (dnsRule_answers r m' hm')).1]
  exact eval_reading h hr hb

end DNSRuleTree

end EtonifyCore.RuleMatch
