/-
The walk over the rules against a sequential reference interpreter (`sequential`), which runs each `evaluate` query to
completion before it looks at the next rule, so it has no futures.

`Sim` relates the states. The windows are read off the trace: `tested i t t'` says that a rule was about to be matched
after future `i` was tested at tick `t` by `settleDNSFutures` and at tick `t'` by the walk.

Premises: the rules pass `validateLegacyDNSModeDisabledRules`, and every query ends.
-/
import EtonifyCore.DNS.Moves
import EtonifyCore.Rule.Reading

namespace EtonifyCore.DNSWalk

open Function List
open EtonifyCore.RuleMatch
open EtonifyCore.DNSRules DNSRuleTree Rule

variable {E : Type}

/-! ## The reference -/

structure Evaluated where
  outcome : Outcome
  transport : Transport
deriving DecidableEq, Repr

structure SeqState where
  options : DNSQueryOptions
  anonymous : Option Evaluated := none
  named : String → Option Evaluated := fun _ => none
  launched : ℕ := 0

def slotResponse (slot : Option Evaluated) : Option Msg := slot.bind (·.outcome.response?)

def SeqState.context (env : Env E) (s : SeqState) : InboundContext E :=
  matchContext env.metadata (slotResponse s.anonymous) fun tag => slotResponse (s.named tag)

def sequentialEvaluate (env : Env E) (server tag : String) (options : RouteOptions) (s : SeqState) : SeqState :=
  match env.transport server with
  | none => if tag = "" then { s with anonymous := none } else s
  | some transport =>
    let query := finalizeExchangeOptions env (applyDNSRouteOptions s.options options)
    let evaluated : Evaluated := ⟨env.outcome s.launched transport query, transport⟩
    let s := { s with launched := s.launched + 1 }
    if tag = "" then { s with anonymous := some evaluated }
    else { s with named := Function.update s.named tag (some evaluated) }

/-- the action of a rule that matched: the result, or the state in which the next rule is looked at -/
def sequentialAction (env : Env E) (rule : DNSRule E) (s : SeqState) : Exchanged ⊕ SeqState :=
  match rule.action with
  | .routeOptions options => .inr { s with options := applyDNSRouteOptions s.options options }
  | .evaluate server tag _ options => .inr (sequentialEvaluate env server tag options s)
  | .respond =>
    let tag := rule.cond.matchResponseTag
    let slot := if tag ≠ "" then s.named tag else s.anonymous
    .inl ⟨respondResult (slotResponse slot) (slot.map (·.transport)), none⟩
  | .route server _ options =>
    match resolveDNSRoute env server options s.options with
    | none => .inr s
    | some (transport, options) => .inl (finalQuery env transport options)
  | .reject action => .inl ⟨rejectResult env action, none⟩
  | .predefined response => .inl ⟨{ response := some response }, none⟩

def sequentialRule (env : Env E) (rule : DNSRule E) (s : SeqState) : Exchanged ⊕ SeqState :=
  if (rule.cond.matchOn (s.context env)).1 then sequentialAction env rule s else .inr s

def sequentialLoop (env : Env E) : List (DNSRule E) → SeqState → Exchanged
  | [], s => finalQuery env env.defaultTransport s.options
  | rule :: rules, s =>
    match sequentialRule env rule s with
    | .inl x => x
    | .inr s => sequentialLoop env rules s

def sequential (env : Env E) : Exchanged := sequentialLoop env env.rules { options := env.options }

/-! ## What the checks establish -/

def evaluateTags (rules : List (DNSRule E)) : List String :=
  rules.flatMap fun r => (r.action.evaluateTag.filter (· ≠ "")).toList

/-- what the walk needs of rules that passed the checks -/
structure Checked (rules : List (DNSRule E)) : Prop where
  bound : ∀ r ∈ rules, Rule.has DefaultDNSRule.readsUnbound r.cond = false
  respond : ∀ r ∈ rules, r.action = .respond → r.cond.matchResponseTag = "" → DNSRuleTree.responseTags r.cond = []
  distinct : (evaluateTags rules).Nodup

variable {lookup : String → Option RuleSetMetadata} {use : ResponseUse}

variable {action : DNSRuleAction}

theorem validateDefaultRule_ok
    {d : DefaultDNSRule E} (h : validateDefaultRule lookup action (defaultOptions d) = .ok use) :
    d.readsUnbound = false ∧ ∀ tag ∈ responseTags (.default d), tag ∈ use.referencedTags := by
  unfold validateDefaultRule at h
  rw [ite_eq_iff] at h
  obtain ⟨-, h⟩ | ⟨hfields, h⟩ := h
  · simp at h
  split at h
  · simp at h
  rw [ite_eq_iff] at h
  obtain ⟨-, h⟩ | ⟨-, h⟩ := h
  · simp at h
  simp only [Except.ok.injEq] at h
  subst h
  constructor
  · rw [DefaultDNSRule.readsUnbound, ← Bool.not_eq_true]
    intro hread
    apply hfields
    simp only [Bool.and_eq_true] at hread ⊢
    exact ⟨by simp [defaultOptions, hread.1], hread.2⟩
  · intro tag htag
    by_cases ht : d.matchResponseTag = ""
    · simp [responseTags, ht] at htag
    · simpa [responseTags, defaultOptions, ht, d.tagBound ht] using htag

variable {i : ℕ}

theorem validateSubRules_ok {rs : List (DNSRuleTree E)}
    (ih : ∀ r ∈ rs, ∀ action use, validateRuleTree lookup action (Rule.map defaultOptions r) = .ok use →
      has DefaultDNSRule.readsUnbound r = false ∧ ∀ tag ∈ responseTags r, tag ∈ use.referencedTags)
    {use use' : ResponseUse} (h : validateSubRules lookup i use (rs.map (Rule.map defaultOptions)) = .ok use') :
    (∀ tag ∈ use.referencedTags, tag ∈ use'.referencedTags) ∧ ∀ r ∈ rs,
      has DefaultDNSRule.readsUnbound r = false ∧ ∀ tag ∈ responseTags r, tag ∈ use'.referencedTags := by
  induction rs generalizing i use with
  | nil =>
    simp only [map_nil, validateSubRules, Except.ok.injEq] at h
    subst h
    exact ⟨fun _ ht => ht, by simp⟩
  | cons r rs ihrs =>
    rw [map_cons, validateSubRules] at h
    split at h
    · simp at h
    · rename_i sub hsub
      obtain ⟨hread, htags⟩ := ih r mem_cons_self _ _ hsub
      obtain ⟨hkeep, hrest⟩ := ihrs (fun r hr => ih r (mem_cons_of_mem _ hr)) h
      refine ⟨fun tag ht => hkeep tag (mem_append_left _ ht), fun r' hr' => ?_⟩
      rcases mem_cons.mp hr' with rfl | hmem
      · exact ⟨hread, fun tag ht => hkeep tag (mem_append_right _ (htags tag ht))⟩
      · exact hrest r' hmem

theorem validateRuleTree_ok (r : DNSRuleTree E)
    (h : validateRuleTree lookup action (Rule.map defaultOptions r) = .ok use) :
    has DefaultDNSRule.readsUnbound r = false ∧ ∀ tag ∈ responseTags r, tag ∈ use.referencedTags := by
  induction r using inductionOn generalizing action use with
  | default d => exact validateDefaultRule_ok h
  | logical mode invert rs ih =>
    rw [Rule.map, mapAll_eq, validateRuleTree] at h
    split at h
    · simp at h
    · rename_i sub hsub
      obtain ⟨-, hrs⟩ := validateSubRules_ok (fun r hr action use h => ih r hr h) hsub
      have hsame : use.referencedTags = sub.referencedTags := by
        split_ifs at h <;> simp only [Except.ok.injEq] at h <;> rw [← h]
      rw [has, hasAny_eq, responseTags, responseTagsIn_eq, hsame, any_eq_false]
      refine ⟨fun r hr => by simp [(hrs r hr).1], fun tag ht => ?_⟩
      obtain ⟨r, hr, htag⟩ := mem_flatMap.mp ht
      exact (hrs r hr).2 tag htag

theorem validateRuleTree_respond {r : DNSRuleTree E}
    (h : validateRuleTree lookup .respond (Rule.map defaultOptions r) = .ok use) (ht : r.matchResponseTag = "") :
    responseTags r = [] := by
  cases r with
  | default d => simpa [responseTags, matchResponseTag] using ht
  | logical mode invert rs =>
    obtain ⟨-, htags⟩ := validateRuleTree_ok _ h
    rw [Rule.map, mapAll_eq, validateRuleTree] at h
    split at h
    · simp at h
    · rename_i sub hsub
      rw [if_pos (show DNSRuleAction.respond.isRespond from rfl), ite_eq_iff] at h
      obtain ⟨hempty, h⟩ | ⟨-, h⟩ := h
      · simp only [Except.ok.injEq] at h
        rw [← h, isEmpty_iff.mp hempty] at htags
        exact eq_nil_iff_forall_not_mem.mpr fun tag hmem => by simpa using htags tag hmem
      · simp at h

variable {s s' : ValidateState}

theorem validateUse_tags (h : validateUse i use s = .ok s') : s'.definedTags = s.definedTags := by
  unfold validateUse at h
  split_ifs at h
  split at h
  · simp at h
  · simp only [Except.ok.injEq] at h
    rw [← h]

theorem validateEvaluate_tags (h : validateEvaluate i action s = .ok s') (hs : s.definedTags.Nodup) :
    s'.definedTags = s.definedTags ++ (action.evaluateTag.filter (· ≠ "")).toList ∧ s'.definedTags.Nodup := by
  unfold validateEvaluate at h
  cases htag : action.evaluateTag with
  | none =>
    simp only [htag, Except.ok.injEq] at h
    simpa [← h] using hs
  | some tag =>
    simp only [htag] at h
    by_cases he : tag = ""
    · simp only [he, if_true, Except.ok.injEq] at h
      simpa [← h, he, Option.filter] using hs
    · rw [if_neg he, ite_eq_iff] at h
      obtain ⟨-, h⟩ | ⟨hnew, h⟩ := h
      · simp at h
      · simp only [Except.ok.injEq] at h
        have hmem : tag ∉ s.definedTags := by simpa using hnew
        simp [← h, he, Option.filter, nodup_append, hs]
        exact fun t ht => fun heq => hmem (heq ▸ ht)

variable {rules : List (DNSRule E)}

theorem validateLoop_ok (h : validateLoop lookup i s (rules.map DNSRule.options) = .ok s') (hs : s.definedTags.Nodup) :
    (s.definedTags ++ evaluateTags rules).Nodup ∧ ∀ r ∈ rules, ∃ use,
      validateRuleTree lookup r.action (Rule.map defaultOptions r.cond) = .ok use := by
  induction rules generalizing i s with
  | nil => simpa [evaluateTags] using hs
  | cons r rules ih =>
    rw [map_cons, validateLoop] at h
    split at h
    · simp at h
    · rename_i s1 h1
      unfold validateRule at h1
      split at h1
      · simp at h1
      · rename_i use htree
        split at h1
        · simp at h1
        · rename_i s2 huse
          have h2 := validateUse_tags huse
          have hnodup : s2.definedTags.Nodup := by rw [h2]; exact hs
          obtain ⟨htags, hs1⟩ := validateEvaluate_tags h1 hnodup
          obtain ⟨hrest, hall⟩ := ih h hs1
          constructor
          · rw [htags, h2, append_assoc] at hrest
            exact hrest
          · exact forall_mem_cons.2 ⟨⟨use, htree⟩, hall⟩

theorem checked_of_valid
    (h : (validateLegacyDNSModeDisabledRules lookup (rules.map DNSRule.options)).isOk) : Checked rules := by
  unfold validateLegacyDNSModeDisabledRules at h
  split at h
  · simp [Except.isOk, Except.toBool] at h
  · rename_i s hloop
    obtain ⟨hnodup, hall⟩ := validateLoop_ok hloop nodup_nil
    refine ⟨fun r hr => ?_, fun r hr hact ht => ?_, by simpa using hnodup⟩
    · obtain ⟨use, htree⟩ := hall r hr
      exact (validateRuleTree_ok _ htree).1
    · obtain ⟨use, htree⟩ := hall r hr
      rw [hact] at htree
      exact validateRuleTree_respond htree ht

/-! ## Simulation -/

def evaluatedAt (st : St E) (i : ℕ) : Option Evaluated := st.futures[i]?.map fun f => ⟨f.outcome, f.transport⟩

def tagAt (st : St E) (i : ℕ) : Option String := st.futures[i]?.map (·.tag)

/-- the tagged responses that have been collected are those of the settled futures -/
def Collected (st : St E) : Prop :=
  ∀ (i : ℕ) (f : Future), st.futures[i]? = some f → f.tag ≠ "" →
    st.namedResponses f.tag = (if f.settled then f.outcome.response? else none) ∧
      (f.settled = true → st.namedTransports f.tag = some f.transport)

/-- the walk and the reference look at the same rule, and the walk has launched what the reference has evaluated -/
structure Sim (env : Env E) (st : St E) (s : SeqState) : Prop where
  query : st.metadata.query = env.metadata.query
  plain : st.metadata.ignoreDestinationIPCIDRMatch = false
  options : st.effectiveOptions = s.options
  launched : st.futures.length = s.launched
  room : st.futures.length + (env.rules.drop st.ruleIndex).length ≤ env.rules.length
  anonymous : st.anonymousFuture.bind (evaluatedAt st) = s.anonymous
  anonymousIn : ∀ i, st.anonymousFuture = some i → i < st.futures.length
  named : ∀ tag, (st.namedFutures tag).bind (evaluatedAt st) = s.named tag
  owner : ∀ tag i, st.namedFutures tag = some i ↔ tag ≠ "" ∧ tagAt st i = some tag
  collected : Collected st
  unset : ∀ tag, st.namedFutures tag = none → st.namedResponses tag = none
  fresh : ∀ tag ∈ evaluateTags (env.rules.drop st.ruleIndex), st.namedFutures tag = none
  idle : st.armedRules = []
  noTerminal : st.terminalFuture = none

theorem Settles.evaluatedAt_eq {st st' : St E} (h : Settles st st') (i : ℕ) : evaluatedAt st' i = evaluatedAt st i := by
  have e := congrArg (Option.map fun q : String × Transport × Outcome => (⟨q.2.2, q.2.1⟩ : Evaluated)) (h.query_eq i)
  rw [Option.map_map, Option.map_map] at e
  exact e

theorem Settles.tagAt_eq {st st' : St E} (h : Settles st st') (i : ℕ) : tagAt st' i = tagAt st i := by
  have e := congrArg (Option.map Prod.fst) (h.query_eq i)
  rw [Option.map_map, Option.map_map] at e
  exact e

namespace Sim

variable {env : Env E} {st st' : St E} {s : SeqState}

section

variable (h : Sim env st s)
include h

theorem retime (clock : ℕ) (trace : List Event) : Sim env { st with clock, trace } s :=
  { h with }

theorem unique {i j : ℕ} {f g : Future} (hf : st.futures[i]? = some f) (hg : st.futures[j]? = some g)
    (ht : f.tag ≠ "") (e : g.tag = f.tag) : j = i := by
  have hi : st.namedFutures f.tag = some i := (h.owner _ _).mpr ⟨ht, by simp [tagAt, hf]⟩
  have hj : st.namedFutures f.tag = some j := (h.owner _ _).mpr ⟨ht, by simp [tagAt, hg, e]⟩
  simpa [hi] using hj.symm

theorem of_settles (hs : Settles st st')
    (hc : Collected st') (hu : ∀ tag, st.namedFutures tag = none → st'.namedResponses tag = none) : Sim env st' s where
  query := by rw [hs.metadata, h.query]
  plain := by rw [hs.metadata, h.plain]
  options := by rw [hs.effectiveOptions, h.options]
  launched := by rw [hs.length, h.launched]
  room := by rw [hs.length, hs.ruleIndex]; exact h.room
  anonymous := by
    rw [hs.anonymousFuture, ← h.anonymous]
    exact congrArg _ (funext hs.evaluatedAt_eq)
  anonymousIn := by rw [hs.anonymousFuture, hs.length]; exact h.anonymousIn
  named := by
    intro tag
    rw [hs.namedFutures, ← h.named]
    exact congrArg _ (funext hs.evaluatedAt_eq)
  owner := by
    intro tag i
    rw [hs.namedFutures, hs.tagAt_eq]
    exact h.owner tag i
  collected := hc
  unset := by rw [hs.namedFutures]; exact hu
  fresh := by rw [hs.ruleIndex, hs.namedFutures]; exact h.fresh
  idle := hs.armedRules.trans h.idle
  noTerminal := hs.terminalFuture.trans h.noTerminal

theorem settleFuture (i : ℕ) : Sim env (settleFuture env st i) s := by
  have hs := settleFuture_settles env st i
  obtain ⟨e, -⟩ | ⟨f, hf, hun, ⟨hb, e⟩ | ⟨hdone, htag, e⟩⟩ := settleFuture_cases env st i
  · rw [e]
    exact h
  · refine h.of_settles hs (fun j g hg hgt => ?_) (fun tag hn => ?_)
    · rw [e] at hg ⊢
      rcases eq_or_ne i j with rfl | hij
      · rw [List.getElem?_set_self (List.getElem?_eq_some_iff.mp hf).1, Option.some.injEq] at hg
        subst hg
        have hd : env.done st.clock i = false := by simpa [hgt] using hb
        simpa [hun, hd] using (h.collected i f hf hgt).1
      · rw [List.getElem?_set_ne hij] at hg
        exact h.collected j g hg hgt
    · rw [e]
      exact h.unset tag hn
  · refine h.of_settles hs (fun j g hg hgt => ?_) (fun tag hn => ?_)
    · rw [e] at hg ⊢
      rcases eq_or_ne i j with rfl | hij
      · rw [List.getElem?_set_self (List.getElem?_eq_some_iff.mp hf).1, Option.some.injEq] at hg
        subst hg
        simp [hdone]
      · rw [List.getElem?_set_ne hij] at hg
        have hne : g.tag ≠ f.tag := fun he => hij (h.unique hf hg htag he).symm
        simpa [hne] using h.collected j g hg hgt
    · have hown : st.namedFutures f.tag = some i := (h.owner _ _).mpr ⟨htag, by simp [tagAt, hf]⟩
      have hne : tag ≠ f.tag := fun he => by simp [he, hown] at hn
      rw [e]
      simpa [hne] using h.unset tag hn

theorem settleDNSFutures : Sim env (settleDNSFutures env st) s := by
  unfold DNSWalk.settleDNSFutures
  induction List.range st.futures.length generalizing st with
  | nil => exact h
  | cons i is ih => exact ih (h.settleFuture i)

end

end Sim

/-! ## Waiting for the bound responses -/

/-- a future that is not settled had not resolved when it was last tested -/
def Tested (env : Env E) (st : St E) (i : ℕ) : Prop :=
  ∀ f, st.futures[i]? = some f → f.settled = true ∨ env.done f.checkedAt i = false

theorem settleFuture_tested (env : Env E) (st : St E) (i : ℕ) : Tested env (settleFuture env st i) i := by
  have hnew : ∀ {f : Future}, st.futures[i]? = some f → ∀ g,
      (st.futures.set i { f with settled := env.done st.clock i, checkedAt := st.clock })[i]? = some g →
        g.settled ∨ env.done g.checkedAt i = false := by
    intro f hf g hg
    rw [List.getElem?_set_self (List.getElem?_eq_some_iff.mp hf).1, Option.some.injEq] at hg
    subst hg
    cases env.done st.clock i <;> simp
  obtain ⟨e, h⟩ | ⟨f, hf, -, ⟨-, e⟩ | ⟨-, -, e⟩⟩ := settleFuture_cases env st i
  · rw [e]
    exact fun f hf => .inl (h f hf)
  · rw [e]
    exact hnew hf
  · rw [e]
    exact hnew hf

variable {env : Env E} {st : St E}

theorem Tested.settleFuture {j : ℕ} (h : Tested env st j) (i : ℕ) : Tested env (settleFuture env st i) j := by
  rcases eq_or_ne i j with rfl | hij
  · exact settleFuture_tested env st i
  · have hother : (DNSWalk.settleFuture env st i).futures[j]? = st.futures[j]? := by
      obtain ⟨e, -⟩ | ⟨f, -, -, ⟨-, e⟩ | ⟨-, -, e⟩⟩ := settleFuture_cases env st i
      · rw [e]
      · rw [e]
        exact List.getElem?_set_ne hij
      · rw [e]
        exact List.getElem?_set_ne hij
    intro f hf
    exact h f (hother ▸ hf)

theorem settleDNSFutures_tested (env : Env E) (st : St E) (i : ℕ) : Tested env (settleDNSFutures env st) i := by
  have hfold : ∀ (is : List ℕ) (st : St E), Tested env st i ∨ i ∈ is →
      Tested env (is.foldl (settleFuture env) st) i := by
    intro is
    induction is with
    | nil => exact fun st h => h.resolve_right (by simp)
    | cons j is ih =>
      intro st h
      refine ih _ ?_
      rcases h with h | h
      · exact .inl (h.settleFuture j)
      · rcases mem_cons.mp h with rfl | hmem
        · exact .inl (settleFuture_tested env st i)
        · exact .inr hmem
  refine hfold _ st ?_
  by_cases hi : i < st.futures.length
  · exact .inr (mem_range.mpr hi)
  · exact .inl fun f hf => absurd (List.getElem?_eq_some_iff.mp hf).1 hi

structure Ticks (st st' : St E) : Prop where
  frame : st' = { st with clock := st'.clock, trace := st'.trace }
  clock : st.clock ≤ st'.clock
  trace : st.trace <:+ st'.trace

namespace Ticks

variable {st st' st'' : St E}

theorem refl (st : St E) : Ticks st st := ⟨rfl, le_rfl, suffix_rfl⟩

theorem trans (h : Ticks st st') (h' : Ticks st' st'') : Ticks st st'' := by
  refine ⟨?_, h.clock.trans h'.clock, h.trace.trans h'.trace⟩
  have e := h'.frame
  rw [h.frame] at e
  exact e

theorem tick (st : St E) : Ticks st st.tick := ⟨rfl, Nat.le_succ _, suffix_rfl⟩

theorem log (st : St E) (e : Event) : Ticks st (st.log e) := ⟨rfl, le_rfl, suffix_cons _ _⟩

end Ticks

theorem Sim.ticks {st st' : St E} {s : SeqState} (h : Sim env st s) (ht : Ticks st st') : Sim env st' s := by
  rw [ht.frame]
  exact h.retime _ _

/-- no tagged future has resolved between the two tests made of it before a match -/
def NoWindow (env : Env E) (trace : List Event) : Prop :=
  ∀ i t t', .tested i t t' ∈ trace → env.done t i = env.done t' i

theorem NoWindow.of_suffix {l l' : List Event} (h : NoWindow env l') (hs : l <:+ l') : NoWindow env l :=
  fun i t t' hm => h i t t' (hs.subset hm)

theorem awaitTagged_spec (env : Env E) (is : List ℕ) (st : St E) : Ticks st (awaitTagged env is st).2 ∧
    (∀ i, (awaitTagged env is st).1 = some i → i ∈ is ∧ st.clock < env.resolvesAt i) ∧
    ((awaitTagged env is st).1 = none → ∀ i ∈ is, ∀ f, st.futures[i]? = some f →
      ∃ t, .tested i f.checkedAt t ∈ (awaitTagged env is st).2.trace ∧ env.done t i) := by
  induction is generalizing st with
  | nil => exact ⟨Ticks.refl st, by simp [awaitTagged], by simp⟩
  | cons i is ih =>
    -- the state after the test of the first future
    obtain ⟨st1, ht1, hfut, hclock, hlog, e⟩ : ∃ st1 : St E, Ticks st st1 ∧ st1.futures = st.futures ∧
        st.clock ≤ st1.clock ∧ (∀ f, st.futures[i]? = some f → .tested i f.checkedAt st.clock ∈ st1.trace) ∧
        awaitTagged env (i :: is) st = if env.done st.clock i then awaitTagged env is st1 else (some i, st1) := by
      rw [awaitTagged]
      cases hf : st.futures[i]? with
      | none =>
        exact ⟨st.tick, Ticks.tick st, rfl, Nat.le_succ _, by simp, rfl⟩
      | some f =>
        refine ⟨(st.log (.tested i f.checkedAt st.clock)).tick, (Ticks.log st _).trans (Ticks.tick _), rfl,
          Nat.le_succ _, ?_, rfl⟩
        intro g hg
        obtain rfl : f = g := by simpa using hg
        exact mem_cons_self
    rw [e]
    cases hd : env.done st.clock i with
    | false =>
      have hlt : st.clock < env.resolvesAt i := by simpa [Env.done] using hd
      exact ⟨ht1, fun j hj => by simp_all, by simp⟩
    | true =>
      obtain ⟨ht, hsome, hnone⟩ := ih st1
      refine ⟨ht1.trans ht, fun j hj => ?_, fun hn j hj f hf => ?_⟩
      · obtain ⟨hmem, hlt⟩ := hsome j hj
        exact ⟨mem_cons_of_mem _ hmem, by omega⟩
      · rcases mem_cons.mp hj with rfl | hmem
        · exact ⟨st.clock, ht.trace.subset (hlog f hf), hd⟩
        · exact hnone hn j hmem f (by rw [hfut]; exact hf)

theorem awaitAnonymous_spec (env : Env E) (st : St E) : Ticks st (awaitAnonymous env st).2 ∧
    (∀ i, (awaitAnonymous env st).1 = some i → st.anonymousFuture = some i ∧ st.clock < env.resolvesAt i) ∧
    ((awaitAnonymous env st).1 = none → ∀ i, st.anonymousFuture = some i →
      env.done (awaitAnonymous env st).2.clock i) := by
  unfold awaitAnonymous
  cases st.anonymousFuture with
  | none => exact ⟨Ticks.refl st, by simp, by simp⟩
  | some i =>
    dsimp only [resolved]
    cases hd : env.done st.clock i with
    | false =>
      have hlt : st.clock < env.resolvesAt i := by simpa [Env.done] using hd
      exact ⟨Ticks.tick st, by simpa using hlt, by simp⟩
    | true =>
      refine ⟨Ticks.tick st, by simp, fun _ j hj => ?_⟩
      obtain rfl : i = j := by simpa using hj
      exact Env.done_mono hd (Nat.le_succ _)

/-! ## One match -/

structure Bound (env : Env E) (rule : DNSRule E) (st : St E) : Prop where
  tagged : ∀ tag ∈ DNSRuleTree.responseTags rule.cond, ∀ i, st.namedFutures tag = some i →
    ∀ f, st.futures[i]? = some f → f.settled = true
  anonymous : rule.cond.matchResponseAnonymous = true → ∀ i, st.anonymousFuture = some i → env.done st.clock i = true

variable {rule : DNSRule E}

theorem Bound.of_not_hasBindings (h : hasBindings rule.cond = false) : Bound env rule st := by
  simp only [hasBindings, Bool.or_eq_false_iff, Bool.not_eq_false', List.isEmpty_iff,
    matchResponseTags, List.reverse_eq_nil_iff, List.dedup_eq_nil] at h
  exact ⟨by simp [h.1], by simp [h.2]⟩

theorem Bound.of_await (ht : ∀ i, Tested env st i)
    (hn : (awaitFuture env rule st).1 = none) (hw : NoWindow env (awaitFuture env rule st).2.trace) :
    Bound env rule (awaitFuture env rule st).2 := by
  unfold awaitFuture at hn hw ⊢
  obtain ⟨hticks, -, hall⟩ := awaitTagged_spec env (rule.cond.matchResponseTags.filterMap st.namedFutures) st
  rcases hat : awaitTagged env (rule.cond.matchResponseTags.filterMap st.namedFutures) st with ⟨_ | i, st1⟩
  · rw [hat] at hticks hall hn hw
    dsimp only at hticks hall hn hw ⊢
    have hframe : st1.namedFutures = st.namedFutures ∧ st1.futures = st.futures := by
      rw [hticks.frame]
      exact ⟨rfl, rfl⟩
    -- a future of the rule that was not settled would have resolved between its two tests
    have htagged : NoWindow env st1.trace → ∀ tag ∈ responseTags rule.cond, ∀ i,
        st1.namedFutures tag = some i → ∀ f, st1.futures[i]? = some f → f.settled := by
      intro hw tag htag i hi f hf
      rw [hframe.1] at hi
      rw [hframe.2] at hf
      have hmem : i ∈ rule.cond.matchResponseTags.filterMap st.namedFutures :=
        mem_filterMap.mpr ⟨tag, mem_reverse.mpr (mem_dedup.mpr (mem_reverse.mpr htag)), hi⟩
      obtain ⟨t, htrace, hdone⟩ := hall rfl i hmem f hf
      rcases ht i f hf with hs | hs
      · exact hs
      · rw [hw i _ _ htrace, hdone] at hs
        exact absurd hs (by decide)
    by_cases ha : rule.cond.matchResponseAnonymous
    · rw [if_pos ha] at hn hw ⊢
      obtain ⟨hticks1, -, hdone⟩ := awaitAnonymous_spec env st1
      have hframe1 : (awaitAnonymous env st1).2.namedFutures = st1.namedFutures ∧
          (awaitAnonymous env st1).2.futures = st1.futures ∧
          (awaitAnonymous env st1).2.anonymousFuture = st1.anonymousFuture := by
        rw [hticks1.frame]
        exact ⟨rfl, rfl, rfl⟩
      refine ⟨?_, fun _ => ?_⟩
      · rw [hframe1.1, hframe1.2.1]
        exact htagged (hw.of_suffix hticks1.trace)
      · rw [hframe1.2.2]
        exact hdone hn
    · rw [if_neg ha] at hw ⊢
      exact ⟨htagged hw, fun h => absurd h ha⟩
  · rw [hat] at hn
    simp at hn

namespace Sim

variable {env : Env E} {st : St E} {s : SeqState} {rule : DNSRule E}

variable {tag : String}

theorem future_of_named (h : Sim env st s) (hn : st.namedFutures tag = some i) :
    ∃ f, st.futures[i]? = some f ∧ f.tag = tag ∧ tag ≠ "" ∧ s.named tag = some ⟨f.outcome, f.transport⟩ := by
  obtain ⟨hne, ht⟩ := (h.owner tag i).mp hn
  cases hf : st.futures[i]? with
  | none => simp [tagAt, hf] at ht
  | some f =>
    have hs := h.named tag
    rw [hn, Option.bind_some, evaluatedAt, hf] at hs
    exact ⟨f, rfl, by simpa [tagAt, hf] using ht, hne, hs.symm⟩

theorem not_named (h : Sim env st s) (hn : st.namedFutures tag = none) : s.named tag = none := by
  rw [← h.named, hn]
  rfl

theorem namedResponse_eq (h : Sim env st s) (hb : Bound env rule st)
    (ht : tag ∈ responseTags rule.cond) : st.namedResponses tag = slotResponse (s.named tag) := by
  cases hn : st.namedFutures tag with
  | none => rw [h.unset tag hn, h.not_named hn]; rfl
  | some i =>
    obtain ⟨f, hf, rfl, hne, hs⟩ := h.future_of_named hn
    rw [(h.collected i f hf hne).1, if_pos (hb.tagged _ ht i hn f hf), hs]
    rfl

theorem anonymousResponse_eq (h : Sim env st s) (hd : ∀ i, st.anonymousFuture = some i → env.done st.clock i) :
    (anonymousResponse env st).1 = slotResponse s.anonymous := by
  rw [← h.anonymous]
  unfold anonymousResponse
  cases hi : st.anonymousFuture with
  | none => rfl
  | some i =>
    simp only [view, resolved, hd i hi, if_true, Option.bind_some, evaluatedAt, St.tick]
    cases st.futures[i]? <;> rfl

end Sim

theorem anonymousResponse_ticks (env : Env E) (st : St E) : Ticks st (anonymousResponse env st).2 := by
  unfold anonymousResponse
  cases st.anonymousFuture with
  | none => exact Ticks.refl st
  | some i => exact Ticks.tick st

theorem Sim.judge {s : SeqState} (h : Sim env st s)
    (hr : has DefaultDNSRule.readsUnbound rule.cond = false) (hb : Bound env rule st) {response : Option Msg}
    (hresp : rule.cond.matchResponseAnonymous → response = slotResponse s.anonymous) :
    (judge rule response st).1 = (rule.cond.matchOn (s.context env)).1 ∧ Sim env (judge rule response st).2 s := by
  have hctx : Plain (matchContext st.metadata response st.namedResponses) := ⟨h.plain, rfl⟩
  constructor
  · refine matchOn_congr hctx ⟨env.plain, rfl⟩ ?_ hr ⟨?_, hresp⟩
    · exact ⟨h.query.symm, rfl, rfl, rfl, env.plain.trans h.plain.symm, .inr rfl⟩
    · exact fun tag ht => h.namedResponse_eq hb ht
  · have hreg := dnsRule_regular rule.cond (matchContext st.metadata response st.namedResponses) hctx.deferred
    exact { h with
      query := (congrArg InboundContext.query hreg).trans h.query
      plain := (congrArg InboundContext.ignoreDestinationIPCIDRMatch hreg).trans h.plain }

/-! ## Launching a query -/

theorem evaluateTags_cons (rule : DNSRule E) (rules : List (DNSRule E)) :
    evaluateTags (rule :: rules) = (rule.action.evaluateTag.filter (· ≠ "")).toList ++ evaluateTags rules := by
  simp [evaluateTags]

theorem Checked.nodup_drop (h : Checked rules) (k : ℕ) : (evaluateTags (rules.drop k)).Nodup := by
  have hsplit : evaluateTags rules = evaluateTags (rules.take k) ++ evaluateTags (rules.drop k) := by
    simp only [evaluateTags, ← flatMap_append, take_append_drop]
  have hnodup := h.distinct
  rw [hsplit] at hnodup
  exact hnodup.of_append_right

section Launch

variable {env : Env E} {st : St E} {s : SeqState} {rule : DNSRule E} {rules : List (DNSRule E)} {f : Future}

theorem drop_next (hd : env.rules.drop st.ruleIndex = rule :: rules) : env.rules.drop st.next.ruleIndex = rules := by
  rw [St.next, ← drop_drop, hd]
  rfl

section

variable (h : Sim env st s) (hd : env.rules.drop st.ruleIndex = rule :: rules)
include h hd

theorem Sim.next : Sim env st.next s := by
  have hroom := h.room
  rw [hd, length_cons] at hroom
  refine { h with room := ?_, fresh := fun tag ht => ?_ }
  · rw [drop_next hd]
    exact (Nat.le_succ _).trans hroom
  · rw [drop_next hd] at ht
    refine h.fresh tag ?_
    rw [hd, evaluateTags_cons]
    exact mem_append_right _ ht

theorem Sim.room_launched :
    (st.futures ++ [f]).length + (env.rules.drop (st.ruleIndex + 1)).length ≤ env.rules.length := by
  have hroom := h.room
  have hdrop : env.rules.drop (st.ruleIndex + 1) = rules := drop_next hd
  rw [hd, length_cons] at hroom
  rw [hdrop, length_append, length_singleton]
  omega

end

theorem getElem?_withFuture {g : Future} (h : (st.futures ++ [f])[i]? = some g) :
    st.futures[i]? = some g ∨ i = st.futures.length ∧ g = f := by
  rcases lt_trichotomy i st.futures.length with hi | rfl | hi
  · rw [List.getElem?_append_left hi] at h
    exact .inl h
  · simp at h
    exact .inr ⟨rfl, h.symm⟩
  · rw [List.getElem?_eq_none (by simpa using hi)] at h
    simp at h

def withFuture (st : St E) (f : Future) : St E := { st with futures := st.futures ++ [f] }

theorem evaluatedAt_withFuture (hi : i < st.futures.length) : evaluatedAt (withFuture st f) i = evaluatedAt st i := by
  rw [evaluatedAt, evaluatedAt, withFuture, List.getElem?_append_left hi]

theorem bind_withFuture {o : Option ℕ} (ho : ∀ i, o = some i → i < st.futures.length) :
    o.bind (evaluatedAt (withFuture st f)) = o.bind (evaluatedAt st) := by
  cases o with
  | none => rfl
  | some i => exact evaluatedAt_withFuture (ho i rfl)

theorem Sim.namedIn (h : Sim env st s) (hn : st.namedFutures tag = some i) : i < st.futures.length := by
  obtain ⟨f, hf, -⟩ := h.future_of_named hn
  exact (List.getElem?_eq_some_iff.mp hf).1

theorem tagAt_withFuture :
    tagAt (withFuture st f) i = some tag ↔ tagAt st i = some tag ∨ i = st.futures.length ∧ f.tag = tag := by
  unfold tagAt withFuture
  constructor
  · intro h
    obtain ⟨g, hg, rfl⟩ := Option.map_eq_some_iff.mp h
    rcases getElem?_withFuture hg with h' | ⟨hi, rfl⟩
    · exact .inl (by simp [h'])
    · exact .inr ⟨hi, rfl⟩
  · rintro (h | ⟨rfl, rfl⟩)
    · obtain ⟨g, hg, rfl⟩ := Option.map_eq_some_iff.mp h
      rw [List.getElem?_append_left (List.getElem?_eq_some_iff.mp hg).1, hg]
      rfl
    · simp

theorem Sim.launchAnonymous (h : Sim env st s) (hd : env.rules.drop st.ruleIndex = rule :: rules) (ht : f.tag = "") :
    Sim env { withFuture st f with anonymousFuture := some st.futures.length }.next
      { s with anonymous := some ⟨f.outcome, f.transport⟩, launched := s.launched + 1 } where
  __ := h
  launched := by simp [St.next, withFuture, h.launched]
  room := h.room_launched hd
  anonymous := by simp [St.next, withFuture, evaluatedAt]
  anonymousIn := by simp [St.next, withFuture]
  named := by
    intro tag
    rw [← h.named]
    exact bind_withFuture fun i hi => h.namedIn hi
  owner := by
    intro tag i
    refine (h.owner tag i).trans (and_congr_right fun hne => ?_)
    refine Iff.trans ⟨.inl, fun h' => h'.resolve_right ?_⟩ (tagAt_withFuture (f := f)).symm
    rintro ⟨-, he⟩
    exact hne (ht ▸ he.symm)
  collected := by
    intro i g hg hne
    rcases getElem?_withFuture hg with h' | ⟨-, rfl⟩
    · exact h.collected i g h' hne
    · exact absurd ht hne
  fresh := (h.next hd).fresh

theorem Sim.launchNamed (h : Sim env st s) (hc : Checked env.rules) (hd : env.rules.drop st.ruleIndex = rule :: rules)
    (hact : rule.action.evaluateTag = some f.tag) (ht : f.tag ≠ "") (hun : f.settled = false) :
    Sim env { withFuture st f with
        namedFutures := update st.namedFutures f.tag (some st.futures.length) }.next
      { s with named := update s.named f.tag (some ⟨f.outcome, f.transport⟩), launched := s.launched + 1 } := by
  have htags : evaluateTags (env.rules.drop st.ruleIndex) = f.tag :: evaluateTags rules := by
    rw [hd, evaluateTags_cons, hact]
    simp [Option.filter, ht]
  have hnew : st.namedFutures f.tag = none := h.fresh f.tag (by rw [htags]; exact mem_cons_self)
  have hnodup := hc.nodup_drop st.ruleIndex
  rw [htags, nodup_cons] at hnodup
  refine ⟨h.query, h.plain, h.options, ?_, ?_, ?_, ?_, fun tag => ?_, fun tag i => ?_, fun i g hg hne => ?_,
    fun tag hn => ?_, fun tag hmem => ?_, h.idle, h.noTerminal⟩
  · simp [St.next, withFuture, h.launched]
  · exact h.room_launched hd
  · rw [← h.anonymous]
    exact bind_withFuture h.anonymousIn
  · intro i hi
    have := h.anonymousIn i hi
    simp only [St.next, withFuture, length_append, length_singleton]
    omega
  · by_cases he : tag = f.tag
    · subst he
      simp [St.next, withFuture, evaluatedAt]
    · simp only [St.next, update_of_ne he]
      rw [← h.named]
      exact bind_withFuture fun i hi => h.namedIn hi
  · have htag : tagAt (withFuture st f) i = some tag ↔ _ := tagAt_withFuture
    by_cases he : tag = f.tag
    · subst he
      simp only [St.next, update_self, Option.some.injEq]
      refine Iff.trans ?_ (and_congr_right fun _ => htag.symm)
      refine ⟨fun hi => ⟨ht, .inr ⟨hi.symm, rfl⟩⟩, ?_⟩
      rintro ⟨-, h' | ⟨hi, -⟩⟩
      · have := (h.owner _ _).mpr ⟨ht, h'⟩
        simp [hnew] at this
      · exact hi.symm
    · simp only [St.next, update_of_ne he]
      refine (h.owner tag i).trans (and_congr_right fun _ => Iff.trans ?_ htag.symm)
      exact ⟨.inl, fun h' => h'.resolve_right fun ⟨_, h''⟩ => he h''.symm⟩
  · rcases getElem?_withFuture hg with h' | ⟨-, rfl⟩
    · exact h.collected i g h' hne
    · rw [hun]
      exact ⟨h.unset _ hnew, by simp⟩
  · by_cases he : tag = f.tag
    · subst he
      simp [St.next] at hn
    · simp only [St.next, update_of_ne he] at hn
      exact h.unset tag hn
  · have hd' : env.rules.drop (st.ruleIndex + 1) = rules := drop_next hd
    simp only [St.next, withFuture, hd'] at hmem
    have he : tag ≠ f.tag := fun he => hnodup.1 (he ▸ hmem)
    simp only [St.next, update_of_ne he]
    exact h.fresh tag (by rw [htags]; exact mem_cons_of_mem _ hmem)

end Launch

/-! ## One rule -/

/-- an iteration of the walk for rule `k`, begun at tick `t`, against that of the reference: the walk goes on in a related
state, has the same result, or has to wait for a future -/
def Follows (env : Env E) (k t : ℕ) (s : SeqState) (x : Exchanged ⊕ SeqState) : Option Verdict × St E → Prop
  | (none, st) => ∃ s', x = .inr s' ∧ Sim env st.next s'
  | (some (.result r), _) => x = .inl ⟨r, none⟩
  | (some (.pending p), st) => x = .inl (finalQuery env p.transport p.options) ∧ p.future = none ∧ st.armedRules = []
  | (some (.await i), st) => Sim env st s ∧ st.ruleIndex = k ∧ i < st.futures.length ∧ t < env.resolvesAt i
  | (some .drain, _) => False

section Rule

variable {env : Env E} {st : St E} {s : SeqState} {rule : DNSRule E} {rules : List (DNSRule E)}

theorem evaluate_follows (h : Sim env st s) (hc : Checked env.rules)
    (hd : env.rules.drop st.ruleIndex = rule :: rules) {server tag : String} {speculative : Bool}
    {options : RouteOptions} (hact : rule.action = .evaluate server tag speculative options) (k t : ℕ) :
    Follows env k t s (.inr (sequentialEvaluate env server tag options s))
      (evaluate env server tag speculative options st) := by
  unfold evaluate sequentialEvaluate
  cases env.transport server with
  | none =>
    refine ⟨_, rfl, ?_⟩
    by_cases ht : tag = ""
    · rw [if_pos ht, if_pos ht]
      have hn := h.next hd
      exact { hn with anonymous := rfl, anonymousIn := by simp [St.next] }
    · rw [if_neg ht, if_neg ht]
      exact h.next hd
  | some transport =>
    have hdrain : (!speculative && !st.armedRules.isEmpty) = false := by simp [h.idle]
    simp only [hdrain, Bool.false_eq_true, if_false]
    refine ⟨_, rfl, ?_⟩
    -- a query that is not speculative is recorded in the trace
    obtain ⟨trace, hlog⟩ : ∃ trace, (if speculative then st else st.log (.evaluated st.ruleIndex st.armed)) =
        { st with trace } := by
      cases speculative
      · exact ⟨_, rfl⟩
      · exact ⟨st.trace, rfl⟩
    rw [hlog]
    have h' := h.retime st.clock trace
    let outcome := env.outcome st.futures.length transport
      (finalizeExchangeOptions env (applyDNSRouteOptions st.effectiveOptions options))
    let f : Future := { tag, transport, outcome, checkedAt := st.clock }
    simp only [launchDNSEvaluate, ← h.launched, ← h.options]
    by_cases ht : tag = ""
    · have hl := h'.launchAnonymous hd (f := f) ht
      simp only [← h.launched, ← h.options] at hl
      rw [if_pos ht, if_pos ht]
      exact hl
    · have hl := h'.launchNamed hc hd (f := f) (by rw [hact]; rfl) ht rfl
      simp only [← h.launched, ← h.options] at hl
      rw [if_neg ht, if_neg ht]
      exact hl

theorem responseTag_mem {r : DNSRuleTree E} (h : r.matchResponseTag ≠ "") : r.matchResponseTag ∈ responseTags r := by
  cases r with
  | default d =>
    rw [matchResponseTag] at h ⊢
    rw [responseTags, if_neg h]
    exact mem_singleton_self _
  | logical mode invert rs => exact absurd rfl h

theorem Sim.respondTagged (h : Sim env st s) (hb : Bound env rule st) (ht : tag ∈ responseTags rule.cond) :
    respondResult (st.namedResponses tag) (st.namedTransports tag) =
      respondResult (slotResponse (s.named tag)) ((s.named tag).map (·.transport)) := by
  rw [h.namedResponse_eq hb ht]
  cases hn : st.namedFutures tag with
  | none =>
    rw [h.not_named hn]
    rfl
  | some i =>
    obtain ⟨f, hf, rfl, hne, hs⟩ := h.future_of_named hn
    rw [(h.collected i f hf hne).2 (hb.tagged _ ht i hn f hf), hs]
    rfl

theorem Sim.respondAnonymous (h : Sim env st s) (hd : ∀ i, st.anonymousFuture = some i → env.done st.clock i) :
    finishRule (respondResult (anonymousResponse env st).1
        ((anonymousResponse env st).2.anonymousFuture.bind (transportOf (anonymousResponse env st).2)))
        (anonymousResponse env st).2 =
      (some (.result (respondResult (slotResponse s.anonymous) (s.anonymous.map (·.transport)))),
        (anonymousResponse env st).2.log
          (.finished (anonymousResponse env st).2.ruleIndex (anonymousResponse env st).2.armed none)) := by
  have htransport : ∀ st' : St E, Ticks st st' →
      st'.anonymousFuture.bind (transportOf st') = s.anonymous.map (·.transport) := by
    intro st' ht
    rw [← h.anonymous, ht.frame]
    cases st.anonymousFuture with
    | none => rfl
    | some i =>
      simp only [Option.bind_some, transportOf, evaluatedAt, Option.map_map]
      rfl
  rw [htransport _ (anonymousResponse_ticks env st), h.anonymousResponse_eq hd]
  rfl

theorem respond_follows (h : Sim env st s) (hb : Bound env rule st)
    (hr : rule.cond.matchResponseTag = "" → responseTags rule.cond = []) {t : ℕ} (ht : t ≤ st.clock) :
    Follows env st.ruleIndex t s (.inl ⟨respondResult
        (slotResponse (if rule.cond.matchResponseTag ≠ "" then s.named rule.cond.matchResponseTag else s.anonymous))
        ((if rule.cond.matchResponseTag ≠ "" then s.named rule.cond.matchResponseTag else s.anonymous).map
          (·.transport)), none⟩)
      (respond env rule st) := by
  have hidle : ¬ (!st.armedRules.isEmpty) := by simp [h.idle]
  unfold respond
  rw [if_neg hidle]
  by_cases htag : rule.cond.matchResponseTag = ""
  · simp only [htag, ne_eq, not_true_eq_false, if_false]
    by_cases hbind : hasBindings rule.cond
    · have hanon : rule.cond.matchResponseAnonymous := by
        simpa [hasBindings, matchResponseTags, hr htag] using hbind
      rw [if_pos hbind]
      dsimp only
      rw [h.respondAnonymous (hb.anonymous hanon)]
      rfl
    · rw [if_neg hbind]
      obtain ⟨hticks, hsome, hnone⟩ := awaitAnonymous_spec env st
      have hframe : (awaitAnonymous env st).2.anonymousFuture = st.anonymousFuture := by rw [hticks.frame]
      have hsim := h.ticks hticks
      rcases haw : awaitAnonymous env st with ⟨_ | i, st1⟩ <;> rw [haw] at hticks hsome hnone hframe hsim
      · dsimp only at hsim hnone hframe ⊢
        rw [hsim.respondAnonymous (by rw [hframe]; exact hnone rfl)]
        rfl
      · obtain ⟨hi, hlt⟩ := hsome i rfl
        have hindex : st1.ruleIndex = st.ruleIndex := by rw [show st1 = _ from hticks.frame]
        exact ⟨hsim, hindex, hsim.anonymousIn i (hframe.trans hi), lt_of_le_of_lt ht hlt⟩
  · simp only [ne_eq, htag, not_false_eq_true, if_true]
    rw [h.respondTagged hb (responseTag_mem htag)]
    rfl

section

variable (h : Sim env st s) (hc : Checked env.rules) (hd : env.rules.drop st.ruleIndex = rule :: rules) (hb : Bound env rule st) {t : ℕ} (ht : t ≤ st.clock)
include h hc hd hb ht

theorem act_follows : Follows env st.ruleIndex t s (sequentialAction env rule s) (act env rule st) := by
  have hmem : rule ∈ env.rules := mem_of_mem_drop (hd ▸ mem_cons_self)
  have hidle : (!st.armedRules.isEmpty) = false := by simp [h.idle]
  unfold act sequentialAction
  cases hact : rule.action with
  | routeOptions options =>
    have hn := h.next hd
    exact ⟨_, rfl, { hn with options := congrArg (applyDNSRouteOptions · options) h.options }⟩
  | evaluate server tag speculative options => exact evaluate_follows h hc hd hact _ t
  | respond => exact respond_follows h hb (hc.respond rule hmem hact) ht
  | route server speculative options =>
    simp only [route, h.options]
    cases resolveDNSRoute env server options s.options with
    | none => exact ⟨s, rfl, h.next hd⟩
    | some p =>
      obtain ⟨transport, options⟩ := p
      simp only [hidle, h.noTerminal]
      exact ⟨rfl, rfl, h.idle⟩
  | reject action | predefined response =>
    simp only [hidle]
    rfl

theorem judgeRule_follows : Follows env st.ruleIndex t s (sequentialRule env rule s) (judgeRule env rule st) := by
  have hmem : rule ∈ env.rules := mem_of_mem_drop (hd ▸ mem_cons_self)
  have hticks := anonymousResponse_ticks env st
  have hresp : rule.cond.matchResponseAnonymous → (anonymousResponse env st).1 = slotResponse s.anonymous :=
    fun ha => h.anonymousResponse_eq (hb.anonymous ha)
  unfold judgeRule sequentialRule
  rcases har : anonymousResponse env st with ⟨response, st1⟩
  rw [har] at hticks hresp
  dsimp only at hticks hresp
  have h1 := h.ticks hticks
  have hb1 : Bound env rule st1 := by
    refine ⟨?_, fun ha i hi => ?_⟩
    · rw [hticks.frame]
      exact hb.tagged
    · rw [hticks.frame] at hi
      exact Env.done_mono (hb.anonymous ha i hi) hticks.clock
  obtain ⟨hans, hsim⟩ := h1.judge (hc.bound rule hmem) hb1 hresp
  dsimp only
  rw [← hans]
  have hindex : st1.ruleIndex = st.ruleIndex := by rw [hticks.frame]
  cases (judge rule response st1).1 with
  | false => exact ⟨s, rfl, hsim.next (hindex ▸ hd)⟩
  | true =>
    rw [← hindex]
    exact act_follows hsim hc (hindex ▸ hd) ⟨hb1.tagged, hb1.anonymous⟩ (ht.trans hticks.clock)

end

theorem awaitFuture_spec (env : Env E) (rule : DNSRule E) (st : St E) :
    Ticks st (awaitFuture env rule st).2 ∧ ∀ i, (awaitFuture env rule st).1 = some i →
      ((∃ tag, st.namedFutures tag = some i) ∨ st.anonymousFuture = some i) ∧ st.clock < env.resolvesAt i := by
  unfold awaitFuture
  obtain ⟨hticks, hsome, -⟩ := awaitTagged_spec env (rule.cond.matchResponseTags.filterMap st.namedFutures) st
  rcases haw : awaitTagged env (rule.cond.matchResponseTags.filterMap st.namedFutures) st with ⟨_ | i, st1⟩
  · rw [haw] at hticks
    dsimp only at hticks ⊢
    by_cases ha : rule.cond.matchResponseAnonymous
    · rw [if_pos ha]
      obtain ⟨hticks1, hsome1, -⟩ := awaitAnonymous_spec env st1
      refine ⟨hticks.trans hticks1, fun i hi => ?_⟩
      obtain ⟨hfut, hlt⟩ := hsome1 i hi
      rw [hticks.frame] at hfut
      exact ⟨.inr hfut, lt_of_le_of_lt hticks.clock hlt⟩
    · rw [if_neg ha]
      exact ⟨hticks, by simp⟩
  · rw [haw] at hticks hsome
    refine ⟨hticks, fun j hj => ?_⟩
    obtain ⟨hmem, hlt⟩ := hsome j hj
    obtain ⟨tag, -, htag⟩ := mem_filterMap.mp hmem
    exact ⟨.inl ⟨tag, htag⟩, hlt⟩

theorem walkRule_follows (h : Sim env st s) (hc : Checked env.rules) (hd : env.rules.drop st.ruleIndex = rule :: rules)
    (hrace : ∀ r ∈ env.rules, r.race = false) (hw : NoWindow env (walkRule env rule st).2.trace) :
    Follows env st.ruleIndex st.clock s (sequentialRule env rule s) (walkRule env rule st) := by
  have hmem : rule ∈ env.rules := mem_of_mem_drop (hd ▸ mem_cons_self)
  have hnone : ∀ (k : ℕ) (r : DNSRule E), env.rules[k]? = some r → r.race = false := fun k r hr => hrace r (mem_of_getElem? hr)
  unfold walkRule at hw ⊢
  by_cases hbind : hasBindings rule.cond
  · rw [if_pos hbind] at hw ⊢
    simp only [hrace rule hmem, Bool.false_eq_true, if_false] at hw ⊢
    have hset := settleDNSFutures_settles env st
    have h1 : Sim env (settleDNSFutures env st) s := h.settleDNSFutures
    obtain ⟨hticks, hsome⟩ := awaitFuture_spec env rule (settleDNSFutures env st)
    have h2 := h1.ticks hticks
    have hclock : st.clock ≤ (awaitFuture env rule (settleDNSFutures env st)).2.clock := hset.clock.trans hticks.clock
    have hindex : (awaitFuture env rule (settleDNSFutures env st)).2.ruleIndex = st.ruleIndex := by
      rw [hticks.frame]
      exact hset.ruleIndex
    have hbound : (awaitFuture env rule (settleDNSFutures env st)).1 = none → _ :=
      Bound.of_await (settleDNSFutures_tested env st)
    rcases haw : awaitFuture env rule (settleDNSFutures env st) with ⟨_ | i, st2⟩
    · rw [haw] at hw h2 hclock hindex hbound
      have hgrow : st2.trace <:+ (judgeRule env rule st2).2.trace := (judgeRule_walks (hnone st2.ruleIndex)).grows.1
      rw [← hindex]
      exact judgeRule_follows h2 hc (hindex ▸ hd) (hbound rfl (hw.of_suffix hgrow)) hclock
    · rw [haw] at h2 hsome hticks hindex
      dsimp only at h2 hticks
      obtain ⟨hfut, hlt⟩ := hsome i rfl
      have hlen : st2.futures.length = (settleDNSFutures env st).futures.length := by rw [hticks.frame]
      refine ⟨h2, hindex, ?_, lt_of_le_of_lt hset.clock hlt⟩
      rw [hlen]
      rcases hfut with ⟨tag, htag⟩ | hanon
      · exact h1.namedIn htag
      · exact h1.anonymousIn i hanon
  · rw [if_neg hbind] at hw ⊢
    exact judgeRule_follows h hc hd (Bound.of_not_hasBindings (by simpa using hbind)) le_rfl

end Rule

/-! ## The walk and the exchange -/

/-- a walk begun at tick `t`, where the reference has result `x` from here on -/
def Reaches (env : Env E) (t : ℕ) (x : Exchanged) : Verdict × St E → Prop
  | (.result r, _) => x = ⟨r, none⟩
  | (.pending p, st) => x = finalQuery env p.transport p.options ∧ p.future = none ∧ st.armedRules = []
  | (.await i, st) => (∃ s, Sim env st s ∧ sequentialLoop env (env.rules.drop st.ruleIndex) s = x) ∧
    i < st.futures.length ∧ t < env.resolvesAt i
  | (.drain, _) => False

theorem Reaches.earlier {t t' : ℕ} {x : Exchanged} {r : Verdict × St E} (h : Reaches env t x r)
    (ht : t' ≤ t) : Reaches env t' x r := by
  obtain ⟨v, st⟩ := r
  cases v with
  | await i => exact ⟨h.1, h.2.1, lt_of_le_of_lt ht h.2.2⟩
  | _ => exact h

section Run

variable {env : Env E} {st : St E} {s : SeqState} {rules : List (DNSRule E)}

theorem walkLoop_reaches (h : Sim env st s) (hc : Checked env.rules) (hrace : ∀ r ∈ env.rules, r.race = false)
    (hd : env.rules.drop st.ruleIndex = rules) (hw : NoWindow env (walkLoop env rules st).2.trace) :
    Reaches env st.clock (sequentialLoop env rules s) (walkLoop env rules st) := by
  induction rules generalizing st s with
  | nil =>
    have hidle : ¬ (!st.armedRules.isEmpty) := by simp [h.idle]
    rw [walkLoop, if_neg hidle, sequentialLoop, ← h.options]
    exact ⟨rfl, rfl, h.idle⟩
  | cons rule rules ih =>
    have hrule : env.rules[st.ruleIndex]? = some rule := by
      rw [← List.head?_drop, hd]
      rfl
    have hpass := walkRule_walks hrule
    have hfollow := walkRule_follows h hc hd hrace
    rw [walkLoop] at hw ⊢
    rw [sequentialLoop]
    rcases hwr : walkRule env rule st with ⟨_ | v, st1⟩
    · rw [hwr] at hw hpass hfollow
      have hindex : st1.next.ruleIndex = st.ruleIndex + 1 := congrArg (· + 1) hpass.2
      have hdrop : env.rules.drop st1.next.ruleIndex = rules := by
        rw [hindex, ← drop_drop, hd]
        rfl
      have hgrow := (walkLoop_stops env rules st1.next hdrop).grows.1
      obtain ⟨s', hs', hsim⟩ := hfollow (hw.of_suffix hgrow)
      rw [hs']
      exact (ih hsim hdrop hw).earlier hpass.grows.2
    · rw [hwr] at hw hfollow
      have hf := hfollow hw
      cases v with
      | result r =>
        rw [show sequentialRule env rule s = _ from hf]
        rfl
      | pending p =>
        rw [hf.1]
        exact ⟨rfl, hf.2⟩
      | await i =>
        obtain ⟨hsim, hindex, hi, hlt⟩ := hf
        refine ⟨⟨s, hsim, ?_⟩, hi, hlt⟩
        rw [hindex, hd, sequentialLoop]
      | drain => exact absurd hf id

theorem resume_pending_sequential {p : PendingExchange} (hidle : st.armedRules = []) (hp : p.future = none) (fuel : ℕ) :
    (resumeExchangeWithRules env (fuel + 1) (.pending p) st).1 = some (finalQuery env p.transport p.options) := by
  rw [resume_pending hidle, finish, finishPendingExchange, hp]

theorem Sim.index_lt (h : Sim env st s) (hi : i < st.futures.length) : i < env.rules.length := by
  have hroom := h.room
  omega

theorem resume_await (fuel i : ℕ) (h : (settleDNSFutures env st).armedRules = []) :
    resumeExchangeWithRules env (fuel + 1) (.await i) st =
      if env.done (settleDNSFutures env st).clock i then resumeWalk env fuel (settleDNSFutures env st).tick
      else resumeExchangeWithRules env fuel (.await i) (settleDNSFutures env st).tick.tick := by
  have hwaits : Waits (.await i) := trivial
  rw [resume_waiting hwaits (sweepArmedDNSRules_idle h)]
  by_cases hd : env.done (settleDNSFutures env st).clock i
  · simp [mustWait, resolved, hd]
  · simp [mustWait, resolved, hd]

theorem resume_sequential (hc : Checked env.rules) (hrace : ∀ r ∈ env.rules, r.race = false) {last : ℕ}
    (hlast : ∀ i < env.rules.length, env.resolvesAt i ≤ last) (d : ℕ) (h : Sim env st s)
    (hi : i < st.futures.length) (hdist : last ≤ st.clock + d)
    (hw : ∀ fuel, NoWindow env (resumeExchangeWithRules env fuel (.await i) st).2.trace) {fuel : ℕ}
    (hfuel : d + 2 ≤ fuel) : (resumeExchangeWithRules env fuel (.await i) st).1 =
      some (sequentialLoop env (env.rules.drop st.ruleIndex) s) := by
  induction d using Nat.strong_induction_on generalizing st s i fuel with
  | _ d ih =>
    obtain ⟨fuel, rfl⟩ : ∃ n, fuel = n + 1 := ⟨fuel - 1, by omega⟩
    have hset := settleDNSFutures_settles env st
    have h1 : Sim env (settleDNSFutures env st) s := h.settleDNSFutures
    have hwait := fun n => resume_await n i h1.idle
    have hw1 := fun n => hw (n + 1)
    rw [← hset.ruleIndex, hwait]
    simp only [hwait] at hw1
    have hclock := hset.clock
    have hlen := hset.length
    generalize settleDNSFutures env st = st1 at h1 hclock hlen hw1 ⊢
    have htick : Sim env st1.tick s := h1.ticks (Ticks.tick st1)
    by_cases hdone : env.done st1.clock i
    · -- the future has resolved, so the walk goes on
      simp only [if_pos hdone, resumeWalk] at hw1 ⊢
      have hreach := walkLoop_reaches htick hc hrace rfl
      have hgrow := (walkDNSRules_stops env st1.tick).grows.2
      rw [← walkDNSRules] at hreach
      rcases hwalk : walkDNSRules env st1.tick with ⟨v, st2⟩
      rw [hwalk] at hreach hgrow hw1
      have hstep : st1.clock + 1 ≤ st2.clock := hgrow
      cases v with
      | result r =>
        rw [show sequentialLoop env (env.rules.drop st1.ruleIndex) s = _ from hreach (hw1 0)]
        rfl
      | pending p =>
        obtain ⟨hx, hp, hidle⟩ := hreach (hw1 0)
        obtain ⟨fuel, rfl⟩ : ∃ n, fuel = n + 1 := ⟨fuel - 1, by omega⟩
        rw [show sequentialLoop env (env.rules.drop st1.ruleIndex) s = _ from hx]
        exact resume_pending_sequential hidle hp fuel
      | await j =>
        obtain ⟨⟨s', hsim, hx⟩, hj, hlt⟩ := hreach (hw1 0)
        have hlt' : st1.clock + 1 < env.resolvesAt j := hlt
        have hle := hlast j (hsim.index_lt hj)
        rw [show sequentialLoop env (env.rules.drop st1.ruleIndex) s = _ from hx.symm]
        exact ih (d - 1) (by omega) hsim hj (by omega) hw1 (by omega)
      | drain => exact absurd (hreach (hw1 0)) id
    · -- one more tick
      have hlt : st1.clock < env.resolvesAt i := by simpa [Env.done] using hdone
      have hle := hlast i (h.index_lt hi)
      have hnow : st1.tick.tick.clock = st1.clock + 2 := rfl
      simp only [if_neg hdone] at hw1 ⊢
      have hlen' : i < st1.tick.tick.futures.length := hlen.symm ▸ hi
      exact ih (d - 1) (by omega) (htick.ticks (Ticks.tick _)) hlen' (by omega) hw1 (by omega)

theorem start_sim (env : Env E) : Sim env env.start { options := env.options } where
  query := rfl
  plain := env.plain
  options := rfl
  launched := rfl
  room := by simp [Env.start]
  anonymous := rfl
  anonymousIn := by simp [Env.start]
  named := fun _ => rfl
  owner := by simp [Env.start, tagAt]
  collected := by simp [Env.start, Collected]
  unset := fun _ _ => rfl
  fresh := fun _ _ => rfl
  idle := rfl
  noTerminal := rfl

end Run

/-! ## Results -/

def anyQuery : DNSRuleTree Unit := .default { items := [.other fun _ => true] }

def probeRules : List (DNSRule Unit) :=
  [{ cond := anyQuery, action := .evaluate "remote" "probe" false {} },
    { cond := .default { items := [.responseRCode 0], matchResponse := true, matchResponseTag := "probe" },
      action := .respond }]

def probeAnswer : Msg := { answer := [.a (some (.v4 1))] }

def probeEnv (t : ℕ) : Env Unit where
  rules := probeRules
  metadata := { query := {
    source := none, destination := {}, destinationAddresses := [], ipVersion := 0, queryType := 1, rest := () } }
  transport := fun server => if server = "remote" then some { tag := "remote" } else none
  defaultTransport := { tag := "local" }
  refused := { rcode := 5 }
  outcome := fun _ _ _ => .response probeAnswer
  resolvesAt := fun _ => t
  exchange := fun _ _ => .failed "no answer"

/-- **Waiting does not change the result** of rules without `race`, if no tagged future resolves between the two tests that
the walk makes of it before a match. -/
theorem exchangeWithRules_sequential (env : Env E) (lookup : String → Option RuleSetMetadata)
    (hvalid : (validateLegacyDNSModeDisabledRules lookup (env.rules.map DNSRule.options)).isOk = true)
    (hrace : ∀ r ∈ env.rules, r.race = false)
    (hwindow : ∀ fuel, NoWindow env (exchangeWithRules env fuel).2.trace) :
    ∃ n, ∀ fuel, n ≤ fuel → (exchangeWithRules env fuel).1 = some (sequential env) := by
  have hc := checked_of_valid hvalid
  obtain ⟨last, hlast⟩ : ∃ last, ∀ i < env.rules.length, env.resolvesAt i ≤ last :=
    ⟨((List.range env.rules.length).map env.resolvesAt).sum, fun i hi =>
      single_le_sum (by simp) _ (mem_map_of_mem (mem_range.mpr hi))⟩
  refine ⟨last + 2, fun fuel hfuel => ?_⟩
  have hreach := walkLoop_reaches (start_sim env) hc hrace rfl
  rw [← walkDNSRules] at hreach
  unfold exchangeWithRules at hwindow ⊢
  rcases hwalk : walkDNSRules env env.start with ⟨v, st⟩
  rw [hwalk] at hreach hwindow
  have hstart : sequentialLoop env (env.rules.drop env.start.ruleIndex) { options := env.options } = sequential env := rfl
  rw [hstart] at hreach
  cases v with
  | result r =>
    rw [show sequential env = _ from hreach (hwindow 0)]
    rfl
  | pending p =>
    obtain ⟨hx, hp, hidle⟩ := hreach (hwindow 0)
    obtain ⟨fuel, rfl⟩ : ∃ n, fuel = n + 1 := ⟨fuel - 1, by omega⟩
    rw [hx]
    exact resume_pending_sequential hidle hp fuel
  | await i =>
    obtain ⟨⟨s, hsim, hx⟩, hi, -⟩ := hreach (hwindow 0)
    rw [← hx]
    exact resume_sequential hc hrace hlast last hsim hi (by omega) hwindow hfuel
  | drain => exact absurd (hreach (hwindow 0)) id

theorem exchangeWithRules_sequential_probe :
    ∃ n, ∀ fuel, n ≤ fuel → (exchangeWithRules (probeEnv 0) fuel).1 = some (sequential (probeEnv 0)) := by
  refine exchangeWithRules_sequential (probeEnv 0) (fun _ => none) (by decide +kernel) (by decide) fun fuel => ?_
  have htrace : (exchangeWithRules (probeEnv 0) fuel).2.trace =
      [.finished 1 [] none, .tested 0 0 2, .evaluated 0 []] := rfl
  rw [htrace]
  intro i t t' h
  obtain ⟨rfl, rfl, rfl⟩ : i = 0 ∧ t = 0 ∧ t' = 2 := by simpa using h
  rfl

/-- **The window.** The future resolves between the two tests: the second rule is matched without the response, and the query
goes to the default server. -/
theorem exchangeWithRules_window :
    (validateLegacyDNSModeDisabledRules (fun _ => none) ((probeEnv 1).rules.map DNSRule.options)).isOk = true ∧
    (∀ r ∈ (probeEnv 1).rules, r.race = false) ∧
    sequential (probeEnv 1) = ⟨{ response := some probeAnswer, transport := some { tag := "remote" } }, none⟩ ∧
    ∀ fuel, (exchangeWithRules (probeEnv 1) (fuel + 1)).1 =
      some (finalQuery (probeEnv 1) { tag := "local" } (probeEnv 1).options) := by
  refine ⟨by decide +kernel, by decide, by decide +kernel, fun fuel => rfl⟩

end EtonifyCore.DNSWalk
