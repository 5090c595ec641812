/-
The mode of the DNS router (`legacyDNSMode`) and reloads of rule-sets.

The mode is fixed at the start, from the rules and the metadata of their sets (`resolveLegacyDNSMode`). A set that is
reloaded (`LocalRuleSet.reloadRules`) asks whether its new metadata fits (`ValidateRuleSetMetadataUpdate`) to what the other
sets have published, and publishes its own afterwards, under another lock.

In legacy mode, and for the checks made without it, one bad set is enough for a refusal, so validating the sets one at a time
is enough (`validateLoop_iff`). Whether the legacy mode is needed depends on two sets at once.

Premises: a validation and a publication are one step each; the router is started; no set is added or removed.
-/
import EtonifyCore.DNS.Rules
import EtonifyCore.Rule.Semantics

namespace EtonifyCore.DNSRules

open Function List
open EtonifyCore.RuleMatch Rule

/-! ## Requirements of the rules -/

abbrev Metadata := String → Option RuleSetMetadata

/-- `dnsRuleModeFlags` -/
structure ModeFlags where
  disabled : Bool := false
  needed : Bool := false
  neededFromStrategy : Bool := false
deriving DecidableEq, Repr

def ModeFlags.merge (f other : ModeFlags) : ModeFlags :=
  ⟨f.disabled || other.disabled, f.needed || other.needed, f.neededFromStrategy || other.neededFromStrategy⟩

def defaultRuleNeedsLegacyDNSModeFromAddressFilter (rule : DefaultDNSRuleOptions) : Bool :=
  rule.ruleSetIPCIDRAcceptEmpty || (!rule.matchResponse && (rule.ipAcceptAny || rule.ipCIDR || rule.ipIsPrivate))

def DNSRuleAction.usesResponse : DNSRuleAction → Bool
  | .evaluate .. | .respond => true
  | .route .. | .routeOptions _ | .reject _ | .predefined _ => false

def defaultRuleDisablesLegacyDNSMode (action : DNSRuleAction) (rule : DefaultDNSRuleOptions) : Bool :=
  rule.matchResponse || rule.responseMatchFields || action.usesResponse || rule.ipVersion || rule.queryType

def dnsRuleActionDisablesLegacyDNSMode (race : Bool) (action : DNSRuleAction) : Bool :=
  race ||
    match action with
    | .route _ speculative options => options.disableOptimisticCache || speculative
    | .evaluate _ _ speculative options => options.disableOptimisticCache || speculative
    | .routeOptions options => options.disableOptimisticCache
    | .respond | .reject _ | .predefined _ => false

def dnsRuleActionHasStrategy : DNSRuleAction → Bool
  | .route _ _ options => options.strategy ≠ .asIS
  | .evaluate _ _ _ options => options.strategy ≠ .asIS
  | .routeOptions options => options.strategy ≠ .asIS
  | .respond | .reject _ | .predefined _ => false

def ruleSetRequirements (lookup : Metadata) (matchSource : Bool) : List String → ModeFlags → Except String ModeFlags
  | [], flags => .ok flags
  | tag :: tags, flags =>
    match lookupDNSRuleSetMetadata lookup tag with
    | .error err => .error err
    | .ok metadata =>
      ruleSetRequirements lookup matchSource tags
        { flags with
          disabled := flags.disabled || metadata.containsDNSQueryTypeRule
          needed := flags.needed || (!matchSource && metadata.containsIPCIDRRule) }

def defaultFlags (race : Bool) (action : DNSRuleAction) (rule : DefaultDNSRuleOptions) : ModeFlags where
  disabled := defaultRuleDisablesLegacyDNSMode action rule || dnsRuleActionDisablesLegacyDNSMode race action
  needed := defaultRuleNeedsLegacyDNSModeFromAddressFilter rule || dnsRuleActionHasStrategy action
  neededFromStrategy := dnsRuleActionHasStrategy action

def dnsRuleModeRequirementsInDefaultRule (lookup : Metadata) (race : Bool) (action : DNSRuleAction)
    (rule : DefaultDNSRuleOptions) : Except String ModeFlags :=
  ruleSetRequirements lookup rule.ruleSetIPCIDRMatchSource rule.ruleSet (defaultFlags race action rule)

def logicalFlags (race : Bool) (action : DNSRuleAction) : ModeFlags where
  disabled := action.usesResponse || dnsRuleActionDisablesLegacyDNSMode race action
  needed := dnsRuleActionHasStrategy action
  neededFromStrategy := dnsRuleActionHasStrategy action

mutual

/-- `dnsRuleModeRequirementsInRule`; sub-rules have no action of their own -/
def dnsRuleModeRequirementsInRule (lookup : Metadata) (race : Bool) (action : DNSRuleAction) :
    Rule DefaultDNSRuleOptions → Except String ModeFlags
  | .default rule => dnsRuleModeRequirementsInDefaultRule lookup race action rule
  | .logical _ _ rules => subRuleRequirements lookup 0 (logicalFlags race action) rules

def subRuleRequirements (lookup : Metadata) (i : ℕ) (flags : ModeFlags) :
    List (Rule DefaultDNSRuleOptions) → Except String ModeFlags
  | [] => .ok flags
  | rule :: rules =>
    match dnsRuleModeRequirementsInRule lookup false .empty rule with
    | .error err => .error (cause err s!"sub rule[{i}]")
    | .ok subFlags => subRuleRequirements lookup (i + 1) (flags.merge subFlags) rules

end

def ruleRequirements (lookup : Metadata) (i : ℕ) (flags : ModeFlags) : List DNSRuleOptions → Except String ModeFlags
  | [] => .ok flags
  | rule :: rules =>
    match dnsRuleModeRequirementsInRule lookup rule.race rule.action rule.tree with
    | .error err => .error (cause err s!"dns rule[{i}]")
    | .ok ruleFlags => ruleRequirements lookup (i + 1) (flags.merge ruleFlags) rules

def dnsRuleModeRequirements (lookup : Metadata) (rules : List DNSRuleOptions) : Except String ModeFlags :=
  ruleRequirements lookup 0 {} rules

def resolveLegacyDNSMode (lookup : Metadata) (rules : List DNSRuleOptions) : Except String (Bool × ModeFlags) :=
  match dnsRuleModeRequirements lookup rules with
  | .error err => .error err
  | .ok flags =>
    if flags.disabled && flags.neededFromStrategy then .error optionLegacyDNSRuleStrategy
    else if flags.disabled then .ok (false, flags)
    else .ok (flags.needed, flags)

/-! ## The router -/

def validateRules (lookup : Metadata) (rules : List DNSRuleOptions) : Except String Unit :=
  match validateLegacyDNSModeDisabledRules lookup rules with
  | .error err => .error err
  | .ok _ => .ok ()

/-- the part of `buildRules` that reads the metadata: the mode that the router starts with -/
def startMode (lookup : Metadata) (rules : List DNSRuleOptions) : Except String Bool :=
  match resolveLegacyDNSMode lookup rules with
  | .error err => .error err
  | .ok (true, _) => .ok true
  | .ok (false, _) =>
    match validateRules lookup rules with
    | .error err => .error err
    | .ok () => .ok false

structure RouterMode where
  started : Bool
  legacyDNSMode : Bool
  closing : Bool := false
deriving DecidableEq, Repr

def validateRuleSetMetadataUpdate (rules : List DNSRuleOptions) (router : RouterMode) (published : Metadata)
    (tag : String) (metadata : RuleSetMetadata) : Except String Unit :=
  if rules.isEmpty then .ok ()
  else if router.closing then .ok ()
  else
    let lookup := Function.update published tag (some metadata)
    match resolveLegacyDNSMode lookup rules with
    | .error err => .error err
    | .ok (candidate, flags) =>
      if !router.started then
        if !candidate then validateRules lookup rules else .ok ()
      else if router.legacyDNSMode then
        if !candidate && flags.disabled then
          match validateRules lookup rules with
          | .error err => .error err
          | .ok () => .error optionLegacyDNSAddressFilter
        else .ok ()
      else if candidate then .error optionLegacyDNSAddressFilter
      else validateRules lookup rules

/-! ## Reloads -/

/-- a reload between its validation and its publication; `seen` is the metadata that the validation read -/
structure Reload where
  tag : String
  metadata : RuleSetMetadata
  seen : Metadata

structure ReloadState where
  router : RouterMode
  published : Metadata
  reloads : List Reload := []

inductive ReloadOp where
  | validate (tag : String) (metadata : RuleSetMetadata)
  | publish (i : ℕ)
deriving DecidableEq, Repr

def reloadStep (rules : List DNSRuleOptions) (s : ReloadState) : ReloadOp → ReloadState
  | .validate tag metadata =>
    match validateRuleSetMetadataUpdate rules s.router s.published tag metadata with
    | .error _ => s
    | .ok () => { s with reloads := s.reloads ++ [⟨tag, metadata, s.published⟩] }
  | .publish i =>
    match s.reloads[i]? with
    | none => s
    | some r => { s with
        published := Function.update s.published r.tag (some r.metadata)
        reloads := s.reloads.eraseIdx i }

def reloadRun (rules : List DNSRuleOptions) (s : ReloadState) (ops : List ReloadOp) : ReloadState :=
  ops.foldl (reloadStep rules) s

def startState (published : Metadata) (mode : Bool) : ReloadState :=
  { router := { started := true, legacyDNSMode := mode }, published }

/-! ## What the metadata decides -/

def Enabled (r : Except String ModeFlags) : Prop := ∃ flags, r = .ok flags ∧ flags.disabled = false

structure Consistent (rules : List DNSRuleOptions) (s : ReloadState) : Prop where
  legacy : s.router.legacyDNSMode = true → Enabled (dnsRuleModeRequirements s.published rules)
  notLegacy : s.router.legacyDNSMode = false →
    (∃ flags, resolveLegacyDNSMode s.published rules = .ok (false, flags)) ∧
      (validateLegacyDNSModeDisabledRules s.published rules).isOk = true

def noMetadata : Metadata := fun _ => some {}

def setDisables : Option RuleSetMetadata → Bool
  | some metadata => metadata.containsDNSQueryTypeRule
  | none => true

/-- a set that cannot be matched without a response: it is missing or has addresses only -/
def setRefused : Option RuleSetMetadata → Bool
  | some metadata => metadata.containsIPCIDRRule && !metadata.containsNonIPCIDRRule
  | none => true

theorem setDisables_some (metadata : RuleSetMetadata) :
    setDisables (some metadata) = metadata.containsDNSQueryTypeRule := rfl

theorem setRefused_some (metadata : RuleSetMetadata) :
    setRefused (some metadata) = (metadata.containsIPCIDRRule && !metadata.containsNonIPCIDRRule) := rfl

def disabledBySet (lookup : Metadata) (rule : DefaultDNSRuleOptions) : Bool :=
  rule.ruleSet.any fun tag => setDisables (lookup tag)

def refusedBySet (lookup : Metadata) (rule : DefaultDNSRuleOptions) : Bool :=
  !rule.matchResponse && rule.ruleSet.any fun tag => setRefused (lookup tag)

variable {flags : ModeFlags}

theorem enabled_ok : Enabled (.ok flags) ↔ flags.disabled = false := by
  simp [Enabled]

theorem enabled_error {err : String} : ¬ Enabled (.error err) := by
  simp [Enabled]

section

variable (lookup : Metadata)

theorem ruleSetRequirements_enabled (matchSource : Bool) (tags : List String) (flags : ModeFlags) :
    Enabled (ruleSetRequirements lookup matchSource tags flags) ↔ flags.disabled = false ∧
      (tags.any fun tag => setDisables (lookup tag)) = false := by
  induction tags generalizing flags with
  | nil => simp [ruleSetRequirements, enabled_ok]
  | cons tag tags ih =>
    rw [ruleSetRequirements, lookupDNSRuleSetMetadata, any_cons]
    cases lookup tag with
    | none => simp [enabled_error, setDisables]
    | some metadata =>
      rw [setDisables_some, ih, Bool.or_eq_false_iff, Bool.or_eq_false_iff, and_assoc]

theorem subRuleRequirements_enabled (rs : List (Rule DefaultDNSRuleOptions)) (i : ℕ) (flags : ModeFlags) :
    Enabled (subRuleRequirements lookup i flags rs) ↔ flags.disabled = false ∧
      ∀ r ∈ rs, Enabled (dnsRuleModeRequirementsInRule lookup false .empty r) := by
  induction rs generalizing i flags with
  | nil => simp [subRuleRequirements, enabled_ok]
  | cons r rs ih =>
    rw [subRuleRequirements, forall_mem_cons]
    cases dnsRuleModeRequirementsInRule lookup false .empty r with
    | error err => simp [enabled_error]
    | ok subFlags =>
      rw [ih, enabled_ok, ModeFlags.merge, Bool.or_eq_false_iff, and_assoc]

theorem requirementsInRule_enabled (race : Bool) (action : DNSRuleAction) (r : Rule DefaultDNSRuleOptions) :
    Enabled (dnsRuleModeRequirementsInRule lookup race action r) ↔
      Enabled (dnsRuleModeRequirementsInRule noMetadata race action r) ∧ has (disabledBySet lookup) r = false := by
  induction r using inductionOn generalizing race action with
  | default d =>
    have hnone : (d.ruleSet.any fun tag => setDisables (noMetadata tag)) = false := by simp [noMetadata, setDisables]
    rw [dnsRuleModeRequirementsInRule, dnsRuleModeRequirementsInRule, dnsRuleModeRequirementsInDefaultRule,
      dnsRuleModeRequirementsInDefaultRule, ruleSetRequirements_enabled, ruleSetRequirements_enabled, hnone, has,
      disabledBySet]
    simp
  | logical mode invert rs ih =>
    rw [dnsRuleModeRequirementsInRule, dnsRuleModeRequirementsInRule, subRuleRequirements_enabled,
      subRuleRequirements_enabled, has, hasAny_eq, any_eq_false, and_assoc]
    refine and_congr_right fun _ => ?_
    rw [← forall₂_and]
    refine forall₂_congr fun r hr => ?_
    rw [ih r hr, Bool.not_eq_true]

theorem ruleRequirements_enabled (rules : List DNSRuleOptions) (i : ℕ) (flags : ModeFlags) :
    Enabled (ruleRequirements lookup i flags rules) ↔ flags.disabled = false ∧
      ∀ r ∈ rules, Enabled (dnsRuleModeRequirementsInRule lookup r.race r.action r.tree) := by
  induction rules generalizing i flags with
  | nil => simp [ruleRequirements, enabled_ok]
  | cons r rules ih =>
    rw [ruleRequirements, forall_mem_cons]
    cases dnsRuleModeRequirementsInRule lookup r.race r.action r.tree with
    | error err => simp [enabled_error]
    | ok ruleFlags =>
      rw [ih, enabled_ok, ModeFlags.merge, Bool.or_eq_false_iff, and_assoc]

theorem dnsRuleModeRequirements_enabled (rules : List DNSRuleOptions) :
    Enabled (dnsRuleModeRequirements lookup rules) ↔ Enabled (dnsRuleModeRequirements noMetadata rules) ∧
      ∀ r ∈ rules, has (disabledBySet lookup) r.tree = false := by
  rw [dnsRuleModeRequirements, dnsRuleModeRequirements, ruleRequirements_enabled, ruleRequirements_enabled, and_assoc]
  refine and_congr_right fun _ => ?_
  rw [← forall₂_and]
  exact forall₂_congr fun r _ => requirementsInRule_enabled lookup r.race r.action r.tree

theorem validateRuleSets_iff (tags : List String) :
    validateRuleSets lookup tags = .ok () ↔ (tags.any fun tag => setRefused (lookup tag)) = false := by
  induction tags with
  | nil => simp [validateRuleSets]
  | cons tag tags ih =>
    rw [validateRuleSets, lookupDNSRuleSetMetadata, any_cons]
    cases lookup tag with
    | none => simp [setRefused]
    | some metadata =>
      rw [setRefused_some, Bool.or_eq_false_iff, ← ih]
      by_cases hip : (metadata.containsIPCIDRRule && !metadata.containsNonIPCIDRRule)
      · simp [hip]
      · simp [hip]

end

theorem ok_iff_cases {α : Type} {x y : Except String α} {p : Prop} (h : ∀ a, x = .ok a ↔ y = .ok a ∧ p) :
    (∃ a, x = .ok a ∧ y = .ok a ∧ p) ∨ ∃ err, x = .error err ∧ ((∃ err', y = .error err') ∨ ¬ p) := by
  cases hx : x with
  | ok a => exact .inl ⟨a, rfl, (h a).mp hx⟩
  | error err =>
    refine .inr ⟨err, rfl, ?_⟩
    cases hy : y with
    | error err' => exact .inl ⟨err', rfl⟩
    | ok a => exact .inr fun hp => by simp [(h a).mpr ⟨hy, hp⟩] at hx

section

variable (lookup : Metadata)

theorem validateDefaultRule_iff (action : DNSRuleAction) (d : DefaultDNSRuleOptions) (use : ResponseUse) :
    validateDefaultRule lookup action d = .ok use ↔
      validateDefaultRule noMetadata action d = .ok use ∧ refusedBySet lookup d = false := by
  -- the sets are looked at only without `match_response`
  have hsets : ∀ l : Metadata, (if d.matchResponse then .ok () else validateRuleSets l d.ruleSet) = .ok () ↔
      refusedBySet l d = false := by
    intro l
    unfold refusedBySet
    cases d.matchResponse with
    | true => simp
    | false => simpa using validateRuleSets_iff l d.ruleSet
  have hnone : refusedBySet noMetadata d = false := by
    simp [refusedBySet, noMetadata, setRefused]
  unfold validateDefaultRule
  rw [(hsets noMetadata).mpr hnone]
  cases hl : (if d.matchResponse then .ok () else validateRuleSets lookup d.ruleSet) with
  | ok u =>
    have hfine := (hsets lookup).mp hl
    simp [hfine]
  | error err =>
    have hbad : ¬ refusedBySet lookup d = false := fun h => by simp [(hsets lookup).mpr h] at hl
    split_ifs <;> simp [hbad]

theorem validateSubRules_iff (rs : List (Rule DefaultDNSRuleOptions))
    (ih : ∀ r ∈ rs, ∀ action use, validateRuleTree lookup action r = .ok use ↔
      validateRuleTree noMetadata action r = .ok use ∧ has (refusedBySet lookup) r = false)
    (i : ℕ) (use use' : ResponseUse) : validateSubRules lookup i use rs = .ok use' ↔
      validateSubRules noMetadata i use rs = .ok use' ∧ ∀ r ∈ rs, has (refusedBySet lookup) r = false := by
  induction rs generalizing i use with
  | nil => simp [validateSubRules]
  | cons r rs ihrs =>
    have hrs := ihrs fun r hmem => ih r (mem_cons_of_mem _ hmem)
    rw [validateSubRules, validateSubRules, forall_mem_cons]
    obtain ⟨sub, hl, hn, hfine⟩ | ⟨err, hl, ⟨err', hn⟩ | hbad⟩ := ok_iff_cases (ih r mem_cons_self .empty)
    · rw [hl, hn]
      rw [hrs, and_iff_right hfine]
    · simp [hl, hn]
    · simp [hl, hbad]

theorem validateRuleTree_iff (r : Rule DefaultDNSRuleOptions) (action : DNSRuleAction) (use : ResponseUse) :
    validateRuleTree lookup action r = .ok use ↔
      validateRuleTree noMetadata action r = .ok use ∧ has (refusedBySet lookup) r = false := by
  induction r using inductionOn generalizing action use with
  | default d => exact validateDefaultRule_iff lookup action d use
  | logical mode invert rs ih =>
    have hall : rs.any (has (refusedBySet lookup)) = false ↔ ∀ r ∈ rs, has (refusedBySet lookup) r = false := by simp
    rw [validateRuleTree, validateRuleTree, has, hasAny_eq, hall]
    obtain ⟨sub, hl, hn, hfine⟩ | ⟨err, hl, ⟨err', hn⟩ | hbad⟩ := ok_iff_cases (validateSubRules_iff lookup rs ih 0 {})
    · rw [hl, hn, and_iff_left hfine]
    · simp [hl, hn]
    · rw [hl]
      simp only [reduceCtorEq, false_iff]
      exact fun h => hbad h.2

theorem validateLoop_iff (rules : List DNSRuleOptions) (i : ℕ) (s s' : ValidateState) :
    validateLoop lookup i s rules = .ok s' ↔
      validateLoop noMetadata i s rules = .ok s' ∧ ∀ r ∈ rules, has (refusedBySet lookup) r.tree = false := by
  induction rules generalizing i s with
  | nil => simp [validateLoop]
  | cons r rules ih =>
    rw [validateLoop, validateLoop, validateRule, validateRule, forall_mem_cons]
    obtain ⟨use, hl, hn, hfine⟩ | ⟨err, hl, ⟨err', hn⟩ | hbad⟩ :=
      ok_iff_cases (validateRuleTree_iff lookup r.tree r.action)
    · rw [hl, hn]
      dsimp only
      cases validateUse i use (noteRace i r s) with
      | error err => simp
      | ok s1 =>
        dsimp only
        cases validateEvaluate i r.action s1 with
        | error err => simp
        | ok s2 =>
          rw [ih, and_iff_right hfine]
    · simp [hl, hn]
    · simp [hl, hbad]

theorem validateRules_isOk (rules : List DNSRuleOptions) : (validateLegacyDNSModeDisabledRules lookup rules).isOk ↔
      (validateLegacyDNSModeDisabledRules noMetadata rules).isOk ∧
        ∀ r ∈ rules, has (refusedBySet lookup) r.tree = false := by
  unfold validateLegacyDNSModeDisabledRules
  obtain ⟨s, hl, hn, hfine⟩ | ⟨err, hl, ⟨err', hn⟩ | hbad⟩ := ok_iff_cases (validateLoop_iff lookup rules 0 {})
  · rw [hl, hn, and_iff_left hfine]
  · simp [hl, hn, Except.isOk, Except.toBool]
  · rw [hl]
    simp only [Except.isOk, Except.toBool, Bool.false_eq_true, false_iff]
    exact fun h => hbad h.2

end

/-! ## Runs -/

structure Fits (rules : List DNSRuleOptions) (mode : Bool) (lookup : Metadata) : Prop where
  legacy : mode = true → Enabled (dnsRuleModeRequirements lookup rules)
  resolved : mode = false → ∃ flags, resolveLegacyDNSMode lookup rules = .ok (false, flags)
  accepted : mode = false → (validateLegacyDNSModeDisabledRules lookup rules).isOk = true

section Runs

variable {rules : List DNSRuleOptions} {mode : Bool}

variable {lookup : Metadata}

theorem validateRules_ok (h : validateRules lookup rules = .ok ()) :
    (validateLegacyDNSModeDisabledRules lookup rules).isOk := by
  unfold validateRules at h
  cases hv : validateLegacyDNSModeDisabledRules lookup rules with
  | error err => simp [hv] at h
  | ok warnings => rfl

theorem fits_nil (mode : Bool) (lookup : Metadata) : Fits [] mode lookup :=
  ⟨fun _ => ⟨{}, rfl, rfl⟩, fun _ => ⟨{}, rfl⟩, fun _ => rfl⟩

theorem resolve_true
    (h : resolveLegacyDNSMode lookup rules = .ok (true, flags)) : Enabled (dnsRuleModeRequirements lookup rules) := by
  unfold resolveLegacyDNSMode at h
  cases hr : dnsRuleModeRequirements lookup rules with
  | error err => simp [hr] at h
  | ok f =>
    rw [enabled_ok, ← Bool.not_eq_true]
    intro hd
    simp only [hr, hd, Bool.true_and, if_true] at h
    split_ifs at h
    simp at h

theorem resolve_enabled {candidate : Bool}
    (h : resolveLegacyDNSMode lookup rules = .ok (candidate, flags)) (hd : flags.disabled = false) :
    Enabled (dnsRuleModeRequirements lookup rules) := by
  unfold resolveLegacyDNSMode at h
  cases hr : dnsRuleModeRequirements lookup rules with
  | error err => simp [hr] at h
  | ok f =>
    simp only [hr] at h
    split_ifs at h <;> simp only [Except.ok.injEq, Prod.mk.injEq] at h <;> rw [enabled_ok, h.2, hd]

theorem startMode_fits (h : startMode lookup rules = .ok mode) : Fits rules mode lookup := by
  unfold startMode at h
  rcases hr : resolveLegacyDNSMode lookup rules with err | ⟨_ | _, flags⟩
  · simp [hr] at h
  · cases hv : validateRules lookup rules with
    | error err => simp [hr, hv] at h
    | ok u =>
      simp only [hr, hv, Except.ok.injEq] at h
      subst h
      exact ⟨by simp, fun _ => ⟨flags, hr⟩, fun _ => validateRules_ok hv⟩
  · simp only [hr, Except.ok.injEq] at h
    subst h
    exact ⟨fun _ => resolve_true hr, by simp, by simp⟩

variable {published : Metadata} {metadata : RuleSetMetadata}

theorem validate_fits {tag : String} (h : validateRuleSetMetadataUpdate rules { started := true, legacyDNSMode := mode } published tag metadata = .ok ()) :
    Fits rules mode (update published tag (some metadata)) := by
  unfold validateRuleSetMetadataUpdate at h
  by_cases he : rules.isEmpty
  · rw [isEmpty_iff.mp he]
    exact fits_nil mode _
  · simp only [he, Bool.false_eq_true, if_false, Bool.not_true] at h
    rcases hr : resolveLegacyDNSMode (update published tag (some metadata)) rules with err | ⟨candidate, flags⟩
    · simp [hr] at h
    · simp only [hr] at h
      cases mode with
      | true =>
        refine ⟨fun _ => ?_, by simp, by simp⟩
        by_cases hd : flags.disabled
        · cases candidate with
          | true => exact resolve_true hr
          | false =>
            simp only [hd, Bool.not_false, Bool.and_self, if_true] at h
            cases hv : validateRules (update published tag (some metadata)) rules <;> simp [hv] at h
        · exact resolve_enabled hr (by simpa using hd)
      | false =>
        cases candidate with
        | true => simp at h
        | false =>
          exact ⟨by simp, fun _ => ⟨flags, hr⟩, fun _ => validateRules_ok h⟩

/-! ### Published set by set -/

theorem any_publish (bad : Option RuleSetMetadata → Bool) (published seen : Metadata) (tag : String)
    (metadata : RuleSetMetadata) (tags : List String)
    (h : (tags.any fun t => bad (update published tag (some metadata) t))) :
    ((tags.any fun t => bad (published t)) || tags.any fun t => bad (update seen tag (some metadata) t)) := by
  rw [any_eq_true] at h
  obtain ⟨t, ht, hbad⟩ := h
  rw [Bool.or_eq_true, any_eq_true, any_eq_true]
  by_cases he : t = tag
  · refine .inr ⟨t, ht, ?_⟩
    rw [he, update_self] at hbad ⊢
    exact hbad
  · rw [update_of_ne he] at hbad
    exact .inl ⟨t, ht, hbad⟩

theorem has_publish {f : Metadata → DefaultDNSRuleOptions → Bool} {before seen after : Metadata}
    (hf : ∀ d, f after d → (f before d || f seen d)) {r : Rule DefaultDNSRuleOptions}
    (hb : has (f before) r = false) (hs : has (f seen) r = false) : has (f after) r = false := by
  refine has_mono hf ?_
  rw [has_or, hb, hs]
  rfl

theorem enabled_publish {published seen : Metadata} {tag : String}
    (hb : Enabled (dnsRuleModeRequirements published rules))
    (hs : Enabled (dnsRuleModeRequirements (update seen tag (some metadata)) rules)) :
    Enabled (dnsRuleModeRequirements (update published tag (some metadata)) rules) := by
  rw [dnsRuleModeRequirements_enabled] at hb hs ⊢
  refine ⟨hb.1, fun r hr => has_publish (fun d => ?_) (hb.2 r hr) (hs.2 r hr)⟩
  exact any_publish setDisables published seen tag metadata d.ruleSet

theorem accepted_publish {published seen : Metadata} {tag : String}
    (hb : (validateLegacyDNSModeDisabledRules published rules).isOk)
    (hs : (validateLegacyDNSModeDisabledRules (update seen tag (some metadata)) rules).isOk) :
    (validateLegacyDNSModeDisabledRules (update published tag (some metadata)) rules).isOk := by
  rw [validateRules_isOk] at hb hs ⊢
  refine ⟨hb.1, fun r hr => has_publish (fun d hd => ?_) (hb.2 r hr) (hs.2 r hr)⟩
  simp only [refusedBySet, Bool.and_eq_true] at hd
  have hany := any_publish setRefused published seen tag metadata d.ruleSet hd.2
  simpa [refusedBySet, hd.1] using hany

/-! ### The invariant -/

/-- the router is as its start left it; the published metadata fits the mode, but for the resolution of the mode where
`serial` is not given, and every validated reload fits with what it has seen -/
structure ReloadInv (rules : List DNSRuleOptions) (mode : Bool) (serial : Prop) (s : ReloadState) : Prop where
  router : s.router = { started := true, legacyDNSMode := mode }
  legacy : mode = true → Enabled (dnsRuleModeRequirements s.published rules)
  resolved : serial → mode = false → ∃ flags, resolveLegacyDNSMode s.published rules = .ok (false, flags)
  accepted : mode = false → (validateLegacyDNSModeDisabledRules s.published rules).isOk = true
  reloads : ∀ r ∈ s.reloads, Fits rules mode (Function.update r.seen r.tag (some r.metadata))

/-- the reload that an operation publishes saw the other sets as they are published now -/
def Current (s : ReloadState) : ReloadOp → Prop
  | .validate _ _ => True
  | .publish i => ∀ r, s.reloads[i]? = some r → ∀ tag, tag ≠ r.tag → s.published tag = r.seen tag

/-- no other set is published between the validation of a reload and its publication -/
def Serial (rules : List DNSRuleOptions) : ReloadState → List ReloadOp → Prop
  | _, [] => True
  | s, op :: ops => Current s op ∧ Serial rules (reloadStep rules s op) ops

theorem init_inv (h : startMode published rules = .ok mode) (serial : Prop) :
    ReloadInv rules mode serial (startState published mode) := by
  have hfit := startMode_fits h
  exact ⟨rfl, hfit.legacy, fun _ => hfit.resolved, hfit.accepted, by simp [startState]⟩

section

variable {serial : Prop} {s : ReloadState} (h : ReloadInv rules mode serial s)
include h

theorem step_reloadInv (op : ReloadOp)
    (hcur : serial → mode = false → Current s op) : ReloadInv rules mode serial (reloadStep rules s op) := by
  cases op with
  | validate tag metadata =>
    rw [reloadStep]
    cases hv : validateRuleSetMetadataUpdate rules s.router s.published tag metadata with
    | error err => exact h
    | ok u =>
      refine { h with reloads := fun r hr => ?_ }
      rcases mem_append.mp hr with hr | hr
      · exact h.reloads r hr
      · obtain rfl : r = ⟨tag, metadata, s.published⟩ := by simpa using hr
        rw [h.router] at hv
        exact validate_fits hv
  | publish i =>
    rw [reloadStep]
    cases hi : s.reloads[i]? with
    | none => exact h
    | some r =>
      have hfit := h.reloads r (mem_of_getElem? hi)
      refine ⟨h.router, fun hm => enabled_publish (h.legacy hm) (hfit.legacy hm), fun hser hm => ?_,
        fun hm => accepted_publish (h.accepted hm) (hfit.accepted hm),
        fun r' hr' => h.reloads r' (mem_of_mem_eraseIdx hr')⟩
      have hsame : update s.published r.tag (some r.metadata) = update r.seen r.tag (some r.metadata) := by
        funext tag
        by_cases ht : tag = r.tag
        · rw [ht, update_self, update_self]
        · rw [update_of_ne ht, update_of_ne ht]
          exact hcur hser hm r hi tag ht
      dsimp only
      rw [hsame]
      exact hfit.resolved hm

theorem run_reloadInv (ops : List ReloadOp)
    (hserial : serial → mode = false → Serial rules s ops) : ReloadInv rules mode serial (reloadRun rules s ops) := by
  induction ops generalizing s with
  | nil => exact h
  | cons op ops ih =>
    refine ih (step_reloadInv h op fun hs hm => (hserial hs hm).1) fun hs hm => (hserial hs hm).2

end

/-- whatever the order of the reloads: legacy mode stays enabled, and without it the rules stay acceptable -/
theorem run_separate (hstart : startMode published rules = .ok mode) (ops : List ReloadOp) :
    let s := reloadRun rules (startState published mode) ops
    (mode → Enabled (dnsRuleModeRequirements s.published rules)) ∧
      (mode = false → (validateLegacyDNSModeDisabledRules s.published rules).isOk) := by
  have h := run_reloadInv (init_inv hstart False) ops False.elim
  exact ⟨h.legacy, h.accepted⟩

def twoSets : List DNSRuleOptions :=
  [{ tree := .default { ruleSet := ["first", "second"] }, action := .route "remote" false {} }]

def twoSetsPublished : Metadata := fun tag =>
  if tag = "first" then some { containsNonIPCIDRRule := true, containsDNSQueryTypeRule := true }
  else if tag = "second" then some { containsNonIPCIDRRule := true }
  else none

theorem twoSets_stay_acceptable : startMode twoSetsPublished twoSets = .ok false ∧
    ∀ ops, (validateLegacyDNSModeDisabledRules
      (reloadRun twoSets (startState twoSetsPublished false) ops).published twoSets).isOk := by
  have hstart : startMode twoSetsPublished twoSets = .ok false := by decide +kernel
  exact ⟨hstart, fun ops => (run_separate hstart ops).2 rfl⟩

/-- **The mode stays right**, after any interleaving of reloads: always in legacy mode, and otherwise if no other set is
published between the validation of a reload and its publication. -/
theorem run_consistent (rules : List DNSRuleOptions) (published : Metadata) (mode : Bool) (ops : List ReloadOp)
    (hstart : startMode published rules = .ok mode)
    (hserial : mode = false → Serial rules (startState published mode) ops) :
    Consistent rules (reloadRun rules (startState published mode) ops) := by
  have h := run_reloadInv (init_inv hstart True) ops fun _ => hserial
  have hmode : (reloadRun rules (startState published mode) ops).router.legacyDNSMode = mode := by rw [h.router]
  refine ⟨fun hm => h.legacy (hmode ▸ hm), fun hm => ?_⟩
  rw [hmode] at hm
  exact ⟨h.resolved trivial hm, h.accepted hm⟩

theorem run_consistent_single :
    Consistent twoSets (reloadRun twoSets (startState twoSetsPublished false)
      [.validate "first" { containsNonIPCIDRRule := true }, .publish 0]) := by
  refine run_consistent twoSets twoSetsPublished false _ (by decide +kernel) fun _ => ⟨trivial, ?_, trivial⟩
  have hvalid : (reloadStep twoSets (startState twoSetsPublished false)
      (.validate "first" { containsNonIPCIDRRule := true })) = { startState twoSetsPublished false with
        reloads := [⟨"first", { containsNonIPCIDRRule := true }, twoSetsPublished⟩] } := by
    have hok : validateRuleSetMetadataUpdate twoSets { started := true, legacyDNSMode := false } twoSetsPublished "first"
        { containsNonIPCIDRRule := true } = .ok () := by decide +kernel
    rw [reloadStep, startState, hok]
    rfl
  rw [hvalid]
  intro r hr tag _
  obtain rfl : _ = r := by simpa using hr
  rfl

/-- **Two reloads that do not fit together.** One set drops its `query_type` items, the other gets addresses; each is
validated against the old state of the other. Then legacy mode is needed, and not there. -/
theorem run_inconsistent :
    startMode twoSetsPublished twoSets = .ok false ∧
    let s := reloadRun twoSets (startState twoSetsPublished false)
      [.validate "first" { containsNonIPCIDRRule := true },
        .validate "second" { containsIPCIDRRule := true, containsNonIPCIDRRule := true }, .publish 0, .publish 0]
    s.router.legacyDNSMode = false ∧ resolveLegacyDNSMode s.published twoSets = .ok (true, { needed := true }) := by
  decide +kernel

end Runs

end EtonifyCore.DNSRules
