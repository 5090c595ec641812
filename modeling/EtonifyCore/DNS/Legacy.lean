/-
Queries in legacy DNS mode: `matchDNS`, `exchangeLegacy` and the legacy loop of `Lookup` in `dns/router.go`.

`matchDNS` applies the options of the `route-options` rules that pre-match and stops at the first rule with another action.
If the response is rejected by the address items of that rule, the loop goes on after it, with a fresh copy of the caller's
options (`matchDNS_spec`, `loop_spec`).

How a query ends is an arbitrary sequence of attempts. Left out: the answers of `reject` and `predefined` rules, which make
no query, and logging.
-/
import EtonifyCore.DNS.Walk

namespace EtonifyCore.DNSLegacy

open List
open EtonifyCore.RuleMatch
open EtonifyCore.DNSRules
open EtonifyCore.DNSWalk (Transport)

variable {E : Type}

/-! ## Model -/

inductive Attempt where
  | response
  | rejected
  | failed
deriving DecidableEq, Repr

structure Env (E : Type) where
  rules : List (DNSRule E)
  transport : String → Option Transport
  defaultTransport : Transport
  defaultDomainStrategy : DomainStrategy := .asIS
  metadata : InboundContext E
  options : DNSQueryOptions := {}
  isAddressQuery : Bool := true

def override (options : DNSQueryOptions) (action : RouteOptions) : DNSQueryOptions :=
  let options := if action.strategy ≠ .asIS then { options with strategy := action.strategy } else options
  let options := if action.disableCache then { options with disableCache := true } else options
  let options := if action.rewriteTTL.isSome then { options with rewriteTTL := action.rewriteTTL } else options
  let options := if action.timeout > 0 then { options with timeout := action.timeout } else options
  applyClientSubnet options action

/-- a `route` action to a fake-IP server disables the cache -/
def routeOptions (transport : Transport) (action : RouteOptions) : RouteOptions :=
  { action with disableCache := transport.isFakeIP || action.disableCache }

def prepared (m : InboundContext E) : InboundContext E :=
  { m.resetRuleCache with destinationAddressMatchFromResponse := false }

inductive Found (E : Type) where
  | server (transport : Transport) (rule : Option (ℕ × DNSRule E)) (options : DNSQueryOptions)
  | answer (rule : ℕ)

/-- the loop of `matchDNS` over the rules that are left, the first of which has the index `i` -/
def matchDNS (env : Env E) (allowFakeIP : Bool) :
    List (DNSRule E) → ℕ → InboundContext E → DNSQueryOptions → Found E × InboundContext E
  | [], _, m, options => (.server env.defaultTransport none options, m)
  | rule :: rules, i, m, options =>
    if rule.cond.withAddressLimit && !env.isAddressQuery then matchDNS env allowFakeIP rules (i + 1) m options
    else
      let (matched, m) := rule.cond.legacyPreMatch (prepared m)
      if matched then
        match rule.action with
        | .route server _ action =>
          match env.transport server with
          | none => matchDNS env allowFakeIP rules (i + 1) m options
          | some transport =>
            if transport.isFakeIP && !allowFakeIP then matchDNS env allowFakeIP rules (i + 1) m options
            else (.server transport (some (i, rule)) (override options (routeOptions transport action)), m)
        | .routeOptions action => matchDNS env allowFakeIP rules (i + 1) m (override options action)
        | .reject _ | .predefined _ => (.answer i, m)
        | .evaluate .. | .respond => matchDNS env allowFakeIP rules (i + 1) m options
      else matchDNS env allowFakeIP rules (i + 1) m options

def Env.finalize (env : Env E) (options : DNSQueryOptions) : DNSQueryOptions :=
  if options.strategy = .asIS then { options with strategy := env.defaultDomainStrategy } else options

structure Query where
  rule : Option ℕ
  /-- the rules before this one were given up, the last one after its response was rejected -/
  start : ℕ
  transport : Transport
  options : DNSQueryOptions
  attempt : Attempt
deriving DecidableEq, Repr

inductive Result where
  | answered (rule : ℕ)
  | queried (query : Query)
deriving DecidableEq, Repr

def checked (rule : Option (ℕ × DNSRule E)) : Bool := rule.any (·.2.cond.withAddressLimit)

/-- the loops of `exchangeLegacy` and `Lookup` differ in the attempts after which a checked rule is given up -/
def loop (env : Env E) (allowFakeIP : Bool) (givesUp : Attempt → Bool) (attempts : ℕ → Attempt) :
    ℕ → ℕ → InboundContext E → ℕ → Option Result
  | 0, _, _, _ => none
  | fuel + 1, start, m, n =>
    match matchDNS env allowFakeIP (env.rules.drop start) start m env.options with
    | (.answer i, _) => some (.answered i)
    | (.server transport rule options, m) =>
      if checked rule && givesUp (attempts n) then
        loop env allowFakeIP givesUp attempts fuel (rule.elim 0 (·.1 + 1)) m (n + 1)
      else some (.queried ⟨rule.map (·.1), start, transport, env.finalize options, attempts n⟩)

def exchangeLegacy (env : Env E) (attempts : ℕ → Attempt) : Option Result :=
  loop env true (· = .rejected) attempts (env.rules.length + 1) 0 env.metadata 0

def Env.lookup (env : Env E) : Env E := { env with isAddressQuery := true }

def lookupLegacy (env : Env E) (attempts : ℕ → Attempt) : Option Result :=
  loop env.lookup false (· ≠ .response) attempts (env.rules.length + 1) 0 env.metadata 0

/-! ## Options of rules -/

def preMatches (env : Env E) (rule : DNSRule E) : Bool :=
  !(rule.cond.withAddressLimit && !env.isAddressQuery) && (rule.cond.legacyPreMatch (prepared env.metadata)).1

def optionsOf : DNSRuleAction → Option RouteOptions
  | .routeOptions action => some action
  | .route .. | .evaluate .. | .respond | .reject _ | .predefined _ => none

def applied (env : Env E) (rules : List (DNSRule E)) : List RouteOptions :=
  (rules.filter (preMatches env)).filterMap fun rule => optionsOf rule.action

def overrideAll (options : DNSQueryOptions) (actions : List RouteOptions) : DNSQueryOptions :=
  actions.foldl override options

theorem applied_append (env : Env E) (rules rules' : List (DNSRule E)) :
    applied env (rules ++ rules') = applied env rules ++ applied env rules' := by
  unfold applied
  rw [filter_append, filterMap_append]

variable (options : DNSQueryOptions)

theorem overrideAll_append (actions actions' : List RouteOptions) :
    overrideAll options (actions ++ actions') = overrideAll (overrideAll options actions) actions' := foldl_append

/-! ## What `matchDNS` finds -/

def entry (m : InboundContext E) : InboundContext E := { prepared m with ignoreDestinationIPCIDRMatch := true }

theorem legacyPreMatch_entry (r : DNSRuleTree E) (m : InboundContext E) :
    entry (r.legacyPreMatch (prepared m)).2 = entry m ∧
      ∀ m', entry m' = entry m → (r.legacyPreMatch (prepared m')).1 = (r.legacyPreMatch (prepared m)).1 := by
  cases r with
  | default d =>
    dsimp only [DNSRuleTree.legacyPreMatch]
    split_ifs
    · exact ⟨rfl, fun _ _ => rfl⟩
    · have hregular := d.abstractMatch_regular (entry m) rfl
      refine ⟨?_, fun m' h => ?_⟩
      · change entry { (d.abstractMatch (entry m)).2 with ignoreDestinationIPCIDRMatch := false } = entry m
        rw [hregular]
        rfl
      · change (d.abstractMatch (entry m')).1 = (d.abstractMatch (entry m)).1
        rw [h]
  | logical mode invert rules =>
    have hregular := dnsRule_regular (.logical mode invert rules) (entry m) rfl
    refine ⟨?_, fun m' h => ?_⟩
    · change entry { (DNSRuleTree.matchOn (.logical mode invert rules) (entry m)).2 with
        ignoreDestinationIPCIDRMatch := false } = entry m
      rw [hregular]
      rfl
    · change (DNSRuleTree.matchOn (.logical mode invert rules) (entry m')).1 = _
      rw [h]
      rfl

inductive Finds (env : Env E) (rules : List (DNSRule E)) (i : ℕ) (options : DNSQueryOptions) : Found E → Prop where
  | default : Finds env rules i options
      (.server env.defaultTransport none (overrideAll options (applied env rules)))
  | route (pre post : List (DNSRule E)) (rule : DNSRule E) (server : String) (speculative : Bool) (action : RouteOptions)
      (transport : Transport) (hrules : rules = pre ++ rule :: post) (haction : rule.action = .route server speculative action) :
      Finds env rules i options (.server transport (some (i + pre.length, rule))
        (overrideAll options (applied env pre ++ [routeOptions transport action])))
  | answer (j : ℕ) : Finds env rules i options (.answer j)

theorem Finds.cons {env : Env E} {rules : List (DNSRule E)} {i : ℕ} {options options' : DNSQueryOptions} {found : Found E}
    (rule : DNSRule E) (h : Finds env rules (i + 1) options' found)
    (hoptions : overrideAll options (applied env [rule]) = options') : Finds env (rule :: rules) i options found := by
  cases h with
  | default =>
    have hcons : applied env (rule :: rules) = applied env [rule] ++ applied env rules := applied_append env [rule] rules
    rw [← hoptions, ← overrideAll_append, ← hcons]
    exact .default
  | route pre post chosen server speculative action transport hrules haction =>
    have hcons : applied env (rule :: pre) = applied env [rule] ++ applied env pre := applied_append env [rule] pre
    rw [← hoptions, ← overrideAll_append, ← append_assoc, ← hcons, Nat.add_assoc, Nat.add_comm 1]
    exact .route (rule :: pre) post chosen server speculative action transport (by rw [hrules]; rfl) haction
  | answer j => exact .answer j

theorem applied_eq_nil {env : Env E} {rule : DNSRule E} (h : preMatches env rule = false ∨ optionsOf rule.action = none) :
    applied env [rule] = [] := by
  unfold applied
  cases hmatch : preMatches env rule with
  | false => simp [hmatch]
  | true =>
    rw [hmatch] at h
    simpa [hmatch] using h

theorem matchDNS_spec (env : Env E) (allowFakeIP : Bool) (rules : List (DNSRule E)) (i : ℕ) {m : InboundContext E}
    (hm : entry m = entry env.metadata) (options : DNSQueryOptions) :
    Finds env rules i options (matchDNS env allowFakeIP rules i m options).1 ∧
      entry (matchDNS env allowFakeIP rules i m options).2 = entry env.metadata := by
  induction rules generalizing i m options with
  | nil => exact ⟨.default, hm⟩
  | cons rule rules ih =>
    have pass {m' : InboundContext E} (hm' : entry m' = entry env.metadata)
        (h : preMatches env rule = false ∨ optionsOf rule.action = none) :
        Finds env (rule :: rules) i options (matchDNS env allowFakeIP rules (i + 1) m' options).1 ∧
          entry (matchDNS env allowFakeIP rules (i + 1) m' options).2 = entry env.metadata := by
      obtain ⟨hfinds, hentry⟩ := ih (i + 1) hm' options
      refine ⟨hfinds.cons rule ?_, hentry⟩
      rw [applied_eq_nil h]
      rfl
    have hentry := (legacyPreMatch_entry rule.cond m).1.trans hm
    have hmatched := (legacyPreMatch_entry rule.cond env.metadata).2 m hm
    unfold matchDNS
    dsimp only
    split_ifs with hskip hmatch
    · exact pass hm (.inl (by simp [preMatches, hskip]))
    · cases haction : rule.action with
      | route server speculative action =>
        have hnone : optionsOf rule.action = none := by
          rw [haction]
          rfl
        dsimp only
        cases env.transport server with
        | none => exact pass hentry (.inr hnone)
        | some transport =>
          dsimp only
          split_ifs
          · exact pass hentry (.inr hnone)
          · exact ⟨.route [] rules rule server speculative action transport rfl haction, hentry⟩
      | routeOptions action =>
        obtain ⟨hfinds, hentry'⟩ := ih (i + 1) hentry (override options action)
        refine ⟨hfinds.cons rule ?_, hentry'⟩
        have hpre : preMatches env rule := by
          rw [preMatches, ← hmatched, hmatch, Bool.and_true, Bool.not_eq_true']
          exact Bool.eq_false_iff.2 hskip
        simp [applied, hpre, haction, optionsOf, overrideAll]
      | reject _ | predefined _ => exact ⟨.answer i, hentry⟩
      | evaluate _ _ _ _ | respond => exact pass hentry (.inr (by rw [haction]; rfl))
    · refine pass hentry (.inl ?_)
      rw [preMatches, ← hmatched, Bool.eq_false_iff.2 hmatch, Bool.and_false]

/-! ## The query that is made at last -/

namespace Query

variable (env : Env E) (q : Query)

def position : ℕ := q.rule.getD env.rules.length

def own : List RouteOptions :=
  match q.rule.bind fun i => env.rules[i]? with
  | none => []
  | some rule =>
    match rule.action with
    | .route _ _ action => [routeOptions q.transport action]
    | .routeOptions _ | .evaluate .. | .respond | .reject _ | .predefined _ => []

def earlier : List RouteOptions := applied env (env.rules.take q.start)

def later : List RouteOptions := applied env ((env.rules.take (q.position env)).drop q.start) ++ q.own env

/-- the caller's options, overridden by every `route-options` rule before the chosen one and by that one -/
def expected : DNSQueryOptions :=
  env.finalize (overrideAll env.options (applied env (env.rules.take (q.position env)) ++ q.own env))

/-- the options are those of the rules after the last one that was given up -/
structure Restarted : Prop where
  le : q.start ≤ q.position env
  options : q.options = env.finalize (overrideAll env.options (q.later env))

variable {env q}

theorem expected_eq (h : q.start ≤ q.position env) :
    q.expected env = env.finalize (overrideAll (overrideAll env.options (q.earlier env)) (q.later env)) := by
  have hsplit : env.rules.take (q.position env) =
      env.rules.take q.start ++ (env.rules.take (q.position env)).drop q.start := by
    have happend := take_append_drop q.start (env.rules.take (q.position env))
    rw [take_take, Nat.min_eq_left h] at happend
    exact happend.symm
  rw [expected, ← overrideAll_append, earlier, later, ← append_assoc, ← applied_append, ← hsplit]

end Query

theorem loop_spec (env : Env E) (allowFakeIP : Bool) (givesUp : Attempt → Bool) (attempts : ℕ → Attempt) (fuel start : ℕ)
    {m : InboundContext E} (hm : entry m = entry env.metadata) (n : ℕ) (hstart : start ≤ env.rules.length)
    (hfuel : env.rules.length < fuel + start) :
    ∃ result, loop env allowFakeIP givesUp attempts fuel start m n = some result ∧
      ∀ q, result = .queried q → q.Restarted env := by
  induction fuel generalizing start m n with
  | zero => omega
  | succ fuel ih =>
    unfold loop
    obtain ⟨hfinds, hentry⟩ := matchDNS_spec env allowFakeIP (env.rules.drop start) start hm env.options
    generalize matchDNS env allowFakeIP (env.rules.drop start) start m env.options = result at hfinds hentry ⊢
    obtain ⟨found, m'⟩ := result
    cases hfinds with
    | answer j =>
      refine ⟨.answered j, rfl, ?_⟩
      intro q hq
      cases hq
    | default =>
      -- there is no check without a rule
      have hchecked : ¬ (checked (none : Option (ℕ × DNSRule E)) && givesUp (attempts n)) := Bool.false_ne_true
      dsimp only
      rw [if_neg hchecked]
      refine ⟨_, rfl, ?_⟩
      intro q hq
      cases hq
      refine ⟨hstart, ?_⟩
      dsimp only [Query.later, Query.position, Query.own, Option.map_none, Option.getD_none, Option.bind_none]
      rw [take_length, append_nil]
    | route pre post rule server speculative action transport hrules haction =>
      have hlength := congrArg List.length hrules
      rw [length_drop, length_append, length_cons] at hlength
      dsimp only
      split_ifs
      · exact ih (start + pre.length + 1) hentry (n + 1) (by omega) (by omega)
      · refine ⟨_, rfl, ?_⟩
        intro q hq
        cases hq
        have hchosen : env.rules[start + pre.length]? = some rule := by
          rw [← List.getElem?_drop, hrules]
          simp
        have hpre : (env.rules.take (start + pre.length)).drop start = pre := by
          rw [drop_take, hrules, Nat.add_sub_cancel_left]
          exact take_left
        refine ⟨Nat.le_add_right _ _, ?_⟩
        dsimp only [Query.later, Query.position, Query.own, Option.map_some, Option.getD_some, Option.bind_some]
        rw [hchosen, hpre]
        dsimp only
        rw [haction]

/-! ## Options that are set again -/

def SetBy {α : Type} (f : DNSQueryOptions → α) (g : RouteOptions → Option α) : Prop :=
  ∀ options action, f (override options action) = (g action).getD (f options)

theorem SetBy.overrideAll_eq_iff {α : Type} {f : DNSQueryOptions → α} {g : RouteOptions → Option α} (h : SetBy f g)
    (actions : List RouteOptions) (a b : DNSQueryOptions) :
    f (overrideAll a actions) = f (overrideAll b actions) ↔ f a = f b ∨ ∃ action ∈ actions, (g action).isSome := by
  induction actions generalizing a b with
  | nil => simp [overrideAll]
  | cons action actions ih =>
    change f (overrideAll (override a action) actions) = f (overrideAll (override b action) actions) ↔ _
    rw [ih, h a action, h b action]
    cases hset : g action with
    | none => simp [hset]
    | some x => simp [hset]

theorem SetBy.overrideAll_keeps {α : Type} {f : DNSQueryOptions → α} (h : SetBy f fun _ => none)
    (actions : List RouteOptions) (options : DNSQueryOptions) : f (overrideAll options actions) = f options := by
  induction actions generalizing options with
  | nil => rfl
  | cons action actions ih => exact (ih (override options action)).trans (h options action)

def Env.strategyOf (env : Env E) (strategy : DomainStrategy) : DomainStrategy :=
  if strategy = .asIS then env.defaultDomainStrategy else strategy

def subnets (options : DNSQueryOptions) : Option Prefix × Bool := (options.clientSubnet, options.removeClientSubnet)

theorem subnets_apply (action : RouteOptions) : subnets (applyClientSubnet options action) =
      (if action.removeClientSubnet then some (none, true) else action.clientSubnet.map fun p => (some p, false)).getD
        (subnets options) := by
  unfold applyClientSubnet subnets
  cases action.clientSubnet <;> cases action.removeClientSubnet <;> rfl

theorem applyClientSubnet_frame (action : RouteOptions) : applyClientSubnet options action = { options with
        clientSubnet := (applyClientSubnet options action).clientSubnet
        removeClientSubnet := (applyClientSubnet options action).removeClientSubnet } := by
  unfold applyClientSubnet
  cases action.clientSubnet <;> cases action.removeClientSubnet <;> rfl

theorem override_eq (action : RouteOptions) : override options action = applyClientSubnet { options with
        strategy := if action.strategy ≠ .asIS then action.strategy else options.strategy
        disableCache := if action.disableCache then true else options.disableCache
        rewriteTTL := if action.rewriteTTL.isSome then action.rewriteTTL else options.rewriteTTL
        timeout := if action.timeout > 0 then action.timeout else options.timeout } action := by
  unfold override
  split_ifs <;> rfl

theorem strategy_setBy (env : Env E) : SetBy (fun options => env.strategyOf options.strategy)
    fun action => if action.strategy = .asIS then none else some action.strategy := by
  intro options action
  rw [override_eq, applyClientSubnet_frame]
  dsimp only
  by_cases hset : action.strategy = .asIS
  · rw [if_neg (not_not.2 hset), if_pos hset]
    rfl
  · rw [if_pos hset, if_neg hset, Env.strategyOf, if_neg hset]
    rfl

theorem disableCache_setBy : SetBy (·.disableCache) fun action => if action.disableCache then some true else none := by
  intro options action
  rw [override_eq, applyClientSubnet_frame]
  dsimp only
  split_ifs <;> rfl

theorem rewriteTTL_setBy : SetBy (·.rewriteTTL) fun action => action.rewriteTTL.map some := by
  intro options action
  rw [override_eq, applyClientSubnet_frame]
  dsimp only
  cases action.rewriteTTL <;> rfl

theorem timeout_setBy : SetBy (·.timeout) fun action => if action.timeout > 0 then some action.timeout else none := by
  intro options action
  rw [override_eq, applyClientSubnet_frame]
  dsimp only
  split_ifs <;> rfl

theorem subnets_setBy : SetBy subnets fun action =>
    if action.removeClientSubnet then some (none, true) else action.clientSubnet.map fun p => (some p, false) := by
  intro options action
  rw [override_eq, subnets_apply]
  rfl

theorem others_setBy : SetBy (fun options => (options.lookupStrategy, options.disableOptimisticCache)) fun _ => none := by
  intro options action
  rw [override_eq, applyClientSubnet_frame]
  rfl

theorem finalize_eq_iff (env : Env E) (a b : DNSQueryOptions) : env.finalize a = env.finalize b ↔
    env.strategyOf a.strategy = env.strategyOf b.strategy ∧ a.disableCache = b.disableCache ∧
      a.rewriteTTL = b.rewriteTTL ∧ a.timeout = b.timeout ∧ subnets a = subnets b ∧
      (a.lookupStrategy, a.disableOptimisticCache) = (b.lookupStrategy, b.disableOptimisticCache) := by
  have hfinalize (options : DNSQueryOptions) :
      env.finalize options = { options with strategy := env.strategyOf options.strategy } := by
    unfold Env.finalize Env.strategyOf
    split_ifs <;> rfl
  rw [hfinalize, hfinalize]
  simp only [DNSQueryOptions.mk.injEq, subnets, Prod.mk.injEq]
  tauto

/-- every option that the rules before the last rejection set is set again after it, or they leave it as it was -/
structure SetAgain (env : Env E) (q : Query) : Prop where
  strategy : env.strategyOf env.options.strategy =
    env.strategyOf (overrideAll env.options (q.earlier env)).strategy ∨ ∃ action ∈ q.later env, action.strategy ≠ .asIS
  disableCache : env.options.disableCache = (overrideAll env.options (q.earlier env)).disableCache ∨
    ∃ action ∈ q.later env, action.disableCache = true
  rewriteTTL : env.options.rewriteTTL = (overrideAll env.options (q.earlier env)).rewriteTTL ∨
    ∃ action ∈ q.later env, action.rewriteTTL.isSome = true
  timeout : env.options.timeout = (overrideAll env.options (q.earlier env)).timeout ∨
    ∃ action ∈ q.later env, action.timeout > 0
  subnets : subnets env.options = subnets (overrideAll env.options (q.earlier env)) ∨
    ∃ action ∈ q.later env, action.removeClientSubnet = true ∨ action.clientSubnet.isSome = true

theorem setAgain_iff (env : Env E) (q : Query) : SetAgain env q ↔ env.finalize (overrideAll env.options (q.later env)) =
      env.finalize (overrideAll (overrideAll env.options (q.earlier env)) (q.later env)) := by
  have hothers := others_setBy.overrideAll_keeps (q.earlier env) env.options
  rw [finalize_eq_iff, (strategy_setBy env).overrideAll_eq_iff, disableCache_setBy.overrideAll_eq_iff,
    rewriteTTL_setBy.overrideAll_eq_iff, timeout_setBy.overrideAll_eq_iff, subnets_setBy.overrideAll_eq_iff,
    others_setBy.overrideAll_eq_iff]
  have hstrategy (action : RouteOptions) :
      (if action.strategy = .asIS then none else some action.strategy).isSome ↔ action.strategy ≠ .asIS := by
    split_ifs <;> simp_all
  have hcache (action : RouteOptions) :
      (if action.disableCache then some true else none).isSome ↔ action.disableCache := by
    split_ifs <;> simp_all
  have htimeout (action : RouteOptions) :
      (if action.timeout > 0 then some action.timeout else none).isSome ↔ action.timeout > 0 := by
    split_ifs <;> simp_all
  have hsubnets (action : RouteOptions) : (if action.removeClientSubnet then some ((none : Option Prefix), true)
      else action.clientSubnet.map fun p => (some p, false)).isSome ↔
        action.removeClientSubnet ∨ action.clientSubnet.isSome := by
    split_ifs <;> simp_all
  simp only [hstrategy, hcache, htimeout, hsubnets, Option.isSome_map]
  constructor
  · intro h
    exact ⟨h.strategy, h.disableCache, h.rewriteTTL, h.timeout, h.subnets, .inl hothers.symm⟩
  · rintro ⟨hstrategy, hcache, hrewrite, htimeout, hsubnets, -⟩
    exact ⟨hstrategy, hcache, hrewrite, htimeout, hsubnets⟩

theorem Query.Restarted.options_iff {env : Env E} {q : Query} (h : q.Restarted env) :
    q.options = q.expected env ↔ SetAgain env q := by
  rw [h.options, Query.expected_eq h.le, setAgain_iff]

/-- **The options of a query in legacy mode.** Every query ends; its options are those of the rules up to the chosen one, if
and only if what was set before the last rejection is set again after it. -/
theorem legacy_options (env : Env E) (attempts : ℕ → Attempt) :
    (∃ result, exchangeLegacy env attempts = some result ∧
      ∀ q, result = .queried q → (q.options = q.expected env ↔ SetAgain env q)) ∧
    ∃ result, lookupLegacy env attempts = some result ∧
      ∀ q, result = .queried q → (q.options = q.expected env.lookup ↔ SetAgain env.lookup q) := by
  constructor
  · obtain ⟨result, hresult, hspec⟩ :=
      loop_spec env true (· = .rejected) attempts (env.rules.length + 1) 0 rfl 0 (Nat.zero_le _) (Nat.lt_succ_self _)
    exact ⟨result, hresult, fun q hq => (hspec q hq).options_iff⟩
  · obtain ⟨result, hresult, hspec⟩ :=
      loop_spec env.lookup false (· ≠ .response) attempts (env.rules.length + 1) 0 rfl 0 (Nat.zero_le _)
        (Nat.lt_succ_self _)
    exact ⟨result, hresult, fun q hq => (hspec q hq).options_iff⟩

def sampleEnv : Env Unit where
  rules := [
    { cond := .default { items := [.other fun _ => true] }, action := .routeOptions { disableCache := true } },
    { cond := .default { destinationIPCIDRItems := [.ipCIDR fun _ => true] }, action := .route "local" false {} },
    { cond := .default { items := [.other fun _ => true] }, action := .route "remote" false { timeout := 5 } }]
  transport tag := some ⟨tag, false⟩
  defaultTransport := ⟨"default", false⟩
  metadata := { query := ⟨none, {}, [], 4, 1, ()⟩ }

theorem legacy_options_sample :
    exchangeLegacy sampleEnv (fun _ => .response) =
      some (.queried ⟨some 1, 0, ⟨"local", false⟩, { disableCache := true }, .response⟩) ∧
    ∀ q, exchangeLegacy sampleEnv (fun _ => .response) = some (.queried q) →
      (q.options = q.expected sampleEnv ↔ SetAgain sampleEnv q) := by
  refine ⟨by decide +kernel, ?_⟩
  intro q hq
  obtain ⟨result, hresult, hspec⟩ := (legacy_options sampleEnv fun _ => .response).1
  exact hspec q (Option.some.inj (hresult.symm.trans hq))

/-- after the first response is rejected, the other server is queried with the cache -/
theorem rejection_loses_options :
    exchangeLegacy sampleEnv (fun n => if n = 0 then .rejected else .response) =
      some (.queried ⟨some 2, 2, ⟨"remote", false⟩, { timeout := 5 }, .response⟩) ∧
    Query.expected sampleEnv ⟨some 2, 2, ⟨"remote", false⟩, { timeout := 5 }, .response⟩ =
      { timeout := 5, disableCache := true } := by
  decide +kernel

end EtonifyCore.DNSLegacy
