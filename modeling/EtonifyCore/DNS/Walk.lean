/-
Model of the DNS rule walk: `walkDNSRules`, `sweepArmedDNSRules`, `resumeExchangeWithRules` in `dns/router.go`.

An `evaluate` action launches a query, a future, and the walk goes on. A rule that binds a response (`match_response`) waits
for its futures, or is armed (`race`) and judged once they have resolved. While rules are armed, the walk stops at the first
action that has to wait for them, and a sweep judges the armed rules whose futures have resolved.

Time: future `i` resolves at the tick `Env.resolvesAt i`. Every test of a future has a tick of its own, so a future may
resolve between any two tests. A wait is one tick; one that ends too early repeats the loop. The clock and the trace of `St`,
newest event first, are not in the code.

Left out: logging, the wake channel, cancellation of the exchange and of futures that are no longer needed.
-/
import EtonifyCore.DNS.Rules
import EtonifyCore.Rule.Semantics

namespace EtonifyCore.DNSWalk

open EtonifyCore.RuleMatch
open EtonifyCore.DNSRules

variable {E : Type}

/-! ## The world -/

structure Transport where
  tag : String
  isFakeIP : Bool := false
deriving DecidableEq, Repr

inductive Outcome where
  | response (msg : Msg)
  | failed (err : String)
deriving DecidableEq, Repr

def Outcome.response? : Outcome → Option Msg
  | .response msg => some msg
  | .failed _ => none

def Outcome.err? : Outcome → Option String
  | .response _ => none
  | .failed err => some err

/-- an exchange: the rules, the query, the transports, and how and when the queries end. Only `LegacyPreMatch` ignores
destination addresses, and it is not used here -/
structure Env (E : Type) where
  rules : List (DNSRule E)
  metadata : InboundContext E
  options : DNSQueryOptions := {}
  transport : String → Option Transport
  defaultTransport : Transport
  allowFakeIP : Bool := true
  defaultDomainStrategy : DomainStrategy := .asIS
  refused : Msg
  outcome : ℕ → Transport → DNSQueryOptions → Outcome
  resolvesAt : ℕ → ℕ
  exchange : Transport → DNSQueryOptions → Outcome
  plain : metadata.ignoreDestinationIPCIDRMatch = false := by rfl

def Env.done (env : Env E) (t i : ℕ) : Bool := env.resolvesAt i ≤ t

/-! ## State -/

/-- `dnsEvaluatedFuture`; `outcome` is its response or error once it has resolved, `checkedAt` the tick at which
`settleDNSFutures` last tested it -/
structure Future where
  tag : String
  terminal : Bool := false
  transport : Transport
  outcome : Outcome
  settled : Bool := false
  checkedAt : ℕ
deriving DecidableEq, Repr

/-- `dnsArmedRule` -/
structure ArmedRule (E : Type) where
  ruleIndex : ℕ
  rule : DNSRule E
  futures : List ℕ
  anonymousFuture : Option ℕ
  bindsAnonymous : Bool
  options : DNSQueryOptions

/-- what the trace records: tests of tagged futures before a match, the life of the armed rules, and the actions of the
other rules. `evaluated` (a query that is not speculative) and `finished` (a terminal action, or the default query) record
the rules that are armed at that time, and `finished` the query whose answer is used -/
inductive Event where
  | tested (future checkedAt tick : ℕ)
  | armed (rule : ℕ) (futures : List ℕ)
  | judged (rule tick : ℕ)
  | committed (rule : ℕ)
  | evaluated (rule : ℕ) (armed : List ℕ)
  | finished (rule : ℕ) (armed : List ℕ) (future : Option ℕ)
deriving DecidableEq, Repr

structure St (E : Type) where
  metadata : InboundContext E
  ruleIndex : ℕ := 0
  effectiveOptions : DNSQueryOptions
  anonymousFuture : Option ℕ := none
  namedFutures : String → Option ℕ := fun _ => none
  namedResponses : String → Option Msg := fun _ => none
  namedTransports : String → Option Transport := fun _ => none
  futures : List Future := []
  armedRules : List (ArmedRule E) := []
  terminalFuture : Option ℕ := none
  terminalIndex : ℕ := 0
  clock : ℕ := 0
  trace : List Event := []

namespace St

def tick (st : St E) : St E := { st with clock := st.clock + 1 }

def log (st : St E) (e : Event) : St E := { st with trace := e :: st.trace }

def next (st : St E) : St E := { st with ruleIndex := st.ruleIndex + 1 }

def armed (st : St E) : List ℕ := st.armedRules.map (·.ruleIndex)

end St

structure ExchangeResult where
  response : Option Msg := none
  transport : Option Transport := none
  rejectAction : Option RejectAction := none
  err : Option String := none
deriving DecidableEq, Repr

/-- `dnsPendingExchange`; `rule` is the rule that decided it, `none` for one that was armed -/
structure PendingExchange where
  transport : Transport
  options : DNSQueryOptions := {}
  future : Option ℕ := none
  rule : Option ℕ := none
deriving DecidableEq, Repr

inductive Verdict where
  | result (r : ExchangeResult)
  | await (future : ℕ)
  | drain
  | pending (p : PendingExchange)
deriving DecidableEq, Repr

structure Exchanged where
  result : ExchangeResult
  query : Option (Transport × DNSQueryOptions) := none
deriving DecidableEq, Repr

def dnsRespondMissingResponseMessage : String :=
  "respond action requires an evaluated response from a preceding evaluate action"

def errDrop : String := "dropped"

/-! ## Futures -/

section

variable (env : Env E)

def resolved (i : ℕ) (st : St E) : Bool × St E := (env.done st.clock i, st.tick)

def view (i : ℕ) (st : St E) : Option Msg × St E :=
  let (b, st) := resolved env i st
  (if b then st.futures[i]?.bind (·.outcome.response?) else none, st)

def anonymousResponse (st : St E) : Option Msg × St E :=
  match st.anonymousFuture with
  | none => (none, st)
  | some i => view env i st

def settleFuture (st : St E) (i : ℕ) : St E :=
  match st.futures[i]? with
  | none => st
  | some f =>
    if f.settled then st
    else
      let now := st.clock
      let (b, st) := resolved env i st
      let st := { st with futures := st.futures.set i { f with settled := b, checkedAt := now } }
      if b && f.tag ≠ "" then
        let (response, st) := view env i st
        { st with
          namedResponses := Function.update st.namedResponses f.tag response
          namedTransports := Function.update st.namedTransports f.tag (some f.transport) }
      else st

def settleDNSFutures (st : St E) : St E := (List.range st.futures.length).foldl (settleFuture env) st

def finalizeExchangeOptions (options : DNSQueryOptions) : DNSQueryOptions :=
  if options.strategy = .asIS then { options with strategy := env.defaultDomainStrategy } else options

def launchDNSEvaluate (st : St E) (tag : String) (terminal : Bool) (transport : Transport)
    (options : DNSQueryOptions) : ℕ × St E :=
  let i := st.futures.length
  let outcome := env.outcome i transport (finalizeExchangeOptions env options)
  (i, { st with futures := st.futures ++ [{ tag, terminal, transport, outcome, checkedAt := st.clock }] })

end

/-! ## Matching and routing -/

def matchContext (m : InboundContext E) (response : Option Msg) (named : String → Option Msg) : InboundContext E :=
  { m.resetRuleCache with
    dnsResponse := response
    namedDNSResponses := named
    destinationAddressMatchFromResponse := false }

def judge (rule : DNSRule E) (response : Option Msg) (st : St E) : Bool × St E :=
  let (b, metadata) := rule.cond.matchOn (matchContext st.metadata response st.namedResponses)
  (b, { st with metadata })

/-- `resolveDNSRoute`; `none` is a missing server or a fake-IP server that is not allowed here -/
def resolveDNSRoute (env : Env E) (server : String) (route : RouteOptions) (options : DNSQueryOptions) :
    Option (Transport × DNSQueryOptions) :=
  match env.transport server with
  | none => none
  | some transport =>
    if transport.isFakeIP && !env.allowFakeIP then none
    else
      let options := applyDNSRouteOptions options route
      some (transport, if transport.isFakeIP then { options with disableCache := true } else options)

def rejectResult (env : Env E) (action : RejectAction) : ExchangeResult :=
  match action.method with
  | .default => { response := some env.refused, rejectAction := some action }
  | .drop => { rejectAction := some action, err := some errDrop }

def respondResult (response : Option Msg) (transport : Option Transport) : ExchangeResult :=
  match response with
  | none => { err := some dnsRespondMissingResponseMessage }
  | some msg => { response := some msg, transport }

def transportOf (st : St E) (i : ℕ) : Option Transport := st.futures[i]?.map (·.transport)

/-! ## The sweep -/

def ready (env : Env E) : List ℕ → St E → Bool × St E
  | [], st => (true, st)
  | i :: is, st =>
    let (b, st) := resolved env i st
    if b then ready env is st else (false, st)

section

variable (env : Env E) (armed : ArmedRule E) (st : St E)

def armedResponse : Option Msg × St E :=
  if armed.bindsAnonymous then
    match armed.anonymousFuture with
    | some i => view env i st
    | none => (none, st)
  else anonymousResponse env st

def armedRespond : ExchangeResult × St E :=
  let tag := armed.rule.cond.matchResponseTag
  if tag ≠ "" then (respondResult (st.namedResponses tag) (st.namedTransports tag), st)
  else
    match armed.anonymousFuture.or st.anonymousFuture with
    | some i =>
      let (response, st) := view env i st
      (respondResult response (transportOf st i), st)
    | none => (respondResult none none, st)

/-- the action of an armed rule that matched; `none` when it does not commit -/
def commit : Option Verdict × St E :=
  match armed.rule.action with
  | .respond =>
    let (r, st) := armedRespond env armed st
    (some (.result r), st.log (.committed armed.ruleIndex))
  | .route server _ route =>
    match resolveDNSRoute env server route armed.options with
    | none => (none, st)
    | some (transport, options) => (some (.pending { transport, options }), st.log (.committed armed.ruleIndex))
  | .reject action => (some (.result (rejectResult env action)), st.log (.committed armed.ruleIndex))
  | .predefined response => (some (.result { response := some response }), st.log (.committed armed.ruleIndex))
  | .evaluate .. | .routeOptions _ => (none, st)

def judgeArmed : Option Verdict × St E :=
  let st := st.log (.judged armed.ruleIndex st.clock)
  let (response, st) := armedResponse env armed st
  let (b, st) := judge armed.rule response st
  if b then commit env armed st else (none, st)

end

def sweepLoop (env : Env E) : List (ArmedRule E) → List (ArmedRule E) → St E → Option Verdict × St E
  | _, [], st => (none, st)
  | kept, armed :: todo, st =>
    let (b, st) := ready env armed.futures st
    if b then
      let (v, st) := judgeArmed env armed { st with armedRules := kept ++ todo }
      match v with
      | some v => (some v, st)
      | none => sweepLoop env kept todo st
    else sweepLoop env (kept ++ [armed]) todo st

/-- `sweepArmedDNSRules`; a verdict is a commit -/
def sweepArmedDNSRules (env : Env E) (st : St E) : Option Verdict × St E := sweepLoop env [] st.armedRules st

/-! ## The walk -/

def unresolved (env : Env E) : List ℕ → St E → List ℕ × St E
  | [], st => ([], st)
  | i :: is, st =>
    let (b, st) := resolved env i st
    let (pending, st) := unresolved env is st
    (if b then pending else i :: pending, st)

def boundAnonymous (rule : DNSRule E) (st : St E) : Option ℕ :=
  if rule.cond.matchResponseAnonymous then st.anonymousFuture else none

def armedRule (rule : DNSRule E) (futures : List ℕ) (st : St E) : ArmedRule E where
  ruleIndex := st.ruleIndex
  rule
  futures
  anonymousFuture := boundAnonymous rule st
  bindsAnonymous := rule.cond.matchResponseAnonymous
  options := st.effectiveOptions

def sweepNow (env : Env E) (st : St E) : Option Verdict × St E :=
  match sweepArmedDNSRules env st with
  | (some (.pending p), st) => (some (.pending p), { st with armedRules := [] })
  | (v, st) => (v, st)

def arm (env : Env E) (rule : DNSRule E) (st : St E) : Option Verdict × St E :=
  let (futures, st) :=
    unresolved env (rule.cond.matchResponseTags.filterMap st.namedFutures ++ (boundAnonymous rule st).toList) st
  let st := { st with armedRules := st.armedRules ++ [armedRule rule futures st] }.log (.armed st.ruleIndex futures)
  if futures.isEmpty then sweepNow env st else (none, st)

def awaitTagged (env : Env E) : List ℕ → St E → Option ℕ × St E
  | [], st => (none, st)
  | i :: is, st =>
    let st := match st.futures[i]? with
      | some f => st.log (.tested i f.checkedAt st.clock)
      | none => st
    let (b, st) := resolved env i st
    if b then awaitTagged env is st else (some i, st)

def awaitAnonymous (env : Env E) (st : St E) : Option ℕ × St E :=
  match st.anonymousFuture with
  | none => (none, st)
  | some i =>
    let (b, st) := resolved env i st
    (if b then none else some i, st)

def awaitFuture (env : Env E) (rule : DNSRule E) (st : St E) : Option ℕ × St E :=
  match awaitTagged env (rule.cond.matchResponseTags.filterMap st.namedFutures) st with
  | (some i, st) => (some i, st)
  | (none, st) => if rule.cond.matchResponseAnonymous then awaitAnonymous env st else (none, st)

def finishRule (r : ExchangeResult) (st : St E) : Option Verdict × St E :=
  (some (.result r), st.log (.finished st.ruleIndex st.armed none))

def evaluate (env : Env E) (server tag : String) (speculative : Bool) (options : RouteOptions) (st : St E) :
    Option Verdict × St E :=
  match env.transport server with
  | none => (none, if tag = "" then { st with anonymousFuture := none } else st)
  | some transport =>
    if !speculative && !st.armedRules.isEmpty then (some .drain, st)
    else
      let st := if speculative then st else st.log (.evaluated st.ruleIndex st.armed)
      let (i, st) := launchDNSEvaluate env st tag false transport (applyDNSRouteOptions st.effectiveOptions options)
      (none, if tag = "" then { st with anonymousFuture := some i }
        else { st with namedFutures := Function.update st.namedFutures tag (some i) })

def respond (env : Env E) (rule : DNSRule E) (st : St E) : Option Verdict × St E :=
  if !st.armedRules.isEmpty then (some .drain, st)
  else
    let tag := rule.cond.matchResponseTag
    if tag ≠ "" then finishRule (respondResult (st.namedResponses tag) (st.namedTransports tag)) st
    else
      match if hasBindings rule.cond then (none, st) else awaitAnonymous env st with
      | (some i, st) => (some (.await i), st)
      | (none, st) =>
        let (response, st) := anonymousResponse env st
        finishRule (respondResult response (st.anonymousFuture.bind (transportOf st))) st

def route (env : Env E) (server : String) (speculative : Bool) (options : RouteOptions) (st : St E) :
    Option Verdict × St E :=
  match resolveDNSRoute env server options st.effectiveOptions with
  | none => (none, st)
  | some (transport, options) =>
    if !st.armedRules.isEmpty then
      if speculative && st.terminalFuture.isNone then
        let (i, st) := launchDNSEvaluate env st "" true transport options
        (some .drain, { st with terminalFuture := some i, terminalIndex := st.ruleIndex })
      else (some .drain, st)
    else
      match st.terminalFuture with
      | some i =>
        if st.terminalIndex = st.ruleIndex then
          let transport := (transportOf st i).getD transport
          (some (.pending { transport, future := some i, rule := some st.ruleIndex }), st)
        else (some (.pending { transport, options, rule := some st.ruleIndex }), st)
      | none => (some (.pending { transport, options, rule := some st.ruleIndex }), st)

def act (env : Env E) (rule : DNSRule E) (st : St E) : Option Verdict × St E :=
  match rule.action with
  | .routeOptions options => (none, { st with effectiveOptions := applyDNSRouteOptions st.effectiveOptions options })
  | .evaluate server tag speculative options => evaluate env server tag speculative options st
  | .respond => respond env rule st
  | .route server speculative options => route env server speculative options st
  | .reject action =>
    if !st.armedRules.isEmpty then (some .drain, st) else finishRule (rejectResult env action) st
  | .predefined response =>
    if !st.armedRules.isEmpty then (some .drain, st) else finishRule { response := some response } st

def judgeRule (env : Env E) (rule : DNSRule E) (st : St E) : Option Verdict × St E :=
  let (response, st) := anonymousResponse env st
  let (b, st) := judge rule response st
  if b then act env rule st else (none, st)

def walkRule (env : Env E) (rule : DNSRule E) (st : St E) : Option Verdict × St E :=
  if hasBindings rule.cond then
    let st := settleDNSFutures env st
    if rule.race then arm env rule st
    else
      match awaitFuture env rule st with
      | (some i, st) => (some (.await i), st)
      | (none, st) => judgeRule env rule st
  else judgeRule env rule st

def walkLoop (env : Env E) : List (DNSRule E) → St E → Verdict × St E
  | [], st =>
    if !st.armedRules.isEmpty then (.drain, st)
    else (.pending { transport := env.defaultTransport, options := st.effectiveOptions, rule := some st.ruleIndex }, st)
  | rule :: rules, st =>
    match walkRule env rule st with
    | (some v, st) => (v, st)
    | (none, st) => walkLoop env rules st.next

def walkDNSRules (env : Env E) (st : St E) : Verdict × St E := walkLoop env (env.rules.drop st.ruleIndex) st

/-! ## The exchange -/

def finalQuery (env : Env E) (transport : Transport) (options : DNSQueryOptions) : Exchanged :=
  let options := finalizeExchangeOptions env options
  let outcome := env.exchange transport options
  ⟨{ response := outcome.response?, transport := some transport, err := outcome.err? }, some (transport, options)⟩

/-- `finishPendingExchange`; a query launched earlier is waited for -/
def finishPendingExchange (env : Env E) (p : PendingExchange) (st : St E) : Exchanged × St E :=
  let st := match p.rule with
    | some i => st.log (.finished i st.armed p.future)
    | none => st
  match p.future with
  | some i =>
    let (response, st) := view env i { st with clock := max st.clock (env.resolvesAt i) }
    (⟨{ response, transport := transportOf st i, err := st.futures[i]?.bind (·.outcome.err?) }, none⟩, st)
  | none => (finalQuery env p.transport p.options, st)

def finish (env : Env E) (v : Verdict) (st : St E) : Option Exchanged × St E :=
  match v with
  | .result r => (some ⟨r, none⟩, st)
  | .pending p =>
    let (x, st) := finishPendingExchange env p st
    (some x, st)
  | .await _ | .drain => (none, st)

def mustWait (env : Env E) (v : Verdict) (st : St E) : Bool × St E :=
  match v with
  | .await i =>
    let (b, st) := resolved env i st
    (!b, st)
  | .drain => (!st.armedRules.isEmpty, st)
  | .result _ | .pending _ => (false, st)

/-- `resumeExchangeWithRules`; `none` when the fuel is used up -/
def resumeExchangeWithRules (env : Env E) : ℕ → Verdict → St E → Option Exchanged × St E
  | 0, _, st => (none, st)
  | fuel + 1, v, st =>
    let st := settleDNSFutures env st
    match sweepArmedDNSRules env st with
    | (some committed, st) => finish env committed st
    | (none, st) =>
      match v with
      | .pending p => finish env (.pending p) st
      | v =>
        let (b, st) := mustWait env v st
        if b then resumeExchangeWithRules env fuel v st.tick
        else
          match walkDNSRules env st with
          | (.result r, st) => finish env (.result r) st
          | (v, st) => resumeExchangeWithRules env fuel v st

def Env.start (env : Env E) : St E := { metadata := env.metadata, effectiveOptions := env.options }

def exchangeWithRules (env : Env E) (fuel : ℕ) : Option Exchanged × St E :=
  match walkDNSRules env env.start with
  | (.result r, st) => finish env (.result r) st
  | (v, st) => resumeExchangeWithRules env fuel v st

/-! ## Frames -/

theorem Env.done_mono {env : Env E} {t t' i : ℕ} (h : env.done t i) (ht : t ≤ t') : env.done t' i := by
  simp only [Env.done, decide_eq_true_eq] at h ⊢
  omega

def Future.query (f : Future) : String × Transport × Outcome := (f.tag, f.transport, f.outcome)

/-- collecting responses changes nothing but the marks of the futures, the collected responses and the clock -/
structure Settles (st st' : St E) : Prop where
  metadata : st'.metadata = st.metadata
  ruleIndex : st'.ruleIndex = st.ruleIndex
  effectiveOptions : st'.effectiveOptions = st.effectiveOptions
  anonymousFuture : st'.anonymousFuture = st.anonymousFuture
  namedFutures : st'.namedFutures = st.namedFutures
  armedRules : st'.armedRules = st.armedRules
  terminalFuture : st'.terminalFuture = st.terminalFuture
  terminalIndex : st'.terminalIndex = st.terminalIndex
  trace : st'.trace = st.trace
  queries : st'.futures.map Future.query = st.futures.map Future.query
  clock : st.clock ≤ st'.clock

namespace Settles

variable {st st' st'' : St E}

theorem refl (st : St E) : Settles st st := ⟨rfl, rfl, rfl, rfl, rfl, rfl, rfl, rfl, rfl, rfl, le_rfl⟩

theorem trans (h : Settles st st') (h' : Settles st' st'') : Settles st st'' :=
  ⟨h'.metadata.trans h.metadata, h'.ruleIndex.trans h.ruleIndex, h'.effectiveOptions.trans h.effectiveOptions,
    h'.anonymousFuture.trans h.anonymousFuture, h'.namedFutures.trans h.namedFutures,
    h'.armedRules.trans h.armedRules, h'.terminalFuture.trans h.terminalFuture,
    h'.terminalIndex.trans h.terminalIndex, h'.trace.trans h.trace, h'.queries.trans h.queries,
    h.clock.trans h'.clock⟩

theorem length (h : Settles st st') : st'.futures.length = st.futures.length := by
  simpa using congrArg List.length h.queries

theorem query_eq (h : Settles st st') (i : ℕ) : st'.futures[i]?.map Future.query = st.futures[i]?.map Future.query := by
  rw [← List.getElem?_map, ← List.getElem?_map, h.queries]

end Settles

theorem map_query_set {fs : List Future} {i : ℕ} {f f' : Future} (hf : fs[i]? = some f) (hq : f'.query = f.query) :
    (fs.set i f').map Future.query = fs.map Future.query := by
  obtain ⟨hi, rfl⟩ := List.getElem?_eq_some_iff.mp hf
  rw [List.map_set, hq, ← List.getElem_map Future.query (h := by simpa using hi), List.set_getElem_self]

theorem settleFuture_cases (env : Env E) (st : St E) (i : ℕ) :
    (settleFuture env st i = st ∧ ∀ f, st.futures[i]? = some f → f.settled) ∨
    ∃ f, st.futures[i]? = some f ∧ f.settled = false ∧
      let fs := st.futures.set i { f with settled := env.done st.clock i, checkedAt := st.clock }
      ((env.done st.clock i && f.tag ≠ "") = false ∧
        settleFuture env st i = { st with futures := fs, clock := st.clock + 1 }) ∨
      (env.done st.clock i ∧ f.tag ≠ "" ∧ settleFuture env st i = { st with
          futures := fs
          clock := st.clock + 2
          namedResponses := Function.update st.namedResponses f.tag f.outcome.response?
          namedTransports := Function.update st.namedTransports f.tag (some f.transport) }) := by
  unfold settleFuture
  cases hf : st.futures[i]? with
  | none => exact .inl ⟨rfl, by simp⟩
  | some f =>
    dsimp only
    by_cases hs : f.settled
    · exact .inl ⟨by rw [if_pos hs], fun g hg => by simp_all⟩
    · refine .inr ⟨f, rfl, by simpa using hs, ?_⟩
      rw [if_neg hs]
      obtain ⟨hi, -⟩ := List.getElem?_eq_some_iff.mp hf
      cases hb : env.done st.clock i && decide (f.tag ≠ "") with
      | false =>
        refine .inl ⟨rfl, ?_⟩
        simp only [resolved, St.tick, hb]
        rfl
      | true =>
        simp only [Bool.and_eq_true, decide_eq_true_eq] at hb
        refine .inr ⟨hb.1, hb.2, ?_⟩
        have hlater : env.done (st.clock + 1) i := Env.done_mono hb.1 (by omega)
        simp [resolved, view, St.tick, hb, hlater, hi]

theorem settleFuture_settles (env : Env E) (st : St E) (i : ℕ) : Settles st (settleFuture env st i) := by
  obtain ⟨h, -⟩ | ⟨f, hf, -, ⟨-, h⟩ | ⟨-, -, h⟩⟩ := settleFuture_cases env st i
  · rw [h]
    exact Settles.refl st
  · rw [h]
    exact ⟨rfl, rfl, rfl, rfl, rfl, rfl, rfl, rfl, rfl, map_query_set hf rfl, Nat.le_add_right _ _⟩
  · rw [h]
    exact ⟨rfl, rfl, rfl, rfl, rfl, rfl, rfl, rfl, rfl, map_query_set hf rfl, Nat.le_add_right _ _⟩

theorem settleDNSFutures_settles (env : Env E) (st : St E) : Settles st (settleDNSFutures env st) := by
  unfold settleDNSFutures
  induction List.range st.futures.length generalizing st with
  | nil => exact Settles.refl st
  | cons i is ih => exact (settleFuture_settles env st i).trans (ih _)

end EtonifyCore.DNSWalk
