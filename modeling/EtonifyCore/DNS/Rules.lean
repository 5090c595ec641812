/-
DNS rules as the router sees them: actions (`route/rule/rule_action.go`), rules, and the checks made on their options
when legacy mode is off (`validateLegacyDNSModeDisabledRules` in `dns/router.go`).

Sub-rules of a logical rule have no action; the checks read them with the empty route action. Left out: the parts of a message
that no rule reads, `DNSQueryOptions.Transport`.
-/
import EtonifyCore.Rule.Match

namespace EtonifyCore.DNSRules

open EtonifyCore.RuleMatch

variable {E : Type}

/-! ## Actions -/

inductive DomainStrategy where
  | asIS
  | preferIPv4
  | preferIPv6
  | ipv4Only
  | ipv6Only
deriving DecidableEq, Repr

/-- `netip.Prefix`; an invalid one is `none` where it can occur -/
structure Prefix where
  addr : Addr
  bits : ℕ
deriving DecidableEq, Repr

/-- `RuleActionDNSRouteOptions` -/
structure RouteOptions where
  strategy : DomainStrategy := .asIS
  timeout : ℤ := 0
  disableCache : Bool := false
  disableOptimisticCache : Bool := false
  rewriteTTL : Option ℕ := none
  clientSubnet : Option Prefix := none
  removeClientSubnet : Bool := false
deriving DecidableEq, Repr

structure DNSQueryOptions where
  strategy : DomainStrategy := .asIS
  lookupStrategy : DomainStrategy := .asIS
  disableCache : Bool := false
  disableOptimisticCache : Bool := false
  rewriteTTL : Option ℕ := none
  timeout : ℤ := 0
  clientSubnet : Option Prefix := none
  removeClientSubnet : Bool := false
deriving DecidableEq, Repr

/-- the client subnet part of `applyDNSRouteOptions`: a subnet set by the action replaces a removal and the other way
around -/
def applyClientSubnet (options : DNSQueryOptions) (route : RouteOptions) : DNSQueryOptions :=
  let options :=
    match route.clientSubnet with
    | some subnet => { options with clientSubnet := some subnet, removeClientSubnet := false }
    | none => options
  if route.removeClientSubnet then { options with clientSubnet := none, removeClientSubnet := true } else options

/-- `applyDNSRouteOptions`; the strategy is skipped -/
def applyDNSRouteOptions (options : DNSQueryOptions) (route : RouteOptions) : DNSQueryOptions :=
  let options := if route.disableCache then { options with disableCache := true } else options
  let options := if route.disableOptimisticCache then { options with disableOptimisticCache := true } else options
  let options := if route.rewriteTTL.isSome then { options with rewriteTTL := route.rewriteTTL } else options
  let options := if route.timeout > 0 then { options with timeout := route.timeout } else options
  applyClientSubnet options route

/-- the method `reply` is refused for DNS rules -/
inductive RejectMethod where
  | default
  | drop
deriving DecidableEq, Repr

structure RejectAction where
  method : RejectMethod
  noDrop : Bool := false
deriving DecidableEq, Repr

inductive DNSRuleAction where
  | route (server : String) (speculative : Bool) (options : RouteOptions)
  | evaluate (server tag : String) (speculative : Bool) (options : RouteOptions)
  | routeOptions (options : RouteOptions)
  | respond
  | reject (action : RejectAction)
  | predefined (response : Msg)
deriving DecidableEq, Repr

namespace DNSRuleAction

def empty : DNSRuleAction := .route "" false {}

def isFinal : DNSRuleAction → Bool
  | .route _ speculative _ => !speculative
  | .respond | .reject _ | .predefined _ => true
  | .evaluate .. | .routeOptions _ => false

def isRespond : DNSRuleAction → Bool
  | .respond => true
  | _ => false

def speculative : DNSRuleAction → Bool
  | .route _ s _ => s
  | .evaluate _ _ s _ => s
  | _ => false

def evaluateTag : DNSRuleAction → Option String
  | .evaluate _ tag _ _ => some tag
  | _ => none

end DNSRuleAction

/-! ## Rules -/

def hasBindings (r : DNSRuleTree E) : Bool := !r.matchResponseTags.isEmpty || r.matchResponseAnonymous

/-- `adapter.DNSRule`; `NewDNSRule` admits `race` only with a final action and a bound response -/
structure DNSRule (E : Type) where
  cond : DNSRuleTree E
  action : DNSRuleAction
  race : Bool := false
  raceBinds : race = true → hasBindings cond = true := by decide
  raceFinal : race = true → action.isFinal = true := by decide

/-! ## Options -/

structure DefaultDNSRuleOptions where
  matchResponse : Bool := false
  matchResponseTag : String := ""
  responseMatchFields : Bool := false
  ipVersion : Bool := false
  queryType : Bool := false
  ipAcceptAny : Bool := false
  ipCIDR : Bool := false
  ipIsPrivate : Bool := false
  ruleSet : List String := []
  ruleSetIPCIDRMatchSource : Bool := false
  ruleSetIPCIDRAcceptEmpty : Bool := false
deriving DecidableEq, Repr

structure DNSRuleOptions where
  tree : Rule DefaultDNSRuleOptions
  action : DNSRuleAction
  race : Bool := false

def defaultOptions (d : DefaultDNSRule E) : DefaultDNSRuleOptions where
  matchResponse := d.matchResponse
  matchResponseTag := d.matchResponseTag
  responseMatchFields := d.readsResponse
  ipVersion := d.items.any fun | .ipVersion _ => true | _ => false
  queryType := d.items.any fun | .queryType _ => true | _ => false
  ipAcceptAny := d.destinationIPCIDRItems.any fun | .ipAcceptAny => true | _ => false
  ipCIDR := d.destinationIPCIDRItems.any fun | .ipCIDR _ => true | _ => false
  ipIsPrivate := d.destinationIPCIDRItems.any fun | .ipIsPrivate _ => true | _ => false
  ruleSet := match d.ruleSetItem with
    | some item => item.setList.map (·.tag)
    | none => []
  ruleSetIPCIDRMatchSource := d.ruleSetItem.any (·.ipCidrMatchSource)
  ruleSetIPCIDRAcceptEmpty := d.ruleSetItem.any (·.ipCidrAcceptEmpty)

def DNSRule.options (r : DNSRule E) : DNSRuleOptions := ⟨Rule.map defaultOptions r.cond, r.action, r.race⟩

/-! ## Checks with legacy mode off -/

def cause (err message : String) : String := message ++ ": " ++ err

def messageWithLink (description deprecatedVersion scheduledVersion migrationLink : String) : String :=
  description ++ " is deprecated in sing-box " ++ deprecatedVersion ++ " and will be removed in sing-box " ++
    scheduledVersion ++ ", checkout documentation for migration: " ++ migrationLink

def optionRuleSetIPCIDRAcceptEmpty : String :=
  messageWithLink "Legacy `rule_set_ip_cidr_accept_empty` DNS rule item" "1.14.0" "1.16.0"
    "https://sing-box.sagernet.org/migration/#migrate-address-filter-fields-to-response-matching"

def optionLegacyDNSAddressFilter : String :=
  messageWithLink "Legacy Address Filter Fields in DNS rules" "1.14.0" "1.16.0"
    "https://sing-box.sagernet.org/migration/#migrate-address-filter-fields-to-response-matching"

def optionLegacyDNSRuleStrategy : String :=
  messageWithLink "Legacy `strategy` DNS rule action option" "1.14.0" "1.16.0"
    "https://sing-box.sagernet.org/migration/#migrate-dns-rule-action-strategy-to-rule-items"

structure RuleSetMetadata where
  containsIPCIDRRule : Bool := false
  containsNonIPCIDRRule : Bool := false
  containsDNSQueryTypeRule : Bool := false
deriving DecidableEq, Repr

def lookupDNSRuleSetMetadata (lookup : String → Option RuleSetMetadata) (tag : String) : Except String RuleSetMetadata :=
  match lookup tag with
  | some metadata => .ok metadata
  | none => .error ("rule-set not found: " ++ tag)

/-- `dnsRuleResponseUse` -/
structure ResponseUse where
  needsAnonymous : Bool := false
  referencedTags : List String := []
deriving DecidableEq, Repr

/-- the loop over the rule-sets of a rule without `match_response`: a set of addresses only is refused -/
def validateRuleSets (lookup : String → Option RuleSetMetadata) : List String → Except String Unit
  | [] => .ok ()
  | tag :: tags =>
    match lookupDNSRuleSetMetadata lookup tag with
    | .error err => .error err
    | .ok metadata =>
      if metadata.containsIPCIDRRule && !metadata.containsNonIPCIDRRule then .error optionLegacyDNSAddressFilter
      else validateRuleSets lookup tags

def validateDefaultRule (lookup : String → Option RuleSetMetadata) (action : DNSRuleAction)
    (rule : DefaultDNSRuleOptions) : Except String ResponseUse :=
  if (rule.responseMatchFields || rule.ipCIDR || rule.ipIsPrivate || rule.ipAcceptAny) && !rule.matchResponse then
    .error "Response Match Fields (ip_cidr, ip_is_private, ip_accept_any, response_rcode, response_answer, response_ns, response_extra) require match_response to be enabled"
  else
    match if rule.matchResponse then .ok () else validateRuleSets lookup rule.ruleSet with
    | .error err => .error err
    | .ok () =>
      if rule.ruleSetIPCIDRAcceptEmpty then .error optionRuleSetIPCIDRAcceptEmpty
      else .ok {
        needsAnonymous := (rule.matchResponse && rule.matchResponseTag = "") ||
          (action.isRespond && rule.matchResponseTag = "")
        referencedTags := if rule.matchResponse && rule.matchResponseTag ≠ "" then [rule.matchResponseTag] else [] }

mutual

def validateRuleTree (lookup : String → Option RuleSetMetadata) (action : DNSRuleAction) :
    Rule DefaultDNSRuleOptions → Except String ResponseUse
  | .default rule => validateDefaultRule lookup action rule
  | .logical _ _ rules =>
    match validateSubRules lookup 0 {} rules with
    | .error err => .error err
    | .ok use =>
      if action.isRespond then
        if use.referencedTags.isEmpty then .ok { use with needsAnonymous := true }
        else .error "respond on a logical rule cannot bind a `match_response` tag from its sub rules; use a non-logical rule"
      else .ok use

def validateSubRules (lookup : String → Option RuleSetMetadata) (i : ℕ) (use : ResponseUse) :
    List (Rule DefaultDNSRuleOptions) → Except String ResponseUse
  | [] => .ok use
  | rule :: rules =>
    match validateRuleTree lookup .empty rule with
    | .error err => .error (cause err s!"sub rule[{i}]")
    | .ok subUse =>
      validateSubRules lookup (i + 1)
        ⟨use.needsAnonymous || subUse.needsAnonymous, use.referencedTags ++ subUse.referencedTags⟩ rules

end

structure ValidateState where
  warnings : List String := []
  seenAnonymousEvaluate : Bool := false
  seenRace : Bool := false
  definedTags : List String := []
  referencedTags : List String := []
  lastAnonymousEvaluate : Option ℕ := none
  anonymousReadSinceLast : Bool := false

def validateUse (i : ℕ) (use : ResponseUse) (s : ValidateState) : Except String ValidateState :=
  if use.needsAnonymous && !s.seenAnonymousEvaluate then
    if s.definedTags.isEmpty then
      .error s!"dns rule[{i}]: response-based matching requires a preceding evaluate action"
    else
      .error (s!"dns rule[{i}]: response-based matching requires a preceding evaluate action without `tag`; " ++
        "use `match_response` with an evaluate tag to reference a tagged result")
  else
    match use.referencedTags.find? fun tag => !s.definedTags.contains tag with
    | some tag => .error (s!"dns rule[{i}]: undefined evaluate tag: " ++ tag)
    | none => .ok { s with
        anonymousReadSinceLast := s.anonymousReadSinceLast || use.needsAnonymous
        referencedTags := s.referencedTags ++ use.referencedTags }

def validateEvaluate (i : ℕ) (action : DNSRuleAction) (s : ValidateState) : Except String ValidateState :=
  match action.evaluateTag with
  | none => .ok s
  | some tag =>
    if tag = "" then
      .ok { s with
        warnings := match s.lastAnonymousEvaluate with
          | some last =>
            if s.anonymousReadSinceLast then s.warnings
            else s.warnings ++
              [s!"dns rule[{last}]: evaluated response is overwritten by dns rule[{i}] before any use"]
          | none => s.warnings
        seenAnonymousEvaluate := true
        lastAnonymousEvaluate := some i
        anonymousReadSinceLast := false }
    else if s.definedTags.contains tag then .error (s!"dns rule[{i}]: duplicate evaluate tag: " ++ tag)
    else .ok { s with definedTags := s.definedTags ++ [tag] }

def noteRace (i : ℕ) (rule : DNSRuleOptions) (s : ValidateState) : ValidateState :=
  { s with
    warnings :=
      if rule.action.speculative && !s.seenRace then
        s.warnings ++ [s!"dns rule[{i}]: `speculative` has no effect without a preceding `race` rule"]
      else s.warnings
    seenRace := s.seenRace || rule.race }

def validateRule (lookup : String → Option RuleSetMetadata) (i : ℕ) (rule : DNSRuleOptions) (s : ValidateState) :
    Except String ValidateState :=
  match validateRuleTree lookup rule.action rule.tree with
  | .error err => .error (cause err s!"validate dns rule[{i}]")
  | .ok use =>
    match validateUse i use (noteRace i rule s) with
    | .error err => .error err
    | .ok s => validateEvaluate i rule.action s

def validateLoop (lookup : String → Option RuleSetMetadata) (i : ℕ) (s : ValidateState) :
    List DNSRuleOptions → Except String ValidateState
  | [] => .ok s
  | rule :: rules =>
    match validateRule lookup i rule s with
    | .error err => .error err
    | .ok s => validateLoop lookup (i + 1) s rules

def validateLegacyDNSModeDisabledRules (lookup : String → Option RuleSetMetadata) (rules : List DNSRuleOptions) :
    Except String (List String) :=
  match validateLoop lookup 0 {} rules with
  | .error err => .error err
  | .ok s => .ok (s.warnings ++
      (s.definedTags.filter fun tag => !s.referencedTags.contains tag).map fun tag =>
        "evaluate tag is never referenced: " ++ tag)

end EtonifyCore.DNSRules
