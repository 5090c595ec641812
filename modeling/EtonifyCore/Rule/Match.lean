/-
Model of rule matching: `route/rule/rule_abstract.go`, `rule_item_rule_set.go`, `match_state.go`, `rule_dns.go` and
`adapter/inbound.go`.

A default rule has items in four OR groups (source and destination, address and port) and "other" items, all of which must
hold. It may refer to rule-sets, lists of headless rules, which merge into its groups (a single default rule without
`invert`) or are matched on their own. Logical rules combine rules.

`matchOn` returns the answer with the context it leaves:
- `ipCidrMatchSource`, `ipCidrAcceptEmpty`: how `ip_cidr` items of the rule-set being matched are tested;
- `deferredIPCIDRMatchGroups`: groups whose destination `ip_cidr` items were left for a later look at the response;
- `ignoreDestinationIPCIDRMatch`: set while `LegacyPreMatch` runs.

The address items and the items the DNS router's validation asks about are spelled out; others are predicates of the query.
-/
import Mathlib.Tactic

namespace EtonifyCore.RuleMatch

/-! ## Addresses, messages, metadata -/

/-- an IP address (`netip.Addr` without zones); the zero `netip.Addr` is `none` where it can occur -/
inductive Addr where
  | v4 (bits : BitVec 32)
  | v6 (bits : BitVec 128)
deriving DecidableEq, Repr

def Addr.unmap : Addr → Addr
  | .v4 b => .v4 b
  | .v6 b => if b.extractLsb' 32 96 = 0xffff#96 then .v4 (b.extractLsb' 0 32) else .v6 b

def Addr.is4 : Addr → Bool
  | .v4 _ => true
  | .v6 _ => false

structure Socksaddr where
  addr : Option Addr := none
  fqdn : String := ""
  port : ℕ := 0
deriving DecidableEq, Repr

/-- the address hints of an HTTPS record; `none` is an address that does not parse -/
inductive SVCBValue where
  | ipv4Hint (hint : List (Option Addr))
  | ipv6Hint (hint : List (Option Addr))
  | other
deriving DecidableEq, Repr

inductive RR where
  | a (addr : Option Addr)
  | aaaa (addr : Option Addr)
  | https (value : List SVCBValue)
  | other (data : List ℕ)
deriving DecidableEq, Repr

structure Msg where
  rcode : ℕ := 0
  answer : List RR := []
  ns : List RR := []
  extra : List RR := []
deriving DecidableEq, Repr

def SVCBValue.addresses : SVCBValue → List Addr
  | .ipv4Hint hint => hint.filterMap (·.map Addr.unmap)
  | .ipv6Hint hint => hint.filterMap id
  | .other => []

def RR.addresses : RR → List Addr
  | .a addr => addr.toList
  | .aaaa addr => addr.toList
  | .https value => value.flatMap SVCBValue.addresses
  | .other _ => []

def dnsResponseAddresses : Option Msg → List Addr
  | none => []
  | some response => if response.rcode ≠ 0 then [] else response.answer.flatMap RR.addresses

/-- what a connection or a DNS query is; rule matching only reads it -/
structure Query (E : Type) where
  source : Option Addr
  destination : Socksaddr
  destinationAddresses : List Addr
  ipVersion : ℕ
  queryType : ℕ
  rest : E

inductive Group where
  | sourceAddress
  | sourcePort
  | destinationAddress
  | destinationPort
deriving DecidableEq, Repr

/-- a set of groups (`ruleMatchState`, one bit for each group) -/
abbrev RuleMatchState := Group → Bool

namespace RuleMatchState

def empty : RuleMatchState := fun _ => false

def single (g : Group) : RuleMatchState := fun h => h = g

def union (s t : RuleMatchState) : RuleMatchState := fun g => s g || t g

/-- `s &^ t` -/
def diff (s t : RuleMatchState) : RuleMatchState := fun g => s g && !t g

def isEmpty (s : RuleMatchState) : Bool :=
  !s .sourceAddress && !s .sourcePort && !s .destinationAddress && !s .destinationPort

end RuleMatchState

/-- `adapter.InboundContext`, the fields that rule matching reads or writes -/
structure InboundContext (E : Type) where
  query : Query E
  dnsResponse : Option Msg := none
  namedDNSResponses : String → Option Msg := fun _ => none
  destinationAddressMatchFromResponse : Bool := false
  ipCidrMatchSource : Bool := false
  ipCidrAcceptEmpty : Bool := false
  deferredIPCIDRMatchGroups : RuleMatchState := RuleMatchState.empty
  ignoreDestinationIPCIDRMatch : Bool := false

variable {E : Type}

namespace InboundContext

section

variable (m : InboundContext E)

def resetRuleMatchCache : InboundContext E :=
  { m with deferredIPCIDRMatchGroups := RuleMatchState.empty }

def resetRuleCache : InboundContext E :=
  { m with ipCidrMatchSource := false, ipCidrAcceptEmpty := false }.resetRuleMatchCache

def dnsResponseAddressesForMatch : List Addr := dnsResponseAddresses m.dnsResponse

def setDeferred (d : RuleMatchState) : InboundContext E :=
  { m with deferredIPCIDRMatchGroups := d }

end

end InboundContext

structure RuleMatchSnapshot where
  ipCidrMatchSource : Bool
  ipCidrAcceptEmpty : Bool
  deferredIPCIDRMatchGroups : RuleMatchState

def snapshotRuleMatch (m : InboundContext E) : RuleMatchSnapshot :=
  ⟨m.ipCidrMatchSource, m.ipCidrAcceptEmpty, m.deferredIPCIDRMatchGroups⟩

def RuleMatchSnapshot.restore (s : RuleMatchSnapshot) (m : InboundContext E) : InboundContext E :=
  { m with
    ipCidrMatchSource := s.ipCidrMatchSource
    ipCidrAcceptEmpty := s.ipCidrAcceptEmpty
    deferredIPCIDRMatchGroups := s.deferredIPCIDRMatchGroups }

/-! ## Items -/

abbrev IPSet := Addr → Bool

/-- `Contains` reads the zero `netip.Addr` as `::` -/
def IPSet.contains (s : IPSet) : Option Addr → Bool
  | none => s (.v6 0)
  | some a => s a

def ipCIDRItemMatch (isSource : Bool) (ipSet : IPSet) (m : InboundContext E) : Bool :=
  if isSource || m.ipCidrMatchSource then ipSet.contains m.query.source
  else if m.destinationAddressMatchFromResponse then
    let addresses := m.dnsResponseAddressesForMatch
    if addresses.isEmpty then m.ipCidrAcceptEmpty else addresses.any ipSet
  else if m.query.destination.addr.isSome then ipSet.contains m.query.destination.addr
  else if !m.query.destinationAddresses.isEmpty then m.query.destinationAddresses.any ipSet
  else m.ipCidrAcceptEmpty

/-- the items of the destination `ip_cidr` list; `isPublicAddr` is `N.IsPublicAddr` -/
inductive AddressItem where
  | ipCIDR (ipSet : IPSet)
  | ipIsPrivate (isPublicAddr : Option Addr → Bool)
  | ipAcceptAny

def AddressItem.matchOn (m : InboundContext E) : AddressItem → Bool
  | .ipCIDR ipSet => ipCIDRItemMatch false ipSet m
  | .ipIsPrivate isPublicAddr =>
    if m.destinationAddressMatchFromResponse then
      m.dnsResponseAddressesForMatch.any fun a => !isPublicAddr (some a)
    else if m.query.destination.addr.isSome then !isPublicAddr m.query.destination.addr
    else m.query.destinationAddresses.any fun a => !isPublicAddr (some a)
  | .ipAcceptAny =>
    if m.destinationAddressMatchFromResponse then !m.dnsResponseAddressesForMatch.isEmpty
    else !m.query.destinationAddresses.isEmpty

def AddressItem.isCIDR : AddressItem → Bool
  | .ipCIDR _ => true
  | .ipIsPrivate _ | .ipAcceptAny => false

inductive RecordSection where
  | answer
  | ns
  | extra
deriving DecidableEq, Repr

def RecordSection.select : RecordSection → Msg → List RR
  | .answer, msg => msg.answer
  | .ns, msg => msg.ns
  | .extra, msg => msg.extra

inductive RuleItem (E : Type) where
  | sourceIPCIDR (ipSet : IPSet)
  | ipVersion (isIPv6 : Bool)
  | queryType (types : List ℕ)
  | responseRCode (rcode : ℕ)
  | responseRecord (sect : RecordSection) (expected : List (RR → Bool))
  | other (test : Query E → Bool)

def RuleItem.matchOn (m : InboundContext E) : RuleItem E → Bool
  | .sourceIPCIDR ipSet => ipCIDRItemMatch true ipSet m
  | .ipVersion isIPv6 =>
    (m.query.ipVersion ≠ 0 && (m.query.ipVersion == 6) == isIPv6) ||
      match m.query.destination.addr with
      | none => false
      | some a => (!a.is4) == isIPv6
  | .queryType types => m.query.queryType ≠ 0 && types.contains m.query.queryType
  | .responseRCode rcode =>
    match m.dnsResponse with
    | none => false
    | some response => response.rcode == rcode
  | .responseRecord sect expected =>
    match m.dnsResponse with
    | none => false
    | some response => expected.any fun match_ => (sect.select response).any match_
  | .other test => test m.query

def RuleItem.readsResponse : RuleItem E → Bool
  | .responseRCode _ | .responseRecord _ _ => true
  | .sourceIPCIDR _ | .ipVersion _ | .queryType _ | .other _ => false

def matchAnyItem (items : List (RuleItem E)) (m : InboundContext E) : Bool := items.any (RuleItem.matchOn m)

def matchAnyAddressItem (items : List AddressItem) (m : InboundContext E) : Bool := items.any (AddressItem.matchOn m)

/-! ## Default rules -/

structure RuleGroupMatch where
  required : RuleMatchState := RuleMatchState.empty
  satisfied : RuleMatchState := RuleMatchState.empty

def RuleGroupMatch.done (g : RuleGroupMatch) : Bool := (g.required.diff g.satisfied).isEmpty

def RuleGroupMatch.mergeWith (g other : RuleGroupMatch) : RuleGroupMatch :=
  ⟨g.required.union other.required, g.satisfied.union other.satisfied⟩

def RuleGroupMatch.require (gs : RuleGroupMatch) (g : Group) (hit : Bool) : RuleGroupMatch :=
  ⟨gs.required.union (.single g), if hit then gs.satisfied.union (.single g) else gs.satisfied⟩

structure AbstractDefaultRule (E : Type) where
  items : List (RuleItem E) := []
  sourceAddressItems : List (RuleItem E) := []
  sourcePortItems : List (RuleItem E) := []
  destinationAddressItems : List (RuleItem E) := []
  destinationIPCIDRItems : List AddressItem := []
  destinationPortItems : List (RuleItem E) := []
  invert : Bool := false

namespace AbstractDefaultRule

section

variable (r : AbstractDefaultRule E)

def noItems : Bool :=
  r.items.isEmpty && r.sourceAddressItems.isEmpty && r.sourcePortItems.isEmpty && r.destinationAddressItems.isEmpty &&
    r.destinationIPCIDRItems.isEmpty && r.destinationPortItems.isEmpty

def readsResponse : Bool :=
  r.items.any (·.readsResponse) || r.sourceAddressItems.any (·.readsResponse) ||
    r.sourcePortItems.any (·.readsResponse) || r.destinationAddressItems.any (·.readsResponse) ||
    r.destinationPortItems.any (·.readsResponse)

def destinationIPCIDRMatchesSource (m : InboundContext E) : Bool :=
  m.ipCidrMatchSource && !r.destinationIPCIDRItems.isEmpty

def destinationIPCIDRMatchesDestination (m : InboundContext E) : Bool :=
  !m.ignoreDestinationIPCIDRMatch && !m.ipCidrMatchSource && !r.destinationIPCIDRItems.isEmpty

end

def evaluateGroup (g : Group) (items : List (RuleItem E)) (m : InboundContext E) (gs : RuleGroupMatch) :
    RuleGroupMatch :=
  if items.isEmpty then gs else gs.require g (matchAnyItem items m)

/-- the destination `ip_cidr` items, added to group `g` when `use` says so -/
def evaluateIPCIDR (use : Bool) (g : Group) (r : AbstractDefaultRule E) (m : InboundContext E) (gs : RuleGroupMatch) :
    RuleGroupMatch :=
  if use then gs.require g (!gs.satisfied g && matchAnyAddressItem r.destinationIPCIDRItems m) else gs

section

variable (r : AbstractDefaultRule E) (m : InboundContext E)

def groups : RuleGroupMatch :=
  let gs : RuleGroupMatch := {}
  let gs := evaluateGroup .sourceAddress r.sourceAddressItems m gs
  let gs := evaluateIPCIDR (r.destinationIPCIDRMatchesSource m) .sourceAddress r m gs
  let gs := evaluateGroup .sourcePort r.sourcePortItems m gs
  let gs := evaluateGroup .destinationAddress r.destinationAddressItems m gs
  let gs := evaluateIPCIDR (r.destinationIPCIDRMatchesDestination m) .destinationAddress r m gs
  evaluateGroup .destinationPort r.destinationPortItems m gs

/-- whether `evaluateGroups` leaves the destination `ip_cidr` items for later -/
def defers : Bool :=
  m.ignoreDestinationIPCIDRMatch && !m.ipCidrMatchSource && !r.destinationIPCIDRItems.isEmpty &&
    r.destinationAddressItems.isEmpty

def evaluateGroups : RuleGroupMatch × InboundContext E :=
  (r.groups m,
    if r.defers m then m.setDeferred (m.deferredIPCIDRMatchGroups.union (.single .destinationAddress)) else m)

end

abbrev SetMatch (E : Type) := InboundContext E → RuleGroupMatch → Bool × InboundContext E

section

variable (setMatch : Option (SetMatch E)) (r : AbstractDefaultRule E) (m : InboundContext E)

def matchInner : Bool × InboundContext E :=
  let (gs, m) := r.evaluateGroups m
  if r.items.all (RuleItem.matchOn m) then
    let (matched, m) :=
      match setMatch with
      | some f => f m gs
      | none => (gs.done, m)
    (matched, if matched then m.setDeferred (m.deferredIPCIDRMatchGroups.diff gs.satisfied) else m)
  else (false, m)

def matchOn : Bool × InboundContext E :=
  if r.noItems && setMatch.isNone then (true, m)
  else
    let (matched, m) := matchInner setMatch r m
    if r.invert then
      if matched then (!m.deferredIPCIDRMatchGroups.isEmpty, m) else (true, m.setDeferred .empty)
    else (matched, m)

end

def evaluateForMerge (r : AbstractDefaultRule E) (m : InboundContext E) :
    Option RuleGroupMatch × InboundContext E :=
  let (gs, m) := r.evaluateGroups m
  (if r.items.all (RuleItem.matchOn m) then some gs else none, m)

end AbstractDefaultRule

/-! ## Logical rules -/

inductive LogicalMode where
  | and
  | or
deriving DecidableEq, Repr

inductive Rule (D : Type) where
  | default (d : D)
  | logical (mode : LogicalMode) (invert : Bool) (rules : List (Rule D))

abbrev Matcher (E : Type) := InboundContext E → Bool × InboundContext E

/-- the `and` loop of `abstractLogicalRule.Match`: (matched, deferred groups, context) -/
def andLoop : List (Matcher E) → InboundContext E → RuleMatchState → Bool × RuleMatchState × InboundContext E
  | [], m, d => (true, d, m)
  | f :: fs, m, d =>
    let (b, m) := f m.resetRuleCache
    if b then andLoop fs m (d.union m.deferredIPCIDRMatchGroups) else (false, .empty, m)

/-- the `or` loop of `abstractLogicalRule.Match` and of `matchAnyHeadlessRule`, which differ in what they reset -/
def orLoop (reset : InboundContext E → InboundContext E) :
    List (Matcher E) → InboundContext E → Bool → RuleMatchState → Bool × RuleMatchState × InboundContext E
  | [], m, matched, d => (matched, d, m)
  | f :: fs, m, matched, d =>
    let (b, m) := f (reset m)
    if b then
      if m.deferredIPCIDRMatchGroups.isEmpty then (true, .empty, m)
      else orLoop reset fs m true (d.union m.deferredIPCIDRMatchGroups)
    else orLoop reset fs m matched d

def restoreDeferred (snapshot : RuleMatchSnapshot) (matched : Bool) (d : RuleMatchState) (m : InboundContext E) :
    InboundContext E :=
  let m := snapshot.restore m
  if matched then m.setDeferred (m.deferredIPCIDRMatchGroups.union d) else m

def logicalMatch (mode : LogicalMode) (invert : Bool) (rules : List (Matcher E)) (m : InboundContext E) :
    Bool × InboundContext E :=
  let snapshot := snapshotRuleMatch m
  let (matched, d, m) :=
    match mode with
    | .and => andLoop rules m .empty
    | .or => orLoop InboundContext.resetRuleCache rules m false .empty
  let m := restoreDeferred snapshot matched d m
  (if invert then (if matched then !d.isEmpty else true) else matched, m)

variable {D : Type}

mutual

/-- `Match` of a rule tree, for a given `Match` of its default rules -/
def Rule.matchOn (leaf : D → Matcher E) : Rule D → Matcher E
  | .default d => leaf d
  | .logical mode invert rules => logicalMatch mode invert (Rule.matchers leaf rules)

def Rule.matchers (leaf : D → Matcher E) : List (Rule D) → List (Matcher E)
  | [] => []
  | r :: rs => Rule.matchOn leaf r :: Rule.matchers leaf rs

end

theorem Rule.matchers_eq (leaf : D → Matcher E) (rs : List (Rule D)) :
    Rule.matchers leaf rs = rs.map (Rule.matchOn leaf) := by
  induction rs with
  | nil => simp [Rule.matchers]
  | cons r rs ih => simp [Rule.matchers, ih]

@[elab_as_elim]
theorem Rule.inductionOn {motive : Rule D → Prop} (r : Rule D) (default : ∀ d, motive (.default d))
    (logical : ∀ mode invert rs, (∀ r ∈ rs, motive r) → motive (.logical mode invert rs)) : motive r := by
  refine @Rule.rec D motive (fun rs => ∀ r ∈ rs, motive r) default (fun mode invert rs h => logical mode invert rs h)
    (by simp) (fun r rs h1 h2 => List.forall_mem_cons.2 ⟨h1, h2⟩) r

mutual

def Rule.map {D' : Type} (f : D → D') : Rule D → Rule D'
  | .default d => .default (f d)
  | .logical mode invert rules => .logical mode invert (Rule.mapAll f rules)

def Rule.mapAll {D' : Type} (f : D → D') : List (Rule D) → List (Rule D')
  | [] => []
  | r :: rs => Rule.map f r :: Rule.mapAll f rs

end

theorem Rule.mapAll_eq {D' : Type} (f : D → D') (rs : List (Rule D)) : Rule.mapAll f rs = rs.map (Rule.map f) := by
  induction rs with
  | nil => simp [Rule.mapAll]
  | cons r rs ih => simp [Rule.mapAll, ih]

/-! ## Rule-sets -/

/-- `DefaultHeadlessRule`: its options have no item that looks into a response and, of the address items, only
`ip_cidr` -/
structure DefaultHeadlessRule (E : Type) extends AbstractDefaultRule E where
  cidrOnly : destinationIPCIDRItems.all AddressItem.isCIDR = true := by decide
  noResponse : toAbstractDefaultRule.readsResponse = false := by decide

def DefaultHeadlessRule.matchOn (r : DefaultHeadlessRule E) : Matcher E :=
  AbstractDefaultRule.matchOn none r.toAbstractDefaultRule

abbrev HeadlessRule (E : Type) := Rule (DefaultHeadlessRule E)

def HeadlessRule.matchOn (r : HeadlessRule E) : Matcher E := Rule.matchOn DefaultHeadlessRule.matchOn r

structure RuleSet (E : Type) where
  tag : String
  rules : List (HeadlessRule E)

def matchAnyHeadlessRule (rules : List (HeadlessRule E)) (m : InboundContext E) : Bool × InboundContext E :=
  let snapshot := snapshotRuleMatch m
  let (matched, d, m) :=
    orLoop InboundContext.resetRuleMatchCache (rules.map HeadlessRule.matchOn) m false .empty
  (matched, restoreDeferred snapshot matched d m)

def mergeableRuleIn : List (HeadlessRule E) → Option (DefaultHeadlessRule E)
  | [.default r] => if r.invert then none else some r
  | _ => none

structure RuleSetItem (E : Type) where
  setList : List (RuleSet E)
  ipCidrMatchSource : Bool := false
  ipCidrAcceptEmpty : Bool := false

namespace RuleSetItem

def prepareNestedMatch (item : RuleSetItem E) (m : InboundContext E) : InboundContext E :=
  { m.resetRuleMatchCache with
    ipCidrMatchSource := item.ipCidrMatchSource
    ipCidrAcceptEmpty := item.ipCidrAcceptEmpty }

def matchLoop (item : RuleSetItem E) (outerGroups : RuleGroupMatch) (snapshot : RuleMatchSnapshot) :
    List (RuleSet E) → InboundContext E → Bool → RuleMatchState → Bool × InboundContext E
  | [], m, matched, d => (matched, restoreDeferred snapshot matched d m)
  | s :: sets, m, matched, d =>
    let m := item.prepareNestedMatch m
    match mergeableRuleIn s.rules with
    | some branch =>
      match branch.evaluateForMerge m with
      | (none, m) => matchLoop item outerGroups snapshot sets m matched d
      | (some branchGroups, m) =>
        let merged := outerGroups.mergeWith branchGroups
        if merged.done then
          let branchDeferred := m.deferredIPCIDRMatchGroups.diff merged.satisfied
          if branchDeferred.isEmpty then
            let m := snapshot.restore m
            (true, m.setDeferred (m.deferredIPCIDRMatchGroups.diff merged.satisfied))
          else matchLoop item outerGroups snapshot sets m true (d.union branchDeferred)
        else matchLoop item outerGroups snapshot sets m matched d
    | none =>
      if outerGroups.done then
        let (b, m) := matchAnyHeadlessRule s.rules m
        if b then
          if m.deferredIPCIDRMatchGroups.isEmpty then (true, snapshot.restore m)
          else matchLoop item outerGroups snapshot sets m true (d.union m.deferredIPCIDRMatchGroups)
        else matchLoop item outerGroups snapshot sets m matched d
      else matchLoop item outerGroups snapshot sets m matched d

def matchWithOuterGroups (item : RuleSetItem E) (m : InboundContext E) (outerGroups : RuleGroupMatch) :
    Bool × InboundContext E :=
  matchLoop item outerGroups (snapshotRuleMatch m) item.setList m false .empty

end RuleSetItem

mutual

/-- `HasHeadlessRule` -/
def Rule.has (cond : D → Bool) : Rule D → Bool
  | .default d => cond d
  | .logical _ _ rules => Rule.hasAny cond rules

def Rule.hasAny (cond : D → Bool) : List (Rule D) → Bool
  | [] => false
  | r :: rs => Rule.has cond r || Rule.hasAny cond rs

end

theorem Rule.hasAny_eq (cond : D → Bool) (rs : List (Rule D)) : Rule.hasAny cond rs = rs.any (Rule.has cond) := by
  induction rs with
  | nil => simp [Rule.hasAny]
  | cons r rs ih => simp [Rule.hasAny, ih]

def isIPCIDRHeadlessRule (r : DefaultHeadlessRule E) : Bool := !r.destinationIPCIDRItems.isEmpty

def RuleSet.containsIPCIDRRule (s : RuleSet E) : Bool := Rule.hasAny isIPCIDRHeadlessRule s.rules

def RuleSetItem.containsDestinationIPCIDRRule (item : RuleSetItem E) : Bool :=
  if item.ipCidrMatchSource then false else item.setList.any RuleSet.containsIPCIDRRule

/-! ## DNS rules -/

theorem tagBound_untagged : "" ≠ "" → false := fun h => absurd rfl h

/-- `DefaultDNSRule`; a route rule is one that matches no response. The tag is part of `match_response` -/
structure DefaultDNSRule (E : Type) extends AbstractDefaultRule E where
  ruleSetItem : Option (RuleSetItem E) := none
  matchResponse : Bool := false
  matchResponseTag : String := ""
  tagBound : matchResponseTag ≠ "" → matchResponse = true := by first | exact tagBound_untagged | decide

namespace DefaultDNSRule

def abstractMatch (r : DefaultDNSRule E) : Matcher E :=
  r.toAbstractDefaultRule.matchOn (r.ruleSetItem.map RuleSetItem.matchWithOuterGroups)

def responseContext (m : InboundContext E) (response : Option Msg) : InboundContext E :=
  { m with dnsResponse := response, destinationAddressMatchFromResponse := true }

def boundResponse (r : DefaultDNSRule E) (m : InboundContext E) : Option Msg :=
  if r.matchResponseTag ≠ "" then m.namedDNSResponses r.matchResponseTag else m.dnsResponse

/-- `matchForMatch`; the copy of the metadata made for a bound response is dropped -/
def matchForMatch (r : DefaultDNSRule E) (m : InboundContext E) : Bool × InboundContext E :=
  if r.matchResponse then
    match r.boundResponse m with
    | none => (r.invert, m)
    | some response => ((r.abstractMatch (responseContext m (some response))).1, m)
  else r.abstractMatch m

def withAddressLimit (r : DefaultDNSRule E) : Bool :=
  !r.destinationIPCIDRItems.isEmpty ||
    match r.ruleSetItem with
    | none => false
    | some item => item.containsDestinationIPCIDRRule

end DefaultDNSRule

abbrev DNSRuleTree (E : Type) := Rule (DefaultDNSRule E)

namespace DNSRuleTree

def matchOn (r : DNSRuleTree E) : Matcher E := Rule.matchOn DefaultDNSRule.matchForMatch r

def legacyPreMatch (r : DNSRuleTree E) (m : InboundContext E) : Bool × InboundContext E :=
  match r with
  | .default d =>
    if d.matchResponse then (false, m)
    else
      let (b, m) := d.abstractMatch { m with ignoreDestinationIPCIDRMatch := true }
      (b, { m with ignoreDestinationIPCIDRMatch := false })
  | .logical mode invert rules =>
    let (b, m) := DNSRuleTree.matchOn (.logical mode invert rules) { m with ignoreDestinationIPCIDRMatch := true }
    (b, { m with ignoreDestinationIPCIDRMatch := false })

def withAddressLimit (r : DNSRuleTree E) : Bool := Rule.has DefaultDNSRule.withAddressLimit r

/-- `MatchResponseTag`: a logical rule has none -/
def matchResponseTag : DNSRuleTree E → String
  | .default d => d.matchResponseTag
  | .logical _ _ _ => ""

mutual

/-- `MatchResponseTags` before duplicates are dropped -/
def responseTags : DNSRuleTree E → List String
  | .default d => if d.matchResponseTag = "" then [] else [d.matchResponseTag]
  | .logical _ _ rules => responseTagsIn rules

def responseTagsIn : List (DNSRuleTree E) → List String
  | [] => []
  | r :: rs => responseTags r ++ responseTagsIn rs

end

/-- `common.Uniq` keeps the first of equal tags, `dedup` the last -/
def matchResponseTags (r : DNSRuleTree E) : List String := (responseTags r).reverse.dedup.reverse

def matchResponseAnonymous (r : DNSRuleTree E) : Bool :=
  Rule.has (fun d => d.matchResponse && d.matchResponseTag = "") r

end DNSRuleTree

end EtonifyCore.RuleMatch
