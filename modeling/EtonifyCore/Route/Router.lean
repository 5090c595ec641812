/-
Routing of a connection: matching the route rules and handing the connection on (`route/route.go`).

A rule that matches may change the metadata, sniff, or select. A sniff reads from the inbound connection into buffers, which
`routeConnection` and `routePacketConnection` put back in front of the connection.

Premises. A read of the inbound connection is an event of an arbitrary list (`StreamRead`, `PacketRead`). Sniffers are
arbitrary functions on the fields they read and write, rules on the metadata that rule items read (`RuleView`). Predicates on
addresses, the DNS lookup, the fake-IP store, the reverse mapping and the search for process and neighbour are parameters.

Left out: log lines, statistics trackers and the deadline wrapper (they pass data through), handshake reports, the release
of buffers, the rule cache in the metadata (reset before each rule).
-/
import EtonifyCore.Core.Reader
import EtonifyCore.Rule.Match

namespace EtonifyCore.Route

open EtonifyCore.Core (Reader)
open EtonifyCore.RuleMatch (Addr Socksaddr)

/-! ## Metadata and actions -/

abbrev Bytes := List UInt8

inductive Network where
  | tcp
  | udp
  | icmp
deriving DecidableEq, Repr

def Network.upper : Network → String
  | .tcp => "TCP"
  | .udp => "UDP"
  | .icmp => "ICMP"

structure Packet where
  payload : Bytes
  destination : Socksaddr
deriving DecidableEq, Repr

inductive Cause where
  | needMoreData
  | other (message : String)
deriving DecidableEq, Repr

abbrev SniffError := List Cause

def needsMoreData (err : SniffError) : Bool := err.contains .needMoreData

structure CryptoFragment where
  offset : ℕ
  length : ℕ
  payload : Bytes
deriving DecidableEq, Repr

structure Sniffed where
  protocol : String := ""
  domain : String := ""
  client : String := ""
  context : Option (List CryptoFragment) := none
deriving DecidableEq, Repr

/-- `StreamSniffer` on what the reader yields, `PacketSniffer` on a packet -/
abbrev Sniffer := Bytes → Sniffed → Option Cause × Sniffed

structure DialOptions where
  networkStrategy : Option ℕ := none
  networkType : List ℕ := []
  fallbackNetworkType : List ℕ := []
  fallbackDelay : ℕ := 0
  udpDisableDomainUnmapping : Bool := false
  udpConnect : Bool := false
  udpTimeout : ℕ := 0
  tlsFragment : Bool := false
  tlsFragmentFallbackDelay : ℕ := 0
  tlsRecordFragment : Bool := false
  tlsSpoof : String := ""
  tlsSpoofMethod : ℕ := 0
deriving DecidableEq, Repr

/-- `RuleActionRouteOptions` -/
structure RouteOptions extends DialOptions where
  overrideAddress : Socksaddr := {}
  overridePort : ℕ := 0
deriving DecidableEq, Repr

/-- `adapter.InboundContext`; `rest` is what routing never changes after the search for process and neighbour -/
structure InboundContext (E : Type) where
  inbound : String := ""
  inboundType : String := ""
  inboundDetour : String := ""
  lastInbound : String := ""
  network : Network := .tcp
  destination : Socksaddr
  sniffed : Sniffed := {}
  snifferNames : List String := []
  sniffError : SniffError := []
  originDestination : Socksaddr := {}
  routeOriginalDestination : Socksaddr := {}
  destinationAddresses : List Addr := []
  fakeIP : Bool := false
  preMatch : Bool := false
  ipVersion : ℕ := 0
  dial : DialOptions := {}
  rest : E

structure RuleView (E : Type) where
  inbound : String
  network : Network
  destination : Socksaddr
  protocol : String
  domain : String
  client : String
  destinationAddresses : List Addr
  preMatch : Bool
  ipVersion : ℕ
  rest : E

variable {E : Type}

def InboundContext.view (m : InboundContext E) : RuleView E where
  inbound := m.inbound
  network := m.network
  destination := m.destination
  protocol := m.sniffed.protocol
  domain := m.sniffed.domain
  client := m.sniffed.client
  destinationAddresses := m.destinationAddresses
  preMatch := m.preMatch
  ipVersion := m.ipVersion
  rest := m.rest

structure RuleActionSniff where
  snifferNames : List String := []
  streamSniffers : List Sniffer := []
  packetSniffers : List Sniffer := []
  overrideDestination : Bool := false

structure RuleActionResolve where
  server : String := ""
  timeout : ℕ := 0
  strategy : ℕ := 0
  disableCache : Bool := false
  disableOptimisticCache : Bool := false
  rewriteTTL : Option ℕ := none
  clientSubnet : Option (Addr × ℕ) := none
deriving DecidableEq, Repr

inductive RejectMethod where
  | default
  | drop
  | reply
deriving DecidableEq, Repr

/-- why a reject action refuses; the drop also replaces the reset when an action refuses too often -/
inductive RejectError where
  | reset
  | drop
deriving DecidableEq, Repr

inductive RuleAction where
  | route (outbound : String) (options : RouteOptions)
  | routeOptions (options : RouteOptions)
  | bypass (outbound : String) (options : RouteOptions)
  | direct
  | reject (method : RejectMethod) (noDrop : Bool)
  | hijackDNS
  | sniff (action : RuleActionSniff)
  | resolve (action : RuleActionResolve)

structure Rule (E : Type) where
  matchOn : RuleView E → Bool
  action : RuleAction

/-! ## The router and what it relies on -/

inductive PreMatchAction where
  | continue
  | flow
  | reject
  | drop
  | bypass
  | hijackDNS
deriving DecidableEq, Repr

/-- an outbound; `selected` is there for groups, `preMatchFlow` for outbounds that take flows -/
structure Outbound where
  tag : String
  networks : List Network
  selected : Option (Network → Option ℕ) := none
  preMatchFlow : Option (Network → Option Addr → PreMatchAction) := none

structure FakeIPStore where
  contains : Addr → Bool
  lookup : Addr → Option String

/-- whether an inbound takes connections from a detour -/
structure Injectable where
  tcp : Bool
  udp : Bool

structure Router (E : Type) where
  rules : List (Rule E)
  isValid : Socksaddr → Bool
  isDomain : Socksaddr → Bool
  isIPv4 : Socksaddr → Bool
  isIPv6 : Socksaddr → Bool
  isDomainName : String → Bool
  searchSource : Network → Socksaddr → Socksaddr → E → E
  fakeIPStore : Option FakeIPStore
  lookupReverseMapping : Option Addr → Option String
  hasTransport : String → Bool
  lookup : RuleView E → String → RuleActionResolve → Except String (List Addr)
  defaultStreamSniffers : List Sniffer
  defaultPacketSniffers : List Sniffer
  quicClientHello : Sniffer
  inbounds : String → Option Injectable
  /-- the error for a destination that is reserved for a protocol that is no longer handled -/
  reserved : String → Option String
  outbounds : List Outbound
  outbound : String → Option ℕ
  /-- the manager refuses empty tags -/
  noEmptyTag : outbound "" = none
  default : Option ℕ
  /-- the chain is still selected when the connection is registered (`registerInterrupt`) -/
  chainSelected : List ℕ → Network → Bool
  /-- the error of a reject action; `none` for the reply method -/
  rejectError : RejectMethod → Bool → Option RejectError

namespace Router

variable (r : Router E)

/-! ## Metadata before and during matching -/

section

variable (m : InboundContext E)

def reverseMapped : InboundContext E :=
  if m.sniffed.domain = "" then
    match r.lookupReverseMapping m.destination.addr with
    | some domain => { m with sniffed := { m.sniffed with domain := domain } }
    | none => m
  else m

def resolveFakeIP : Except String (InboundContext E) :=
  match m.destination.addr, r.fakeIPStore with
  | some addr, some store =>
    if store.contains addr then
      match store.lookup addr with
      | none => .error "missing fakeip record, try enable `experimental.cache_file`"
      | some domain =>
        if domain = "" then .ok m
        else .ok { m with
          originDestination := m.destination
          destination := { fqdn := domain, port := m.destination.port }
          fakeIP := true }
    else .ok (r.reverseMapped m)
  | _, _ => .ok (r.reverseMapped m)

def setIPVersion : InboundContext E :=
  if r.isIPv4 m.destination then { m with ipVersion := 4 }
  else if r.isIPv6 m.destination then { m with ipVersion := 6 }
  else m

def prepareMatchMetadata : Except String (InboundContext E) :=
  (r.resolveFakeIP { m with rest := r.searchSource m.network m.originDestination m.destination m.rest }).map r.setIPVersion

end

def applyRouteOptionsOverride (o : RouteOptions) (m : InboundContext E) : InboundContext E :=
  let m := if r.isValid o.overrideAddress then
      { m with destination := { o.overrideAddress with port := m.destination.port } } else m
  let m := if o.overridePort > 0 then { m with destination := { m.destination with port := o.overridePort } } else m
  if o.udpTimeout > 0 then { m with dial := { m.dial with udpTimeout := o.udpTimeout } } else m

def addDialOptions (o d : DialOptions) : DialOptions where
  networkStrategy := if o.networkStrategy.isSome then o.networkStrategy else d.networkStrategy
  networkType := if o.networkType.isEmpty then d.networkType else o.networkType
  fallbackNetworkType := if o.fallbackNetworkType.isEmpty then d.fallbackNetworkType else o.fallbackNetworkType
  fallbackDelay := if o.fallbackDelay ≠ 0 then o.fallbackDelay else d.fallbackDelay
  udpDisableDomainUnmapping := d.udpDisableDomainUnmapping || o.udpDisableDomainUnmapping
  udpConnect := d.udpConnect || o.udpConnect
  udpTimeout := if o.udpTimeout > 0 then o.udpTimeout else d.udpTimeout
  tlsFragment := d.tlsFragment || o.tlsFragment
  tlsFragmentFallbackDelay := if o.tlsFragment then o.tlsFragmentFallbackDelay else d.tlsFragmentFallbackDelay
  tlsRecordFragment := d.tlsRecordFragment || o.tlsRecordFragment
  tlsSpoof := if o.tlsSpoof ≠ "" then o.tlsSpoof else d.tlsSpoof
  tlsSpoofMethod := if o.tlsSpoof ≠ "" then o.tlsSpoofMethod else d.tlsSpoofMethod

def applyRouteOptions (o : RouteOptions) (m : InboundContext E) : InboundContext E :=
  let m := if (r.isValid o.overrideAddress || decide (o.overridePort > 0)) && !r.isValid m.routeOriginalDestination then
      { m with routeOriginalDestination := m.destination } else m
  let m := if r.isValid o.overrideAddress then { m with destinationAddresses := [] } else m
  let m := r.applyRouteOptionsOverride o m
  { m with dial := addDialOptions o.toDialOptions m.dial }

/-- the options that `matchRule` applies; a bypass action without outbound has none -/
def routeOptionsOf : RuleAction → Option RouteOptions
  | .route _ o => some o
  | .routeOptions o => some o
  | .bypass outbound o => if outbound ≠ "" then some o else none
  | .direct | .reject .. | .hijackDNS | .sniff _ | .resolve _ => none

def applyAction (a : RuleAction) (m : InboundContext E) : InboundContext E :=
  match routeOptionsOf a with
  | some o => r.applyRouteOptions o m
  | none => m

def actionResolve (a : RuleActionResolve) (m : InboundContext E) : Except String (InboundContext E) :=
  if r.isDomain m.destination then
    if a.server ≠ "" ∧ r.hasTransport a.server = false then .error ("DNS server not found: " ++ a.server)
    else match r.lookup m.view m.destination.fqdn a with
      | .error err => .error err
      | .ok addresses => .ok { m with destinationAddresses := addresses }
  else .ok m

end Router

/-! ## Sniffing -/

def skipSniff (m : InboundContext E) : Bool := [25, 465, 587, 143, 993, 110, 995].contains m.destination.port

/-- the sniffers in turn, until one accepts; the joined errors otherwise -/
def peekLoop (data : Bytes) : List Sniffer → SniffError → Sniffed → SniffError × Sniffed
  | [], errors, s => (errors, s)
  | sniffer :: sniffers, errors, s =>
    match sniffer data s with
    | (none, s') => ([], s')
    | (some err, s') => peekLoop data sniffers (errors ++ [err]) s'

def peekPacket (data : Bytes) (sniffers : List Sniffer) (s : Sniffed) : SniffError × Sniffed :=
  peekLoop data sniffers [] s

/-- one read of a stream under a deadline: setting the deadline fails, or the read returns data and perhaps an error -/
inductive StreamRead where
  | noDeadline (message : String)
  | read (data : Bytes) (err : Option String)
deriving DecidableEq, Repr

inductive PacketRead where
  | packet (packet : Packet)
  | timeout (message : String)
  | failed (message : String)
  | canceled (message : String)
deriving DecidableEq, Repr

def StreamRead.data : StreamRead → Bytes
  | .noDeadline _ => []
  | .read data _ => data

def PacketRead.data : PacketRead → List Packet
  | .packet p => [p]
  | .timeout _ | .failed _ | .canceled _ => []

/-- what `PeekStream` leaves: its error, the metadata, its buffer and the reads that are still to come -/
structure Peeked where
  err : SniffError
  sniffed : Sniffed
  buffer : Bytes
  rest : List StreamRead

/-- the loop of `PeekStream`: `first` in the first round, `err` is the error of the last round -/
def peekStream (buffers : List Bytes) (sniffers : List Sniffer) :
    List StreamRead → Bool → SniffError → Bytes → Sniffed → Peeked
  | [], first, err, buffer, s => ⟨if first then [.other "read payload: EOF"] else err, s, buffer, []⟩
  | .noDeadline message :: rest, _, _, buffer, s => ⟨[.other ("set read deadline: " ++ message)], s, buffer, rest⟩
  | .read data (some message) :: rest, first, err, buffer, s =>
    ⟨if first then [.other ("read payload: " ++ message)] else err, s, buffer ++ data, rest⟩
  | .read data none :: rest, _, _, buffer, s =>
    let peeked := peekLoop (buffers ++ [buffer ++ data]).flatten sniffers [] s
    if needsMoreData peeked.1 then peekStream buffers sniffers rest false peeked.1 (buffer ++ data) peeked.2
    else ⟨peeked.1, peeked.2, buffer ++ data, rest⟩

inductive Input where
  | stream (reads : List StreamRead)
  | packets (reads : List PacketRead)
deriving DecidableEq, Repr

def Input.bytes : Input → Bytes
  | .stream reads => (reads.map StreamRead.data).flatten
  | .packets _ => []

def Input.pending : Input → List Packet
  | .stream _ => []
  | .packets reads => (reads.map PacketRead.data).flatten

structure Matched (E : Type) where
  metadata : InboundContext E
  input : Input
  buffers : List Bytes := []
  packetBuffers : List Packet := []

def InboundContext.sniffedBy (m : InboundContext E) (a : RuleActionSniff) (result : SniffError × Sniffed) :
    InboundContext E :=
  { m with sniffed := result.2, snifferNames := a.snifferNames, sniffError := result.1 }

namespace Router

variable (r : Router E)

/-- `finally`: after a successful sniff the domain may become the destination -/
def overrideSniffed (a : RuleActionSniff) (err : SniffError) (m : InboundContext E) : InboundContext E :=
  if err = [] ∧ a.overrideDestination = true ∧ r.isDomainName m.sniffed.domain = true then
    { m with destination := { fqdn := m.sniffed.domain, port := m.destination.port } }
  else m

def sniffFailed (a : RuleActionSniff) (m : InboundContext E) : Bool :=
  m.snifferNames = a.snifferNames && m.sniffError ≠ [] && !needsMoreData m.sniffError

def streamSniffers (a : RuleActionSniff) : List Sniffer :=
  if a.streamSniffers.isEmpty then r.defaultStreamSniffers else a.streamSniffers

def packetSniffers (a : RuleActionSniff) : List Sniffer :=
  if a.packetSniffers.isEmpty then r.defaultPacketSniffers else a.packetSniffers

def quicMoreData (a : RuleActionSniff) (m : InboundContext E) : Bool :=
  m.snifferNames = a.snifferNames && needsMoreData m.sniffError

def sniffPacket (a : RuleActionSniff) (m : InboundContext E) (data : Bytes) : InboundContext E :=
  m.sniffedBy a (peekPacket data (if quicMoreData a m then [r.quicClientHello] else r.packetSniffers a) m.sniffed)

/-- the packets that earlier actions have read; `some` when they were enough -/
def sniffBuffered (a : RuleActionSniff) : List Packet → InboundContext E → Option SniffError × InboundContext E
  | [], m => (none, m)
  | p :: ps, m =>
    let m' := r.sniffPacket a m p.payload
    if needsMoreData m'.sniffError then sniffBuffered a ps m' else (some m'.sniffError, m')

/-- packets read by an action: those it has read, how it ended and what is still to come -/
structure SniffedPackets (E : Type) where
  metadata : InboundContext E
  rest : List PacketRead
  packets : List Packet
  err : SniffError := []
  fatalErr : Option String := none

def sniffReads (a : RuleActionSniff) : List PacketRead → List Packet → InboundContext E → SniffedPackets E
  | [], read, m => { metadata := m, rest := [], packets := read, fatalErr := some "EOF" }
  | .canceled message :: rest, read, m | .failed message :: rest, read, m =>
    { metadata := m, rest, packets := read, fatalErr := some message }
  | .timeout message :: rest, read, m => { metadata := m, rest, packets := read, err := [.other message] }
  | .packet p :: rest, read, m =>
    let m' := r.sniffPacket a m p.payload
    if needsMoreData m'.sniffError then sniffReads a rest (read ++ [p]) m'
    else { metadata := m', rest, packets := read ++ [p], err := m'.sniffError }

def actionSniff (a : RuleActionSniff) (s : Matched E) : Matched E × Option String :=
  if skipSniff s.metadata || s.metadata.sniffed.protocol ≠ "" then (s, none)
  else match s.input with
  | .stream reads =>
    if (a.streamSniffers.isEmpty && !a.packetSniffers.isEmpty) || sniffFailed a s.metadata then (s, none)
    else
      let peeked := peekStream s.buffers (r.streamSniffers a) reads true [] [] s.metadata.sniffed
      ({ s with
        metadata := r.overrideSniffed a peeked.err (s.metadata.sniffedBy a (peeked.err, peeked.sniffed))
        input := .stream peeked.rest
        buffers := if peeked.buffer.isEmpty then s.buffers else s.buffers ++ [peeked.buffer] }, none)
  | .packets reads =>
    if (a.packetSniffers.isEmpty && !a.streamSniffers.isEmpty) || sniffFailed a s.metadata then (s, none)
    else match r.sniffBuffered a s.packetBuffers s.metadata with
    | (some err, m) => ({ s with metadata := r.overrideSniffed a err m }, none)
    | (none, m) =>
      let sniffed := r.sniffReads a reads [] m
      match sniffed.fatalErr with
      | some err => ({ s with
          metadata := sniffed.metadata
          input := .packets sniffed.rest
          packetBuffers := s.packetBuffers ++ sniffed.packets }, some err)
      | none => ({ s with
          metadata := r.overrideSniffed a sniffed.err sniffed.metadata
          input := .packets sniffed.rest
          packetBuffers := s.packetBuffers ++ sniffed.packets }, none)

/-! ## Matching -/

inductive Step (E : Type) where
  | pass (s : Matched E)
  | select (s : Matched E)
  | fatal (s : Matched E) (err : String)

def actionStep (action : RuleAction) (s : Matched E) : Step E :=
  match action with
  | .sniff a =>
    match r.actionSniff a s with
    | (s', none) => .pass s'
    | (s', some err) => .fatal s' err
  | .resolve a =>
    match r.actionResolve a s.metadata with
    | .ok m => .pass { s with metadata := m }
    | .error err => .fatal s err
  | .route .. | .reject .. | .hijackDNS => .select s
  | .bypass outbound _ => if outbound = "" then .pass s else .select s
  | .routeOptions _ | .direct => .pass s

def ruleStep (rule : Rule E) (s : Matched E) : Step E :=
  if rule.matchOn s.metadata.view then
    r.actionStep rule.action { s with metadata := r.applyAction rule.action s.metadata }
  else .pass s

structure MatchResult (E : Type) where
  state : Matched E
  selectedRule : Option (Rule E) := none
  selectedRuleIndex : ℕ := 0
  fatalErr : Option String := none

def matchRules (i : ℕ) : List (Rule E) → Matched E → MatchResult E
  | [], s => { state := s }
  | rule :: rules, s =>
    match r.ruleStep rule s with
    | .pass s' => matchRules (i + 1) rules s'
    | .select s' => { state := s', selectedRule := some rule, selectedRuleIndex := i }
    | .fatal s' err => { state := s', fatalErr := some err }

def matchRule (m : InboundContext E) (input : Input) : MatchResult E :=
  match r.prepareMatchMetadata m with
  | .error err => { state := { metadata := m, input }, fatalErr := some err }
  | .ok m => r.matchRules 0 r.rules { metadata := m, input }

/-! ## Outbounds -/

def unsupported (network : Network) (o : Outbound) : String :=
  network.upper ++ " is not supported by outbound: " ++ o.tag

/-- the loop of `resolveOutbound`; the fuel is the number of outbounds, which a chain without repetition never exceeds -/
def resolveLoop (network : Network) : ℕ → ℕ → List ℕ → Except String (List ℕ)
  | 0, _, _ => .error "outbound group cycle"
  | fuel + 1, outbound, chain =>
    match r.outbounds[outbound]? with
    | none => .error "missing outbound"
    | some o =>
      match o.selected with
      | none => if o.networks.contains network then .ok chain else .error (unsupported network o)
      | some selected =>
        match selected network with
        | none => .error (unsupported network o)
        | some member =>
          if chain.contains member then
            .error ("outbound group cycle at: " ++ (r.outbounds[member]?.map Outbound.tag).getD "")
          else resolveLoop network fuel member (chain ++ [member])

def resolveOutbound (outbound : Option ℕ) (network : Network) : Except String (List ℕ) :=
  match outbound with
  | none => .error "missing outbound"
  | some o => r.resolveLoop network r.outbounds.length o [o]

/-! ## Handing the connection on -/

/-- who gets the connection; `nat` is the address pair of the fake-IP connection that the outbound reads through -/
inductive Dispatch (E α : Type) where
  | inject (detour : String) (conn : Reader α) (metadata : InboundContext E)
  | hijackDNS (conn : Reader α) (metadata : InboundContext E)
  | outbound (chain : List ℕ) (conn : Reader α) (nat : Option (Socksaddr × Socksaddr)) (metadata : InboundContext E)
  | failed (err : String)

def matchesRules (m : InboundContext E) : Bool :=
  m.inboundDetour = "" && !(m.inboundType = "tun" && m.sniffed.protocol = "dns")

def detour {α : Type} (injectable : Injectable → Bool) (network : Network) (m : InboundContext E) (conn : Reader α) :
    Dispatch E α :=
  if m.lastInbound = m.inboundDetour then .failed ("routing loop on detour: " ++ m.inboundDetour)
  else match r.inbounds m.inboundDetour with
  | none => .failed ("inbound detour not found: " ++ m.inboundDetour)
  | some i =>
    if injectable i then
      .inject m.inboundDetour conn { m with lastInbound := m.inbound, inbound := m.inboundDetour, inboundDetour := "" }
    else .failed ("inbound detour is not " ++ network.upper ++ " injectable: " ++ m.inboundDetour)

def loadOutbound (outbound : String) : Except String (Option ℕ) :=
  match r.outbound outbound with
  | some o => .ok (some o)
  | none => .error ("outbound not found: " ++ outbound)

def selectOutbound (network : Network) (rule : Option (Rule E)) : Except String (Option ℕ) :=
  match rule.map Rule.action with
  | none => .ok r.default
  | some (.route outbound _) => r.loadOutbound outbound
  | some (.bypass outbound _) => if outbound = "" then .ok none else r.loadOutbound outbound
  | some (.reject method noDrop) =>
    match r.rejectError method noDrop with
    | some _ => .error "rejected"
    | none => .error ("reject method `reply` is not supported for " ++ network.upper ++ " connections")
  | some _ => .ok none

/-- the outbound part of routing, with the connection after its buffers were put back -/
def dispatchOutbound {α : Type} (network : Network) (rule : Option (Rule E)) (conn : Reader α)
    (nat : Option (Socksaddr × Socksaddr)) (m : InboundContext E) : Dispatch E α :=
  match r.selectOutbound network rule with
  | .error err => .failed err
  | .ok outbound =>
    match r.resolveOutbound outbound network with
    | .error err => .failed err
    | .ok chain =>
      if r.chainSelected chain network then .outbound chain conn nat m
      else .failed "outbound selection changed before dispatch"

def isHijackDNS (rule : Option (Rule E)) : Bool :=
  match rule.map Rule.action with
  | some .hijackDNS => true
  | _ => false

/-- the inbound stream as what is read after matching reads from -/
def streamConn (reads : List StreamRead) : Reader UInt8 := .source (reads.map StreamRead.data)

def packetConn (reads : List PacketRead) : Reader Packet := .source (reads.map PacketRead.data)

def Input.streamConn : Input → Reader UInt8
  | .stream reads => Router.streamConn reads
  | .packets _ => .source []

def Input.packetConn : Input → Reader Packet
  | .stream _ => .source []
  | .packets reads => Router.packetConn reads

def routeConnection (m : InboundContext E) (reads : List StreamRead) : Dispatch E UInt8 :=
  if m.inboundDetour ≠ "" then r.detour Injectable.tcp .tcp m (streamConn reads)
  else
    match r.reserved m.destination.fqdn with
    | some err => .failed err
    | none =>
      let m := { m with network := .tcp }
      if m.inboundType = "tun" ∧ m.sniffed.protocol = "dns" then .hijackDNS (streamConn reads) m
      else
        let result := r.matchRule m (.stream reads)
        match result.fatalErr with
        | some err => .failed err
        | none =>
          -- the buffers are wrapped around the connection one after the other, on both paths
          let conn := Reader.pushAll result.state.buffers (Input.streamConn result.state.input)
          if isHijackDNS result.selectedRule then .hijackDNS conn result.state.metadata
          else r.dispatchOutbound .tcp result.selectedRule conn none result.state.metadata

/-- `NewDNSPacketConnection`: the cached packets, reversed, are answered before the connection is read -/
def newDNSPacketConnection (conn : Reader Packet) (cachedPackets : List Packet) : Reader Packet :=
  .cached cachedPackets.reverse conn

def routePacketConnection (m : InboundContext E) (reads : List PacketRead) : Dispatch E Packet :=
  if m.inboundDetour ≠ "" then r.detour Injectable.udp .udp m (packetConn reads)
  else
    let m := { m with network := .udp }
    if m.inboundType = "tun" ∧ m.sniffed.protocol = "dns" then
      .hijackDNS (newDNSPacketConnection (packetConn reads) []) m
    else
      let result := r.matchRule m (.packets reads)
      match result.fatalErr with
      | some err => .failed err
      | none =>
        let state := result.state
        let conn := Input.packetConn state.input
        if isHijackDNS result.selectedRule then
          .hijackDNS (newDNSPacketConnection conn state.packetBuffers) state.metadata
        else
          -- `slices.Backward`
          let conn := Reader.pushBackward (state.packetBuffers.map fun p => [p]) conn
          let m := state.metadata
          let nat := if m.fakeIP then some (m.originDestination, m.destination) else none
          r.dispatchOutbound .udp result.selectedRule conn nat m

def sample (rules : List (Rule Unit)) : Router Unit where
  rules
  isValid a := a.addr.isSome || a.fqdn ≠ ""
  isDomain a := a.addr.isNone && a.fqdn ≠ ""
  isIPv4 a := (a.addr.map Addr.is4).getD false
  isIPv6 a := (a.addr.map fun x => !x.is4).getD false
  isDomainName s := s ≠ ""
  searchSource _ _ _ rest := rest
  fakeIPStore := none
  lookupReverseMapping _ := none
  hasTransport _ := false
  lookup _ _ _ := .error "no DNS"
  defaultStreamSniffers := []
  defaultPacketSniffers := []
  quicClientHello _ s := (none, s)
  inbounds _ := none
  reserved _ := none
  -- a WireGuard endpoint takes every flow
  outbounds := [{ tag := "wg", networks := [.tcp, .udp, .icmp], preMatchFlow := some fun _ _ => .flow }]
  outbound tag := if tag = "wg" then some 0 else none
  noEmptyTag := rfl
  default := some 0
  chainSelected _ _ := true
  rejectError
    | .default, _ => some .reset
    | .drop, _ => some .drop
    | .reply, _ => none

end Router

end EtonifyCore.Route
