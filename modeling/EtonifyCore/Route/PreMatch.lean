/-
Pre-matching: the verdict on a flow before there is a connection (`PreMatch` in `route/route.go`).

`PreMatch` walks the route rules on its own and may hand the flow to an outbound, with the destination rewritten. If there is
no such verdict, the connection is routed by `matchRule`. The two walks must come to the same result.

`Sync`: their metadata agree, up to the fields that only `matchRule` keeps; each rule that is passed keeps them in step. The
difference: an override address clears the resolved addresses in `matchRule` only, and a `route` action without outbound means
the default outbound for `PreMatch`, and an error for routing.

Premises: rule items and resolve actions give the same answers in both walks (`SameAnswers`); the flow is not ICMP.
-/
import EtonifyCore.Route.Router

namespace EtonifyCore.Route

open EtonifyCore.RuleMatch (Addr Socksaddr)

variable {E : Type}

/-! ## The verdict -/

/-- the verdict; `matchedRule` is the rule that the trackers of the flow are told, with its number -/
structure PreMatchResult (E : Type) where
  action : PreMatchAction
  outbound : Option ℕ := none
  destination : Option (Option Addr × ℕ) := none
  udpTimeout : ℕ := 0
  matchedRule : Option (ℕ × Rule E) := none

def continueResult : PreMatchResult E := { action := .continue }

def portProtocol (port : ℕ) : String :=
  if port = 53 then "dns" else if port = 123 then "ntp" else if port = 3478 then "stun"
  else if port = 443 then "quic" else ""

def protocolTimeout (protocol : String) : ℕ :=
  if protocol = "dns" ∨ protocol = "ntp" ∨ protocol = "stun" then 10
  else if protocol = "quic" ∨ protocol = "dtls" then 30
  else 0

def flowTimeout (m : InboundContext E) : ℕ :=
  if m.network ≠ .udp then 0
  else if m.dial.udpTimeout > 0 then m.dial.udpTimeout
  else protocolTimeout (if m.sniffed.protocol = "" then portProtocol m.destination.port else m.sniffed.protocol)

namespace Router

variable (r : Router E)

def newDestination (packetDestination : Socksaddr) (m : InboundContext E) : Option Addr :=
  m.destinationAddresses.find? fun address => address.is4 = r.isIPv4 packetDestination

def leafFlow (m : InboundContext E) (packetDestination : Socksaddr) (rule : Option (ℕ × Rule E)) (leaf : ℕ)
    (flow : Network → Option Addr → PreMatchAction) : PreMatchResult E :=
  let action := flow m.network m.destination.addr
  let result : PreMatchResult E :=
    { action := .flow, outbound := some leaf, udpTimeout := flowTimeout m, matchedRule := rule }
  if action ≠ .flow then { action, outbound := some leaf }
  else if r.isDomain m.destination then
    if m.fakeIP = false then continueResult
    else match r.newDestination packetDestination m with
    | none => { action := .reject }
    | some address =>
      let action := flow m.network (some address)
      if action ≠ .flow then { action, outbound := some leaf }
      else { result with destination := some (some address, m.destination.port) }
  else if m.destination ≠ packetDestination then
    { result with destination := some (m.destination.addr, m.destination.port) }
  else result

def flowOutbound (tag : String) : Option (Option ℕ) :=
  if tag = "" then some r.default else (r.outbound tag).map some

def preMatchFlow (m : InboundContext E) (packetDestination : Socksaddr) (rule : Option (ℕ × Rule E)) (tag : String) :
    PreMatchResult E :=
  match r.flowOutbound tag with
  | none => continueResult
  | some outbound =>
    match r.resolveOutbound outbound m.network with
    | .error _ => continueResult
    | .ok chain =>
      match chain.getLast? with
      | none => continueResult
      | some leaf =>
        match r.outbounds[leaf]?.bind Outbound.preMatchFlow with
        | none => continueResult
        | some flow => r.leafFlow m packetDestination rule leaf flow

/-! ## The walk -/

/-- what a rule does to the walk: it goes on, or there is a verdict -/
inductive PreStep (E : Type) where
  | pass (m : InboundContext E)
  | done (result : PreMatchResult E)

def preSniff (firstPacket : Bytes) (a : RuleActionSniff) (m : InboundContext E) : PreStep E :=
  if m.network = .icmp then .pass m
  else if m.network ≠ .udp ∨ firstPacket = [] then .done continueResult
  else if skipSniff m || m.sniffed.protocol ≠ "" then .pass m
  else if a.packetSniffers.isEmpty && !a.streamSniffers.isEmpty then .pass m
  else if m.snifferNames = a.snifferNames ∧ m.sniffError ≠ [] then .pass m
  else
    let result := peekPacket firstPacket (r.packetSniffers a) m.sniffed
    if needsMoreData result.1 then .done continueResult
    else .pass (r.overrideSniffed a result.1 (m.sniffedBy a result))

def rewritten (packetDestination : Socksaddr) (m : InboundContext E) : Bool :=
  r.isDomain m.destination || m.destination ≠ packetDestination

def preBypass (packetDestination : Socksaddr) (rule : ℕ × Rule E) (outbound : String) (m : InboundContext E) :
    PreMatchResult E :=
  if outbound = "" then
    if r.rewritten packetDestination m then continueResult else { action := .bypass }
  else
    let result := r.preMatchFlow m packetDestination (some rule) outbound
    if r.rewritten packetDestination m then result
    else if result.action ≠ .flow then { action := .bypass }
    else { result with action := .bypass }

def preReject (m : InboundContext E) (err : Option RejectError) : PreMatchResult E :=
  match err with
  | none => if m.network = .icmp then continueResult else { action := .reject }
  | some .drop => { action := .drop }
  | some .reset => { action := .reject }

def preAction (packetDestination : Socksaddr) (firstPacket : Bytes) (i : ℕ) (rule : Rule E) (m : InboundContext E) :
    PreStep E :=
  match rule.action with
  | .sniff a => r.preSniff firstPacket a m
  | .routeOptions o => .pass (r.applyRouteOptionsOverride o m)
  | .route outbound o =>
    .done (r.preMatchFlow (r.applyRouteOptionsOverride o m) packetDestination (some (i, rule)) outbound)
  | .bypass outbound o =>
    .done (r.preBypass packetDestination (i, rule) outbound (r.applyRouteOptionsOverride o m))
  | .reject method noDrop => .done (preReject m (r.rejectError method noDrop))
  | .hijackDNS => .done (if m.network ≠ .udp then continueResult else { action := .hijackDNS })
  | .resolve a =>
    match r.actionResolve a m with
    | .ok m' => .pass m'
    | .error _ => .done { action := .reject }
  | .direct => .done continueResult

def preStep (packetDestination : Socksaddr) (firstPacket : Bytes) (i : ℕ) (rule : Rule E) (m : InboundContext E) :
    PreStep E :=
  if rule.matchOn m.view then r.preAction packetDestination firstPacket i rule m else .pass m

def preMatchRules (packetDestination : Socksaddr) (firstPacket : Bytes) :
    ℕ → List (Rule E) → InboundContext E → PreMatchResult E
  | _, [], m => r.preMatchFlow m packetDestination none ""
  | i, rule :: rules, m =>
    match r.preStep packetDestination firstPacket i rule m with
    | .pass m' => preMatchRules packetDestination firstPacket (i + 1) rules m'
    | .done result => result

def preMatch (m : InboundContext E) (firstPacket : Bytes) : PreMatchResult E :=
  match r.prepareMatchMetadata { m with preMatch := true } with
  | .error _ => continueResult
  | .ok m' => r.preMatchRules m.destination firstPacket 0 r.rules m'

/-! ## Agreement -/

def flowDestination (packetDestination : Socksaddr) (m : InboundContext E) : Option (Option Addr × ℕ) :=
  if r.isDomain m.destination then
    (r.newDestination packetDestination m).map fun address => (some address, m.destination.port)
  else if m.destination ≠ packetDestination then some (m.destination.addr, m.destination.port)
  else none

/-- routing comes to the same result as pre-matching: rule, leaf outbound and destination -/
structure Agrees (network : Network) (packetDestination : Socksaddr) (matched : MatchResult E)
    (result : PreMatchResult E) : Prop where
  noError : matched.fatalErr = none
  rule : matched.selectedRule.map (fun rule => (matched.selectedRuleIndex, rule)) = result.matchedRule
  outbound : ∃ outbound chain, r.selectOutbound network matched.selectedRule = .ok outbound ∧
    r.resolveOutbound outbound network = .ok chain ∧ chain.getLast? = result.outbound
  destination : r.flowDestination packetDestination matched.state.metadata = result.destination

structure SameAnswers : Prop where
  matchOn : ∀ rule ∈ r.rules, ∀ (v : RuleView E) (p : Bool), rule.matchOn { v with preMatch := p } = rule.matchOn v
  lookup : ∀ (v : RuleView E) (p : Bool) (fqdn : String) (a : RuleActionResolve),
    r.lookup { v with preMatch := p } fqdn a = r.lookup v fqdn a

/-- the options override the address while there are resolved addresses, which only `matchRule` forgets -/
def Forgets (o : RouteOptions) (m : InboundContext E) : Prop :=
  r.isValid o.overrideAddress = true ∧ m.destinationAddresses ≠ []

/-- the sniff action does not skip this connection -/
def sniffRuns (a : RuleActionSniff) (m : InboundContext E) : Prop :=
  ¬(skipSniff m || decide (m.sniffed.protocol ≠ "")) ∧ ¬(a.packetSniffers.isEmpty && !a.streamSniffers.isEmpty)

def StepClean (rule : Rule E) (m : InboundContext E) : Prop :=
  rule.matchOn m.view = true →
    match rule.action with
    | .routeOptions o => ¬r.Forgets o m
    | .sniff a => sniffRuns a m → quicMoreData a m = false
    | _ => True

/-- no rule that `PreMatch` passes makes the difference -/
def UndisturbedFrom (packetDestination : Socksaddr) (firstPacket : Bytes) : ℕ → List (Rule E) → InboundContext E → Prop
  | _, [], _ => True
  | i, rule :: rules, m =>
    match r.preStep packetDestination firstPacket i rule m with
    | .pass m' => r.StepClean rule m ∧ UndisturbedFrom packetDestination firstPacket (i + 1) rules m'
    | .done _ => True

/-- the deciding rule names an outbound, and no forgotten address becomes the destination -/
def DecisionClean (rule : Rule E) (m : InboundContext E) : Prop :=
  match rule.action with
  | .route outbound o =>
    outbound ≠ "" ∧ ¬(r.Forgets o m ∧ r.isDomain (r.applyRouteOptionsOverride o m).destination = true)
  | .bypass _ o => ¬(r.Forgets o m ∧ r.isDomain (r.applyRouteOptionsOverride o m).destination = true)
  | _ => True

def DecisionSoundFrom (packetDestination : Socksaddr) (firstPacket : Bytes) :
    ℕ → List (Rule E) → InboundContext E → Prop
  | _, [], _ => True
  | i, rule :: rules, m =>
    match r.preStep packetDestination firstPacket i rule m with
    | .pass m' => DecisionSoundFrom packetDestination firstPacket (i + 1) rules m'
    | .done _ => r.DecisionClean rule m

def Prepared (p : InboundContext E → Prop) (m : InboundContext E) : Prop :=
  ∀ m', r.prepareMatchMetadata { m with preMatch := true } = .ok m' → p m'

def Undisturbed (m : InboundContext E) (firstPacket : Bytes) : Prop :=
  r.Prepared (r.UndisturbedFrom m.destination firstPacket 0 r.rules) m

def DecisionSound (m : InboundContext E) (firstPacket : Bytes) : Prop :=
  r.Prepared (r.DecisionSoundFrom m.destination firstPacket 0 r.rules) m

/-! ## The two walks in step -/

/-- what `matchRule` forgets when the options override the address -/
def forget (o : RouteOptions) (m : InboundContext E) : InboundContext E :=
  if r.isValid o.overrideAddress then { m with destinationAddresses := [] } else m

theorem applyRouteOptionsOverride_destinationAddresses (o : RouteOptions) (m : InboundContext E) :
    (r.applyRouteOptionsOverride o m).destinationAddresses = m.destinationAddresses := by
  rw [applyRouteOptionsOverride]
  dsimp only
  split_ifs <;> rfl

variable {o : RouteOptions}

theorem forget_eq {m : InboundContext E} (h : ¬r.Forgets o m) :
    r.forget o (r.applyRouteOptionsOverride o m) = r.applyRouteOptionsOverride o m := by
  rw [forget]
  split_ifs with hvalid
  · have haddresses : m.destinationAddresses = [] := by
      by_contra hne
      exact h ⟨hvalid, hne⟩
    rw [← r.applyRouteOptionsOverride_destinationAddresses o m] at haddresses
    rw [← haddresses]
  · rfl

end Router

/-- equal up to the fields that only one of the walks sets -/
def Same (m m' : InboundContext E) : Prop :=
  ∃ (p : Bool) (origin : Socksaddr) (dial : DialOptions),
    m' = { m with preMatch := p, routeOriginalDestination := origin, dial := dial }

namespace Same

variable {m m' : InboundContext E} (r : Router E)

variable {rule : Rule E}

theorem matchOn (hsame : r.SameAnswers) (h : Same m m') (hrule : rule ∈ r.rules) :
    rule.matchOn m'.view = rule.matchOn m.view := by
  obtain ⟨p, origin, dial, rfl⟩ := h
  exact hsame.matchOn rule hrule m.view p

section

variable (h : Same m m')
include h

theorem applyRouteOptions (o : RouteOptions) :
    Same (r.forget o (r.applyRouteOptionsOverride o m)) (r.applyRouteOptions o m') := by
  obtain ⟨p, origin, dial, rfl⟩ := h
  rw [Router.forget, Router.applyRouteOptions, Router.applyRouteOptionsOverride]
  dsimp only
  rw [Router.applyRouteOptionsOverride]
  dsimp only
  split_ifs <;> exact ⟨_, _, _, rfl⟩

theorem sniffedBy (a : RuleActionSniff) (result : SniffError × Sniffed) :
    Same (m.sniffedBy a result) (m'.sniffedBy a result) := by
  obtain ⟨p, origin, dial, rfl⟩ := h
  exact ⟨_, _, _, rfl⟩

theorem overrideSniffed (a : RuleActionSniff) (err : SniffError) :
    Same (r.overrideSniffed a err m) (r.overrideSniffed a err m') := by
  obtain ⟨p, origin, dial, rfl⟩ := h
  rw [Router.overrideSniffed, Router.overrideSniffed]
  split_ifs <;> exact ⟨_, _, _, rfl⟩

theorem destination : m'.destination = m.destination := by
  obtain ⟨p, origin, dial, rfl⟩ := h
  rfl

theorem sniffed : m'.sniffed = m.sniffed := by
  obtain ⟨p, origin, dial, rfl⟩ := h
  rfl

theorem skipSniff : skipSniff m' = skipSniff m := by
  obtain ⟨p, origin, dial, rfl⟩ := h
  rfl

theorem sniffFailed (a : RuleActionSniff) : Router.sniffFailed a m' = Router.sniffFailed a m := by
  obtain ⟨p, origin, dial, rfl⟩ := h
  rfl

theorem quicMoreData (a : RuleActionSniff) : Router.quicMoreData a m' = Router.quicMoreData a m := by
  obtain ⟨p, origin, dial, rfl⟩ := h
  rfl

end

theorem lookup (hsame : r.SameAnswers) (h : Same m m') (fqdn : String) (a : RuleActionResolve) :
    r.lookup m'.view fqdn a = r.lookup m.view fqdn a := by
  obtain ⟨p, origin, dial, rfl⟩ := h
  exact hsame.lookup m.view p fqdn a

variable {n : InboundContext E}

theorem actionResolve (hsame : r.SameAnswers) (h : Same m m') {a : RuleActionResolve}
    (hresolve : r.actionResolve a m = .ok n) : ∃ n', r.actionResolve a m' = .ok n' ∧ Same n n' := by
  rw [Router.actionResolve] at hresolve ⊢
  rw [h.destination, h.lookup r hsame]
  split_ifs at hresolve ⊢ with hdomain hserver
  · cases hanswer : r.lookup m.view m.destination.fqdn a with
    | error err => rw [hanswer] at hresolve; cases hresolve
    | ok addresses =>
      rw [hanswer] at hresolve
      obtain rfl := Except.ok.inj hresolve
      obtain ⟨p, origin, dial, rfl⟩ := h
      exact ⟨_, rfl, _, _, _, rfl⟩
  · obtain rfl := Except.ok.inj hresolve
    exact ⟨_, rfl, h⟩

theorem reverseMapped (h : Same m m') : Same (r.reverseMapped m) (r.reverseMapped m') := by
  obtain ⟨p, origin, dial, rfl⟩ := h
  rw [Router.reverseMapped, Router.reverseMapped]
  dsimp only
  split_ifs
  · cases r.lookupReverseMapping m.destination.addr <;> exact ⟨_, _, _, rfl⟩
  · exact ⟨_, _, _, rfl⟩

theorem setIPVersion (h : Same m m') : Same (r.setIPVersion m) (r.setIPVersion m') := by
  obtain ⟨p, origin, dial, rfl⟩ := h
  rw [Router.setIPVersion, Router.setIPVersion]
  split_ifs <;> exact ⟨_, _, _, rfl⟩

theorem resolveFakeIP (h : Same m m') (hresolve : r.resolveFakeIP m = .ok n) :
    ∃ n', r.resolveFakeIP m' = .ok n' ∧ Same n n' := by
  have hmapped := h.reverseMapped r
  rw [Router.resolveFakeIP] at hresolve ⊢
  rw [h.destination]
  cases haddr : m.destination.addr with
  | none =>
    rw [haddr] at hresolve
    obtain rfl := Except.ok.inj hresolve
    exact ⟨_, rfl, hmapped⟩
  | some addr =>
    rw [haddr] at hresolve
    cases hstore : r.fakeIPStore with
    | none =>
      rw [hstore] at hresolve
      obtain rfl := Except.ok.inj hresolve
      exact ⟨_, rfl, hmapped⟩
    | some store =>
      rw [hstore] at hresolve
      dsimp only at hresolve ⊢
      split_ifs at hresolve ⊢ with hcontains
      · cases hlookup : store.lookup addr with
        | none => rw [hlookup] at hresolve; cases hresolve
        | some domain =>
          rw [hlookup] at hresolve
          dsimp only at hresolve ⊢
          split_ifs at hresolve ⊢ with hdomain
          · obtain rfl := Except.ok.inj hresolve
            exact ⟨_, rfl, h⟩
          · obtain rfl := Except.ok.inj hresolve
            obtain ⟨p, origin, dial, rfl⟩ := h
            exact ⟨_, rfl, _, _, _, rfl⟩
      · obtain rfl := Except.ok.inj hresolve
        exact ⟨_, rfl, hmapped⟩

theorem prepareMatchMetadata (h : Same m m') (hprepare : r.prepareMatchMetadata m = .ok n) :
    ∃ n', r.prepareMatchMetadata m' = .ok n' ∧ Same n n' := by
  have hsearch : Same { m with rest := r.searchSource m.network m.originDestination m.destination m.rest }
      { m' with rest := r.searchSource m'.network m'.originDestination m'.destination m'.rest } := by
    obtain ⟨p, origin, dial, rfl⟩ := h
    exact ⟨_, _, _, rfl⟩
  rw [Router.prepareMatchMetadata] at hprepare ⊢
  cases hresolve : r.resolveFakeIP
      { m with rest := r.searchSource m.network m.originDestination m.destination m.rest } with
  | error err => rw [hresolve] at hprepare; cases hprepare
  | ok n₀ =>
    rw [hresolve] at hprepare
    obtain rfl := Except.ok.inj hprepare
    obtain ⟨n', hn', hsame⟩ := hsearch.resolveFakeIP r hresolve
    rw [hn']
    exact ⟨_, rfl, hsame.setIPVersion r⟩

end Same

/-- the walks are in step: their metadata agree, and `matchRule` has read at most the first packet -/
structure Sync (network : Network) (first : Packet) (rest : List PacketRead) (m : InboundContext E) (s : Matched E) :
    Prop where
  same : Same m s.metadata
  network : m.network = network
  buffered : (s.packetBuffers = [] ∧ s.input = .packets (.packet first :: rest)) ∨
    (s.packetBuffers = [first] ∧ s.input = .packets rest)

namespace Router

variable (r : Router E) {network : Network} {first : Packet} {rest : List PacketRead}
variable {m m' : InboundContext E} {s : Matched E}

variable {a : RuleActionSniff}

theorem actionSniff_first (hbuffered : (s.packetBuffers = [] ∧ s.input = .packets (.packet first :: rest)) ∨
      (s.packetBuffers = [first] ∧ s.input = .packets rest))
    (hskip : ¬(skipSniff s.metadata || decide (s.metadata.sniffed.protocol ≠ "")))
    (hrun : ¬((a.packetSniffers.isEmpty && !a.streamSniffers.isEmpty) || sniffFailed a s.metadata))
    (hmore : ¬needsMoreData (r.sniffPacket a s.metadata first.payload).sniffError) : r.actionSniff a s = ({ s with
        metadata := r.overrideSniffed a (r.sniffPacket a s.metadata first.payload).sniffError
          (r.sniffPacket a s.metadata first.payload)
        input := .packets rest
        packetBuffers := [first] }, none) := by
  obtain ⟨metadata, input, buffers, packetBuffers⟩ := s
  rw [actionSniff, if_neg hskip]
  rcases hbuffered with ⟨hbuffers, hinput⟩ | ⟨hbuffers, hinput⟩
  · obtain rfl : packetBuffers = [] := hbuffers
    obtain rfl : input = .packets (.packet first :: rest) := hinput
    dsimp only
    rw [if_neg hrun, sniffBuffered]
    dsimp only
    rw [sniffReads, if_neg hmore]
    rfl
  · obtain rfl : packetBuffers = [first] := hbuffers
    obtain rfl : input = .packets rest := hinput
    dsimp only
    rw [if_neg hrun, sniffBuffered, if_neg hmore]

theorem actionSniff_skip {reads : List PacketRead} (hinput : s.input = .packets reads)
    (hskip : (skipSniff s.metadata || decide (s.metadata.sniffed.protocol ≠ "")) ∨
      ((a.packetSniffers.isEmpty && !a.streamSniffers.isEmpty) || sniffFailed a s.metadata)) :
    r.actionSniff a s = (s, none) := by
  obtain ⟨metadata, input, buffers, packetBuffers⟩ := s
  obtain rfl : input = .packets reads := hinput
  rw [actionSniff]
  by_cases hskipped : (skipSniff metadata || decide (metadata.sniffed.protocol ≠ ""))
  · rw [if_pos hskipped]
  · rw [if_neg hskipped]
    dsimp only
    rw [if_pos (hskip.resolve_left hskipped)]

theorem sniffPacket_eq (hquic : quicMoreData a m = false) (data : Bytes) :
    r.sniffPacket a m data = m.sniffedBy a (peekPacket data (r.packetSniffers a) m.sniffed) := by
  rw [sniffPacket, hquic, if_neg Bool.false_ne_true]

theorem sniffFailed_eq (hquic : quicMoreData a m = false) :
    sniffFailed a m ↔ m.snifferNames = a.snifferNames ∧ m.sniffError ≠ [] := by
  rw [quicMoreData] at hquic
  rw [sniffFailed]
  by_cases hnames : m.snifferNames = a.snifferNames
  · simp only [hnames, decide_true, Bool.true_and] at hquic ⊢
    simp [hquic]
  · simp [hnames]

theorem sniff_sync (hicmp : network ≠ .icmp) (hsync : Sync network first rest m s)
    (hclean : sniffRuns a m → quicMoreData a m = false) (hstep : r.preSniff first.payload a m = .pass m') :
    ∃ s', r.actionSniff a s = (s', none) ∧ Sync network first rest m' s' := by
  obtain ⟨hsame, hnetwork, hbuffered⟩ := hsync
  obtain ⟨reads, hinput⟩ : ∃ reads, s.input = .packets reads := by
    rcases hbuffered with ⟨-, hinput⟩ | ⟨-, hinput⟩
    · exact ⟨_, hinput⟩
    · exact ⟨_, hinput⟩
  have hskipped : (Route.skipSniff m || decide (m.sniffed.protocol ≠ "")) ∨
        ((a.packetSniffers.isEmpty && !a.streamSniffers.isEmpty) || sniffFailed a m) →
      ∃ s', r.actionSniff a s = (s', none) ∧ Sync network first rest m s' := by
    intro hskip
    rw [← hsame.skipSniff, ← hsame.sniffed, ← hsame.sniffFailed] at hskip
    exact ⟨s, r.actionSniff_skip hinput hskip, hsame, hnetwork, hbuffered⟩
  rw [preSniff, if_neg (hnetwork ▸ hicmp)] at hstep
  split_ifs at hstep with hudp hskip hkind hnames
  · obtain rfl := PreStep.pass.inj hstep
    exact hskipped (.inl hskip)
  · obtain rfl := PreStep.pass.inj hstep
    exact hskipped (.inr (by rw [hkind, Bool.true_or]))
  · obtain rfl := PreStep.pass.inj hstep
    have hquic := hclean ⟨hskip, hkind⟩
    exact hskipped (.inr (by rw [(sniffFailed_eq hquic).2 hnames, Bool.or_true]))
  · have hquic := hclean ⟨hskip, hkind⟩
    dsimp only at hstep
    split_ifs at hstep with hmore
    have hpacket : r.sniffPacket a s.metadata first.payload =
        s.metadata.sniffedBy a (peekPacket first.payload (r.packetSniffers a) m.sniffed) := by
      rw [r.sniffPacket_eq (hsame.quicMoreData a ▸ hquic), hsame.sniffed]
    have hrun : ¬((a.packetSniffers.isEmpty && !a.streamSniffers.isEmpty) || sniffFailed a s.metadata) := by
      rw [hsame.sniffFailed, Bool.or_eq_true, not_or]
      exact ⟨hkind, fun hfailed => hnames ((sniffFailed_eq hquic).1 hfailed)⟩
    rw [← hsame.skipSniff, ← hsame.sniffed] at hskip
    refine ⟨_, r.actionSniff_first hbuffered hskip hrun (by rw [hpacket]; exact hmore), ?_, ?_, .inr ⟨rfl, rfl⟩⟩
    · rw [hpacket, ← PreStep.pass.inj hstep]
      exact (hsame.sniffedBy a _).overrideSniffed r a _
    · rw [← PreStep.pass.inj hstep, overrideSniffed]
      split_ifs <;> exact hnetwork

theorem applyRouteOptionsOverride_network (o : RouteOptions) (m : InboundContext E) :
    (r.applyRouteOptionsOverride o m).network = m.network := by
  rw [applyRouteOptionsOverride]
  dsimp only
  split_ifs <;> rfl

theorem actionResolve_network {a : RuleActionResolve} (h : r.actionResolve a m = .ok m') : m'.network = m.network := by
  rw [actionResolve] at h
  split_ifs at h with hdomain hserver
  · cases hanswer : r.lookup m.view m.destination.fqdn a with
    | error err => rw [hanswer] at h; cases h
    | ok addresses =>
      rw [hanswer] at h
      obtain rfl := Except.ok.inj h
      rfl
  · obtain rfl := Except.ok.inj h
    rfl

variable {pd : Socksaddr}

theorem step_sync (hanswers : r.SameAnswers) (hicmp : network ≠ .icmp) (hsync : Sync network first rest m s)
    {i : ℕ} (hrule : rule ∈ r.rules) (hclean : r.StepClean rule m) (hstep : r.preStep pd first.payload i rule m = .pass m') :
    ∃ s', r.ruleStep rule s = .pass s' ∧ Sync network first rest m' s' := by
  rw [ruleStep, hsync.same.matchOn r hanswers hrule]
  rw [preStep] at hstep
  by_cases hmatch : rule.matchOn m.view
  · have hclean' := hclean hmatch
    rw [if_pos hmatch] at hstep ⊢
    rw [preAction] at hstep
    generalize rule.action = action at hstep hclean' ⊢
    cases action with
    | sniff a =>
      obtain ⟨s', hsniff, hsync'⟩ := r.sniff_sync hicmp hsync hclean' hstep
      refine ⟨s', ?_, hsync'⟩
      rw [actionStep, applyAction, routeOptionsOf, hsniff]
    | routeOptions o =>
      obtain rfl := PreStep.pass.inj hstep
      refine ⟨_, rfl, ?_, ?_, hsync.buffered⟩
      · have hsame := hsync.same.applyRouteOptions r o
        rw [r.forget_eq hclean'] at hsame
        exact hsame
      · rw [applyRouteOptionsOverride_network]
        exact hsync.network
    | resolve a =>
      dsimp only at hstep
      cases hresolve : r.actionResolve a m with
      | error err => rw [hresolve] at hstep; cases hstep
      | ok n =>
        rw [hresolve] at hstep
        obtain rfl := PreStep.pass.inj hstep
        obtain ⟨n', hn', hsame⟩ := hsync.same.actionResolve r hanswers hresolve
        refine ⟨{ s with metadata := n' }, ?_, hsame, ?_, hsync.buffered⟩
        · rw [actionStep, applyAction, routeOptionsOf, hn']
        · rw [r.actionResolve_network hresolve]
          exact hsync.network
    | route outbound o | bypass outbound o | direct | reject method noDrop | hijackDNS => cases hstep
  · rw [if_neg hmatch] at hstep ⊢
    obtain rfl := PreStep.pass.inj hstep
    exact ⟨s, rfl, hsync⟩

/-! ## The verdict and the deciding rule -/

structure FlowVerdict (m : InboundContext E) (pd : Socksaddr) (rule : Option (ℕ × Rule E)) (tag : String)
    (result : PreMatchResult E) : Prop where
  outbound : ∃ outbound chain, r.flowOutbound tag = some outbound ∧ r.resolveOutbound outbound m.network = .ok chain ∧
    chain.getLast? = result.outbound
  rule : result.matchedRule = rule
  destination : result.destination = r.flowDestination pd m
  resolved : r.isDomain m.destination = true → r.newDestination pd m ≠ none

theorem leafFlow_flow {rule : Option (ℕ × Rule E)} {leaf : ℕ}
    {flow : Network → Option Addr → PreMatchAction} (h : (r.leafFlow m pd rule leaf flow).action = .flow) :
    (r.leafFlow m pd rule leaf flow).outbound = some leaf ∧ (r.leafFlow m pd rule leaf flow).matchedRule = rule ∧
      (r.leafFlow m pd rule leaf flow).destination = r.flowDestination pd m ∧
      (r.isDomain m.destination → r.newDestination pd m ≠ none) := by
  rw [leafFlow] at h ⊢
  rw [flowDestination]
  by_cases haction : flow m.network m.destination.addr = .flow
  · rw [if_neg (not_not.2 haction)] at h ⊢
    by_cases hdomain : r.isDomain m.destination
    · rw [if_pos hdomain] at h ⊢
      rw [if_pos hdomain]
      by_cases hfake : m.fakeIP = false
      · rw [if_pos hfake] at h; cases h
      · rw [if_neg hfake] at h ⊢
        cases haddress : r.newDestination pd m with
        | none => rw [haddress] at h; cases h
        | some address =>
          rw [haddress] at h
          dsimp only at h ⊢
          split_ifs at h ⊢ with hagain
          · exact absurd h hagain
          · exact ⟨rfl, rfl, rfl, fun _ => Option.some_ne_none _⟩
    · rw [if_neg hdomain] at h ⊢
      rw [if_neg hdomain]
      split_ifs
      · exact ⟨rfl, rfl, rfl, fun hno => absurd hno hdomain⟩
      · exact ⟨rfl, rfl, rfl, fun hno => absurd hno hdomain⟩
  · rw [if_pos haction] at h
    exact absurd h haction

variable {tag : String}

theorem preMatchFlow_flow {rule : Option (ℕ × Rule E)} (h : (r.preMatchFlow m pd rule tag).action = .flow) :
    r.FlowVerdict m pd rule tag (r.preMatchFlow m pd rule tag) := by
  rw [preMatchFlow] at h ⊢
  cases houtbound : r.flowOutbound tag with
  | none => rw [houtbound] at h; cases h
  | some outbound =>
    rw [houtbound] at h
    dsimp only at h ⊢
    cases hresolve : r.resolveOutbound outbound m.network with
    | error err => rw [hresolve] at h; cases h
    | ok chain =>
      rw [hresolve] at h
      dsimp only at h ⊢
      cases hleaf : chain.getLast? with
      | none => rw [hleaf] at h; cases h
      | some leaf =>
        rw [hleaf] at h
        dsimp only at h ⊢
        cases hflow : r.outbounds[leaf]?.bind Outbound.preMatchFlow with
        | none => rw [hflow] at h; cases h
        | some flow =>
          rw [hflow] at h
          obtain ⟨hleaf', hrule, hdestination, hresolved⟩ := r.leafFlow_flow h
          exact ⟨⟨outbound, chain, houtbound, hresolve, hleaf.trans hleaf'.symm⟩, hrule, hdestination, hresolved⟩

theorem flowDestination_same (h : Same m n) (pd : Socksaddr) : r.flowDestination pd n = r.flowDestination pd m := by
  obtain ⟨p, origin, dial, rfl⟩ := h
  rfl

variable {result : PreMatchResult E}

theorem destination_iff {rule : Option (ℕ × Rule E)}
    (hverdict : r.FlowVerdict (r.applyRouteOptionsOverride o m) pd rule tag result)
    (hsame : Same (r.forget o (r.applyRouteOptionsOverride o m)) n) : r.flowDestination pd n = result.destination ↔
      ¬(r.Forgets o m ∧ r.isDomain (r.applyRouteOptionsOverride o m).destination) := by
  have haddresses := r.applyRouteOptionsOverride_destinationAddresses o m
  rw [r.flowDestination_same hsame, hverdict.destination, Forgets, ← haddresses]
  have hresolved := hverdict.resolved
  generalize r.applyRouteOptionsOverride o m = m₁ at hresolved ⊢
  by_cases hvalid : r.isValid o.overrideAddress
  · have hforget : r.forget o m₁ = { m₁ with destinationAddresses := [] } := if_pos hvalid
    rw [hforget, flowDestination, flowDestination]
    by_cases hdomain : r.isDomain m₁.destination
    · -- `matchRule` has no address left, `PreMatch` has found one
      obtain ⟨address, haddress⟩ := Option.ne_none_iff_exists'.1 (hresolved hdomain)
      have hne : m₁.destinationAddresses ≠ [] := by
        intro hnil
        rw [newDestination, hnil] at haddress
        cases haddress
      rw [if_pos hdomain, if_pos hdomain, haddress]
      constructor
      · intro heq
        cases heq
      · intro hno
        exact absurd ⟨⟨hvalid, hne⟩, hdomain⟩ hno
    · rw [if_neg hdomain, if_neg hdomain]
      exact ⟨fun _ hno => hdomain hno.2, fun _ => rfl⟩
  · have hforget : r.forget o m₁ = m₁ := if_neg hvalid
    rw [hforget]
    exact ⟨fun _ hno => hvalid hno.1.1, fun _ => rfl⟩

theorem loadOutbound_flow {outbound : Option ℕ} (htag : tag ≠ "")
    (h : r.flowOutbound tag = some outbound) : r.loadOutbound tag = .ok outbound := by
  rw [flowOutbound, if_neg htag] at h
  rw [loadOutbound]
  cases hload : r.outbound tag with
  | none => rw [hload] at h; cases h
  | some o =>
    rw [hload] at h
    rw [← Option.some.inj h]

theorem agrees_iff {i : ℕ} (hsync : Sync network first rest m s) (htag : tag ≠ "")
    (hselect : r.selectOutbound network (some rule) = r.loadOutbound tag)
    (hverdict : r.FlowVerdict (r.applyRouteOptionsOverride o m) pd (some (i, rule)) tag result) : r.Agrees network pd
        { state := { s with metadata := r.applyRouteOptions o s.metadata }, selectedRule := some rule,
          selectedRuleIndex := i } result ↔
      ¬(r.Forgets o m ∧ r.isDomain (r.applyRouteOptionsOverride o m).destination) := by
  have hdestination := r.destination_iff hverdict (hsync.same.applyRouteOptions r o)
  constructor
  · intro hagrees
    exact hdestination.1 hagrees.destination
  · intro hclean
    obtain ⟨outbound, chain, houtbound, hresolve, hleaf⟩ := hverdict.outbound
    rw [applyRouteOptionsOverride_network, hsync.network] at hresolve
    refine ⟨rfl, hverdict.rule.symm, ⟨outbound, chain, ?_, hresolve, hleaf⟩, hdestination.2 hclean⟩
    exact hselect.trans (r.loadOutbound_flow htag houtbound)

theorem decide_agrees (hanswers : r.SameAnswers) (hsync : Sync network first rest m s) {i : ℕ}
    {rules : List (Rule E)} (hrule : rule ∈ r.rules)
    (hstep : r.preStep pd first.payload i rule m = .done result) (hflow : result.action = .flow) :
    r.Agrees network pd (r.matchRules i (rule :: rules) s) result ↔ r.DecisionClean rule m := by
  rw [matchRules, ruleStep, hsync.same.matchOn r hanswers hrule]
  rw [preStep] at hstep
  split_ifs at hstep ⊢ with hmatch
  rw [preAction] at hstep
  generalize haction : rule.action = action at hstep ⊢
  cases action with
  | route outbound o =>
    obtain rfl := PreStep.done.inj hstep
    have hverdict := r.preMatchFlow_flow hflow
    have hselect : r.selectOutbound network (some rule) = r.loadOutbound outbound := by
      rw [selectOutbound, Option.map_some, haction]
    rw [DecisionClean, haction, actionStep, applyAction, routeOptionsOf]
    by_cases htag : outbound = ""
    · -- routing does not find an outbound without a tag
      constructor
      · intro hagrees
        obtain ⟨-, -, ⟨_, _, hload, -⟩, -⟩ := hagrees
        rw [hselect, htag, loadOutbound, r.noEmptyTag] at hload
        cases hload
      · rintro ⟨hne, -⟩
        exact absurd htag hne
    · rw [r.agrees_iff hsync htag hselect hverdict]
      exact ⟨fun hclean => ⟨htag, hclean⟩, fun hclean => hclean.2⟩
  | bypass outbound o =>
    obtain rfl := PreStep.done.inj hstep
    rw [preBypass] at hflow ⊢
    by_cases htag : outbound = ""
    · rw [if_pos htag] at hflow
      split_ifs at hflow
      cases hflow
    · rw [if_neg htag] at hflow ⊢
      by_cases hrewritten : r.rewritten pd (r.applyRouteOptionsOverride o m)
      · rw [if_pos hrewritten] at hflow ⊢
        have hselect : r.selectOutbound network (some rule) = r.loadOutbound outbound := by
          rw [selectOutbound, Option.map_some, haction]
          exact if_neg htag
        rw [DecisionClean, haction, actionStep, applyAction, routeOptionsOf, if_pos htag]
        rw [if_neg htag]
        exact r.agrees_iff hsync htag hselect (r.preMatchFlow_flow hflow)
      · rw [if_neg hrewritten] at hflow
        split_ifs at hflow
  | sniff a =>
    dsimp only at hstep
    rw [preSniff] at hstep
    split_ifs at hstep
    · obtain rfl := PreStep.done.inj hstep; cases hflow
    · dsimp only at hstep
      split_ifs at hstep
      obtain rfl := PreStep.done.inj hstep; cases hflow
  | resolve a =>
    dsimp only at hstep
    split at hstep
    · cases hstep
    · obtain rfl := PreStep.done.inj hstep; cases hflow
  | reject method noDrop =>
    obtain rfl := PreStep.done.inj hstep
    unfold preReject at hflow
    split at hflow
    · split_ifs at hflow
      cases hflow
    · cases hflow
    · cases hflow
  | hijackDNS =>
    obtain rfl := PreStep.done.inj hstep
    split_ifs at hflow
    cases hflow
  | direct =>
    obtain rfl := PreStep.done.inj hstep
    cases hflow
  | routeOptions o => cases hstep

theorem walk_agrees (hanswers : r.SameAnswers) (hicmp : network ≠ .icmp) (pd : Socksaddr) (i : ℕ)
    (rules : List (Rule E)) (hrules : ∀ rule ∈ rules, rule ∈ r.rules) (hsync : Sync network first rest m s)
    (hflow : (r.preMatchRules pd first.payload i rules m).action = .flow)
    (hclean : r.UndisturbedFrom pd first.payload i rules m) :
    r.Agrees network pd (r.matchRules i rules s) (r.preMatchRules pd first.payload i rules m) ↔
      r.DecisionSoundFrom pd first.payload i rules m := by
  induction rules generalizing i m s with
  | nil =>
    rw [preMatchRules] at hflow ⊢
    obtain ⟨⟨outbound, chain, houtbound, hresolve, hleaf⟩, hrule, hdestination, -⟩ := r.preMatchFlow_flow hflow
    have hdefault : r.selectOutbound network none = .ok outbound := by
      rw [flowOutbound, if_pos rfl] at houtbound
      rw [← Option.some.inj houtbound]
      rfl
    rw [hsync.network] at hresolve
    refine ⟨fun _ => trivial, fun _ => ⟨rfl, hrule.symm, ⟨outbound, chain, hdefault, hresolve, hleaf⟩, ?_⟩⟩
    exact (r.flowDestination_same hsync.same pd).trans hdestination.symm
  | cons rule rules ih =>
    have hmem : rule ∈ r.rules := hrules rule List.mem_cons_self
    rw [preMatchRules] at hflow ⊢
    rw [UndisturbedFrom] at hclean
    rw [DecisionSoundFrom]
    cases hstep : r.preStep pd first.payload i rule m with
    | pass m' =>
      rw [hstep] at hflow hclean
      obtain ⟨s', hs', hsync'⟩ := r.step_sync hanswers hicmp hsync hmem hclean.1 hstep
      rw [matchRules, hs']
      exact ih (i + 1) (fun rule h => hrules rule (List.mem_cons_of_mem _ h)) hsync' hflow hclean.2
    | done result =>
      rw [hstep] at hflow
      exact r.decide_agrees hanswers hsync hmem hstep hflow

theorem resolveFakeIP_network (h : r.resolveFakeIP m = .ok m') : m'.network = m.network := by
  have hmapped : (r.reverseMapped m).network = m.network := by
    rw [reverseMapped]
    split_ifs
    · split <;> rfl
    · rfl
  rw [resolveFakeIP] at h
  split at h
  · split_ifs at h
    · split at h
      · cases h
      · split_ifs at h
        · rw [← Except.ok.inj h]
        · rw [← Except.ok.inj h]
    · rw [← Except.ok.inj h, hmapped]
  · rw [← Except.ok.inj h, hmapped]

theorem prepareMatchMetadata_network (h : r.prepareMatchMetadata m = .ok m') : m'.network = m.network := by
  rw [prepareMatchMetadata] at h
  cases hresolve : r.resolveFakeIP
      { m with rest := r.searchSource m.network m.originDestination m.destination m.rest } with
  | error err => rw [hresolve] at h; cases h
  | ok n =>
    rw [hresolve] at h
    have hnetwork := r.resolveFakeIP_network hresolve
    rw [← Except.ok.inj h, setIPVersion]
    split_ifs <;> exact hnetwork

/-- **Pre-matching and routing** select the same rule, leaf and destination, if and only if the deciding rule names an
outbound and does not override the address by a domain while there are resolved addresses. -/
theorem preMatch_agrees_iff (r : Router E) (m : InboundContext E) (first : Packet) (rest : List PacketRead)
    (hanswers : r.SameAnswers) (hicmp : m.network ≠ .icmp) (hflow : (r.preMatch m first.payload).action = .flow)
    (hclean : r.Undisturbed m first.payload) :
    r.Agrees m.network m.destination (r.matchRule m (.packets (.packet first :: rest))) (r.preMatch m first.payload) ↔
      r.DecisionSound m first.payload := by
  have hsame : Same { m with preMatch := true } m := ⟨m.preMatch, m.routeOriginalDestination, m.dial, rfl⟩
  rw [preMatch] at hflow ⊢
  cases hprepare : r.prepareMatchMetadata { m with preMatch := true } with
  | error err => rw [hprepare] at hflow; cases hflow
  | ok n =>
    rw [hprepare] at hflow
    obtain ⟨n', hn', hsame'⟩ := hsame.prepareMatchMetadata r hprepare
    have hnetwork := r.prepareMatchMetadata_network hprepare
    have hsync : Sync m.network first rest n { metadata := n', input := .packets (.packet first :: rest) } :=
      ⟨hsame', hnetwork, .inl ⟨rfl, rfl⟩⟩
    have hwalk := r.walk_agrees hanswers hicmp m.destination 0 r.rules (fun _ h => h) hsync hflow (hclean n hprepare)
    rw [matchRule, hn']
    refine hwalk.trans ⟨fun hsound n₁ hn₁ => ?_, fun hsound => hsound n hprepare⟩
    obtain rfl := Except.ok.inj (hprepare.symm.trans hn₁)
    exact hsound

def fakeSample (rules : List (Rule Unit)) : Router Unit :=
  { sample rules with
    fakeIPStore := some { contains := fun _ => true, lookup := fun _ => some "a.example" }
    lookup := fun _ _ _ => .ok [.v4 0xc0000201#32] }

def fakeFlow : InboundContext Unit :=
  { network := .udp, destination := { addr := some (.v4 0xc6120001#32), port := 443 }, rest := () }

def resolveThen (action : RuleAction) : List (Rule Unit) :=
  [{ matchOn := fun _ => true, action := .resolve {} }, { matchOn := fun _ => true, action }]

theorem fakeSample_sameAnswers (action : RuleAction) : (fakeSample (resolveThen action)).SameAnswers where
  matchOn := by
    intro rule hrule v p
    rcases List.mem_cons.1 hrule with rfl | hrule
    · rfl
    · obtain rfl := List.mem_singleton.1 hrule
      rfl
  lookup := fun _ _ _ _ => rfl

theorem preMatch_agrees_resolved :
    (fakeSample (resolveThen (.route "wg" {}))).Agrees .udp fakeFlow.destination
      ((fakeSample (resolveThen (.route "wg" {}))).matchRule fakeFlow (.packets [.packet ⟨[1], {}⟩]))
      ((fakeSample (resolveThen (.route "wg" {}))).preMatch fakeFlow [1]) := by
  refine (preMatch_agrees_iff _ fakeFlow ⟨[1], {}⟩ [] (fakeSample_sameAnswers _) (by decide) rfl ?_).2 ?_
  · intro n hn
    obtain rfl := Except.ok.inj hn
    exact ⟨fun _ => trivial, trivial⟩
  · intro n hn
    obtain rfl := Except.ok.inj hn
    exact ⟨by decide, fun h => absurd h.1.1 (by decide)⟩

/-- The flow is resolved for `a.example`, then overridden by `b.example`: it goes to the address of `a.example`. -/
theorem preMatch_disagrees :
    let r := fakeSample (resolveThen (.route "wg" { overrideAddress := { fqdn := "b.example" } }))
    (r.preMatch fakeFlow [1]).action = .flow ∧
      (r.preMatch fakeFlow [1]).destination = some (some (.v4 0xc0000201#32), 443) ∧
      ¬r.Agrees .udp fakeFlow.destination (r.matchRule fakeFlow (.packets [.packet ⟨[1], {}⟩]))
        (r.preMatch fakeFlow [1]) := by
  refine ⟨rfl, rfl, fun hagrees => ?_⟩
  exact absurd hagrees.destination (by decide)

end Router

end EtonifyCore.Route
