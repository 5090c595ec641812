/-
The DNS client: `Exchange`, `ExchangeAsync` and `Lookup` on a shared cache.

A call stores an `exchangePending` for its cache key, or finds that of another call and waits. The owner looks into the
cache, asks the transport, checks and stores the response and releases the pending exchange: it is removed from the map, the
result is written, and those who wait are told one after the other. These take the error, go on with the response as if the
transport had sent it, or begin again.

Model: an `Op` is one atomic step of a call, a wait or a background refresh, or an event of the environment (a context is
done, a transport answers, the network changes, time passes, an entry is evicted). A retry of `ExchangeAsync` keeps its place
in the table. `slot` is where a key is kept, in memory or in the persistent cache; `reload` is what packing and unpacking a
message gives back. Left out: logging, the capacity of the cache.
-/
import EtonifyCore.Core.Table
import EtonifyCore.DNSClient.Message

namespace EtonifyCore.DNSClient

open Core (Table)

/-! ## Keys -/

/-- `dnsCacheKey` -/
structure CacheKey where
  question : Question
  transportTag : String
  clientSubnet : Prefix
  environment : ℕ
deriving DecidableEq, Repr

/-- `dnsExchangeKey` -/
structure ExchangeKey where
  cacheKey : CacheKey
  timeout : ℕ
deriving DecidableEq, Repr

/-- the digits of `strconv.FormatUint`: first the decimal ones, then the letters -/
def digit36 (d : ℕ) : Char := if d < 10 then Char.ofNat (48 + d) else Char.ofNat (87 + d)

def formatBase36 (n : ℕ) : String :=
  if n = 0 then "0" else String.ofList ((Nat.digits 36 n).reverse.map digit36)

def CacheKey.persistentName (prefixString : Prefix → String) (k : CacheKey) : String :=
  k.transportTag ++
    (if k.clientSubnet.isValid then "\x00" ++ prefixString k.clientSubnet else "") ++
    (if k.environment = 0 then "" else "\x01" ++ formatBase36 k.environment)

/-- where a response is kept: under the key, or in the persistent cache under a transport name, a name and a type -/
inductive Slot where
  | memory (key : CacheKey)
  | persistent (transportName qName : String) (qType : ℕ)
deriving DecidableEq, Repr

/-! ## Client -/

structure Client where
  disableCache : Bool := false
  disableExpire : Bool := false
  optimisticTimeout : ℕ := 0
  clientSubnet : Prefix := {}
  timeout : ℕ := 10
  withRDRC : Bool := false
  persistent : Bool := false
  tag : ℕ → String
  /-- `netip.Prefix.String` -/
  prefixString : Prefix → String := fun _ => ""
  /-- `Msg.Pack` and then `Msg.Unpack` -/
  reload : Msg → Option Msg := some

inductive Err where
  | contextDone
  | transport (id : ℕ)
  | loopback (tag : String)
  | responseRejected
  | responseRejectedCached
  | rcode (rcode : ℕ)
deriving DecidableEq, Repr

structure Outcome where
  response : Option Msg := none
  error : Option Err := none
deriving DecidableEq, Repr

def Outcome.fail (e : Err) : Outcome := { error := some e }

def Outcome.ok (m : Msg) : Outcome := { response := some m }

inductive Kind where
  | exchange
  | exchangeAsync
  | lookup
deriving DecidableEq, Repr

inductive Phase where
  /-- `questionCache` of a lookup -/
  | questioning
  | beginning
  /-- the loop: the key is computed, then the pending exchange is loaded or stored -/
  | keying
  | storing
  | waiting (pending : ℕ)
  /-- `ExchangeAsync` has called `waitAsync` -/
  | waitingAsync (wait : ℕ)
  /-- the callback of `waitAsync` runs, with the error of the context or with none -/
  | resumed (pending : ℕ) (contextError : Bool)
  /-- `continueExchange`: the cache, then the loopback check and the rejected responses -/
  | looking (shared : Option Msg)
  | checking (shared : Option Msg)
  | exchanging
  | finishing (answer : Except Err Msg)
  /-- the pending exchange is released: it is deleted, then finished, then the waits are told -/
  | deleting (response : Option Msg) (error : Option Err) (outcome : Outcome)
  | closing (response : Option Msg) (error : Option Err) (outcome : Outcome)
  | telling (waits : List ℕ) (outcome : Outcome)
  | returning (outcome : Outcome)
  | done

structure Call where
  kind : Kind := .exchange
  transport : ℕ := 0
  /-- the message of the caller -/
  message : Msg := { id := 0 }
  options : DNSQueryOptions := {}
  responseChecker : Option (Msg → Bool) := none
  /-- the transport whose query this call is part of -/
  contextTransport : Option String := none
  contextDone : Bool := false
  phase : Phase := .beginning
  cacheKey : CacheKey := ⟨⟨"", 0, 0⟩, "", {}, 0⟩
  /-- the pending exchange that this call has to release -/
  releasePending : Option ℕ := none
  delivered : List Outcome := []
  /-- the context was done when the transport answered -/
  answeredDone : Bool := false
  /-- the pending exchange whose error was passed on -/
  inherited : Option ℕ := none
deriving Inhabited

structure Pending where
  key : ExchangeKey := ⟨⟨⟨"", 0, 0⟩, "", {}, 0⟩, 0⟩
  owner : ℕ := 0
  finished : Bool := false
  waiters : List ℕ := []
  response : Option Msg := none
  err : Option Err := none
  /-- who has removed it from the map, and who has finished it -/
  removedBy : List ℕ := []
  finishedBy : List ℕ := []
deriving Inhabited

structure Wait where
  call : ℕ := 0
  pending : ℕ := 0
  attached : Bool := false
  fired : Bool := false
  /-- how often the callback has been invoked -/
  releases : ℕ := 0
deriving Inhabited

/-- a stored response; `checker` is that of the call that stored it -/
structure Entry where
  message : Msg
  expireAt : ℕ
  checker : Option (Msg → Bool)

structure Refresh where
  transport : ℕ := 0
  key : CacheKey := ⟨⟨"", 0, 0⟩, "", {}, 0⟩
  message : Msg := { id := 0 }
  options : DNSQueryOptions := {}
  responseChecker : Option (Msg → Bool) := none
  running : Bool := true
deriving Inhabited

structure St where
  now : ℕ := 0
  environment : ℕ → ℕ := fun _ => 0
  cache : Slot → Option Entry := fun _ => none
  rdrc : String → String → ℕ → Bool := fun _ _ _ => false
  cacheLock : ExchangeKey → Option ℕ := fun _ => none
  pendings : Table Pending := .empty
  waits : Table Wait := .empty
  refreshes : Table Refresh := .empty
  calls : Table Call := .empty

structure Request where
  kind : Kind
  transport : ℕ
  message : Msg
  options : DNSQueryOptions := {}
  responseChecker : Option (Msg → Bool) := none
  contextTransport : Option String := none

inductive Answer where
  | response (message : Msg)
  | rcode (rcode : ℕ)
  | error (id : ℕ)

inductive Op where
  | call (request : Request)
  /-- the next step of a call that waits for nobody -/
  | run (c : ℕ)
  | select (c : ℕ) (context : Bool)
  | answer (c : ℕ) (answer : Answer)
  | attach (w : ℕ)
  | wake (w : ℕ)
  | cancel (c : ℕ)
  | refreshAnswer (i : ℕ) (answer : Answer)
  | network (environment : ℕ → ℕ)
  | tick (time : ℕ)
  | evict (slot : Slot)
  | forget (tag name : String) (qtype : ℕ)
  | clearCache

/-! ## Requests -/

def Client.subnet (cl : Client) (options : DNSQueryOptions) : Prefix :=
  if options.clientSubnet.isValid then options.clientSubnet else cl.clientSubnet

def Client.prepareExchangeMessage (cl : Client) (message : Msg) (options : DNSQueryOptions) : Msg :=
  if options.removeClientSubnet then removeClientSubnet message
  else if (cl.subnet options).isValid then setClientSubnet message (cl.subnet options)
  else message

def isSimpleRequest (message : Msg) : Bool :=
  message.question.length == 1 && message.ns.isEmpty &&
    match message.extra with
    | [] => true
    | [record] =>
      record.rrtype == typeOPT && decide (0 < record.rclass) && record.ttl == 0 &&
        match record.data with
        | .opt options => options.all fun option => option.option == edns0SUBNET
        | .soa _ | .https _ | .other _ => false
    | _ => false

def fixedAnswer (message : Msg) (options : DNSQueryOptions) : Option Msg :=
  match message.question with
  | [] => some (fixedResponseStatus message rcodeFormatError)
  | question :: _ =>
    if question.qtype = typeA ∧ options.strategy = .ipv6Only ∨
        question.qtype = typeAAAA ∧ options.strategy = .ipv4Only then
      some (fixedResponseStatus message rcodeSuccess)
    else none

def Msg.firstQuestion (message : Msg) : Question := message.question.headD ⟨"", 0, 0⟩

def Client.newCacheKey (cl : Client) (s : St) (transport : ℕ) (message : Msg) (options : DNSQueryOptions) : CacheKey where
  question := message.firstQuestion
  transportTag := cl.tag transport
  clientSubnet :=
    if options.removeClientSubnet then {}
    else if (cl.subnet options).isValid then cl.subnet options
    else clientSubnetFromMessage message
  environment := s.environment transport

def Client.finishCacheKey (_ : Client) (s : St) (transport : ℕ) (key : CacheKey) : Option CacheKey :=
  if s.environment transport = key.environment ∨ key.environment = 0 then
    some { key with environment := s.environment transport }
  else none

/-! ## Cache -/

def Client.slot (cl : Client) (key : CacheKey) : Slot :=
  if cl.persistent then .persistent (key.persistentName cl.prefixString) key.question.name key.question.qtype
  else .memory key

def Client.storeCache (cl : Client) (s : St) (key : CacheKey) (message : Msg) (timeToLive : ℕ)
    (checker : Option (Msg → Bool)) : St :=
  if timeToLive = 0 ∨ (!cl.persistent && cl.disableCache) = true then s
  else { s with
    cache := Function.update s.cache (cl.slot key) (some { message, expireAt := s.now + timeToLive, checker }) }

def Client.unpack (cl : Client) (message : Msg) : Option Msg := if cl.persistent then cl.reload message else some message

def Client.loadResponse (cl : Client) (s : St) (key : CacheKey) : Option (Msg × Bool) :=
  match s.cache (cl.slot key) with
  | none => none
  | some entry =>
    match cl.unpack entry.message with
    | none => none
    | some response =>
      if cl.disableExpire then some (response, false)
      else if entry.expireAt < s.now then
        if s.now < entry.expireAt + cl.optimisticTimeout then some (normalizeTTL response 1, true) else none
      else some (normalizeTTL response (entry.expireAt - s.now), false)

def Client.backgroundRefreshDNS (_ : Client) (s : St) (refresh : Refresh) : St :=
  if ∃ i ∈ List.range s.refreshes.size, (s.refreshes.get i).running = true ∧ (s.refreshes.get i).key = refresh.key then s
  else { s with refreshes := s.refreshes.push refresh }

/-! ## Calls -/

namespace Call

variable (cl : Client) (k : Call)

def request : Msg := cl.prepareExchangeMessage k.message k.options

def disableCache : Bool := !isSimpleRequest k.message || cl.disableCache || k.options.disableCache

def refresh (key : CacheKey) : Refresh :=
  { transport := k.transport, key, message := k.request cl, options := k.options, responseChecker := k.responseChecker }

def setPhase (phase : Phase) : Call := { k with phase }

def release (response : Option Msg) (error : Option Err) (outcome : Outcome) : Call :=
  match k.releasePending with
  | none => k.setPhase (.returning outcome)
  | some _ => k.setPhase (.deleting response (if k.contextDone then none else error) outcome)

def deliver (outcome : Outcome) : Outcome :=
  match k.kind, outcome.error, outcome.response with
  | .lookup, none, some response =>
    if response.rcode = rcodeSuccess then outcome else .fail (.rcode response.rcode)
  | .lookup, some e, _ => .fail e
  | _, _, _ => outcome

end Call

def unusual (response : Msg) : Bool := response.rcode ≠ rcodeSuccess && response.rcode ≠ rcodeNameError

def rejects (responseChecker : Option (Msg → Bool)) (response : Msg) : Bool :=
  match responseChecker with
  | none => false
  | some checker => unusual response || !checker response

/-- where a call that got no response begins again: `ExchangeAsync` from the start, `Exchange` in the loop -/
def Phase.retry : Kind → Phase
  | .exchangeAsync => .beginning
  | .exchange | .lookup => .keying

namespace St

variable (cl : Client) (s : St)

def setCall (c : ℕ) (k : Call) : St := { s with calls := s.calls.set c k }

def setPending (p : ℕ) (q : Pending) : St := { s with pendings := s.pendings.set p q }

def fire (w : ℕ) (contextError : Bool) : St :=
  let wait := s.waits.get w
  if wait.fired then s
  else
    let s := { s with waits := s.waits.set w { wait with fired := true, releases := wait.releases + 1 } }
    s.setCall wait.call ((s.calls.get wait.call).setPhase (.resumed wait.pending contextError))

section

variable (c : ℕ) (k : Call)

def questionStep : St :=
  let key := cl.newCacheKey s k.transport k.message k.options
  match cl.loadResponse s key with
  | none => s.setCall c (k.setPhase .beginning)
  | some (response, stale) =>
    if stale && k.options.disableOptimisticCache then s.setCall c (k.setPhase .beginning)
    else
      let s := if stale then cl.backgroundRefreshDNS s (k.refresh cl key) else s
      s.setCall c (k.setPhase (.returning (.ok response)))

def beginStep : St :=
  if k.contextDone then s.setCall c (k.setPhase (.returning (.fail .contextDone)))
  else match fixedAnswer k.message k.options with
  | some response => s.setCall c (k.setPhase (.returning (.ok response)))
  | none =>
    if k.disableCache cl then s.setCall c (k.setPhase (.looking none)) else s.setCall c (k.setPhase .keying)

def keyStep : St :=
  s.setCall c { k with cacheKey := cl.newCacheKey s k.transport (k.request cl) k.options, phase := .storing }

/-- `cacheLock.LoadOrStore` -/
def storeStep : St :=
  let key : ExchangeKey := ⟨k.cacheKey, k.options.timeout⟩
  match s.cacheLock key with
  | none =>
    { s with
      cacheLock := Function.update s.cacheLock key (some s.pendings.size)
      pendings := s.pendings.push { key, owner := c } }.setCall c
      { k with releasePending := some s.pendings.size, phase := .looking none }
  | some p =>
    if k.kind = .exchangeAsync then
      { s with waits := s.waits.push { call := c, pending := p } }.setCall c (k.setPhase (.waitingAsync s.waits.size))
    else s.setCall c (k.setPhase (.waiting p))

def resumeStep (p : ℕ) (contextError : Bool) : St :=
  let pending := s.pendings.get p
  if contextError || k.contextDone then s.setCall c (k.setPhase (.returning (.fail .contextDone)))
  else match pending.err, pending.response with
  | some e, _ => s.setCall c { k with phase := .returning (.fail e), inherited := some p }
  | none, none => s.setCall c (k.setPhase (.retry k.kind))
  | none, some response =>
    if cl.newCacheKey s k.transport (k.request cl) k.options = k.cacheKey then
      s.setCall c (k.setPhase (.looking (some response)))
    else s.setCall c (k.setPhase (.retry k.kind))

def lookStep (shared : Option Msg) : St :=
  if k.disableCache cl then s.setCall c (k.setPhase (.checking shared))
  else match cl.loadResponse s k.cacheKey with
  | none => s.setCall c (k.setPhase (.checking shared))
  | some (response, stale) =>
    if stale && k.options.disableOptimisticCache then s.setCall c (k.setPhase (.checking shared))
    else
      let s := if stale then cl.backgroundRefreshDNS s (k.refresh cl k.cacheKey) else s
      s.setCall c (k.release none none (.ok { response with id := k.message.id }))

def checkStep (shared : Option Msg) : St :=
  let tag := cl.tag k.transport
  let question := k.message.firstQuestion
  if k.contextTransport = some tag then s.setCall c (k.release none none (.fail (.loopback tag)))
  else if !k.disableCache cl && k.responseChecker.isSome && cl.withRDRC && s.rdrc tag question.name question.qtype then
    s.setCall c (k.release none none (.fail .responseRejectedCached))
  else match shared with
  | some response => s.setCall c (k.setPhase (.finishing (.ok response)))
  | none => s.setCall c (k.setPhase .exchanging)

end

def saveRDRC (tag name : String) (qtype : ℕ) (saved : Bool) : St :=
  { s with rdrc := Function.update s.rdrc tag (Function.update (s.rdrc tag) name
      (Function.update (s.rdrc tag name) qtype saved)) }

def finishStep (c : ℕ) (k : Call) : Except Err Msg → St
  | .error e => s.setCall c (k.release none (some e) (.fail e))
  | .ok response =>
    let question := k.message.firstQuestion
    let disableCache := k.disableCache cl || unusual response
    if rejects k.responseChecker response then
      let s := if !disableCache && cl.withRDRC then s.saveRDRC (cl.tag k.transport) question.name question.qtype true else s
      s.setCall c (k.release (some response) none { response := some response, error := some .responseRejected })
    else
      let s :=
        if disableCache then s
        else match cl.finishCacheKey s k.transport k.cacheKey with
        | none => s
        | some key =>
          let (message, timeToLive) := applyResponseOptions question response k.options
          cl.storeCache s key message timeToLive k.responseChecker
      s.setCall c (k.release (some response) none (.ok (finishResponse (k.request cl) question k.options response)))

section

variable (c : ℕ) (k : Call) (response : Option Msg) (error : Option Err) (outcome : Outcome)

def deleteStep : St :=
  match k.releasePending with
  | none => s
  | some p =>
    let q := s.pendings.get p
    { s with cacheLock := Function.update s.cacheLock q.key none }.setPending p
      { q with removedBy := q.removedBy ++ [c] } |>.setCall c
      (k.setPhase (.closing response error outcome))

def closeStep : St :=
  match k.releasePending with
  | none => s
  | some p =>
    let q := s.pendings.get p
    s.setPending p { q with response, err := error, finished := true, waiters := [], finishedBy := q.finishedBy ++ [c] }
      |>.setCall c { k with phase := .telling q.waiters outcome, releasePending := none }

end

def runStep (c : ℕ) : St :=
  let k := s.calls.get c
  match k.phase with
  | .questioning => s.questionStep cl c k
  | .beginning => s.beginStep cl c k
  | .keying => s.keyStep cl c k
  | .storing => s.storeStep c k
  | .resumed p contextError => s.resumeStep cl c k p contextError
  | .looking shared => s.lookStep cl c k shared
  | .checking shared => s.checkStep cl c k shared
  | .finishing answer => s.finishStep cl c k answer
  | .deleting response error outcome => s.deleteStep c k response error outcome
  | .closing response error outcome => s.closeStep c k response error outcome
  | .telling [] outcome => s.setCall c (k.setPhase (.returning outcome))
  | .telling (w :: waits) outcome => (s.setCall c (k.setPhase (.telling waits outcome))).fire w false
  | .returning outcome => s.setCall c { k with phase := .done, delivered := k.delivered ++ [k.deliver outcome] }
  | .waiting _ | .waitingAsync _ | .exchanging | .done => s

def selectStep (c : ℕ) (context : Bool) : St :=
  let k := s.calls.get c
  match k.phase with
  | .waiting p =>
    if context then
      if k.contextDone then s.setCall c (k.setPhase (.returning (.fail .contextDone))) else s
    else if (s.pendings.get p).finished then s.setCall c (k.setPhase (.resumed p false))
    else s
  | _ => s

def exchangeAnswer (message : Msg) : Answer → Except Err Msg
  | .response response => .ok (stripDNSPadding response)
  | .rcode rcode => .ok (fixedResponseStatus message rcode)
  | .error id => .error (.transport id)

def answerStep (c : ℕ) (answer : Answer) : St :=
  let k := s.calls.get c
  match k.phase with
  | .exchanging =>
    s.setCall c { k with phase := .finishing (exchangeAnswer (k.request cl) answer), answeredDone := k.contextDone }
  | _ => s

def attachStep (w : ℕ) : St :=
  let wait := s.waits.get w
  if w < s.waits.size ∧ wait.attached = false then
    let s := { s with waits := s.waits.set w { wait with attached := true } }
    let q := s.pendings.get wait.pending
    if q.finished then s.fire w false
    else s.setPending wait.pending { q with waiters := q.waiters ++ [w] }
  else s

def wakeStep (w : ℕ) : St :=
  if w < s.waits.size ∧ (s.calls.get (s.waits.get w).call).contextDone = true then s.fire w true else s

def refreshStep (i : ℕ) (answer : Answer) : St :=
  let r := s.refreshes.get i
  if i < s.refreshes.size ∧ r.running = true then
    let s := { s with refreshes := s.refreshes.set i { r with running := false } }
    match exchangeAnswer r.message answer with
    | .error _ => s
    | .ok response =>
      if rejects r.responseChecker response then
        if cl.withRDRC then s.saveRDRC (cl.tag r.transport) r.key.question.name r.key.question.qtype true else s
      else if unusual response then s
      else match cl.finishCacheKey s r.transport r.key with
      | none => s
      | some key =>
        let (message, timeToLive) := applyResponseOptions r.key.question response r.options
        cl.storeCache s key message timeToLive r.responseChecker
  else s

def callStep (request : Request) : St :=
  let options := { request.options with
    timeout := if request.options.timeout = 0 then cl.timeout else request.options.timeout }
  let questioned := request.kind == .lookup && !(cl.disableCache || request.options.disableCache)
  let k : Call :=
    { kind := request.kind, transport := request.transport, message := request.message, options := options
      responseChecker := request.responseChecker, contextTransport := request.contextTransport
      phase := if questioned then .questioning else .beginning }
  { s with calls := s.calls.push k }

end St

def step (cl : Client) (s : St) : Op → St
  | .call request => s.callStep cl request
  | .run c => if c < s.calls.size then s.runStep cl c else s
  | .select c context => if c < s.calls.size then s.selectStep c context else s
  | .answer c answer => if c < s.calls.size then s.answerStep cl c answer else s
  | .attach w => s.attachStep w
  | .wake w => s.wakeStep w
  | .cancel c => s.setCall c { s.calls.get c with contextDone := true }
  | .refreshAnswer i answer => s.refreshStep cl i answer
  | .network environment => { s with environment }
  | .tick time => { s with now := s.now + time }
  | .evict slot => { s with cache := Function.update s.cache slot none }
  | .forget tag name qtype => s.saveRDRC tag name qtype false
  | .clearCache => { s with cache := fun _ => none }

def run (cl : Client) (ops : List Op) : St := ops.foldl (step cl) {}

end EtonifyCore.DNSClient
