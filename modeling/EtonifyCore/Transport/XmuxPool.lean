/-
The XMUX pool of the XHTTP transport: `xmuxManager`.

An acquirer gets a lease on a client of the pool, or on a new client as long as there is room, or waits on a channel that
every signal closes and replaces. Clients retire when they have been leased or asked too often, or when their time is over.

Model: an `Op` is one section under the lock, or what a waiting acquirer does outside of it. A channel is its number; `notify`
is the one that is open. A section comes with its readings of the clock, one for every client (`Reading`), and the random
numbers for a new client (`Draws`). Counters are not bounded. Left out: the HTTP clients themselves, but for the calls of `closeIdleConnections` on them,
which are logged with the leases. The loop of `closeAll` makes its calls after its section: each is an operation.
-/
import EtonifyCore.Core.Table

namespace EtonifyCore.Xmux

open Core (Table)

/-! ## Configuration -/

/-- `V2RayXHTTPRangeConfig` -/
structure Range where
  lower : ℤ
  upper : ℤ
deriving DecidableEq, Repr

/-- `V2RayXHTTPXmuxConfig` -/
structure Config where
  maxConcurrency : Option Range := none
  maxConnections : Option Range := none
  cMaxReuseTimes : Option Range := none
  hMaxRequestTimes : Option Range := none
  hMaxReusableSecs : Option Range := none
  hKeepAlivePeriod : ℤ := 0
deriving DecidableEq, Repr

def randRange (draw : ℕ) (lower upper : ℤ) : ℤ :=
  if lower ≥ upper then lower else lower + (draw : ℤ) % (upper - lower + 1)

def positiveRangeValue (draw : ℕ) : Option Range → ℤ
  | none => 0
  | some range =>
    let lower := if range.lower < 0 then 0 else range.lower
    let upper := if range.upper < lower then lower else range.upper
    randRange draw lower upper

def rangeHasPositiveValue : Option Range → Bool
  | none => false
  | some range => range.lower > 0 || range.upper > 0

def xmuxSettingsAreZero (config : Config) : Bool :=
  !rangeHasPositiveValue config.maxConcurrency && !rangeHasPositiveValue config.maxConnections &&
    !rangeHasPositiveValue config.cMaxReuseTimes && !rangeHasPositiveValue config.hMaxRequestTimes &&
    !rangeHasPositiveValue config.hMaxReusableSecs && config.hKeepAlivePeriod == 0

def defaultXmuxPoolLimit : ℕ := 16

def hardXmuxPoolLimit : ℕ := 16

structure Limits where
  config : Config
  concurrency : ℤ
  desiredConnections : ℕ
  maxConnections : ℕ
  useSafeDefaults : Bool
deriving DecidableEq, Repr

def newXmuxManager (config : Config) (concurrencyDraw connectionsDraw : ℕ) : Limits :=
  let useSafeDefaults := xmuxSettingsAreZero config
  let limits : Limits :=
    if useSafeDefaults then ⟨config, 0, 3, 3, useSafeDefaults⟩
    else ⟨config, positiveRangeValue concurrencyDraw config.maxConcurrency, 0, defaultXmuxPoolLimit, useSafeDefaults⟩
  let connections := positiveRangeValue connectionsDraw config.maxConnections
  if connections > 0 then
    let connections := if connections > hardXmuxPoolLimit then hardXmuxPoolLimit else connections.toNat
    { limits with desiredConnections := connections, maxConnections := connections }
  else limits

/-! ## Clients -/

def maxInt32 : ℤ := 2147483647

/-- `xmuxClient` -/
structure XClient where
  openUsage : ℕ
  leftUsage : ℤ
  leftRequests : ℤ
  unreusableAt : Option ℕ
  retiring : Bool
  /-- the draw for `CMaxReuseTimes` -/
  reuseTimes : ℤ
deriving DecidableEq, Repr

instance : Inhabited XClient := ⟨⟨0, -1, maxInt32, none, false, 0⟩⟩

structure Draws where
  safeRequests : ℕ := 0
  safeSeconds : ℕ := 0
  reuseTimes : ℕ := 0
  requestTimes : ℕ := 0
  reusableSeconds : ℕ := 0

structure Reading where
  prune : ℕ := 0
  /-- while a client is looked at -/
  look : ℕ → ℕ := fun _ => 0
  create : ℕ := 0

def second : ℕ := 1000000000

def newClient (limits : Limits) (draws : Draws) (now : ℕ) : XClient :=
  let reuseTimes := positiveRangeValue draws.reuseTimes limits.config.cMaxReuseTimes
  let requestTimes := positiveRangeValue draws.requestTimes limits.config.hMaxRequestTimes
  let reusableSeconds := positiveRangeValue draws.reusableSeconds limits.config.hMaxReusableSecs
  { openUsage := 0
    leftUsage := if reuseTimes > 0 then reuseTimes else -1
    leftRequests :=
      if requestTimes > 0 then requestTimes
      else if limits.useSafeDefaults then randRange draws.safeRequests 600 900 else maxInt32
    unreusableAt :=
      if reusableSeconds > 0 then some (now + reusableSeconds.toNat * second)
      else if limits.useSafeDefaults then some (now + (randRange draws.safeSeconds 1800 3000).toNat * second) else none
    retiring := false
    reuseTimes }

namespace XClient

variable (c : XClient)

def expired (now : ℕ) : Bool :=
  match c.unreusableAt with
  | none => false
  | some time => decide (now > time)

def acquire : XClient :=
  let c := { c with openUsage := c.openUsage + 1 }
  if c.leftUsage > 0 then
    { c with leftUsage := c.leftUsage - 1, retiring := c.retiring || c.leftUsage - 1 == 0 }
  else c

def prune (now : ℕ) : XClient := { c with retiring := c.retiring || (decide (c.leftRequests ≤ 0) || c.expired now) }

def release : XClient := { c with openUsage := if c.openUsage > 0 then c.openUsage - 1 else c.openUsage }

def consumeRequest : XClient :=
  if c.leftRequests ≠ maxInt32 ∧ c.leftRequests > 0 then
    { c with leftRequests := c.leftRequests - 1, retiring := c.retiring || c.leftRequests - 1 == 0 }
  else c

end XClient

/-! ## The pool -/

structure Lease where
  client : ℕ
  released : Bool
deriving DecidableEq, Repr, Inhabited

inductive Acquirer where
  | entering
  | waiting (channel : ℕ)
  | granted (lease : ℕ)
  | closed
  | cancelled
deriving DecidableEq, Repr, Inhabited

/-- a lease on a client is acquired or released, or `closeIdleConnections` is called on it: when it is pruned, or by the loop
of `closeAll` -/
inductive Event where
  | acquire (i : ℕ)
  | release (i : ℕ)
  | closeIdle (i : ℕ) (pruned : Bool)
deriving DecidableEq, Repr

structure St where
  clients : Table XClient := Table.empty
  pool : List ℕ := []
  notify : ℕ := 0
  closed : Bool := false
  leases : Table Lease := Table.empty
  acquirers : Table Acquirer := Table.empty
  /-- `clients` of `closeAll`: those that its loop still comes to -/
  closing : List ℕ := []
  log : List Event := []

namespace St

variable (s : St)

def pruneLocked (now : ℕ) : St :=
  let clients := s.pool.foldl (fun clients i => clients.set i ((clients.get i).prune now)) s.clients
  let idle i := (clients.get i).retiring && (clients.get i).openUsage == 0
  { s with
    clients
    pool := s.pool.filter fun i => !idle i
    log := s.log ++ (s.pool.filter idle).map fun i => .closeIdle i true }

def look (limits : Limits) (now : ℕ → ℕ) : Table XClient × Option ℕ → ℕ → Table XClient × Option ℕ
  | (clients, selected), i =>
    let client := clients.get i
    if client.retiring ∨ client.leftRequests ≤ 0 then (clients, selected)
    else if client.expired (now i) then (clients.set i { client with retiring := true }, selected)
    else if 0 < limits.concurrency ∧ limits.concurrency ≤ client.openUsage then (clients, selected)
    else
      match selected with
      | none => (clients, some i)
      | some j => if client.openUsage < (clients.get j).openUsage then (clients, some i) else (clients, selected)

def availableClientLocked (limits : Limits) (now : ℕ → ℕ) : St × Option ℕ :=
  let (clients, selected) := s.pool.foldl (look limits now) (s.clients, none)
  ({ s with clients }, selected)

def setAcquirer (a : ℕ) (acquirer : Acquirer) : St := { s with acquirers := s.acquirers.set a acquirer }

def grant (a i : ℕ) : St :=
  { s with
    clients := s.clients.set i (s.clients.get i).acquire
    leases := s.leases.push ⟨i, false⟩
    log := s.log ++ [Event.acquire i] }.setAcquirer a (.granted s.leases.size)

def create (limits : Limits) (draws : Draws) (now a : ℕ) : St :=
  { s with
    clients := s.clients.push (newClient limits draws now)
    pool := s.pool ++ [s.clients.size] }.grant a s.clients.size

def enter (limits : Limits) (a : ℕ) (reading : Reading) (draws : Draws) : St :=
  let s := s.pruneLocked reading.prune
  if s.closed then s.setAcquirer a .closed
  else if limits.desiredConnections > s.pool.length then s.create limits draws reading.create a
  else
    match s.availableClientLocked limits reading.look with
    | (s, some i) => s.grant a i
    | (s, none) =>
      if s.pool.length < limits.maxConnections then s.create limits draws reading.create a
      else s.setAcquirer a (.waiting s.notify)

def signalLocked : St := { s with notify := s.notify + 1 }

def release (l now : ℕ) : St :=
  let i := (s.leases.get l).client
  if (s.leases.get l).released then s
  else
    let s := { s with
      leases := s.leases.set l ⟨i, true⟩
      clients := s.clients.set i (s.clients.get i).release
      log := s.log ++ [Event.release i] }
    (s.pruneLocked now).signalLocked

def consumeRequest (l : ℕ) : St :=
  let i := (s.leases.get l).client
  { s with clients := s.clients.set i (s.clients.get i).consumeRequest }.signalLocked

def closeAll : St := if s.closed then s else { s with closed := true, pool := [], closing := s.pool }.signalLocked

/-- the next round of the loop of `closeAll` -/
def closeNext : St :=
  match s.closing with
  | [] => s
  | i :: closing => { s with closing, log := s.log ++ [.closeIdle i false] }

def wake (a : ℕ) : St :=
  match s.acquirers.get a with
  | .waiting channel => if channel < s.notify then s.setAcquirer a .entering else s
  | _ => s

def cancel (a : ℕ) : St :=
  match s.acquirers.get a with
  | .waiting _ => s.setAcquirer a .cancelled
  | _ => s

end St

inductive Op where
  | acquire
  | enter (a : ℕ) (reading : Reading) (draws : Draws)
  | wake (a : ℕ)
  | cancel (a : ℕ)
  | release (l now : ℕ)
  | consumeRequest (l : ℕ)
  | closeAll
  | closeNext

def step (limits : Limits) (s : St) : Op → St
  | .acquire => { s with acquirers := s.acquirers.push .entering }
  | .enter a reading draws =>
    if a < s.acquirers.size ∧ s.acquirers.get a = .entering then s.enter limits a reading draws else s
  | .wake a => if a < s.acquirers.size then s.wake a else s
  | .cancel a => if a < s.acquirers.size then s.cancel a else s
  | .release l now => if l < s.leases.size then s.release l now else s
  | .consumeRequest l => if l < s.leases.size then s.consumeRequest l else s
  | .closeAll => s.closeAll
  | .closeNext => s.closeNext

def run (limits : Limits) (ops : List Op) : St := ops.foldl (step limits) {}

end EtonifyCore.Xmux
