/-
The rendezvous server for Hysteria2 realms (`protocol/hysteria2/realm_server.go`).

A user registers a realm and gets a session; others connect to the realm by its name, which sends a punch event to the
session and waits for its answer.

Model: a pointer to a session or to a pending channel is an index into `heap` or `chans`. A request is a call whose
`Phase` says which of its sections under `access` comes next; `Op.advance` runs it, with the time and the random token it
reads. Timers and readers of events may run at any time. A user that is missing in `userCounts` reads as zero.

Left out: requests that fail a check before their first section, `rand.Read` failing, and the log.
-/
import EtonifyCore.Core.Table
import EtonifyCore.Core.Channel

namespace EtonifyCore.Realm

open Core (Table Chan)
open Core.Keyed

/-! ## State -/

def sessionTTL : ℕ := 60 * 1000000000

def eventChannelSize : ℕ := 16

def maxPendingAttempts : ℕ := 16

/-- `realmUser` -/
structure User where
  name : String
  maxRealms : ℤ
  deriving DecidableEq, Repr

structure PunchEvent where
  addresses : List String
  nonce : String
  obfs : String
  deriving DecidableEq, Repr

/-- `realmEvent` -/
inductive Event
  | heartbeatAck
  | punch (data : PunchEvent)
  deriving DecidableEq, Repr

/-- `realmSession`; `pending` has the channels of the attempts, by their nonces -/
structure Session where
  id : String
  realmID : String
  username : String
  addresses : List String
  expires : ℕ
  events : Chan Event
  done : Chan Unit
  closed : Bool
  pending : List (String × ℕ)
  deriving DecidableEq, Repr

instance : Inhabited Session := ⟨⟨"", "", "", [], 0, .make 0, .make 0, false, []⟩⟩

inductive Request
  | register (bearer id : String) (addresses : List String)
  | deregister (bearer id : String)
  | heartbeat (bearer id : String) (addresses : Option (List String))
  | connect (bearer id : String) (data : PunchEvent)
  | connectResponse (bearer id nonce : String) (addresses : List String)
  deriving DecidableEq, Repr

inductive Reply
  | session (id : String)
  | noContent
  | ttl
  | addresses (addresses : List String) (nonce obfs : String)
  | failure (status : ℕ) (error message : String)
  /-- the client went away -/
  | nothing
  deriving DecidableEq, Repr

inductive Phase
  | received (request : Request)
  | deregister (sess : ℕ)
  | heartbeat (sess : ℕ) (addresses : Option (List String))
  | acknowledge (sess : ℕ)
  /-- `handleConnect`: before `registerPending` -/
  | attempt (sess : ℕ) (addresses : List String) (data : PunchEvent)
  /-- before `sendEvent` -/
  | punch (sess : ℕ) (addresses : List String) (data : PunchEvent) (ch : ℕ)
  /-- in the `select` -/
  | wait (sess : ℕ) (addresses : List String) (data : PunchEvent) (ch : ℕ)
  /-- before the deferred `cancelPending` -/
  | cancel (sess : ℕ) (nonce : String) (reply : Reply)
  | respond (sess : ℕ) (nonce : String) (addresses : List String)
  | replied (reply : Reply)
  deriving DecidableEq, Repr

instance : Inhabited Phase := ⟨.replied .nothing⟩

structure St where
  heap : Table Session
  chans : Table (Chan (List String))
  realms : String → Option ℕ
  sessions : List (String × ℕ)
  userCounts : String → ℤ
  calls : Table Phase

def init : St := ⟨.empty, .empty, fun _ => none, [], fun _ => 0, .empty⟩

/-! ## Sections under the lock -/

def Session.expired (sess : Session) (now : ℕ) : Bool := decide (sess.expires < now)

namespace St

variable (st : St)

def getSessionByToken (token : String) (now : ℕ) : Option ℕ :=
  match get? token st.sessions with
  | none => none
  | some p => if (st.heap.get p).closed || (st.heap.get p).expired now then none else some p

def authSession (token id : String) (now : ℕ) : Option ℕ :=
  match st.getSessionByToken token now with
  | none => none
  | some p => if (st.heap.get p).realmID ≠ id then none else some p

def countDown (name : String) : String → ℤ :=
  Function.update st.userCounts name (if st.userCounts name - 1 ≤ 0 then 0 else st.userCounts name - 1)

def removeSessionLocked (p : ℕ) : St :=
  let sess := st.heap.get p
  if sess.closed then st
  else
    { st with
      heap := st.heap.set p
        { sess with closed := true, done := sess.done.close, events := sess.events.close, pending := [] }
      chans := sess.pending.foldl (fun chans kv => chans.set kv.2 (chans.get kv.2).close) st.chans
      realms := if st.realms sess.realmID = some p then Function.update st.realms sess.realmID none else st.realms
      sessions := without sess.id st.sessions
      userCounts := if (get? sess.id st.sessions).isSome then st.countDown sess.username else st.userCounts }

def removeExpiredSession (p : ℕ) (now : ℕ) : St :=
  if (st.heap.get p).closed || !(st.heap.get p).expired now then st else st.removeSessionLocked p

def closeAll : St := (st.sessions.map (·.2)).foldl removeSessionLocked st

def registerPending (p : ℕ) (nonce : String) : Option (St × ℕ) :=
  let sess := st.heap.get p
  if sess.closed || decide (maxPendingAttempts ≤ sess.pending.length) then none
  else if (get? nonce sess.pending).isSome then none
  else
    some ({ st with
      chans := st.chans.push (.make 1)
      heap := st.heap.set p { sess with pending := put nonce st.chans.size sess.pending } }, st.chans.size)

def deliverPending (p : ℕ) (nonce : String) (addresses : List String) : St × Bool :=
  let sess := st.heap.get p
  if sess.closed then (st, false)
  else
    match get? nonce sess.pending with
    | none => (st, false)
    | some ch =>
      ({ st with
        heap := st.heap.set p { sess with pending := without nonce sess.pending }
        chans := st.chans.set ch ((st.chans.get ch).trySend addresses).1 }, true)

def cancelPending (p : ℕ) (nonce : String) : St :=
  let sess := st.heap.get p
  { st with heap := st.heap.set p { sess with pending := without nonce sess.pending } }

def sendEvent (p : ℕ) (ev : Event) : St × Bool :=
  let sess := st.heap.get p
  if sess.closed then (st, false)
  else ({ st with heap := st.heap.set p { sess with events := (sess.events.trySend ev).1 } }, (sess.events.trySend ev).2)

def addSession (sess : Session) : St :=
  { st with
    heap := st.heap.push sess
    realms := Function.update st.realms sess.realmID (some st.heap.size)
    sessions := put sess.id st.heap.size st.sessions
    userCounts := Function.update st.userCounts sess.username (st.userCounts sess.username + 1) }

def register (user : User) (id : String) (addresses : List String) (now : ℕ) (token : String) : St × Reply :=
  if (st.realms id).isSome then (st, .failure 409 "realm_taken" "realm already registered")
  else if user.maxRealms > 0 ∧ st.userCounts user.name ≥ user.maxRealms then
    (st, .failure 429 "realm_limit_reached" "per-user realm limit reached")
  else
    (st.addSession ⟨token, id, user.name, addresses, now + sessionTTL, .make eventChannelSize, .make 0, false, []⟩,
      .session token)

def beat (p : ℕ) (addresses : Option (List String)) (now : ℕ) : St :=
  let sess := st.heap.get p
  { st with
    heap := st.heap.set p { sess with expires := now + sessionTTL, addresses := addresses.getD sess.addresses } }

def lookup (id : String) (now : ℕ) : Option ℕ :=
  match st.realms id with
  | none => none
  | some p => if (st.heap.get p).closed || (st.heap.get p).expired now then none else some p

def goto (i : ℕ) (phase : Phase) : St := { st with calls := st.calls.set i phase }

end St

/-! ## Steps -/

def invalidToken (name : String) : Reply := .failure 401 "invalid_token" ("invalid " ++ name ++ " token")

def realmNotFound : Reply := .failure 404 "realm_not_found" "realm not registered"

inductive Wake
  | response
  | timer
  | done
  | context
  deriving DecidableEq, Repr

/-- the first section of a request: `authUser` or `authSession`, and what the handler does in the same section -/
def receive (tokenMap : String → Option User) (st : St) (i : ℕ) (now : ℕ) (token : String) : Request → St
  | .register bearer id addresses =>
    match tokenMap bearer with
    | none => st.goto i (.replied (invalidToken "realm"))
    | some user => (st.register user id addresses now token).1.goto i
        (.replied (st.register user id addresses now token).2)
  | .deregister bearer id =>
    match st.authSession bearer id now with
    | none => st.goto i (.replied (invalidToken "session"))
    | some p => st.goto i (.deregister p)
  | .heartbeat bearer id addresses =>
    match st.authSession bearer id now with
    | none => st.goto i (.replied (invalidToken "session"))
    | some p => st.goto i (.heartbeat p addresses)
  | .connect bearer id data =>
    match tokenMap bearer with
    | none => st.goto i (.replied (invalidToken "realm"))
    | some _ =>
      match st.lookup id now with
      | none => st.goto i (.replied realmNotFound)
      | some p => st.goto i (.attempt p (st.heap.get p).addresses data)
  | .connectResponse bearer id nonce addresses =>
    match st.authSession bearer id now with
    | none => st.goto i (.replied (invalidToken "session"))
    | some p => st.goto i (.respond p nonce addresses)

def select (st : St) (i p : ℕ) (addresses : List String) (data : PunchEvent) (ch : ℕ) : Wake → St
  | .response =>
    match (st.chans.get ch).receive? with
    | none => st
    | some (none, _) => st.goto i (.cancel p data.nonce realmNotFound)
    | some (some payload, chan) =>
      { st with chans := st.chans.set ch chan }.goto i
        (.cancel p data.nonce (.addresses (if payload.length > 0 then payload else addresses) data.nonce data.obfs))
  | .timer => st.goto i (.cancel p data.nonce (.addresses addresses data.nonce data.obfs))
  | .done => if 0 < (st.heap.get p).done.closes then st.goto i (.cancel p data.nonce realmNotFound) else st
  | .context => st.goto i (.cancel p data.nonce .nothing)

def advance (tokenMap : String → Option User) (st : St) (i : ℕ) (now : ℕ) (token : String) (wake : Wake) : St :=
  match st.calls.get i with
  | .received request => receive tokenMap st i now token request
  | .deregister p => (st.removeSessionLocked p).goto i (.replied .noContent)
  | .heartbeat p addresses => (st.beat p addresses now).goto i (.acknowledge p)
  | .acknowledge p => (st.sendEvent p .heartbeatAck).1.goto i (.replied .ttl)
  | .attempt p addresses data =>
    match st.registerPending p data.nonce with
    | none => st.goto i (.replied (.failure 503 "rate_limited" "too many in-flight connect attempts"))
    | some (st', ch) => st'.goto i (.punch p addresses data ch)
  | .punch p addresses data ch =>
    if (st.sendEvent p (.punch data)).2 then (st.sendEvent p (.punch data)).1.goto i (.wait p addresses data ch)
    else (st.sendEvent p (.punch data)).1.goto i
      (.cancel p data.nonce (.failure 503 "rate_limited" "server event buffer full"))
  | .wait p addresses data ch => select st i p addresses data ch wake
  | .cancel p nonce reply => (st.cancelPending p nonce).goto i (.replied reply)
  | .respond p nonce addresses =>
    if (st.deliverPending p nonce addresses).2 then (st.deliverPending p nonce addresses).1.goto i (.replied .noContent)
    else (st.deliverPending p nonce addresses).1.goto i
      (.replied (.failure 404 "attempt_not_found" "no pending attempt for nonce"))
  | .replied _ => st

inductive Op
  | request (request : Request)
  | advance (i : ℕ) (now : ℕ) (token : String) (wake : Wake)
  | expire (sess : ℕ) (now : ℕ)
  | readEvent (sess : ℕ)
  | closeAll
  deriving DecidableEq, Repr

def step (tokenMap : String → Option User) (st : St) : Op → St
  | .request request => { st with calls := st.calls.push (.received request) }
  | .advance i now token wake => if i < st.calls.size then advance tokenMap st i now token wake else st
  | .expire p now => if p < st.heap.size then st.removeExpiredSession p now else st
  | .readEvent p =>
    if p < st.heap.size then
      match (st.heap.get p).events.receive? with
      | none => st
      | some (_, events) => { st with heap := st.heap.set p { st.heap.get p with events } }
    else st
  | .closeAll => st.closeAll

def run (tokenMap : String → Option User) (ops : List Op) : St := ops.foldl (step tokenMap) init

end EtonifyCore.Realm
