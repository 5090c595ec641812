/-
The query multiplexer of the stream transports: many queries at a time on one connection of the pool.

A query is registered under a 16-bit ID, in one map for all connections, and written. The reader of a connection, the
functions for the contexts of the call and of the connection, and the writer when the write has failed race to take it out.
Who does calls the callback, or sends the query once more.

Model: an `Op` is one section under a lock, or what happens outside of it. `callbacks` logs the callback's calls; queries that
are in the map are marked (`registered`). The pool takes any of its steps at any time (`Op.pool`). A function of
`context.AfterFunc` is `armed` until it is stopped or, once its context is done, started. `take` stops both after it has let
go of the lock: the model does so in the taker's next step.

Left out: the probe for connection reuse; what it finds out is set by `Op.reuse`.
-/
import EtonifyCore.Transport.ConnPool

namespace EtonifyCore.Multiplexer

open Core (Table)

structure Options where
  retryReadError : Bool
  probeReuse : Bool

structure Msg where
  id : UInt16
  body : ℕ
deriving DecidableEq, Repr

inductive ContextErr where
  | canceled
  | deadlineExceeded
deriving DecidableEq, Repr

inductive Err where
  | pool (err : ConnPool.Err)
  | context (err : ContextErr)
  | noQueryId
  | dial (id : ℕ)
  | writeRequest (id : ℕ)
  | readResponse (id : ℕ)
deriving DecidableEq, Repr

structure Call where
  messageId : UInt16 := 0
  /-- the error of its context -/
  context : Option ContextErr := none
deriving Inhabited

structure Query where
  call : ℕ
  conn : ℕ
  acquirer : ℕ
  readEpoch : ℕ
  /-- `retryCtx` is set -/
  retry : Bool
deriving Inhabited, DecidableEq, Repr

inductive After where
  | armed
  | stopped
  | started
  | took (p : ℕ) (query : Query)
  | settled (query : Query)
  | ended
deriving DecidableEq, Repr

structure Pending where
  query : Query := default
  queryId : UInt16 := 0
  /-- it is in the map -/
  registered : Bool := false
  /-- `completeContextDone` -/
  context : After := .armed
  /-- `completeConnDone` -/
  connection : After := .armed

instance : Inhabited Pending := ⟨{}⟩

inductive RunnerPhase where
  | dispatching
  /-- `exchangeSingle` -/
  | singleDialing
  | singleWriting
  | singleReading
  /-- `exchangeAsync` -/
  | acquiring (acquirer : ℕ)
  | registering (acquirer conn : ℕ) (created : Bool)
  | refused (acquirer : ℕ)
  | released
  | writing (conn : ℕ) (created : Bool) (queryId : UInt16)
  | writeFailed (conn : ℕ) (created : Bool) (queryId : UInt16) (err : ℕ)
  | taken (conn : ℕ) (created : Bool) (pending : Option (ℕ × Query)) (err : ℕ)
  | retrying (created : Bool) (query : Query) (err : ℕ)
  | returned
deriving DecidableEq, Repr

structure Runner where
  call : ℕ := 0
  retryReadError : Bool := false
  firstAttempt : Bool := true
  phase : RunnerPhase := .dispatching

instance : Inhabited Runner := ⟨{}⟩

inductive ReaderPhase where
  | reading
  | received (message : Msg)
  | took (p : ℕ) (query : Query) (message : Msg)
  | settled (query : Query) (message : Msg)
  | failed (err : ℕ)
  | ended
deriving DecidableEq, Repr

structure Reader where
  conn : ℕ := 0
  phase : ReaderPhase := .reading

instance : Inhabited Reader := ⟨{}⟩

structure St where
  pool : ConnPool.St := {}
  queryId : UInt16 := 0
  calls : Table Call := .empty
  runners : Table Runner := .empty
  pendings : Table Pending := .empty
  readers : Table Reader := .empty
  readEpoch : ℕ → ℕ := fun _ => 0
  callbacks : List (ℕ × Except Err Msg) := []
  reuseSupported : Bool := false
  keepIdle : Bool := true

inductive Event where
  | dialed (err : Option ℕ)
  | wrote (err : Option ℕ)
  | read (result : Except ℕ (Option Msg))

inductive Op where
  | exchangeAsync (messageId : UInt16)
  /-- the next step of a runner -/
  | runner (r : ℕ)
  | returned (r : ℕ) (event : Event)
  /-- a function of a query starts, because its context is done; then its next step -/
  | startContext (p : ℕ)
  | context (p : ℕ)
  | startConnection (p : ℕ)
  | connection (p : ℕ)
  /-- `readNext` returns; then the reader's next step -/
  | read (k : ℕ) (result : Except ℕ (Option Msg))
  | reader (k : ℕ)
  | expire (c : ℕ) (err : ContextErr)
  | pool (op : ConnPool.Op)
  | reuse (supported : Bool)
  | setKeepIdle (keep : Bool)

namespace St

variable (s : St)

def setRunner (r : ℕ) (runner : Runner) : St := { s with runners := s.runners.set r runner }

def setPhase (r : ℕ) (phase : RunnerPhase) : St := s.setRunner r { s.runners.get r with phase }

def setPending (p : ℕ) (pending : Pending) : St := { s with pendings := s.pendings.set p pending }

def setReader (k : ℕ) (phase : ReaderPhase) : St :=
  { s with readers := s.readers.set k { s.readers.get k with phase } }

def callback (c : ℕ) (result : Except Err Msg) : St := { s with callbacks := s.callbacks ++ [(c, result)] }

def poolStep (op : ConnPool.Op) : St := { s with pool := ConnPool.step .single s.pool op }

def closeIdle : St := if s.keepIdle then s else s.poolStep .closeIdle

/-! ## The map -/

def query (id : UInt16) : Option ℕ :=
  (List.range s.pendings.size).find? fun p => (s.pendings.get p).registered && (s.pendings.get p).queryId == id

/-- the loop of `register`: after as many rounds as there are IDs it is at `start` again -/
def probeId (start : UInt16) : ℕ → UInt16 → Option UInt16
  | 0, _ => none
  | rounds + 1, id =>
    let id := id + 1
    if (s.query id).isNone then some id else if id = start then none else probeId start rounds id

def nextId : Option UInt16 := s.probeId s.queryId 65536 s.queryId

def take (id : UInt16) : St × Option (ℕ × Query) :=
  match s.query id with
  | none => (s, none)
  | some p =>
    let pending := s.pendings.get p
    (s.setPending p { pending with registered := false }, some (p, pending.query))

def After.stop : After → After
  | .armed => .stopped
  | after => after

def stop (p : ℕ) : St :=
  let pending := s.pendings.get p
  s.setPending p { pending with context := After.stop pending.context, connection := After.stop pending.connection }

/-! ## Runners -/

def acquire (r : ℕ) : St := (s.poolStep .acquire).setPhase r (.acquiring s.pool.acquirers.size)

def dispatch (opts : Options) (r : ℕ) : St :=
  if opts.probeReuse && !s.reuseSupported then s.setPhase r .singleDialing else s.acquire r

def acquired (r a : ℕ) : St :=
  match (s.pool.acquirers.get a).phase with
  | .holding conn created =>
    let s := s.setPhase r (.registering a conn created)
    if created then { s with readers := s.readers.push { conn } } else s
  | .failed err => (s.callback (s.runners.get r).call (.error (.pool err))).setPhase r .returned
  | _ => s

def pendingQuery (opts : Options) (r a conn : ℕ) (created : Bool) : Query where
  call := (s.runners.get r).call
  conn := conn
  acquirer := a
  readEpoch := s.readEpoch conn
  retry := (s.runners.get r).retryReadError && opts.retryReadError && !created

def register (opts : Options) (r a conn : ℕ) (created : Bool) : St :=
  match s.nextId with
  | none => s.setPhase r (.refused a)
  | some queryId =>
    let query := s.pendingQuery opts r a conn created
    { s with queryId, pendings := s.pendings.push { query, queryId, registered := true } }.setPhase r
      (.writing conn created queryId)

def retry (r : ℕ) (created : Bool) (err : ℕ) : St :=
  let runner := s.runners.get r
  if !created && runner.firstAttempt then (s.setRunner r { runner with firstAttempt := false }).acquire r
  else (s.callback runner.call (.error (.writeRequest err))).setPhase r .returned

def runnerStep (opts : Options) (r : ℕ) : St :=
  match (s.runners.get r).phase with
  | .dispatching => s.dispatch opts r
  | .acquiring a => s.acquired r a
  | .registering a conn created => s.register opts r a conn created
  | .refused a => (s.poolStep (.release a true)).setPhase r .released
  | .released => (s.closeIdle.callback (s.runners.get r).call (.error .noQueryId)).setPhase r .returned
  | .writeFailed conn created queryId err =>
    (s.take queryId).1.setPhase r (.taken conn created (s.take queryId).2 err)
  | .taken conn _ none err => (s.poolStep (.invalidate conn (.write err))).setPhase r .returned
  | .taken conn created (some (p, query)) err =>
    ((s.stop p).poolStep (.invalidate conn (.write err))).setPhase r (.retrying created query err)
  | .retrying created _ err => s.retry r created err
  | .singleDialing | .singleWriting | .singleReading | .writing .. | .returned => s

/-- a step of `exchangeSingle` has failed: the error of the context comes first -/
def failSingle (r : ℕ) (err : Err) : St :=
  let call := (s.runners.get r).call
  let err := match (s.calls.get call).context with
    | some contextErr => .context contextErr
    | none => err
  (s.callback call (.error err)).setPhase r .returned

def returnedStep (r : ℕ) (event : Event) : St :=
  let call := (s.runners.get r).call
  match (s.runners.get r).phase, event with
  | .singleDialing, .dialed none => s.setPhase r .singleWriting
  | .singleDialing, .dialed (some err) => (s.callback call (.error (.dial err))).setPhase r .returned
  | .singleWriting, .wrote none => s.setPhase r .singleReading
  | .singleWriting, .wrote (some err) => s.failSingle r (.writeRequest err)
  | .singleReading, .read (.error err) => s.failSingle r (.readResponse err)
  | .singleReading, .read (.ok (some message)) =>
    (s.callback call (.ok { message with id := (s.calls.get call).messageId })).setPhase r .returned
  | .writing _ _ _, .wrote none => s.setPhase r .returned
  | .writing conn created queryId, .wrote (some err) => s.setPhase r (.writeFailed conn created queryId err)
  | _, _ => s

/-! ## The other takers -/

def contextErr (p : ℕ) : Option ContextErr := (s.calls.get (s.pendings.get p).query.call).context

def connErr (p : ℕ) : Option ConnPool.Err := (s.pool.conns.get (s.pendings.get p).query.conn).context

def setContext (p : ℕ) (after : After) : St := s.setPending p { s.pendings.get p with context := after }

def setConnection (p : ℕ) (after : After) : St := s.setPending p { s.pendings.get p with connection := after }

def tookOr : Option (ℕ × Query) → After
  | none => .ended
  | some (p, query) => .took p query

def startContextStep (p : ℕ) : St :=
  if (s.pendings.get p).context = .armed ∧ (s.contextErr p).isSome then s.setContext p .started else s

/-- `completeContextDone`: a connection from which nothing came since the query was sent is given up. It is started once the
context is done, so that there is an error. -/
def contextStep (p : ℕ) : St :=
  match (s.pendings.get p).context with
  | .started =>
    let id := (s.pendings.get p).queryId
    (s.take id).1.setContext p (tookOr (s.take id).2)
  | .took p' query =>
    let op := if s.contextErr p = some .deadlineExceeded ∧ s.readEpoch query.conn = query.readEpoch then
        ConnPool.Op.invalidate query.conn .contextDone
      else .release query.acquirer true
    ((s.stop p').poolStep op).setContext p (.settled query)
  | .settled query =>
    let err := (s.contextErr p).getD .canceled
    (s.callback query.call (.error (.context err))).closeIdle.setContext p .ended
  | .armed | .stopped | .ended => s

def startConnectionStep (p : ℕ) : St :=
  if (s.pendings.get p).connection = .armed ∧ (s.connErr p).isSome then s.setConnection p .started else s

/-- `completeConnDone`: after a read error the query is sent once more -/
def connectionStep (p : ℕ) : St :=
  match (s.pendings.get p).connection with
  | .started =>
    let id := (s.pendings.get p).queryId
    (s.take id).1.setConnection p (tookOr (s.take id).2)
  | .took p' query => (s.stop p').setConnection p (.settled query)
  | .settled query =>
    let err := (s.connErr p).getD .errClosed
    let s' := match query.retry, err with
      | true, .read _ => { s with runners := s.runners.push { call := query.call, retryReadError := false } }
      | _, _ => s.callback query.call (.error (.pool err))
    s'.setConnection p .ended
  | .armed | .stopped | .ended => s

def readStep (k : ℕ) (result : Except ℕ (Option Msg)) : St :=
  let reader := s.readers.get k
  match reader.phase with
  | .reading =>
    match result with
    | .error err => s.setReader k (.failed err)
    | .ok message =>
      let s := { s with readEpoch := Function.update s.readEpoch reader.conn (s.readEpoch reader.conn + 1) }
      match message with
      | none => s
      | some message => s.setReader k (.received message)
  | _ => s

/-- `complete`, and the end of `recvLoop` -/
def readerStep (k : ℕ) : St :=
  let reader := s.readers.get k
  match reader.phase with
  | .received message =>
    (s.take message.id).1.setReader k (match (s.take message.id).2 with
      | none => .reading
      | some (p, query) => .took p query message)
  | .took p query message => ((s.stop p).poolStep (.release query.acquirer true)).setReader k (.settled query message)
  | .settled query message =>
    let response := { message with id := (s.calls.get query.call).messageId }
    (s.callback query.call (.ok response)).closeIdle.setReader k .reading
  | .failed err => (s.poolStep (.invalidate reader.conn (.read err))).setReader k .ended
  | .reading | .ended => s

def expireStep (c : ℕ) (err : ContextErr) : St :=
  let call := s.calls.get c
  { s with calls := s.calls.set c { call with context := call.context.or (some err) } }

end St

def step (opts : Options) (s : St) : Op → St
  | .exchangeAsync messageId =>
    { s with calls := s.calls.push { messageId }, runners := s.runners.push { call := s.calls.size, retryReadError := true } }
  | .runner r => if r < s.runners.size then s.runnerStep opts r else s
  | .returned r event => if r < s.runners.size then s.returnedStep r event else s
  | .startContext p => if p < s.pendings.size then s.startContextStep p else s
  | .context p => if p < s.pendings.size then s.contextStep p else s
  | .startConnection p => if p < s.pendings.size then s.startConnectionStep p else s
  | .connection p => if p < s.pendings.size then s.connectionStep p else s
  | .read k result => if k < s.readers.size then s.readStep k result else s
  | .reader k => if k < s.readers.size then s.readerStep k else s
  | .expire c err => if c < s.calls.size then s.expireStep c err else s
  | .pool op => s.poolStep op
  | .reuse supported => { s with reuseSupported := supported }
  | .setKeepIdle keep => { s with keepIdle := keep }

def run (opts : Options) (ops : List Op) : St := ops.foldl (step opts) {}

end EtonifyCore.Multiplexer
