/-
The connection pool of the DNS transports. In single mode all acquirers share one connection, which one of them dials while
the others wait. In ordered mode an acquirer takes an idle connection or dials its own.

Model: an `Op` is one section under the lock, or what happens outside of it. A connection that was taken out of the pool is
in `closing` until `Close` is called on it; a state that `Reset` or `Close` has replaced is in `leaving`. An acquirer goes on
before the `Close` of a dead connection that it found: `Close` does not look at the pool.

Premises: a dial returns a new connection; an acquirer releases its connection at most once. Left out: the slots that bound
the number of dials (a dial may start at any time or fail for its context), and which of two contexts a dial reports.
-/
import EtonifyCore.Core.Table

namespace EtonifyCore.ConnPool

open Core (Table)

inductive Mode where
  | single
  | ordered
deriving DecidableEq, Repr

inductive Err where
  | errClosed
  | contextDone
  | dial (id : ℕ)
  /-- an error of the reader of a connection -/
  | read (id : ℕ)
  | write (id : ℕ)
deriving DecidableEq, Repr

structure State where
  /-- the cause with which its context is done -/
  cancelled : Option Err := none
  all : List ℕ := []
  idle : List ℕ := []
  shared : Option ℕ := none
  sharedClaimed : Bool := false
  sharedUsers : ℕ := 0
  sharedWaiters : ℕ := 0
  connecting : Option ℕ := none
deriving Inhabited, DecidableEq, Repr

structure Conn where
  alive : Bool := true
  /-- the cause with which its context (`sharedCtx`) is done -/
  context : Option Err := none
  closed : Bool := false
deriving Inhabited, DecidableEq, Repr

inductive Dial where
  | dialing
  | dialed (result : Except Err ℕ)
  /-- the contexts have been looked at, the lock comes next -/
  | locking (result : Except Err ℕ)
  | finishing
  | finished

/-- `connPoolConnect`, with the goroutine that dials -/
structure Connect where
  state : ℕ := 0
  acquirer : ℕ := 0
  dial : Dial := .dialing
  err : Option Err := none
  done : Bool := false

instance : Inhabited Connect := ⟨{}⟩

inductive Phase where
  /-- at the top of the loop -/
  | entering
  /-- in single mode, waiting for a connection that is being dialed -/
  | waiting (state connect : ℕ) (startDial : Bool)
  | dialing (state : ℕ) (dial : Dial)
  | holding (conn : ℕ) (created : Bool)
  | released (conn : ℕ) (created : Bool)
  | failed (err : Err)

structure Acquirer where
  contextDone : Bool := false
  phase : Phase := .entering

instance : Inhabited Acquirer := ⟨{}⟩

structure St where
  /-- the current state; none when the pool is closed -/
  current : Option ℕ := some 0
  states : Table State := Table.empty.push {}
  conns : Table Conn := .empty
  connects : Table Connect := .empty
  acquirers : Table Acquirer := .empty
  closing : List ℕ := []
  leaving : List ℕ := []

inductive Op where
  | acquire
  | enter (a : ℕ)
  /-- a waiting acquirer goes on: the dial is done, its context is, or that of the state -/
  | collect (a : ℕ)
  | abandon (a : ℕ)
  | leave (a : ℕ)
  /-- the dial of a `connectSingle` returns, an error or a new connection; then its next step -/
  | dialed (i : ℕ) (err : Option Err)
  | connect (i : ℕ)
  /-- the same for an acquirer in ordered mode -/
  | dialedOrdered (a : ℕ) (err : Option Err)
  | install (a : ℕ)
  | release (a : ℕ) (reuse : Bool)
  | invalidate (c : ℕ) (cause : Err)
  | closeIdle
  | reset
  | closePool
  | closeState (g : ℕ)
  | closeConn (c : ℕ)
  | cancel (a : ℕ)
  | die (c : ℕ)

namespace St

variable (s : St)

def setState (g : ℕ) (state : State) : St := { s with states := s.states.set g state }

def setConn (c : ℕ) (conn : Conn) : St := { s with conns := s.conns.set c conn }

def setConnect (i : ℕ) (connect : Connect) : St := { s with connects := s.connects.set i connect }

def setPhase (a : ℕ) (phase : Phase) : St :=
  { s with acquirers := s.acquirers.set a { s.acquirers.get a with phase } }

def cancelConn (c : ℕ) (cause : Err) : St :=
  let conn := s.conns.get c
  s.setConn c { conn with context := conn.context.or (some cause) }

def willClose (c : ℕ) : St := { s with closing := s.closing ++ [c] }

def removeConn (mode : Mode) (g c : ℕ) (cause : Err) : St :=
  let state := { s.states.get g with all := (s.states.get g).all.filter (· ≠ c) }
  match mode with
  | .single =>
    if state.shared = some c then
      (s.setState g { state with shared := none, sharedClaimed := false, sharedUsers := 0 }).cancelConn c cause
    else s.setState g state
  | .ordered => s.setState g { state with idle := state.idle.filter (· ≠ c) }

def take (a g c : ℕ) : St :=
  let state := s.states.get g
  (s.setState g { state with sharedClaimed := true, sharedUsers := state.sharedUsers + 1 }).setPhase a
    (.holding c !state.sharedClaimed)

def stopWaiting (g : ℕ) : St :=
  let state := s.states.get g
  s.setState g { state with sharedWaiters := state.sharedWaiters - 1 }

/-! ## Acquiring -/

def enterShared (a g : ℕ) : St :=
  let state := s.states.get g
  match state.shared with
  | some c =>
    if (s.conns.get c).alive then s.take a g c else (s.removeConn .single g c .errClosed).willClose c
  | none =>
    let state := { state with sharedWaiters := state.sharedWaiters + 1 }
    match state.connecting with
    | some i => (s.setState g state).setPhase a (.waiting g i false)
    | none =>
      let i := s.connects.size
      let s := s.setState g { state with connecting := some i }
      { s with connects := s.connects.push { state := g, acquirer := a } }.setPhase a (.waiting g i true)

def enterOrdered (a g : ℕ) : St :=
  let state := s.states.get g
  match state.idle with
  | [] => s.setPhase a (.dialing g .dialing)
  | c :: idle =>
    let state := { state with idle }
    if (s.conns.get c).alive then (s.setState g state).setPhase a (.holding c false)
    else (s.setState g { state with all := state.all.filter (· ≠ c) }).willClose c

def enterStep (mode : Mode) (a : ℕ) : St :=
  match (s.acquirers.get a).phase with
  | .entering =>
    match s.current with
    | none => s.setPhase a (.failed .errClosed)
    | some g =>
      match mode with
      | .single => s.enterShared a g
      | .ordered => s.enterOrdered a g
  | _ => s

def collectStep (a : ℕ) : St :=
  match (s.acquirers.get a).phase with
  | .waiting g i startDial =>
    let connect := s.connects.get i
    if !connect.done then s
    else
      let s := s.stopWaiting g
      match connect.err with
      | some err => if startDial then s.setPhase a (.failed err) else s.setPhase a .entering
      | none =>
        if s.current ≠ some g then s.setPhase a (.failed .errClosed)
        else match (s.states.get g).shared with
        | none => s.setPhase a .entering
        | some c =>
          if (s.conns.get c).alive then s.take a g c
          else ((s.removeConn .single g c .errClosed).willClose c).setPhase a .entering
  | _ => s

def abandonStep (a : ℕ) : St :=
  match (s.acquirers.get a).phase with
  | .waiting g _ _ => if (s.acquirers.get a).contextDone then (s.stopWaiting g).setPhase a (.failed .contextDone) else s
  | _ => s

def leaveStep (a : ℕ) : St :=
  match (s.acquirers.get a).phase with
  | .waiting g _ _ =>
    if (s.states.get g).cancelled.isSome then
      (s.stopWaiting g).setPhase a (if s.current.isNone then .failed .errClosed else .entering)
    else s
  | _ => s

/-! ## Dialing -/

def dialResult (err : Option Err) : St × Except Err ℕ :=
  match err with
  | some err => (s, .error err)
  | none => ({ s with conns := s.conns.push {} }, .ok s.conns.size)

def dialErr (a g : ℕ) : Option Err :=
  if (s.acquirers.get a).contextDone then some .contextDone else (s.states.get g).cancelled

def dialedStep (i : ℕ) (err : Option Err) : St :=
  let connect := s.connects.get i
  match connect.dial with
  | .dialing => (s.dialResult err).1.setConnect i { connect with dial := .dialed (s.dialResult err).2 }
  | _ => s

def connectStep (i : ℕ) : St :=
  let connect := s.connects.get i
  match connect.dial with
  | .dialing | .finished => s
  | .dialed result =>
    match s.dialErr connect.acquirer connect.state with
    | none => s.setConnect i { connect with dial := .locking result }
    | some err =>
      let s := match result with
        | .ok c => s.willClose c
        | .error _ => s
      s.setConnect i { connect with dial := .locking (.error err) }
  | .locking result =>
    let g := connect.state
    let s := s.setState g { s.states.get g with connecting := none }
    match result with
    | .error err => s.setConnect i { connect with dial := .finishing, err := some err }
    | .ok c =>
      if s.current ≠ some g then
        (s.willClose c).setConnect i { connect with dial := .finishing, err := some .errClosed }
      else
        let state := s.states.get g
        (s.setState g { state with shared := some c, all := c :: state.all }).setConnect i
          { connect with dial := .finishing }
  | .finishing => s.setConnect i { connect with dial := .finished, done := true }

def dialedOrderedStep (a : ℕ) (err : Option Err) : St :=
  match (s.acquirers.get a).phase with
  | .dialing g .dialing => (s.dialResult err).1.setPhase a (.dialing g (.dialed (s.dialResult err).2))
  | _ => s

def installStep (a : ℕ) : St :=
  match (s.acquirers.get a).phase with
  | .dialing g (.dialed result) =>
    match s.dialErr a g, result with
    | none, .ok c => s.setPhase a (.dialing g (.locking (.ok c)))
    | none, .error err => s.setPhase a (.failed err)
    | some err, .ok c => (s.willClose c).setPhase a (.failed err)
    | some err, .error _ => s.setPhase a (.failed err)
  | .dialing g (.locking (.ok c)) =>
    if s.current ≠ some g then (s.willClose c).setPhase a (.failed .errClosed)
    else
      let state := s.states.get g
      (s.setState g { state with all := c :: state.all }).setPhase a (.holding c true)
  | _ => s

/-! ## Giving back and closing -/

def releaseStep (mode : Mode) (a : ℕ) (reuse : Bool) : St :=
  match (s.acquirers.get a).phase with
  | .holding c created =>
    let s := s.setPhase a (.released c created)
    match s.current with
    | none => s.willClose c
    | some g =>
      let state := s.states.get g
      if c ∉ state.all then s.willClose c
      else if !reuse || !(s.conns.get c).alive then (s.removeConn mode g c .errClosed).willClose c
      else match mode with
      | .single =>
        if state.shared = some c ∧ 0 < state.sharedUsers then
          s.setState g { state with sharedUsers := state.sharedUsers - 1 }
        else s
      | .ordered => if c ∈ state.idle then s else s.setState g { state with idle := state.idle ++ [c] }
  | _ => s

def invalidateStep (mode : Mode) (c : ℕ) (cause : Err) : St :=
  match s.current with
  | none => s.willClose c
  | some g => if c ∈ (s.states.get g).all then (s.removeConn mode g c cause).willClose c else s

def closeIdleStep (mode : Mode) : St :=
  match mode, s.current with
  | .single, some g =>
    let state := s.states.get g
    match state.shared with
    | some c =>
      if 0 < state.sharedUsers ∨ 0 < state.sharedWaiters then s else (s.removeConn .single g c .errClosed).willClose c
    | none => s
  | _, _ => s

def replace (g : ℕ) (next : Option ℕ) : St := { s with current := next, leaving := s.leaving ++ [g] }

def resetStep : St :=
  match s.current with
  | none => s
  | some g => { s with states := s.states.push {} }.replace g (some s.states.size)

def closePoolStep : St :=
  match s.current with
  | none => s
  | some g => s.replace g none

/-- the context of a state is done, and with it that of its shared connection -/
def cancelState (g : ℕ) : St :=
  let state := s.states.get g
  let s := s.setState g { state with cancelled := some .errClosed }
  match state.shared with
  | some c => s.cancelConn c .errClosed
  | none => s

def closeStateStep (g : ℕ) : St :=
  if g ∈ s.leaving then
    { s.cancelState g with leaving := s.leaving.erase g, closing := s.closing ++ (s.states.get g).all }
  else s

def closeConnStep (c : ℕ) : St :=
  if c ∈ s.closing then { s with closing := s.closing.erase c }.setConn c { s.conns.get c with closed := true } else s

end St

def step (mode : Mode) (s : St) : Op → St
  | .acquire => { s with acquirers := s.acquirers.push {} }
  | .enter a => if a < s.acquirers.size then s.enterStep mode a else s
  | .collect a => if a < s.acquirers.size then s.collectStep a else s
  | .abandon a => if a < s.acquirers.size then s.abandonStep a else s
  | .leave a => if a < s.acquirers.size then s.leaveStep a else s
  | .dialed i err => if i < s.connects.size then s.dialedStep i err else s
  | .connect i => if i < s.connects.size then s.connectStep i else s
  | .dialedOrdered a err => if a < s.acquirers.size then s.dialedOrderedStep a err else s
  | .install a => if a < s.acquirers.size then s.installStep a else s
  | .release a reuse => if a < s.acquirers.size then s.releaseStep mode a reuse else s
  | .invalidate c cause => if c < s.conns.size then s.invalidateStep mode c cause else s
  | .closeIdle => s.closeIdleStep mode
  | .reset => s.resetStep
  | .closePool => s.closePoolStep
  | .closeState g => s.closeStateStep g
  | .closeConn c => s.closeConnStep c
  | .cancel a =>
    if a < s.acquirers.size then
      { s with acquirers := s.acquirers.set a { s.acquirers.get a with contextDone := true } }
    else s
  | .die c => if c < s.conns.size then s.setConn c { s.conns.get c with alive := false } else s

def run (mode : Mode) (ops : List Op) : St := ops.foldl (step mode) {}

end EtonifyCore.ConnPool
