/-
Lifecycle scopes: who cleans up what is started.

Starting a component makes a child scope, whose closing is a cleanup of the parent. `Close` cancels the context of the
scope, takes its cleanups and runs them backwards; what is added to a cancelled scope is run at once by `Add` itself.

Model: an `Op` is one section under the lock of a scope, or the beginning or end of a cleanup, in one call of `Add`, `Start`
or `Close`. A cleanup may do anything while it runs. A cancelled context reaches those below it at any later time
(`Op.propagate`), which allows more than the library does. `registered`, `taken`, `ran`, `byParent` and `ended` are never
read by a step. Left out: logging and the time monitor.
-/
import EtonifyCore.Core.Table
import EtonifyCore.Lifecycle.CleanupError

namespace EtonifyCore.Lifecycle

open Core (Table)

/-! ## State -/

inductive StartStage where
  | stateInitialize
  | stateStart
  | statePostStart
  | stateStarted
deriving DecidableEq, Repr

def StartStage.toString : StartStage → String
  | .stateInitialize => "initialize"
  | .stateStart => "start"
  | .statePostStart => "post-start"
  | .stateStarted => "finish-start"

/-- an element of the cleanups: a function that was added, or the closing of a child scope -/
inductive Entry where
  | cleanup (id : ℕ)
  | child (scope : ℕ)
deriving DecidableEq, Repr

structure Scope where
  parent : ℕ := 0
  name : String := ""
  cancelled : Bool := false
  cleanups : List Entry := []
  children : List (ℕ × ℕ) := []
  registered : List Entry := []
  /-- `Close` has been called -/
  closed : Bool := false
  /-- the first call of `Close` was the cleanup of the parent -/
  byParent : Bool := false
deriving Inhabited

inductive Running where
  | cleanup (id : ℕ)
  /-- the closing of a child scope, waiting for that call of `Close` -/
  | child (scope call : ℕ)
deriving DecidableEq, Repr

def Running.entry : Running → Entry
  | .cleanup id => .cleanup id
  | .child scope _ => .child scope

structure Closing where
  scope : ℕ := 0
  taken : List Entry := []
  /-- still to be run, in the order of registration -/
  todo : List Entry := []
  current : Option Running := none
  ran : List (Entry × Option Err) := []
  cleanupErrors : List Err := []
  result : Option (Option Err) := none
deriving Inhabited

inductive LatePhase where
  | waiting
  | running
  | done
deriving DecidableEq, Repr

structure Late where
  id : ℕ := 0
  phase : LatePhase := .waiting
deriving Inhabited, DecidableEq, Repr

inductive StartPhase where
  | starting
  /-- the component has started; `cancelled` is the state of the context then -/
  | started (error : Option Err) (cancelled : Bool)
  | returned (error : Option Err) (cancelled : Bool)

structure Starting where
  scope : ℕ := 0
  stage : StartStage := .stateInitialize
  name : String := ""
  phase : StartPhase := .starting
deriving Inhabited

structure St where
  scopes : Table Scope
  /-- the scope that each cleanup was added to -/
  homes : Table ℕ := .empty
  lates : Table Late := .empty
  starts : Table Starting := .empty
  closings : Table Closing := .empty
  /-- the cleanups that have been run, in that order -/
  ended : List Entry := []

/-- `NewScope` -/
def init : St := { scopes := Table.empty.push {} }

inductive Op where
  | add (scope : ℕ)
  | lateBegin (i : ℕ)
  | lateEnd (i : ℕ)
  | start (scope component : ℕ) (stage : StartStage) (name : String)
  | started (i : ℕ) (error : Option Err)
  | startReturn (i : ℕ)
  | close (scope : ℕ)
  | next (k : ℕ)
  /-- that cleanup returns; for a child scope, with the error of its `Close` -/
  | finish (k : ℕ) (error : Option Err)
  | closeReturn (k : ℕ)
  /-- the cancellation of the parent reaches the context of a scope -/
  | propagate (scope : ℕ)
  /-- the context that the root scope was made with is cancelled -/
  | expire

/-! ## Steps -/

namespace Scope

def register (S : Scope) (e : Entry) : Scope :=
  { S with cleanups := S.cleanups ++ [e], registered := S.registered ++ [e] }

/-- the section of `Close` under the lock -/
def drain (S : Scope) (byParent : Bool) : Scope :=
  { S with
    cancelled := true, cleanups := [], children := [], closed := true
    byParent := S.byParent || (byParent && !S.closed) }

end Scope

namespace Closing

def begin (K : Closing) (r : Running) : Closing := { K with todo := K.todo.dropLast, current := some r }

def record (K : Closing) (e : Entry) (error : Option Err) : Closing :=
  { K with
    current := none, ran := K.ran ++ [(e, error)]
    cleanupErrors := K.cleanupErrors ++ (error.map expand).getD [] }

def closeError (K : Closing) : Option Err :=
  joinErrors (K.cleanupErrors.filter fun e => !expectedScopeCleanupError e)

end Closing

namespace St

section

variable (s : St)

def add (scope : ℕ) : St :=
  if scope < s.scopes.size then
    let S := s.scopes.get scope
    if S.cancelled then
      { s with homes := s.homes.push scope, lates := s.lates.push { id := s.homes.size } }
    else
      { s with homes := s.homes.push scope, scopes := s.scopes.set scope (S.register (.cleanup s.homes.size)) }
  else s

def lateBegin (i : ℕ) : St :=
  if i < s.lates.size ∧ (s.lates.get i).phase = .waiting then
    { s with lates := s.lates.set i { s.lates.get i with phase := .running } }
  else s

def lateEnd (i : ℕ) : St :=
  if i < s.lates.size ∧ (s.lates.get i).phase = .running then
    { s with
      lates := s.lates.set i { s.lates.get i with phase := .done }
      ended := s.ended ++ [.cleanup (s.lates.get i).id] }
  else s

def childScope (scope component : ℕ) (name : String) : St :=
  let S := s.scopes.get scope
  match S.children.lookup component with
  | some _ => s
  | none =>
    let c := s.scopes.size
    let S' := { S.register (.child c) with children := S.children ++ [(component, c)] }
    -- the context of the new scope is derived from one that is not cancelled
    { s with scopes := (s.scopes.set scope S').push { parent := scope, name } }

def start (scope component : ℕ) (stage : StartStage) (name : String) : St :=
  if scope < s.scopes.size then
    if (s.scopes.get scope).cancelled then
      { s with starts := s.starts.push { scope, stage, name, phase := .returned (some .contextCanceled) true } }
    else
      let s' := s.childScope scope component name
      { s' with starts := s'.starts.push { scope, stage, name } }
  else s

def started (i : ℕ) (error : Option Err) : St :=
  let r := s.starts.get i
  if i < s.starts.size then
    match r.phase with
    | .starting =>
      { s with starts := s.starts.set i { r with phase := .started error (s.scopes.get r.scope).cancelled } }
    | .started .. | .returned .. => s
  else s

def startReturn (i : ℕ) : St :=
  let r := s.starts.get i
  if i < s.starts.size then
    match r.phase with
    | .started error cancelled =>
      let error := match error with
        | none => if (s.scopes.get r.scope).cancelled then some Err.contextCanceled else none
        | some e => some e
      let phase := .returned (error.map (.wrap (r.stage.toString ++ " " ++ r.name))) cancelled
      { s with starts := s.starts.set i { r with phase } }
    | .starting | .returned .. => s
  else s

def close (scope : ℕ) (byParent : Bool) : St :=
  if scope < s.scopes.size then
    let S := s.scopes.get scope
    { s with
      scopes := s.scopes.set scope (S.drain byParent)
      closings := s.closings.push { scope, taken := S.cleanups, todo := S.cleanups } }
  else s

def next (k : ℕ) : St :=
  let K := s.closings.get k
  if k < s.closings.size ∧ K.current = none then
    match K.todo.getLast? with
    | none => s
    | some (.cleanup id) => { s with closings := s.closings.set k (K.begin (.cleanup id)) }
    | some (.child c) =>
      { s with closings := s.closings.set k (K.begin (.child c s.closings.size)) }.close c true
  else s

def finish (k : ℕ) (error : Option Err) : St :=
  let K := s.closings.get k
  if k < s.closings.size then
    match K.current with
    | none => s
    | some (.cleanup id) =>
      { s with
        closings := s.closings.set k (K.record (.cleanup id) error)
        ended := s.ended ++ [.cleanup id] }
    | some (.child c call) =>
      match (s.closings.get call).result with
      | none => s
      | some closeErr =>
        { s with
          closings := s.closings.set k
            (K.record (.child c) (closeErr.map (.wrap ("close " ++ (s.scopes.get c).name))))
          ended := s.ended ++ [.child c] }
  else s

def closeReturn (k : ℕ) : St :=
  let K := s.closings.get k
  if k < s.closings.size ∧ K.current = none ∧ K.todo = [] ∧ K.result = none then
    { s with closings := s.closings.set k { K with result := some K.closeError } }
  else s

def cancel (scope : ℕ) : St :=
  { s with scopes := s.scopes.set scope { s.scopes.get scope with cancelled := true } }

def propagate (scope : ℕ) : St :=
  if scope < s.scopes.size ∧ (s.scopes.get (s.scopes.get scope).parent).cancelled then s.cancel scope else s

end

end St

def step (s : St) : Op → St
  | .add scope => s.add scope
  | .lateBegin i => s.lateBegin i
  | .lateEnd i => s.lateEnd i
  | .start scope component stage name => s.start scope component stage name
  | .started i error => s.started i error
  | .startReturn i => s.startReturn i
  | .close scope => s.close scope false
  | .next k => s.next k
  | .finish k error => s.finish k error
  | .closeReturn k => s.closeReturn k
  | .propagate scope => s.propagate scope
  | .expire => s.cancel 0

def run (ops : List Op) : St := ops.foldl step init

end EtonifyCore.Lifecycle
