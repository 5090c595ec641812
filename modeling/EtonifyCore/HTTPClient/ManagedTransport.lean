/-
The epochs of `ManagedTransport` (`common/httpclient/managed_transport.go`): an inner HTTP transport that is replaced
while requests are still running on it.

A request counts itself as active in the current epoch and gives the count back when it has failed or its body is closed.
`Reset` and `CloseIdleConnections` take the epoch out, mark it, and close its transport when nobody is active; otherwise the
last one to give its count back does.

Model: a call is a goroutine; its `Phase` says which of its atomic steps comes next. What the factory and the inner transport
answer comes with the operation. Ghost state: `replaced` says that an epoch was taken out, `replacedBefore` which ones were
when the call began. Left out: what a request is changed to, and `close`, which the client manager calls at its own end.
-/
import EtonifyCore.Core.Table

namespace EtonifyCore.ManagedTransport

open Core (Table)

/-! ## States -/

structure Epoch where
  active : ℤ
  marked : Bool
  /-- `closeOnce` has run -/
  closeOnce : Bool
  closed : ℕ
  replaced : Bool
  deriving DecidableEq, Repr

instance : Inhabited Epoch := ⟨⟨0, false, false, 0, false⟩⟩

/-- who builds a transport under `rebuildAccess`: `getEpoch`, or `Reset` after it took out `old` -/
inductive Builder
  | getEpoch
  | reset (old : Option ℕ)
  deriving DecidableEq, Repr

inductive Phase
  /-- `getEpoch`: the load before the lock -/
  | load
  | lock (b : Builder)
  /-- the load under the lock -/
  | loadAgain (b : Builder)
  | factory (b : Builder)
  | store (b : Builder)
  | unlock (b : Builder) (epoch : Option ℕ)
  /-- `acquireEpoch`: `active.Add(1)` -/
  | add (epoch : ℕ)
  /-- `epoch == t.epoch.Load()` -/
  | verify (epoch : ℕ)
  /-- the inner `RoundTrip` -/
  | request (epoch : ℕ)
  /-- the response body is open -/
  | body (epoch : ℕ)
  /-- `releaseEpoch`: `active.Add(-1)`; `again` when `acquireEpoch` goes on to try again -/
  | release (epoch : ℕ) (again : Bool)
  /-- `marked.Load()`, after the addition gave zero -/
  | loadMarked (epoch : ℕ) (again : Bool)
  | releaseClose (epoch : ℕ) (again : Bool)
  /-- `Reset` or `CloseIdleConnections`: `t.epoch.Swap(nil)` -/
  | swap (reset : Bool)
  | closeIdle (epoch : ℕ)
  /-- `retireEpoch`: `marked.Store(true)` -/
  | mark (epoch : ℕ)
  | loadActive (epoch : ℕ)
  | retireClose (epoch : ℕ)
  | returned
  deriving DecidableEq, Repr

structure Call where
  phase : Phase
  replacedBefore : ℕ → Bool

instance : Inhabited Call := ⟨⟨.returned, fun _ => false⟩⟩

structure St where
  epochs : Table Epoch
  /-- the pointer `t.epoch` -/
  current : Option ℕ
  rebuildAccess : Option ℕ
  calls : Table Call

def init : St := ⟨.empty, none, none, .empty⟩

/-! ## Steps -/

namespace St

variable (st : St)

def goto (i : ℕ) (phase : Phase) : St :=
  { st with calls := st.calls.set i { st.calls.get i with phase } }

def withEpoch (e : ℕ) (epoch : Epoch) : St := { st with epochs := st.epochs.set e epoch }

def tryClose (e : ℕ) : St :=
  let epoch := st.epochs.get e
  if epoch.closeOnce then st else st.withEpoch e { epoch with closeOnce := true, closed := epoch.closed + 1 }

end St

def afterRelease (again : Bool) : Phase := if again then .load else .returned

def retire : Option ℕ → Phase
  | none => .returned
  | some e => .mark e

/-- after `rebuildAccess.Unlock()`: `getEpoch` has an epoch or the error of the factory, `Reset` retires the old one -/
def afterUnlock : Builder → Option ℕ → Phase
  | .getEpoch, some e => .add e
  | .getEpoch, none => .returned
  | .reset old, _ => retire old

def afterSwap (cheapRebuild reset : Bool) (old : Option ℕ) : Phase :=
  if reset then if cheapRebuild then .lock (.reset old) else retire old
  else
    match old with
    | none => .returned
    | some e => .closeIdle e

def advance (cheapRebuild : Bool) (st : St) (i : ℕ) (ok : Bool) : St :=
  match (st.calls.get i).phase with
  | .load =>
    match st.current with
    | some e => st.goto i (.add e)
    | none => st.goto i (.lock .getEpoch)
  | .lock b =>
    match st.rebuildAccess with
    | some _ => st
    | none => { st with rebuildAccess := some i }.goto i (.loadAgain b)
  | .loadAgain b =>
    match st.current with
    | some e => st.goto i (.unlock b (some e))
    | none => st.goto i (.factory b)
  | .factory b => if ok then st.goto i (.store b) else st.goto i (.unlock b none)
  | .store b =>
    { st with epochs := st.epochs.push default, current := some st.epochs.size }.goto i
      (.unlock b (some st.epochs.size))
  | .unlock b epoch => { st with rebuildAccess := none }.goto i (afterUnlock b epoch)
  | .add e =>
    let epoch := st.epochs.get e
    (st.withEpoch e { epoch with active := epoch.active + 1 }).goto i (.verify e)
  | .verify e => if st.current = some e then st.goto i (.request e) else st.goto i (.release e true)
  | .request e => if ok then st.goto i (.body e) else st.goto i (.release e false)
  | .body _ => st
  | .release e again =>
    let epoch := st.epochs.get e
    let st' := st.withEpoch e { epoch with active := epoch.active - 1 }
    if epoch.active - 1 = 0 then st'.goto i (.loadMarked e again) else st'.goto i (afterRelease again)
  | .loadMarked e again =>
    if (st.epochs.get e).marked then st.goto i (.releaseClose e again) else st.goto i (afterRelease again)
  | .releaseClose e again => (st.tryClose e).goto i (afterRelease again)
  | .swap reset =>
    match st.current with
    | none => st.goto i (afterSwap cheapRebuild reset none)
    | some e =>
      ({ st with current := none }.withEpoch e { st.epochs.get e with replaced := true }).goto i
        (afterSwap cheapRebuild reset (some e))
  | .closeIdle e => st.goto i (.mark e)
  | .mark e => (st.withEpoch e { st.epochs.get e with marked := true }).goto i (.loadActive e)
  | .loadActive e => if (st.epochs.get e).active = 0 then st.goto i (.retireClose e) else st.goto i .returned
  | .retireClose e => (st.tryClose e).goto i .returned
  | .returned => st

inductive Op
  | roundTrip
  | reset
  | closeIdleConnections
  | advance (i : ℕ) (ok : Bool)
  /-- `Close` of the response body of call `i`: only the first one gives the count back -/
  | closeBody (i : ℕ)
  deriving DecidableEq, Repr

def St.begin (st : St) (phase : Phase) : St :=
  { st with calls := st.calls.push ⟨phase, fun e => decide (e < st.epochs.size) && (st.epochs.get e).replaced⟩ }

def step (cheapRebuild : Bool) (st : St) : Op → St
  | .roundTrip => st.begin .load
  | .reset => st.begin (.swap true)
  | .closeIdleConnections => st.begin (.swap false)
  | .advance i ok => if i < st.calls.size then advance cheapRebuild st i ok else st
  | .closeBody i =>
    if i < st.calls.size then
      match (st.calls.get i).phase with
      | .body e => st.goto i (.release e false)
      | _ => st
    else st

def run (cheapRebuild : Bool) (ops : List Op) : St := ops.foldl (step cheapRebuild) init

/-! ## What a phase has to do with an epoch -/

def Phase.counted (e : ℕ) : Phase → ℕ
  | .verify e' | .request e' | .body e' | .release e' _ => if e' = e then 1 else 0
  | _ => 0

/-- `RoundTrip` was given the epoch, and has not yet failed or had its response body closed -/
def Phase.uses (e : ℕ) : Phase → Bool
  | .request e' | .body e' => e' = e
  | .release e' again => e' = e && !again
  | _ => false

def Builder.retires (e : ℕ) : Builder → Bool
  | .getEpoch => false
  | .reset old => old = some e

def Phase.retires (e : ℕ) : Phase → Bool
  | .lock b | .loadAgain b | .factory b | .store b | .unlock b _ => b.retires e
  | .closeIdle e' | .mark e' | .loadActive e' | .retireClose e' => e' = e
  | _ => false

def Phase.finishes (e : ℕ) : Phase → Bool
  | .loadMarked e' _ | .releaseClose e' _ => e' = e
  | _ => false

def Phase.pending (e : ℕ) : Phase → Bool
  | .loadMarked e' _ => e' = e
  | _ => false

def Phase.acquires (e : ℕ) : Phase → Bool
  | .unlock .getEpoch (some e') | .add e' | .verify e' | .release e' true | .loadMarked e' true
  | .releaseClose e' true => e' = e
  | _ => false

end EtonifyCore.ManagedTransport
