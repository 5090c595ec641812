/-
URL test sessions: `startURLTest`, the workers of a session, and the end of its run.

A session is registered under the tag of its group, or group and target. Its workers take targets from a queue, probe them
and record the results. A request for one target joins a session of the group that has it; a forced one takes it out of there.

Model: an `Act` is one section under a lock, or one read of what others change. `Act.requestCancel` and `Act.cancel` may come
at any time: a user who cancels, the service that stops, a change of the eligible tags, the deadline. The context of the run
sees later that a context is done (`Act.propagate`). A request is one step; what it does in the queue of another session is
`Act.prioritize` and `Act.remove`. `probed`, `recorded`, `removed` and `statuses` log what a session has done.

Left out: how a request finds its targets (they come with it, without duplicates), subscribers, updates of the selection.
-/
import EtonifyCore.Core.Table

namespace EtonifyCore.Daemon

open Core (Table)

abbrev Tag := List Char

/-- `HistoryStorage`: the network, and the tags that are not tested on it -/
structure Storage where
  generation : ℕ := 0
  /-- `eligibilityRevision` -/
  revision : ℕ := 0
  excluded : List Tag := []
deriving DecidableEq, Repr

/-! ## Queue -/

structure Queue where
  pending : List Tag
  known : List Tag
deriving DecidableEq, Repr

namespace Queue

def new (targets : List Tag) : Queue := ⟨targets, targets⟩

def take (q : Queue) : Option (Tag × Queue) :=
  match q.pending with
  | [] => none
  | tag :: rest => some (tag, { q with pending := rest })

/-- move a tag to the front; true also for one that was taken before -/
def prioritize (q : Queue) (tag : Tag) : Bool × Queue :=
  if tag ∉ q.known then (false, q)
  else if tag ∈ q.pending then (true, { q with pending := tag :: q.pending.erase tag })
  else (true, q)

def remove (q : Queue) (tag : Tag) : Queue := { q with pending := q.pending.erase tag }

end Queue

/-! ## Sessions -/

inductive CancelReason where
  | eligibilityChanged
  | networkChanged
  | serviceStopped
  | userCancelled
deriving DecidableEq, Repr

inductive ContextErr where
  | canceled
  | deadlineExceeded
deriving DecidableEq, Repr

inductive TerminalReason where
  | requested (reason : CancelReason)
  | deadline
  | cancelled
  | completed
deriving DecidableEq, Repr

/-- `URLTestSessionStatus`; without a reason the session is running -/
structure Status where
  terminalReason : Option TerminalReason
  total : ℕ
  completed : ℕ
  available : ℕ
  unavailable : ℕ
deriving DecidableEq, Repr

inductive Worker where
  | ready
  | took (tag : Tag)
  /-- in `probe`: before it looks at the context, at the excluded tags, and at the generation -/
  | starting (tag : Tag)
  | alive (tag : Tag)
  | eligible (tag : Tag)
  /-- in `requestCancel`, and behind it -/
  | refusing (tag : Tag)
  | cancelling (tag : Tag)
  | cancelled (tag : Tag)
  | probing (tag : Tag)
  /-- in the handler of the result: before it looks at the session, at the context, at the suppressed tags, and stores -/
  | answered (tag : Tag) (available : Bool)
  | current (tag : Tag) (available : Bool)
  | live (tag : Tag) (available : Bool)
  | wanted (tag : Tag) (available : Bool)
  | stored (tag : Tag) (available : Bool)
  | reporting
  | exited
deriving DecidableEq, Repr, Inhabited

inductive Phase where
  | registered
  | announced
  | running
  | drained
  | reported
  | finished
  | ended
deriving DecidableEq, Repr, Inhabited

structure Session where
  key : Tag
  full : Bool
  targets : List Tag
  concurrency : ℕ
  /-- `networkGeneration` -/
  generation : ℕ
  queue : Queue
  phase : Phase := .registered
  workers : Table Worker := Table.empty
  /-- the error of its context, and whether the context of its run is done -/
  err : Option ContextErr := none
  runDone : Bool := false
  /-- the revision that the run has started with -/
  revision : Option ℕ := none
  cancelReason : Option CancelReason := none
  suppressed : List Tag := []
  completedCount : ℕ := 0
  availableCount : ℕ := 0
  unavailableCount : ℕ := 0
  /-- drained, and kept for late requests -/
  completed : Bool := false
  probed : List Tag := []
  recorded : List (Tag × Bool) := []
  removed : List Tag := []
  statuses : List Status := []

instance : Inhabited Session := ⟨{ key := [], full := false, targets := [], concurrency := 0, generation := 0, queue := .new [] }⟩

inductive Act where
  | worker (w : ℕ)
  | returned (w : ℕ) (available : Bool)
  | prioritize (tag : Tag)
  | remove (tag : Tag)
  | suppress (tag : Tag)
  | requestCancel (reason : CancelReason)
  | cancel (err : ContextErr)
  | propagate
  | announce
  | start
  | drain
  | report
  | release
deriving DecidableEq, Repr

namespace Session

variable (s : Session)

def recordResult (tag : Tag) (available : Bool) : Session :=
  { s with
    completedCount := s.completedCount + 1
    availableCount := if available then s.availableCount + 1 else s.availableCount
    unavailableCount := if available then s.unavailableCount else s.unavailableCount + 1
    recorded := s.recorded ++ [(tag, available)] }

def emit (reason : Option TerminalReason) : Session :=
  { s with
    statuses := s.statuses ++
      [⟨reason, s.targets.length, s.completedCount, s.availableCount, s.unavailableCount⟩] }

def terminalReason : TerminalReason :=
  match s.cancelReason, s.err with
  | some reason, _ => .requested reason
  | none, some .deadlineExceeded => .deadline
  | none, some .canceled => .cancelled
  | none, none => .completed

def setReason (reason : CancelReason) : Session := { s with cancelReason := s.cancelReason.or (some reason) }

def cancel (err : ContextErr) : Session := { s with err := s.err.or (some err) }

def setWorker (w : ℕ) (worker : Worker) : Session := { s with workers := s.workers.set w worker }

def workerStep (storage : Storage) (registered : Bool) (w : ℕ) : Session :=
  match s.workers.get w with
  | .ready =>
    if s.runDone then s.setWorker w .exited
    else
      match s.queue.take with
      | none => s.setWorker w .exited
      | some (tag, queue) => { s with queue }.setWorker w (.took tag)
  | .took tag => s.setWorker w (if s.runDone then .exited else .starting tag)
  | .starting tag => s.setWorker w (if s.runDone then .refusing tag else .alive tag)
  | .alive tag => s.setWorker w (if tag ∈ storage.excluded then .refusing tag else .eligible tag)
  | .eligible tag =>
    if s.generation ≠ storage.generation then s.setWorker w (.refusing tag)
    else { s with probed := s.probed ++ [tag] }.setWorker w (.probing tag)
  | .refusing tag => (s.setReason .networkChanged).setWorker w (.cancelling tag)
  | .cancelling tag => (s.cancel .canceled).setWorker w (.cancelled tag)
  | .cancelled tag => if s.runDone then s.setWorker w (.answered tag false) else s
  | .probing _ => s
  | .answered tag available => s.setWorker w (if registered then .current tag available else .ready)
  | .current tag available => s.setWorker w (if s.runDone then .ready else .live tag available)
  | .live tag available => s.setWorker w (if tag ∈ s.suppressed then .ready else .wanted tag available)
  | .wanted tag available =>
    -- `StoreForEligibility`
    if s.generation ≠ storage.generation ∨ s.revision ≠ some storage.revision ∨ tag ∈ storage.excluded then
      s.setWorker w .ready
    else s.setWorker w (.stored tag available)
  | .stored tag available => (s.recordResult tag available).setWorker w .reporting
  | .reporting => (s.emit none).setWorker w .ready
  | .exited => s

/-- `runURLTestQueue` starts at least one worker, and no more than there are targets -/
def workerCount : ℕ := min (max s.concurrency 1) s.targets.length

def act (storage : Storage) (registered : Bool) : Act → Session
  | .worker w => if w < s.workers.size then s.workerStep storage registered w else s
  | .returned w available =>
    match s.workers.get w with
    | .probing tag => if w < s.workers.size then s.setWorker w (.answered tag available) else s
    | _ => s
  | .prioritize tag => { s with queue := (s.queue.prioritize tag).2 }
  | .remove tag => { s with queue := s.queue.remove tag, removed := tag :: s.removed }
  | .suppress tag => { s with suppressed := tag :: s.suppressed }
  | .requestCancel reason => s.setReason reason
  | .cancel err => s.cancel err
  | .propagate => if s.err.isSome then { s with runDone := true } else s
  | .announce => if s.phase = .registered then { s.emit none with phase := .announced } else s
  | .start =>
    if s.phase = .announced then
      { s with
        phase := .running
        revision := some storage.revision
        workers := ⟨s.workerCount, fun _ => .ready⟩ }
    else s
  | .drain =>
    if s.phase = .running ∧ ∀ w < s.workers.size, s.workers.get w = .exited then { s with phase := .drained } else s
  | .report => if s.phase = .drained then { s.emit (some s.terminalReason) with phase := .reported } else s
  | .release => if s.phase = .finished then { s.cancel .canceled with phase := .ended } else s

end Session

/-! ## The service -/

structure Request where
  groupTag : Tag
  target : Option Tag
  members : List Tag
  force : Bool
  concurrency : ℕ
  nodup : members.Nodup

namespace Request

variable (r : Request)

def targets : List Tag :=
  match r.target with
  | some tag => [tag]
  | none => r.members

def targetKey (groupTag tag : Tag) : Tag := groupTag ++ "\x00target\x00".toList ++ tag

def key : Tag :=
  match r.target with
  | some tag => targetKey r.groupTag tag
  | none => r.groupTag

def session (generation : ℕ) : Session where
  key := r.key
  full := r.target.isNone
  targets := r.targets
  concurrency := r.concurrency
  generation := generation
  queue := .new r.targets

theorem nodup_targets : r.targets.Nodup := by
  unfold targets
  cases r.target with
  | none => exact r.nodup
  | some tag => exact List.nodup_singleton tag

end Request

structure St where
  storage : Storage := {}
  /-- `urlTestSessions`: the number of the session of each key -/
  registered : Tag → Option ℕ := fun _ => none
  sessions : Table Session := Table.empty

namespace St

variable (s : St)

def isCurrent (i : ℕ) : Bool := s.registered (s.sessions.get i).key = some i

def act (i : ℕ) (a : Act) : St :=
  { s with sessions := s.sessions.set i ((s.sessions.get i).act s.storage (s.isCurrent i) a) }

def owner (groupTag : Tag) : Option ℕ :=
  (s.registered groupTag).filter fun i =>
    (s.sessions.get i).full ∧ (s.sessions.get i).err = none ∧ (s.sessions.get i).generation = s.storage.generation

def joins (i : ℕ) (targeted : Bool) : Bool :=
  ((s.sessions.get i).err = none ∨ ((s.sessions.get i).completed = true ∧ targeted = true)) ∧
    (s.sessions.get i).generation = s.storage.generation

def register (r : Request) : St :=
  { s with
    registered := Function.update s.registered r.key (some s.sessions.size)
    sessions := s.sessions.push (r.session s.storage.generation) }

/-- the second half of `startURLTest`; the result says whether a session was started -/
def enter (r : Request) : St × Bool :=
  match s.registered r.key with
  | none => (s.register r, true)
  | some i =>
    if r.force = false ∧ s.joins i r.target.isSome then (s, false) else ((s.act i (.cancel .canceled)).register r, true)

def startURLTest (r : Request) : St × Bool :=
  match r.target, s.owner r.groupTag with
  | some tag, some i =>
    if r.force then ((s.act i (.remove tag)).act i (.suppress tag)).enter r
    else if ((s.sessions.get i).queue.prioritize tag).1 then (s.act i (.prioritize tag), false)
    else s.enter r
  | _, _ => s.enter r

def unregister (i : ℕ) : St :=
  if s.isCurrent i then { s with registered := Function.update s.registered (s.sessions.get i).key none } else s

/-- `finishURLTestSession`, behind the terminal status: a drained session of a whole group stays in the map -/
def finish (i : ℕ) : St :=
  let session := s.sessions.get i
  if session.phase = .reported then
    let kept := s.isCurrent i && session.full && session.err.isNone
    let finished :=
      { s with sessions := s.sessions.set i { session with phase := .finished, completed := session.completed || kept } }
    if kept then finished else finished.unregister i
  else s

end St

inductive Op where
  | startURLTest (r : Request)
  | act (i : ℕ) (a : Act)
  | finish (i : ℕ)
  | retire (i : ℕ)
  | unregister (i : ℕ)
  | resetNetwork
  | setExcludedTags (tags : List Tag)

def step (s : St) : Op → St
  | .startURLTest r => (s.startURLTest r).1
  | .act i a => if i < s.sessions.size then s.act i a else s
  | .finish i => if i < s.sessions.size then s.finish i else s
  | .retire i => if i < s.sessions.size ∧ (s.sessions.get i).completed = true then s.unregister i else s
  | .unregister i => if i < s.sessions.size ∧ (s.sessions.get i).err.isSome then s.unregister i else s
  | .resetNetwork => { s with storage := { s.storage with generation := s.storage.generation + 1 } }
  | .setExcludedTags tags =>
    { s with storage := { s.storage with revision := s.storage.revision + 1, excluded := tags } }

def run (ops : List Op) : St := ops.foldl step {}

end EtonifyCore.Daemon
