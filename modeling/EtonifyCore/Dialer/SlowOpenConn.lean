/-
`slowOpenConn` (`common/dialer/tfo.go`): the connection that the first `Write` dials.

Model: what a call does to a shared field is one step. The first `Close` runs, and the others wait for it.
-/
import Mathlib.Data.List.Count

namespace EtonifyCore.SlowOpenConn

/-! ## Model -/

inductive Phase (P : Type) where
  | free
  | checking (b : P)
  | dialing
  /-- before the second check of `done` -/
  | dialed
  | storing
  | ending

inductive Closer where
  | idle
  | signalled
  | found
  | returned
  deriving DecidableEq

structure St (P : Type) where
  create : Bool := false
  /-- `err` is set -/
  failed : Bool := false
  /-- the dial has given a connection, which is in `conn`, and which is closed -/
  made : Bool := false
  stored : Bool := false
  closed : Bool := false
  phase : Phase P := .free
  closer : Closer := .idle
  /-- payloads of `Write` calls: all of them, before the lock, refused, passed to a dial and written to the connection -/
  calls : List P := []
  waiting : List P := []
  refused : List P := []
  dials : List P := []
  written : List P := []

inductive Event (P : Type) where
  | write (b : P)
  | lock (b : P)
  /-- `create` is taken where both channels are ready -/
  | check (create : Bool)
  | dial (succeeds : Bool)
  | recheck
  | store
  | finish
  | read
  | close
  | load
  | closeConn

variable {P : Type} [DecidableEq P] {s : St P}

/-- the channel is closed first of all in `Close` -/
def St.done (s : St P) : Bool := s.closer ≠ .idle

def step (s : St P) : Event P → St P
  | .write b =>
    if s.stored then { s with calls := b :: s.calls, written := b :: s.written }
    else { s with calls := b :: s.calls, waiting := b :: s.waiting }
  | .lock b =>
    match s.phase with
    | .free => if b ∈ s.waiting then { s with waiting := s.waiting.erase b, phase := .checking b } else s
    | _ => s
  | .check create =>
    match s.phase with
    | .checking b =>
      if s.create && (create || !s.done) then
        if s.failed then { s with phase := .free, refused := b :: s.refused }
        else { s with phase := .free, written := b :: s.written }
      else if s.done then { s with phase := .free, refused := b :: s.refused }
      else { s with phase := .dialing, dials := b :: s.dials }
    | _ => s
  | .dial succeeds =>
    match s.phase with
    | .dialing =>
      if succeeds then { s with phase := .dialed, made := true } else { s with phase := .ending, failed := true }
    | _ => s
  | .recheck =>
    match s.phase with
    | .dialed =>
      if s.done then { s with phase := .ending, closed := true, failed := true } else { s with phase := .storing }
    | _ => s
  | .store =>
    match s.phase with
    | .storing => { s with phase := .ending, stored := true }
    | _ => s
  | .finish =>
    match s.phase with
    | .ending => { s with phase := .free, create := true }
    | _ => s
  | .read => s
  | .close => if s.done then s else { s with closer := .signalled }
  | .load =>
    if s.closer = .signalled then { s with closer := if s.stored then .found else .returned } else s
  | .closeConn => if s.closer = .found then { s with closer := .returned, closed := true } else s

/-! ## Invariant -/

def Phase.held : Phase P → List P
  | .checking b => [b]
  | _ => []

def Phase.opening : Phase P → Bool
  | .free | .checking _ => false
  | _ => true

structure Inv (s : St P) : Prop where
  dials : s.dials.length = if s.create || s.phase.opening then 1 else 0
  opening : s.phase.opening → s.create = false
  written : s.stored ∨ s.written ≠ [] → s.dials ≠ []
  passed : ∀ b, s.dials.count b + s.written.count b + s.refused.count b + s.waiting.count b + s.phase.held.count b
    = s.calls.count b
  made : s.made → s.closed ∨ s.stored ∨ s.phase = .dialed ∨ s.phase = .storing
  returned : s.closer = .returned → s.made → s.closed ∨ s.phase = .dialed

theorem step_inv (h : Inv s) (e : Event P) (hload : e = .load → s.phase ≠ .storing) : Inv (step s e) := by
  cases e with
  | read => exact h
  | write b =>
    have hpassed := h.passed
    rw [step]
    split_ifs with hstored
    · exact { h with written := fun _ => h.written (.inl hstored), passed := by grind }
    · exact { h with passed := by grind }
  | load =>
    rw [step]
    split_ifs with _ hstored
    · exact { h with returned := nofun }
    · refine { h with returned := fun _ hconn => ?_ }
      -- nothing is stored yet, so the connection is with a `Write` that has its check before it
      rcases h.made hconn with hclosed | hstored' | hdialed | hstoring
      · exact .inl hclosed
      · exact absurd hstored' hstored
      · exact .inr hdialed
      · exact absurd hstoring (hload rfl)
    · exact h
  | _ =>
    -- a `Write` that goes on has its own phase, and a `Close` that has returned left `done` closed for its check
    obtain ⟨hdials, hopening, hwritten, hpassed, hmade, hreturned⟩ := h
    simp only [step]
    constructor <;> grind -linarith [Phase.held, Phase.opening, St.done]

/-- no `Close` loads the connection while a `Write` is between the check and the store -/
def Ordered (s : St P) : List (Event P) → Prop
  | [] => True
  | e :: es => (e = .load → s.phase ≠ .storing) ∧ Ordered (step s e) es

theorem run_inv (h : Inv s) (es : List (Event P)) (hes : Ordered s es) : Inv (es.foldl step s) := by
  induction es generalizing s with
  | nil => exact h
  | cons e es ih => exact ih (step_inv h e hes.1) hes.2

structure Outcome (s : St P) : Prop where
  dials : s.dials.length ≤ 1
  first : s.written ≠ [] → s.dials ≠ []
  passed : ∀ b, s.dials.count b + s.written.count b ≤ s.calls.count b
  closed : s.closer = .returned → s.waiting = [] → s.phase = .free → s.made → s.closed

/-- **No connection is left open.** In every run of this kind. -/
theorem closed_of_ordered (es : List (Event P)) (h : Ordered {} es) : Outcome (es.foldl step ({} : St P)) := by
  have hinit : Inv ({} : St P) := ⟨rfl, by simp [Phase.opening], by simp, fun b => rfl, by simp, by simp⟩
  have hinv := run_inv hinit es h
  refine ⟨?_, fun hwritten => hinv.written (.inr hwritten), fun b => ?_, fun hclose _ hfree hmade => ?_⟩
  · have hdials := hinv.dials
    split_ifs at hdials <;> omega
  · have hpassed := hinv.passed b
    omega
  · have hclosed := hinv.returned hclose hmade
    simpa [hfree] using hclosed

theorem closed_of_ordered_dialing : Outcome ([.write 0, .lock 0, .check false, .close, .load, .dial true, .recheck,
    .finish].foldl step ({} : St ℕ)) := closed_of_ordered _ (by simp [Ordered, step, St.done])

/-- the `Write` has seen `done` open, and stores the connection behind `Close` -/
theorem stored_behind_close : ¬ Outcome ([.write 0, .lock 0, .check false, .dial true, .recheck, .close, .load, .store,
    .finish].foldl step ({} : St ℕ)) := fun h => nomatch h.closed rfl rfl rfl rfl

end EtonifyCore.SlowOpenConn
