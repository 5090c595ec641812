/-
`waitReadCloser` (`transport/v2rayxhttp/conn.go`): the response of a request, for which readers wait.

Model: a call is its section under the lock; the close of a body behind the section is a step of its own. Bodies are numbers,
and not `nil`. Left out: `Wait` that returns the error of its context.
-/
import Mathlib.Data.List.Count

namespace EtonifyCore.WaitReadCloser

/-! ## Model -/

inductive Err where
  | unexpectedEOF
  | closedPipe
  | other (code : ℕ)

/-- what `Read` and `Wait` find -/
inductive Outcome where
  | body (b : ℕ)
  | failed (err : Err)

structure St where
  reader : Option ℕ := none
  err : Option Err := none
  closed : Bool := false
  once : Bool := false
  ready : ℕ := 0
  /-- what the first of `Set`, `Fail` and `Close` asks for -/
  first : Option Outcome := none
  found : List Outcome := []
  /-- bodies that have been passed to `Set`, that `Set` has yet to close, that `Close` has yet to close, and closed ones -/
  passed : List ℕ := []
  refused : List ℕ := []
  closing : List ℕ := []
  log : List ℕ := []

inductive Op where
  | set (b : ℕ)
  | fail (err : Option Err)
  | close
  | read
  | closeRefused (b : ℕ)
  | closeReader (b : ℕ)

namespace St

variable (s : St)

/-- `once.Do` closes the channel -/
def signalLocked : St := { s with once := true, ready := if s.once then s.ready else s.ready + 1 }

def decide (o : Outcome) : St := { s with first := s.first.or (some o) }

def taken : Bool := s.closed || s.reader.isSome || s.err.isSome

def set (b : ℕ) : St :=
  if s.taken then { s with passed := b :: s.passed, refused := b :: s.refused }
  else { s with passed := b :: s.passed, reader := some b }.signalLocked

def fail (err : Err) : St := if s.taken then s else { s with err := some err }.signalLocked

def close : St :=
  if s.closed then s
  else
    { s with
      closed := true
      err := if s.reader.isNone && s.err.isNone then some .closedPipe else s.err
      closing := s.reader.toList ++ s.closing }.signalLocked

def read : Outcome :=
  match s.reader, s.err with
  | some b, _ => .body b
  | none, some err => .failed err
  | none, none => .failed (if s.closed then .closedPipe else .unexpectedEOF)

end St

def step (s : St) : Op → St
  | .set b => (s.decide (.body b)).set b
  | .fail err => (s.decide (.failed (err.getD .unexpectedEOF))).fail (err.getD .unexpectedEOF)
  | .close => (s.decide (.failed .closedPipe)).close
  | .read => if s.ready = 0 then s else { s with found := s.read :: s.found }
  | .closeRefused b => if b ∈ s.refused then { s with refused := s.refused.erase b, log := b :: s.log } else s
  | .closeReader b => if b ∈ s.closing then { s with closing := s.closing.erase b, log := b :: s.log } else s

def run (ops : List Op) : St := ops.foldl step {}

/-! ## Invariant -/

/-- the body that `Close` would close -/
def St.slot (s : St) : List ℕ := if s.closed then [] else s.reader.toList

def Decided (s : St) : Prop :=
  match s.first with
  | none => s.reader = none ∧ s.err = none ∧ s.closed = false ∧ s.once = false ∧ s.ready = 0
  | some (.body b) => s.reader = some b ∧ s.once = true ∧ s.ready = 1
  | some (.failed err) => s.reader = none ∧ s.err = some err ∧ s.once = true ∧ s.ready = 1

structure Inv (s : St) : Prop where
  decided : Decided s
  found : ∀ o ∈ s.found, s.first = some o
  owed : ∀ b, s.log.count b + s.refused.count b + s.closing.count b + s.slot.count b = s.passed.count b

variable {s : St}

theorem Inv.decide_of_taken (h : Inv s) (htaken : s.taken) (o : Outcome) : s.decide o = s := by
  have hdecided := h.decided
  unfold Decided at hdecided
  split at hdecided
  case h_1 => simp [St.taken, hdecided] at htaken
  all_goals
    rename_i hfirst
    rw [St.decide, hfirst, Option.some_or, ← hfirst]

theorem Inv.fresh (h : Inv s) (htaken : s.taken = false) :
    s.first = none ∧ s.found = [] ∧ s.reader = none ∧ s.err = none ∧ s.closed = false ∧ s.once = false ∧ s.ready = 0 := by
  have hdecided := h.decided
  unfold Decided at hdecided
  split at hdecided
  case h_1 hfirst =>
    refine ⟨hfirst, List.eq_nil_iff_forall_not_mem.2 fun o ho => ?_, hdecided⟩
    rw [h.found o ho] at hfirst
    cases hfirst
  all_goals simp [St.taken, hdecided] at htaken

theorem Inv.set (h : Inv s) (b : ℕ) : Inv (step s (.set b)) := by
  cases htaken : s.taken with
  | true =>
    rw [step, h.decide_of_taken htaken, St.set, if_pos htaken]
    refine ⟨h.decided, h.found, fun b' => ?_⟩
    have howed := h.owed b'
    simp only [St.slot, List.count_cons] at howed ⊢
    omega
  | false =>
    obtain ⟨hfirst, hfound, hreader, -, hclosed, honce, hready⟩ := h.fresh htaken
    rw [step, St.set, if_neg (by exact ne_true_of_eq_false htaken)]
    refine ⟨?_, ?_, fun b' => ?_⟩
    · simp [Decided, St.decide, St.signalLocked, *]
    · simp [St.decide, St.signalLocked, hfound]
    · have howed := h.owed b'
      simp only [St.slot, hclosed, hreader] at howed
      simp [St.decide, St.signalLocked, St.slot, List.count_cons, hclosed, ← howed]

theorem Inv.fail (h : Inv s) (err : Option Err) : Inv (step s (.fail err)) := by
  cases htaken : s.taken with
  | true =>
    rw [step, h.decide_of_taken htaken, St.fail, if_pos htaken]
    exact h
  | false =>
    obtain ⟨hfirst, hfound, hreader, -, hclosed, honce, hready⟩ := h.fresh htaken
    rw [step, St.fail, if_neg (by exact ne_true_of_eq_false htaken)]
    refine ⟨?_, ?_, h.owed⟩
    · simp [Decided, St.decide, St.signalLocked, *]
    · simp [St.decide, St.signalLocked, hfound]

theorem Inv.close (h : Inv s) : Inv (step s .close) := by
  cases hclosed : s.closed with
  | true =>
    rw [step, h.decide_of_taken (by simp [St.taken, hclosed]), St.close, if_pos hclosed]
    exact h
  | false =>
    rw [step, St.close, if_neg (by simp [St.decide, hclosed])]
    refine ⟨?_, fun o ho => ?_, fun b => ?_⟩
    · have hdecided := h.decided
      unfold Decided at hdecided ⊢
      split at hdecided <;> simp [St.decide, St.signalLocked, *]
    · simp [St.decide, St.signalLocked, h.found o ho]
    · have howed := h.owed b
      simp only [St.slot, hclosed, Bool.false_eq_true, if_false] at howed
      simp only [St.decide, St.signalLocked, St.slot, if_true, List.count_append, List.count_nil]
      omega

theorem Inv.read (h : Inv s) : Inv (step s .read) := by
  rw [step]
  split_ifs
  · exact h
  · refine ⟨h.decided, List.forall_mem_cons.2 ⟨?_, h.found⟩, h.owed⟩
    have hdecided := h.decided
    unfold Decided at hdecided
    split at hdecided <;> simp_all [St.read]

theorem count_close {b : ℕ} {bodies : List ℕ} (h : b ∈ bodies) (log : List ℕ) (b' : ℕ) :
    (b :: log).count b' + (bodies.erase b).count b' = log.count b' + bodies.count b' := by
  rw [(List.perm_cons_erase h).count_eq b', List.count_cons, List.count_cons]
  omega

theorem step_inv (h : Inv s) (op : Op) : Inv (step s op) := by
  cases op with
  | set b => exact h.set b
  | fail err => exact h.fail err
  | close => exact h.close
  | read => exact h.read
  | closeRefused b | closeReader b =>
    rw [step]
    split_ifs with hmem
    · refine ⟨h.decided, h.found, fun b' => ?_⟩
      have howed := h.owed b'
      have hcount := count_close hmem s.log b'
      simp only [St.slot] at howed ⊢
      omega
    · exact h

structure Outcomes (s : St) : Prop where
  found : ∀ o ∈ s.found, s.first = some o
  ready : s.ready = if s.first.isSome then 1 else 0
  atMost : ∀ b, s.log.count b ≤ s.passed.count b
  closed : ∀ b ∉ s.refused, s.closed = true → s.closing = [] → s.log.count b = s.passed.count b

/-- **The first call decides** what readers find, and `ready` is closed once. A body is closed as often as it is passed to
`Set` when these calls and the first `Close` have returned. -/
theorem outcome_decided (ops : List Op) : Outcomes (run ops) := by
  have h : Inv (run ops) := List.foldlRecOn ops step ⟨⟨rfl, rfl, rfl, rfl, rfl⟩, nofun, fun b => rfl⟩
    fun s hs op _ => step_inv hs op
  refine ⟨h.found, ?_, fun b => ?_, fun b hrefused hclosed hclosing => ?_⟩
  · have hdecided := h.decided
    unfold Decided at hdecided
    split at hdecided <;> simp [*]
  · have howed := h.owed b
    omega
  · have howed := h.owed b
    rw [List.count_eq_zero_of_not_mem hrefused, hclosing, St.slot, if_pos hclosed] at howed
    simpa using howed

/-- the second `Close` has returned, and the first one has not closed the body yet -/
theorem second_close_returns : let s := run [.set 0, .close, .close]
    0 ∉ s.refused ∧ s.closed = true ∧ s.log.count 0 ≠ s.passed.count 0 := by decide

end EtonifyCore.WaitReadCloser
