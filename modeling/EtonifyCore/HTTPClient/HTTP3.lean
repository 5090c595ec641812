/-
`http3FallbackTransport`: the back-off of HTTP/3, and the bodies of the requests it retries.

Model: times are nanoseconds of one clock. `ErrNoCachedConn` and `errHTTP2Fallback` come before anything of the body is read.
-/
import Mathlib.Tactic

namespace EtonifyCore.HTTP3

open Function

/-! ## The back-off -/

def minute : ℕ := 60 * 10 ^ 9

structure BrokenEntry where
  untilTime : ℕ := 0
  backoff : ℕ := 0

abbrev Broken := String → Option BrokenEntry

section

variable (broken : Broken) (authority : String)

def h3Broken (now : ℕ) : Bool × Broken :=
  if authority = "" then (false, broken)
  else match broken authority with
    | none => (false, broken)
    | some entry =>
      if entry.untilTime = 0 ∨ ¬now < entry.untilTime then (false, update broken authority none) else (true, broken)

def clearH3Broken : Broken :=
  if authority = "" then broken else update broken authority none

def markH3Broken (now : ℕ) : Broken :=
  if authority = "" then broken
  else
    let entry := (broken authority).getD {}
    let backoff :=
      if entry.backoff = 0 then 5 * minute
      else if entry.backoff * 2 > 48 * 60 * minute then 48 * 60 * minute else entry.backoff * 2
    update broken authority (some ⟨now + backoff, backoff⟩)

end

/-- what the requests to one authority do, each `after` some time -/
inductive Event where
  | request (after : ℕ)
  | succeeded
  /-- it fails; the code does not look at why -/
  | failed (after : ℕ) (cancelled : Bool)
  /-- the fallback wins the race, and the result of HTTP/3 is not looked at -/
  | outrun

/-- `attempts` are under way; `failures` of them in a row have failed, the last one at `last` -/
structure State where
  broken : Broken := fun _ => none
  attempts : ℕ := 0
  clock : ℕ := 0
  failures : ℕ := 0
  last : ℕ := 0
  cancelled : Bool := false

variable (authority : String)

/-- the calls of `roundTripHTTP3` on `broken`; a result without an attempt under way is none -/
def step (s : State) : Event → State
  | .request after =>
    let (skip, broken) := h3Broken s.broken authority (s.clock + after)
    { s with broken, clock := s.clock + after, attempts := if skip then s.attempts else s.attempts + 1 }
  | .succeeded =>
    if s.attempts = 0 then s
    else { s with broken := clearH3Broken s.broken authority, attempts := s.attempts - 1, failures := 0 }
  | .failed after cancelled =>
    if s.attempts = 0 then s
    else
      let now := s.clock + after
      { broken := markH3Broken s.broken authority now, attempts := s.attempts - 1, clock := now
        failures := s.failures + 1, last := now, cancelled }
  | .outrun => { s with attempts := s.attempts - 1 }

/-- how long the period after `k` failures in a row lasts -/
def lasts (k : ℕ) : ℕ := min (5 * minute * 2 ^ (k - 1)) (48 * 60 * minute)

/-- HTTP/3 is skipped in the period of the last failure, and only if that was one of HTTP/3 itself -/
def BacksOff (s : State) : Prop :=
  ∀ now, s.clock ≤ now →
    ((h3Broken s.broken authority now).1 = true ↔ s.failures ≠ 0 ∧ now < s.last + lasts s.failures) ∧
    ((h3Broken s.broken authority now).1 = true → s.cancelled = false)

/-- a failure is one of HTTP/3 itself, and the entry of the failures before it is still there -/
def Steady (s : State) : Event → Prop
  | .failed _ cancelled => cancelled = false ∧ (s.broken authority = none → s.failures = 0)
  | _ => True

def SteadyRun (s : State) : List Event → Prop
  | [] => True
  | e :: es => Steady authority s e ∧ SteadyRun (step authority s e) es

/-- the entry is that of the last failure, or its period is over -/
structure Inv (s : State) : Prop where
  entry : ∀ e ∈ s.broken authority, s.failures ≠ 0 ∧ e = ⟨s.last + lasts s.failures, lasts s.failures⟩
  gone : s.broken authority = none → s.failures = 0 ∨ s.last + lasts s.failures ≤ s.clock
  own : s.cancelled = false

theorem lasts_pos (k : ℕ) : lasts k ≠ 0 := by
  have : 0 < 2 ^ (k - 1) := by positivity
  unfold lasts minute
  omega

theorem lasts_succ {k : ℕ} (hk : k ≠ 0) :
    lasts (k + 1) = if lasts k * 2 > 48 * 60 * minute then 48 * 60 * minute else lasts k * 2 := by
  obtain ⟨k, rfl⟩ := Nat.exists_eq_succ_of_ne_zero hk
  simp only [lasts, Nat.succ_eq_add_one, Nat.add_sub_cancel]
  rw [pow_succ, ← mul_assoc]
  split <;> omega

variable {authority} (ha : authority ≠ "") {s : State} (h : Inv authority s)
include ha h

theorem Inv.backsOff : BacksOff authority s := by
  intro now hnow
  refine ⟨?_, fun _ => h.own⟩
  rw [h3Broken, if_neg ha]
  cases he : s.broken authority with
  | none =>
    have := h.gone he
    simp only [Bool.false_eq_true, false_iff]
    omega
  | some e =>
    obtain ⟨hne, rfl⟩ := h.entry e he
    dsimp only
    split_ifs <;> simp only [false_iff, true_iff] <;> omega

theorem markH3Broken_lasts (hs : s.broken authority = none → s.failures = 0) (now : ℕ) :
    markH3Broken s.broken authority now authority = some ⟨now + lasts (s.failures + 1), lasts (s.failures + 1)⟩ := by
  simp only [markH3Broken, if_neg ha, update_self]
  cases he : s.broken authority with
  | none => simp [hs he, lasts, minute]
  | some e =>
    obtain ⟨hne, rfl⟩ := h.entry e he
    simp only [Option.getD_some, if_neg (lasts_pos s.failures), lasts_succ hne]

theorem step_inv (e : Event) (hs : Steady authority s e) : Inv authority (step authority s e) := by
  cases e with
  | request after =>
    simp only [step, h3Broken, if_neg ha]
    cases he : s.broken authority with
    | none => exact ⟨h.entry, fun _ => by grind [h.gone he], h.own⟩
    | some e =>
      by_cases hover : e.untilTime = 0 ∨ ¬s.clock + after < e.untilTime
      · -- the entry is dropped when its period is over
        simp only [if_pos hover]
        obtain ⟨-, rfl⟩ := h.entry e he
        exact ⟨by simp, fun _ => by dsimp only at hover ⊢; omega, h.own⟩
      · simp only [if_neg hover]
        exact ⟨h.entry, fun hnone => by simp [he] at hnone, h.own⟩
  | succeeded =>
    simp only [step, clearH3Broken, if_neg ha]
    split_ifs
    · exact h
    · exact ⟨by simp, fun _ => .inl rfl, h.own⟩
  | failed after cancelled =>
    simp only [step]
    split_ifs
    · exact h
    · have hmark := markH3Broken_lasts ha h hs.2 (s.clock + after)
      refine ⟨fun e he => ⟨Nat.succ_ne_zero _, ?_⟩, fun hnone => ?_, hs.1⟩
      · exact (Option.some.inj (hmark.symm.trans he)).symm
      · cases hmark.symm.trans hnone
  | outrun => exact ⟨h.entry, h.gone, h.own⟩

theorem run_inv (es : List Event) (hs : SteadyRun authority s es) : Inv authority (es.foldl (step authority) s) := by
  induction es generalizing s with
  | nil => exact h
  | cons e es ih => exact ih (step_inv ha h e hs.1) hs.2

omit h

/-- **Back-off of HTTP/3.** -/
theorem backoff_doubles (es : List Event) (hs : SteadyRun authority {} es) :
    BacksOff authority (es.foldl (step authority) {}) :=
  (run_inv ha ⟨by simp, fun _ => .inl rfl, rfl⟩ es hs).backsOff ha

omit ha

theorem backoff_doubles_twice :
    BacksOff "a:443" ([.request 0, .request 1, .failed 1 false, .failed 1 false].foldl (step "a:443") {}) :=
  backoff_doubles (by decide) _ (by simp [SteadyRun, Steady, step, h3Broken, markH3Broken])

/-- the second request comes after the period of the first failure; and a request fails since its caller cancels it -/
theorem expiry_restarts :
    ¬BacksOff "a:443" ([.request 0, .failed 0 false, .request (5 * minute), .failed 0 false].foldl (step "a:443") {}) ∧
      ¬BacksOff "a:443" ([.request 0, .failed 0 true].foldl (step "a:443") {}) :=
  ⟨fun h => absurd (h (10 * minute) (by decide)).1 (by decide), fun h => absurd (h 0 le_rfl).2 (by decide)⟩

/-! ## Bodies of retried requests -/

inductive Body where
  | none
  | replayable (content : List UInt8)
  | once (content : List UInt8)

def Body.content : Body → List UInt8
  | .none => []
  | .replayable content | .once content => content

structure Request where
  https : Bool
  requiresHTTP1 : Bool
  body : Body

def requestReplayable (request : Request) : Bool :=
  match request.body with
  | .once _ => false
  | _ => true

/-- the body of the clone, where `left` is unread of that of the request -/
def cloneRequestForRetry (request : Request) (left : List UInt8) : List UInt8 :=
  match request.body with
  | .replayable content => content
  | _ => left

inductive Outcome where
  | response
  /-- after that much of the body -/
  | failed (read : ℕ)
  deriving DecidableEq

structure Attempt where
  body : List UInt8
  outcome : Outcome

structure Trip where
  attempts : List Attempt
  returned : Option Attempt

def attempt (body : List UInt8) (outcome : Outcome) : Trip :=
  let a : Attempt := ⟨body, outcome⟩
  ⟨[a], if outcome = .response then some a else none⟩

inductive Order where
  | h3BeforeTimer | h3First | fallbackFirst

/-- what the transports answer: `none` is `ErrNoCachedConn` of `cached` and `errHTTP2Fallback` of `h2` -/
structure Answers where
  broken : Bool
  h2Fallback : Bool
  cached : Option Outcome
  h3 : Outcome
  h2 : Option Outcome
  h1 : Outcome
  order : Order

variable (request : Request) (answers : Answers)

def h2FallbackRoundTrip (left : List UInt8) : Trip :=
  if !request.https || request.requiresHTTP1 || answers.h2Fallback then attempt left answers.h1
  else match answers.h2 with
    | some outcome => attempt left outcome
    | none => attempt (cloneRequestForRetry request left) answers.h1

def roundTripHTTP3Race (left : List UInt8) : Trip :=
  let h3 := attempt (cloneRequestForRetry request left) answers.h3
  let fallback := h2FallbackRoundTrip request answers (cloneRequestForRetry request left)
  match answers.order, answers.h3 with
  | .h3BeforeTimer, .response => h3
  | .fallbackFirst, _ => ⟨h3.attempts ++ fallback.attempts, fallback.returned.or h3.returned⟩
  | _, _ => ⟨h3.attempts ++ fallback.attempts, h3.returned.or fallback.returned⟩

def roundTripHTTP3 : Trip :=
  let left := request.body.content
  if answers.broken then h2FallbackRoundTrip request answers left
  else match answers.cached with
    | some .response => attempt left .response
    | some (.failed read) =>
      let fallback := h2FallbackRoundTrip request answers (cloneRequestForRetry request (left.drop read))
      { fallback with attempts := ⟨left, .failed read⟩ :: fallback.attempts }
    | none =>
      if !requestReplayable request then attempt left answers.h3 else roundTripHTTP3Race request answers left

def roundTrip : Trip :=
  if !request.https || request.requiresHTTP1 then h2FallbackRoundTrip request answers request.body.content
  else roundTripHTTP3 request answers

/-- the response that is returned had the whole body, and a body that is read once came to one attempt at most -/
def Intact : Prop :=
  (∀ a ∈ (roundTrip request answers).returned, a.body = request.body.content) ∧
    (requestReplayable request = false → (roundTrip request answers).attempts.length ≤ 1)

/-- a body that is read once comes to an attempt on a cached connection that fails -/
def Spoiled : Prop :=
  request.https = true ∧ request.requiresHTTP1 = false ∧ answers.broken = false ∧
    (∃ read, answers.cached = some (.failed read)) ∧ requestReplayable request = false

variable {request} {answers} {left : List UInt8} {a : Attempt}

theorem clone_content : cloneRequestForRetry request request.body.content = request.body.content := by
  unfold cloneRequestForRetry Body.content
  cases request.body <;> rfl

theorem clone_drop (h : requestReplayable request = true) (read : ℕ) :
    cloneRequestForRetry request (request.body.content.drop read) = request.body.content := by
  revert h
  unfold cloneRequestForRetry Body.content requestReplayable
  cases request.body <;> simp

theorem attempt_body {outcome : Outcome} (h : a ∈ (attempt left outcome).returned) : a.body = left := by
  unfold attempt at h
  split at h
  · obtain rfl := Option.mem_some_iff.mp h
    rfl
  · cases h

theorem fallback_body (h : a ∈ (h2FallbackRoundTrip request answers request.body.content).returned) :
    a.body = request.body.content := by
  unfold h2FallbackRoundTrip at h
  split at h
  · exact attempt_body h
  split at h
  · exact attempt_body h
  · exact (attempt_body h).trans clone_content

theorem fallback_length : (h2FallbackRoundTrip request answers left).attempts.length = 1 := by
  unfold h2FallbackRoundTrip
  split
  · rfl
  · split <;> rfl

theorem race_body (h : a ∈ (roundTripHTTP3Race request answers request.body.content).returned) :
    a.body = request.body.content := by
  unfold roundTripHTTP3Race at h
  rw [clone_content] at h
  split at h
  · exact attempt_body h
  all_goals
    rcases Option.or_eq_some_iff.mp h with h | ⟨-, h⟩
    · first | exact fallback_body h | exact attempt_body h
    · first | exact fallback_body h | exact attempt_body h

/-- **Retried bodies.** -/
theorem retry_intact_iff : Intact request answers ↔ ¬Spoiled request answers := by
  unfold Intact Spoiled roundTrip
  split
  · refine iff_of_true ⟨fun a => fallback_body, fun _ => fallback_length.le⟩ fun h => ?_
    simp_all
  rename_i hhttp
  unfold roundTripHTTP3
  split
  · refine iff_of_true ⟨fun a => fallback_body, fun _ => fallback_length.le⟩ fun h => ?_
    simp_all
  rename_i hbroken
  cases hc : answers.cached with
  | none =>
    refine iff_of_true ?_ (by simp)
    cases hr : requestReplayable request with
    | false => exact ⟨fun a => attempt_body, fun _ => le_rfl⟩
    | true => exact ⟨fun a => race_body, by simp⟩
  | some outcome =>
    cases outcome with
    | response => exact iff_of_true ⟨fun a => attempt_body, fun _ => le_rfl⟩ (by simp)
    | failed read =>
      cases hr : requestReplayable request with
      | false => simp [fallback_length, hbroken]; simp_all
      | true =>
        simp only [clone_drop hr]
        exact iff_of_true ⟨fun a => fallback_body, by simp⟩ (by simp)

/-- the attempt on the cached connection has read two bytes of three; the fallback sends the third -/
theorem retry_truncated :
    ¬Intact ⟨true, false, .once [1, 2, 3]⟩ ⟨false, false, some (.failed 2), .response, some .response, .response,
      .h3First⟩ := fun h => absurd (h.1 ⟨[3], .response⟩ rfl) (by decide)

end EtonifyCore.HTTP3
