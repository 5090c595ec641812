/-
Looking up a name through search domains (`ExchangeNames`, `dns/transport/exchange_strategy.go`).

The first NXDOMAIN, or the one of the original name, is kept and delivered if nothing better comes; also when the context
has ended before all candidates were tried (`cancelled_nameError`).

Model: an exchanger calls its callback once, and the next one starts after that, so a search is the sequence of its results.
-/
import EtonifyCore.DNSClient.Message

namespace EtonifyCore.ExchangeNames

open List
open DNSClient

inductive Err
  | missing (what : String)
  | context
  | exchange (text : String)
  deriving DecidableEq

/-- `sequentialExchange.run`: each exchanger comes with whether the context has ended when it is to start -/
def run {α σ : Type} (accept : Except Err α → Bool) : List (Bool × (σ → Except Err α × σ)) → σ → Except Err α × σ
  | [], s => (.error (.missing "exchangers"), s)
  | (ended, exchanger) :: rest, s =>
    if ended then (.error .context, s)
    else if rest.isEmpty || accept (exchanger s).1 then exchanger s
    else run accept rest (exchanger s).2

def accept : Except Err Msg → Bool
  | .ok response => response.rcode != rcodeNameError
  | .error _ => false

structure Candidate where
  fqdn : String
  ended : Bool
  result : Except Err Msg

structure Search where
  equalFold : String → String → Bool
  question : Question

namespace Search

variable (s : Search) (c : Candidate) (names : List Candidate)

def restoreOriginalQuestion (response : Msg) (fqdn : String) : Msg :=
  { response with
    question := [s.question]
    answer := response.answer.map fun record =>
      if s.equalFold record.name fqdn then { record with name := s.question.name } else record }

def restored : Except Err Msg := c.result.map fun response => s.restoreOriginalQuestion response c.fqdn

/-- the new `nameErrorResponse` -/
def note (kept : Option Msg) : Option Msg :=
  match s.restored c with
  | .error _ => kept
  | .ok response =>
    if response.rcode = rcodeNameError ∧ (kept = none ∨ c.fqdn = s.question.name) then some response else kept

def wrap : Bool × (Option Msg → Except Err Msg × Option Msg) :=
  (c.ended, fun kept => (s.restored c, s.note c kept))

def exchangeNames : Except Err Msg :=
  if names.isEmpty then .error (.missing "name candidates")
  else
    let (result, nameErrorResponse) := run accept (names.map s.wrap) none
    if accept result then result
    else match nameErrorResponse with
      | some response => .ok response
      | none => result

/-! ## What it should deliver -/

def tried : List Candidate := names.takeWhile fun c => !c.ended

def answered : Option Candidate := (tried names).find? fun c => accept (s.restored c)

def nameError? : Option Msg := (s.restored c).toOption.filter fun response => response.rcode = rcodeNameError

/-- the NXDOMAIN answer of the original name, or the first one -/
def nameError : Option Msg :=
  ((names.filter fun c => c.fqdn = s.question.name).reverse.findSome? s.nameError?).or (names.findSome? s.nameError?)

def intended : Except Err Msg :=
  match s.answered names with
  | some c => s.restored c
  | none =>
    if (tried names).length < names.length then .error .context
    else match s.nameError names, names.getLast? with
      | some response, _ => .ok response
      | none, some last => s.restored last
      | none, none => .error (.missing "name candidates")

/-- the context ended the search after an NXDOMAIN and before the last candidate -/
def StoppedAfterNameError : Prop :=
  s.answered names = none ∧ (tried names).length < names.length ∧ s.nameError (tried names) ≠ none

/-! ## What it delivers -/

variable {s names}

theorem note_eq (kept : Option Msg) : s.note c kept =
    if c.fqdn = s.question.name then (s.nameError? c).or kept else kept.or (s.nameError? c) := by
  unfold note nameError?
  cases s.restored c with
  | error e => simp [Except.toOption]
  | ok response =>
    by_cases hcode : response.rcode = rcodeNameError
    · cases kept <;> simp [Except.toOption, Option.filter, hcode]
    · simp [Except.toOption, Option.filter, hcode]

theorem foldl_note (kept : Option Msg) : names.foldl (fun kept c => s.note c kept) kept =
    ((names.filter fun c => c.fqdn = s.question.name).reverse.findSome? s.nameError?).or
      (kept.or (names.findSome? s.nameError?)) := by
  induction names generalizing kept with
  | nil => simp
  | cons c names ih =>
    rw [foldl_cons, ih, note_eq]
    by_cases hname : c.fqdn = s.question.name
    · cases hc : s.nameError? c <;> simp [hname, hc]
    · cases hc : s.nameError? c <;> simp [hname, hc]

theorem run_wrap (kept : Option Msg) (hne : names ≠ []) :
    match s.answered names, run accept (names.map s.wrap) kept with
    | some c, (result, _) => result = s.restored c
    | none, (result, nameErrorResponse) =>
      nameErrorResponse = (tried names).foldl (fun kept c => s.note c kept) kept ∧ accept result = false ∧
        if (tried names).length < names.length then result = .error .context
        else some result = names.getLast?.map s.restored := by
  induction names generalizing kept with
  | nil => exact absurd rfl hne
  | cons c names ih =>
    rw [map_cons, wrap, run]
    unfold answered tried
    cases hended : c.ended with
    | true => simp [hended, accept]
    | false =>
      cases haccept : accept (s.restored c) with
      | true => simp [hended, haccept]
      | false =>
        cases names with
        | nil => simp [hended, haccept]
        | cons c' names => simpa [hended, haccept, answered, tried, wrap] using ih (s.note c kept) (cons_ne_nil _ _)

theorem tried_eq (h : ¬(tried names).length < names.length) : tried names = names :=
  ( takeWhile_prefix _).eq_of_length_le (not_lt.1 h)

theorem exchangeNames_eq : s.exchangeNames names =
    match s.answered names, s.nameError (tried names) with
    | none, some response => .ok response
    | _, _ => s.intended names := by
  by_cases hne : names = []
  · subst hne
    rfl
  have hrun := run_wrap (s := s) none hne
  unfold exchangeNames intended
  rw [if_neg (by simpa using hne)]
  generalize run accept (names.map s.wrap) none = r at hrun ⊢
  cases hanswered : s.answered names with
  | some c =>
    rw [hanswered] at hrun
    have haccept : accept (s.restored c) := find?_some (p := fun c => accept (s.restored c)) hanswered
    dsimp only at hrun ⊢
    rw [hrun, if_pos haccept]
  | none =>
    rw [hanswered] at hrun
    obtain ⟨hkept, haccept, hlast⟩ := hrun
    rw [foldl_note, Option.none_or] at hkept
    change r.2 = s.nameError (tried names) at hkept
    dsimp only
    rw [haccept, hkept, if_neg Bool.false_ne_true]
    cases hname : s.nameError (tried names) with
    | some response => rfl
    | none =>
      split_ifs at hlast ⊢ with hlt
      · exact hlast
      · obtain ⟨last, hget, hresult⟩ := Option.map_eq_some_iff.1 hlast.symm
        rw [tried_eq hlt] at hname
        rw [hname, hget]
        exact hresult.symm

theorem run_restored (names : List Candidate) {P : Msg → Prop} (hP : ∀ c ∈ names, ∀ r, s.restored c = .ok r → P r)
    (kept : Option Msg) (hkept : ∀ r, kept = some r → P r) : (∀ r, (run accept (names.map s.wrap) kept).1 = .ok r → P r) ∧
      ∀ r, (run accept (names.map s.wrap) kept).2 = some r → P r := by
  induction names generalizing kept with
  | nil => exact ⟨nofun, hkept⟩
  | cons c names ih =>
    have hnote : ∀ r, s.note c kept = some r → P r := by
      unfold note
      split
      · exact hkept
      · rename_i response hc
        split_ifs
        · rintro r ⟨⟩
          exact hP c mem_cons_self response hc
        · exact hkept
    rw [map_cons, wrap, run]
    split_ifs
    · exact ⟨nofun, hkept⟩
    · exact ⟨hP c mem_cons_self, hnote⟩
    · exact ih (fun c' hc' => hP c' (mem_cons_of_mem c hc')) (s.note c kept) hnote

/-- **A search that its context stops should not report NXDOMAIN.** It delivers what it should exactly if it was not stopped
after an NXDOMAIN. -/
theorem exchangeNames_iff (s : Search) (names : List Candidate) :
    (s.exchangeNames names = s.intended names ↔ ¬s.StoppedAfterNameError names) ∧
    ∀ response, s.exchangeNames names = .ok response → response.question = [s.question] ∧
      ∃ c ∈ names, s.restored c = .ok response ∧
        ∀ record ∈ response.answer, s.equalFold record.name c.fqdn = true → record.name = s.question.name := by
  constructor
  · rw [exchangeNames_eq, StoppedAfterNameError, intended]
    cases s.answered names with
    | some c => simp
    | none =>
      cases hname : s.nameError (tried names) with
      | none => simp
      | some response =>
        by_cases hlt : (tried names).length < names.length
        · simp [hlt]
        · rw [tried_eq hlt] at hname
          simp [hlt, hname]
  · have hrun := run_restored (s := s) names (P := fun response => response.question = [s.question] ∧
      ∃ c ∈ names, s.restored c = .ok response ∧
        ∀ record ∈ response.answer, s.equalFold record.name c.fqdn = true → record.name = s.question.name) ?_ none nofun
    · intro response h
      unfold exchangeNames at h
      dsimp only at h
      split_ifs at h
      · exact hrun.1 response h
      · split at h
        · cases h
          exact hrun.2 response ‹_›
        · exact hrun.1 response h
    · intro c hc response h
      have hrestored := h
      unfold restored at h
      cases hresult : c.result with
      | error e =>
        rw [hresult] at h
        cases h
      | ok raw =>
        rw [hresult] at h
        cases h
        refine ⟨rfl, c, hc, hrestored, ?_⟩
        intro record hrecord hfold
        obtain ⟨old, -, rfl⟩ := mem_map.1 hrecord
        split_ifs at hfold ⊢ with hold
        · rfl
        · exact absurd hfold hold

end Search

def stopped : List Candidate :=
  [⟨"a.corp.", false, .ok { id := 7, rcode := rcodeNameError }⟩, ⟨"a.", true, .error .context⟩]

theorem cancelled_nameError : Search.exchangeNames ⟨(· == ·), ⟨"a.", 1, 1⟩⟩ stopped =
      .ok { id := 7, rcode := rcodeNameError, question := [⟨"a.", 1, 1⟩] } ∧
    Search.intended ⟨(· == ·), ⟨"a.", 1, 1⟩⟩ stopped = .error .context := by
  constructor <;> rfl

end EtonifyCore.ExchangeNames
