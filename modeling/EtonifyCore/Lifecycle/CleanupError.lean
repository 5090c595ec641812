/-
The errors of cleanups, as `Scope.Close` collects them: it splits what each cleanup returns into its parts (`E.Expand`), drops
those that only tell of closing (`expectedScopeCleanupError`) and joins the rest (`E.Errors`, which keeps one of each text).
-/
import Mathlib.Tactic

namespace EtonifyCore.Lifecycle

open List

/-- what `E.IsClosed` and `E.IsCanceled` say of a leaf -/
inductive LeafKind where
  | closed
  | canceled
  | other
deriving DecidableEq, Repr

inductive Err where
  | leaf (id : ℕ) (text : String) (kind : LeafKind)
  | wrap (message : String) (cause : Err)
  /-- an error with `Unwrap() []error`; absent errors in the list are skipped by all readers -/
  | multi (errors : List Err)
deriving Repr

def Err.contextCanceled : Err := .leaf 0 "context canceled" .canceled

mutual

def text : Err → String
  | .leaf _ t _ => t
  | .wrap message cause => message ++ ": " ++ text cause
  | .multi errors => String.intercalate " | " (texts errors)

def texts : List Err → List String
  | [] => []
  | e :: es => text e :: texts es

end

mutual

def expand : Err → List Err
  | .leaf id t kind => [.leaf id t kind]
  | .wrap message cause => [.wrap message cause]
  | .multi errors => expandAll errors

def expandAll : List Err → List Err
  | [] => []
  | e :: es => expand e ++ expandAll es

end

/-- `common.UniqBy(errors, error.Error)`; `seen` are the texts of the errors kept so far -/
def uniqByText (seen : List String) : List Err → List Err
  | [] => []
  | e :: es => if text e ∈ seen then uniqByText seen es else e :: uniqByText (text e :: seen) es

def joinErrors (errors : List Err) : Option Err :=
  match uniqByText [] (expandAll errors) with
  | [] => none
  | [e] => some e
  | es => some (.multi es)

mutual

def expectedScopeCleanupError : Err → Bool
  | .leaf _ _ kind => kind == .closed || kind == .canceled
  | .wrap _ cause => expectedScopeCleanupError cause
  -- a list without errors is no closed and no cancelled error
  | .multi [] => false
  | .multi (e :: es) => expectedScopeCleanupError e && allExpected es

def allExpected : List Err → Bool
  | [] => true
  | e :: es => expectedScopeCleanupError e && allExpected es

end

/-- the error has a leaf that is neither a closed nor a cancelled error -/
inductive HasFailure : Err → Prop
  | leaf {id t} : HasFailure (.leaf id t .other)
  | wrap {message cause} : HasFailure cause → HasFailure (.wrap message cause)
  | empty : HasFailure (.multi [])
  | multi {e errors} : e ∈ errors → HasFailure e → HasFailure (.multi errors)

/-- the error that a call returns contains an error of the same text -/
def Contains (result : Option Err) (e : Err) : Prop := ∃ r ∈ result, ∃ e' ∈ expand r, text e' = text e

/-! ## What is dropped -/

theorem allExpected_iff (es : List Err) : allExpected es ↔ ∀ e ∈ es, expectedScopeCleanupError e := by
  induction es with
  | nil => simp [allExpected]
  | cons e es ih => simp [allExpected, ih]

mutual

theorem expectedScopeCleanupError_iff : ∀ e : Err, expectedScopeCleanupError e ↔ ¬HasFailure e
  | .leaf _ _ kind => by
    constructor
    · rintro h ⟨⟩
      cases h
    · intro h
      cases kind with
      | closed => rfl
      | canceled => rfl
      | other => exact absurd .leaf h
  | .wrap _ cause => by
    rw [expectedScopeCleanupError, expectedScopeCleanupError_iff cause]
    constructor
    · rintro hno ⟨⟩
      exact hno ‹_›
    · exact fun hno h => hno (.wrap h)
  | .multi [] => by
    constructor
    · intro h
      cases h
    · exact fun h => absurd .empty h
  | .multi (e :: es) => by
    have hall : expectedScopeCleanupError (.multi (e :: es)) ↔
        ∀ e' ∈ e :: es, expectedScopeCleanupError e' := by
      rw [expectedScopeCleanupError, Bool.and_eq_true, allExpected_iff, forall_mem_cons]
    have hiff : ∀ e' ∈ e :: es, (expectedScopeCleanupError e' ↔ ¬HasFailure e') :=
      forall_mem_cons.2 ⟨expectedScopeCleanupError_iff e, expectedScopeCleanupErrors_iff es⟩
    rw [hall]
    constructor
    · intro h hfail
      cases hfail with
      | multi hmem hfail => exact (hiff _ hmem).1 (h _ hmem) hfail
    · exact fun h e' hmem => (hiff e' hmem).2 fun hfail => h (.multi hmem hfail)

theorem expectedScopeCleanupErrors_iff :
    ∀ es : List Err, ∀ e ∈ es, (expectedScopeCleanupError e ↔ ¬HasFailure e)
  | [] => nofun
  | e :: es => forall_mem_cons.2 ⟨expectedScopeCleanupError_iff e, expectedScopeCleanupErrors_iff es⟩

end

/-! ## Joining -/

mutual

theorem expand_of_mem_expand : ∀ e : Err, ∀ part ∈ expand e, expand part = [part]
  | .leaf .. => forall_mem_singleton.2 rfl
  | .wrap .. => forall_mem_singleton.2 rfl
  | .multi errors => expand_of_mem_expandAll errors

theorem expand_of_mem_expandAll : ∀ es : List Err, ∀ part ∈ expandAll es, expand part = [part]
  | [] => nofun
  | e :: es => forall_mem_append.2 ⟨expand_of_mem_expand e, expand_of_mem_expandAll es⟩

end

theorem mem_expandAll {es : List Err} {part : Err} : part ∈ expandAll es ↔ ∃ e ∈ es, part ∈ expand e := by
  induction es with
  | nil => simp [expandAll]
  | cons e es ih => simp [expandAll, ih]

theorem expandAll_of_parts {es : List Err} (h : ∀ e ∈ es, expand e = [e]) : expandAll es = es := by
  induction es with
  | nil => rfl
  | cons e es ih =>
    rw [expandAll, h e mem_cons_self, ih fun e' he' => h e' (mem_cons_of_mem e he')]
    rfl

theorem mem_of_mem_uniqByText {seen : List String} {es : List Err} {e : Err} (h : e ∈ uniqByText seen es) : e ∈ es := by
  induction es generalizing seen with
  | nil => cases h
  | cons e' es ih =>
    rw [uniqByText] at h
    split_ifs at h
    · exact mem_cons_of_mem _ (ih h)
    · rcases mem_cons.1 h with rfl | h
      · exact mem_cons_self
      · exact mem_cons_of_mem _ (ih h)

theorem exists_mem_uniqByText {seen : List String} {es : List Err} {e : Err} (h : e ∈ es) (hseen : text e ∉ seen) :
    ∃ e' ∈ uniqByText seen es, text e' = text e := by
  induction es generalizing seen with
  | nil => cases h
  | cons e₀ es ih =>
    rw [uniqByText]
    split_ifs with h₀
    · rcases mem_cons.1 h with rfl | h
      · exact absurd h₀ hseen
      · exact ih h hseen
    · by_cases heq : text e = text e₀
      · exact ⟨e₀, mem_cons_self, heq.symm⟩
      · have hmem : e ∈ es := (mem_cons.1 h).resolve_left fun he => heq (he ▸ rfl)
        obtain ⟨e', he', htext⟩ := ih hmem (not_mem_cons_of_ne_of_not_mem heq hseen)
        exact ⟨e', mem_cons_of_mem _ he', htext⟩

theorem joinErrors_contains {es : List Err} {e part : Err} (he : e ∈ es) (hpart : part ∈ expand e) :
    Contains (joinErrors es) part := by
  have hmem : part ∈ expandAll es := mem_expandAll.2 ⟨e, he, hpart⟩
  obtain ⟨e', he', htext⟩ := exists_mem_uniqByText hmem not_mem_nil
  have hparts : ∀ e ∈ uniqByText [] (expandAll es), expand e = [e] :=
    fun e₁ he₁ => expand_of_mem_expandAll es e₁ (mem_of_mem_uniqByText he₁)
  have hresult : ∃ r ∈ joinErrors es, expand r = uniqByText [] (expandAll es) := by
    rw [joinErrors]
    split
    · rename_i hnil
      rw [hnil] at he'
      cases he'
    · rename_i e₁ hone
      rw [hone] at hparts
      exact ⟨e₁, rfl, by rw [hone]; exact hparts e₁ mem_cons_self⟩
    · rename_i kept _ _
      exact ⟨_, rfl, expandAll_of_parts hparts⟩
  obtain ⟨r, hr, hexpand⟩ := hresult
  exact ⟨r, hr, e', hexpand ▸ he', htext⟩

end EtonifyCore.Lifecycle
