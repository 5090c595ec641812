/-
The ETag of a remote rule-set: `StartContext`, `fetch` and `updateOnce` of `RemoteRuleSet`, over restarts.

Model: responses are numbered, and a content is named by where it comes from. Whether a content loads, can be saved, and how
many rules refer to the set comes with the event. A time is whether it is set.
-/
import Mathlib.Tactic

namespace EtonifyCore.RemoteRuleSet

/-! ## Model -/

inductive Content where
  | file
  | response (id : ℕ)

/-- an `Etag` header, with the response that carried it -/
structure ETag where
  value : String := ""
  id : ℕ := 0

/-- `SavedBinary`; an old cache file has no hash -/
structure Saved where
  content : Content
  lastEtag : ETag
  urlHash : Option ℕ

structure State where
  cacheFile : Bool := false
  urlHash : ℕ := 0
  rules : Option Content := none
  updated : Bool := false
  lastEtag : ETag := {}
  saved : Option Saved := none

/-- the answer to a request, and whether its content loads and the cache file takes it -/
inductive Answer where
  | failed
  | notModified (saves : Bool)
  | ok (etag : ETag) (loads saves : Bool)

inductive Event where
  /-- a new process; `restores` and `file` are whether the saved content and an initial file load -/
  | start (cacheFile : Bool) (urlHash : ℕ) (restores file : Bool) (answer : Answer)
  | update (answer : Answer) (refs : ℕ)
  | drop

def fetch (s : State) : Answer → State × Bool
  | .failed => (s, false)
  | .notModified saves =>
    let saved := s.saved.map fun v => { v with urlHash := some s.urlHash }
    ({ s with updated := true, saved := if s.cacheFile && saves then saved else s.saved }, true)
  | .ok etag loads saves =>
    if loads then
      let lastEtag := if etag.value ≠ "" then etag else s.lastEtag
      let saved := some ⟨.response etag.id, lastEtag, some s.urlHash⟩
      ({ s with
        rules := some (.response etag.id), lastEtag, updated := true
        saved := if s.cacheFile && saves then saved else s.saved }, true)
    else (s, false)

def restore (s : State) (restores : Bool) : State :=
  match s.saved with
  | none => s
  | some v =>
    if s.cacheFile && v.urlHash.all (· = s.urlHash) && restores then
      { s with rules := some v.content, updated := true, lastEtag := v.lastEtag }
    else s

def startContext (s : State) (restores file : Bool) (answer : Answer) : State :=
  let s := restore s restores
  if s.updated then s else if file then { s with rules := some .file } else (fetch s answer).1

def updateOnce (s : State) (answer : Answer) (refs : ℕ) : State :=
  let (s, succeeds) := fetch s answer
  if succeeds && refs = 0 then { s with rules := none } else s

def step (s : State) : Event → State
  | .start cacheFile urlHash restores file answer =>
    startContext { cacheFile, urlHash, saved := s.saved } restores file answer
  | .update answer refs => updateOnce s answer refs
  | .drop => { s with rules := none }

/-! ## Consistency -/

/-- the content is that of the response that carried the ETag -/
def Comes (content : Content) (etag : ETag) : Prop := etag.value ≠ "" → content = .response etag.id

/-- rules that were dropped are in nobody's use -/
structure Consistent (s : State) : Prop where
  rules : ∀ content, s.rules = some content → Comes content s.lastEtag
  saved : ∀ v, s.saved = some v → Comes v.content v.lastEtag

/-- a response without an ETag does not come to rules in use or to the cache file while an ETag is kept -/
def Tagged (s : State) : Event → Prop
  | .update (.ok etag true saves) refs =>
    etag.value = "" → s.lastEtag.value ≠ "" → refs = 0 ∧ (s.cacheFile && saves) = false
  | _ => True

def TaggedRun (s : State) : List Event → Prop
  | [] => True
  | e :: es => Tagged s e ∧ TaggedRun (step s e) es

variable {s : State}

theorem comes_ok {etag lastEtag : ETag} (h : etag.value = "" → lastEtag.value = "") :
    Comes (.response etag.id) (if etag.value ≠ "" then etag else lastEtag) := by
  intro hne
  split_ifs at hne ⊢ with htag
  · rfl
  · exact absurd (h (not_not.1 htag)) hne

theorem consistent_of_none (hrules : s.rules = none) (hsaved : ∀ v, s.saved = some v → Comes v.content v.lastEtag) :
    Consistent s := by
  refine ⟨fun content hno => ?_, hsaved⟩
  rw [hrules] at hno
  cases hno

section

variable (h : Consistent s)
include h

theorem Consistent.drop : Consistent { s with rules := none } := consistent_of_none rfl h.saved

theorem fetch_consistent {answer : Answer}
    (htag : ∀ etag saves, answer = .ok etag true saves → etag.value = "" → s.lastEtag.value = "") :
    Consistent (fetch s answer).1 := by
  cases answer with
  | failed => exact h
  | notModified saves =>
    refine ⟨h.rules, fun v hv => ?_⟩
    dsimp only [fetch] at hv
    split_ifs at hv
    · obtain ⟨v', hv', rfl⟩ := Option.map_eq_some_iff.1 hv
      exact h.saved v' hv'
    · exact h.saved v hv
  | ok etag loads saves =>
    cases loads with
    | false => exact h
    | true =>
      have hcomes := comes_ok (htag etag saves rfl)
      refine ⟨fun content hcontent => ?_, fun v hv => ?_⟩
      · obtain rfl := Option.some.inj hcontent
        exact hcomes
      · dsimp only [fetch] at hv
        rw [if_pos rfl] at hv
        by_cases hsaves : (s.cacheFile && saves) = true
        · rw [if_pos hsaves] at hv
          obtain rfl := Option.some.inj hv
          exact hcomes
        · rw [if_neg hsaves] at hv
          exact h.saved v hv

theorem restore_consistent (hempty : s.lastEtag.value = "") (restores : Bool) : Consistent (restore s restores) ∧
      ((restore s restores).updated = false → (restore s restores).lastEtag.value = "") := by
  rw [restore]
  split
  · exact ⟨h, fun _ => hempty⟩
  · rename_i v hsaved
    split_ifs
    · refine ⟨⟨fun content hcontent => ?_, h.saved⟩, nofun⟩
      obtain rfl := Option.some.inj hcontent
      exact h.saved v hsaved
    · exact ⟨h, fun _ => hempty⟩

theorem start_consistent (hempty : s.lastEtag.value = "") (restores file : Bool) (answer : Answer) :
    Consistent (startContext s restores file answer) := by
  obtain ⟨hrestored, hnone⟩ := restore_consistent h hempty restores
  rw [startContext]
  split_ifs with hupdated
  · exact hrestored
  · refine ⟨fun content _ hne => ?_, hrestored.saved⟩
    exact absurd (hnone (Bool.eq_false_iff.2 hupdated)) hne
  · exact fetch_consistent hrestored fun _ _ _ _ => hnone (Bool.eq_false_iff.2 hupdated)

theorem update_consistent {answer : Answer} {refs : ℕ} (htag : Tagged s (.update answer refs)) :
    Consistent (updateOnce s answer refs) := by
  by_cases hkept : ∀ etag saves, answer = .ok etag true saves → etag.value = "" → s.lastEtag.value = ""
  · have hfetch := fetch_consistent h hkept
    rw [updateOnce]
    dsimp only
    split_ifs
    · exact hfetch.drop
    · exact hfetch
  · -- the rules are dropped and the cache file has not changed
    push Not at hkept
    obtain ⟨etag, saves, rfl, hempty, hne⟩ := hkept
    obtain ⟨rfl, hsaves⟩ := htag hempty hne
    refine consistent_of_none rfl fun v hv => h.saved v ?_
    simpa [updateOnce, fetch, hsaves] using hv

end

theorem step_consistent (h : Consistent s) (e : Event) (htag : Tagged s e) : Consistent (step s e) := by
  cases e with
  | start cacheFile urlHash restores file answer =>
    exact start_consistent (s := { cacheFile, urlHash, saved := s.saved }) (consistent_of_none rfl h.saved) rfl
      restores file answer
  | update answer refs => exact update_consistent h htag
  | drop => exact h.drop

theorem run_consistent_from (h : Consistent s) (es : List Event) (htag : TaggedRun s es) :
    Consistent (es.foldl step s) := by
  induction es generalizing s with
  | nil => exact h
  | cons e es ih => exact ih (step_consistent h e htag.1) htag.2

/-- **The ETag belongs to the rules.** From a first start on, in every run of this kind. -/
theorem etag_consistent (es : List Event) (htag : TaggedRun {} es) : Consistent (es.foldl step {}) :=
  run_consistent_from (consistent_of_none rfl (by simp)) es htag

theorem etag_consistent_restart : Consistent ([.start true 7 false false (.ok ⟨"a", 1⟩ true true),
    .update (.ok ⟨"b", 2⟩ true true) 1, .update (.notModified true) 1,
    .start true 7 true false .failed].foldl step {}) :=
  etag_consistent _ ⟨trivial, nofun, trivial, trivial, trivial⟩

/-- the server stops to send ETags: the rules of response 2 are kept under the ETag of response 1 -/
theorem etag_stale : ¬Consistent ([.start true 7 false false (.ok ⟨"a", 1⟩ true true),
    .update (.ok ⟨"", 2⟩ true true) 1].foldl step {}) := by
  intro h
  cases h.rules (.response 2) rfl (by decide)

end EtonifyCore.RemoteRuleSet
