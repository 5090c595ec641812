/-
Starting objects in the order of their dependencies: the scan of `startOutbounds` and of `startTransports`.

Model: what the start of an object answers is given from outside (`starts`). `startAll` is the outer `for`; the Go map
`started` is the list of the objects started so far. `lint` is the search that explains why nothing more can be started. A
method call on the nil object that `common.Find` returns is the outcome `panic`; a recursion that is still going when the
fuel is used up is `running`. Logging and the other lifecycle stages are left out.
-/
import EtonifyCore.Core.Dependencies

namespace EtonifyCore.DependencyStart

open List
open Core.Dependencies

/-! ## Objects -/

inductive Kind
  | outbound
  | endpoint
  | transport
  deriving DecidableEq, Repr

structure Object where
  kind : Kind
  type : String
  tag : String
  dependencies : List String
  isLifecycle : Bool
  deriving DecidableEq, Repr

/-- what starting the object answers: endpoints and DNS servers always have a `Start`, an outbound may have none -/
def startOne (starts : Object → Option String) (o : Object) : Option String :=
  match o.kind with
  | .endpoint => starts o
  | .transport => starts o
  | .outbound => if o.isLifecycle then starts o else none

inductive Outcome
  | done
  | failed (err : String)
  | circular (oTree : List String) (problemTag : String)
  | notFound (problemTag owner : String)
  | panic
  | running
  deriving DecidableEq, Repr

/-- the error that is returned; `noun` is "outbound" or "server" -/
def Outcome.error (noun : String) : Outcome → Option String
  | .failed err => some err
  | .circular oTree problemTag =>
    some ("circular " ++ noun ++ " dependency: " ++ " -> ".intercalate oTree ++ " -> " ++ problemTag)
  | .notFound problemTag owner =>
    some ("dependency[" ++ problemTag ++ "] not found for " ++ noun ++ "[" ++ owner ++ "]")
  | _ => none

/-! ## The scan -/

def isStarted (started : List Object) (tag : String) : Bool := tag ∈ started.map (·.tag)

def scan (starts : Object → Option String) :
    List Object → List Object → Bool → Except (String × List Object) (List Object × Bool)
  | [], started, canContinue => .ok (started, canContinue)
  | o :: rest, started, canContinue =>
    if isStarted started o.tag then scan starts rest started canContinue
    else if o.dependencies.all (isStarted started) then
      match startOne starts o with
      | some err => .error (err, started ++ [o])
      | none => scan starts rest (started ++ [o]) true
    else scan starts rest started canContinue

/-- the search for the dependency that stands in the way; `lookup` finds an object by its tag -/
def lint (lookup : String → Option Object) (started : List Object) : ℕ → List String → Object → Outcome
  | 0, _, _ => .running
  | fuel + 1, oTree, oCurrent =>
    let problemTag := (oCurrent.dependencies.find? fun d => !isStarted started d).getD ""
    if problemTag ∈ oTree then .circular oTree problemTag
    else
      match lookup problemTag with
      | none => .notFound problemTag oCurrent.tag
      | some problem => lint lookup started fuel (oTree ++ [problemTag]) problem

def startAll (lookup : String → Option Object) (starts : Object → Option String) (members : List Object) :
    ℕ → List Object → Outcome × List Object
  | 0, started => (.running, started)
  | fuel + 1, started =>
    match scan starts members started false with
    | .error (err, started') => (.failed err, started')
    | .ok (started', canContinue) =>
      if started'.length = members.length then (.done, started')
      else if canContinue then startAll lookup starts members fuel started'
      else
        match members.find? fun o => !isStarted started' o.tag with
        | none => (.panic, started')
        | some current => (lint lookup started' (members.length + 1) [current.tag] current, started')

/-! ## What a correct start is -/

abbrev Needs (members : List Object) : String → String → Prop := Edge Object.tag Object.dependencies members

abbrev Startable (members : List Object) : String → Prop := Buildable Object.tag Object.dependencies members

/-- some dependency is missing or cyclic -/
def Defect (members : List Object) : Prop :=
  Missing Object.tag Object.dependencies members ∨ Cyclic Object.tag Object.dependencies members

/-- the start ends without a panic; nothing is started twice or before what it depends on; nil means that everything was
started; if no single start fails, it fails exactly when a dependency is missing or cyclic; the path that it reports
leads to a repeated or a missing tag -/
structure Correct (members : List Object) (starts : Object → Option String) (r : Outcome × List Object) : Prop where
  ends : r.1 ≠ .running ∧ r.1 ≠ .panic
  once : (r.2.map (·.tag)).Nodup ∧ r.2 ⊆ members
  after : ∀ before o later, r.2 = before ++ o :: later → ∀ d ∈ o.dependencies, d ∈ before.map (·.tag)
  all : r.1 = .done → r.2.Perm members
  fails : ∀ err, r.1 = .failed err → ∃ o ∈ members, startOne starts o = some err
  error_iff : (∀ o ∈ members, startOne starts o = none) → (r.1 ≠ .done ↔ Defect members)
  cycle : ∀ oTree tag, r.1 = .circular oTree tag → (oTree ++ [tag]).IsChain (Needs members) ∧ tag ∈ oTree
  missing : ∀ tag owner, r.1 = .notFound tag owner → Needs members owner tag ∧ tag ∉ members.map (·.tag)

/-! ## One pass -/

structure Good (members started : List Object) : Prop where
  ordered : Ordered Object.tag Object.dependencies started
  sub : started ⊆ members

def Stuck (members started : List Object) : Prop :=
  ∀ o ∈ members, (∀ d ∈ o.dependencies, d ∈ started.map (·.tag)) → o.tag ∈ started.map (·.tag)

theorem isStarted_iff (started : List Object) (tag : String) : isStarted started tag ↔ tag ∈ started.map (·.tag) := by
  exact decide_eq_true_iff

theorem Good.nil (members : List Object) : Good members [] := ⟨.nil, nil_subset _⟩

variable {members started : List Object}

theorem Good.length_le (h : Good members started) : started.length ≤ members.length :=
  h.ordered.length_le h.sub

theorem Good.snoc (h : Good members started) {o : Object} (hmem : o ∈ members)
    (hnew : ¬ isStarted started o.tag) (hdeps : o.dependencies.all (isStarted started)) :
    Good members (started ++ [o]) := by
  rw [isStarted_iff] at hnew
  rw [all_eq_true] at hdeps
  refine ⟨.snoc _ _ h.ordered (fun d hd => (isStarted_iff _ _).1 (hdeps d hd)) hnew, ?_⟩
  exact append_subset.2 ⟨h.sub, cons_subset.2 ⟨hmem, nil_subset _⟩⟩

/-- what a pass answers: the error of a start; else `canContinue` says whether something was started, and if nothing was,
none of the objects passed over can be -/
def PassOk (members objects started : List Object) (starts : Object → Option String) (canContinue : Bool) :
    Except (String × List Object) (List Object × Bool) → Prop
  | .error (err, started') => Good members started' ∧ ∃ o ∈ members, startOne starts o = some err
  | .ok (started', canContinue') =>
    Good members started' ∧ started.length ≤ started'.length ∧
      (canContinue' = true → canContinue = true ∨ started.length < started'.length) ∧
      (canContinue' = false → canContinue = false ∧ started' = started ∧ Stuck objects started)

theorem scan_ok {members : List Object} (starts : Object → Option String) (objects : List Object)
    (hsub : objects ⊆ members) (started : List Object) (canContinue : Bool) (hgood : Good members started) :
    PassOk members objects started starts canContinue (scan starts objects started canContinue) := by
  induction objects generalizing started canContinue with
  | nil =>
    unfold scan
    exact ⟨hgood, le_refl _, fun h => Or.inl h, fun hc => ⟨hc, rfl, fun o ho => absurd ho (by simp)⟩⟩
  | cons o rest ih =>
    have hrest : rest ⊆ members := fun x hx => hsub (mem_cons_of_mem _ hx)
    have ho : o ∈ members := hsub (by simp)
    -- an object that is passed over leaves the pass over the rest
    have hskip : (isStarted started o.tag ∨ ¬ o.dependencies.all (isStarted started)) →
        PassOk members (o :: rest) started starts canContinue (scan starts rest started canContinue) := by
      intro hwhy
      have h := ih hrest started canContinue hgood
      generalize scan starts rest started canContinue = r at h ⊢
      cases r with
      | error e => exact h
      | ok a =>
        obtain ⟨h1, h2, h3, h4⟩ := h
        refine ⟨h1, h2, h3, fun hc => ⟨(h4 hc).1, (h4 hc).2.1, ?_⟩⟩
        intro x hx hdeps
        rcases mem_cons.1 hx with hx | hx
        · subst hx
          rcases hwhy with hwhy | hwhy
          · exact (isStarted_iff _ _).1 hwhy
          · exact absurd (all_eq_true.2 fun d hd => (isStarted_iff _ _).2 (hdeps d hd)) hwhy
        · exact (h4 hc).2.2 x hx hdeps
    unfold scan
    by_cases hstarted : isStarted started o.tag
    · rw [if_pos hstarted]
      exact hskip (Or.inl hstarted)
    · rw [if_neg hstarted]
      by_cases hdeps : o.dependencies.all (isStarted started)
      · rw [if_pos hdeps]
        have hgood' : Good members (started ++ [o]) := hgood.snoc ho hstarted hdeps
        cases hstart : startOne starts o with
        | some err => exact ⟨hgood', o, ho, hstart⟩
        | none =>
          have h := ih hrest (started ++ [o]) true hgood'
          dsimp only
          generalize scan starts rest (started ++ [o]) true = r at h ⊢
          cases r with
          | error e => exact h
          | ok a =>
            obtain ⟨h1, h2, h3, h4⟩ := h
            have hlen : started.length < a.1.length := by
              rw [length_append, length_singleton] at h2
              omega
            exact ⟨h1, hlen.le, fun _ => Or.inr hlen, fun hc => absurd (h4 hc).1 (by decide)⟩
      · rw [if_neg hdeps]
        exact hskip (Or.inr hdeps)

/-! ## The search for the reason -/

structure Finds (lookup : String → Option Object) (members : List Object) : Prop where
  some : ∀ tag o, lookup tag = some o → o ∈ members ∧ o.tag = tag
  none : ∀ tag, lookup tag = none → tag ∉ members.map (·.tag)

/-- what the search answers: a path of dependencies that comes back, or one that leads to a tag nobody has -/
def Explains (members : List Object) : Outcome → Prop
  | .circular oTree tag => (oTree ++ [tag]).IsChain (Needs members) ∧ tag ∈ oTree
  | .notFound tag owner => Needs members owner tag ∧ tag ∉ members.map (·.tag)
  | _ => False

theorem Stuck.problem (hstuck : Stuck members started) {o : Object}
    (hmem : o ∈ members) (hnot : o.tag ∉ started.map (·.tag)) :
    ∃ d, (o.dependencies.find? fun d => !isStarted started d) = some d ∧ d ∈ o.dependencies ∧
      d ∉ started.map (·.tag) := by
  cases hfind : o.dependencies.find? fun d => !isStarted started d with
  | none =>
    have hall : ∀ d ∈ o.dependencies, d ∈ started.map (·.tag) := by
      intro d hd
      have h := List.find?_eq_none.1 hfind d hd
      rw [← isStarted_iff]
      simpa using h
    exact absurd (hstuck o hmem hall) hnot
  | some d =>
    have h := List.find?_some hfind
    refine ⟨d, rfl, mem_of_find?_eq_some hfind, ?_⟩
    rw [← isStarted_iff]
    simpa using h

variable {lookup : String → Option Object}

theorem lint_explains
    (hfinds : Finds lookup members) (hstuck : Stuck members started) (fuel : ℕ) (oTree : List String) (o : Object)
    (hmem : o ∈ members) (hnot : o.tag ∉ started.map (·.tag)) (hlast : oTree.getLast? = some o.tag)
    (hpath : oTree.IsChain (Needs members)) (hnodup : oTree.Nodup) (hsub : oTree ⊆ members.map (·.tag))
    (hfuel : members.length < fuel + oTree.length) : Explains members (lint lookup started fuel oTree o) := by
  induction fuel generalizing oTree o with
  | zero =>
    -- the tree has different tags of members, so it is not longer than the members
    have hlen := (subperm_of_subset hnodup hsub).length_le
    rw [length_map] at hlen
    omega
  | succ fuel ih =>
    obtain ⟨d, hfind, hd, hdnot⟩ := hstuck.problem hmem hnot
    have hneeds : Needs members o.tag d := ⟨o, hmem, rfl, hd⟩
    have hlonger : (oTree ++ [d]).IsChain (Needs members) := by
      refine isChain_append.2 ⟨hpath, isChain_singleton _, ?_⟩
      intro x hx y hy
      rw [hlast] at hx
      cases hx
      cases hy
      exact hneeds
    unfold lint
    rw [hfind]
    dsimp only [Option.getD_some]
    by_cases hback : d ∈ oTree
    · rw [if_pos hback]
      exact ⟨hlonger, hback⟩
    · rw [if_neg hback]
      cases hlook : lookup d with
      | none => exact ⟨hneeds, hfinds.none d hlook⟩
      | some problem =>
        obtain ⟨hpmem, hptag⟩ := hfinds.some d problem hlook
        subst hptag
        apply ih
        · exact hpmem
        · exact hdnot
        · simp
        · exact hlonger
        · simpa using List.Nodup.concat hback hnodup
        · exact append_subset.2 ⟨hsub, cons_subset.2 ⟨mem_map_of_mem hpmem, nil_subset _⟩⟩
        · rw [length_append, length_singleton]
          omega

/-! ## The whole scan -/

def Reports (members : List Object) (starts : Object → Option String) (started : List Object) : Outcome → Prop
  | .done => started.length = members.length
  | .failed err => ∃ o ∈ members, startOne starts o = some err
  | .circular oTree tag =>
    Explains members (.circular oTree tag) ∧ ∃ o ∈ members, ¬ Startable members o.tag
  | .notFound tag owner =>
    Explains members (.notFound tag owner) ∧ ∃ o ∈ members, ¬ Startable members o.tag
  | .panic => started.length ≠ members.length ∧ ∀ o ∈ members, o.tag ∈ started.map (·.tag)
  | .running => False

theorem Stuck.not_startable (hstuck : Stuck members started) {tag : String}
    (hnot : tag ∉ started.map (·.tag)) : ¬ Startable members tag := by
  intro hbuild
  have hin : tag ∈ started.map Object.tag :=
    buildable_sub_of_closed (S := fun t => t ∈ started.map Object.tag) hstuck hbuild
  exact hnot hin

theorem lint_reports (starts : Object → Option String)
    (hfinds : Finds lookup members) (hstuck : Stuck members started) {o : Object} (hmem : o ∈ members)
    (hnot : o.tag ∉ started.map (·.tag)) :
    Reports members starts started (lint lookup started (members.length + 1) [o.tag] o) := by
  have hexplains : Explains members (lint lookup started (members.length + 1) [o.tag] o) := by
    apply lint_explains hfinds hstuck
    · exact hmem
    · exact hnot
    · rfl
    · exact isChain_singleton _
    · exact nodup_singleton _
    · intro x hx
      rw [mem_singleton.1 hx]
      exact mem_map_of_mem hmem
    · omega
  have hcannot : ∃ o ∈ members, ¬ Startable members o.tag := ⟨o, hmem, hstuck.not_startable hnot⟩
  generalize lint lookup started (members.length + 1) [o.tag] o = outcome at hexplains ⊢
  cases outcome with
  | circular oTree tag | notFound tag owner => exact ⟨hexplains, hcannot⟩
  | _ => exact hexplains.elim

/-- **The scan ends, and what its outcome says.** For any list of objects, also one that has a tag twice -/
theorem startAll_sound {members : List Object} (starts : Object → Option String)
    (hfinds : Finds lookup members) (fuel : ℕ) (started : List Object) (hgood : Good members started)
    (hfuel : members.length < fuel + started.length) : Good members (startAll lookup starts members fuel started).2 ∧
      Reports members starts (startAll lookup starts members fuel started).2
        (startAll lookup starts members fuel started).1 := by
  induction fuel generalizing started with
  | zero =>
    have hlen := hgood.length_le
    omega
  | succ fuel ih =>
    have hpass := scan_ok starts members (List.Subset.refl _) started false hgood
    unfold startAll
    generalize scan starts members started false = pass at hpass ⊢
    cases pass with
    | error e => exact hpass
    | ok a =>
      obtain ⟨started', canContinue⟩ := a
      obtain ⟨hgood', hlen, hprogress, hstop⟩ := hpass
      dsimp only
      by_cases hall : started'.length = members.length
      · rw [if_pos hall]
        exact ⟨hgood', hall⟩
      · rw [if_neg hall]
        cases canContinue with
        | true =>
          have hlonger : started.length < started'.length := by
            rcases hprogress rfl with h | h
            · exact absurd h (by decide)
            · exact h
          exact ih started' hgood' (by omega)
        | false =>
          obtain ⟨-, hsame, hstuck⟩ := hstop rfl
          subst hsame
          rw [if_neg (by decide)]
          cases hfind : members.find? fun o => !isStarted started' o.tag with
          | none =>
            refine ⟨hgood', hall, ?_⟩
            intro o ho
            have h := List.find?_eq_none.1 hfind o ho
            rw [← isStarted_iff]
            simpa using h
          | some current =>
            have hnot : current.tag ∉ started'.map (·.tag) := by
              have h := List.find?_some hfind
              rw [← isStarted_iff]
              simpa using h
            exact ⟨hgood', lint_reports starts hfinds hstuck (mem_of_find?_eq_some hfind) hnot⟩

/-! ## Correctness -/

section Correctness

variable {lookup : String → Option Object} {members : List Object} {starts : Object → Option String}
  {r : Outcome × List Object}

theorem Good.nodup_tags (hgood : Good members r.2) (hlen : r.2.length = members.length) : (members.map (·.tag)).Nodup :=
  ((hgood.ordered.perm hgood.sub hlen).map _).nodup_iff.1 hgood.ordered.nodup

theorem Good.no_defect (hgood : Good members r.2) (hlen : r.2.length = members.length) : ¬ Defect members := by
  apply Core.Dependencies.no_defect (hgood.nodup_tags hlen)
  intro o ho
  apply hgood.ordered.buildable hgood.sub
  exact mem_map_of_mem ((hgood.ordered.perm hgood.sub hlen).mem_iff.2 ho)

theorem Explains.defect {outcome : Outcome} (h : Explains members outcome) : Defect members := by
  cases outcome with
  | circular oTree tag => exact Or.inr (cyclic_of_path h.1 h.2)
  | notFound tag owner =>
    obtain ⟨⟨o, ho, -, hd⟩, hmiss⟩ := h
    exact Or.inl ⟨o, ho, tag, hd, hmiss⟩
  | _ => exact h.elim

theorem correct_of_report (hgood : Good members r.2) (hout : Reports members starts r.2 r.1)
    (hpanic : r.1 ≠ .panic) : Correct members starts r := by
  obtain ⟨outcome, started⟩ := r
  refine ⟨⟨?_, hpanic⟩, ⟨hgood.ordered.nodup, hgood.sub⟩, hgood.ordered.before, ?_, ?_, ?_, ?_, ?_⟩
  · intro h
    rw [h] at hout
    exact hout
  · intro h
    rw [h] at hout
    exact hgood.ordered.perm hgood.sub hout
  · intro err h
    rw [h] at hout
    exact hout
  · intro hstarts
    cases outcome with
    | done => exact iff_of_false (fun h => h rfl) (hgood.no_defect hout)
    | failed err =>
      obtain ⟨o, ho, herr⟩ := hout
      rw [hstarts o ho] at herr
      cases herr
    | circular oTree tag | notFound tag owner => exact iff_of_true (by simp) (Explains.defect hout.1)
    | panic => exact absurd rfl hpanic
    | running => exact hout.elim
  · intro oTree tag h
    rw [h] at hout
    exact hout.1
  · intro tag owner h
    rw [h] at hout
    exact hout.1

theorem no_panic (hgood : Good members r.2) (hout : Reports members starts r.2 r.1)
    (h : (members.map (·.tag)).Nodup ∨ ∃ o ∈ members, ¬ Startable members o.tag) : r.1 ≠ .panic := by
  intro hpanic
  rw [hpanic] at hout
  obtain ⟨hlen, hall⟩ := hout
  rcases h with hnodup | ⟨o, ho, hcannot⟩
  · have hsub : members.map (·.tag) ⊆ r.2.map (·.tag) := by
      intro tag htag
      obtain ⟨o, ho, rfl⟩ := mem_map.1 htag
      exact hall o ho
    have hle := (subperm_of_subset hnodup hsub).length_le
    rw [length_map, length_map] at hle
    exact hlen (le_antisymm hgood.length_le hle)
  · exact hcannot (hgood.ordered.buildable hgood.sub _ (hall o ho))

/-- **The start is correct, whatever the single starts answer, exactly when no tag is used twice or some object cannot
be brought up.** -/
theorem correct_iff (hfinds : Finds lookup members) :
    (∀ starts, Correct members starts (startAll lookup starts members (members.length + 1) [])) ↔
      ((members.map (·.tag)).Nodup ∨ ∃ o ∈ members, ¬ Startable members o.tag) := by
  have hsound := fun starts =>
    startAll_sound starts hfinds (members.length + 1) [] (Good.nil members) (by simp)
  constructor
  · intro hcorrect
    by_contra hnot
    rw [not_or] at hnot
    obtain ⟨hdup, hall⟩ := hnot
    -- no start fails: only a panic is left
    have hc := hcorrect fun _ => none
    obtain ⟨hgood, hout⟩ := hsound fun _ => none
    generalize startAll lookup (fun _ => none) members (members.length + 1) [] = r at hc hgood hout
    obtain ⟨outcome, started⟩ := r
    cases outcome with
    | done => exact hdup (hgood.nodup_tags hout)
    | failed err =>
      obtain ⟨o, -, herr⟩ := hout
      unfold startOne at herr
      split at herr <;> simp at herr
    | circular oTree tag => exact hall hout.2
    | notFound tag owner => exact hall hout.2
    | panic => exact hc.ends.2 rfl
    | running => exact hout
  · intro h starts
    obtain ⟨hgood, hout⟩ := hsound starts
    exact correct_of_report hgood hout (no_panic hgood hout h)

end Correctness

end EtonifyCore.DependencyStart
