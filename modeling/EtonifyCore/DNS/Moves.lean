/-
What the walk over the rules can do to its armed rules and to the trace, as a small set of steps.

A run of `exchangeWithRules` is a sequence of `Step`s, ended by one terminal event or by the end of the fuel
(`exchangeWithRules_steps`); what is proved about runs needs `Step` only. The number that goes with a state counts the rules
that have been passed: armed or, if it is not a `race` rule, left behind by the walk.
-/
import EtonifyCore.DNS.Walk

namespace EtonifyCore.DNSWalk

open EtonifyCore.RuleMatch
open EtonifyCore.DNSRules

variable {E : Type}

/-! ## Steps -/

structure Quiet (st st' : St E) : Prop where
  trace : st'.trace = st.trace
  armedRules : st'.armedRules = st.armedRules
  ruleIndex : st'.ruleIndex = st.ruleIndex
  clock : st.clock ≤ st'.clock

namespace Quiet

variable {st st' st'' : St E}

theorem refl (st : St E) : Quiet st st := ⟨rfl, rfl, rfl, le_rfl⟩

theorem trans (h : Quiet st st') (h' : Quiet st' st'') : Quiet st st'' :=
  ⟨h'.trace.trans h.trace, h'.armedRules.trans h.armedRules, h'.ruleIndex.trans h.ruleIndex, h.clock.trans h'.clock⟩

theorem tick (st : St E) : Quiet st st.tick := ⟨rfl, rfl, rfl, Nat.le_succ _⟩

end Quiet

theorem Settles.quiet {st st' : St E} (h : Settles st st') : Quiet st st' :=
  ⟨h.trace, h.armedRules, h.ruleIndex, h.clock⟩

/-- the steps of a walk that has passed a number of rules -/
inductive Step (env : Env E) : ℕ × St E → ℕ × St E → Prop
  | quiet {b : ℕ} {st st' : St E} (trace : st'.trace = st.trace) (armed : st'.armedRules = st.armedRules)
      (clock : st.clock ≤ st'.clock) : Step env (b, st) (b, st')
  | tested (b : ℕ) (st : St E) (i t t' : ℕ) : Step env (b, st) (b, st.log (.tested i t t'))
  | pass {b : ℕ} (st : St E) (h : ∀ r, env.rules[b]? = some r → r.race = false) : Step env (b, st) (b + 1, st)
  | arm {b : ℕ} {st : St E} (a : ArmedRule E) (index : a.ruleIndex = b) :
      Step env (b, st) (b + 1, { st with armedRules := st.armedRules ++ [a] }.log (.armed b a.futures))
  | judge {b : ℕ} {st : St E} {kept todo : List (ArmedRule E)} {a : ArmedRule E}
      (armed : st.armedRules = kept ++ a :: todo) (ready : ∀ i ∈ a.futures, env.done st.clock i = true) :
      Step env (b, st) (b, { st with armedRules := kept ++ todo }.log (.judged a.ruleIndex st.clock))
  | evaluate {b i : ℕ} {st : St E} (index : i ≤ b) (idle : st.armedRules = []) :
      Step env (b, st) (b, st.log (.evaluated i []))

abbrev Steps (env : Env E) : ℕ × St E → ℕ × St E → Prop := Relation.ReflTransGen (Step env)

inductive Terminal : ℕ → St E → Event → Prop
  | committed {b : ℕ} {st : St E} (j : ℕ) : Terminal b st (.committed j)
  | finished {b i : ℕ} {st : St E} (future : Option ℕ) (index : i ≤ b) (idle : st.armedRules = []) :
      Terminal b st (.finished i [] future)

def Ends (env : Env E) (x : ℕ × St E) (st' : St E) : Prop :=
  ∃ b st e, Steps env x (b, st) ∧ Terminal b st e ∧ st'.trace = e :: st.trace ∧ st.clock ≤ st'.clock

/-- what a verdict of the walk comes with: a result has had its terminal event, and so has the final query of an armed
rule; the final query of another rule is still to be made -/
def Stops (env : Env E) (x : ℕ × St E) : Verdict → St E → Prop
  | .result _, st' => Ends env x st'
  | .pending p, st' => st'.armedRules = [] ∧
    match p.rule with
    | none => Ends env x st'
    | some i => ∃ b, i ≤ b ∧ Steps env x (b, st')
  | .await _, st' => Steps env x (st'.ruleIndex, st')
  | .drain, st' => Steps env x (st'.ruleIndex, st')

section Basics

variable {env : Env E} {x y : ℕ × St E} {b : ℕ} {st st' : St E} {v : Verdict}

theorem Quiet.steps (h : Quiet st st') : Steps env (b, st) (b, st') := .single (.quiet h.trace h.armedRules h.clock)

theorem Ends.prepend (hs : Steps env x y) (h : Ends env y st) : Ends env x st := by
  obtain ⟨b, st1, e, hs1, ht, htr, hc⟩ := h
  exact ⟨b, st1, e, hs.trans hs1, ht, htr, hc⟩

theorem Ends.quiet (h : Ends env x st) (ht : st'.trace = st.trace) (hc : st.clock ≤ st'.clock) : Ends env x st' := by
  obtain ⟨b, st1, e, hs, hterm, htr, hc1⟩ := h
  exact ⟨b, st1, e, hs, hterm, ht.trans htr, hc1.trans hc⟩

theorem Ends.of_terminal {e : Event} (h : Terminal b st e) : Ends env (b, st) (st.log e) :=
  ⟨b, st, e, .refl, h, rfl, le_rfl⟩

theorem Stops.prepend (hs : Steps env x y) (h : Stops env y v st) : Stops env x v st := by
  cases v with
  | result r => exact Ends.prepend hs h
  | await i => exact hs.trans h
  | drain => exact hs.trans h
  | pending p =>
    obtain ⟨hidle, h⟩ := h
    refine ⟨hidle, ?_⟩
    cases hr : p.rule with
    | none =>
      rw [hr] at h
      exact Ends.prepend hs h
    | some i =>
      rw [hr] at h
      obtain ⟨b, hi, hs'⟩ := h
      exact ⟨b, hi, hs.trans hs'⟩

/-! ## The trace and the clock only grow -/

theorem Step.grows (h : Step env x y) : x.2.trace <:+ y.2.trace ∧ x.2.clock ≤ y.2.clock := by
  cases h with
  | quiet trace armed clock => exact ⟨trace ▸ List.suffix_rfl, clock⟩
  | tested => exact ⟨List.suffix_cons _ _, le_rfl⟩
  | pass => exact ⟨List.suffix_rfl, le_rfl⟩
  | arm | judge | evaluate => exact ⟨List.suffix_cons _ _, le_rfl⟩

theorem Steps.grows (h : Steps env x y) : x.2.trace <:+ y.2.trace ∧ x.2.clock ≤ y.2.clock := by
  induction h with
  | refl => exact ⟨List.suffix_rfl, le_rfl⟩
  | tail _ hstep ih => exact ⟨ih.1.trans hstep.grows.1, ih.2.trans hstep.grows.2⟩

theorem Ends.grows (h : Ends env x st) : x.2.trace <:+ st.trace ∧ x.2.clock ≤ st.clock := by
  obtain ⟨b, st1, e, hs, -, htr, hc⟩ := h
  exact ⟨hs.grows.1.trans (htr ▸ List.suffix_cons _ _), hs.grows.2.trans hc⟩

theorem Stops.grows (h : Stops env x v st) : x.2.trace <:+ st.trace ∧ x.2.clock ≤ st.clock := by
  cases v with
  | result r => exact Ends.grows h
  | await i | drain => exact Steps.grows h
  | pending p =>
    obtain ⟨-, h⟩ := h
    cases hr : p.rule with
    | none =>
      rw [hr] at h
      exact Ends.grows h
    | some i =>
      rw [hr] at h
      obtain ⟨b, -, hs⟩ := h
      exact hs.grows

end Basics

/-! ## Reading futures -/

theorem view_quiet (env : Env E) (i : ℕ) (st : St E) : Quiet st (view env i st).2 := Quiet.tick st

theorem anonymousResponse_quiet (env : Env E) (st : St E) : Quiet st (anonymousResponse env st).2 := by
  unfold anonymousResponse
  cases st.anonymousFuture with
  | none => exact Quiet.refl st
  | some i => exact view_quiet env i st

theorem settleDNSFutures_quiet (env : Env E) (st : St E) : Quiet st (settleDNSFutures env st) :=
  (settleDNSFutures_settles env st).quiet

theorem judge_quiet (rule : DNSRule E) (response : Option Msg) (st : St E) : Quiet st (judge rule response st).2 :=
  ⟨rfl, rfl, rfl, le_rfl⟩

section

variable (env : Env E)

theorem ready_cons (i : ℕ) (is : List ℕ) (st : St E) :
    ready env (i :: is) st = if env.done st.clock i then ready env is st.tick else (false, st.tick) := rfl

theorem ready_spec (is : List ℕ) (st : St E) : Quiet st (ready env is st).2 ∧
      ((ready env is st).1 → ∀ i ∈ is, env.done (ready env is st).2.clock i) := by
  induction is generalizing st with
  | nil => exact ⟨Quiet.refl st, by simp⟩
  | cons i is ih =>
    obtain ⟨hq, hall⟩ := ih st.tick
    rw [ready_cons]
    by_cases hd : env.done st.clock i
    · rw [if_pos hd]
      refine ⟨(Quiet.tick st).trans hq, fun hr j hj => ?_⟩
      rcases List.mem_cons.mp hj with rfl | hmem
      · exact Env.done_mono hd ((Nat.le_succ _).trans hq.clock)
      · exact hall hr j hmem
    · rw [if_neg hd]
      exact ⟨Quiet.tick st, by simp⟩

theorem unresolved_quiet (is : List ℕ) (st : St E) : Quiet st (unresolved env is st).2 := by
  induction is generalizing st with
  | nil => exact Quiet.refl st
  | cons i is ih => exact (Quiet.tick st).trans (ih st.tick)

theorem armedResponse_quiet (a : ArmedRule E) (st : St E) : Quiet st (armedResponse env a st).2 := by
  unfold armedResponse
  cases a.bindsAnonymous with
  | false => exact anonymousResponse_quiet env st
  | true =>
    cases a.anonymousFuture with
    | none => exact Quiet.refl st
    | some i => exact view_quiet env i st

theorem armedRespond_quiet (a : ArmedRule E) (st : St E) : Quiet st (armedRespond env a st).2 := by
  unfold armedRespond
  by_cases ht : a.rule.cond.matchResponseTag ≠ ""
  · simp only [if_pos ht]
    exact Quiet.refl st
  · simp only [if_neg ht]
    cases a.anonymousFuture.or st.anonymousFuture with
    | none => exact Quiet.refl st
    | some i => exact view_quiet env i st

end

/-! ## The sweep -/

/-- the verdicts of an armed rule: a result, or a final query of which no other rule is the author -/
def Commits : Verdict → Prop
  | .result _ => True
  | .pending p => p.rule = none
  | .await _ | .drain => False

def Sweeps (env : Env E) (x : ℕ × St E) (k : ℕ) : Option Verdict × St E → Prop
  | (none, st') => Steps env x (x.1, st') ∧ st'.ruleIndex = k
  | (some v, st') => Commits v ∧ Ends env x st'

section Sweep

variable {env : Env E} {x y : ℕ × St E} {k : ℕ}

variable {r : Option Verdict × St E}

theorem Sweeps.prepend (hs : Steps env x y) (hb : y.1 = x.1) (h : Sweeps env y k r) : Sweeps env x k r := by
  obtain ⟨_ | v, st'⟩ := r
  · exact ⟨hs.trans (hb ▸ h.1), h.2⟩
  · exact ⟨h.1, Ends.prepend hs h.2⟩

theorem commit_sweeps (env : Env E) (a : ArmedRule E) (b : ℕ) (st : St E) :
    Sweeps env (b, st) st.ruleIndex (commit env a st) := by
  have hend : ∀ st' : St E, Ends env (b, st') (st'.log (.committed a.ruleIndex)) :=
    fun st' => Ends.of_terminal (.committed a.ruleIndex)
  unfold commit
  cases a.rule.action with
  | respond => exact ⟨trivial, Ends.prepend (armedRespond_quiet env a st).steps (hend _)⟩
  | route server speculative options =>
    dsimp only
    cases resolveDNSRoute env server options a.options with
    | none => exact ⟨.refl, rfl⟩
    | some p => exact ⟨rfl, hend st⟩
  | reject action | predefined response => exact ⟨trivial, hend st⟩
  | evaluate server tag speculative options | routeOptions options => exact ⟨.refl, rfl⟩

theorem judgeArmed_sweeps {a : ArmedRule E} {kept todo : List (ArmedRule E)} {b : ℕ} {st : St E}
    (harmed : st.armedRules = kept ++ a :: todo) (hready : ∀ i ∈ a.futures, env.done st.clock i) :
    Sweeps env (b, st) st.ruleIndex (judgeArmed env a { st with armedRules := kept ++ todo }) := by
  unfold judgeArmed
  refine Sweeps.prepend (.single (.judge harmed hready)) rfl ?_
  dsimp only
  generalize hst1 : ({ st with armedRules := kept ++ todo } : St E).log (.judged a.ruleIndex st.clock) = st1
  have hk : st1.ruleIndex = st.ruleIndex := by rw [← hst1]; rfl
  have hq1 := armedResponse_quiet env a st1
  have hq2 := judge_quiet a.rule (armedResponse env a st1).1 (armedResponse env a st1).2
  have hq := hq1.trans hq2
  cases (judge a.rule (armedResponse env a st1).1 (armedResponse env a st1).2).1 with
  | false => exact ⟨hq.steps, hq.ruleIndex.trans hk⟩
  | true =>
    have hc := commit_sweeps env a b (judge a.rule (armedResponse env a st1).1 (armedResponse env a st1).2).2
    rw [hq.ruleIndex, hk] at hc
    exact Sweeps.prepend hq.steps rfl hc

theorem commit_armed (env : Env E) (a : ArmedRule E) (st : St E) : (commit env a st).2.armedRules = st.armedRules := by
  unfold commit
  cases a.rule.action with
  | respond => exact (armedRespond_quiet env a st).armedRules
  | route server speculative options =>
    dsimp only
    cases resolveDNSRoute env server options a.options <;> rfl
  | _ => rfl

theorem judgeArmed_armed (env : Env E) (a : ArmedRule E) (st : St E) :
    (judgeArmed env a st).2.armedRules = st.armedRules := by
  unfold judgeArmed
  have hq := (armedResponse_quiet env a (st.log (.judged a.ruleIndex st.clock))).armedRules
  dsimp only
  split
  · exact (commit_armed env a _).trans hq
  · exact hq

theorem sweepLoop_sweeps (env : Env E) (b : ℕ) (kept todo : List (ArmedRule E)) (st : St E)
    (h : st.armedRules = kept ++ todo) : Sweeps env (b, st) st.ruleIndex (sweepLoop env kept todo st) := by
  induction todo generalizing kept st with
  | nil => exact ⟨.refl, rfl⟩
  | cons a todo ih =>
    obtain ⟨hq, hdone⟩ := ready_spec env a.futures st
    rw [sweepLoop]
    rcases hr : ready env a.futures st with ⟨b1, st1⟩
    rw [hr] at hq hdone
    dsimp only at hq hdone ⊢
    have harmed := hq.armedRules.trans h
    refine Sweeps.prepend hq.steps rfl ?_
    rw [← hq.ruleIndex]
    cases b1 with
    | false => exact ih (kept ++ [a]) st1 (by simpa using harmed)
    | true =>
      have hj := judgeArmed_sweeps (b := b) harmed (hdone rfl)
      have hleft := judgeArmed_armed env a { st1 with armedRules := kept ++ todo }
      rw [if_pos rfl]
      rcases hja : judgeArmed env a { st1 with armedRules := kept ++ todo } with ⟨_ | v, st2⟩
      · rw [hja] at hj hleft
        obtain ⟨hs, hk⟩ := hj
        rw [← hk]
        exact Sweeps.prepend hs rfl (ih kept st2 hleft)
      · rw [hja] at hj
        exact hj

theorem sweepArmedDNSRules_sweeps (env : Env E) (b : ℕ) (st : St E) :
    Sweeps env (b, st) st.ruleIndex (sweepArmedDNSRules env st) :=
  sweepLoop_sweeps env b [] st.armedRules st rfl

theorem sweepArmedDNSRules_idle {env : Env E} {st : St E} (h : st.armedRules = []) :
    sweepArmedDNSRules env st = (none, st) := by
  rw [sweepArmedDNSRules, h]
  rfl

end Sweep

/-! ## The walk -/

/-- rule `k` is passed, or the walk stops -/
def Passes (env : Env E) (x : ℕ × St E) (k : ℕ) : Option Verdict × St E → Prop
  | (none, st') => Steps env x (k + 1, st') ∧ st'.ruleIndex = k
  | (some v, st') => Stops env x v st'

abbrev Walks (env : Env E) (st : St E) : Option Verdict × St E → Prop := Passes env (st.ruleIndex, st) st.ruleIndex

section Walk

variable {env : Env E} {rule : DNSRule E} {st st' : St E}

theorem Passes.prepend {x y : ℕ × St E} {k : ℕ} (hs : Steps env x y) (h : Passes env y k r) : Passes env x k r := by
  obtain ⟨_ | v, st2⟩ := r
  · exact ⟨hs.trans h.1, h.2⟩
  · exact Stops.prepend hs h

theorem Passes.grows {x : ℕ × St E} {k : ℕ} (h : Passes env x k r) :
    x.2.trace <:+ r.2.trace ∧ x.2.clock ≤ r.2.clock := by
  obtain ⟨_ | v, st2⟩ := r
  · exact h.1.grows
  · exact Stops.grows h

theorem Walks.prepend (hs : Steps env (st.ruleIndex, st) (st.ruleIndex, st'))
    (hk : st'.ruleIndex = st.ruleIndex) (h : Walks env st' r) : Walks env st r := by
  rw [Walks, hk] at h
  exact Passes.prepend hs h

theorem Walks.of_quiet (hq : Quiet st st') (h : Walks env st' r) : Walks env st r :=
  Walks.prepend hq.steps hq.ruleIndex h

theorem Walks.pass (hr : ∀ r, env.rules[st.ruleIndex]? = some r → r.race = false) (hq : Quiet st st') :
    Walks env st (none, st') :=
  ⟨hq.steps.tail (.pass st' hr), hq.ruleIndex⟩

theorem armed_eq_nil (h : st.armedRules = []) : st.armed = [] := by rw [St.armed, h]; rfl

theorem finishRule_walks (r : ExchangeResult) (h : st.armedRules = []) : Walks env st (finishRule r st) := by
  rw [finishRule, armed_eq_nil h]
  exact Ends.of_terminal (.finished none le_rfl h)

theorem drain_walks (env : Env E) (hq : Quiet st st') : Walks env st (some .drain, st') := by
  have hs : Steps env (st.ruleIndex, st) (st.ruleIndex, st') := hq.steps
  show Steps env (st.ruleIndex, st) (st'.ruleIndex, st')
  rw [hq.ruleIndex]
  exact hs

theorem await_walks (env : Env E) (i : ℕ) (st : St E) : Walks env st (some (.await i), st) :=
  show Steps env (st.ruleIndex, st) (st.ruleIndex, st) from .refl

variable {p : PendingExchange}

theorem pending_walks (env : Env E) (h : st.armedRules = []) (hp : p.rule = some st.ruleIndex) :
    Walks env st (some (.pending p), st) := by
  refine ⟨h, ?_⟩
  rw [hp]
  exact ⟨st.ruleIndex, le_rfl, .refl⟩

theorem sweepNow_passes (env : Env E) (st : St E) :
    Passes env (st.ruleIndex + 1, st) st.ruleIndex (sweepNow env st) := by
  have hsweep := sweepArmedDNSRules_sweeps env (st.ruleIndex + 1) st
  unfold sweepNow
  rcases hsw : sweepArmedDNSRules env st with ⟨_ | v, st2⟩
  · rw [hsw] at hsweep
    exact hsweep
  · rw [hsw] at hsweep
    obtain ⟨hv, hend⟩ := hsweep
    cases v with
    | result r => exact hend
    | pending p =>
      refine ⟨rfl, ?_⟩
      rw [show p.rule = none from hv]
      exact hend.quiet rfl le_rfl
    | await i => exact absurd hv id
    | drain => exact absurd hv id

theorem arm_walks (env : Env E) (rule : DNSRule E) (st : St E) : Walks env st (arm env rule st) := by
  unfold arm
  have hq := unresolved_quiet env
    (rule.cond.matchResponseTags.filterMap st.namedFutures ++ (boundAnonymous rule st).toList) st
  rcases hun : unresolved env
    (rule.cond.matchResponseTags.filterMap st.namedFutures ++ (boundAnonymous rule st).toList) st with ⟨futures, st1⟩
  rw [hun] at hq
  dsimp only at hq ⊢
  refine Walks.of_quiet hq ?_
  generalize hst2 : ({ st1 with armedRules := st1.armedRules ++ [armedRule rule futures st1] } : St E).log
    (.armed st1.ruleIndex futures) = st2
  have hk : st2.ruleIndex = st1.ruleIndex := by rw [← hst2]; rfl
  have harm : Step env (st1.ruleIndex, st1) (st1.ruleIndex + 1, st2) := by
    rw [← hst2]
    exact .arm (armedRule rule futures st1) rfl
  by_cases he : futures.isEmpty
  · rw [if_pos he]
    have hsweep := sweepNow_passes env st2
    rw [hk] at hsweep
    exact Passes.prepend (.single harm) hsweep
  · rw [if_neg he]
    exact ⟨.single harm, hk⟩

theorem evaluate_walks (hr : ∀ r, env.rules[st.ruleIndex]? = some r → r.race = false) (server tag : String)
    (speculative : Bool) (options : RouteOptions) : Walks env st (evaluate env server tag speculative options st) := by
  have hslot : ∀ (st1 : St E) (transport : Transport) (query : DNSQueryOptions), Quiet st1
      (if tag = "" then { (launchDNSEvaluate env st1 tag false transport query).2 with
          anonymousFuture := some (launchDNSEvaluate env st1 tag false transport query).1 }
        else { (launchDNSEvaluate env st1 tag false transport query).2 with
          namedFutures := Function.update st1.namedFutures tag
            (some (launchDNSEvaluate env st1 tag false transport query).1) }) := by
    intro st1 transport query
    split_ifs <;> exact ⟨rfl, rfl, rfl, le_rfl⟩
  unfold evaluate
  cases env.transport server with
  | none =>
    refine Walks.pass hr ?_
    split_ifs <;> exact ⟨rfl, rfl, rfl, le_rfl⟩
  | some transport =>
    dsimp only
    by_cases hd : (!speculative && !st.armedRules.isEmpty)
    · rw [if_pos hd]
      exact drain_walks env (Quiet.refl st)
    · rw [if_neg hd]
      cases speculative with
      | true => exact Walks.pass hr (hslot st transport _)
      | false =>
        have hidle : st.armedRules = [] := by simpa using hd
        simp only [Bool.false_eq_true, if_false, armed_eq_nil hidle]
        have hlog : Step env (st.ruleIndex, st) (st.ruleIndex, st.log (.evaluated st.ruleIndex [])) :=
          .evaluate le_rfl hidle
        exact Walks.prepend (.single hlog) rfl (Walks.pass hr (hslot _ transport _))

theorem awaitAnonymous_quiet (env : Env E) (st : St E) : Quiet st (awaitAnonymous env st).2 := by
  unfold awaitAnonymous
  cases st.anonymousFuture with
  | none => exact Quiet.refl st
  | some i => exact Quiet.tick st

theorem respond_walks (env : Env E) (rule : DNSRule E) (st : St E) : Walks env st (respond env rule st) := by
  unfold respond
  by_cases hd : (!st.armedRules.isEmpty)
  · rw [if_pos hd]
    exact drain_walks env (Quiet.refl st)
  · have hidle : st.armedRules = [] := by simpa using hd
    rw [if_neg hd]
    by_cases ht : rule.cond.matchResponseTag ≠ ""
    · rw [if_pos ht]
      exact finishRule_walks _ hidle
    · rw [if_neg ht]
      have hq : Quiet st (if hasBindings rule.cond then (none, st) else awaitAnonymous env st).2 := by
        split_ifs
        · exact Quiet.refl st
        · exact awaitAnonymous_quiet env st
      rcases hw : (if hasBindings rule.cond then (none, st) else awaitAnonymous env st) with ⟨_ | i, st1⟩
      · rw [hw] at hq
        have hq1 := hq.trans (anonymousResponse_quiet env st1)
        exact Walks.of_quiet hq1 (finishRule_walks _ (hq1.armedRules.trans hidle))
      · rw [hw] at hq
        exact Walks.of_quiet hq (await_walks env i st1)

section

variable (hr : ∀ r, env.rules[st.ruleIndex]? = some r → r.race = false)
include hr

theorem route_walks (server : String)
    (speculative : Bool) (options : RouteOptions) : Walks env st (route env server speculative options st) := by
  unfold route
  cases resolveDNSRoute env server options st.effectiveOptions with
  | none => exact Walks.pass hr (Quiet.refl st)
  | some p =>
    obtain ⟨transport, query⟩ := p
    dsimp only
    by_cases hd : (!st.armedRules.isEmpty)
    · rw [if_pos hd]
      split_ifs
      · exact drain_walks env ⟨rfl, rfl, rfl, le_rfl⟩
      · exact drain_walks env (Quiet.refl st)
    · have hidle : st.armedRules = [] := by simpa using hd
      rw [if_neg hd]
      cases st.terminalFuture with
      | none => exact pending_walks env hidle rfl
      | some i =>
        split_ifs
        · exact pending_walks env hidle rfl
        · exact pending_walks env hidle rfl

theorem act_walks : Walks env st (act env rule st) := by
  -- reject and predefined wait for the armed rules as respond does
  have hfinish : ∀ r : ExchangeResult, Walks env st
      (if (!st.armedRules.isEmpty) then (some .drain, st) else finishRule r st) := by
    intro r
    by_cases hd : (!st.armedRules.isEmpty)
    · rw [if_pos hd]
      exact drain_walks env (Quiet.refl st)
    · rw [if_neg hd]
      exact finishRule_walks r (by simpa using hd)
  unfold act
  cases rule.action with
  | routeOptions options => exact Walks.pass hr ⟨rfl, rfl, rfl, le_rfl⟩
  | evaluate server tag speculative options => exact evaluate_walks hr server tag speculative options
  | respond => exact respond_walks env rule st
  | route server speculative options => exact route_walks hr server speculative options
  | reject action => exact hfinish _
  | predefined response => exact hfinish _

theorem judgeRule_walks : Walks env st (judgeRule env rule st) := by
  unfold judgeRule
  have hq := (anonymousResponse_quiet env st).trans
    (judge_quiet rule (anonymousResponse env st).1 (anonymousResponse env st).2)
  dsimp only
  cases (judge rule (anonymousResponse env st).1 (anonymousResponse env st).2).1 with
  | false => exact Walks.pass hr hq
  | true => exact Walks.of_quiet hq (act_walks (by rw [hq.ruleIndex]; exact hr))

end

theorem awaitTagged_steps (env : Env E) (b : ℕ) (is : List ℕ) (st : St E) :
    Steps env (b, st) (b, (awaitTagged env is st).2) ∧ (awaitTagged env is st).2.ruleIndex = st.ruleIndex := by
  induction is generalizing st with
  | nil => exact ⟨.refl, rfl⟩
  | cons i is ih =>
    obtain ⟨st1, hs, hk, e⟩ : ∃ st1 : St E, Steps env (b, st) (b, st1) ∧ st1.ruleIndex = st.ruleIndex ∧
        awaitTagged env (i :: is) st =
          if env.done st1.clock i then awaitTagged env is st1.tick else (some i, st1.tick) := by
      rw [awaitTagged]
      cases st.futures[i]? with
      | none => exact ⟨st, .refl, rfl, rfl⟩
      | some f => exact ⟨_, .single (.tested b st i f.checkedAt st.clock), rfl, rfl⟩
    have hs' := hs.trans (Quiet.tick st1).steps
    rw [e]
    by_cases hd : env.done st1.clock i
    · rw [if_pos hd]
      exact ⟨hs'.trans (ih st1.tick).1, (ih st1.tick).2.trans hk⟩
    · rw [if_neg hd]
      exact ⟨hs', hk⟩

theorem awaitFuture_steps (env : Env E) (b : ℕ) (rule : DNSRule E) (st : St E) :
    Steps env (b, st) (b, (awaitFuture env rule st).2) ∧ (awaitFuture env rule st).2.ruleIndex = st.ruleIndex := by
  unfold awaitFuture
  obtain ⟨hs, hk⟩ := awaitTagged_steps env b (rule.cond.matchResponseTags.filterMap st.namedFutures) st
  rcases haw : awaitTagged env (rule.cond.matchResponseTags.filterMap st.namedFutures) st with ⟨_ | i, st1⟩
  · rw [haw] at hs hk
    split_ifs
    · have hq := awaitAnonymous_quiet env st1
      exact ⟨hs.trans hq.steps, hq.ruleIndex.trans hk⟩
    · exact ⟨hs, hk⟩
  · rw [haw] at hs hk
    exact ⟨hs, hk⟩

theorem walkRule_walks (hrule : env.rules[st.ruleIndex]? = some rule) : Walks env st (walkRule env rule st) := by
  have hplain : rule.race = false → ∀ r, env.rules[st.ruleIndex]? = some r → r.race = false := by
    intro hr r h
    obtain rfl : rule = r := by simpa [hrule] using h
    exact hr
  unfold walkRule
  by_cases hbind : hasBindings rule.cond
  · rw [if_pos hbind]
    have hq := settleDNSFutures_quiet env st
    refine Walks.of_quiet hq ?_
    rw [← hq.ruleIndex] at hplain
    generalize settleDNSFutures env st = st1 at hplain ⊢
    by_cases hr : rule.race
    · simp only [if_pos hr]
      exact arm_walks env rule st1
    · simp only [if_neg hr]
      obtain ⟨hs, hk⟩ := awaitFuture_steps env st1.ruleIndex rule st1
      rcases haw : awaitFuture env rule st1 with ⟨_ | i, st2⟩
      · rw [haw] at hs hk
        refine Walks.prepend hs hk (judgeRule_walks ?_)
        rw [hk]
        exact hplain (by simpa using hr)
      · rw [haw] at hs hk
        exact Walks.prepend hs hk (await_walks env i st2)
  · rw [if_neg hbind]
    refine judgeRule_walks (hplain ?_)
    by_contra hr
    exact hbind (rule.raceBinds (by simpa using hr))

theorem walkLoop_stops (env : Env E) (rules : List (DNSRule E)) (st : St E) (h : env.rules.drop st.ruleIndex = rules) :
    Stops env (st.ruleIndex, st) (walkLoop env rules st).1 (walkLoop env rules st).2 := by
  induction rules generalizing st with
  | nil =>
    rw [walkLoop]
    split_ifs with hd
    · exact Relation.ReflTransGen.refl
    · exact ⟨by simpa using hd, st.ruleIndex, le_rfl, .refl⟩
  | cons rule rules ih =>
    have hrule : env.rules[st.ruleIndex]? = some rule := by
      rw [← List.head?_drop, h]
      rfl
    have hw := walkRule_walks hrule
    rw [walkLoop]
    rcases hwr : walkRule env rule st with ⟨_ | v, st1⟩
    · rw [hwr] at hw
      obtain ⟨hs, hk⟩ := hw
      have hnext : st1.next.ruleIndex = st.ruleIndex + 1 := by rw [← hk]; rfl
      have hdrop : env.rules.drop st1.next.ruleIndex = rules := by
        rw [hnext, ← List.drop_drop, h]
        rfl
      have hloop := ih st1.next hdrop
      rw [hnext] at hloop
      have hmove : Step env (st.ruleIndex + 1, st1) (st.ruleIndex + 1, st1.next) := .quiet rfl rfl le_rfl
      exact Stops.prepend (hs.tail hmove) hloop
    · rw [hwr] at hw
      exact hw

theorem walkDNSRules_stops (env : Env E) (st : St E) :
    Stops env (st.ruleIndex, st) (walkDNSRules env st).1 (walkDNSRules env st).2 :=
  walkLoop_stops env _ st rfl

end Walk

/-! ## The exchange -/

def Finishes (env : Env E) (x : ℕ × St E) (st' : St E) : Prop :=
  Ends env x st' ∨ ∃ b st, Steps env x (b, st) ∧ st'.trace = st.trace ∧ st.clock ≤ st'.clock

section Exchange

variable {env : Env E} {x : ℕ × St E} {st : St E}

theorem finishPendingExchange_trace (env : Env E) (p : PendingExchange) (st : St E) :
    (finishPendingExchange env p st).2.trace =
        (p.rule.map fun i => Event.finished i st.armed p.future).toList ++ st.trace ∧
      st.clock ≤ (finishPendingExchange env p st).2.clock := by
  unfold finishPendingExchange
  cases p.rule with
  | none | some k =>
    cases p.future with
    | none => exact ⟨rfl, le_rfl⟩
    | some i => exact ⟨rfl, (le_max_left _ _).trans (Nat.le_succ _)⟩

theorem finishPendingExchange_ends (h : Stops env x (.pending p) st) :
    Ends env x (finishPendingExchange env p st).2 := by
  obtain ⟨hidle, h⟩ := h
  obtain ⟨ht, hc⟩ := finishPendingExchange_trace env p st
  cases hr : p.rule with
  | none =>
    rw [hr] at h ht
    exact Ends.quiet h ht hc
  | some i =>
    rw [hr, armed_eq_nil hidle] at ht
    rw [hr] at h
    obtain ⟨b, hi, hs⟩ := h
    exact ⟨b, st, _, hs, .finished p.future hi hidle, ht, hc⟩

variable {v : Verdict}

theorem finish_ends (hv : Commits v) (h : Ends env x st) : Ends env x (finish env v st).2 := by
  cases v with
  | result r => exact h
  | pending p =>
    obtain ⟨ht, hc⟩ := finishPendingExchange_trace env p st
    rw [show p.rule = none from hv] at ht
    exact h.quiet ht hc
  | await i => exact absurd hv id
  | drain => exact absurd hv id

theorem mustWait_quiet (env : Env E) (v : Verdict) (st : St E) : Quiet st (mustWait env v st).2 := by
  cases v with
  | await i => exact Quiet.tick st
  | _ => exact Quiet.refl st

def Suspends : Verdict → Prop
  | .result _ => False
  | .await _ | .drain | .pending _ => True

theorem Stops.quiet {st' : St E} (h : Stops env x (.pending p) st) (hq : Quiet st st') :
    Stops env x (.pending p) st' := by
  obtain ⟨hidle, h⟩ := h
  refine ⟨hq.armedRules.trans hidle, ?_⟩
  cases hr : p.rule with
  | none =>
    rw [hr] at h
    exact Ends.quiet h hq.trace hq.clock
  | some i =>
    rw [hr] at h
    obtain ⟨b, hi, hs⟩ := h
    exact ⟨b, hi, hs.trans hq.steps⟩

theorem Stops.finishes (hv : Suspends v) (h : Stops env x v st) : Finishes env x st := by
  cases v with
  | result r => exact absurd hv id
  | await i | drain => exact .inr ⟨_, st, h, rfl, le_rfl⟩
  | pending p =>
    obtain ⟨-, h⟩ := h
    cases hr : p.rule with
    | none =>
      rw [hr] at h
      exact .inl h
    | some i =>
      rw [hr] at h
      obtain ⟨b, -, hs⟩ := h
      exact .inr ⟨b, st, hs, rfl, le_rfl⟩

theorem resume_pending {fuel : ℕ} (h : st.armedRules = []) :
    resumeExchangeWithRules env (fuel + 1) (.pending p) st = finish env (.pending p) (settleDNSFutures env st) := by
  rw [resumeExchangeWithRules, sweepArmedDNSRules_idle ((settleDNSFutures_quiet env st).armedRules.trans h)]

def Waits : Verdict → Prop
  | .await _ | .drain => True
  | .result _ | .pending _ => False

def resumeWalk (env : Env E) (fuel : ℕ) (st : St E) : Option Exchanged × St E :=
  match walkDNSRules env st with
  | (.result r, st) => finish env (.result r) st
  | (v, st) => resumeExchangeWithRules env fuel v st

theorem resume_waiting {fuel : ℕ} (hv : Waits v) {st1 : St E}
    (h : sweepArmedDNSRules env (settleDNSFutures env st) = (none, st1)) : resumeExchangeWithRules env (fuel + 1) v st =
      if (mustWait env v st1).1 then resumeExchangeWithRules env fuel v (mustWait env v st1).2.tick
      else resumeWalk env fuel (mustWait env v st1).2 := by
  cases v with
  | await i | drain => simp only [resumeExchangeWithRules, h]; rfl
  | result r => exact absurd hv id
  | pending p => exact absurd hv id

theorem resume_committed {fuel : ℕ} {v c : Verdict} {st1 : St E}
    (h : sweepArmedDNSRules env (settleDNSFutures env st) = (some c, st1)) :
    resumeExchangeWithRules env (fuel + 1) v st = finish env c st1 := by
  simp only [resumeExchangeWithRules, h]

theorem stops_of_steps (hv : Waits v) (h : Steps env x (st.ruleIndex, st)) : Stops env x v st := by
  cases v with
  | await i => exact h
  | drain => exact h
  | result r => exact absurd hv id
  | pending p => exact absurd hv id

theorem resume_finishes (fuel : ℕ) (hv : Suspends v) (h : Stops env x v st) :
    Finishes env x (resumeExchangeWithRules env fuel v st).2 := by
  induction fuel generalizing v st with
  | zero => exact h.finishes hv
  | succ fuel ih =>
    have hq := settleDNSFutures_quiet env st
    -- a suspension that waits: a sweep, then a wait or a walk
    have hwait : Waits v → Steps env x (st.ruleIndex, st) →
        Finishes env x (resumeExchangeWithRules env (fuel + 1) v st).2 := by
      intro hw hs
      have hs1 := hs.trans hq.steps
      have hsweep := sweepArmedDNSRules_sweeps env st.ruleIndex (settleDNSFutures env st)
      rw [hq.ruleIndex] at hsweep
      rcases hsw : sweepArmedDNSRules env (settleDNSFutures env st) with ⟨_ | c, st1⟩
      · rw [hsw] at hsweep
        obtain ⟨hs2, hk⟩ := hsweep
        have hq2 := mustWait_quiet env v st1
        have hs3 : Steps env x (st.ruleIndex, (mustWait env v st1).2) := (hs1.trans hs2).trans hq2.steps
        rw [← hk, ← hq2.ruleIndex] at hs3
        rw [resume_waiting hw hsw]
        split_ifs
        · exact ih hv (stops_of_steps hw (hs3.trans (Quiet.tick _).steps))
        · have hstop := Stops.prepend hs3 (walkDNSRules_stops env (mustWait env v st1).2)
          unfold resumeWalk
          rcases hwalk : walkDNSRules env (mustWait env v st1).2 with ⟨w, st2⟩
          rw [hwalk] at hstop
          cases w with
          | result r => exact .inl hstop
          | await i | drain | pending p => exact ih trivial hstop
      · rw [hsw] at hsweep
        rw [resume_committed hsw]
        exact .inl (finish_ends hsweep.1 (Ends.prepend hs1 hsweep.2))
    cases v with
    | result r => exact absurd hv id
    | pending p =>
      rw [resume_pending h.1]
      exact .inl (finishPendingExchange_ends (h.quiet hq))
    | await i | drain => exact hwait trivial h

theorem exchangeWithRules_steps (env : Env E) (fuel : ℕ) :
    Finishes env (0, env.start) (exchangeWithRules env fuel).2 := by
  have hstop : Stops env (0, env.start) _ _ := walkDNSRules_stops env env.start
  unfold exchangeWithRules
  rcases hwalk : walkDNSRules env env.start with ⟨w, st⟩
  rw [hwalk] at hstop
  cases w with
  | result r => exact .inl hstop
  | await i | drain | pending p => exact resume_finishes fuel trivial hstop

end Exchange

end EtonifyCore.DNSWalk
