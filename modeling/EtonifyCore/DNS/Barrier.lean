/-
`race` rules and the rules after them.

A `race` rule is armed and judged when its futures have resolved. The rules after it must not take effect before; they may
launch speculative queries.

`Barrier`: whenever the action of a rule that is not a `race` rule takes effect, nothing is armed, and every `race` rule
before it has been judged once, after all its futures had resolved, and has not committed. Effects are `evaluated` (a query
that is not speculative is launched; none is if the server does not exist) and `finished`.
-/
import EtonifyCore.DNS.Moves

namespace EtonifyCore.DNSWalk

open List
open EtonifyCore.RuleMatch
open EtonifyCore.DNSRules

variable {E : Type}

/-! ## The barrier -/

def judgements (j : ℕ) (trace : List Event) : ℕ :=
  trace.countP fun
    | .judged k _ => k = j
    | _ => false

/-- the effect of a rule that is not a `race` rule: its index, and the rules that are armed at that time -/
def Event.effect : Event → Option (ℕ × List ℕ)
  | .evaluated i indices => some (i, indices)
  | .finished i indices _ => some (i, indices)
  | .tested .. | .armed .. | .judged .. | .committed _ => none

def Event.isTerminal : Event → Bool
  | .committed _ | .finished .. => true
  | .tested .. | .armed .. | .judged .. | .evaluated .. => false

def IsRace (env : Env E) (j : ℕ) : Prop := ∃ r, env.rules[j]? = some r ∧ r.race = true

/-- rule `j` has been armed, judged once when its futures had resolved, and has not committed -/
structure JudgedOnce (env : Env E) (j : ℕ) (past : List Event) : Prop where
  armed : ∃ futures, .armed j futures ∈ past
  once : judgements j past = 1
  resolved : ∀ futures t, .armed j futures ∈ past → .judged j t ∈ past → ∀ i ∈ futures, env.done t i = true
  uncommitted : .committed j ∉ past

/-- rule `i` may take effect: nothing is armed, and all `race` rules before it are through -/
def Cleared (env : Env E) (i : ℕ) (armed : List ℕ) (past : List Event) : Prop :=
  armed = [] ∧ ∀ j < i, IsRace env j → JudgedOnce env j past

def Barrier (env : Env E) (trace : List Event) : Prop :=
  ∀ e past, e :: past <:+ trace → ∀ i armed, e.effect = some (i, armed) → Cleared env i armed past

theorem barrier_cons {env : Env E} {e : Event} {trace : List Event} (h : Barrier env trace)
    (he : ∀ i armed, e.effect = some (i, armed) → Cleared env i armed trace) : Barrier env (e :: trace) := by
  intro e' past hs i armed heff
  rcases suffix_cons_iff.mp hs with heq | hs
  · obtain ⟨rfl, rfl⟩ := cons_eq_cons.mp heq
    exact he i armed heff
  · exact h e' past hs i armed heff

/-! ## The invariant -/

/-- after `b` rules have been passed: the armed rules are those that were armed and not judged yet -/
structure Inv (env : Env E) (b : ℕ) (armed : List (ArmedRule E)) (trace : List Event) : Prop where
  below : ∀ j futures, .armed j futures ∈ trace → j < b
  covered : ∀ j < b, IsRace env j → ∃ futures, .armed j futures ∈ trace
  unique : ∀ j futures futures', .armed j futures ∈ trace → .armed j futures' ∈ trace → futures = futures'
  listed : ∀ a ∈ armed, .armed a.ruleIndex a.futures ∈ trace
  nodup : (armed.map (·.ruleIndex)).Nodup
  waiting : ∀ a ∈ armed, judgements a.ruleIndex trace = 0
  judged : ∀ j futures, .armed j futures ∈ trace → (∀ a ∈ armed, a.ruleIndex ≠ j) → judgements j trace = 1
  unarmed : ∀ j, (∀ futures, .armed j futures ∉ trace) → judgements j trace = 0
  resolved : ∀ j futures t, .armed j futures ∈ trace → .judged j t ∈ trace → ∀ i ∈ futures, env.done t i = true
  running : ∀ e ∈ trace, e.isTerminal = false
  barrier : Barrier env trace

namespace Inv

variable {env : Env E} {b : ℕ} {armed : List (ArmedRule E)} {trace : List Event}

theorem init (env : Env E) : Inv env 0 [] [] where
  below := by simp
  covered := by simp
  unique := by simp
  listed := by simp
  nodup := by simp
  waiting := by simp
  judged := by simp
  unarmed := by simp [judgements]
  resolved := by simp
  running := by simp
  barrier := by simp [Barrier]

theorem cleared (h : Inv env b [] trace) {i : ℕ} (hi : i ≤ b) : Cleared env i [] trace := by
  refine ⟨rfl, fun j hj hrace => ?_⟩
  obtain ⟨futures, harm⟩ := h.covered j (lt_of_lt_of_le hj hi) hrace
  refine ⟨⟨futures, harm⟩, h.judged j futures harm (by simp), h.resolved j, fun hc => ?_⟩
  simpa [Event.isTerminal] using h.running _ hc

theorem other (h : Inv env b armed trace) {e : Event} (harm : ∀ j futures, e ≠ .armed j futures)
    (hjud : ∀ j t, e ≠ .judged j t) (hterm : e.isTerminal = false)
    (heff : ∀ i l, e.effect = some (i, l) → Cleared env i l trace) : Inv env b armed (e :: trace) := by
  have hmem : ∀ j futures, .armed j futures ∈ e :: trace ↔ .armed j futures ∈ trace := by
    intro j futures
    simp [Ne.symm (harm j futures)]
  have hcount : ∀ j, judgements j (e :: trace) = judgements j trace := by
    intro j
    unfold judgements
    rw [countP_cons_of_neg]
    cases e with
    | judged k t => exact absurd rfl (hjud k t)
    | _ => simp
  refine ⟨?_, ?_, ?_, ?_, h.nodup, ?_, ?_, ?_, ?_, ?_, barrier_cons h.barrier heff⟩
  · simpa only [hmem] using h.below
  · simpa only [hmem] using h.covered
  · simpa only [hmem] using h.unique
  · simpa only [hmem] using h.listed
  · simpa only [hcount] using h.waiting
  · simpa only [hmem, hcount] using h.judged
  · simpa only [hmem, hcount] using h.unarmed
  · intro j futures t ha hj
    rw [hmem] at ha
    rcases mem_cons.mp hj with heq | hj
    · exact absurd heq.symm (hjud j t)
    · exact h.resolved j futures t ha hj
  · exact forall_mem_cons.2 ⟨hterm, h.running⟩

theorem pass (h : Inv env b armed trace) (hr : ∀ r, env.rules[b]? = some r → r.race = false) :
    Inv env (b + 1) armed trace := by
  refine { h with below := fun j futures ha => (h.below j futures ha).trans (Nat.lt_succ_self b), covered := ?_ }
  intro j hj hrace
  rcases Nat.lt_succ_iff_lt_or_eq.mp hj with hj | rfl
  · exact h.covered j hj hrace
  · obtain ⟨r, hrule, hrace⟩ := hrace
    simp [hr r hrule] at hrace

theorem arm (h : Inv env b armed trace) {a : ArmedRule E} (ha : a.ruleIndex = b) :
    Inv env (b + 1) (armed ++ [a]) (.armed b a.futures :: trace) := by
  have hnew : ∀ futures, .armed b futures ∉ trace := fun futures hm => lt_irrefl b (h.below b futures hm)
  have hold : ∀ a' ∈ armed, a'.ruleIndex ≠ b := by
    intro a' hmem heq
    exact hnew a'.futures (heq ▸ h.listed a' hmem)
  have hcount : ∀ j, judgements j (.armed b a.futures :: trace) = judgements j trace := by
    intro j
    exact countP_cons_of_neg (by simp)
  have hmem : ∀ j futures, .armed j futures ∈ Event.armed b a.futures :: trace ↔
      (j = b ∧ futures = a.futures) ∨ .armed j futures ∈ trace := by
    intro j futures
    simp
  constructor
  · intro j futures hj
    rcases (hmem j futures).mp hj with ⟨rfl, -⟩ | hj
    · exact Nat.lt_succ_self j
    · exact (h.below j futures hj).trans (Nat.lt_succ_self b)
  · intro j hj hrace
    rcases Nat.lt_succ_iff_lt_or_eq.mp hj with hj | rfl
    · obtain ⟨futures, hm⟩ := h.covered j hj hrace
      exact ⟨futures, mem_cons_of_mem _ hm⟩
    · exact ⟨a.futures, mem_cons_self⟩
  · intro j futures futures' hj hj'
    rcases (hmem j futures).mp hj with ⟨rfl, rfl⟩ | hin
    · rcases (hmem j futures').mp hj' with ⟨-, rfl⟩ | hin'
      · rfl
      · exact absurd hin' (hnew futures')
    · rcases (hmem j futures').mp hj' with ⟨rfl, -⟩ | hin'
      · exact absurd hin (hnew futures)
      · exact h.unique j futures futures' hin hin'
  · intro a' ha'
    rcases mem_append.mp ha' with ha' | ha'
    · exact mem_cons_of_mem _ (h.listed a' ha')
    · obtain rfl : a' = a := by simpa using ha'
      rw [ha]
      exact mem_cons_self
  · rw [map_append, nodup_append]
    refine ⟨h.nodup, by simp, fun j hj k hk => ?_⟩
    obtain ⟨a', hmem', rfl⟩ := mem_map.mp hj
    obtain rfl : k = b := by simpa [ha] using hk
    exact hold a' hmem'
  · intro a' ha'
    rw [hcount]
    rcases mem_append.mp ha' with ha' | ha'
    · exact h.waiting a' ha'
    · obtain rfl : a' = a := by simpa using ha'
      rw [ha]
      exact h.unarmed b hnew
  · intro j futures hj hout
    rw [hcount]
    rcases (hmem j futures).mp hj with ⟨rfl, -⟩ | hj
    · exact absurd ha (hout a (by simp))
    · exact h.judged j futures hj fun a' ha' => hout a' (mem_append_left _ ha')
  · intro j hj
    rw [hcount]
    exact h.unarmed j fun futures hm => hj futures (mem_cons_of_mem _ hm)
  · intro j futures t hj ht
    have ht' : .judged j t ∈ trace := by simpa using ht
    rcases (hmem j futures).mp hj with ⟨rfl, -⟩ | hj
    · have hzero := h.unarmed j hnew
      rw [judgements, countP_eq_zero] at hzero
      exact absurd (decide_eq_true rfl) (hzero _ ht')
    · exact h.resolved j futures t hj ht'
  · exact forall_mem_cons.2 ⟨rfl, h.running⟩
  · exact barrier_cons h.barrier (by simp [Event.effect])

theorem judge {kept todo : List (ArmedRule E)} {a : ArmedRule E} {t : ℕ} (h : Inv env b (kept ++ a :: todo) trace)
    (hready : ∀ i ∈ a.futures, env.done t i) : Inv env b (kept ++ todo) (.judged a.ruleIndex t :: trace) := by
  have hsub := ((sublist_cons_self a todo).append_left kept).subset
  have ha : a ∈ kept ++ a :: todo := by simp
  have hdiff : ∀ a' ∈ kept ++ todo, a'.ruleIndex ≠ a.ruleIndex := by
    intro a' ha' heq
    have hnodup := h.nodup
    rw [map_append, map_cons, nodup_middle, nodup_cons] at hnodup
    refine hnodup.1 ?_
    rw [← map_append, ← heq]
    exact mem_map_of_mem ha'
  have hsame : judgements a.ruleIndex (.judged a.ruleIndex t :: trace) = judgements a.ruleIndex trace + 1 :=
    countP_cons_of_pos (by simp)
  have hother : ∀ j ≠ a.ruleIndex, judgements j (.judged a.ruleIndex t :: trace) = judgements j trace := by
    intro j hj
    exact countP_cons_of_neg (by simpa using hj.symm)
  have hmem : ∀ j futures, .armed j futures ∈ Event.judged a.ruleIndex t :: trace ↔ .armed j futures ∈ trace := by
    intro j futures
    simp
  constructor
  · simpa only [hmem] using h.below
  · simpa only [hmem] using h.covered
  · simpa only [hmem] using h.unique
  · exact fun a' ha' => mem_cons_of_mem _ (h.listed a' (hsub ha'))
  · have hnodup := h.nodup
    rw [map_append, map_cons, nodup_middle, nodup_cons] at hnodup
    rw [map_append]
    exact hnodup.2
  · intro a' ha'
    rw [hother _ (hdiff a' ha')]
    exact h.waiting a' (hsub ha')
  · intro j futures hj hout
    rw [hmem] at hj
    by_cases heq : j = a.ruleIndex
    · rw [heq, hsame, h.waiting a ha]
    · rw [hother j heq]
      refine h.judged j futures hj fun a' ha' => ?_
      rcases mem_append.mp ha' with h' | h'
      · exact hout a' (mem_append_left _ h')
      · rcases mem_cons.mp h' with rfl | h'
        · exact Ne.symm heq
        · exact hout a' (mem_append_right _ h')
  · intro j hj
    simp only [hmem] at hj
    have heq : j ≠ a.ruleIndex := fun heq => hj a.futures (heq ▸ h.listed a ha)
    rw [hother j heq]
    exact h.unarmed j hj
  · intro j futures t' hj ht'
    rw [hmem] at hj
    rcases mem_cons.mp ht' with heq | ht'
    · obtain ⟨rfl, rfl⟩ : j = a.ruleIndex ∧ t' = t := by simpa using heq
      rw [h.unique _ futures a.futures hj (h.listed a ha)]
      exact hready
    · exact h.resolved j futures t' hj ht'
  · exact forall_mem_cons.2 ⟨rfl, h.running⟩
  · exact barrier_cons h.barrier (by simp [Event.effect])

end Inv

/-! ## Runs -/

section Runs

variable {env : Env E}

theorem step_inv {x y : ℕ × St E} (hstep : Step env x y) (h : Inv env x.1 x.2.armedRules x.2.trace) :
    Inv env y.1 y.2.armedRules y.2.trace := by
  cases hstep with
  | quiet trace armed clock =>
    rw [trace, armed]
    exact h
  | tested b st i t t' => exact h.other (by simp) (by simp) rfl (by simp [Event.effect])
  | pass st hr => exact h.pass hr
  | arm a index => exact h.arm index
  | judge armed ready =>
    rw [armed] at h
    exact h.judge ready
  | @evaluate b i st index idle =>
    refine h.other (by simp) (by simp) rfl fun k l heff => ?_
    obtain ⟨rfl, rfl⟩ : i = k ∧ [] = l := by simpa [Event.effect] using heff
    rw [idle] at h
    exact h.cleared index

theorem steps_inv {x y : ℕ × St E} (hs : Steps env x y) (h : Inv env x.1 x.2.armedRules x.2.trace) :
    Inv env y.1 y.2.armedRules y.2.trace := by
  induction hs with
  | refl => exact h
  | tail _ hstep ih => exact step_inv hstep ih

def terminals (trace : List Event) : ℕ := trace.countP Event.isTerminal

theorem Inv.terminals_eq {b : ℕ} {armed : List (ArmedRule E)} {trace : List Event} (h : Inv env b armed trace) :
    terminals trace = 0 := by
  rw [terminals, countP_eq_zero]
  intro e he
  simp [h.running e he]

theorem Inv.terminal {b : ℕ} {st : St E} (h : Inv env b st.armedRules st.trace) {e : Event} (he : Terminal b st e) :
    Barrier env (e :: st.trace) := by
  refine barrier_cons h.barrier fun i l heff => ?_
  rcases he with j | ⟨future, index, idle⟩
  · simp [Event.effect] at heff
  · obtain ⟨rfl, rfl⟩ := heff
    rw [idle] at h
    exact h.cleared index

/-- **The barrier.** In every run, other actions take effect only when nothing is armed and the `race` rules before them have
been judged without committing; at most one terminal action takes effect. -/
theorem exchangeWithRules_barrier (env : Env E) (fuel : ℕ) :
    Barrier env (exchangeWithRules env fuel).2.trace ∧ terminals (exchangeWithRules env fuel).2.trace ≤ 1 := by
  rcases exchangeWithRules_steps env fuel with ⟨b, st, e, hs, he, htrace, -⟩ | ⟨b, st, hs, htrace, -⟩
  · have h := steps_inv hs (Inv.init env)
    rw [htrace]
    refine ⟨h.terminal he, ?_⟩
    rw [terminals, countP_cons]
    have hzero : List.countP Event.isTerminal st.trace = 0 := h.terminals_eq
    rw [hzero]
    split_ifs <;> omega
  · have h := steps_inv hs (Inv.init env)
    rw [htrace]
    exact ⟨h.barrier, h.terminals_eq.le.trans (Nat.zero_le 1)⟩

end Runs

end EtonifyCore.DNSWalk
