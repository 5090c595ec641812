/-
`urlTestSelectionUpdater` (`daemon/etonify_urltest_selection.go`): results ask for a refresh of the selection, at once or with
a timer, and `finish` refreshes last.

Model: a section under `access` is one step, with the outcome of the test of the interval; so are the lock of `refreshAccess`,
the start of a refresh and its end.

Results: `refresh_coordinated`. It rests on `Inv`, which every step keeps (`step_inv`), and on `Way`: under a schedule in which
every call, the timer and `finish` come again and again, a refresh that is on its way starts (`way_step`).
-/
import EtonifyCore.Core.Fairness
import EtonifyCore.Core.Table

namespace EtonifyCore.URLTestSelection

open Core (Table Fair after)
open Core.Table

/-! ## Model -/

/-- `u.timer`: a timer that has fired is not `nil` until its call of `onTimer` has the lock -/
inductive Timer where
  | off
  | armed
  | fired (i : ℕ)
deriving DecidableEq

inductive Phase where
  | entered
  | waiting
  | holding
  | opened
  | refreshing
  | returned
deriving Inhabited

structure Call where
  onTimer : Bool
  began : ℕ
  phase : Phase := .entered
  /-- it has returned, and `finish` had not been called -/
  early : Bool := false
deriving Inhabited

structure St where
  closed : Bool := false
  /-- `lastRefresh` is set -/
  refreshed : Bool := false
  timer : Timer := .off
  /-- who holds `refreshAccess`: a call, or `finish` -/
  refreshAccess : Option (Option ℕ) := none
  calls : Table Call := .empty
  finish : Option Phase := none
  started : ℕ := 0
  /-- the last call that went on to `refreshIfOpen` -/
  last : ℕ := 0

inductive Op where
  | onResult
  | fire
  | go (i : ℕ) (due : Bool)
  | callFinish
  | goFinish

namespace St

variable (s : St) (i : ℕ)

def setPhase (phase : Phase) : St := { s with calls := s.calls.set i { s.calls.get i with phase } }

def back : St :=
  { s with calls := s.calls.set i { s.calls.get i with phase := .returned, early := s.finish.isNone } }

def onResult (due : Bool) : St :=
  if s.closed then s.back i
  else if !s.refreshed || due then { s with refreshed := true, last := i }.setPhase i .waiting
  else { s with timer := if s.timer = Timer.off then .armed else s.timer }.back i

def onTimer : St :=
  if s.closed then s.back i else { s with timer := .off, refreshed := true, last := i }.setPhase i .waiting

/-- the next step of a call; behind its first section it is in `refreshIfOpen` -/
def go (due : Bool) : St :=
  match (s.calls.get i).phase with
  | .entered => if (s.calls.get i).onTimer then s.onTimer i else s.onResult i due
  | .waiting => if s.refreshAccess.isSome then s else { s with refreshAccess := some (some i) }.setPhase i .holding
  | .holding => if s.closed then { s with refreshAccess := none }.back i else s.setPhase i .opened
  | .opened => { s with started := s.started + 1 }.setPhase i .refreshing
  | .refreshing => { s with refreshAccess := none }.back i
  | .returned => s

def goFinish : St :=
  match s.finish with
  | some .entered =>
    if s.closed then { s with finish := some .returned } else { s with closed := true, timer := .off, finish := some .waiting }
  | some .waiting => if s.refreshAccess.isSome then s else { s with refreshAccess := some none, finish := some .opened }
  | some .opened => { s with started := s.started + 1, finish := some .refreshing }
  | some .refreshing => { s with refreshAccess := none, finish := some .returned }
  | _ => s

end St

def step (s : St) : Op → St
  | .onResult => { s with calls := s.calls.push { onTimer := false, began := s.started } }
  | .fire =>
    if s.timer = .armed then
      { s with timer := .fired s.calls.size, calls := s.calls.push { onTimer := true, began := s.started } }
    else s
  | .go i due => if i < s.calls.size then s.go i due else s
  | .callFinish => if s.finish.isNone then { s with finish := some .entered } else s
  | .goFinish => s.goFinish

def run (ops : List Op) : St := ops.foldl step {}

/-! ## Invariant -/

def Phase.holds : Phase → Bool
  | .holding | .opened | .refreshing => true
  | _ => false

/-- on the way to a refresh, unless `finish` comes first -/
def Phase.comes : Phase → Bool
  | .waiting | .holding | .opened => true
  | _ => false

def Coming (s : St) : Prop :=
  if s.closed then s.finish = some .waiting ∨ s.finish = some .opened
  else s.timer ≠ .off ∨ s.last < s.calls.size ∧ (s.calls.get s.last).phase.comes = true

/-- `finish` has `refreshAccess`, or had it -/
def St.Past (s : St) : Prop := s.finish = some .opened ∨ s.finish = some .refreshing ∨ s.finish = some .returned

@[grind cases] structure Inv (s : St) : Prop where
  lock : ∀ i < s.calls.size, (s.calls.get i).phase.holds = true → s.refreshAccess = some (some i)
  finish : ∀ phase, s.finish = some phase → phase.holds = true → s.refreshAccess = some none
  call : ∀ i, s.refreshAccess = some (some i) → i < s.calls.size ∧ (s.calls.get i).phase.holds = true
  finisher : s.refreshAccess = some none → ∃ phase, s.finish = some phase ∧ phase.holds = true
  opened : s.Past → ∀ i < s.calls.size, (s.calls.get i).phase ≠ .opened
  closed : s.closed = true ↔ ∃ phase, s.finish = some phase ∧ phase ≠ .entered
  timer : s.timer ≠ .off → s.closed = false
  fired : ∀ i, s.timer = .fired i → i < s.calls.size ∧ (s.calls.get i).onTimer = true ∧ (s.calls.get i).phase = .entered
  began : ∀ i < s.calls.size, (s.calls.get i).began ≤ s.started
  refreshing : ∀ i < s.calls.size, (s.calls.get i).phase = .refreshing → (s.calls.get i).began < s.started
  early : ∀ i < s.calls.size, (s.calls.get i).early = true → (s.calls.get i).began < s.started ∨ Coming s

variable {s : St} {i : ℕ} {c : Call} {who : Option ℕ}

@[grind =] theorem get_set (t : Table Call) (j : ℕ) : (t.set i c).get j = if j = i then c else t.get j := by
  simp [Table.set, Function.update_apply]

@[grind =] theorem get_pushed (t : Table Call) (j : ℕ) : (t.push c).get j = if j = t.size then c else t.get j := by
  simp [Table.push, Function.update_apply]

attribute [local grind =] size_set size_push Phase.holds Phase.comes St.Past Coming

theorem go_inv (h : Inv s) (hi : i < s.calls.size) (due : Bool) : Inv (s.go i due) := by
  unfold St.go St.onTimer St.onResult St.setPhase St.back
  cases hphase : (s.calls.get i).phase with
  | entered | holding =>
    dsimp only
    split_ifs <;> constructor <;> grind -linarith
  | waiting =>
    dsimp only
    split_ifs
    · exact h
    · constructor <;> grind -linarith
  | opened | refreshing => constructor <;> grind -linarith
  | returned => exact h

theorem goFinish_inv (h : Inv s) : Inv s.goFinish := by
  unfold St.goFinish
  split
  case h_1 hphase => split_ifs <;> constructor <;> grind -linarith
  case h_2 hphase =>
    split_ifs
    · exact h
    · constructor <;> grind -linarith
  case h_3 hphase => constructor <;> grind -linarith
  case h_4 hphase => constructor <;> grind -linarith
  case h_5 => exact h

theorem step_inv (h : Inv s) (op : Op) : Inv (step s op) := by
  cases op with
  | go i due =>
    dsimp only [step]
    split_ifs with hi
    · exact go_inv h hi due
    · exact h
  | goFinish => exact goFinish_inv h
  | onResult | fire | callFinish =>
    dsimp only [step]
    constructor <;> grind -linarith

/-! ## Progress -/

/-- who can take a step -/
inductive Turn where
  | call (i : ℕ)
  | timer
  | finish

/-- the operation is a step of this one -/
def Turn.takes : Turn → Op → Prop
  | .call i, .go j _ => j = i
  | .timer, .fire => True
  | .finish, .goFinish => True
  | _, _ => False

def Phase.weight : Phase → ℕ
  | .waiting => 2
  | .holding | .opened | .refreshing => 1
  | .entered | .returned => 0

/-- how often the calls can still be in the way of `finish` -/
def St.load (s : St) : ℕ := s.calls.total fun c => c.phase.weight

/-- how the next refresh comes: whose turn helps, and how far it is. The first number counts the sections of `finish` that
can turn the other ways into its own. -/
inductive Way (s : St) : Turn → ℕ ×ₗ ℕ → Prop
  | opened {i : ℕ} (hi : i < s.calls.size) (hphase : (s.calls.get i).phase = .opened) : Way s (.call i) (toLex (0, 0))
  | finishOpened (hf : s.finish = some .opened) : Way s .finish (toLex (0, 1))
  | finishWaits {b : ℕ} (hf : s.finish = some .waiting) (hfree : s.refreshAccess = none) (hb : s.load + 2 ≤ b) :
      Way s .finish (toLex (0, b))
  | finishBehind {i b : ℕ} (hf : s.finish = some .waiting) (hheld : s.refreshAccess = some (some i)) (hb : s.load + 2 ≤ b) :
      Way s (.call i) (toLex (0, b))
  | holding {i : ℕ} (hc : s.closed = false) (hi : i < s.calls.size) (hphase : (s.calls.get i).phase = .holding) :
      Way s (.call i) (toLex (1, 2))
  | waiting {i : ℕ} (hc : s.closed = false) (hi : i < s.calls.size) (hphase : (s.calls.get i).phase = .waiting)
      (hfree : s.refreshAccess = none) : Way s (.call i) (toLex (1, 3))
  | behind {i j : ℕ} (hc : s.closed = false) (hi : i < s.calls.size) (hphase : (s.calls.get i).phase = .refreshing)
      (hj : j < s.calls.size) (hwaits : (s.calls.get j).phase = .waiting) : Way s (.call i) (toLex (1, 4))
  | fired {i : ℕ} (hc : s.closed = false) (ht : s.timer = .fired i) : Way s (.call i) (toLex (1, 5))
  | armed (hc : s.closed = false) (ht : s.timer = .armed) : Way s .timer (toLex (1, 6))

/-- a refresh comes in at most this many moves -/
def Within (s : St) (a : ℕ ×ₗ ℕ) : Prop := ∃ turn b, b < a ∧ Way s turn b

theorem lex_lt {a b c d : ℕ} (h : a < c ∨ a = c ∧ b < d) : toLex (a, b) < toLex (c, d) := Prod.Lex.toLex_lt_toLex.2 h

theorem Inv.finish_of_closed (h : Inv s) (hf : s.finish = some .waiting) : s.closed = true :=
  h.closed.2 ⟨_, hf, nofun⟩

/-- a call that waits for the lock is followed by a refresh: its own, or the one of the call before it -/
theorem Inv.within_of_waiting (h : Inv s) (hc : s.closed = false) (hi : i < s.calls.size)
    (hphase : (s.calls.get i).phase = .waiting) : Within s (toLex (1, 5)) := by
  cases hlock : s.refreshAccess with
  | none => exact ⟨_, _, lex_lt (by omega), .waiting hc hi hphase hlock⟩
  | some who =>
    cases who with
    | none =>
      obtain ⟨phase, hf, hholds⟩ := h.finisher hlock
      have hclosed : s.closed = true := h.closed.2 ⟨phase, hf, by rintro rfl; cases hholds⟩
      rw [hc] at hclosed
      cases hclosed
    | some j =>
      obtain ⟨hj, hholds⟩ := h.call j hlock
      cases hj' : (s.calls.get j).phase with
      | holding => exact ⟨_, _, lex_lt (by omega), .holding hc hj hj'⟩
      | opened => exact ⟨_, _, lex_lt (by omega), .opened hj hj'⟩
      | refreshing => exact ⟨_, _, lex_lt (by omega), .behind hc hj hj' hi hphase⟩
      | entered | waiting | returned =>
        rw [hj'] at hholds
        cases hholds

/-- behind its first section `finish` is the one that refreshes -/
theorem Inv.within_of_finish (h : Inv s) (hf : s.finish = some .waiting) (n : ℕ) : Within s (toLex (1, n)) := by
  cases hlock : s.refreshAccess with
  | none => exact ⟨_, _, lex_lt (by omega), .finishWaits hf hlock le_rfl⟩
  | some who =>
    cases who with
    | none =>
      obtain ⟨phase, hf', hholds⟩ := h.finisher hlock
      rw [hf] at hf'
      cases hf'
      cases hholds
    | some i => exact ⟨_, _, lex_lt (by omega), .finishBehind hf hlock le_rfl⟩

/-- a refresh is on its way whenever one is to come -/
theorem Inv.way_of_coming (h : Inv s) (hcoming : Coming s) : ∃ turn a, Way s turn a := by
  unfold Coming at hcoming
  split_ifs at hcoming with hc
  · rcases hcoming with hf | hf
    · obtain ⟨turn, a, -, hway⟩ := h.within_of_finish hf 0
      exact ⟨turn, a, hway⟩
    · exact ⟨_, _, .finishOpened hf⟩
  · have hopen : s.closed = false := by simpa using hc
    rcases hcoming with ht | ⟨hi, hcomes⟩
    · cases ht' : s.timer with
      | off => exact absurd ht' ht
      | armed => exact ⟨_, _, .armed hopen ht'⟩
      | fired i => exact ⟨_, _, .fired hopen ht'⟩
    · cases hphase : (s.calls.get s.last).phase with
      | waiting =>
        obtain ⟨turn, a, -, hway⟩ := h.within_of_waiting hopen hi hphase
        exact ⟨turn, a, hway⟩
      | holding => exact ⟨_, _, .holding hopen hi hphase⟩
      | opened => exact ⟨_, _, .opened hi hphase⟩
      | entered | refreshing | returned =>
        rw [hphase] at hcomes
        cases hcomes

/-! ### What a step leaves as it is -/

theorem size_step (s : St) (op : Op) : s.calls.size ≤ (step s op).calls.size := by
  cases op with
  | go j due =>
    dsimp only [step]
    unfold St.go St.onTimer St.onResult St.setPhase St.back
    grind
  | _ => grind [step, St.goFinish]

theorem get_step (hi : i < s.calls.size) {op : Op} (hop : ¬ (Turn.call i).takes op) :
    (step s op).calls.get i = s.calls.get i := by
  cases op with
  | go j due =>
    have hne : i ≠ j := fun hij => hop hij.symm
    dsimp only [step]
    unfold St.go St.onTimer St.onResult St.setPhase St.back
    grind
  | _ => grind [step, St.goFinish]

theorem finish_step {op : Op} (hop : op ≠ .goFinish) {phase : Phase} (hf : s.finish = some phase) :
    (step s op).finish = some phase := by
  cases op with
  | go j due =>
    dsimp only [step]
    unfold St.go St.onTimer St.onResult St.setPhase St.back
    grind
  | _ => grind [step]

theorem started_step (s : St) (op : Op) : s.started ≤ (step s op).started := by
  cases op with
  | go j due =>
    dsimp only [step]
    unfold St.go St.onTimer St.onResult St.setPhase St.back
    grind
  | _ => grind [step, St.goFinish]

/-- only the first section of `finish` closes the updater -/
theorem closed_step (hc : s.closed = false) (op : Op) :
    (step s op).closed = false ∨ (step s op).finish = some .waiting := by
  cases op with
  | go j due =>
    dsimp only [step]
    unfold St.go St.onTimer St.onResult St.setPhase St.back
    grind
  | _ => grind [step, St.goFinish]

/-- a free lock stays free, or a call has it -/
theorem lock_step (h : Inv s) (hc : s.closed = false) (hfree : s.refreshAccess = none) (op : Op) :
    (step s op).refreshAccess = none ∨
      ∃ j < (step s op).calls.size, ((step s op).calls.get j).phase = .holding := by
  cases op with
  | go j due =>
    dsimp only [step]
    split_ifs with hj
    · cases hphase : (s.calls.get j).phase with
      | entered =>
        left
        simp only [St.go, hphase, St.onTimer, St.onResult, St.setPhase, St.back]
        split_ifs <;> exact hfree
      | waiting =>
        right
        exact ⟨j, by simpa [St.go, hphase, hfree, St.setPhase] using hj, by simp [St.go, hphase, hfree, St.setPhase]⟩
      | holding | opened | refreshing =>
        -- who holds the lock has it
        have hheld := h.lock j hj (by rw [hphase]; rfl)
        rw [hfree] at hheld
        cases hheld
      | returned =>
        left
        simpa [St.go, hphase] using hfree
    · exact .inl hfree
  | goFinish =>
    have hclosed := h.closed
    left
    grind [step, St.goFinish]
  | onResult | fire | callFinish =>
    left
    grind [step]

/-- a timer stays as it is until it fires or its call waits for the lock -/
theorem timer_step (ht : s.timer ≠ .off) (hopen : s.closed = false) {op : Op} (hc : (step s op).closed = false) :
    (step s op).timer = s.timer ∨ (∃ i, (step s op).timer = .fired i ∧ s.timer = .armed) ∨
      ∃ j < (step s op).calls.size, ((step s op).calls.get j).phase = .waiting := by
  cases op with
  | go j due =>
    dsimp only [step]
    split_ifs with hj
    · cases hphase : (s.calls.get j).phase with
      | entered =>
        by_cases hcall : (s.calls.get j).onTimer = true
        · exact .inr (.inr ⟨j, by simpa [St.go, hphase, hcall, St.onTimer, hopen, St.setPhase] using hj,
            by simp [St.go, hphase, hcall, St.onTimer, hopen, St.setPhase]⟩)
        · left
          simp only [St.go, hphase, Bool.eq_false_of_not_eq_true hcall, Bool.false_eq_true, if_false, St.onResult, hopen,
            St.setPhase, St.back]
          split_ifs <;> rfl
      | waiting | holding =>
        left
        simp only [St.go, hphase, St.setPhase, St.back]
        split_ifs <;> rfl
      | opened | refreshing | returned => simp [St.go, hphase, St.setPhase, St.back]
    · exact .inl rfl
  | fire =>
    dsimp only [step]
    split_ifs with harmed
    · exact .inr (.inl ⟨_, rfl, harmed⟩)
    · exact .inl rfl
  | onResult | callFinish | goFinish =>
    left
    grind [step, St.goFinish]

theorem load_setPhase (hi : i < s.calls.size) (phase : Phase) :
    (s.setPhase i phase).load + (s.calls.get i).phase.weight = s.load + phase.weight := total_set _ _ _ hi

theorem load_back (hi : i < s.calls.size) : (s.back i).load + (s.calls.get i).phase.weight = s.load := total_set _ _ _ hi

/-- behind the first section of `finish` the calls only get out of the way -/
theorem load_go (hc : s.closed = true) (hi : i < s.calls.size) (due : Bool) :
    (s.go i due).load ≤ s.load ∧ ((s.go i due).refreshAccess ≠ s.refreshAccess → (s.go i due).load < s.load) := by
  cases hphase : (s.calls.get i).phase with
  | entered =>
    have hback := load_back hi
    rw [hphase] at hback
    have hgo : s.go i due = s.back i := by simp [St.go, hphase, St.onTimer, St.onResult, hc]
    rw [hgo]
    exact ⟨hback.le, fun hne => absurd rfl hne⟩
  | waiting =>
    by_cases hheld : s.refreshAccess.isSome = true
    · simp [St.go, hphase, hheld]
    · have htaken := load_setPhase (s := { s with refreshAccess := some (some i) }) hi .holding
      have hgo : s.go i due = { s with refreshAccess := some (some i) }.setPhase i .holding := by
        simp [St.go, hphase, hheld]
      rw [hgo]
      simp only [hphase, Phase.weight, St.load] at htaken ⊢
      exact ⟨by omega, fun _ => by omega⟩
  | holding | refreshing =>
    have hback := load_back (s := { s with refreshAccess := none }) hi
    have hgo : s.go i due = { s with refreshAccess := none }.back i := by simp [St.go, hphase, hc]
    rw [hgo]
    simp only [hphase, Phase.weight, St.load] at hback ⊢
    exact ⟨by omega, fun _ => by omega⟩
  | opened =>
    have hstart := load_setPhase (s := { s with started := s.started + 1 }) hi .refreshing
    have hgo : s.go i due = { s with started := s.started + 1 }.setPhase i .refreshing := by simp [St.go, hphase]
    rw [hgo]
    simp only [hphase, Phase.weight, St.load] at hstart ⊢
    exact ⟨by omega, fun hne => absurd rfl hne⟩
  | returned => simp [St.go, hphase]

theorem load_step (h : Inv s) (hc : s.closed = true) {op : Op} (hop : op ≠ .goFinish) :
    (step s op).load ≤ s.load ∧ ((step s op).refreshAccess ≠ s.refreshAccess → (step s op).load < s.load) := by
  cases op with
  | go j due =>
    dsimp only [step]
    split_ifs with hj
    · exact load_go hc hj due
    · simp
  | onResult => simp [step, St.load, Phase.weight]
  | fire =>
    have hoff : s.timer ≠ .armed := fun harmed => by
      rw [h.timer (by rw [harmed]; nofun)] at hc
      cases hc
    simp [step, hoff]
  | callFinish =>
    dsimp only [step]
    split_ifs <;> simp [St.load]
  | goFinish => exact absurd rfl hop

/-! ### Every step comes nearer -/

/-- a step starts a refresh, brings it nearer, or leaves its way as it is, which the turn that helps does not -/
def Nears (s : St) (op : Op) (turn : Turn) (a : ℕ ×ₗ ℕ) : Prop :=
  s.started < (step s op).started ∨ Within (step s op) a ∨ Way (step s op) turn a ∧ ¬ turn.takes op

theorem nears_opened (op : Op) (hi : i < s.calls.size) (hphase : (s.calls.get i).phase = .opened) :
    Nears s op (.call i) (toLex (0, 0)) := by
  by_cases hturn : (Turn.call i).takes op
  · cases op with
    | go j due =>
      obtain rfl : j = i := hturn
      left
      simp [step, hi, St.go, hphase, St.setPhase]
    | _ => exact hturn.elim
  · refine .inr (.inr ⟨.opened (hi.trans_le (size_step s op)) ?_, hturn⟩)
    rw [get_step hi hturn, hphase]

theorem nears_finishOpened (op : Op) (hf : s.finish = some .opened) : Nears s op .finish (toLex (0, 1)) := by
  by_cases hop : op = .goFinish
  · subst hop
    left
    simp [step, St.goFinish, hf]
  · exact .inr (.inr ⟨.finishOpened (finish_step hop hf), by cases op <;> simp_all [Turn.takes]⟩)

section

variable (h : Inv s) (op : Op)
include h

theorem Inv.nears_finishWaits {b : ℕ} (hf : s.finish = some .waiting) (hfree : s.refreshAccess = none)
    (hb : s.load + 2 ≤ b) : Nears s op .finish (toLex (0, b)) := by
  by_cases hop : op = .goFinish
  · subst hop
    exact .inr (.inl ⟨_, _, lex_lt (by omega), .finishOpened (by simp [step, St.goFinish, hf, hfree])⟩)
  · have hf' := finish_step hop hf
    have hload := load_step h (h.finish_of_closed hf) hop
    have hidle : ¬ Turn.finish.takes op := by cases op <;> simp_all [Turn.takes]
    cases hlock : (step s op).refreshAccess with
    | none => exact .inr (.inr ⟨.finishWaits hf' hlock (by omega), hidle⟩)
    | some who =>
      -- a call was faster
      have hless := hload.2 (by rw [hlock, hfree]; nofun)
      cases who with
      | none =>
        obtain ⟨phase, hphase, hholds⟩ := (step_inv h op).finisher hlock
        rw [hf'] at hphase
        cases hphase
        cases hholds
      | some j => exact .inr (.inl ⟨_, _, lex_lt (by omega), .finishBehind hf' hlock le_rfl⟩)

theorem Inv.nears_finishBehind {b : ℕ} (hf : s.finish = some .waiting) (hheld : s.refreshAccess = some (some i))
    (hb : s.load + 2 ≤ b) : Nears s op (.call i) (toLex (0, b)) := by
  have hc := h.finish_of_closed hf
  obtain ⟨hi, hholds⟩ := h.call i hheld
  by_cases hop : op = .goFinish
  · subst hop
    have hsame : step s .goFinish = s := by simp [step, St.goFinish, hf, hheld]
    exact .inr (.inr ⟨by rw [hsame]; exact .finishBehind hf hheld hb, id⟩)
  have hf' := finish_step hop hf
  have hload := load_step h hc hop
  by_cases hturn : (Turn.call i).takes op
  · cases op with
    | go j due =>
      obtain rfl : j = i := hturn
      have hless : (s.go j due).refreshAccess = none → Nears s (.go j due) (.call j) (toLex (0, b)) := by
        intro hfree
        have hfree' : (step s (.go j due)).refreshAccess = none := by simp [step, hi, hfree]
        have hlt := hload.2 (by rw [hfree', hheld]; nofun)
        exact .inr (.inl ⟨_, _, lex_lt (by omega), .finishWaits hf' hfree' le_rfl⟩)
      cases hphase : (s.calls.get j).phase with
      | opened =>
        left
        simp [step, hi, St.go, hphase, St.setPhase]
      | holding | refreshing => exact hless (by simp [St.go, hphase, hc, St.back])
      | entered | waiting | returned =>
        rw [hphase] at hholds
        cases hholds
    | _ => exact hturn.elim
  · -- the lock stays with its holder
    have hholder := (step_inv h op).lock i (hi.trans_le (size_step s op)) (by rw [get_step hi hturn]; exact hholds)
    exact .inr (.inr ⟨.finishBehind hf' hholder (by omega), hturn⟩)

/-- while the updater is open, what holds of the next state is enough if that is open too -/
theorem Inv.nears_open {turn : Turn} {n : ℕ} (hc : s.closed = false)
    (hnext : (step s op).closed = false → Nears s op turn (toLex (1, n))) : Nears s op turn (toLex (1, n)) := by
  rcases closed_step hc op with hc' | hf
  · exact hnext hc'
  · exact .inr (.inl ((step_inv h op).within_of_finish hf n))

theorem Inv.nears_holding (hc : s.closed = false) (hi : i < s.calls.size) (hphase : (s.calls.get i).phase = .holding) :
    Nears s op (.call i) (toLex (1, 2)) := by
  refine h.nears_open op hc fun hc' => ?_
  by_cases hturn : (Turn.call i).takes op
  · cases op with
    | go j due =>
      obtain rfl : j = i := hturn
      have hopened : ((step s (.go j due)).calls.get j).phase = .opened := by
        simp [step, hi, St.go, hphase, hc, St.setPhase]
      exact .inr (.inl ⟨_, _, lex_lt (by omega), .opened (hi.trans_le (size_step s _)) hopened⟩)
    | _ => exact hturn.elim
  · refine .inr (.inr ⟨.holding hc' (hi.trans_le (size_step s op)) ?_, hturn⟩)
    rw [get_step hi hturn, hphase]

theorem Inv.nears_waiting (hc : s.closed = false) (hi : i < s.calls.size) (hphase : (s.calls.get i).phase = .waiting)
    (hfree : s.refreshAccess = none) : Nears s op (.call i) (toLex (1, 3)) := by
  refine h.nears_open op hc fun hc' => ?_
  rcases lock_step h hc hfree op with hfree' | ⟨j, hj, hholding⟩
  · by_cases hturn : (Turn.call i).takes op
    · cases op with
      | go j due =>
        obtain rfl : j = i := hturn
        simp [step, hi, St.go, hphase, hfree, St.setPhase] at hfree'
      | _ => exact hturn.elim
    · refine .inr (.inr ⟨.waiting hc' (hi.trans_le (size_step s op)) ?_ hfree', hturn⟩)
      rw [get_step hi hturn, hphase]
  · exact .inr (.inl ⟨_, _, lex_lt (by omega), .holding hc' hj hholding⟩)

theorem Inv.nears_behind {j : ℕ} (hc : s.closed = false) (hi : i < s.calls.size)
    (hphase : (s.calls.get i).phase = .refreshing) (hj : j < s.calls.size) (hwaits : (s.calls.get j).phase = .waiting) :
    Nears s op (.call i) (toLex (1, 4)) := by
  have hheld := h.lock i hi (by rw [hphase]; rfl)
  have hne : j ≠ i := by
    rintro rfl
    rw [hwaits] at hphase
    cases hphase
  -- the lock is taken, so `j` goes on waiting
  have hwaits' : ((step s op).calls.get j).phase = .waiting := by
    by_cases hturn : (Turn.call j).takes op
    · cases op with
      | go j' due =>
        obtain rfl : j' = j := hturn
        simp [step, hj, St.go, hwaits, hheld]
      | _ => exact hturn.elim
    · rw [get_step hj hturn, hwaits]
  refine h.nears_open op hc fun hc' => ?_
  by_cases hturn : (Turn.call i).takes op
  · cases op with
    | go j' due =>
      obtain rfl : j' = i := hturn
      have hfree : (step s (.go j' due)).refreshAccess = none := by simp [step, hi, St.go, hphase, St.back]
      exact .inr (.inl ⟨_, _, lex_lt (by omega), .waiting hc' (hj.trans_le (size_step s _)) hwaits' hfree⟩)
    | _ => exact hturn.elim
  · refine .inr (.inr ⟨.behind hc' (hi.trans_le (size_step s op)) ?_ (hj.trans_le (size_step s op)) hwaits', hturn⟩)
    rw [get_step hi hturn, hphase]

theorem Inv.nears_fired (hc : s.closed = false) (ht : s.timer = .fired i) : Nears s op (.call i) (toLex (1, 5)) := by
  obtain ⟨hi, hcall, hphase⟩ := h.fired i ht
  refine h.nears_open op hc fun hc' => ?_
  by_cases hturn : (Turn.call i).takes op
  · cases op with
    | go j due =>
      obtain rfl : j = i := hturn
      have hwaits : ((step s (.go j due)).calls.get j).phase = .waiting := by
        simp [step, hi, St.go, hphase, hcall, St.onTimer, hc, St.setPhase]
      exact .inr (.inl ((step_inv h _).within_of_waiting hc' (hi.trans_le (size_step s _)) hwaits))
    | _ => exact hturn.elim
  · rcases timer_step (by rw [ht]; nofun) hc hc' with hsame | ⟨-, -, harmed⟩ | ⟨j, hj, hwaits⟩
    · exact .inr (.inr ⟨.fired hc' (hsame.trans ht), hturn⟩)
    · rw [ht] at harmed
      cases harmed
    · exact .inr (.inl ((step_inv h op).within_of_waiting hc' hj hwaits))

theorem Inv.nears_armed (hc : s.closed = false) (ht : s.timer = .armed) : Nears s op .timer (toLex (1, 6)) := by
  refine h.nears_open op hc fun hc' => ?_
  rcases timer_step (by rw [ht]; nofun) hc hc' with hsame | ⟨i, hfired, -⟩ | ⟨j, hj, hwaits⟩
  · refine .inr (.inr ⟨.armed hc' (hsame.trans ht), fun hturn => ?_⟩)
    cases op with
    | fire => simp [step, ht] at hsame
    | _ => exact hturn
  · exact .inr (.inl ⟨_, _, lex_lt (by omega), .fired hc' hfired⟩)
  · obtain ⟨turn, b, hb, hway⟩ := (step_inv h op).within_of_waiting hc' hj hwaits
    exact .inr (.inl ⟨turn, b, hb.trans (lex_lt (by omega)), hway⟩)

theorem Inv.nears {turn : Turn} {a : ℕ ×ₗ ℕ} (hway : Way s turn a) : Nears s op turn a := by
  cases hway with
  | opened hi hphase => exact nears_opened op hi hphase
  | finishOpened hf => exact nears_finishOpened op hf
  | finishWaits hf hfree hb => exact h.nears_finishWaits op hf hfree hb
  | finishBehind hf hheld hb => exact h.nears_finishBehind op hf hheld hb
  | holding hc hi hphase => exact h.nears_holding op hc hi hphase
  | waiting hc hi hphase hfree => exact h.nears_waiting op hc hi hphase hfree
  | behind hc hi hphase hj hwaits => exact h.nears_behind op hc hi hphase hj hwaits
  | fired hc ht => exact h.nears_fired op hc ht
  | armed hc ht => exact h.nears_armed op hc ht

end

/-- a refresh that is on its way starts, whatever else happens in between -/
theorem Inv.refresh_starts (h : Inv s) (hcoming : Coming s) {sched : ℕ → Op} (hfair : Fair Turn.takes sched) :
    ∃ n, s.started < (after step s sched n).started := by
  obtain ⟨turn, a, hway⟩ := h.way_of_coming hcoming
  have hstep : ∀ s' op turn a, (Inv s' ∧ s.started ≤ s'.started ∧ Way s' turn a) →
      Core.Advances (fun s' : St => s.started < s'.started) (fun s' turn a => Inv s' ∧ s.started ≤ s'.started ∧ Way s' turn a)
        (step s' op) turn a (turn.takes op) := by
    rintro s' op turn a ⟨hinv, hle, hway⟩
    have hinv' := step_inv hinv op
    have hle' := hle.trans (started_step s' op)
    rcases hinv.nears op hway with hgoal | ⟨turn', b, hb, hway'⟩ | ⟨hway', hidle⟩
    · exact .inl (hle.trans_lt hgoal)
    · exact .inr (.inl ⟨turn', b, hb, hinv', hle', hway'⟩)
    · exact .inr (.inr ⟨⟨hinv', hle', hway'⟩, hidle⟩)
  obtain ⟨n, -, hn⟩ := Fair.reaches hstep hfair (n := 0) ⟨h, le_rfl, hway⟩
  exact ⟨n, hn⟩

/-! ## Results -/

def St.Refreshes (s : St) : Option ℕ → Prop
  | some i => i < s.calls.size ∧ (s.calls.get i).phase = .refreshing
  | none => s.finish = some .refreshing

def St.AtRest (s : St) : Prop :=
  s.timer ≠ .armed ∧ (∀ i < s.calls.size, (s.calls.get i).phase = .returned) ∧ (s.finish = none ∨ s.finish = some .returned)

theorem Inv.refreshAccess (h : Inv s) (hr : s.Refreshes who) : s.refreshAccess = some who := by
  cases who with
  | none => exact h.finish _ hr rfl
  | some i => exact h.lock i hr.1 (by rw [hr.2]; rfl)

theorem Inv.not_coming (h : Inv s) (hend : s.finish = some .returned ∨ s.AtRest) : ¬ Coming s := by
  have hclosed := h.closed
  unfold Coming
  rcases hend with hf | ⟨harmed, hall, hf⟩
  · grind -linarith
  · cases ht : s.timer with
    | armed => exact absurd ht harmed
    | off => grind -linarith
    | fired i =>
      obtain ⟨hi, -, hentered⟩ := h.fired i ht
      rw [hall i hi] at hentered
      cases hentered

theorem step_finished (h : Inv s) (hf : s.finish = some .returned) (op : Op) :
    (step s op).finish = some .returned ∧ (step s op).started = s.started := by
  have hopened := h.opened (.inr (.inr hf))
  cases op with
  | go i due =>
    dsimp only [step]
    unfold St.go St.onTimer St.onResult St.setPhase St.back
    grind -linarith
  | _ => grind [step, St.goFinish]

/-- **Refreshes are coordinated.** No two run at a time; a result is followed by a refresh that started after it began, which
every fair schedule comes to; none starts once `finish` has returned. -/
theorem refresh_coordinated (ops : List Op) :
    let s := run ops
    (∀ who who', s.Refreshes who → s.Refreshes who' → who = who') ∧
    (∀ i < s.calls.size, (s.calls.get i).early = true → s.finish = some .returned ∨ s.AtRest →
      (s.calls.get i).began < s.started) ∧
    (∀ i < s.calls.size, (s.calls.get i).early = true → ∀ sched, Fair Turn.takes sched →
      ∃ n, (s.calls.get i).began < (after step s sched n).started) ∧
    (s.finish = some .returned → ∀ ops', (run (ops ++ ops')).started = s.started) := by
  have hinit : Inv {} := by constructor <;> simp [St.Past]
  have hrun : Inv (run ops) := List.foldlRecOn ops step hinit fun _ hs op _ => step_inv hs op
  refine ⟨fun who who' hr hr' => ?_, fun i hi hearly hend => ?_, fun i hi hearly sched hfair => ?_, fun hf ops' => ?_⟩
  · exact Option.some.inj ((hrun.refreshAccess hr).symm.trans (hrun.refreshAccess hr'))
  · exact (hrun.early i hi hearly).resolve_right (hrun.not_coming hend)
  · rcases hrun.early i hi hearly with hdone | hcoming
    · exact ⟨0, hdone⟩
    · obtain ⟨n, hn⟩ := hrun.refresh_starts hcoming hfair
      exact ⟨n, (hrun.began i hi).trans_lt hn⟩
  · rw [run, List.foldl_append]
    refine (List.foldlRecOn (motive := fun s => Inv s ∧ s.finish = some .returned ∧ s.started = (run ops).started) ops' step
      ⟨hrun, hf, rfl⟩ fun s hs op _ => ?_).2.2
    obtain ⟨hinv, hf, hstarted⟩ := hs
    obtain ⟨hf', hsame⟩ := step_finished hinv hf op
    exact ⟨step_inv hinv op, hf', hsame.trans hstarted⟩

end EtonifyCore.URLTestSelection
