/-
The connection pool neither loses a connection nor closes one in use.

The pool calls `Close` after it has let go of the lock, and a dial returns before it has it: between the two a connection is
neither tracked nor closed (`dialed_untracked`), but in the hand of an operation that is still running (`InHand`).
-/
import EtonifyCore.Transport.ConnPoolAccounts

namespace EtonifyCore.ConnPool

open List
open Core (Table)
open Core.Table St

/-! ## Where a connection is -/

def Phase.hand : Phase → Option ℕ
  | .dialing _ dial => dial.conn
  | _ => none

def Tracked (s : St) (c : ℕ) : Prop := ∃ g, s.current = some g ∧ c ∈ (s.states.get g).all

/-- a running operation has the connection: it is about to close it, goes through a state that was replaced, or has dialed
it and comes to the lock next -/
inductive InHand (s : St) (c : ℕ) : Prop
  | closing : c ∈ s.closing → InHand s c
  | leaving (g : ℕ) : g ∈ s.leaving → c ∈ (s.states.get g).all → InHand s c
  | connect (i : ℕ) : i < s.connects.size → (s.connects.get i).dial.conn = some c → InHand s c
  | acquirer (a : ℕ) : a < s.acquirers.size → (s.acquirers.get a).phase.hand = some c → InHand s c

def Placed (s : St) (c : ℕ) : Prop := Tracked s c ∨ (s.conns.get c).closed = true ∨ InHand s c

variable {mode : Mode} {s : St} {a c g i : ℕ}

theorem placed_of_closing (h : c ∈ s.closing) : Placed s c := .inr (.inr (.closing h))

structure Keeps (s s' : St) (c : ℕ) : Prop where
  tracked (g : ℕ) : s.current = some g → c ∈ (s.states.get g).all → Placed s' c := by
    exact fun _ hg hmem => .inl ⟨_, hg, hmem⟩
  closed : (s.conns.get c).closed = true → Placed s' c := by exact fun hclosed => .inr (.inl hclosed)
  closing : c ∈ s.closing → Placed s' c := by exact fun hmem => .inr (.inr (.closing hmem))
  leaving (g : ℕ) : g ∈ s.leaving → c ∈ (s.states.get g).all → Placed s' c := by
    exact fun _ hg hmem => .inr (.inr (.leaving _ hg hmem))
  connect (i : ℕ) : i < s.connects.size → (s.connects.get i).dial.conn = some c → Placed s' c := by
    exact fun _ hi hconn => .inr (.inr (.connect _ hi hconn))
  acquirer (a : ℕ) : a < s.acquirers.size → (s.acquirers.get a).phase.hand = some c → Placed s' c := by
    exact fun _ ha hhand => .inr (.inr (.acquirer _ ha hhand))

section

variable (h : Placed s c)
include h

theorem Placed.keep {s' : St} (hk : Keeps s s' c) : Placed s' c := by
  rcases h with ⟨g, hg, hmem⟩ | hclosed | hin
  · exact hk.tracked g hg hmem
  · exact hk.closed hclosed
  · cases hin with
    | closing hmem => exact hk.closing hmem
    | leaving g hg hmem => exact hk.leaving g hg hmem
    | connect i hi hconn => exact hk.connect i hi hconn
    | acquirer a ha hhand => exact hk.acquirer a ha hhand

theorem Placed.setState {state : State} (hall : c ∈ (s.states.get g).all → c ∈ state.all) :
    Placed (s.setState g state) c := by
  have hkeep : ∀ g', c ∈ (s.states.get g').all → c ∈ ((s.setState g state).states.get g').all :=
    fun _ hmem => get_set_imp _ (P := fun state : State => c ∈ state.all) hall hmem
  exact h.keep
    { tracked := fun g' hg hmem => .inl ⟨g', hg, hkeep g' hmem⟩
      leaving := fun g' hg hmem => .inr (.inr (.leaving g' hg (hkeep g' hmem))) }

theorem Placed.setPhase {phase : Phase}
    (hhand : (s.acquirers.get a).phase.hand = some c → phase.hand = some c) : Placed (s.setPhase a phase) c :=
  h.keep
    { acquirer := fun a' ha' hphase => .inr (.inr (.acquirer a' ha'
        (get_set_imp _ (P := fun k : Acquirer => k.phase.hand = some c) hhand hphase))) }

theorem Placed.setConnect {connect : Connect}
    (hhand : (s.connects.get i).dial.conn = some c → connect.dial.conn = some c) : Placed (s.setConnect i connect) c :=
  h.keep
    { connect := fun i' hi hconn => .inr (.inr (.connect i' hi
        (get_set_imp _ (P := fun k : Connect => k.dial.conn = some c) hhand hconn))) }

theorem Placed.setConn {c' : ℕ} {conn : Conn} (hclosed : (s.conns.get c').closed → conn.closed) :
    Placed (s.setConn c' conn) c :=
  h.keep { closed := fun hold => .inr (.inl (get_set_imp _ (P := fun k : Conn => k.closed) hclosed hold)) }

theorem Placed.cancelConn (c' : ℕ) (cause : Err) : Placed (s.cancelConn c' cause) c := h.setConn fun hclosed => hclosed

theorem Placed.pushConnect (connect : Connect) : Placed { s with connects := s.connects.push connect } c := by
  refine h.keep { connect := fun i hi hconn => .inr (.inr (.connect i (Nat.lt_succ_of_lt hi) ?_)) }
  rw [get_push _ _ hi]
  exact hconn

theorem Placed.willClose (c' : ℕ) : Placed (s.willClose c') c :=
  h.keep { closing := fun hmem => .inr (.inr (.closing (mem_append_left _ hmem))) }

end

theorem placed_willClose_self (s : St) (c : ℕ) : Placed (s.willClose c) c :=
  placed_of_closing (mem_append_right _ (mem_singleton_self c))

theorem Placed.removeConn (h : Placed s c) (mode : Mode) (g c' : ℕ) (cause : Err) :
    Placed ((s.removeConn mode g c' cause).willClose c') c := by
  by_cases hne : c = c'
  · subst hne
    exact placed_willClose_self _ c
  · refine Placed.willClose ?_ c'
    have hkeep : c ∈ (s.states.get g).all → c ∈ (s.states.get g).all.filter (· ≠ c') :=
      fun hmem => mem_filter.2 ⟨hmem, by simpa using hne⟩
    unfold St.removeConn
    dsimp only
    cases mode with
    | single =>
      split_ifs
      · exact Placed.cancelConn (h.setState hkeep) c' cause
      · exact h.setState hkeep
    | ordered => exact h.setState hkeep

/-! ## No connection is lost -/

def AllPlaced (s : St) : Prop := ∀ c < s.conns.size, Placed s c

theorem AllPlaced.of_keeps {s' : St} (h : AllPlaced s) (hsize : s'.conns.size = s.conns.size)
    (hkeeps : ∀ c, Placed s c → Placed s' c) : AllPlaced s' := by
  intro c hc
  rw [hsize] at hc
  exact hkeeps c (h c hc)

@[simp] theorem conns_size_removeConn (mode : Mode) (g c : ℕ) (cause : Err) :
    (s.removeConn mode g c cause).conns.size = s.conns.size := by
  unfold removeConn
  dsimp only
  cases mode with
  | single =>
    split_ifs
    · rfl
    · rfl
  | ordered => rfl

theorem Placed.take (h : Placed s c) (hphase : (s.acquirers.get a).phase.hand = none) (g c' : ℕ) :
    Placed (s.take a g c') c := by
  refine Placed.setPhase (h.setState (by exact id)) fun hno => ?_
  change (s.acquirers.get a).phase.hand = some c at hno
  rw [hphase] at hno
  cases hno

theorem Placed.stopWaiting (h : Placed s c) (g : ℕ) : Placed (s.stopWaiting g) c := h.setState (by exact id)

theorem Placed.setPhase_of_none (h : Placed s c) (hphase : (s.acquirers.get a).phase.hand = none) (phase : Phase) :
    Placed (s.setPhase a phase) c := by
  refine h.setPhase fun hno => ?_
  rw [hphase] at hno
  cases hno

section

variable (h : AllPlaced s)
include h

theorem enterShared_placed (hphase : (s.acquirers.get a).phase.hand = none) (g : ℕ) :
    AllPlaced (s.enterShared a g) := by
  unfold enterShared
  dsimp only
  split
  · rename_i c' _
    split_ifs
    · exact h.of_keeps rfl fun c hc => hc.take hphase g c'
    · exact h.of_keeps (conns_size_removeConn ..) fun c hc => hc.removeConn .single g c' .errClosed
  · split
    · exact h.of_keeps rfl fun c hc => Placed.setPhase_of_none (hc.setState (by exact id)) (by exact hphase) _
    · exact h.of_keeps rfl fun c hc =>
        Placed.setPhase_of_none (Placed.pushConnect (hc.setState (by exact id)) _) (by exact hphase) _

theorem enterOrdered_placed (hphase : (s.acquirers.get a).phase.hand = none) (g : ℕ) :
    AllPlaced (s.enterOrdered a g) := by
  unfold enterOrdered
  dsimp only
  split
  · exact h.of_keeps rfl fun c hc => hc.setPhase_of_none hphase _
  · rename_i c' idle _
    split_ifs
    · exact h.of_keeps rfl fun c hc => Placed.setPhase_of_none (hc.setState (by exact id)) (by exact hphase) _
    · refine h.of_keeps rfl fun c hc => ?_
      by_cases hne : c = c'
      · subst hne
        exact placed_willClose_self _ c
      · exact Placed.willClose (hc.setState fun hmem => mem_filter.2 ⟨hmem, by simpa using hne⟩) c'

theorem enterStep_placed : AllPlaced (s.enterStep mode a) := by
  unfold enterStep
  split
  · rename_i hphase
    have hnone : (s.acquirers.get a).phase.hand = none := by rw [hphase]; rfl
    split
    · exact h.of_keeps rfl fun c hc => hc.setPhase_of_none hnone _
    · cases mode with
      | single => exact enterShared_placed h hnone _
      | ordered => exact enterOrdered_placed h hnone _
  · exact h

theorem collectStep_placed : AllPlaced (s.collectStep a) := by
  unfold collectStep
  split
  · rename_i g i startDial hphase
    have hnone : (s.acquirers.get a).phase.hand = none := by rw [hphase]; rfl
    have hstop : AllPlaced (s.stopWaiting g) := h.of_keeps rfl fun c hc => hc.stopWaiting g
    by_cases hdone : (!(s.connects.get i).done)
    · rw [if_pos hdone]
      exact h
    rw [if_neg hdone]
    split
    · split_ifs
      · exact hstop.of_keeps rfl fun c hc => hc.setPhase_of_none (by exact hnone) _
      · exact hstop.of_keeps rfl fun c hc => hc.setPhase_of_none (by exact hnone) _
    · by_cases hcurrent : (s.stopWaiting g).current ≠ some g
      · rw [if_pos hcurrent]
        exact hstop.of_keeps rfl fun c hc => hc.setPhase_of_none (by exact hnone) _
      rw [if_neg hcurrent]
      split
      · exact hstop.of_keeps rfl fun c hc => hc.setPhase_of_none (by exact hnone) _
      · rename_i c' _
        split_ifs
        · exact hstop.of_keeps rfl fun c hc => hc.take (by exact hnone) g c'
        · refine hstop.of_keeps (conns_size_removeConn ..) fun c hc => ?_
          refine Placed.setPhase (hc.removeConn .single g c' .errClosed) fun hno => ?_
          change (((s.stopWaiting g).removeConn .single g c' .errClosed).acquirers.get a).phase.hand = some c at hno
          rw [(removeConn_frame ..).2.1] at hno
          change (s.acquirers.get a).phase.hand = some c at hno
          rw [hnone] at hno
          cases hno
  · exact h

theorem abandonStep_placed : AllPlaced (s.abandonStep a) := by
  unfold abandonStep
  split
  · rename_i g i startDial hphase
    have hnone : (s.acquirers.get a).phase.hand = none := by rw [hphase]; rfl
    split_ifs
    · exact h.of_keeps rfl fun c hc => Placed.setPhase_of_none (hc.stopWaiting g) (by exact hnone) _
    · exact h
  · exact h

theorem leaveStep_placed : AllPlaced (s.leaveStep a) := by
  unfold leaveStep
  split
  · rename_i g i startDial hphase
    have hnone : (s.acquirers.get a).phase.hand = none := by rw [hphase]; rfl
    by_cases hcancelled : (s.states.get g).cancelled.isSome
    · rw [if_pos hcancelled]
      exact h.of_keeps rfl fun c hc => Placed.setPhase_of_none (hc.stopWaiting g) (by exact hnone) _
    · rw [if_neg hcancelled]
      exact h
  · exact h

theorem dialResult_placed (err : Option Err) : (∀ c < s.conns.size, Placed (s.dialResult err).1 c) ∧
      ∀ c < (s.dialResult err).1.conns.size, c < s.conns.size ∨ (s.dialResult err).2 = .ok c := by
  cases err with
  | some err => exact ⟨h, fun c hc => .inl hc⟩
  | none =>
    refine ⟨fun c hc => ?_, fun c hc => ?_⟩
    · refine (h c hc).keep { closed := fun hclosed => .inr (.inl ?_) }
      change ((s.conns.push {}).get c).closed
      rw [get_push _ _ hc]
      exact hclosed
    · rcases Nat.lt_succ_iff_lt_or_eq.1 hc with hlt | rfl
      · exact .inl hlt
      · exact .inr rfl

end

theorem acquirers_dialResult (err : Option Err) : (s.dialResult err).1.acquirers = s.acquirers := by
  cases err with
  | some err => rfl
  | none => rfl

theorem connects_dialResult (err : Option Err) : (s.dialResult err).1.connects = s.connects := by
  cases err with
  | some err => rfl
  | none => rfl

theorem dialedStep_placed (h : AllPlaced s) (hi : i < s.connects.size) (err : Option Err) :
    AllPlaced (s.dialedStep i err) := by
  unfold dialedStep
  dsimp only
  split
  · rename_i hdial
    obtain ⟨hold, hnew⟩ := dialResult_placed h err
    intro c hc
    rcases hnew c hc with hlt | hok
    · refine (hold c hlt).setConnect fun hno => ?_
      rw [connects_dialResult, hdial] at hno
      cases hno
    · refine .inr (.inr (.connect i ?_ ?_))
      · change i < (s.dialResult err).1.connects.size
        rw [connects_dialResult]
        exact hi
      · change (((s.dialResult err).1.connects.set i _).get i).dial.conn = some c
        rw [get_set_self, hok]
        rfl
  · exact h

theorem dialedOrderedStep_placed (h : AllPlaced s) (ha : a < s.acquirers.size) (err : Option Err) :
    AllPlaced (s.dialedOrderedStep a err) := by
  unfold dialedOrderedStep
  split
  · rename_i g hphase
    obtain ⟨hold, hnew⟩ := dialResult_placed h err
    intro c hc
    rcases hnew c hc with hlt | hok
    · refine (hold c hlt).setPhase fun hno => ?_
      rw [acquirers_dialResult, hphase] at hno
      cases hno
    · refine .inr (.inr (.acquirer a ?_ ?_))
      · change a < (s.dialResult err).1.acquirers.size
        rw [acquirers_dialResult]
        exact ha
      · change (((s.dialResult err).1.acquirers.set a _).get a).phase.hand = some c
        rw [get_set_self, hok]
        rfl
  · exact h

theorem Placed.handToClosing {s' : St} (c' : ℕ) (hclosing : s'.closing = s.closing ++ [c']) (h : c ≠ c' → Placed s' c) :
    Placed s' c := by
  by_cases hne : c = c'
  · subst hne
    exact placed_of_closing (hclosing ▸ mem_append_right _ (mem_singleton_self c))
  · exact h hne

section

variable (h : AllPlaced s)
include h

theorem connectStep_placed : AllPlaced (s.connectStep i) := by
  unfold connectStep
  dsimp only
  split
  · exact h
  · exact h
  · rename_i result hdial
    split
    · refine h.of_keeps rfl fun c hc => hc.setConnect fun hconn => ?_
      rw [hdial] at hconn
      cases result with
      | error err => cases hconn
      | ok c' => exact hconn
    · cases result with
      | error err =>
        refine h.of_keeps rfl fun c hc => hc.setConnect fun hconn => ?_
        rw [hdial] at hconn
        cases hconn
      | ok c' =>
        refine h.of_keeps rfl fun c hc => ?_
        refine Placed.handToClosing c' rfl fun hne => ?_
        refine Placed.setConnect (hc.willClose c') fun hconn => ?_
        change (s.connects.get i).dial.conn = some c at hconn
        rw [hdial] at hconn
        exact absurd (Option.some.inj hconn).symm hne
  · rename_i result hdial
    cases result with
    | error err =>
      refine h.of_keeps rfl fun c hc => Placed.setConnect (hc.setState (by exact id)) fun hconn => ?_
      change (s.connects.get i).dial.conn = some c at hconn
      rw [hdial] at hconn
      cases hconn
    | ok c' =>
      have hother : ∀ c, c ≠ c' → (s.connects.get i).dial.conn ≠ some c := by
        intro c hne hconn
        rw [hdial] at hconn
        exact hne (Option.some.inj hconn).symm
      split_ifs with hcurrent
      · refine h.of_keeps rfl fun c hc => ?_
        refine Placed.handToClosing c' rfl fun hne => ?_
        refine Placed.setConnect (Placed.willClose (hc.setState (by exact id)) c') fun hconn => ?_
        exact absurd hconn (hother c hne)
      · refine h.of_keeps rfl fun c hc => ?_
        by_cases hne : c = c'
        · subst hne
          refine .inl ⟨(s.connects.get i).state, Classical.not_not.1 hcurrent, ?_⟩
          change c ∈ (((s.states.set _ _).set _ _).get (s.connects.get i).state).all
          rw [get_set_self]
          exact mem_cons_self
        · refine Placed.setConnect (Placed.setState (hc.setState (by exact id)) fun hmem => ?_) fun hconn => ?_
          · exact mem_cons_of_mem _ hmem
          · exact absurd hconn (hother c hne)
  · rename_i hdial
    refine h.of_keeps rfl fun c hc => hc.setConnect fun hconn => ?_
    rw [hdial] at hconn
    cases hconn

theorem installStep_placed : AllPlaced (s.installStep a) := by
  unfold installStep
  split
  · rename_i g result hphase
    have hhand : ∀ c, (s.acquirers.get a).phase.hand = some c → result = .ok c := by
      intro c hc
      rw [hphase] at hc
      cases result with
      | error err => cases hc
      | ok c' => rw [Option.some.inj hc]
    split
    · rename_i c'
      refine h.of_keeps rfl fun c hc => hc.setPhase fun hc' => ?_
      rw [Except.ok.inj (hhand c hc')]
      rfl
    · refine h.of_keeps rfl fun c hc => hc.setPhase fun hc' => ?_
      cases hhand c hc'
    · rename_i err c' _
      refine h.of_keeps rfl fun c hc => ?_
      refine Placed.handToClosing c' rfl fun hne => ?_
      refine Placed.setPhase (hc.willClose c') fun hc' => ?_
      exact absurd (Except.ok.inj (hhand c hc')).symm hne
    · refine h.of_keeps rfl fun c hc => hc.setPhase fun hc' => ?_
      cases hhand c hc'
  · rename_i g c' hphase
    have hother : ∀ c, c ≠ c' → (s.acquirers.get a).phase.hand ≠ some c := by
      intro c hne hhand
      rw [hphase] at hhand
      exact hne (Option.some.inj hhand).symm
    split_ifs with hcurrent
    · refine h.of_keeps rfl fun c hc => ?_
      refine Placed.handToClosing c' rfl fun hne => ?_
      exact Placed.setPhase (hc.willClose c') fun hhand => absurd hhand (hother c hne)
    · refine h.of_keeps rfl fun c hc => ?_
      by_cases hne : c = c'
      · subst hne
        refine .inl ⟨g, Classical.not_not.1 hcurrent, ?_⟩
        change c ∈ ((s.states.set g _).get g).all
        rw [get_set_self]
        exact mem_cons_self
      · refine Placed.setPhase (hc.setState fun hmem => ?_) fun hhand => ?_
        · exact mem_cons_of_mem _ hmem
        · exact absurd hhand (hother c hne)
  · exact h

theorem releaseStep_placed (reuse : Bool) : AllPlaced (s.releaseStep mode a reuse) := by
  unfold releaseStep
  split
  · rename_i c' created hphase
    dsimp only
    have hreleased : AllPlaced (s.setPhase a (.released c' created)) :=
      h.of_keeps rfl fun c hc => hc.setPhase_of_none (by rw [hphase]; rfl) _
    split
    · exact hreleased.of_keeps rfl fun c hc => hc.willClose c'
    · rename_i g _
      by_cases hmem : c' ∉ ((s.setPhase a (.released c' created)).states.get g).all
      · rw [if_pos hmem]
        exact hreleased.of_keeps rfl fun c hc => hc.willClose c'
      rw [if_neg hmem]
      by_cases hdead : (!reuse || !((s.setPhase a (.released c' created)).conns.get c').alive)
      · rw [if_pos hdead]
        exact hreleased.of_keeps (conns_size_removeConn ..) fun c hc => hc.removeConn mode g c' .errClosed
      rw [if_neg hdead]
      cases mode with
      | single =>
        dsimp only
        split_ifs
        · exact hreleased.of_keeps rfl fun c hc => hc.setState (by exact id)
        · exact hreleased
      | ordered =>
        dsimp only
        split_ifs
        · exact hreleased
        · exact hreleased.of_keeps rfl fun c hc => hc.setState (by exact id)
  · exact h

theorem invalidateStep_placed (c' : ℕ) (cause : Err) : AllPlaced (s.invalidateStep mode c' cause) := by
  unfold invalidateStep
  split
  · exact h.of_keeps rfl fun c hc => hc.willClose c'
  · rename_i g _
    split_ifs
    · exact h.of_keeps (conns_size_removeConn ..) fun c hc => hc.removeConn mode g c' cause
    · exact h

theorem closeIdleStep_placed : AllPlaced (s.closeIdleStep mode) := by
  unfold closeIdleStep
  split
  · rename_i g _
    dsimp only
    split
    · rename_i c' _
      split_ifs
      · exact h
      · exact h.of_keeps (conns_size_removeConn ..) fun c hc => hc.removeConn .single g c' .errClosed
    · exact h
  · exact h

end

theorem Placed.replace (h : Placed s c) {g : ℕ} (hcurrent : s.current = some g) (next : Option ℕ) :
    Placed (s.replace g next) c := by
  refine h.keep
    { tracked := fun g' hg' hmem => ?_
      leaving := fun g' hg' hmem => .inr (.inr (.leaving g' (mem_append_left _ hg') hmem)) }
  obtain rfl : g = g' := Option.some.inj (hcurrent.symm.trans hg')
  exact .inr (.inr (.leaving g (mem_append_right _ (mem_singleton_self g)) hmem))

structure StatesInv (s : St) : Prop where
  current : ∀ g, s.current = some g → g < s.states.size
  leaving : ∀ g ∈ s.leaving, g < s.states.size

theorem Placed.pushState (h : Placed s c) (hs : StatesInv s) (state : State) :
    Placed { s with states := s.states.push state } c := by
  refine h.keep
    { tracked := fun g hg hmem => .inl ⟨g, hg, ?_⟩
      leaving := fun g hg hmem => .inr (.inr (.leaving g hg ?_)) }
  · rw [get_push _ _ (hs.current g hg)]
    exact hmem
  · rw [get_push _ _ (hs.leaving g hg)]
    exact hmem

theorem resetStep_placed (h : AllPlaced s) (hs : StatesInv s) : AllPlaced s.resetStep := by
  unfold resetStep
  split
  · exact h
  · rename_i g hcurrent
    exact h.of_keeps rfl fun c hc => Placed.replace (hc.pushState hs {}) (by exact hcurrent) _

theorem closePoolStep_placed (h : AllPlaced s) : AllPlaced s.closePoolStep := by
  unfold closePoolStep
  split
  · exact h
  · rename_i g hcurrent
    exact h.of_keeps rfl fun c hc => hc.replace hcurrent none

theorem Placed.cancelState (h : Placed s c) (g : ℕ) : Placed (s.cancelState g) c := by
  unfold St.cancelState
  dsimp only
  split
  · exact Placed.cancelConn (h.setState (by exact id)) _ _
  · exact h.setState (by exact id)

theorem cancelState_frame (s : St) (g : ℕ) : (s.cancelState g).conns.size = s.conns.size ∧
    (s.cancelState g).closing = s.closing ∧ (s.cancelState g).leaving = s.leaving ∧
    (s.cancelState g).states = s.states.set g { s.states.get g with cancelled := some .errClosed } := by
  unfold cancelState
  dsimp only
  split
  · exact ⟨rfl, rfl, rfl, rfl⟩
  · exact ⟨rfl, rfl, rfl, rfl⟩

theorem closeStateStep_placed (h : AllPlaced s) (g : ℕ) : AllPlaced (s.closeStateStep g) := by
  unfold closeStateStep
  split_ifs
  swap
  · exact h
  obtain ⟨hsize, hclosing, hkept, hstates⟩ := cancelState_frame s g
  refine h.of_keeps hsize fun c hc => ?_
  refine (hc.cancelState g).keep { closing := fun hmem => ?_, leaving := fun g' hg' hmem => ?_ }
  · rw [hclosing] at hmem
    exact .inr (.inr (.closing (mem_append_left _ hmem)))
  · rw [hkept] at hg'
    by_cases hne : g' = g
    · subst hne
      rw [hstates, get_set_self] at hmem
      exact .inr (.inr (.closing (mem_append_right _ hmem)))
    · exact .inr (.inr (.leaving g' ((mem_erase_of_ne hne).2 hg') hmem))

theorem closeConnStep_placed (h : AllPlaced s) (c' : ℕ) : AllPlaced (s.closeConnStep c') := by
  unfold closeConnStep
  split_ifs
  · refine h.of_keeps rfl fun c hc => ?_
    by_cases hne : c = c'
    · subst hne
      refine .inr (.inl ?_)
      change ((s.conns.set c _).get c).closed
      rw [get_set_self]
    · refine Placed.setConn ?_ fun _ => rfl
      exact hc.keep { closing := fun hmem => .inr (.inr (.closing ((mem_erase_of_ne hne).2 hmem))) }
  · exact h

/-! ## States -/

theorem StatesInv.of_eq {s' : St} (h : StatesInv s) (hcurrent : s'.current = s.current) (hleaving : s'.leaving = s.leaving)
    (hsize : s'.states.size = s.states.size) : StatesInv s' := by
  refine ⟨fun g hg => ?_, fun g hg => ?_⟩
  · rw [hsize]
    exact h.current g (hcurrent ▸ hg)
  · rw [hsize]
    exact h.leaving g (hleaving ▸ hg)

section

variable (h : StatesInv s)
include h

theorem statesInv_removeConn {cause : Err} : StatesInv (s.removeConn mode g c cause) := by
  obtain ⟨hcurrent, -, hleaving, hsize⟩ := removeConn_frame s mode g c cause
  exact h.of_eq hcurrent hleaving hsize

theorem dialResult_states (err : Option Err) : StatesInv (s.dialResult err).1 := by
  cases err with
  | some err => exact h
  | none => exact h.of_eq rfl rfl rfl

theorem cancelState_states : StatesInv (s.cancelState g) := by
  unfold cancelState
  dsimp only
  split <;> exact h.of_eq rfl rfl rfl

theorem enterStep_states : StatesInv (s.enterStep mode a) := by
  unfold enterStep enterShared enterOrdered
  dsimp only
  repeat' split
  all_goals first | exact h.of_eq rfl rfl rfl | exact (statesInv_removeConn h).of_eq rfl rfl rfl

theorem collectStep_states : StatesInv (s.collectStep a) := by
  have hstop : ∀ g, StatesInv (s.stopWaiting g) := fun g => h.of_eq rfl rfl rfl
  unfold collectStep
  dsimp only
  repeat' split
  all_goals first | exact h.of_eq rfl rfl rfl | exact (statesInv_removeConn (hstop _)).of_eq rfl rfl rfl

theorem connectStep_states : StatesInv (s.connectStep i) := by
  unfold connectStep
  dsimp only
  repeat' split
  all_goals exact h.of_eq rfl rfl rfl

theorem installStep_states : StatesInv (s.installStep a) := by
  unfold installStep
  dsimp only
  repeat' split
  all_goals exact h.of_eq rfl rfl rfl

theorem releaseStep_states (reuse : Bool) : StatesInv (s.releaseStep mode a reuse) := by
  have hphase : ∀ phase, StatesInv (s.setPhase a phase) := fun phase => h.of_eq rfl rfl rfl
  unfold releaseStep
  dsimp only
  repeat' split
  all_goals first | exact h.of_eq rfl rfl rfl | exact (statesInv_removeConn (hphase _)).of_eq rfl rfl rfl

theorem closeIdleStep_states : StatesInv (s.closeIdleStep mode) := by
  unfold closeIdleStep
  dsimp only
  repeat' split
  all_goals first | exact h | exact (statesInv_removeConn h).of_eq rfl rfl rfl

theorem replace_states (hg : s.current = some g) {next : Option ℕ}
    (hnext : ∀ g', next = some g' → g' < s.states.size) : StatesInv (s.replace g next) := by
  refine ⟨hnext, fun g' hg' => ?_⟩
  rcases mem_append.1 hg' with hold | hnew
  · exact h.leaving g' hold
  · rw [mem_singleton.1 hnew]
    exact h.current g hg

theorem resetStep_states : StatesInv s.resetStep := by
  unfold resetStep
  split
  case h_1 => exact h
  case h_2 g hcurrent =>
    have hpush : StatesInv { s with states := s.states.push {} } :=
      ⟨fun g hg => Nat.lt_succ_of_lt (h.current g hg), fun g hg => Nat.lt_succ_of_lt (h.leaving g hg)⟩
    refine replace_states hpush hcurrent fun g' hg' => ?_
    cases hg'
    exact Nat.lt_succ_self _

theorem step_states (op : Op) : StatesInv (step mode s op) := by
  cases op with
  | acquire => exact h.of_eq rfl rfl rfl
  | enter a => exact guarded h fun _ => enterStep_states h
  | collect a => exact guarded h fun _ => collectStep_states h
  | abandon a =>
    refine guarded h fun _ => ?_
    unfold abandonStep
    repeat' split
    all_goals exact h.of_eq rfl rfl rfl
  | leave a =>
    refine guarded h fun _ => ?_
    unfold leaveStep
    repeat' split
    all_goals exact h.of_eq rfl rfl rfl
  | dialed i err =>
    refine guarded h fun _ => ?_
    unfold dialedStep
    dsimp only
    split
    · exact (dialResult_states h err).of_eq rfl rfl rfl
    · exact h
  | connect i => exact guarded h fun _ => connectStep_states h
  | dialedOrdered a err =>
    refine guarded h fun _ => ?_
    unfold dialedOrderedStep
    split
    · exact (dialResult_states h err).of_eq rfl rfl rfl
    · exact h
  | install a => exact guarded h fun _ => installStep_states h
  | release a reuse => exact guarded h fun _ => releaseStep_states h reuse
  | invalidate c cause =>
    refine guarded h fun _ => ?_
    unfold invalidateStep
    repeat' split
    all_goals first | exact h.of_eq rfl rfl rfl | exact (statesInv_removeConn h).of_eq rfl rfl rfl
  | closeIdle => exact closeIdleStep_states h
  | reset => exact resetStep_states h
  | closePool =>
    simp only [step]
    unfold closePoolStep
    split
    case h_1 => exact h
    case h_2 hcurrent => exact replace_states h hcurrent (by rintro _ ⟨⟩)
  | closeState g =>
    simp only [step]
    unfold closeStateStep
    split
    · exact ⟨(cancelState_states h).current, fun g' hg' =>
        (cancelState_states (g := g) h).leaving g' (by rw [(cancelState_frame s g).2.2.1]; exact mem_of_mem_erase hg')⟩
    · exact h
  | closeConn c =>
    simp only [step]
    unfold closeConnStep
    split <;> exact h.of_eq rfl rfl rfl
  | cancel a | die c => exact guarded h fun _ => h.of_eq rfl rfl rfl

end

/-! ## Runs -/

theorem Placed.setAcquirers (h : Placed s c) {acquirers : Table Acquirer} (hsize : s.acquirers.size ≤ acquirers.size)
    (hphase : ∀ a < s.acquirers.size, (acquirers.get a).phase = (s.acquirers.get a).phase) :
    Placed { s with acquirers } c := by
  refine h.keep { acquirer := fun a ha hhand => .inr (.inr (.acquirer a (ha.trans_le hsize) ?_)) }
  rw [hphase a ha]
  exact hhand

theorem step_placed (h : AllPlaced s) (hs : StatesInv s) (op : Op) : AllPlaced (step mode s op) := by
  cases op with
  | acquire =>
    exact h.of_keeps rfl fun c hc => hc.setAcquirers (Nat.le_succ _) fun a ha => by rw [get_push _ _ ha]
  | enter a => exact guarded h fun _ => enterStep_placed h
  | collect a => exact guarded h fun _ => collectStep_placed h
  | abandon a => exact guarded h fun _ => abandonStep_placed h
  | leave a => exact guarded h fun _ => leaveStep_placed h
  | dialed i err => exact guarded h fun hi => dialedStep_placed h hi err
  | connect i => exact guarded h fun _ => connectStep_placed h
  | dialedOrdered a err => exact guarded h fun ha => dialedOrderedStep_placed h ha err
  | install a => exact guarded h fun _ => installStep_placed h
  | release a reuse => exact guarded h fun _ => releaseStep_placed h reuse
  | invalidate c cause => exact guarded h fun _ => invalidateStep_placed h c cause
  | closeIdle => exact closeIdleStep_placed h
  | reset => exact resetStep_placed h hs
  | closePool => exact closePoolStep_placed h
  | closeState g => exact closeStateStep_placed h g
  | closeConn c => exact closeConnStep_placed h c
  | cancel a =>
    refine guarded h fun _ => h.of_keeps rfl fun c hc => hc.setAcquirers le_rfl fun a' _ => ?_
    exact apply_get_set _ Acquirer.phase (by exact rfl) a'
  | die c => exact guarded h fun _ => h.of_keeps rfl fun c' hc => hc.setConn fun heq => by rw [heq]

theorem states_init : StatesInv {} := by
  refine ⟨fun g hg => ?_, nofun⟩
  cases hg
  exact Nat.one_pos

theorem run_induction {P : St → Prop} (hinit : P {}) (hstep : ∀ s, StatesInv s → P s → ∀ op, P (step mode s op))
    (ops : List Op) : P (run mode ops) := by
  have hrun : StatesInv (run mode ops) ∧ P (run mode ops) := by
    refine List.foldlRecOn ops (step mode) (motive := fun s => StatesInv s ∧ P s) ⟨states_init, hinit⟩ ?_
    intro s ⟨hs, h⟩ op _
    exact ⟨step_states hs op, hstep s hs h op⟩
  exact hrun.2

theorem run_placed (ops : List Op) : AllPlaced (run mode ops) :=
  run_induction nofun (fun _ hs h op => step_placed h hs op) ops

theorem accounts_init : Accounts {} := by
  have hget : ∀ g < (empty.push ({} : State)).size, (empty.push ({} : State)).get g = {} := by
    intro g hg
    exact get_push_cases _ (P := fun (k : State) => k = {}) hg (fun _ => rfl) nofun
  have hsharers : ∀ c, sharers {} c = 0 := fun c => total_eq_zero _ _ fun g hg => by rw [hget g hg]; rfl
  have hshared : ∀ g < (empty.push ({} : State)).size, ∀ c, ((empty.push ({} : State)).get g).shared ≠ some c :=
    fun g hg c => by rw [hget g hg]; exact nofun
  refine ⟨states_init.current, nofun, nofun, nofun, ?_, ?_, nofun, ?_, ?_, ?_, ?_, ?_, ?_, nofun⟩
  · intro c
    rw [hsharers]
    exact Nat.zero_le 1
  · intro c _
    exact ⟨rfl, hsharers c, rfl⟩
  · intro g hg c hc
    exact absurd hc (hshared g hg c)
  · intro g hg _
    rw [hget g hg]
    exact ⟨rfl, rfl⟩
  · intro c
    exact Nat.zero_le 1
  · intro g hg c hc
    exact absurd hc (hshared g (states_init.current g hg) c)
  · intro g hg c hc
    exact absurd hc (hshared g (states_init.current g hg) c)
  · intro g hg
    change ((empty.push ({} : State)).get g).sharedWaiters = 0
    rw [hget g hg]

theorem run_accounts (ops : List Op) : Accounts (run .single ops) :=
  run_induction accounts_init (fun _ hs h op => step_accounts h hs.leaving op) ops

/-! ## Safety -/

structure Settled (s : St) : Prop where
  closing : s.closing = []
  leaving : s.leaving = []
  connects : ∀ i < s.connects.size, (s.connects.get i).dial.conn = none
  acquirers : ∀ a < s.acquirers.size, (s.acquirers.get a).phase.hand = none

theorem Placed.settled (h : Placed s c) (hs : Settled s) : Tracked s c ∨ (s.conns.get c).closed := by
  rcases h with htracked | hclosed | hin
  · exact .inl htracked
  · exact .inr hclosed
  · exfalso
    cases hin with
    | closing hmem =>
      rw [hs.closing] at hmem
      cases hmem
    | leaving g hleaving _ =>
      rw [hs.leaving] at hleaving
      cases hleaving
    | connect i hi hconn =>
      rw [hs.connects i hi] at hconn
      cases hconn
    | acquirer a ha hhand =>
      rw [hs.acquirers a ha] at hhand
      cases hhand

def Acquirer.Created (k : Acquirer) (c : ℕ) : Prop := k.phase = .holding c true ∨ k.phase = .released c true

def Acquirer.Holds (k : Acquirer) (c : ℕ) : Prop := ∃ created, k.phase = .holding c created

theorem Acquirer.Created.creates {k : Acquirer} (h : k.Created c) : k.phase.creates c = 1 := by
  rcases h with h | h <;> rw [h, Phase.creates, if_pos rfl]

theorem Accounts.created_unique (h : Accounts s) {a₁ a₂ : ℕ} (h₁ : a₁ < s.acquirers.size) (h₂ : a₂ < s.acquirers.size)
    (hc₁ : (s.acquirers.get a₁).Created c) (hc₂ : (s.acquirers.get a₂).Created c) : a₁ = a₂ := by
  by_contra hne
  have hle := add_le_total s.acquirers (fun k => k.phase.creates c) h₁ h₂ hne
  rw [hc₁.creates, hc₂.creates] at hle
  exact absurd (hle.trans (h.creators c)) (by decide)

theorem closeIdle_closing (h : mode = .single → Accounts s) : (step mode s .closeIdle).closing = s.closing ∨
    ∃ c, (step mode s .closeIdle).closing = s.closing ++ [c] ∧ ∀ a < s.acquirers.size, ¬ (s.acquirers.get a).Holds c := by
  simp only [step]
  unfold closeIdleStep
  split
  case h_1 g hcurrent =>
    dsimp only
    split
    case h_1 c hshared =>
      split
      case isTrue => exact .inl rfl
      case isFalse hbusy =>
        refine .inr ⟨c, ?_, ?_⟩
        · rw [removeConn]
          rw [if_pos hshared]
          rfl
        · rintro a ha ⟨created, hphase⟩
          refine hbusy (.inl ?_)
          rw [(h rfl).users g hcurrent c hshared]
          exact holders_pos ha hphase
    case h_2 => exact .inl rfl
  case h_2 => exact .inl rfl

structure Safe (mode : Mode) (s : St) : Prop where
  /-- a connection that a dial has returned is tracked, closed, or in the hand of an operation that is running -/
  placed : ∀ c < s.conns.size, Tracked s c ∨ (s.conns.get c).closed = true ∨ InHand s c
  /-- when no such operation is running, it is tracked or closed -/
  settled : Settled s → ∀ c < s.conns.size, Tracked s c ∨ (s.conns.get c).closed = true
  /-- and when the pool is closed it is closed -/
  closed : s.current = none → Settled s → ∀ c < s.conns.size, (s.conns.get c).closed = true
  created : mode = .single → ∀ c, ∀ a₁ < s.acquirers.size, ∀ a₂ < s.acquirers.size,
    (s.acquirers.get a₁).Created c → (s.acquirers.get a₂).Created c → a₁ = a₂
  /-- what `CloseIdle` closes nobody holds -/
  closeIdle : (step mode s .closeIdle).closing = s.closing ∨
    ∃ c, (step mode s .closeIdle).closing = s.closing ++ [c] ∧ ∀ a < s.acquirers.size, ¬ (s.acquirers.get a).Holds c

/-- **The pool neither loses a connection nor closes one in use.** In every run, in both modes. -/
theorem run_safe (mode : Mode) (ops : List Op) : Safe mode (run mode ops) := by
  have hplaced : AllPlaced (run mode ops) := run_placed ops
  have haccounts : mode = .single → Accounts (run mode ops) := by
    intro hmode
    subst hmode
    exact run_accounts ops
  refine ⟨hplaced, ?_, ?_, ?_, closeIdle_closing haccounts⟩
  · intro hsettled c hc
    exact (hplaced c hc).settled hsettled
  · intro hcurrent hsettled c hc
    rcases (hplaced c hc).settled hsettled with ⟨g, hg, -⟩ | hclosed
    · rw [hcurrent] at hg
      cases hg
    · exact hclosed
  · intro hmode c a₁ h₁ a₂ h₂ hc₁ hc₂
    exact (haccounts hmode).created_unique h₁ h₂ hc₁ hc₂

/-- the dial of the first acquirer has returned, and the goroutine that dialed has not come to the lock -/
theorem dialed_untracked : let s := run .single [.acquire, .enter 0, .dialed 0 none]
    0 < s.conns.size ∧ ¬ Tracked s 0 ∧ (s.conns.get 0).closed = false := by
  refine ⟨by decide, ?_, by decide⟩
  rintro ⟨g, hg, hmem⟩
  cases hg
  revert hmem
  decide

end EtonifyCore.ConnPool
