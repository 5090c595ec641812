/-
The books of the connection pool in single mode: `sharedUsers`, `sharedWaiters` and `sharedClaimed` are sums over the
acquirers of what they hold (`Table.total`), and a step moves the same amount on both sides.
-/
import EtonifyCore.Transport.ConnPool

namespace EtonifyCore.ConnPool

open Core (Table)
open Core.Table Phase St

/-! ## Books -/

def Dial.conn : Dial → Option ℕ
  | .dialed (.ok c) | .locking (.ok c) => some c
  | _ => none

def Dial.live : Dial → Bool
  | .dialing | .dialed _ | .locking _ => true
  | .finishing | .finished => false

namespace Phase

variable (c g : ℕ)

def holds : Phase → ℕ
  | .holding c' _ => if c' = c then 1 else 0
  | _ => 0

def creates : Phase → ℕ
  | .holding c' true | .released c' true => if c' = c then 1 else 0
  | _ => 0

def touches : Phase → ℕ
  | .holding c' _ | .released c' _ => if c' = c then 1 else 0
  | _ => 0

def waitsFor : Phase → ℕ
  | .waiting g' _ _ => if g' = g then 1 else 0
  | _ => 0

/-- neither waits nor has had a connection, and is not in ordered mode -/
def plain : Phase → Bool
  | .entering | .failed _ => true
  | _ => false

def isDialing : Phase → Bool
  | .dialing .. => true
  | _ => false

variable {phase : Phase}

theorem eq_zero_of_plain (h : phase.plain) :
    (∀ c, phase.holds c = 0) ∧ (∀ c, phase.creates c = 0) ∧ (∀ c, phase.touches c = 0) ∧ (∀ g, phase.waitsFor g = 0) ∧
      phase.isDialing = false ∧ ∀ g i startDial, phase ≠ .waiting g i startDial := by
  cases phase with
  | entering | failed => exact ⟨fun _ => rfl, fun _ => rfl, fun _ => rfl, fun _ => rfl, rfl, nofun⟩
  | waiting | dialing | holding | released => cases h

end Phase

namespace St

variable (s : St) (c g : ℕ)

def holders : ℕ := s.acquirers.total fun k => k.phase.holds c
def creators : ℕ := s.acquirers.total fun k => k.phase.creates c
def takers : ℕ := s.acquirers.total fun k => k.phase.touches c
def waiters : ℕ := s.acquirers.total fun k => k.phase.waitsFor g

/-- how often the connection is in the hand of a dial, and how often it is shared -/
def dialers : ℕ := s.connects.total fun connect => if connect.dial.conn = some c then 1 else 0
def sharers : ℕ := s.states.total fun state => if state.shared = some c then 1 else 0

end St

structure Accounts (s : St) : Prop where
  current : ∀ g, s.current = some g → g < s.states.size
  connect : ∀ i < s.connects.size, (s.connects.get i).state < s.states.size
  waiting : ∀ a < s.acquirers.size, ∀ g i startDial, (s.acquirers.get a).phase = .waiting g i startDial → g < s.states.size
  single : ∀ a < s.acquirers.size, (s.acquirers.get a).phase.isDialing = false
  /-- a connection is dialed or shared once -/
  place : ∀ c, s.dialers c + s.sharers c ≤ 1
  fresh : ∀ c, s.conns.size ≤ c → s.dialers c = 0 ∧ s.sharers c = 0 ∧ s.takers c = 0
  dialed : ∀ c, 0 < s.dialers c → s.takers c = 0
  tracked : ∀ g < s.states.size, ∀ c, (s.states.get g).shared = some c → c ∈ (s.states.get g).all
  unshared : ∀ g < s.states.size, (s.states.get g).shared = none →
    (s.states.get g).sharedUsers = 0 ∧ (s.states.get g).sharedClaimed = false
  creators : ∀ c, s.creators c ≤ 1
  users : ∀ g, s.current = some g → ∀ c, (s.states.get g).shared = some c → (s.states.get g).sharedUsers = s.holders c
  claimed : ∀ g, s.current = some g → ∀ c, (s.states.get g).shared = some c →
    s.creators c = (s.states.get g).sharedClaimed.toNat
  waiters : ∀ g < s.states.size, (s.states.get g).sharedWaiters = s.waiters g
  /-- while a state dials it shares nothing, and it dials once -/
  dialing : ∀ i < s.connects.size, (s.connects.get i).dial.live = true →
    (s.states.get (s.connects.get i).state).connecting = some i ∧ (s.states.get (s.connects.get i).state).shared = none

variable {s s' : St} {a c g i : ℕ}

theorem Accounts.of_eq (h : Accounts s) (hcurrent : s'.current = s.current) (hstates : s'.states = s.states)
    (hconnects : s'.connects = s.connects) (hacquirers : s'.acquirers = s.acquirers)
    (hsize : s'.conns.size = s.conns.size) : Accounts s' := by
  have hd : ∀ c, s'.dialers c = s.dialers c := fun c => by rw [dialers, dialers, hconnects]
  have hs : ∀ c, s'.sharers c = s.sharers c := fun c => by rw [sharers, sharers, hstates]
  have hh : ∀ c, s'.holders c = s.holders c := fun c => by rw [holders, holders, hacquirers]
  have hr : ∀ c, s'.creators c = s.creators c := fun c => by rw [St.creators, St.creators, hacquirers]
  have ht : ∀ c, s'.takers c = s.takers c := fun c => by rw [takers, takers, hacquirers]
  have hw : ∀ g, s'.waiters g = s.waiters g := fun g => by rw [St.waiters, St.waiters, hacquirers]
  obtain ⟨h1, h2, h3, h4, h5, h6, h7, h8, h9, h10, h11, h12, h13, h14⟩ := h
  constructor <;>
    simp only [hd, hs, hh, hr, ht, hw, hcurrent, hstates, hconnects, hacquirers, hsize] <;> assumption

/-! ## Sums -/

theorem total_setPhase (ha : a < s.acquirers.size) (f : Phase → ℕ) (phase : Phase) :
    (s.setPhase a phase).acquirers.total (fun k => f k.phase) + f (s.acquirers.get a).phase =
      s.acquirers.total (fun k => f k.phase) + f phase :=
  total_set s.acquirers (fun k => f k.phase) { s.acquirers.get a with phase } ha

theorem sharers_setState (hg : g < s.states.size) (state : State) (c : ℕ) :
    (s.setState g state).sharers c + (if (s.states.get g).shared = some c then 1 else 0) =
      s.sharers c + (if state.shared = some c then 1 else 0) :=
  total_set s.states (fun state => if state.shared = some c then 1 else 0) state hg

theorem dialers_setConnect (hi : i < s.connects.size) (connect : Connect) (c : ℕ) :
    (s.setConnect i connect).dialers c + (if (s.connects.get i).dial.conn = some c then 1 else 0) =
      s.dialers c + (if connect.dial.conn = some c then 1 else 0) :=
  total_set s.connects (fun connect => if connect.dial.conn = some c then 1 else 0) connect hi

theorem holders_pos {created : Bool} (ha : a < s.acquirers.size) (hphase : (s.acquirers.get a).phase = .holding c created) :
    0 < s.holders c := by
  have hle := le_total s.acquirers (fun k => k.phase.holds c) ha
  rw [hphase, holds, if_pos rfl] at hle
  exact hle

/-! ## Acquirers -/

/-- an acquirer goes on and the state that it looks at counts it: what it counts for in its new phase comes in, what it
counted for goes out -/
theorem Accounts.move (h : Accounts s) (ha : a < s.acquirers.size) {old : Phase} (hold : (s.acquirers.get a).phase = old)
    (phase : Phase) {state : State}
    (hshared : state.shared = (s.states.get g).shared) (hall : state.all = (s.states.get g).all)
    (hconnecting : state.connecting = (s.states.get g).connecting) (hsingle : phase.isDialing = false)
    (hwaiting : ∀ g' i startDial, phase = .waiting g' i startDial → g' < s.states.size)
    (hnone : g < s.states.size → state.shared = none → state.sharedUsers = 0 ∧ state.sharedClaimed = false)
    (htouches : ∀ c, phase.touches c = old.touches c ∨ g < s.states.size ∧ state.shared = some c)
    (hcreates : ∀ c, phase.creates c = old.creates c ∨ s.creators c = 0 ∧ phase.creates c ≤ 1)
    (husers : ∀ g', s.current = some g' → ∀ c, (s.states.get g').shared = some c →
      ((s.states.set g state).get g').sharedUsers + old.holds c = (s.states.get g').sharedUsers + phase.holds c)
    (hclaimed : ∀ g', s.current = some g' → ∀ c, (s.states.get g').shared = some c →
      ((s.states.set g state).get g').sharedClaimed.toNat + old.creates c =
        (s.states.get g').sharedClaimed.toNat + phase.creates c)
    (hwaiters : ∀ g', ((s.states.set g state).get g').sharedWaiters + old.waitsFor g' =
      (s.states.get g').sharedWaiters + phase.waitsFor g') : Accounts ((s.setState g state).setPhase a phase) := by
  subst hold
  have htotal := total_setPhase (s := s) ha
  have hkept := apply_get_set s.states State.shared hshared
  have hsharers : ∀ c, ((s.setState g state).setPhase a phase).sharers c = s.sharers c := fun c =>
    total_set_of_eq s.states _ (by rw [hshared])
  have htakers : ∀ c, ((s.setState g state).setPhase a phase).takers c = s.takers c ∨
      g < s.states.size ∧ state.shared = some c := by
    intro c
    have := htotal (Phase.touches c) phase
    rcases htouches c with heq | hnew
    · rw [heq] at this
      exact .inl (Nat.add_right_cancel this)
    · exact .inr hnew
  have hpos : ∀ c, g < s.states.size → state.shared = some c → 0 < s.sharers c := by
    intro c hg hc
    have hle := le_total s.states (fun state => if state.shared = some c then 1 else 0) hg
    rw [if_pos (hshared ▸ hc)] at hle
    exact hle
  refine ⟨h.current, h.connect, ?_, ?_, ?_, ?_, ?_, ?_, ?_, ?_, ?_, ?_, ?_, ?_⟩
  · intro a' ha' g' i startDial
    exact get_set_cases _ (P := fun (k : Acquirer) => k.phase = .waiting g' i startDial → g' < s.states.size)
      (fun _ => hwaiting g' i startDial) (fun _ => h.waiting a' ha' g' i startDial)
  · intro a' ha'
    exact get_set_cases _ (P := fun (k : Acquirer) => k.phase.isDialing = false) (fun _ => hsingle) (fun _ => h.single a' ha')
  · intro c
    rw [hsharers]
    exact h.place c
  · intro c hc
    obtain ⟨hd, hs, ht⟩ := h.fresh c hc
    rw [hsharers]
    refine ⟨hd, hs, ?_⟩
    rcases htakers c with heq | ⟨hg, hnew⟩
    · rw [heq, ht]
    · have := hpos c hg hnew
      omega
  · intro c hc
    rcases htakers c with heq | ⟨hg, hnew⟩
    · rw [heq]
      exact h.dialed c hc
    · have := hpos c hg hnew
      have hplace := h.place c
      change 0 < s.dialers c at hc
      omega
  · intro g' hg' c hc
    change c ∈ ((s.states.set g state).get g').all
    rw [apply_get_set s.states State.all hall]
    exact h.tracked g' hg' c ((hkept g').symm.trans hc)
  · intro g' hg'
    exact get_set_cases _ (P := fun (k : State) => k.shared = none → k.sharedUsers = 0 ∧ k.sharedClaimed = false)
      (fun heq => hnone (heq ▸ hg')) (fun _ => h.unshared g' hg')
  · intro c
    have := htotal (Phase.creates c) phase
    have hle := h.creators c
    simp only [St.creators] at hle ⊢
    rcases hcreates c with heq | ⟨hzero, hone⟩
    · rw [heq] at this
      exact (Nat.add_right_cancel this).trans_le hle
    · rw [St.creators] at hzero
      change (s.setPhase a phase).acquirers.total _ ≤ 1
      omega
  · intro g' hg' c hc
    have hc' := (hkept g').symm.trans hc
    have htotal' := htotal (Phase.holds c) phase
    have hadd := husers g' hg' c hc'
    have hold := h.users g' hg' c hc'
    change ((s.states.set g state).get g').sharedUsers = (s.setPhase a phase).acquirers.total _
    rw [St.holders] at hold
    omega
  · intro g' hg' c hc
    have hc' := (hkept g').symm.trans hc
    have htotal' := htotal (Phase.creates c) phase
    have hadd := hclaimed g' hg' c hc'
    have hold := h.claimed g' hg' c hc'
    change (s.setPhase a phase).acquirers.total _ = ((s.states.set g state).get g').sharedClaimed.toNat
    rw [St.creators] at hold
    omega
  · intro g' hg'
    have htotal' := htotal (Phase.waitsFor g') phase
    have hadd := hwaiters g'
    have hold := h.waiters g' hg'
    change ((s.states.set g state).get g').sharedWaiters = (s.setPhase a phase).acquirers.total _
    rw [St.waiters] at hold
    omega
  · intro i hi hlive
    change ((s.states.set g state).get _).connecting = _ ∧ ((s.states.set g state).get _).shared = _
    rw [hkept, apply_get_set s.states State.connecting hconnecting]
    exact h.dialing i hi hlive

theorem setState_self : s.setState g (s.states.get g) = s := by
  rw [setState, Table.set, Function.update_eq_self]

theorem Accounts.setPhase (h : Accounts s) (ha : a < s.acquirers.size) {old : Phase}
    (hold : (s.acquirers.get a).phase = old) (hsingle : phase.isDialing = false)
    (htouches : ∀ c, phase.touches c = old.touches c) (hcreates : ∀ c, phase.creates c = old.creates c)
    (hholds : ∀ g, s.current = some g → ∀ c, (s.states.get g).shared = some c → phase.holds c = old.holds c)
    (hwaits : ∀ g, phase.waitsFor g = old.waitsFor g)
    (hwaiting : ∀ g' i startDial, phase ≠ .waiting g' i startDial) : Accounts (s.setPhase a phase) := by
  have hself : ∀ g', (s.states.set 0 (s.states.get 0)).get g' = s.states.get g' := fun g' => by
    rw [Table.set, Function.update_eq_self]
  have hmove : Accounts ((s.setState 0 (s.states.get 0)).setPhase a phase) := h.move ha hold phase rfl rfl rfl hsingle
    (fun g' i startDial heq => absurd heq (hwaiting g' i startDial)) (h.unshared 0)
    (fun c => .inl (htouches c)) (fun c => .inl (hcreates c))
    (fun g' hg' c hc => by rw [hself, hholds g' hg' c hc])
    (fun g' _ c _ => by rw [hself, hcreates c]) (fun g' => by rw [hself, hwaits g'])
  rwa [setState_self] at hmove

theorem Accounts.setPhase_plain (h : Accounts s) (ha : a < s.acquirers.size)
    (hold : (s.acquirers.get a).phase.plain) (hplain : phase.plain) : Accounts (s.setPhase a phase) := by
  obtain ⟨h1, h2, h3, h4, h5, -⟩ := eq_zero_of_plain hplain
  obtain ⟨h1', h2', h3', h4', -, -⟩ := eq_zero_of_plain hold
  exact h.setPhase ha rfl h5 (fun c => by rw [h3, h3']) (fun c => by rw [h2, h2']) (fun _ _ c _ => by rw [h1, h1'])
    (fun g => by rw [h4, h4']) (eq_zero_of_plain hplain).2.2.2.2.2

theorem waiters_pos {startDial : Bool} (ha : a < s.acquirers.size)
    (hphase : (s.acquirers.get a).phase = .waiting g i startDial) : 0 < s.waiters g := by
  have hle := le_total s.acquirers (fun k => k.phase.waitsFor g) ha
  rw [hphase, waitsFor, if_pos rfl] at hle
  exact hle

theorem get_setWaiters (n g' : ℕ) :
    let states := s.states.set g { s.states.get g with sharedWaiters := n }
    (states.get g').sharedUsers = (s.states.get g').sharedUsers ∧
      (states.get g').sharedClaimed = (s.states.get g').sharedClaimed :=
  ⟨apply_get_set _ State.sharedUsers (by exact rfl) g', apply_get_set _ State.sharedClaimed (by exact rfl) g'⟩

theorem Accounts.stopWaiting {startDial : Bool} (h : Accounts s) (ha : a < s.acquirers.size)
    (hold : (s.acquirers.get a).phase = .waiting g i startDial) (hplain : phase.plain) :
    Accounts ((s.stopWaiting g).setPhase a phase) := by
  have hg : g < s.states.size := h.waiting a ha g i startDial hold
  have hpos : 0 < (s.states.get g).sharedWaiters := by
    rw [h.waiters g hg]
    exact waiters_pos ha hold
  obtain ⟨h1, h2, h3, h4, h5, h6⟩ := eq_zero_of_plain hplain
  refine h.move ha hold phase rfl rfl rfl h5 (fun g' i startDial heq => absurd heq (h6 g' i startDial)) (h.unshared g)
    (fun c => .inl (h3 c)) (fun c => .inl (h2 c)) ?_ ?_ ?_
  · intro g' _ c _
    rw [(get_setWaiters _ g').1, h1]
    rfl
  · intro g' _ c _
    rw [(get_setWaiters _ g').2, h2]
    rfl
  · intro g'
    rw [h4, waitsFor]
    refine get_set_cases _ (P := fun (k : State) => k.sharedWaiters + _ = _) (fun heq => ?_) (fun hne => ?_)
    · subst heq
      rw [if_pos rfl]
      exact Nat.sub_add_cancel hpos
    · rw [if_neg (Ne.symm hne)]

theorem Accounts.wait (h : Accounts s) (ha : a < s.acquirers.size) (hg : g < s.states.size) (i : ℕ) (startDial : Bool)
    (hold : (s.acquirers.get a).phase = .entering) :
    Accounts ((s.setState g { s.states.get g with sharedWaiters := (s.states.get g).sharedWaiters + 1 }).setPhase a
      (.waiting g i startDial)) := by
  refine h.move ha hold _ rfl rfl rfl rfl ?_ (h.unshared g) (fun _ => .inl rfl) (fun _ => .inl rfl) ?_ ?_ ?_
  · intro g' i' startDial' heq
    cases heq
    exact hg
  · intro g' _ c _
    rw [(get_setWaiters _ g').1]
    rfl
  · intro g' _ c _
    rw [(get_setWaiters _ g').2]
    rfl
  · intro g'
    rw [waitsFor.eq_1]
    refine get_set_cases _ (P := fun (k : State) => k.sharedWaiters + _ = _) (fun heq => ?_) (fun hne => ?_)
    · subst heq
      rw [if_pos rfl]
      rfl
    · rw [if_neg (Ne.symm hne)]
      rfl

theorem Accounts.take (h : Accounts s) (ha : a < s.acquirers.size) (hcurrent : s.current = some g)
    (hshared : (s.states.get g).shared = some c) (hold : (s.acquirers.get a).phase = .entering) :
    Accounts (s.take a g c) := by
  have hg : g < s.states.size := h.current g hcurrent
  have hclaimed := h.claimed g hcurrent c hshared
  refine h.move ha hold (.holding c !(s.states.get g).sharedClaimed) rfl rfl rfl rfl nofun ?_ ?_ ?_ ?_ ?_ ?_
  · intro _ hnone
    rw [hshared] at hnone
    cases hnone
  · intro c'
    by_cases hc : c = c'
    · subst hc
      exact .inr ⟨hg, hshared⟩
    · left
      rw [touches, if_neg hc]
      rfl
  · intro c'
    cases hb : (s.states.get g).sharedClaimed with
    | true => exact .inl rfl
    | false =>
      by_cases hc : c = c'
      · subst hc
        rw [hb] at hclaimed
        exact .inr ⟨hclaimed, by simp [creates]⟩
      · left
        rw [Bool.not_false, creates, if_neg hc]
        rfl
  · intro g' hg' c' hc'
    rw [hcurrent] at hg'
    cases hg'
    rw [hshared] at hc'
    cases hc'
    rw [get_set_self, holds, if_pos rfl]
    rfl
  · intro g' hg' c' hc'
    rw [hcurrent] at hg'
    cases hg'
    rw [hshared] at hc'
    cases hc'
    rw [get_set_self]
    cases (s.states.get g).sharedClaimed with
    | true => rfl
    | false =>
      rw [Bool.not_false, creates, if_pos rfl]
      rfl
  · intro g'
    exact get_set_cases _ (P := fun (k : State) => k.sharedWaiters + _ = _) (fun heq => by subst heq; rfl) (fun _ => rfl)

theorem Accounts.giveBack {created : Bool} (h : Accounts s) (ha : a < s.acquirers.size) (hcurrent : s.current = some g)
    (hshared : (s.states.get g).shared = some c) (hold : (s.acquirers.get a).phase = .holding c created) :
    Accounts ((s.setState g { s.states.get g with sharedUsers := (s.states.get g).sharedUsers - 1 }).setPhase a
      (.released c created)) := by
  have hpos : 0 < (s.states.get g).sharedUsers := by
    rw [h.users g hcurrent c hshared]
    exact holders_pos ha hold
  refine h.move ha hold (.released c created) rfl rfl rfl rfl nofun ?_ (fun _ => .inl rfl) ?_ ?_ ?_ ?_
  · intro _ hnone
    rw [hshared] at hnone
    cases hnone
  · intro c'
    left
    cases created <;> rfl
  · intro g' hg' c' hc'
    rw [hcurrent] at hg'
    cases hg'
    rw [hshared] at hc'
    cases hc'
    rw [get_set_self, holds, if_pos rfl]
    exact Nat.sub_add_cancel hpos
  · intro g' hg' c' hc'
    rw [hcurrent] at hg'
    cases hg'
    rw [get_set_self]
    cases created <;> rfl
  · intro g'
    exact get_set_cases _ (P := fun (k : State) => k.sharedWaiters + _ = _) (fun heq => by subst heq; rfl) (fun _ => rfl)

theorem Accounts.letGo {created : Bool} (h : Accounts s) (ha : a < s.acquirers.size)
    (hshared : ∀ g, s.current = some g → (s.states.get g).shared ≠ some c)
    (hold : (s.acquirers.get a).phase = .holding c created) : Accounts (s.setPhase a (.released c created)) := by
  refine h.setPhase ha hold rfl (fun _ => rfl) (fun c' => by cases created <;> rfl) ?_ (fun _ => rfl) nofun
  intro g hg c' hc'
  have hne : c ≠ c' := by
    intro heq
    subst heq
    exact hshared g hg hc'
  rw [holds, if_neg hne]
  rfl

/-! ## States and dials -/

theorem Accounts.putState (h : Accounts s) {state : State}
    (hplace : ∀ c, s.dialers c + (s.setState g state).sharers c ≤ 1)
    (hfresh : ∀ c, s.conns.size ≤ c → (s.setState g state).sharers c = 0)
    (htracked : ∀ c, state.shared = some c → c ∈ state.all)
    (hunshared : state.shared = none → state.sharedUsers = 0 ∧ state.sharedClaimed = false)
    (hcounts : s.current = some g → ∀ c, state.shared = some c →
      state.sharedUsers = s.holders c ∧ s.creators c = state.sharedClaimed.toNat)
    (hwaiters : state.sharedWaiters = (s.states.get g).sharedWaiters)
    (hdialing : ∀ i < s.connects.size, (s.connects.get i).dial.live → (s.connects.get i).state = g →
      state.connecting = some i ∧ state.shared = none) : Accounts (s.setState g state) := by
  refine ⟨h.current, h.connect, h.waiting, h.single, hplace, ?_, h.dialed, ?_, ?_, h.creators, ?_, ?_, ?_, ?_⟩
  · intro c hc
    obtain ⟨hd, -, ht⟩ := h.fresh c hc
    exact ⟨hd, hfresh c hc, ht⟩
  · intro g' hg' c
    exact get_set_cases _ (P := fun (k : State) => k.shared = some c → c ∈ k.all) (fun _ => htracked c)
      (fun _ => h.tracked g' hg' c)
  · intro g' hg'
    exact get_set_cases _ (P := fun (k : State) => k.shared = none → k.sharedUsers = 0 ∧ k.sharedClaimed = false)
      (fun _ => hunshared) (fun _ => h.unshared g' hg')
  · intro g' hg' c
    exact get_set_cases _ (P := fun (k : State) => k.shared = some c → k.sharedUsers = s.holders c)
      (fun heq hc => (hcounts (heq ▸ hg') c hc).1) (fun _ => h.users g' hg' c)
  · intro g' hg' c
    exact get_set_cases _ (P := fun (k : State) => k.shared = some c → s.creators c = k.sharedClaimed.toNat)
      (fun heq hc => (hcounts (heq ▸ hg') c hc).2) (fun _ => h.claimed g' hg' c)
  · intro g' hg'
    exact get_set_cases _ (P := fun (k : State) => k.sharedWaiters = s.waiters g')
      (fun heq => by subst heq; exact hwaiters.trans (h.waiters g' hg')) (fun _ => h.waiters g' hg')
  · intro i hi hlive
    exact get_set_cases _ (P := fun (k : State) => k.connecting = some i ∧ k.shared = none)
      (hdialing i hi hlive) (fun _ => h.dialing i hi hlive)

theorem Accounts.setState (h : Accounts s) (hg : g < s.states.size) {state : State}
    (hshared : state.shared = none ∧ state.sharedUsers = 0 ∧ state.sharedClaimed = false ∨
      state.shared = (s.states.get g).shared ∧ state.sharedUsers = (s.states.get g).sharedUsers ∧
        state.sharedClaimed = (s.states.get g).sharedClaimed ∧ ∀ c, state.shared = some c → c ∈ state.all)
    (hwaiters : state.sharedWaiters = (s.states.get g).sharedWaiters)
    (hconnecting : state.connecting = (s.states.get g).connecting ∨
      ∀ i < s.connects.size, (s.connects.get i).dial.live → (s.connects.get i).state ≠ g) :
    Accounts (s.setState g state) := by
  have hsharers : ∀ c, (s.setState g state).sharers c ≤ s.sharers c := by
    intro c
    have hsum := sharers_setState hg state c
    rcases hshared with ⟨hnone, -⟩ | ⟨hsame, -⟩
    · rw [hnone, if_neg (show ¬ (none : Option ℕ) = some c from nofun)] at hsum
      omega
    · rw [hsame] at hsum
      omega
  refine h.putState (fun c => (Nat.add_le_add_left (hsharers c) _).trans (h.place c))
    (fun c hc => Nat.le_zero.1 ((h.fresh c hc).2.1 ▸ hsharers c)) ?_ ?_ ?_ hwaiters ?_
  · intro c hc
    rcases hshared with ⟨hnone, -⟩ | ⟨-, -, -, hall⟩
    · rw [hnone] at hc
      cases hc
    · exact hall c hc
  · intro hnone
    rcases hshared with ⟨-, husers, hclaimed⟩ | ⟨hsame, husers, hclaimed, -⟩
    · exact ⟨husers, hclaimed⟩
    · rw [husers, hclaimed]
      exact h.unshared g hg (hsame ▸ hnone)
  · intro hcurrent c hc
    rcases hshared with ⟨hnone, -⟩ | ⟨hsame, husers, hclaimed, -⟩
    · rw [hnone] at hc
      cases hc
    · rw [husers, hclaimed]
      exact ⟨h.users g hcurrent c (hsame ▸ hc), h.claimed g hcurrent c (hsame ▸ hc)⟩
  · intro i hi hlive heq
    obtain ⟨hconn, hnone⟩ := h.dialing i hi hlive
    rw [heq] at hconn hnone
    constructor
    · exact (hconnecting.resolve_right fun hno => hno i hi hlive heq).trans hconn
    · rcases hshared with ⟨hgone, -⟩ | ⟨hsame, -⟩
      · exact hgone
      · exact hsame.trans hnone

theorem Accounts.cancelConn (h : Accounts s) (cause : Err) : Accounts (s.cancelConn c cause) :=
  h.of_eq rfl rfl rfl rfl rfl

theorem Accounts.removeConn (h : Accounts s) (hg : g < s.states.size) (cause : Err) :
    Accounts (s.removeConn .single g c cause) := by
  unfold St.removeConn
  dsimp only
  split
  · apply Accounts.cancelConn
    exact h.setState hg (.inl ⟨rfl, rfl, rfl⟩) rfl (.inl rfl)
  · rename_i hne
    refine h.setState hg (.inr ⟨rfl, rfl, rfl, fun c' hc' => ?_⟩) rfl (.inl rfl)
    refine List.mem_filter.2 ⟨h.tracked g hg c' hc', decide_eq_true fun heq => ?_⟩
    subst heq
    exact hne hc'

theorem removeConn_frame (s : St) (mode : Mode) (g c : ℕ) (cause : Err) :
    (s.removeConn mode g c cause).current = s.current ∧ (s.removeConn mode g c cause).acquirers = s.acquirers ∧
    (s.removeConn mode g c cause).leaving = s.leaving ∧ (s.removeConn mode g c cause).states.size = s.states.size := by
  unfold removeConn
  cases mode with
  | single =>
    dsimp only
    split <;> exact ⟨rfl, rfl, rfl, rfl⟩
  | ordered => exact ⟨rfl, rfl, rfl, rfl⟩

theorem shared_removeConn {cause : Err} : ((s.removeConn .single g c cause).states.get g).shared ≠ some c := by
  unfold removeConn
  dsimp only
  split
  · change ((s.states.set g _).get g).shared ≠ some c
    rw [get_set_self]
    exact nofun
  · rename_i hne
    change ((s.states.set g _).get g).shared ≠ some c
    rw [get_set_self]
    exact hne

section

variable (h : Accounts s) (hi : i < s.connects.size)
include h hi

theorem Accounts.setConnects {connect : Connect} {conns : Table Conn}
    (hsize : s.conns.size ≤ conns.size) (hstate : connect.state = (s.connects.get i).state)
    (hconn : ∀ c, connect.dial.conn = some c →
      (s.connects.get i).dial.conn = some c ∨ c = s.conns.size ∧ c < conns.size)
    (hlive : connect.dial.live → (s.connects.get i).dial.live) : Accounts ({ s with conns }.setConnect i connect) := by
  obtain ⟨hfd, hfs, hft⟩ := h.fresh s.conns.size le_rfl
  have hdialers : ∀ c, (s.setConnect i connect).dialers c ≤ s.dialers c ∨
      c = s.conns.size ∧ c < conns.size ∧ (s.setConnect i connect).dialers c ≤ 1 := by
    intro c
    have hsum := dialers_setConnect hi connect c
    by_cases hc : connect.dial.conn = some c
    · rw [if_pos hc] at hsum
      rcases hconn c hc with hold | ⟨rfl, hlt⟩
      · rw [if_pos hold] at hsum
        omega
      · omega
    · rw [if_neg hc] at hsum
      omega
  refine { h with connect := ?_, place := ?_, fresh := ?_, dialed := ?_, dialing := ?_ }
  · intro i' hi'
    exact get_set_cases _ (P := fun (k : Connect) => k.state < s.states.size)
      (fun _ => hstate ▸ h.connect i hi) (fun _ => h.connect i' hi')
  · intro c
    have hplace := h.place c
    change (s.setConnect i connect).dialers c + s.sharers c ≤ 1
    rcases hdialers c with hle | ⟨rfl, -, hone⟩ <;> omega
  · intro c hc
    obtain ⟨hd, hs, ht⟩ := h.fresh c (hsize.trans hc)
    rcases hdialers c with hle | ⟨-, hlt, -⟩
    · exact ⟨Nat.le_zero.1 (hd ▸ hle), hs, ht⟩
    · exact absurd hlt (not_lt.2 hc)
  · intro c hc
    rcases hdialers c with hle | ⟨rfl, -, -⟩
    · exact h.dialed c (hc.trans_le hle)
    · exact hft
  · intro i' hi'
    refine get_set_cases _ (P := fun (k : Connect) => k.dial.live →
      (s.states.get k.state).connecting = some i' ∧ (s.states.get k.state).shared = none) (fun heq hl => ?_)
      (fun _ => h.dialing i' hi')
    subst heq
    rw [hstate]
    exact h.dialing i' hi (hlive hl)

theorem Accounts.setConnect {connect : Connect} (hstate : connect.state = (s.connects.get i).state)
    (hconn : connect.dial.conn = none ∨ connect.dial.conn = (s.connects.get i).dial.conn)
    (hlive : connect.dial.live → (s.connects.get i).dial.live) : Accounts (s.setConnect i connect) := by
  refine h.setConnects hi le_rfl hstate (fun c hc => .inl ?_) hlive
  rcases hconn with hnone | hsame
  · rw [hnone] at hc
    cases hc
  · exact hsame ▸ hc

theorem Accounts.pushConn (hlive : (s.connects.get i).dial.live)
    {connect : Connect} (hstate : connect.state = (s.connects.get i).state)
    (hconn : connect.dial.conn = some s.conns.size) {conn : Conn} :
    Accounts ({ s with conns := s.conns.push conn }.setConnect i connect) := by
  refine h.setConnects hi (Nat.le_succ _) hstate (fun c hc => .inr ?_) fun _ => hlive
  obtain rfl := Option.some.inj (hconn.symm.trans hc)
  exact ⟨rfl, Nat.lt_succ_self _⟩

end

theorem holders_le_takers : s.holders c ≤ s.takers c := total_le_total _ fun k => by
    cases k.phase with
    | holding => exact le_rfl
    | _ => exact Nat.zero_le _

theorem creators_le_takers : s.creators c ≤ s.takers c := total_le_total _ fun k => by
    cases k.phase with
    | holding _ created | released _ created => cases created with
      | true => exact le_rfl
      | false => exact Nat.zero_le _
    | _ => exact Nat.zero_le _

section

variable (h : Accounts s) (hg : g < s.states.size) (hnone : (s.states.get g).shared = none)
include h hg hnone

theorem Accounts.share (hno : ∀ i < s.connects.size, (s.connects.get i).dial.live → (s.connects.get i).state ≠ g)
    (hc : c < s.conns.size) (hdialers : s.dialers c = 0) (hsharers : s.sharers c = 0) (htakers : s.takers c = 0) :
    Accounts (s.setState g { s.states.get g with shared := some c, all := c :: (s.states.get g).all }) := by
  obtain ⟨husers, hclaimed⟩ := h.unshared g hg hnone
  have hholders : s.holders c = 0 := Nat.le_zero.1 (htakers ▸ holders_le_takers)
  have hcreators : s.creators c = 0 := Nat.le_zero.1 (htakers ▸ creators_le_takers)
  have hsum := fun c' => sharers_setState hg { s.states.get g with shared := some c, all := c :: (s.states.get g).all } c'
  simp only [hnone, Option.some.injEq, reduceCtorEq, if_false, Nat.add_zero] at hsum
  refine h.putState ?_ ?_ ?_ nofun ?_ rfl fun i hi hlive heq => absurd heq (hno i hi hlive)
  · intro c'
    rw [hsum]
    split_ifs with heq
    · subst heq
      rw [hdialers, hsharers]
    · exact h.place c'
  · intro c' hc'
    rw [hsum, if_neg (Nat.ne_of_lt (hc.trans_le hc'))]
    exact (h.fresh c' hc').2.1
  · intro c' heq
    obtain rfl := Option.some.inj heq
    exact List.mem_cons_self
  · intro _ c' heq
    obtain rfl := Option.some.inj heq
    exact ⟨husers.trans hholders.symm, hcreators.trans (congrArg Bool.toNat hclaimed).symm⟩

theorem Accounts.startDial (hconnecting : (s.states.get g).connecting = none) :
    Accounts { s.setState g { s.states.get g with connecting := some s.connects.size } with
      connects := s.connects.push { state := g, acquirer := a } } := by
  have hno : ∀ i < s.connects.size, (s.connects.get i).dial.live → (s.connects.get i).state ≠ g := by
    intro i hi hlive heq
    have hconn := (h.dialing i hi hlive).1
    rw [heq, hconnecting] at hconn
    cases hconn
  have hset : Accounts (s.setState g { s.states.get g with connecting := some s.connects.size }) :=
    h.setState hg (.inr ⟨rfl, rfl, rfl, h.tracked g hg⟩) rfl (.inr hno)
  generalize hs : s.setState g { s.states.get g with connecting := some s.connects.size } = s₁ at hset
  have hconnects : s.connects = s₁.connects := by rw [← hs]; rfl
  have hstate : (s₁.states.get g).connecting = some s.connects.size ∧ (s₁.states.get g).shared = none := by
    subst hs
    change ((s.states.set g _).get g).connecting = _ ∧ ((s.states.set g _).get g).shared = _
    rw [get_set_self]
    exact ⟨rfl, hnone⟩
  have hg' : g < s₁.states.size := by rw [← hs]; exact hg
  rw [hconnects] at hstate ⊢
  have hdialers : ∀ c, { s₁ with connects := s₁.connects.push { state := g, acquirer := a } }.dialers c = s₁.dialers c :=
    fun c => total_push _ _ _
  refine { hset with connect := ?_, place := ?_, fresh := ?_, dialed := ?_, dialing := ?_ }
  · intro i hi
    exact get_push_cases _ (P := fun (k : Connect) => k.state < s₁.states.size) hi (fun _ => hg') (hset.connect i)
  · intro c
    rw [hdialers]
    exact hset.place c
  · intro c
    rw [hdialers]
    exact hset.fresh c
  · intro c
    rw [hdialers]
    exact hset.dialed c
  · intro i hi
    refine get_push_cases _ (P := fun (k : Connect) => k.dial.live →
      (s₁.states.get k.state).connecting = some i ∧ (s₁.states.get k.state).shared = none) hi (fun heq _ => ?_)
      (hset.dialing i)
    rw [heq]
    exact hstate

end

/-! ## Steps -/

theorem enterShared_accounts (h : Accounts s) (ha : a < s.acquirers.size) (hcurrent : s.current = some g)
    (hphase : (s.acquirers.get a).phase = .entering) : Accounts (s.enterShared a g) := by
  have hg := h.current g hcurrent
  unfold enterShared
  dsimp only
  split
  case h_1 c hshared =>
    split
    · exact h.take ha hcurrent hshared hphase
    · exact (h.removeConn hg .errClosed).of_eq rfl rfl rfl rfl rfl
  case h_2 hnone =>
    split
    case h_1 i _ => exact h.wait ha hg i false hphase
    case h_2 hconnecting =>
      have hdial := h.startDial (a := a) hg hnone hconnecting
      have hwait := hdial.wait (a := a) (g := g) ha hg s.connects.size true hphase
      simpa only [setState, setPhase, get_set_self, set_set] using hwait

theorem enterStep_accounts (h : Accounts s) (ha : a < s.acquirers.size) : Accounts (s.enterStep .single a) := by
  unfold enterStep
  split
  case h_1 hphase =>
    split
    case h_1 => exact h.setPhase_plain ha (by rw [hphase]; rfl) rfl
    case h_2 g hcurrent => exact enterShared_accounts h ha hcurrent hphase
  case h_2 => exact h

theorem take_setPhase : (s.setPhase a phase).take a g c = s.take a g c := by
  simp [take, setPhase, setState]

theorem removeConn_setPhase {mode : Mode} {cause : Err} :
    (s.setPhase a phase).removeConn mode g c cause = (s.removeConn mode g c cause).setPhase a phase := by
  unfold removeConn
  cases mode with
  | single =>
    dsimp only
    by_cases hshared : (s.states.get g).shared = some c
    · rw [if_pos hshared, if_pos (show ((s.setPhase a phase).states.get g).shared = some c from hshared)]
      rfl
    · rw [if_neg hshared, if_neg (show ¬ ((s.setPhase a phase).states.get g).shared = some c from hshared)]
      rfl
  | ordered => rfl

section

variable (h : Accounts s)
include h

theorem collectStep_accounts (ha : a < s.acquirers.size) : Accounts (s.collectStep a) := by
  unfold collectStep
  split
  case h_1 g i startDial hphase =>
    dsimp only
    split
    · exact h
    split
    · split <;> exact h.stopWaiting ha hphase rfl
    split
    · exact h.stopWaiting ha hphase rfl
    case isFalse hcurrent =>
      have hentering : Accounts ((s.stopWaiting g).setPhase a .entering) := h.stopWaiting ha hphase rfl
      have hget : ((s.stopWaiting g).setPhase a .entering).acquirers.get a =
        { s.acquirers.get a with phase := .entering } := get_set_self _ _ _
      split
      · exact hentering
      case h_2 c hshared =>
        split
        · rw [← take_setPhase]
          exact hentering.take ha (not_not.1 hcurrent) hshared (by rw [hget])
        · have hg : g < s.states.size := h.waiting a ha g i startDial hphase
          have hremove := hentering.removeConn (g := g) (c := c) hg .errClosed
          rw [removeConn_setPhase] at hremove
          exact hremove.of_eq rfl rfl rfl rfl rfl
  case h_2 => exact h

theorem abandonStep_accounts (ha : a < s.acquirers.size) : Accounts (s.abandonStep a) := by
  unfold abandonStep
  split
  case h_1 hphase =>
    split
    · exact h.stopWaiting ha hphase rfl
    · exact h
  case h_2 => exact h

theorem leaveStep_accounts (ha : a < s.acquirers.size) : Accounts (s.leaveStep a) := by
  unfold leaveStep
  split
  case h_1 hphase =>
    split
    · apply h.stopWaiting ha hphase
      split <;> rfl
    · exact h
  case h_2 => exact h

theorem dialedStep_accounts (hi : i < s.connects.size) (err : Option Err) : Accounts (s.dialedStep i err) := by
  unfold dialedStep
  dsimp only
  split
  case h_1 hdial =>
    have hlive : (s.connects.get i).dial.live := by rw [hdial]; rfl
    cases err with
    | some err => exact h.setConnect hi rfl (.inl rfl) fun _ => hlive
    | none => exact h.pushConn hi hlive (by exact rfl) (by exact rfl)
  case h_2 => exact h

theorem connectStep_accounts (hi : i < s.connects.size) : Accounts (s.connectStep i) := by
  unfold connectStep
  dsimp only
  split
  case h_1 => exact h
  case h_2 => exact h
  case h_3 result hdial =>
    have hlive : (s.connects.get i).dial.live := by rw [hdial]; rfl
    split
    · refine h.setConnect hi rfl (.inr ?_) fun _ => hlive
      rw [hdial]
      cases result <;> rfl
    · have hset : ∀ err, Accounts (s.setConnect i { s.connects.get i with dial := .locking (.error err) }) := fun err =>
        h.setConnect hi rfl (.inl rfl) fun _ => hlive
      cases result with
      | ok c => exact (hset _).of_eq rfl rfl rfl rfl rfl
      | error => exact hset _
  case h_4 result hdial =>
    have hlive : (s.connects.get i).dial.live := by rw [hdial]; rfl
    have hg := h.connect i hi
    obtain ⟨hconnecting, hnone⟩ := h.dialing i hi hlive
    generalize hstate : (s.connects.get i).state = g at hg hconnecting hnone
    -- the dial is done, and no other one is for this state
    have hno : ∀ err, ∀ i' < s.connects.size, let connect := (s.setConnect i
        { s.connects.get i with state := g, dial := .finishing, err }).connects.get i'
        connect.dial.live → connect.state ≠ g := by
      intro err i' hi'
      refine get_set_cases _ (P := fun (k : Connect) => k.dial.live → k.state ≠ g) nofun
        (fun hne hlive' heq => hne ?_)
      have hconn := (h.dialing i' hi' hlive').1
      rw [heq, hconnecting] at hconn
      exact (Option.some.inj hconn).symm
    have hset : ∀ err, Accounts (s.setConnect i { s.connects.get i with state := g, dial := .finishing, err }) := fun err =>
      h.setConnect hi hstate.symm (.inl rfl) nofun
    have hdone : ∀ err, Accounts ((s.setConnect i { s.connects.get i with state := g, dial := .finishing, err }).setState g
        { s.states.get g with connecting := none }) := fun err =>
      (hset err).setState hg (.inr ⟨rfl, rfl, rfl, h.tracked g hg⟩) rfl (.inr (hno err))
    cases result with
    | error err => exact hdone (some err)
    | ok c =>
      dsimp only
      split
      · exact (hdone (some .errClosed)).of_eq rfl rfl rfl rfl rfl
      · have hconn : (s.connects.get i).dial.conn = some c := by rw [hdial]; rfl
        have hsum := dialers_setConnect hi { s.connects.get i with state := g, dial := .finishing } c
        rw [if_pos hconn, if_neg (show ¬ Dial.conn .finishing = some c from nofun)] at hsum
        have hplace := h.place c
        have hdialers : (s.setConnect i { s.connects.get i with state := g, dial := .finishing }).dialers c = 0 := by omega
        have htakers := h.dialed c (by omega)
        have hfresh : c < s.conns.size := by
          by_contra hlt
          have := (h.fresh c (Nat.le_of_not_lt hlt)).1
          omega
        have hget : ((s.states.set g { s.states.get g with connecting := none }).get g).shared = none := by
          rw [get_set_self]
          exact hnone
        have hsharers : (s.setState g { s.states.get g with connecting := none }).sharers c = s.sharers c :=
          total_set_of_eq s.states _ rfl
        exact (hdone _).share hg hget (hno _) hfresh hdialers (hsharers.trans (by omega)) htakers
  case h_5 hdial => exact h.setConnect hi rfl (.inl rfl) nofun

theorem releaseStep_accounts (ha : a < s.acquirers.size) (reuse : Bool) : Accounts (s.releaseStep .single a reuse) := by
  unfold releaseStep
  split
  case h_1 c created hphase =>
    dsimp only
    split
    case h_1 hcurrent =>
      have hgo := h.letGo ha (fun g hg => by rw [show s.current = none from hcurrent] at hg; cases hg) hphase
      exact hgo.of_eq rfl rfl rfl rfl rfl
    case h_2 g hcurrent =>
      have hg := h.current g hcurrent
      -- the current state is `g`
      have hone : ∀ {s₁ : St}, s₁.current = s.current → (s₁.states.get g).shared ≠ some c →
          ∀ g', s₁.current = some g' → (s₁.states.get g').shared ≠ some c := by
        intro s₁ hs₁ hne g' hg'
        rw [hs₁, show s.current = some g from hcurrent] at hg'
        cases hg'
        exact hne
      by_cases hall : c ∉ (s.states.get g).all
      · rw [if_pos (by exact hall)]
        have hne : (s.states.get g).shared ≠ some c := fun hshared => hall (h.tracked g hg c hshared)
        exact (h.letGo ha (hone rfl hne) hphase).of_eq rfl rfl rfl rfl rfl
      · rw [if_neg (by exact hall)]
        split
        · rw [removeConn_setPhase]
          have hremove := h.removeConn (c := c) hg .errClosed
          obtain ⟨hsame, hacquirers, -, -⟩ := removeConn_frame s .single g c .errClosed
          rw [← hacquirers] at ha hphase
          exact (hremove.letGo ha (hone hsame shared_removeConn) hphase).of_eq rfl rfl rfl rfl rfl
        · split
          case isTrue hshared => exact h.giveBack ha hcurrent hshared.1 hphase
          case isFalse hshared =>
            refine h.letGo ha (hone rfl fun heq => hshared ⟨heq, ?_⟩) hphase
            change 0 < (s.states.get g).sharedUsers
            rw [h.users g hcurrent c heq]
            exact holders_pos ha hphase
  case h_2 => exact h

theorem invalidateStep_accounts (cause : Err) : Accounts (s.invalidateStep .single c cause) := by
  unfold invalidateStep
  split
  case h_1 => exact h.of_eq rfl rfl rfl rfl rfl
  case h_2 g hcurrent =>
    split
    · exact (h.removeConn (h.current g hcurrent) cause).of_eq rfl rfl rfl rfl rfl
    · exact h

theorem closeIdleStep_accounts : Accounts (s.closeIdleStep .single) := by
  unfold closeIdleStep
  split
  case h_1 g _ hcurrent =>
    dsimp only
    split
    · split
      · exact h
      · exact (h.removeConn (h.current g hcurrent) _).of_eq rfl rfl rfl rfl rfl
    · exact h
  case h_2 => exact h

theorem resetStep_accounts : Accounts s.resetStep := by
  unfold resetStep
  split
  case h_1 => exact h
  case h_2 g hcurrent =>
    have hget : ∀ g' < s.states.size, (s.states.push {}).get g' = s.states.get g' := fun g' hg' => get_push _ _ hg'
    have hsharers : ∀ c, ({ s with states := s.states.push {} }.replace g (some s.states.size)).sharers c = s.sharers c :=
      fun c => total_push _ _ _
    have hnew : ∀ {g'}, some s.states.size = some g' → (s.states.push {}).get g' = {} := by
      intro g' heq
      cases heq
      exact get_push_size _ _
    refine ⟨?_, ?_, ?_, h.single, ?_, ?_, h.dialed, ?_, ?_, h.creators, ?_, ?_, ?_, ?_⟩
    · intro g' heq
      cases heq
      exact Nat.lt_succ_self _
    · intro i hi
      exact Nat.lt_succ_of_lt (h.connect i hi)
    · intro a ha g' i startDial hphase
      exact Nat.lt_succ_of_lt (h.waiting a ha g' i startDial hphase)
    · intro c
      rw [hsharers]
      exact h.place c
    · intro c hc
      rw [hsharers]
      exact h.fresh c hc
    · intro g' hg' c
      exact get_push_cases _ (P := fun (k : State) => k.shared = some c → c ∈ k.all) hg'
        (fun _ hshared => by cases hshared)
        (fun hlt => h.tracked g' hlt c)
    · intro g' hg'
      exact get_push_cases _ (P := fun (k : State) => k.shared = none → k.sharedUsers = 0 ∧ k.sharedClaimed = false)
        hg' (fun _ _ => ⟨rfl, rfl⟩) (fun hlt => h.unshared g' hlt)
    · intro g' heq c hc
      have hc' : ((s.states.push {}).get g').shared = some c := hc
      rw [hnew heq] at hc'
      cases hc'
    · intro g' heq c hc
      have hc' : ((s.states.push {}).get g').shared = some c := hc
      rw [hnew heq] at hc'
      cases hc'
    · intro g' hg'
      refine get_push_cases _ (P := fun (k : State) => k.sharedWaiters = s.waiters g') hg' (fun heq => ?_)
        (fun hlt => h.waiters g' hlt)
      -- nobody waits for a state that did not exist
      refine (total_eq_zero s.acquirers _ fun a ha => ?_).symm
      cases hphase : (s.acquirers.get a).phase with
      | waiting g'' i startDial =>
        have hlt := h.waiting a ha g'' i startDial hphase
        rw [waitsFor, if_neg (by omega)]
      | _ => rfl
    · intro i hi hlive
      have hdialing := h.dialing i hi hlive
      rw [← hget _ (h.connect i hi)] at hdialing
      exact hdialing

theorem closePoolStep_accounts : Accounts s.closePoolStep := by
  unfold closePoolStep
  split
  case h_1 => exact h
  case h_2 =>
    have hnone : ∀ g {P : Prop}, (none : Option ℕ) = some g → P := fun _ _ hno => by cases hno
    exact { h with current := fun g => hnone g, users := fun g => hnone g, claimed := fun g => hnone g }

theorem Accounts.cancelState (hg : g < s.states.size) : Accounts (s.cancelState g) := by
  have hset : Accounts (s.setState g { s.states.get g with cancelled := some .errClosed }) :=
    h.setState hg (.inr ⟨rfl, rfl, rfl, h.tracked g hg⟩) rfl (.inl rfl)
  unfold St.cancelState
  dsimp only
  split
  · exact hset.cancelConn _
  · exact hset

theorem closeStateStep_accounts (hleaving : ∀ g ∈ s.leaving, g < s.states.size) : Accounts (s.closeStateStep g) := by
  unfold closeStateStep
  split
  case isTrue hmem => exact (h.cancelState (hleaving g hmem)).of_eq rfl rfl rfl rfl rfl
  case isFalse => exact h

theorem closeConnStep_accounts : Accounts (s.closeConnStep c) := by
  unfold closeConnStep
  split
  · exact h.of_eq rfl rfl rfl rfl rfl
  · exact h

theorem dialedOrderedStep_accounts (ha : a < s.acquirers.size) (err : Option Err) :
    Accounts (s.dialedOrderedStep a err) := by
  unfold dialedOrderedStep
  split
  case h_1 hphase =>
    have hsingle := h.single a ha
    rw [hphase] at hsingle
    cases hsingle
  case h_2 => exact h

theorem installStep_accounts (ha : a < s.acquirers.size) : Accounts (s.installStep a) := by
  have hsingle := h.single a ha
  unfold installStep
  split
  case h_1 hphase =>
    rw [hphase] at hsingle
    cases hsingle
  case h_2 hphase =>
    rw [hphase] at hsingle
    cases hsingle
  case h_3 => exact h

theorem Accounts.setAcquirers {acquirers : Table Acquirer}
    (hphase : ∀ a < acquirers.size, (acquirers.get a).phase = .entering ∨
      ∃ a' < s.acquirers.size, (acquirers.get a).phase = (s.acquirers.get a').phase)
    (htotal : ∀ f : Phase → ℕ, f .entering = 0 →
      acquirers.total (fun k => f k.phase) = s.acquirers.total fun k => f k.phase) : Accounts { s with acquirers } := by
  have hh : ∀ c, { s with acquirers }.holders c = s.holders c := fun c => htotal (holds c) rfl
  have hr : ∀ c, { s with acquirers }.creators c = s.creators c := fun c => htotal (creates c) rfl
  have ht : ∀ c, { s with acquirers }.takers c = s.takers c := fun c => htotal (touches c) rfl
  have hw : ∀ g, { s with acquirers }.waiters g = s.waiters g := fun g => htotal (waitsFor g) rfl
  refine ⟨h.current, h.connect, ?_, ?_, h.place, ?_, ?_, h.tracked, h.unshared, ?_, ?_, ?_, ?_, h.dialing⟩
  · intro a ha g i startDial heq
    rcases hphase a ha with hentering | ⟨a', ha', hsame⟩
    · rw [hentering] at heq
      cases heq
    · exact h.waiting a' ha' g i startDial (hsame ▸ heq)
  · intro a ha
    rcases hphase a ha with hentering | ⟨a', ha', hsame⟩
    · rw [hentering]
      rfl
    · rw [hsame]
      exact h.single a' ha'
  · intro c hc
    rw [ht]
    exact h.fresh c hc
  · intro c hc
    rw [ht]
    exact h.dialed c hc
  · simpa only [hr] using h.creators
  · simpa only [hh] using h.users
  · simpa only [hr] using h.claimed
  · simpa only [hw] using h.waiters

end

theorem guarded {p : Prop} [Decidable p] {P : St → Prop} (h : P s) (hs' : p → P s') : P (if p then s' else s) := by
  split
  case isTrue hp => exact hs' hp
  case isFalse => exact h

theorem step_accounts (h : Accounts s) (hleaving : ∀ g ∈ s.leaving, g < s.states.size) (op : Op) :
    Accounts (step .single s op) := by
  cases op with
  | acquire =>
    refine h.setAcquirers (fun a ha => ?_) (fun f hf => ?_)
    · exact get_push_cases _ (P := fun (k : Acquirer) => k.phase = .entering ∨ ∃ a' < s.acquirers.size, k.phase =
        (s.acquirers.get a').phase) ha (fun _ => .inl rfl) (fun hlt => .inr ⟨a, hlt, rfl⟩)
    · exact (total_push _ _ _).trans (by rw [hf, Nat.add_zero])
  | cancel a =>
    simp only [step]
    split
    case isTrue ha =>
      refine h.setAcquirers (fun a' ha' => .inr ?_) (fun f _ => total_set_of_eq _ _ rfl)
      exact get_set_cases _ (P := fun (k : Acquirer) => ∃ a' < s.acquirers.size, k.phase =
        (s.acquirers.get a').phase) (fun _ => ⟨a, ha, rfl⟩) (fun _ => ⟨a', ha', rfl⟩)
    case isFalse => exact h
  | enter a => exact guarded h fun ha => enterStep_accounts h ha
  | collect a => exact guarded h fun ha => collectStep_accounts h ha
  | abandon a => exact guarded h fun ha => abandonStep_accounts h ha
  | leave a => exact guarded h fun ha => leaveStep_accounts h ha
  | dialed i err => exact guarded h fun hi => dialedStep_accounts h hi err
  | connect i => exact guarded h fun hi => connectStep_accounts h hi
  | dialedOrdered a err => exact guarded h fun ha => dialedOrderedStep_accounts h ha err
  | install a => exact guarded h fun ha => installStep_accounts h ha
  | release a reuse => exact guarded h fun ha => releaseStep_accounts h ha reuse
  | invalidate c cause => exact guarded h fun _ => invalidateStep_accounts h cause
  | closeIdle => exact closeIdleStep_accounts h
  | reset => exact resetStep_accounts h
  | closePool => exact closePoolStep_accounts h
  | closeState g => exact closeStateStep_accounts h hleaving
  | closeConn c => exact closeConnStep_accounts h
  | die c => exact guarded h fun _ => h.of_eq rfl rfl rfl rfl rfl

end EtonifyCore.ConnPool
