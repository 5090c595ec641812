/-
The leases of realm sessions: their ends, their timers, and heartbeats (`realm_server.go`).

Model: the server of `Realm/Server` with the timers of its sessions and a clock that never goes back. Every section reads this
clock. A timer that fires starts a check, which comes to its section (`removeExpiredSession`) at any later time; a heartbeat
that `authSession` has let in comes to its own at any later time. `delay` is the time from `time.Now()` to the call of
`AfterFunc` or `Reset` in the same section.

- `step_st`: the server takes the steps of `Realm/Server`.
- `Armed.step`: a registered session has a timer that does not fire early, or a check to come.
- `lease_iff`: leases end and heartbeats are honest in exactly the runs without the two races (`lease_races`).

Premise: tokens in use are not repeated (`FreshRun`), as in `Realm/Registry`.
-/
import EtonifyCore.Realm.LeaseEffect

namespace EtonifyCore.Realm

open Core.Table

variable {tokenMap : String → Option User} {st : St} {p q : ℕ}

/-! ## Timers -/

/-- the server with the timers of its sessions -/
structure Timed where
  st : St
  timer : ℕ → Option ℕ
  /-- timers that have fired and whose `removeExpiredSession` is still to come -/
  checks : ℕ → ℕ
  clock : ℕ

inductive TimedOp
  | tick (d : ℕ)
  | fire (p : ℕ)
  | check (p : ℕ)
  | request (request : Request)
  | advance (i : ℕ) (token : String) (wake : Wake) (delay : ℕ)
  | readEvent (p : ℕ)
  | closeAll
  deriving DecidableEq, Repr

/-- the session whose timer the section of call `i` sets: `AfterFunc` in `handleRegister`, `Reset` in `handleHeartbeat` -/
def sets (st st' : St) (i : ℕ) : Option ℕ :=
  if i < st.calls.size then
    match st.calls.get i with
    | .received (.register ..) => if st.heap.size < st'.heap.size then some st.heap.size else none
    | .heartbeat p _ => some p
    | _ => none
  else none

namespace Timed

def start : Timed := ⟨init, fun _ => none, fun _ => 0, 0⟩

variable (tokenMap : String → Option User) (t : Timed)

/-- a section of the server; `removeSessionLocked` stops the timer of the session that it closes -/
def serve (op : Op) : Timed :=
  let st := Realm.step tokenMap t.st op
  { t with
    st
    timer := fun p => if (t.st.heap.get p).closed = false ∧ (st.heap.get p).closed = true then none else t.timer p }

/-- the section of the server that an operation is, if it is one -/
def section? : TimedOp → Option Op
  | .tick _ | .fire _ => none
  | .check p => if t.checks p = 0 then none else some (.expire p t.clock)
  | .request request => some (.request request)
  | .advance i token wake _ => some (.advance i t.clock token wake)
  | .readEvent p => some (.readEvent p)
  | .closeAll => some .closeAll

def step : TimedOp → Timed
  | .tick d => { t with clock := t.clock + d }
  | .fire p =>
    if (t.timer p).any (· ≤ t.clock) then
      { t with timer := Function.update t.timer p none, checks := Function.update t.checks p (t.checks p + 1) }
    else t
  | .check p =>
    if t.checks p = 0 then t
    else { t.serve tokenMap (.expire p t.clock) with checks := Function.update t.checks p (t.checks p - 1) }
  | .request request => t.serve tokenMap (.request request)
  | .advance i token wake delay =>
    let t' := t.serve tokenMap (.advance i t.clock token wake)
    match sets t.st t'.st i with
    | none => t'
    | some p =>
      { t' with timer := Function.update t'.timer p (some (t.clock + delay + sessionTTL)), clock := t.clock + delay }
  | .readEvent p => t.serve tokenMap (.readEvent p)
  | .closeAll => t.serve tokenMap .closeAll

def run (ops : List TimedOp) : Timed := ops.foldl (step tokenMap) t

/-- the server of the run is that of `Realm/Server`, with the clock for its readings -/
theorem step_st (op : TimedOp) :
    (t.step tokenMap op).st = ((t.section? op).map (Realm.step tokenMap t.st)).getD t.st := by
  cases op with
  | tick d | request request | readEvent p | closeAll => rfl
  | fire p =>
    rw [step]
    split_ifs <;> rfl
  | check p =>
    rw [step, section?]
    split_ifs <;> rfl
  | advance i token wake delay =>
    rw [step]
    split <;> rfl

end Timed

/-- the session is in both maps -/
def St.Registered (st : St) (p : ℕ) : Prop :=
  ((st.heap.get p).id, p) ∈ st.sessions ∧ st.realms (st.heap.get p).realmID = some p

theorem Inv.registered_iff (h : Inv tokenMap st) :
    st.Registered p ↔ p < st.heap.size ∧ (st.heap.get p).closed = false := by
  constructor
  · intro hp
    have hsess := h.registry.session _ hp.1
    exact ⟨hsess.1, hsess.2.2⟩
  · rintro ⟨hlt, hopen⟩
    exact h.registry.listed p hlt hopen

namespace Timed

/-- a token that is read in a section is not in use -/
def Fresh (t : Timed) (op : TimedOp) : Prop := ∀ o ∈ t.section? op, Realm.Fresh t.st o

def FreshRun (tokenMap : String → Option User) (t : Timed) : List TimedOp → Prop
  | [] => True
  | op :: ops => t.Fresh op ∧ (t.step tokenMap op).FreshRun tokenMap ops

/-- a registered session has an armed timer or a check to come -/
def Kept (t : Timed) : Prop := ∀ p, t.st.Registered p → (t.timer p).isSome ∨ 0 < t.checks p

/-- whichever heartbeat comes to its section next finds its session registered -/
def Honest (t : Timed) : Prop :=
  ∀ i < t.st.calls.size, ∀ p addresses, t.st.calls.get i = .heartbeat p addresses → t.st.Registered p

def Honoured (tokenMap : String → Option User) (t : Timed) : List TimedOp → Prop
  | [] => t.Kept ∧ t.Honest
  | op :: ops => (t.Kept ∧ t.Honest) ∧ (t.step tokenMap op).Honoured tokenMap ops

/-- the last check reads the very end of the lease -/
def ChecksAtEnd (t : Timed) (op : TimedOp) : Prop :=
  ∃ p, op = .check p ∧ t.st.Registered p ∧ t.timer p = none ∧ t.checks p = 1 ∧ t.clock = (t.st.heap.get p).expires

/-- a session is removed while a heartbeat of it is let in: by `deregister`, an expiry check past its end or `closeAll` -/
def RemovesBehind (t : Timed) (op : TimedOp) : Prop :=
  ∃ i < t.st.calls.size, ∃ p addresses, t.st.calls.get i = .heartbeat p addresses ∧
    ∃ o ∈ t.section? op, effect t.st p o = .remove

def Avoids (tokenMap : String → Option User) (t : Timed) : List TimedOp → Prop
  | [] => True
  | op :: ops => ¬t.ChecksAtEnd op ∧ ¬t.RemovesBehind op ∧ (t.step tokenMap op).Avoids tokenMap ops

/-- the timer does not fire before the end of the lease, and one that has fired has a check to come -/
def Armed (t : Timed) : Prop :=
  ∀ p < t.st.heap.size, (t.st.heap.get p).closed = false →
    (∃ deadline, t.timer p = some deadline ∧ (t.st.heap.get p).expires ≤ deadline) ∨
      (t.timer p = none ∧ 0 < t.checks p ∧ (t.st.heap.get p).expires ≤ t.clock)

variable {t : Timed} {op : TimedOp}

theorem inv_step (h : Inv tokenMap t.st) (hfresh : t.Fresh op) : Inv tokenMap (t.step tokenMap op).st := by
  rw [step_st]
  cases hop : t.section? op with
  | none => exact h
  | some o => exact Realm.inv_step h o (hfresh o hop)

/-- a section that leaves a session open leaves its timer as it is, and its lease unless it is a heartbeat -/
theorem serve_open {o : Op} (hq : q < t.st.heap.size) (hopen : ((t.serve tokenMap o).st.heap.get q).closed = false) :
    (t.st.heap.get q).closed = false ∧ (t.serve tokenMap o).timer q = t.timer q ∧
      (((t.serve tokenMap o).st.heap.get q).expires = (t.st.heap.get q).expires ∧ effect t.st q o = .keep ∨
        ∃ now, effect t.st q o = .beat now ∧ ((t.serve tokenMap o).st.heap.get q).expires = now + sessionTTL) := by
  have hlease : (((t.serve tokenMap o).st.heap.get q).closed, ((t.serve tokenMap o).st.heap.get q).expires) =
      (effect t.st q o).apply ((t.st.heap.get q).closed, (t.st.heap.get q).expires) := step_lease o hq
  have htimer : (t.serve tokenMap o).timer q = t.timer q := if_neg fun hclosed => by
    have hclosed' : ((t.serve tokenMap o).st.heap.get q).closed = true := hclosed.2
    rw [hopen] at hclosed'
    cases hclosed'
  cases heffect : effect t.st q o with
  | keep =>
    rw [heffect] at hlease
    obtain ⟨hclosed, hexpires⟩ := Prod.mk.inj hlease
    exact ⟨hclosed.symm.trans hopen, htimer, .inl ⟨hexpires, rfl⟩⟩
  | beat now =>
    rw [heffect] at hlease
    obtain ⟨hclosed, hexpires⟩ := Prod.mk.inj hlease
    exact ⟨hclosed.symm.trans hopen, htimer, .inr ⟨now, rfl, hexpires⟩⟩
  | remove =>
    rw [heffect] at hlease
    rw [(Prod.mk.inj hlease).1] at hopen
    cases hopen

/-- what leaves the lease of a session alone leaves it armed -/
theorem Armed.serve (h : t.Armed) {o : Op} (hsize : (t.serve tokenMap o).st.heap.size = t.st.heap.size)
    (hbeat : ∀ q now, effect t.st q o ≠ .beat now) : (t.serve tokenMap o).Armed := by
  intro q hq hopen
  rw [hsize] at hq
  obtain ⟨hopen', htimer, ⟨hexpires, -⟩ | ⟨now, heffect, -⟩⟩ := serve_open hq hopen
  · rw [htimer, hexpires]
    exact h q hq hopen'
  · exact absurd heffect (hbeat q now)

theorem Armed.check (h : t.Armed) (hinv : Inv tokenMap t.st) (hop : ¬t.ChecksAtEnd (.check p)) :
    (t.step tokenMap (.check p)).Armed := by
  rw [Timed.step]
  split_ifs with hnone
  · exact h
  intro q hq hopen
  change q < (t.serve tokenMap (.expire p t.clock)).st.heap.size at hq
  have hsize : (t.serve tokenMap (.expire p t.clock)).st.heap.size = t.st.heap.size :=
    (step_frame tokenMap _ (.expire p t.clock) rfl).1
  rw [hsize] at hq
  obtain ⟨hopen', htimer, hlease⟩ := serve_open hq hopen
  change (∃ deadline, (t.serve tokenMap (.expire p t.clock)).timer q = _ ∧ _) ∨
    ((t.serve tokenMap (.expire p t.clock)).timer q = none ∧ 0 < Function.update t.checks p (t.checks p - 1) q ∧
      ((t.serve tokenMap (.expire p t.clock)).st.heap.get q).expires ≤ t.clock)
  have heffect : effect t.st q (.expire p t.clock) = .keep ∧
      ((t.serve tokenMap (.expire p t.clock)).st.heap.get q).expires = (t.st.heap.get q).expires := by
    rcases hlease with ⟨hexpires, hkeep⟩ | ⟨now, hbeat, -⟩
    · exact ⟨hkeep, hexpires⟩
    · rw [effect] at hbeat
      split_ifs at hbeat
  rw [htimer, heffect.2]
  rcases h q hq hopen' with htimer | ⟨ht, hc, he⟩
  · exact .inl htimer
  refine .inr ⟨ht, ?_, he⟩
  by_cases hqp : q = p
  swap
  · rw [Function.update_of_ne hqp]
    exact hc
  subst hqp
  rw [Function.update_self]
  -- the check came at the very end of the lease, so there is another one
  have hle : t.clock ≤ (t.st.heap.get q).expires := by
    have hkeep := heffect.1
    rw [effect] at hkeep
    by_contra hlt
    rw [if_pos ⟨rfl, hq, by simpa [Session.expired] using hlt⟩] at hkeep
    cases hkeep
  have hlast : t.checks q ≠ 1 := fun hone =>
    hop ⟨q, rfl, hinv.registered_iff.2 ⟨hq, hopen'⟩, ht, hone, hle.antisymm he⟩
  omega

theorem sets_none {i now : ℕ} {token : String} {wake : Wake}
    (h : sets st (Realm.step tokenMap st (.advance i now token wake)) i = none) :
    (Realm.step tokenMap st (.advance i now token wake)).heap.size = st.heap.size ∧
      ∀ q n, effect st q (.advance i now token wake) ≠ .beat n := by
  rw [sets] at h
  rw [Realm.step]
  by_cases hi : i < st.calls.size
  swap
  · rw [if_neg hi]
    refine ⟨rfl, fun q n => ?_⟩
    rw [effect, if_neg hi]
    intro hbeat
    cases hbeat
  rw [Realm.step, if_pos hi, if_pos hi] at h
  rw [if_pos hi]
  constructor
  · rcases (@advance_lease tokenMap st i now token wake hi).2 with hsize | ⟨⟨bearer, id, addresses, hphase⟩, hsize, -⟩
    · exact hsize
    · rw [hphase] at h
      dsimp only at h
      rw [if_pos (hsize ▸ Nat.lt_succ_self _)] at h
      cases h
  · intro q n hbeat
    rw [effect, if_pos hi] at hbeat
    split at hbeat
    · split_ifs at hbeat
    · rename_i hphase
      rw [hphase] at h
      cases h
    · cases hbeat

theorem sets_some {i now : ℕ} {token : String} {wake : Wake}
    (h : sets st (Realm.step tokenMap st (.advance i now token wake)) i = some p) :
    (∀ q n, effect st q (.advance i now token wake) = .beat n → q = p ∧ n = now) ∧
      ((Realm.step tokenMap st (.advance i now token wake)).heap.size = st.heap.size ∧
          effect st p (.advance i now token wake) = .beat now ∨
        p = st.heap.size ∧ (Realm.step tokenMap st (.advance i now token wake)).heap.size = st.heap.size + 1 ∧
          ((Realm.step tokenMap st (.advance i now token wake)).heap.get p).lease = (false, now + sessionTTL)) := by
  rw [sets] at h
  by_cases hi : i < st.calls.size
  swap
  · rw [if_neg hi] at h
    cases h
  rw [Realm.step, if_pos hi, if_pos hi] at h
  rw [Realm.step, if_pos hi]
  have hsize := (@advance_lease tokenMap st i now token wake hi).2
  simp only [effect, if_pos hi]
  split at h
  · rename_i hphase
    rw [hphase] at hsize ⊢
    split_ifs at h with hgrows
    obtain rfl := Option.some.inj h
    refine ⟨?_, .inr ⟨rfl, ?_⟩⟩
    · intro q n hbeat
      cases hbeat
    rcases hsize with hsame | ⟨-, hnew⟩
    · exact absurd hsame hgrows.ne'
    · exact hnew
  · rename_i r addresses hphase
    rw [hphase] at hsize ⊢
    obtain rfl := Option.some.inj h
    refine ⟨fun q n hbeat => ?_, .inl ⟨?_, if_pos rfl⟩⟩
    · dsimp only at hbeat
      split_ifs at hbeat with hq
      cases hbeat
      exact ⟨hq, rfl⟩
    · rcases hsize with hsame | ⟨⟨_, _, _, hno⟩, -⟩
      · exact hsame
      · cases hno
  · cases h

/-- the section of a request: a lease that it starts or extends gets a timer -/
theorem Armed.advance (h : t.Armed) (i : ℕ) (token : String) (wake : Wake) (delay : ℕ) :
    (t.step tokenMap (.advance i token wake delay)).Armed := by
  rw [Timed.step]
  split
  · rename_i hnone
    obtain ⟨hsize, hbeat⟩ := sets_none hnone
    exact h.serve hsize hbeat
  rename_i p hsome
  obtain ⟨hbeats, hnew⟩ := sets_some hsome
  intro q hq hopen
  dsimp only at hq hopen ⊢
  by_cases hqp : q = p
  · subst hqp
    refine .inl ⟨_, Function.update_self .., ?_⟩
    rcases hnew with ⟨hsize, heffect⟩ | ⟨-, -, hlease⟩
    · obtain ⟨-, -, ⟨-, hkeep⟩ | ⟨now, hbeat, hexpires⟩⟩ := serve_open (hsize ▸ hq) hopen
      · rw [hkeep] at heffect
        cases heffect
      · rw [hexpires, (hbeats q now hbeat).2]
        omega
    · refine (congrArg Prod.snd hlease).le.trans ?_
      dsimp only
      omega
  · rw [Function.update_of_ne hqp]
    have hlt : q < t.st.heap.size := by
      rcases hnew with ⟨hsize, -⟩ | ⟨rfl, hsize, -⟩
      · exact hsize ▸ hq
      · change q < (Realm.step tokenMap t.st _).heap.size at hq
        omega
    obtain ⟨hopen', htimer, ⟨hexpires, -⟩ | ⟨now, hbeat, -⟩⟩ := serve_open hlt hopen
    · rw [htimer, hexpires]
      rcases h q hlt hopen' with htimer | ⟨ht, hc, he⟩
      · exact .inl htimer
      · exact .inr ⟨ht, hc, he.trans (Nat.le_add_right _ delay)⟩
    · exact absurd (hbeats q now hbeat).1 hqp

theorem Armed.step (h : t.Armed) (hinv : Inv tokenMap t.st) (hop : ¬t.ChecksAtEnd op) : (t.step tokenMap op).Armed := by
  cases op with
  | tick d =>
    intro q hq hopen
    rcases h q hq hopen with htimer | ⟨ht, hc, he⟩
    · exact .inl htimer
    · exact .inr ⟨ht, hc, he.trans (Nat.le_add_right _ d)⟩
  | fire p =>
    rw [Timed.step]
    split_ifs with hfire
    swap
    · exact h
    intro q hq hopen
    by_cases hqp : q = p
    · subst hqp
      rcases h q hq hopen with ⟨deadline, ht, he⟩ | ⟨ht, -⟩
      · have hle : deadline ≤ t.clock := by simpa [ht] using hfire
        refine .inr ⟨Function.update_self .., ?_, he.trans hle⟩
        dsimp only
        rw [Function.update_self]
        exact Nat.succ_pos _
      · simp [ht] at hfire
    · dsimp only
      rw [Function.update_of_ne hqp, Function.update_of_ne hqp]
      exact h q hq hopen
  | check p => exact h.check hinv hop
  | request request => exact h.serve rfl fun _ _ hbeat => by cases hbeat
  | advance i token wake delay => exact h.advance i token wake delay
  | readEvent p => exact h.serve (step_frame tokenMap _ (.readEvent p) rfl).1 fun _ _ hbeat => by cases hbeat
  | closeAll =>
    refine h.serve (step_frame tokenMap _ .closeAll rfl).1 fun q now hbeat => ?_
    rw [effect] at hbeat
    split_ifs at hbeat

theorem Armed.kept (h : t.Armed) (hinv : Inv tokenMap t.st) : t.Kept := by
  intro p hp
  obtain ⟨hlt, hopen⟩ := hinv.registered_iff.1 hp
  rcases h p hlt hopen with ⟨deadline, ht, -⟩ | ⟨-, hc, -⟩
  · exact .inl (by rw [ht]; rfl)
  · exact .inr hc

/-! ## Heartbeats -/

theorem Honest.step (h : t.Honest) (hinv : Inv tokenMap t.st) (hfresh : t.Fresh op) (hop : ¬t.RemovesBehind op) :
    (t.step tokenMap op).Honest := by
  have hinv' : Inv tokenMap (t.step tokenMap op).st := inv_step hinv hfresh
  intro i hi p addresses hphase
  have hsess : p < (t.step tokenMap op).st.heap.size := hinv'.calls i hi p (by rw [hphase]; rfl)
  refine hinv'.registered_iff.2 ⟨hsess, ?_⟩
  rw [step_st] at hi hphase ⊢
  cases hsection : t.section? op with
  | none =>
    rw [hsection] at hi hphase
    exact (hinv.registered_iff.1 (h i hi p addresses hphase)).2
  | some o =>
    rw [hsection] at hi hphase
    change ((Realm.step tokenMap t.st o).heap.get p).closed = false
    rcases heartbeat_of_step o hi hphase with ⟨hi', hphase'⟩ | ⟨hopen, hheap⟩
    · obtain ⟨hlt, hopen⟩ := hinv.registered_iff.1 (h i hi' p addresses hphase')
      have hremove : effect t.st p o ≠ .remove := fun heffect => hop ⟨i, hi', p, addresses, hphase', o, hsection, heffect⟩
      have hlease := congrArg Prod.fst (@step_lease tokenMap t.st p o hlt)
      refine hlease.trans ?_
      cases heffect : effect t.st p o with
      | keep | beat now => exact hopen
      | remove => exact absurd heffect hremove
    · rw [hheap]
      exact hopen

/-- a removal leaves the heartbeats where they are -/
theorem heartbeat_of_removes {o : Op} {i : ℕ} {addresses : Option (List String)} (hi : i < st.calls.size)
    (hphase : st.calls.get i = .heartbeat p addresses) (hremove : effect st q o = .remove) :
    i < (Realm.step tokenMap st o).calls.size ∧ (Realm.step tokenMap st o).calls.get i = .heartbeat p addresses := by
  cases o with
  | request request | readEvent r => cases hremove
  | advance j now token wake =>
    rw [effect] at hremove
    split_ifs at hremove with hj
    rw [Realm.step, if_pos hj, Realm.advance]
    split at hremove
    · rename_i r hderegister
      rw [hderegister]
      have hij : i ≠ j := by
        rintro rfl
        rw [hphase] at hderegister
        cases hderegister
      change i < ((st.removeSessionLocked r).calls.set j _).size ∧ ((st.removeSessionLocked r).calls.set j _).get i = _
      rw [remove_calls, get_set_of_ne _ _ hij]
      exact ⟨hi, hphase⟩
    · split_ifs at hremove
    · cases hremove
  | expire r now =>
    rw [(step_frame tokenMap _ (.expire r now) rfl).2]
    exact ⟨hi, hphase⟩
  | closeAll =>
    rw [(step_frame tokenMap _ .closeAll rfl).2]
    exact ⟨hi, hphase⟩

theorem Honest.not_removesBehind (h : (t.step tokenMap op).Honest) (hinv : Inv tokenMap t.st) (hfresh : t.Fresh op) :
    ¬t.RemovesBehind op := by
  rintro ⟨i, hi, p, addresses, hphase, o, hsection, hremove⟩
  have hinv' : Inv tokenMap (t.step tokenMap op).st := inv_step hinv hfresh
  have hst : (t.step tokenMap op).st = Realm.step tokenMap t.st o := by
    rw [step_st, hsection]
    rfl
  obtain ⟨hi', hphase'⟩ := @heartbeat_of_removes tokenMap t.st p p o i addresses hi hphase hremove
  rw [← hst] at hi' hphase'
  have hopen := (hinv'.registered_iff.1 (h i hi' p addresses hphase')).2
  have hlease := congrArg Prod.fst (@step_lease tokenMap t.st p o (hinv.calls i hi p (by rw [hphase]; rfl)))
  rw [hremove] at hlease
  rw [hst] at hopen
  cases hlease.symm.trans hopen

theorem check_early (hexpired : (t.st.heap.get p).expired t.clock = false) :
    Realm.step tokenMap t.st (.expire p t.clock) = t.st := by
  rw [Realm.step, St.removeExpiredSession]
  split_ifs with hlt hkeep
  · rfl
  · simp [hexpired] at hkeep
  · rfl

theorem Kept.not_checksAtEnd (h : (t.step tokenMap op).Kept) : ¬t.ChecksAtEnd op := by
  rintro ⟨p, rfl, hregistered, htimer, hchecks, hclock⟩
  have hst : Realm.step tokenMap t.st (.expire p t.clock) = t.st := check_early (by simp [Session.expired, hclock])
  rw [Timed.step, if_neg (by omega)] at h
  have hkept := h p (by
    change (Realm.step tokenMap t.st (.expire p t.clock)).Registered p
    rw [hst]
    exact hregistered)
  dsimp only [serve] at hkept
  rw [hst, htimer, Function.update_self, hchecks] at hkept
  simp at hkept

/-! ## Runs -/

theorem honoured_iff (hinv : Inv tokenMap t.st) (harmed : t.Armed) (hhonest : t.Honest) {ops : List TimedOp}
    (hfresh : t.FreshRun tokenMap ops) : t.Honoured tokenMap ops ↔ t.Avoids tokenMap ops := by
  induction ops generalizing t with
  | nil => exact iff_of_true ⟨harmed.kept hinv, hhonest⟩ trivial
  | cons op ops ih =>
    obtain ⟨hfresh, hrest⟩ := hfresh
    constructor
    · rintro ⟨-, hnext⟩
      have hfirst : (t.step tokenMap op).Kept ∧ (t.step tokenMap op).Honest := by
        cases ops with
        | nil => exact hnext
        | cons _ _ => exact hnext.1
      have hop := hfirst.1.not_checksAtEnd
      exact ⟨hop, hfirst.2.not_removesBehind hinv hfresh,
        (ih (inv_step hinv hfresh) (harmed.step hinv hop) hfirst.2 hrest).1 hnext⟩
    · rintro ⟨hop, hbehind, hnext⟩
      exact ⟨⟨harmed.kept hinv, hhonest⟩,
        (ih (inv_step hinv hfresh) (harmed.step hinv hop) (hhonest.step hinv hfresh hbehind) hrest).2 hnext⟩

theorem armed_run (hinv : Inv tokenMap t.st) (harmed : t.Armed) {ops : List TimedOp} (hfresh : t.FreshRun tokenMap ops)
    (hops : t.Avoids tokenMap ops) : Inv tokenMap (t.run tokenMap ops).st ∧ (t.run tokenMap ops).Armed := by
  induction ops generalizing t with
  | nil => exact ⟨hinv, harmed⟩
  | cons op ops ih => exact ih (inv_step hinv hfresh.1) (harmed.step hinv hops.1) hfresh.2 hops.2.2

/-- a lease whose timer is due ends with the next firing and check -/
theorem Armed.ends (h : t.Armed) (hinv : Inv tokenMap t.st) (hp : t.st.Registered p) {d : ℕ} (hd : 0 < d)
    (hdue : ∀ deadline, t.timer p = some deadline → deadline < t.clock + d) :
    ¬(t.run tokenMap [.tick d, .fire p, .check p]).st.Registered p := by
  obtain ⟨hlt, hopen⟩ := hinv.registered_iff.1 hp
  have hfired : ((t.step tokenMap (.tick d)).step tokenMap (.fire p)).st = t.st ∧
      ((t.step tokenMap (.tick d)).step tokenMap (.fire p)).clock = t.clock + d ∧
      ((t.step tokenMap (.tick d)).step tokenMap (.fire p)).checks p ≠ 0 ∧ (t.st.heap.get p).expires < t.clock + d := by
    rcases h p hlt hopen with ⟨deadline, ht, he⟩ | ⟨ht, hc, he⟩
    · have hlt := hdue deadline ht
      simp [Timed.step, ht, hlt.le, he.trans_lt hlt]
    · simp [Timed.step, ht, hc.ne', he.trans_lt (Nat.lt_add_of_pos_right hd)]
  change ¬(((t.step tokenMap (.tick d)).step tokenMap (.fire p)).step tokenMap (.check p)).st.Registered p
  obtain ⟨hst, hclock, hchecks, hexpired⟩ := hfired
  have hnext : (((t.step tokenMap (.tick d)).step tokenMap (.fire p)).step tokenMap (.check p)).st =
      Realm.step tokenMap t.st (.expire p (t.clock + d)) := by
    rw [step_st, section?, if_neg hchecks, hst, hclock]
    rfl
  rw [hnext]
  intro hstill
  have hopen' := ((Realm.inv_step hinv (.expire p (t.clock + d)) trivial).registered_iff.1 hstill).2
  have hlease := congrArg Prod.fst (@step_lease tokenMap t.st p (.expire p (t.clock + d)) hlt)
  rw [effect, if_pos ⟨rfl, hlt, by simpa [Session.expired] using hexpired⟩] at hlease
  cases hlease.symm.trans hopen'

/-! ## Main result -/

/-- **Leases.** In exactly the runs without the two races, a registered session has an armed timer or a check to come at
every point, and every heartbeat that is let in finds its session registered. In these runs a session that is left alone is
removed when its timer is due and time goes on. -/
theorem lease_iff (tokenMap : String → Option User) (ops : List TimedOp) (hfresh : start.FreshRun tokenMap ops) :
    (start.Honoured tokenMap ops ↔ start.Avoids tokenMap ops) ∧
      (start.Avoids tokenMap ops → ∀ p d, (start.run tokenMap ops).st.Registered p → 0 < d →
        (∀ deadline, (start.run tokenMap ops).timer p = some deadline → deadline < (start.run tokenMap ops).clock + d) →
        ¬((start.run tokenMap ops).run tokenMap [.tick d, .fire p, .check p]).st.Registered p) := by
  have harmed : start.Armed := fun _ hp => absurd hp (Nat.not_lt_zero _)
  have hhonest : start.Honest := fun _ hi => absurd hi (Nat.not_lt_zero _)
  refine ⟨honoured_iff (inv_init tokenMap) harmed hhonest hfresh, fun hops p d hp hd hdue => ?_⟩
  obtain ⟨hinv, hrun⟩ := armed_run (inv_init tokenMap) harmed hfresh hops
  exact hrun.ends hinv hp hd hdue

def registered : List TimedOp := [.request (.register "secret" "home" ["1.2.3.4:1"]), .advance 0 "t0" .timer 0]

theorem lease_iff_registered :
    (start.run sampleTokens registered).st.Registered 0 ∧
      ¬((start.run sampleTokens registered).run sampleTokens [.tick (sessionTTL + 1), .fire 0, .check 0]).st.Registered 0 := by
  have hregistered : (start.run sampleTokens registered).st.Registered 0 := ⟨by decide +kernel, by decide +kernel⟩
  refine ⟨hregistered, (lease_iff sampleTokens registered ⟨?_, ?_, trivial⟩).2 ?_ 0 _ hregistered (Nat.succ_pos _) ?_⟩
  · rintro _ ⟨⟩
    trivial
  · rintro _ ⟨⟩
    decide
  · refine ⟨?_, ?_, ?_, ?_, trivial⟩
    · rintro ⟨p, hop, -⟩
      cases hop
    · rintro ⟨i, hi, -⟩
      cases hi
    · rintro ⟨p, hop, -⟩
      cases hop
    · rintro ⟨_, _, _, _, _, _, ⟨⟩, hremove⟩
      cases hremove
  · decide +kernel

/-- The check reads the very end of the lease: the session stays registered, with no timer and no check to come. And a
session is deregistered behind the authentication of a heartbeat, which is answered with success. -/
theorem lease_races :
    let s := start.run sampleTokens (registered ++ [.tick sessionTTL, .fire 0, .check 0])
    let r := start.run sampleTokens (registered ++
      [.request (.heartbeat "t0" "home" none), .advance 1 "t1" .timer 0, .request (.deregister "t0" "home"),
        .advance 2 "t2" .timer 0, .advance 2 "t2" .timer 0])
    (s.st.realms "home" = some 0 ∧ s.timer 0 = none ∧ s.checks 0 = 0) ∧
      r.st.realms "home" = none ∧ r.st.calls.get 1 = .heartbeat 0 none ∧
      (r.run sampleTokens [.advance 1 "t3" .timer 0, .advance 1 "t4" .timer 0]).st.calls.get 1 = .replied .ttl := by
  decide +kernel

end Timed

end EtonifyCore.Realm
