/-
A URL test session accounts for every target, over whole runs of the service.

The run drops a result when the network or the eligible tags have changed since the probe began, and does not tell the
session: its status is then `completed` with a result missing (`reset_loses_result`).

- `Timely`: the network is not reset while a live session has a probe under way, and no live session comes to its terminal
  status after a change of the eligible tags, before the function that cancels it for this.
-/
import EtonifyCore.Daemon.URLTestCoverage

namespace EtonifyCore.Daemon

open Core (Table)
open Core.Table

variable {s : St} {i j : ℕ}

/-! ## What every session keeps -/

structure Kept (P : Session → Prop) : Prop where
  new : ∀ (r : Request) (generation : ℕ), P (r.session generation)
  act : ∀ (session : Session) (storage : Storage) (registered : Bool) (a : Act), P session →
    P (session.act storage registered a)
  finish : ∀ (session : Session) (kept : Bool), P session → session.phase = .reported →
    P { session with phase := .finished, completed := kept }

namespace Kept

variable {P : Session → Prop}

section

variable (h : Kept P) (hs : s.sessions.Forall P)
include h hs

theorem forall_act (i : ℕ) (a : Act) : (s.act i a).sessions.Forall P := by
  intro j hj
  apply get_set_cases
  · intro hji
    rw [← hji]
    exact h.act _ _ _ a (hs j hj)
  · intro _
    exact hs j hj

theorem forall_enter (r : Request) : (s.enter r).1.sessions.Forall P := by
  unfold St.enter
  cases s.registered r.key with
  | none => exact forall_push _ hs (h.new r _)
  | some i =>
    dsimp only
    split_ifs
    · exact hs
    · exact forall_push _ (h.forall_act hs i _) (h.new r _)

theorem forall_startURLTest (r : Request) : (s.startURLTest r).1.sessions.Forall P := by
  unfold St.startURLTest
  cases r.target with
  | none => exact h.forall_enter hs r
  | some tag =>
    cases s.owner r.groupTag with
    | none => exact h.forall_enter hs r
    | some i =>
      dsimp only
      split_ifs
      · exact h.forall_enter (h.forall_act (h.forall_act hs i _) i _) r
      · exact h.forall_act hs i _
      · exact h.forall_enter hs r

end

theorem forall_unregister (hs : s.sessions.Forall P) (i : ℕ) : (s.unregister i).sessions.Forall P := by
  unfold St.unregister
  split_ifs <;> exact hs

theorem forall_finish (h : Kept P) (hs : s.sessions.Forall P) (i : ℕ) : (s.finish i).sessions.Forall P := by
  have hset : (s.sessions.get i).phase = .reported → ∀ kept,
      (s.sessions.set i { s.sessions.get i with phase := .finished, completed := kept }).Forall P := by
    intro hphase kept j hj
    apply get_set_cases
    · intro hji
      exact h.finish _ kept (hji ▸ hs j hj) hphase
    · intro _
      exact hs j hj
  unfold St.finish
  dsimp only
  split_ifs with hphase
  · exact hset hphase _
  · exact forall_unregister (hset hphase _) i
  · exact hs

theorem forall_step (h : Kept P) (hs : s.sessions.Forall P) (op : Op) : (step s op).sessions.Forall P := by
  cases op with
  | startURLTest r => exact h.forall_startURLTest hs r
  | act i a =>
    unfold step
    dsimp only
    split_ifs
    · exact h.forall_act hs i a
    · exact hs
  | finish i =>
    unfold step
    dsimp only
    split_ifs
    · exact h.forall_finish hs i
    · exact hs
  | retire i | unregister i =>
    unfold step
    dsimp only
    split_ifs
    · exact forall_unregister hs i
    · exact hs
  | resetNetwork | setExcludedTags => exact hs

theorem run (h : Kept P) (ops : List Op) : (run ops).sessions.Forall P := by
  have hinit : (St.sessions {}).Forall P := fun i hi => absurd hi (Nat.not_lt_zero i)
  exact List.foldlRecOn (motive := fun s : St => s.sessions.Forall P) ops step hinit fun _ hs op _ => h.forall_step hs op

end Kept

theorem kept_counted : Kept Session.Counted where
  new r generation :=
    { nodup := r.nodup_targets
      probes := fun tag => by simp [Session.probeLoad, Session.load, Request.session, Queue.new, total, empty]
      results := fun tag => by simp [Session.resultLoad, Session.load, Request.session, Queue.new, total, empty]
      completed := rfl
      sum := rfl
      statuses := nofun }
  act _ _ _ a h := h.act _ _ a
  finish _ _ h _ := { h with }

/-! ## Invariant -/

theorem Request.sound_session (r : Request) (storage : Storage) : (r.session storage.generation).Sound storage true where
  context := nofun
  phase := ⟨rfl, rfl⟩
  kept := nofun
  registered _ _ := rfl
  worker _ w hw := absurd hw (Nat.not_lt_zero w)
  covered _ _ tag htag := by
    have hcount : 0 < r.targets.count tag := List.count_pos_iff.2 htag
    refine .inr (.inr ?_)
    exact lt_of_lt_of_le hcount (le_trans (Nat.le_add_right _ _) (Nat.le_add_right _ _))
  reported := nofun

def St.Good (s : St) : Prop := ∀ i < s.sessions.size, (s.sessions.get i).Sound s.storage (s.isCurrent i)

/-- a step comes at a time at which no result is dropped in silence -/
def Timely (s : St) : Op → Prop
  | .resetNetwork => ∀ i < s.sessions.size, (s.sessions.get i).Live →
      ∀ w < (s.sessions.get i).workers.size, ((s.sessions.get i).workers.get w).underWay = []
  | .act i a => a = .report → (s.sessions.get i).phase = .drained → (s.sessions.get i).Live →
      (s.sessions.get i).revision = some s.storage.revision
  | _ => True

instance (s : St) (op : Op) : Decidable (Timely s op) :=
  match op with
  | .resetNetwork => inferInstanceAs (Decidable (∀ i < _, _ → ∀ w < _, _ = _))
  | .act _ _ => inferInstanceAs (Decidable (_ = _ → _ = _ → _ → _ = _))
  | .startURLTest _ | .finish _ | .retire _ | .unregister _ | .setExcludedTags _ => isTrue trivial

namespace Session

variable {storage storage' : Storage} {registered registered' : Bool} {session : Session}

theorem key_act (a : Act) : (session.act storage registered a).key = session.key := by
  by_cases ha : a = .start
  · rw [ha]
    unfold act
    split_ifs <;> rfl
  · exact (later_act storage registered ha).key

theorem err_cancel (err : ContextErr) : (session.act storage registered (.cancel err)).err ≠ none := by
  change session.err.or (some err) ≠ none
  cases session.err <;> nofun

theorem Sound.of_registered (h : Sound storage registered session)
    (hregistered : session.err = none → ¬ session.Over → registered') : Sound storage registered' session :=
  { h with registered := hregistered }

theorem PhaseInv.mono (h : PhaseInv storage session) (hle : storage.revision ≤ storage'.revision) :
    PhaseInv storage' session := by
  have hstarted : Started storage session → Started storage' session := by
    intro hold
    obtain ⟨r, hr, hrevision⟩ := hold.revision
    exact ⟨hold.workers, r, hr.trans hle, hrevision⟩
  unfold PhaseInv at h ⊢
  cases hphase : session.phase <;> rw [hphase] at h
  case registered | announced => exact h
  case running => exact hstarted h
  case drained | reported | finished | ended => exact ⟨hstarted h.1, h.2⟩

theorem PhaseInv.revision_le (h : PhaseInv storage session) {r : ℕ} (hr : session.revision = some r) :
    r ≤ storage.revision := by
  have hstarted : Started storage session → r ≤ storage.revision := by
    intro hold
    obtain ⟨r', hle, hrevision⟩ := hold.revision
    rw [hr] at hrevision
    exact Option.some.inj hrevision ▸ hle
  unfold PhaseInv at h
  cases hphase : session.phase <;> rw [hphase] at h
  case registered | announced =>
    rw [h.2] at hr
    exact absurd hr nofun
  case running => exact hstarted h
  case drained | reported | finished | ended => exact hstarted h.1

section

variable (h : Sound storage registered session)
include h

theorem Sound.finish (hphase : session.phase = .reported) (kept : Bool) :
    Sound storage registered { session with phase := .finished, completed := kept } where
  __ := h
  phase := by
    have hinv := h.phase
    unfold PhaseInv at hinv
    rw [hphase] at hinv
    exact ⟨⟨hinv.1.workers, hinv.1.revision⟩, hinv.2⟩
  kept _ := .inl rfl
  registered _ hover := absurd (.inl rfl) hover
  worker hlive w hw := (h.worker hlive w hw).later ⟨rfl, rfl, rfl, rfl, id, id, id, fun _ => id⟩

theorem Sound.resetNetwork (generation : ℕ)
    (hquiet : session.Live → ∀ w < session.workers.size, (session.workers.get w).underWay = []) :
    Sound { storage with generation } registered session where
  __ := h
  phase := h.phase.mono le_rfl
  worker hlive w hw := by
    have hinv := h.worker hlive w hw
    exact ⟨fun hway => absurd (hquiet hlive w hw) hway, hinv.eligible, hinv.exited⟩

theorem Sound.setExcludedTags (tags : List Tag) :
    Sound { storage with revision := storage.revision + 1, excluded := tags } registered session where
  __ := h
  phase := h.phase.mono (Nat.le_succ _)
  worker hlive w hw := by
    have hinv := h.worker hlive w hw
    refine ⟨hinv.network, fun hrevision => ?_, hinv.exited⟩
    exact absurd (h.phase.revision_le hrevision) (Nat.not_succ_le_self _)
  covered hlive hrevision := by
    refine h.covered hlive (.inl (hrevision.resolve_right fun hnew => ?_))
    exact absurd (h.phase.revision_le hnew) (Nat.not_succ_le_self _)

end

end Session

namespace St

theorem Good.set (h : s.Good) {session : Session} (hkey : session.key = (s.sessions.get i).key)
    (hsound : i < s.sessions.size → session.Sound s.storage (s.isCurrent i)) :
    Good { s with sessions := s.sessions.set i session } := by
  have hkeys := apply_get_set s.sessions Session.key hkey
  intro j hj
  have hcurrent : isCurrent { s with sessions := s.sessions.set i session } j = s.isCurrent j := by
    unfold isCurrent
    rw [hkeys]
  rw [hcurrent]
  change Session.Sound s.storage (s.isCurrent j) ((s.sessions.set i session).get j)
  apply get_set_cases
  · intro hji
    rw [hji] at hj ⊢
    exact hsound hj
  · intro _
    exact h j hj

theorem Good.act (h : s.Good) (i : ℕ) (a : Act) (htimely : Timely s (.act i a)) : (s.act i a).Good := by
  exact h.set (Session.key_act a) fun hi => (h i hi).act a htimely

theorem isCurrent_iff : s.isCurrent i ↔ s.registered (s.sessions.get i).key = some i := by
  exact decide_eq_true_iff

theorem Good.register (h : s.Good) (r : Request)
    (hfree : ∀ i, s.registered r.key = some i → (s.sessions.get i).err ≠ none) : (s.register r).Good := by
  have hmap : (s.register r).registered = Function.update s.registered r.key (some s.sessions.size) := rfl
  obtain ⟨hold, hnew, -, hsplit⟩ := push_facts s.sessions
    (show (s.register r).sessions = s.sessions.push (r.session s.storage.generation) from rfl)
  intro i hi
  rcases hsplit i hi with hlt | rfl
  · rw [hold i hlt]
    refine (h i hlt).of_registered fun herr hover => ?_
    have hcurrent := isCurrent_iff.1 ((h i hlt).registered herr hover)
    have hkey : (s.sessions.get i).key ≠ r.key := fun hkey => hfree i (hkey ▸ hcurrent) herr
    rw [isCurrent_iff, hold i hlt, hmap, Function.update_of_ne hkey, hcurrent]
  · have hcurrent : (s.register r).isCurrent s.sessions.size := by
      rw [isCurrent_iff, hnew, hmap]
      exact Function.update_self _ _ _
    rw [hnew, hcurrent]
    exact r.sound_session s.storage

theorem Good.unregister (h : s.Good) (i : ℕ)
    (hgone : (s.sessions.get i).err = none → (s.sessions.get i).Over) : (s.unregister i).Good := by
  unfold St.unregister
  split_ifs with hcurrent
  · rw [isCurrent_iff] at hcurrent
    intro j hj
    refine (h j hj).of_registered fun herr hover => ?_
    -- another session of the same key is not in the map, so it is cancelled or over
    have hcurrent' := isCurrent_iff.1 ((h j hj).registered herr hover)
    have hkey : (s.sessions.get j).key ≠ (s.sessions.get i).key := by
      intro hkey
      rw [hkey, hcurrent] at hcurrent'
      obtain rfl := Option.some.inj hcurrent'
      exact hover (hgone herr)
    rw [isCurrent_iff]
    exact (Function.update_of_ne hkey _ _).trans hcurrent'
  · exact h

theorem Good.enter (h : s.Good) (r : Request) : (s.enter r).1.Good := by
  unfold St.enter
  cases hregistered : s.registered r.key with
  | none => exact h.register r fun i hi => absurd (hregistered.symm.trans hi) nofun
  | some i =>
    dsimp only
    split_ifs
    · exact h
    · refine (h.act i (.cancel .canceled) nofun).register r fun j hj => ?_
      obtain rfl := Option.some.inj (hregistered.symm.trans hj)
      change ((s.sessions.set i _).get i).err ≠ none
      rw [get_set_self]
      exact Session.err_cancel _

theorem Good.startURLTest (h : s.Good) (r : Request) : (s.startURLTest r).1.Good := by
  unfold St.startURLTest
  cases r.target with
  | none => exact h.enter r
  | some tag =>
    cases s.owner r.groupTag with
    | none => exact h.enter r
    | some i =>
      dsimp only
      split_ifs
      · exact ((h.act i (.remove tag) nofun).act i (.suppress tag) nofun).enter r
      · exact h.act i (.prioritize tag) nofun
      · exact h.enter r

theorem Good.finish (h : s.Good) (i : ℕ) : (s.finish i).Good := by
  have hset : (s.sessions.get i).phase = .reported → ∀ kept, Good { s with
      sessions := s.sessions.set i { s.sessions.get i with phase := .finished, completed := kept } } :=
    fun hphase kept => h.set rfl fun hi => (h i hi).finish hphase kept
  unfold St.finish
  dsimp only
  split_ifs with hphase
  · exact hset hphase _
  · refine (hset hphase _).unregister i fun _ => .inl ?_
    rw [get_set_self]
  · exact h

end St

theorem step_good (h : s.Good) (op : Op) (htimely : Timely s op) : (step s op).Good := by
  cases op with
  | startURLTest r => exact h.startURLTest r
  | act i a =>
    unfold step
    dsimp only
    split_ifs
    · exact h.act i a htimely
    · exact h
  | finish i =>
    unfold step
    dsimp only
    split_ifs
    · exact h.finish i
    · exact h
  | retire i =>
    unfold step
    dsimp only
    split_ifs with hi
    · exact h.unregister i fun _ => (h i hi.1).kept hi.2
    · exact h
  | unregister i =>
    unfold step
    dsimp only
    split_ifs with hi
    · refine h.unregister i fun herr => ?_
      rw [herr] at hi
      exact absurd hi.2 Bool.false_ne_true
    · exact h
  | resetNetwork => exact fun i hi => (h i hi).resetNetwork _ (htimely i hi)
  | setExcludedTags tags => exact fun i hi => (h i hi).setExcludedTags tags

def RunTimely : St → List Op → Prop
  | _, [] => True
  | s, op :: ops => Timely s op ∧ RunTimely (step s op) ops

instance RunTimely.decidable : ∀ s ops, Decidable (RunTimely s ops)
  | _, [] => isTrue trivial
  | s, op :: ops => @instDecidableAnd _ _ _ (RunTimely.decidable (step s op) ops)

theorem foldl_good {ops : List Op} (h : s.Good) (htimely : RunTimely s ops) : (ops.foldl step s).Good := by
  induction ops generalizing s with
  | nil => exact h
  | cons op ops ih => exact ih (step_good h op htimely.1) htimely.2

theorem run_good {ops : List Op} (htimely : RunTimely {} ops) : (run ops).Good :=
  foldl_good (fun i hi => absurd hi (Nat.not_lt_zero i)) htimely

/-! ## Every target is accounted for -/

/-- each tag is probed at most once and recorded at most once, and the counts of every status add up -/
structure Session.Once (session : Session) : Prop where
  probed : session.probed.Nodup
  recorded : (session.recorded.map Prod.fst).Nodup
  statuses : ∀ status ∈ session.statuses,
    status.completed = status.available + status.unavailable ∧ status.completed ≤ status.total

/-- a terminal status `completed` means that every target has a result, or was taken by a forced test -/
def Session.Complete (session : Session) : Prop :=
  ∀ status ∈ session.statuses, status.terminalReason = some .completed → ∀ tag ∈ session.targets, session.Settled tag

theorem Session.Counted.once {session : Session} (h : session.Counted) : session.Once := by
  have htargets := fun tag => List.nodup_iff_count_le_one.1 h.nodup tag
  refine ⟨List.nodup_iff_count_le_one.2 fun tag => ?_, List.nodup_iff_count_le_one.2 fun tag => ?_, h.statuses⟩
  · calc session.probed.count tag ≤ session.probeLoad tag := Nat.le_add_left _ _
      _ ≤ session.targets.count tag := h.probes tag
      _ ≤ 1 := htargets tag
  · exact (h.count_recorded_le tag).trans (htargets tag)

/-- **Sessions account for every target**: probed and recorded at most once, and if the steps come in time, a completed
session has all results. -/
theorem session_accounts (ops : List Op) (i : ℕ) (hi : i < (run ops).sessions.size) :
    ((run ops).sessions.get i).Once ∧ (RunTimely {} ops → ((run ops).sessions.get i).Complete) :=
  ⟨(kept_counted.run ops i hi).once, fun htimely => (run_good htimely i hi).reported⟩

def probingRun : List Op :=
  [.startURLTest ⟨['g'], none, [['a']], false, 4, by decide⟩, .act 0 .announce, .act 0 .start, .act 0 (.worker 0),
    .act 0 (.worker 0), .act 0 (.worker 0), .act 0 (.worker 0), .act 0 (.worker 0)]

def answerRun (steps : ℕ) : List Op :=
  [.act 0 (.returned 0 true)] ++ List.replicate steps (.act 0 (.worker 0)) ++ [.act 0 .drain, .act 0 .report]

theorem session_accounts_sample :
    ((run (probingRun ++ answerRun 7)).sessions.get 0).Complete ∧
      ((run (probingRun ++ answerRun 7)).sessions.get 0).recorded = [(['a'], true)] :=
  ⟨(session_accounts (probingRun ++ answerRun 7) 0 (by decide +kernel)).2 (by decide +kernel), by decide +kernel⟩

/-- the network is reset while the only probe is under way: the session completes without a result -/
theorem reset_loses_result :
    ¬ ((run (probingRun ++ [.resetNetwork] ++ answerRun 5)).sessions.get 0).Complete ∧
      ((run (probingRun ++ [.resetNetwork] ++ answerRun 5)).sessions.get 0).statuses =
        [⟨none, 1, 0, 0, 0⟩, ⟨some .completed, 1, 0, 0, 0⟩] := by
  have hstatuses : ((run (probingRun ++ [.resetNetwork] ++ answerRun 5)).sessions.get 0).statuses =
      [⟨none, 1, 0, 0, 0⟩, ⟨some .completed, 1, 0, 0, 0⟩] := by decide +kernel
  refine ⟨fun h => ?_, hstatuses⟩
  have hsettled := h ⟨some .completed, 1, 0, 0, 0⟩ (by rw [hstatuses]; decide) rfl ['a'] (by decide +kernel)
  revert hsettled
  unfold Session.Settled
  decide +kernel

end EtonifyCore.Daemon
