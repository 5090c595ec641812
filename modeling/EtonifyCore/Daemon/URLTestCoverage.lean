/-
A live URL test session loses no target.

As long as nothing has cancelled a session, each of its targets is in the queue, with a worker, recorded, or lost to a forced
test. A result may be dropped because the session was replaced or its context is done, which comes with a cancelled session,
or because the network or the eligible tags have changed, which need not.

- `Sound.act`: the invariant of a session, kept by every step, if a session that comes to its terminal status without being
  cancelled still has the revision of the eligible tags that it has started with.
-/
import EtonifyCore.Daemon.URLTestAccounts

namespace EtonifyCore.Daemon

open Function List
open Core (Table)

namespace Worker

/-- the target of a worker that has found the network to be that of the session, and has not stored -/
def underWay : Worker → List Tag
  | probing tag | answered tag _ | current tag _ | live tag _ | wanted tag _ => [tag]
  | _ => []

/-- the target of a worker that has found it to be eligible, and has not stored -/
def checked : Worker → List Tag
  | eligible tag => [tag]
  | worker => worker.underWay

end Worker

namespace Session

variable {s s' : Session} {w : ℕ} {tag : Tag} {storage : Storage} {registered : Bool}

def Live (s : Session) : Prop := s.err = none ∧ s.cancelReason = none

instance (s : Session) : Decidable s.Live := inferInstanceAs (Decidable (_ ∧ _))

theorem terminalReason_completed : s.terminalReason = .completed ↔ s.Live := by
  unfold terminalReason Live
  cases s.cancelReason <;> rcases s.err with _ | _ | _ <;> simp

def Settled (s : Session) (tag : Tag) : Prop :=
  tag ∈ s.removed ∨ tag ∈ s.suppressed ∨ tag ∈ s.recorded.map Prod.fst

/-! ## Workers -/

structure WorkerInv (storage : Storage) (s : Session) (worker : Worker) : Prop where
  network : worker.underWay ≠ [] → s.generation = storage.generation
  eligible : s.revision = some storage.revision → ∀ tag ∈ worker.checked, tag ∉ storage.excluded
  exited : worker = .exited → s.queue.pending = []

structure Later (s s' : Session) : Prop where
  key : s'.key = s.key
  targets : s'.targets = s.targets
  generation : s'.generation = s.generation
  revision : s'.revision = s.revision
  live : s'.Live → s.Live
  err : s'.err = none → s.err = none
  pending : s.queue.pending = [] → s'.queue.pending = []
  settled : ∀ tag, s.Settled tag → s'.Settled tag

theorem WorkerInv.later {worker : Worker} (h : WorkerInv storage s worker) (hlater : Later s s') :
    WorkerInv storage s' worker where
  network hway := hlater.generation ▸ h.network hway
  eligible hrevision := h.eligible (hlater.revision ▸ hrevision)
  exited hexited := hlater.pending (h.exited hexited)

theorem Later.refl (s : Session) : Later s s := ⟨rfl, rfl, rfl, rfl, id, id, id, fun _ => id⟩

theorem Later.setWorker (h : Later s s') (worker : Worker) : Later s (s'.setWorker w worker) := { h with }

theorem later_setReason (reason : CancelReason) : Later s (s.setReason reason) := by
  refine ⟨rfl, rfl, rfl, rfl, fun h => ?_, id, id, fun _ => id⟩
  refine ⟨h.1, ?_⟩
  have hreason : s.cancelReason.or (some reason) = none := h.2
  exact (Option.or_eq_none_iff.1 hreason).1

theorem later_cancel (err : ContextErr) : Later s (s.cancel err) := by
  have herr : (s.cancel err).err ≠ none := by
    change s.err.or (some err) ≠ none
    cases s.err <;> nofun
  exact ⟨rfl, rfl, rfl, rfl, fun h => absurd h.1 herr, fun h => absurd h herr, id, fun _ => id⟩

theorem later_recordResult (tag : Tag) (available : Bool) : Later s (s.recordResult tag available) := by
  refine ⟨rfl, rfl, rfl, rfl, id, id, id, fun tag' h => ?_⟩
  rcases h with h | h | h
  · exact .inl h
  · exact .inr (.inl h)
  · refine .inr (.inr ?_)
    rw [recordResult, map_append]
    exact mem_append_left _ h

theorem later_workerStep : Later s (s.workerStep storage registered w) := by
  unfold workerStep
  cases s.workers.get w with
  | ready =>
    dsimp only
    split_ifs
    · exact (Later.refl s).setWorker _
    · unfold Queue.take
      cases hpending : s.queue.pending with
      | nil => exact (Later.refl s).setWorker _
      | cons tag rest =>
        refine ⟨rfl, rfl, rfl, rfl, id, id, fun h => ?_, fun _ => id⟩
        rw [hpending] at h
        exact absurd h (cons_ne_nil _ _)
  | refusing => exact (later_setReason _).setWorker _
  | cancelling => exact (later_cancel _).setWorker _
  | stored => exact (later_recordResult _ _).setWorker _
  | reporting => exact { Later.refl s with }
  | probing | exited => exact .refl s
  | eligible | cancelled | wanted =>
    dsimp only
    split_ifs <;> exact ⟨rfl, rfl, rfl, rfl, id, id, id, fun _ => id⟩
  | _ => exact (Later.refl s).setWorker _

theorem later_act (storage : Storage) (registered : Bool) {a : Act} (ha : a ≠ .start) : Later s (s.act storage registered a) := by
  cases a with
  | worker w =>
    unfold act
    dsimp only
    split_ifs
    · exact later_workerStep
    · exact .refl s
  | returned w available =>
    unfold act
    dsimp only
    cases s.workers.get w with
    | probing tag =>
      dsimp only
      split_ifs
      · exact (Later.refl s).setWorker _
      · exact .refl s
    | _ => exact .refl s
  | prioritize tag =>
    refine ⟨rfl, rfl, rfl, rfl, id, id, fun h => ?_, fun _ => id⟩
    have hperm := perm_prioritize s.queue tag
    rw [h] at hperm
    exact hperm.eq_nil
  | remove tag =>
    refine ⟨rfl, rfl, rfl, rfl, id, id, fun h => ?_, fun tag' h => ?_⟩
    · change s.queue.pending.erase tag = []
      rw [h, erase_nil]
    · exact h.imp_left (mem_cons_of_mem _)
  | suppress tag => exact ⟨rfl, rfl, rfl, rfl, id, id, id, fun _ h => h.imp_right (Or.imp_left (mem_cons_of_mem _))⟩
  | requestCancel reason => exact later_setReason reason
  | cancel err => exact later_cancel err
  | start => exact absurd rfl ha
  | release =>
    unfold act
    dsimp only
    split_ifs
    · exact { later_cancel (s := s) .canceled with }
    · exact .refl s
  | propagate | announce | drain | report =>
    unfold act
    dsimp only
    split_ifs <;> exact { Later.refl s with }

theorem workerInv_idle {worker : Worker} (hchecked : worker.checked = []) (hexited : worker ≠ .exited) :
    WorkerInv storage s worker where
  network hway := by cases worker <;> simp_all [Worker.checked, Worker.underWay]
  eligible _ := by simp [hchecked]
  exited h := absurd h hexited

theorem WorkerInv.moves {worker worker' : Worker} (h : WorkerInv storage s worker) (hway : worker'.underWay = worker.underWay)
    (hchecked : worker'.checked = worker.checked) (hexited : worker' ≠ .exited) : WorkerInv storage s worker' where
  network := hway ▸ h.network
  eligible := hchecked ▸ h.eligible
  exited h := absurd h hexited

@[simp] theorem get_setWorker (worker : Worker) : (s.setWorker w worker).workers.get w = worker := update_self _ _ _

theorem get_setWorker_of_ne {v : ℕ} (worker : Worker) (h : v ≠ w) : (s.setWorker w worker).workers.get v = s.workers.get v :=
  update_of_ne h _ _

theorem workerInv_workerStep (h : WorkerInv storage s (s.workers.get w)) (hrun : s.runDone = false) :
    WorkerInv storage s ((s.workerStep storage registered w).workers.get w) := by
  unfold workerStep
  cases hworker : s.workers.get w with
  | ready =>
    dsimp only
    rw [hrun, if_neg Bool.false_ne_true]
    unfold Queue.take
    cases hpending : s.queue.pending with
    | nil =>
      rw [get_setWorker]
      exact ⟨by simp [Worker.underWay], by simp [Worker.checked, Worker.underWay], fun _ => hpending⟩
    | cons tag rest =>
      rw [get_setWorker]
      exact workerInv_idle rfl nofun
  | took | starting =>
    rw [get_setWorker, hrun]
    exact workerInv_idle rfl nofun
  | refusing | cancelling | stored | reporting =>
    rw [get_setWorker]
    exact workerInv_idle rfl nofun
  | alive tag =>
    rw [get_setWorker]
    split_ifs with hexcluded
    · exact workerInv_idle rfl nofun
    · exact ⟨by simp [Worker.underWay], fun _ => by simpa [Worker.checked] using hexcluded, nofun⟩
  | eligible tag =>
    dsimp only
    split_ifs with hnetwork <;> rw [get_setWorker]
    · exact workerInv_idle rfl nofun
    · rw [hworker] at h
      exact ⟨fun _ => not_not.1 hnetwork, h.eligible, nofun⟩
  | cancelled tag =>
    dsimp only
    rw [hrun, if_neg Bool.false_ne_true]
    exact h
  | probing | exited => exact h
  | answered | current | live =>
    rw [get_setWorker]
    split_ifs
    all_goals first
      | exact workerInv_idle rfl nofun
      | exact (hworker ▸ h).moves rfl rfl nofun
  | wanted tag available =>
    dsimp only
    split_ifs <;> rw [get_setWorker] <;> exact workerInv_idle rfl nofun

theorem workerStep_frame : (s.workerStep storage registered w).workers.size = s.workers.size ∧
    ∀ v, v ≠ w → (s.workerStep storage registered w).workers.get v = s.workers.get v := by
  unfold workerStep
  cases s.workers.get w with
  | ready =>
    dsimp only
    split_ifs
    · exact ⟨rfl, fun v hv => get_setWorker_of_ne _ hv⟩
    · cases s.queue.take <;> exact ⟨rfl, fun v hv => update_of_ne hv _ _⟩
  | eligible | wanted =>
    dsimp only
    split_ifs <;> exact ⟨rfl, fun v hv => update_of_ne hv _ _⟩
  | cancelled =>
    dsimp only
    split_ifs
    · exact ⟨rfl, fun v hv => get_setWorker_of_ne _ hv⟩
    · exact ⟨rfl, fun _ _ => rfl⟩
  | probing | exited => exact ⟨rfl, fun _ _ => rfl⟩
  | _ => exact ⟨rfl, fun v hv => update_of_ne hv _ _⟩

theorem act_workers (s : Session) (storage : Storage) (registered : Bool) {a : Act} (ha : a ≠ .start) :
    (s.act storage registered a).workers.size = s.workers.size ∧
    ∀ v, (s.act storage registered a).workers.get v = s.workers.get v ∨
      (a = .worker v ∧ (s.act storage registered a).workers.get v = (s.workerStep storage registered v).workers.get v) ∨
      ∃ tag available, s.workers.get v = .probing tag ∧ (s.act storage registered a).workers.get v = .answered tag available := by
  cases a with
  | worker w =>
    unfold act
    dsimp only
    split_ifs
    · refine ⟨workerStep_frame.1, fun v => ?_⟩
      by_cases hv : v = w
      · exact .inr (.inl ⟨by rw [hv], by rw [hv]⟩)
      · exact .inl (workerStep_frame.2 v hv)
    · exact ⟨rfl, fun _ => .inl rfl⟩
  | returned w available =>
    unfold act
    dsimp only
    cases hworker : s.workers.get w with
    | probing tag =>
      dsimp only
      split_ifs
      · refine ⟨rfl, fun v => ?_⟩
        by_cases hv : v = w
        · rw [hv, get_setWorker]
          exact .inr (.inr ⟨tag, available, hworker, rfl⟩)
        · exact .inl (get_setWorker_of_ne _ hv)
      · exact ⟨rfl, fun _ => .inl rfl⟩
    | _ => exact ⟨rfl, fun _ => .inl rfl⟩
  | start => exact absurd rfl ha
  | propagate | announce | drain | report | release =>
    unfold act
    dsimp only
    split_ifs <;> exact ⟨rfl, fun _ => .inl rfl⟩
  | _ => exact ⟨rfl, fun _ => .inl rfl⟩

theorem exited_act {a : Act} (ha : a ≠ .start) (h : s.workers.get w = .exited) :
    (s.act storage registered a).workers.get w = .exited := by
  rcases (act_workers s storage registered ha).2 w with hget | ⟨-, hget⟩ | ⟨_, _, hprobing, -⟩
  · rw [hget, h]
  · rw [hget, workerStep, h]
    exact h
  · rw [h] at hprobing
    exact absurd hprobing nofun

theorem workerInv_act {a : Act} (ha : a ≠ .start) (h : ∀ w < s.workers.size, WorkerInv storage s (s.workers.get w))
    (hrun : s.runDone = false) : ∀ w < (s.act storage registered a).workers.size,
      WorkerInv storage (s.act storage registered a) ((s.act storage registered a).workers.get w) := by
  intro w hw
  have hworkers := act_workers s storage registered ha
  have hinv := h w (hworkers.1 ▸ hw)
  refine WorkerInv.later ?_ (later_act storage registered ha)
  rcases hworkers.2 w with hget | ⟨-, hget⟩ | ⟨tag, available, hprobing, hget⟩ <;> rw [hget]
  · exact hinv
  · exact workerInv_workerStep hinv hrun
  · exact (hprobing ▸ hinv).moves rfl rfl nofun

/-! ## Invariant of a session -/

structure Started (storage : Storage) (s : Session) : Prop where
  workers : s.targets ≠ [] → 0 < s.workers.size
  revision : ∃ r ≤ storage.revision, s.revision = some r

def PhaseInv (storage : Storage) (s : Session) : Prop :=
  match s.phase with
  | .registered | .announced => s.workers.size = 0 ∧ s.revision = none
  | .running => Started storage s
  | .drained | .reported | .finished | .ended => Started storage s ∧ ∀ w < s.workers.size, s.workers.get w = .exited

/-- the session is not in the map any more, or may be taken out of it -/
def Over (s : Session) : Prop := s.phase = .finished ∨ s.phase = .ended

/-- a target is in the queue, with a worker, recorded, or lost to a forced test -/
def Covered (s : Session) (tag : Tag) : Prop := tag ∈ s.removed ∨ tag ∈ s.suppressed ∨ 0 < s.resultLoad tag

theorem Settled.covered (h : s.Settled tag) : s.Covered tag := by
  rcases h with hremoved | hsuppressed | hrecorded
  · exact .inl hremoved
  · exact .inr (.inl hsuppressed)
  · have hcount : 0 < (s.recorded.map Prod.fst).count tag := count_pos_iff.2 hrecorded
    refine .inr (.inr ?_)
    unfold resultLoad load
    dsimp only
    omega

structure Sound (storage : Storage) (registered : Bool) (s : Session) : Prop where
  context : s.runDone = true → s.err ≠ none
  phase : PhaseInv storage s
  kept : s.completed = true → s.Over
  registered : s.err = none → ¬ s.Over → registered = true
  worker : s.Live → ∀ w < s.workers.size, WorkerInv storage s (s.workers.get w)
  covered : s.Live → s.revision = none ∨ s.revision = some storage.revision → ∀ tag ∈ s.targets, s.Covered tag
  reported : ∀ status ∈ s.statuses, status.terminalReason = some .completed → ∀ tag ∈ s.targets, s.Settled tag

theorem Started.of_eq (h : Started storage s) (htargets : s'.targets = s.targets) (hsize : s'.workers.size = s.workers.size)
    (hrevision : s'.revision = s.revision) : Started storage s' where
  workers := by rw [htargets, hsize]; exact h.workers
  revision := by rw [hrevision]; exact h.revision

section

variable (h : Sound storage registered s)
include h

theorem Sound.not_over (hw : w < s.workers.size) (hexited : s.workers.get w ≠ .exited) : s.phase = .running := by
  have hphase := h.phase
  unfold PhaseInv at hphase
  cases hrun : s.phase <;> rw [hrun] at hphase
  case registered | announced => omega
  case drained | reported | finished | ended => exact absurd (hphase.2 w hw) hexited

theorem Sound.revision_ne_none (hw : w < s.workers.size) : s.revision ≠ none := by
  have hphase := h.phase
  unfold PhaseInv at hphase
  cases hrun : s.phase <;> rw [hrun] at hphase
  case registered | announced => omega
  case running =>
    obtain ⟨r, -, hr⟩ := hphase.revision
    exact hr ▸ nofun
  case drained | reported | finished | ended =>
    obtain ⟨r, -, hr⟩ := hphase.1.revision
    exact hr ▸ nofun

theorem Sound.drops (hlive : s.Live)
    (hrevision : s.revision = none ∨ s.revision = some storage.revision) (hw : w < s.workers.size)
    (hdrops : Drops storage registered s w tag) : tag ∈ s.suppressed := by
  rcases hdrops with hdone | ⟨hregistered, hexited⟩ | hsuppressed | ⟨available, hworker, hrefuses⟩
  · exact absurd hlive.1 (h.context hdone)
  · have hrunning := h.not_over hw hexited
    have := h.registered hlive.1 fun hover => by
      rcases hover with hover | hover <;> rw [hrunning] at hover <;> exact absurd hover nofun
    rw [hregistered] at this
    exact absurd this Bool.false_ne_true
  · exact hsuppressed
  · have hinv := h.worker hlive w hw
    have hcurrent := hrevision.resolve_left (h.revision_ne_none hw)
    rw [hworker] at hinv
    rcases hrefuses with hnetwork | hchanged | hexcluded
    · exact absurd (hinv.network (cons_ne_nil _ _)) hnetwork
    · exact absurd hcurrent hchanged
    · exact absurd hexcluded (hinv.eligible hcurrent tag mem_cons_self)

theorem Sound.settled (hlive : s.Live) (hphase : s.phase = .drained)
    (hrevision : s.revision = some storage.revision) (htag : tag ∈ s.targets) : s.Settled tag := by
  have hinv := h.phase
  unfold PhaseInv at hinv
  rw [hphase] at hinv
  obtain ⟨hstarted, hexited⟩ := hinv
  have hsize := hstarted.workers (ne_nil_of_mem htag)
  have hpending := (h.worker hlive 0 hsize).exited (hexited 0 hsize)
  have htotal : s.workers.total (fun worker => worker.target.count tag) = 0 := by
    apply Table.total_eq_zero
    intro w hw
    rw [hexited w hw]
    rfl
  rcases h.covered hlive (.inr hrevision) tag htag with hremoved | hsuppressed | hload
  · exact .inl hremoved
  · exact .inr (.inl hsuppressed)
  · refine .inr (.inr (count_pos_iff.1 ?_))
    unfold resultLoad load at hload
    rw [hpending, htotal, count_nil, Nat.zero_add] at hload
    exact hload

end

/-! ### What a step keeps -/

structure SameRun (s s' : Session) : Prop where
  full : s'.full = s.full
  completed : s'.completed = s.completed
  phase : s'.phase = s.phase
  runDone : s'.runDone = s.runDone

theorem sameRun_workerStep : SameRun s (s.workerStep storage registered w) := by
  unfold workerStep
  cases s.workers.get w with
  | ready =>
    dsimp only
    split_ifs
    · exact ⟨rfl, rfl, rfl, rfl⟩
    · cases s.queue.take <;> exact ⟨rfl, rfl, rfl, rfl⟩
  | eligible | cancelled | wanted =>
    dsimp only
    split_ifs <;> exact ⟨rfl, rfl, rfl, rfl⟩
  | _ => exact ⟨rfl, rfl, rfl, rfl⟩

theorem act_run (s : Session) (storage : Storage) (registered : Bool) (a : Act) :
    (SameRun s (s.act storage registered a) ∧ (a = .start → s.act storage registered a = s)) ∨ (a = .propagate ∧ s.err ≠ none) ∨ (a = .announce ∧ s.phase = .registered) ∨
      (a = .start ∧ s.phase = .announced) ∨
      (a = .drain ∧ s.phase = .running ∧ ∀ w < s.workers.size, s.workers.get w = .exited) ∨
      (a = .report ∧ s.phase = .drained) ∨ (a = .release ∧ s.phase = .finished) := by
  cases a with
  | worker w =>
    unfold act
    dsimp only
    split_ifs
    · exact .inl ⟨sameRun_workerStep, nofun⟩
    · exact .inl ⟨⟨rfl, rfl, rfl, rfl⟩, nofun⟩
  | returned w available =>
    unfold act
    dsimp only
    cases s.workers.get w with
    | probing tag =>
      dsimp only
      split_ifs <;> exact .inl ⟨⟨rfl, rfl, rfl, rfl⟩, nofun⟩
    | _ => exact .inl ⟨⟨rfl, rfl, rfl, rfl⟩, nofun⟩
  | propagate =>
    unfold act
    dsimp only
    split_ifs with h
    · exact .inr (.inl ⟨rfl, Option.isSome_iff_ne_none.1 h⟩)
    · exact .inl ⟨⟨rfl, rfl, rfl, rfl⟩, nofun⟩
  | announce | start | drain | report | release =>
    unfold act
    dsimp only
    split_ifs with h
    · simpa using .inr h
    · exact .inl ⟨⟨rfl, rfl, rfl, rfl⟩, fun _ => rfl⟩
  | _ => exact .inl ⟨⟨rfl, rfl, rfl, rfl⟩, nofun⟩

theorem completed_act (a : Act) : (s.act storage registered a).completed = s.completed := by
  rcases act_run s storage registered a with ⟨h, -⟩ | ⟨rfl, h⟩ | ⟨rfl, h⟩ | ⟨rfl, h⟩ | ⟨rfl, h⟩ | ⟨rfl, h⟩ | ⟨rfl, h⟩
  · exact h.completed
  all_goals
    unfold act
    dsimp only
    split_ifs <;> rfl

theorem runDone_act {a : Act} (h : (s.act storage registered a).runDone) : s.runDone ∨ s.err ≠ none := by
  rcases act_run s storage registered a with ⟨hsame, hstart⟩ | ⟨rfl, herr⟩ | ⟨rfl, hphase⟩ | ⟨rfl, hphase⟩ | ⟨rfl, hphase⟩ |
    ⟨rfl, hphase⟩ | ⟨rfl, hphase⟩
  · exact .inl (hsame.runDone ▸ h)
  · exact .inr herr
  all_goals
    unfold act at h
    dsimp only at h
    rw [if_pos hphase] at h
    exact .inl h

theorem over_act (storage : Storage) (registered : Bool) (a : Act) (h : s.Over) : (s.act storage registered a).Over := by
  unfold Over at h ⊢
  rcases act_run s storage registered a with ⟨hsame, -⟩ | ⟨rfl, -⟩ | ⟨rfl, hphase⟩ | ⟨rfl, hphase⟩ | ⟨rfl, hphase⟩ |
    ⟨rfl, hphase⟩ | ⟨rfl, hphase⟩
  · rwa [hsame.phase]
  · unfold act
    dsimp only
    split_ifs <;> exact h
  · simp [hphase] at h
  · simp [hphase] at h
  · simp [hphase.1] at h
  · simp [hphase] at h
  · unfold act
    dsimp only
    rw [if_pos hphase]
    exact .inr rfl

theorem PhaseInv.of_eq (h : PhaseInv storage s) (hphase : s'.phase = s.phase) (htargets : s'.targets = s.targets)
    (hrevision : s'.revision = s.revision) (hsize : s'.workers.size = s.workers.size)
    (hexited : ∀ w, s.workers.get w = .exited → s'.workers.get w = .exited) : PhaseInv storage s' := by
  unfold PhaseInv at h ⊢
  rw [hphase]
  cases hrun : s.phase <;> rw [hrun] at h <;> dsimp only at h ⊢
  case registered | announced => rwa [hsize, hrevision]
  case running => exact h.of_eq htargets hsize hrevision
  case drained | reported | finished | ended =>
    exact ⟨h.1.of_eq htargets hsize hrevision, fun w hw => hexited w (h.2 w (hsize ▸ hw))⟩

theorem phaseInv_act (registered : Bool) (a : Act) (h : PhaseInv storage s) : PhaseInv storage (s.act storage registered a) := by
  rcases act_run s storage registered a with ⟨hsame, hstart⟩ | ⟨rfl, herr⟩ | ⟨rfl, hphase⟩ | ⟨rfl, hphase⟩ | ⟨rfl, hphase⟩ |
    ⟨rfl, hphase⟩ | ⟨rfl, hphase⟩
  · by_cases ha : a = .start
    · rwa [hstart ha]
    · have hlater := later_act (s := s) storage registered ha
      exact h.of_eq hsame.phase hlater.targets hlater.revision (act_workers s storage registered ha).1 fun w => exited_act ha
  · unfold act
    dsimp only
    split_ifs
    · exact h.of_eq rfl rfl rfl rfl fun _ => id
    · exact h
  all_goals unfold PhaseInv at h ⊢
  · unfold act
    dsimp only
    rw [if_pos hphase]
    rw [hphase] at h
    exact h
  · unfold act
    dsimp only
    rw [if_pos hphase]
    refine ⟨fun htargets => ?_, storage.revision, le_rfl, rfl⟩
    have hlength : 0 < s.targets.length := length_pos_iff.2 htargets
    change 0 < min (max s.concurrency 1) s.targets.length
    omega
  · unfold act
    dsimp only
    rw [if_pos hphase]
    rw [hphase.1] at h
    exact ⟨⟨h.workers, h.revision⟩, hphase.2⟩
  all_goals
    unfold act
    dsimp only
    rw [if_pos hphase]
    rw [hphase] at h
    exact ⟨⟨h.1.workers, h.1.revision⟩, h.2⟩

theorem Sound.act_of_ne (h : Sound storage registered s) {a : Act} (ha : a ≠ .start)
    (hreport : a = .report → s.phase = .drained → s.Live → s.revision = some storage.revision) :
    Sound storage registered (s.act storage registered a) := by
  have hlater := later_act (s := s) storage registered ha
  refine ⟨fun hdone => ?_, phaseInv_act registered a h.phase, fun hkept => ?_, fun herr hover => ?_, fun hlive => ?_,
    fun hlive hrevision tag htag => ?_, fun status hstatus hcompleted tag htag => ?_⟩
  · rcases runDone_act hdone with hold | herr
    · exact mt hlater.err (h.context hold)
    · exact mt hlater.err herr
  · rw [completed_act] at hkept
    exact over_act storage registered a (h.kept hkept)
  · exact h.registered (hlater.err herr) (mt (over_act storage registered a) hover)
  · have hold := hlater.live hlive
    have hrun : s.runDone = false := Bool.eq_false_iff.2 fun hdone => h.context hdone hold.1
    exact workerInv_act ha (h.worker hold) hrun
  · have hold := hlater.live hlive
    rw [hlater.revision] at hrevision
    rw [hlater.targets] at htag
    rcases h.covered hold hrevision tag htag with hremoved | hsuppressed | hload
    · exact (hlater.settled tag (.inl hremoved)).covered
    · exact (hlater.settled tag (.inr (.inl hsuppressed))).covered
    · rcases act_drops (s := s) storage registered ha tag with hle | rfl | ⟨w, rfl, hw, hdrops⟩
      · exact .inr (.inr (hload.trans_le hle))
      · exact .inl mem_cons_self
      · exact (hlater.settled tag (.inr (.inl (h.drops hold hrevision hw hdrops)))).covered
  · rw [hlater.targets] at htag
    apply hlater.settled
    rcases act_books (s := s) storage registered a with hsame | ⟨_, _, hsame⟩ | ⟨reason, hreason, hsame⟩ <;>
      rw [hsame.statuses] at hstatus
    · exact h.reported status hstatus hcompleted tag htag
    · exact h.reported status hstatus hcompleted tag htag
    · rcases mem_append.1 hstatus with hold | hnew
      · exact h.reported status hold hcompleted tag htag
      · obtain rfl := mem_singleton.1 hnew
        rcases hreason with rfl | ⟨ha, hphase, rfl⟩
        · exact absurd hcompleted nofun
        · have hlive := terminalReason_completed.1 (Option.some.inj hcompleted)
          exact h.settled hlive hphase (hreport ha hphase hlive) htag

theorem Sound.start (h : Sound storage registered s) : Sound storage registered (s.act storage registered .start) := by
  have hphase := phaseInv_act registered .start h.phase
  have hover := over_act (s := s) storage registered .start
  unfold act at hphase hover ⊢
  dsimp only at hphase hover ⊢
  split_ifs at hphase hover ⊢ with hannounced
  · have hinv := h.phase
    unfold PhaseInv at hinv
    rw [hannounced] at hinv
    refine ⟨h.context, hphase, fun hkept => hover (h.kept hkept), fun herr hnot => h.registered herr (mt hover hnot),
      fun _ w _ => workerInv_idle rfl nofun, fun hlive _ tag htag => ?_, h.reported⟩
    rcases h.covered hlive (.inl hinv.2) tag htag with hremoved | hsuppressed | hload
    · exact .inl hremoved
    · exact .inr (.inl hsuppressed)
    · refine .inr (.inr ?_)
      have hnone : s.workers.total (fun worker => worker.target.count tag) = 0 := by
        apply Table.total_eq_zero
        intro w hw
        rw [hinv.1] at hw
        exact absurd hw (Nat.not_lt_zero w)
      have hready := total_ready Worker.target rfl s.workerCount tag
      unfold resultLoad load at hload ⊢
      dsimp only at hload ⊢
      omega
  · exact h

theorem Sound.act (h : Sound storage registered s) (a : Act)
    (hreport : a = .report → s.phase = .drained → s.Live → s.revision = some storage.revision) :
    Sound storage registered (s.act storage registered a) := by
  by_cases ha : a = .start
  · rw [ha]
    exact h.start
  · exact h.act_of_ne ha hreport

end Session
end EtonifyCore.Daemon
