/-
What the steps of a URL test session do with a target: it is in the queue, or with one worker, or it has been probed.

- `load_act_le`: no step makes a target more. It is therefore probed once and recorded once.
- `Counted`: this, and the counts of the statuses; kept by every step (`Counted.act`).
-/
import EtonifyCore.Daemon.URLTestSession

namespace EtonifyCore.Daemon

open List
open Core (Table)
open Worker

/-! ## Counting -/

namespace Worker

def unprobed : Worker → List Tag
  | took tag | starting tag | alive tag | eligible tag => [tag]
  | _ => []

def target : Worker → List Tag
  | took tag | starting tag | alive tag | eligible tag | refusing tag | cancelling tag | cancelled tag | probing tag => [tag]
  | answered tag _ | current tag _ | live tag _ | wanted tag _ | stored tag _ => [tag]
  | ready | reporting | exited => []

end Worker

namespace Session

variable {s : Session} {w i : ℕ} {tag : Tag}

def load (held : Worker → List Tag) (used : Session → List Tag) (s : Session) (tag : Tag) : ℕ :=
  s.queue.pending.count tag + s.workers.total (fun worker => (held worker).count tag) + (used s).count tag

def probeLoad : Session → Tag → ℕ := load Worker.unprobed Session.probed

def resultLoad : Session → Tag → ℕ := load Worker.target fun s => s.recorded.map Prod.fst

variable {s' : Session}

theorem load_setWorker (held : Worker → List Tag) (used : Session → List Tag) (tag : Tag) {worker : Worker}
    (hw : w < s.workers.size) (hworkers : s'.workers = s.workers.set w worker) :
    load held used s' tag + (s.queue.pending.count tag + (held (s.workers.get w)).count tag + (used s).count tag) =
      load held used s tag + (s'.queue.pending.count tag + (held worker).count tag + (used s').count tag) := by
  have htotal := s.workers.total_set (f := fun worker => (held worker).count tag) worker hw
  unfold load
  rw [hworkers]
  omega

theorem load_setWorker_le (held : Worker → List Tag) (used : Session → List Tag) {worker : Worker}
    (hw : w < s.workers.size) (hworkers : s'.workers = s.workers.set w worker)
    (hlocal : s'.queue.pending.count tag + (held worker).count tag + (used s').count tag ≤
      s.queue.pending.count tag + (held (s.workers.get w)).count tag + (used s).count tag) :
    load held used s' tag ≤ load held used s tag := by
  have := load_setWorker held used tag hw hworkers
  omega

variable (storage : Storage)

theorem load_workerStep_le (registered : Bool) (hw : w < s.workers.size) :
    (s.workerStep storage registered w).probeLoad tag ≤ s.probeLoad tag ∧
      (s.workerStep storage registered w).resultLoad tag ≤ s.resultLoad tag := by
  unfold workerStep
  cases hworker : s.workers.get w with
  | ready =>
    dsimp only
    split_ifs
    · constructor <;> apply load_setWorker_le _ _ hw rfl <;> simp [setWorker, hworker, unprobed, target]
    · unfold Queue.take
      cases hpending : s.queue.pending with
      | nil => constructor <;> apply load_setWorker_le _ _ hw rfl <;> simp [setWorker, hworker, unprobed, target]
      | cons tag rest =>
        constructor <;> apply load_setWorker_le _ _ hw rfl <;>
          simp [setWorker, hworker, hpending, unprobed, target, count_cons]
  | probing | exited => exact ⟨le_rfl, le_rfl⟩
  | cancelled tag =>
    dsimp only
    split_ifs
    · constructor <;> apply load_setWorker_le _ _ hw rfl <;> simp [setWorker, hworker, unprobed, target]
    · exact ⟨le_rfl, le_rfl⟩
  | eligible | refusing | cancelling | wanted | stored | reporting =>
    dsimp only
    try split_ifs
    all_goals
      constructor <;> apply load_setWorker_le _ _ hw rfl <;>
        simp [setWorker, setReason, cancel, recordResult, emit, hworker, unprobed, target] <;> omega
  | _ =>
    dsimp only
    constructor <;> apply load_setWorker_le _ _ hw rfl <;> split_ifs <;>
      simp [setWorker, hworker, unprobed, target]

theorem perm_prioritize (q : Queue) (tag : Tag) : (q.prioritize tag).2.pending.Perm q.pending := by
  unfold Queue.prioritize
  split_ifs with _ hmem
  · exact (perm_cons_erase hmem).symm
  · exact .refl _
  · exact .refl _

theorem load_congr (held : Worker → List Tag) (used : Session → List Tag)
    (hpending : s'.queue.pending.count tag ≤ s.queue.pending.count tag) (hworkers : s'.workers = s.workers)
    (hused : used s' = used s) : load held used s' tag ≤ load held used s tag := by
  unfold load
  rw [hworkers, hused]
  omega

theorem total_ready (held : Worker → List Tag) (hready : held .ready = []) (n : ℕ) (tag : Tag) :
    (Table.mk n fun _ => ready).total (fun worker => (held worker).count tag) = 0 := by
  apply Table.total_eq_zero
  intro w _
  rw [hready, count_nil]

theorem load_act_le (registered : Bool) (a : Act) (tag : Tag) :
    (s.act storage registered a).probeLoad tag ≤ s.probeLoad tag ∧
      (s.act storage registered a).resultLoad tag ≤ s.resultLoad tag := by
  cases a with
  | worker w =>
    unfold act
    dsimp only
    split_ifs with hw
    · exact load_workerStep_le storage registered hw
    · exact ⟨le_rfl, le_rfl⟩
  | returned w available =>
    unfold act
    dsimp only
    cases hworker : s.workers.get w with
    | probing tag =>
      dsimp only
      split_ifs with hw
      · constructor <;> apply load_setWorker_le _ _ hw rfl <;> simp [setWorker, hworker, unprobed, target]
      · exact ⟨le_rfl, le_rfl⟩
    | _ => exact ⟨le_rfl, le_rfl⟩
  | prioritize tag' =>
    have hcount := ((perm_prioritize s.queue tag').count_eq tag).le
    exact ⟨load_congr _ _ hcount rfl rfl, load_congr _ _ hcount rfl rfl⟩
  | remove tag' =>
    have hcount : (s.queue.pending.erase tag').count tag ≤ s.queue.pending.count tag := erase_sublist.count_le tag
    exact ⟨load_congr _ _ hcount rfl rfl, load_congr _ _ hcount rfl rfl⟩
  | start =>
    unfold act
    dsimp only
    split_ifs
    · have hprobe := total_ready unprobed rfl s.workerCount tag
      have hresult := total_ready target rfl s.workerCount tag
      unfold probeLoad resultLoad load
      dsimp only
      omega
    · exact ⟨le_rfl, le_rfl⟩
  | propagate | announce | drain | report | release =>
    unfold act
    dsimp only
    split_ifs <;> exact ⟨le_rfl, le_rfl⟩
  | suppress | requestCancel | cancel => exact ⟨le_rfl, le_rfl⟩

/-! ## Statuses -/

structure SameBooks (s s' : Session) : Prop where
  targets : s'.targets = s.targets
  recorded : s'.recorded = s.recorded
  completed : s'.completedCount = s.completedCount
  available : s'.availableCount = s.availableCount
  unavailable : s'.unavailableCount = s.unavailableCount
  statuses : s'.statuses = s.statuses

theorem act_books (registered : Bool) (a : Act) : SameBooks s (s.act storage registered a) ∨
      (∃ tag available, SameBooks (s.recordResult tag available) (s.act storage registered a)) ∨
      ∃ reason, (reason = none ∨ a = .report ∧ s.phase = .drained ∧ reason = some s.terminalReason) ∧
        SameBooks (s.emit reason) (s.act storage registered a) := by
  cases a with
  | worker w =>
    unfold act
    dsimp only
    split_ifs
    · unfold workerStep
      cases s.workers.get w with
      | stored tag available => exact .inr (.inl ⟨tag, available, rfl, rfl, rfl, rfl, rfl, rfl⟩)
      | reporting => exact .inr (.inr ⟨none, .inl rfl, rfl, rfl, rfl, rfl, rfl, rfl⟩)
      | ready =>
        dsimp only
        split_ifs
        · exact .inl ⟨rfl, rfl, rfl, rfl, rfl, rfl⟩
        · cases s.queue.take <;> exact .inl ⟨rfl, rfl, rfl, rfl, rfl, rfl⟩
      | eligible | cancelled | wanted =>
        dsimp only
        split_ifs <;> exact .inl ⟨rfl, rfl, rfl, rfl, rfl, rfl⟩
      | _ => exact .inl ⟨rfl, rfl, rfl, rfl, rfl, rfl⟩
    · exact .inl ⟨rfl, rfl, rfl, rfl, rfl, rfl⟩
  | returned w available =>
    unfold act
    dsimp only
    cases s.workers.get w with
    | probing tag =>
      dsimp only
      split_ifs <;> exact .inl ⟨rfl, rfl, rfl, rfl, rfl, rfl⟩
    | _ => exact .inl ⟨rfl, rfl, rfl, rfl, rfl, rfl⟩
  | announce =>
    unfold act
    dsimp only
    split_ifs
    · exact .inr (.inr ⟨none, .inl rfl, rfl, rfl, rfl, rfl, rfl, rfl⟩)
    · exact .inl ⟨rfl, rfl, rfl, rfl, rfl, rfl⟩
  | report =>
    unfold act
    dsimp only
    split_ifs with hphase
    · exact .inr (.inr ⟨_, .inr ⟨rfl, hphase, rfl⟩, rfl, rfl, rfl, rfl, rfl, rfl⟩)
    · exact .inl ⟨rfl, rfl, rfl, rfl, rfl, rfl⟩
  | start | propagate | drain | release =>
    unfold act
    dsimp only
    split_ifs <;> exact .inl ⟨rfl, rfl, rfl, rfl, rfl, rfl⟩
  | _ => exact .inl ⟨rfl, rfl, rfl, rfl, rfl, rfl⟩

structure Counted (s : Session) : Prop where
  nodup : s.targets.Nodup
  probes : ∀ tag, s.probeLoad tag ≤ s.targets.count tag
  results : ∀ tag, s.resultLoad tag ≤ s.targets.count tag
  completed : s.completedCount = s.recorded.length
  sum : s.completedCount = s.availableCount + s.unavailableCount
  statuses : ∀ status ∈ s.statuses, status.completed = status.available + status.unavailable ∧ status.completed ≤ status.total

theorem Counted.count_recorded_le (h : Counted s) (tag : Tag) :
    (s.recorded.map Prod.fst).count tag ≤ s.targets.count tag :=
  le_trans (Nat.le_add_left _ _) (h.results tag)

theorem Counted.completedCount_le (h : Counted s) : s.completedCount ≤ s.targets.length := by
  have hsub : (s.recorded.map Prod.fst).Subperm s.targets :=
    subperm_ext_iff.2 fun tag _ => h.count_recorded_le tag
  calc s.completedCount = (s.recorded.map Prod.fst).length := by rw [h.completed, length_map]
    _ ≤ s.targets.length := hsub.length_le

theorem Counted.act (h : Counted s) (storage : Storage) (registered : Bool) (a : Act) :
    Counted (s.act storage registered a) := by
  have hload := load_act_le (s := s) storage registered a
  have htargets : (s.act storage registered a).targets = s.targets := by
    rcases act_books (s := s) storage registered a with hsame | ⟨_, _, hsame⟩ | ⟨_, -, hsame⟩ <;> exact hsame.targets
  have hprobes := fun tag => (hload tag).1.trans (h.probes tag)
  have hresults := fun tag => (hload tag).2.trans (h.results tag)
  rw [← htargets] at hprobes hresults
  have hnodup : (s.act storage registered a).targets.Nodup := htargets ▸ h.nodup
  rcases act_books (s := s) storage registered a with hsame | ⟨tag, available, hsame⟩ | ⟨reason, -, hsame⟩
  · refine ⟨hnodup, hprobes, hresults, ?_, ?_, hsame.statuses ▸ h.statuses⟩
    · rw [hsame.completed, hsame.recorded, h.completed]
    · rw [hsame.completed, hsame.available, hsame.unavailable, h.sum]
  · refine ⟨hnodup, hprobes, hresults, ?_, ?_, hsame.statuses ▸ h.statuses⟩
    · rw [hsame.completed, hsame.recorded]
      simp [recordResult, h.completed]
    · rw [hsame.completed, hsame.available, hsame.unavailable]
      have := h.sum
      cases available <;> simp [recordResult] <;> omega
  · refine ⟨hnodup, hprobes, hresults, ?_, ?_, ?_⟩
    · rw [hsame.completed, hsame.recorded]
      exact h.completed
    · rw [hsame.completed, hsame.available, hsame.unavailable]
      exact h.sum
    · rw [hsame.statuses]
      exact forall_mem_append.2 ⟨h.statuses, forall_mem_singleton.2 ⟨h.sum, h.completedCount_le⟩⟩

/-! ## What is dropped -/

def Refuses (storage : Storage) (s : Session) (tag : Tag) : Prop :=
  s.generation ≠ storage.generation ∨ s.revision ≠ some storage.revision ∨ tag ∈ storage.excluded

def Drops (storage : Storage) (registered : Bool) (s : Session) (w : ℕ) (tag : Tag) : Prop :=
  s.runDone = true ∨ (registered = false ∧ s.workers.get w ≠ .exited) ∨ tag ∈ s.suppressed ∨
    ∃ available, s.workers.get w = .wanted tag available ∧ Refuses storage s tag

theorem le_load_setWorker {worker : Worker} (hw : w < s.workers.size) (hworkers : s'.workers = s.workers.set w worker)
    (hlocal : s.queue.pending.count tag + (s.workers.get w).target.count tag + (s.recorded.map Prod.fst).count tag ≤
      s'.queue.pending.count tag + worker.target.count tag + (s'.recorded.map Prod.fst).count tag) :
    s.resultLoad tag ≤ s'.resultLoad tag := by
  have := load_setWorker target (fun s => s.recorded.map Prod.fst) tag hw hworkers
  unfold resultLoad
  omega

theorem workerStep_drops (registered : Bool) (hw : w < s.workers.size) :
    s.resultLoad tag ≤ (s.workerStep storage registered w).resultLoad tag ∨ Drops storage registered s w tag := by
  unfold workerStep
  cases hworker : s.workers.get w with
  | ready =>
    dsimp only
    split_ifs with hdone
    · exact .inr (.inl hdone)
    · unfold Queue.take
      cases hpending : s.queue.pending <;>
        exact .inl (le_load_setWorker hw rfl (by simp [setWorker, hworker, hpending, target, count_cons]))
  | probing | exited => exact .inl le_rfl
  | cancelled tag' =>
    dsimp only
    split_ifs with hdone
    · exact .inr (.inl hdone)
    · exact .inl le_rfl
  | took tag' =>
    by_cases hdone : s.runDone
    · exact .inr (.inl hdone)
    · exact .inl (le_load_setWorker hw rfl (by simp [setWorker, hworker, hdone, target]))
  | answered tag' available =>
    cases registered with
    | false => exact .inr (.inr (.inl ⟨rfl, hworker ▸ nofun⟩))
    | true => exact .inl (le_load_setWorker hw rfl (by simp [setWorker, hworker, target]))
  | current tag' available =>
    by_cases hdone : s.runDone
    · exact .inr (.inl hdone)
    · exact .inl (le_load_setWorker hw rfl (by simp [setWorker, hworker, hdone, target]))
  | live tag' available =>
    by_cases hsuppressed : tag' ∈ s.suppressed
    · by_cases htag : tag' = tag
      · exact .inr (.inr (.inr (.inl (htag ▸ hsuppressed))))
      · exact .inl (le_load_setWorker hw rfl (by simp [setWorker, hworker, hsuppressed, htag, target]))
    · exact .inl (le_load_setWorker hw rfl (by simp [setWorker, hworker, hsuppressed, target]))
  | wanted tag' available =>
    dsimp only
    split_ifs with hrefuses
    · by_cases htag : tag' = tag
      · exact .inr (.inr (.inr (.inr ⟨available, by rw [hworker, htag], htag ▸ hrefuses⟩)))
      · exact .inl (le_load_setWorker hw rfl (by simp [setWorker, hworker, htag, target]))
    · exact .inl (le_load_setWorker hw rfl (by simp [setWorker, hworker, target]))
  | starting | alive =>
    refine .inl (le_load_setWorker hw rfl ?_)
    split_ifs <;> simp [setWorker, hworker, target]
  | eligible =>
    dsimp only
    split_ifs <;> exact .inl (le_load_setWorker hw rfl (by simp [setWorker, hworker, target]))
  | refusing | cancelling | reporting =>
    exact .inl (le_load_setWorker hw rfl (by simp [setWorker, setReason, cancel, emit, hworker, target]))
  | stored tag' available =>
    exact .inl (le_load_setWorker hw rfl (by simp [setWorker, recordResult, hworker, target]; omega))

theorem act_drops (registered : Bool) {a : Act} (ha : a ≠ .start) (tag : Tag) :
    s.resultLoad tag ≤ (s.act storage registered a).resultLoad tag ∨ a = .remove tag ∨
      ∃ w, a = .worker w ∧ w < s.workers.size ∧ Drops storage registered s w tag := by
  cases a with
  | worker w =>
    unfold act
    dsimp only
    split_ifs with hw
    · exact (workerStep_drops storage registered hw).imp_right fun h => .inr ⟨w, rfl, hw, h⟩
    · exact .inl le_rfl
  | returned w available =>
    unfold act
    dsimp only
    cases hworker : s.workers.get w with
    | probing tag' =>
      dsimp only
      split_ifs with hw
      · exact .inl (le_load_setWorker hw rfl (by simp [setWorker, hworker, target]))
      · exact .inl le_rfl
    | _ => exact .inl le_rfl
  | prioritize tag' =>
    refine .inl (le_of_eq ?_)
    have hcount := (perm_prioritize s.queue tag').count_eq tag
    unfold resultLoad load act
    dsimp only
    rw [hcount]
  | remove tag' =>
    by_cases htag : tag' = tag
    · exact .inr (.inl (by rw [htag]))
    · refine .inl (le_of_eq ?_)
      have hcount : (s.queue.remove tag').pending.count tag = s.queue.pending.count tag :=
        count_erase_of_ne fun h => htag h.symm
      unfold resultLoad load act
      dsimp only
      rw [hcount]
  | start => exact absurd rfl ha
  | propagate | announce | drain | report | release =>
    unfold act
    dsimp only
    split_ifs <;> exact .inl le_rfl
  | suppress | requestCancel | cancel => exact .inl le_rfl

end Session
end EtonifyCore.Daemon
