/-
A request for one target, while a session of its whole group has this target.

A drained session stays in the map for some seconds, so that a late request joins it. But the request looks at the context of
the session, which is cancelled right after the mark `completed`. From then on every late request starts a test of its own
(`retained_is_tested_again`).
-/
import EtonifyCore.Daemon.URLTestRuns

namespace EtonifyCore.Daemon

open Function
open Core (Table)

variable {s : St} {i : ℕ} {groupTag leaf : Tag}

/-! ## Sessions in the map -/

namespace Session

variable {session : Session} {storage : Storage} {registered : Bool}

/-- the queue knows all targets -/
structure Filed (session : Session) : Prop where
  known : session.queue.known = session.targets

theorem known_workerStep (w : ℕ) : (session.workerStep storage registered w).queue.known = session.queue.known := by
  unfold workerStep
  cases session.workers.get w with
  | ready =>
    dsimp only
    split_ifs
    · rfl
    · unfold Queue.take
      cases session.queue.pending <;> rfl
  | eligible | cancelled | wanted =>
    dsimp only
    split_ifs <;> rfl
  | _ => rfl

theorem known_act (a : Act) : (session.act storage registered a).queue.known = session.queue.known := by
  cases a with
  | worker w =>
    unfold act
    dsimp only
    split_ifs
    · exact known_workerStep w
    · rfl
  | returned w available =>
    unfold act
    dsimp only
    cases session.workers.get w with
    | probing tag =>
      dsimp only
      split_ifs <;> rfl
    | _ => rfl
  | prioritize tag =>
    unfold act Queue.prioritize
    dsimp only
    split_ifs <;> rfl
  | propagate | announce | start | drain | report | release =>
    unfold act
    dsimp only
    split_ifs <;> rfl
  | _ => rfl

theorem Filed.act (h : session.Filed) (a : Act) : (session.act storage registered a).Filed := by
  have htargets : (session.act storage registered a).targets = session.targets := by
    rcases act_books (s := session) storage registered a with hsame | ⟨_, _, hsame⟩ | ⟨_, -, hsame⟩ <;> exact hsame.targets
  constructor
  rw [known_act, htargets, h.known]

end Session

theorem kept_filed : Kept Session.Filed where
  new _ _ := ⟨rfl⟩
  act _ _ _ a h := h.act a
  finish _ _ h _ := ⟨h.known⟩

def St.InTable (s : St) : Prop := ∀ key i, s.registered key = some i → i < s.sessions.size

namespace St.InTable

section

variable (h : s.InTable)
include h

theorem act (i : ℕ) (a : Act) : (s.act i a).InTable := h

theorem register (r : Request) : (s.register r).InTable := by
  intro key i hi
  change update s.registered r.key (some s.sessions.size) key = some i at hi
  by_cases hkey : key = r.key
  · rw [hkey, update_self] at hi
    obtain rfl := Option.some.inj hi
    exact Nat.lt_succ_self _
  · rw [update_of_ne hkey] at hi
    exact Nat.lt_succ_of_lt (h key i hi)

theorem unregister (i : ℕ) : (s.unregister i).InTable := by
  unfold St.unregister
  split_ifs
  · intro key j hj
    change update s.registered _ none key = some j at hj
    by_cases hkey : key = (s.sessions.get i).key
    · rw [hkey, update_self] at hj
      exact absurd hj nofun
    · rw [update_of_ne hkey] at hj
      exact h key j hj
  · exact h

theorem enter (r : Request) : (s.enter r).1.InTable := by
  unfold St.enter
  cases s.registered r.key with
  | none => exact h.register r
  | some i =>
    dsimp only
    split_ifs
    · exact h
    · exact (h.act i _).register r

theorem startURLTest (r : Request) : (s.startURLTest r).1.InTable := by
  unfold St.startURLTest
  cases r.target with
  | none => exact h.enter r
  | some tag =>
    cases s.owner r.groupTag with
    | none => exact h.enter r
    | some i =>
      dsimp only
      split_ifs
      · exact ((h.act i _).act i _).enter r
      · exact h.act i _
      · exact h.enter r

theorem finish (i : ℕ) : (s.finish i).InTable := by
  unfold St.finish
  dsimp only
  split_ifs
  · exact h
  · exact unregister (s := { s with sessions := s.sessions.set i _ }) h i
  · exact h

theorem step (op : Op) : (step s op).InTable := by
  cases op with
  | startURLTest r => exact h.startURLTest r
  | act i a =>
    unfold Daemon.step
    dsimp only
    split_ifs
    · exact h.act i a
    · exact h
  | finish i =>
    unfold Daemon.step
    dsimp only
    split_ifs
    · exact h.finish i
    · exact h
  | retire i | unregister i =>
    unfold Daemon.step
    dsimp only
    split_ifs
    · exact h.unregister i
    · exact h
  | resetNetwork | setExcludedTags => exact h

end

end St.InTable

theorem run_inTable (ops : List Op) : (run ops).InTable :=
  List.foldlRecOn (motive := St.InTable) ops step (fun _ _ h => absurd h nofun) fun _ h op _ => St.InTable.step h op

/-! ## Joining -/

/-- a session of a whole group has a target, from its registration to the end of its retention -/
structure St.Owned (s : St) (groupTag leaf : Tag) (i : ℕ) : Prop where
  registered : s.registered groupTag = some i
  full : (s.sessions.get i).full = true
  network : (s.sessions.get i).generation = s.storage.generation
  leaf : leaf ∈ (s.sessions.get i).targets
  running : (s.sessions.get i).err = none ∨ (s.sessions.get i).completed = true

structure Request.Targets (r : Request) (groupTag leaf : Tag) : Prop where
  group : r.groupTag = groupTag
  target : r.target = some leaf
  unforced : r.force = false

def St.TargetJoins (s : St) (groupTag leaf : Tag) : Prop :=
  ∃ j, s.registered (Request.targetKey groupTag leaf) = some j ∧ s.joins j true = true

theorem St.enter_started {r : Request} (hr : r.Targets groupTag leaf) :
    (s.enter r).2 = false ↔ s.TargetJoins groupTag leaf := by
  have hkey : r.key = Request.targetKey groupTag leaf := by rw [Request.key, hr.target, hr.group]
  unfold St.enter St.TargetJoins
  rw [hkey, hr.unforced, hr.target]
  cases s.registered (Request.targetKey groupTag leaf) with
  | none => simp
  | some j => cases hjoins : s.joins j true <;> simp [hjoins]

theorem St.owner_eq (h : s.Owned groupTag leaf i) (herr : (s.sessions.get i).err = none) : s.owner groupTag = some i := by
  unfold St.owner
  rw [h.registered, Option.filter_some, if_pos]
  exact decide_eq_true ⟨h.full, herr, h.network⟩

theorem St.owner_eq_none (h : s.Owned groupTag leaf i) (herr : (s.sessions.get i).err ≠ none) : s.owner groupTag = none := by
  unfold St.owner
  rw [h.registered, Option.filter_some, if_neg]
  intro hfilter
  exact herr (of_decide_eq_true hfilter).2.1

theorem Queue.prioritize_of_mem {q : Queue} {tag : Tag} (h : tag ∈ q.known) : (q.prioritize tag).1 := by
  unfold Queue.prioritize
  rw [if_neg (not_not.2 h)]
  split_ifs <;> rfl

section

variable {r : Request} (h : s.Owned groupTag leaf i) (hr : r.Targets groupTag leaf)
include h hr

theorem St.startURLTest_of_running
    (hfiled : (s.sessions.get i).Filed) (herr : (s.sessions.get i).err = none) : (s.startURLTest r).2 = false := by
  have hknown : leaf ∈ (s.sessions.get i).queue.known := hfiled.known ▸ h.leaf
  unfold St.startURLTest
  rw [hr.target, hr.group, hr.unforced, St.owner_eq h herr]
  simp [Queue.prioritize_of_mem hknown]

theorem St.startURLTest_of_done
    (herr : (s.sessions.get i).err ≠ none) : (s.startURLTest r).2 = false ↔ s.TargetJoins groupTag leaf := by
  unfold St.startURLTest
  rw [hr.target, hr.group, St.owner_eq_none h herr]
  exact St.enter_started hr

end

theorem run_filed (ops : List Op) (howned : (run ops).Owned groupTag leaf i) : ((run ops).sessions.get i).Filed :=
  kept_filed.run ops i (run_inTable ops groupTag i howned.registered)

/-- **A request for a target that a session of the group has** starts no session exactly if the context of that session is
not done, or the session of an earlier request for the target can be joined. -/
theorem joins_iff (ops : List Op) (howned : (run ops).Owned groupTag leaf i) (r : Request) (hr : r.Targets groupTag leaf) :
    ((run ops).startURLTest r).2 = false ↔
      ((run ops).sessions.get i).err = none ∨ (run ops).TargetJoins groupTag leaf := by
  by_cases herr : ((run ops).sessions.get i).err = none
  · exact iff_of_true (St.startURLTest_of_running howned hr (run_filed ops howned) herr) (.inl herr)
  · exact (St.startURLTest_of_done howned hr herr).trans (or_iff_right herr).symm

def drainedRun : List Op := probingRun ++ answerRun 7 ++ [.finish 0]

def lateRequest : Request := ⟨['g'], some ['a'], [], false, 4, List.nodup_nil⟩

theorem joins_before_release : ((run drainedRun).startURLTest lateRequest).2 = false := by
  have howned : (run drainedRun).Owned ['g'] ['a'] 0 :=
    ⟨by decide +kernel, by decide +kernel, by decide +kernel, by decide +kernel, .inr (by decide +kernel)⟩
  exact (joins_iff drainedRun howned lateRequest ⟨rfl, rfl, rfl⟩).2 (.inl (by decide +kernel))

/-- the goroutine of the drained session ends, and a request for the target starts another session -/
theorem retained_is_tested_again : (run (drainedRun ++ [.act 0 .release])).Owned ['g'] ['a'] 0 ∧
    ((run (drainedRun ++ [.act 0 .release])).startURLTest lateRequest).2 = true :=
  ⟨⟨by decide +kernel, by decide +kernel, by decide +kernel, by decide +kernel, .inr (by decide +kernel)⟩, by decide +kernel⟩

end EtonifyCore.Daemon
