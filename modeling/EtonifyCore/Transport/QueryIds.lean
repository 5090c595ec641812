/-
The IDs of pending queries (`queryMultiplexer.register`, `dns/transport/multiplexer.go`).
-/
import EtonifyCore.Transport.MultiplexerSafety

namespace EtonifyCore.Multiplexer

open EtonifyCore.Core.Table
open St

variable {s s' s'' : St} {id : UInt16} {p : ℕ}

theorem registered_of_probeId {start id₀ : UInt16} {rounds : ℕ} (h : s.probeId start rounds id₀ = none)
    (hstart : ∀ j, j + 1 < rounds → id₀ + UInt16.ofNat (j + 1) ≠ start) {j : ℕ} (hj : j < rounds) :
    ∃ p, s.Registered (id₀ + UInt16.ofNat (j + 1)) p := by
  induction rounds generalizing id₀ j with
  | zero => exact absurd hj (Nat.not_lt_zero j)
  | succ rounds ih =>
    rw [probeId] at h
    cases hquery : s.query (id₀ + 1) with
    | none =>
      rw [hquery, if_pos Option.isNone_none] at h
      cases h
    | some p =>
      rw [hquery, if_neg (by simp)] at h
      have hshift (j : ℕ) : id₀ + UInt16.ofNat (j + 1 + 1) = id₀ + 1 + UInt16.ofNat (j + 1) := by
        rw [UInt16.ofNat_add (j + 1) 1, UInt16.add_assoc, UInt16.add_comm 1]
        rfl
      cases j with
      | zero => exact ⟨p, registered_of_query hquery⟩
      | succ j =>
        have hne : id₀ + 1 ≠ start := hstart 0 (by omega)
        rw [if_neg hne] at h
        rw [hshift]
        exact ih h (fun i hi => hshift i ▸ hstart (i + 1) (by omega)) (by omega)

theorem nextId_eq_none_iff : s.nextId = none ↔ ∀ id, ∃ p, s.Registered id p := by
  constructor
  · intro h id
    have hround : id = s.queryId + UInt16.ofNat ((id - s.queryId - 1).toNat + 1) := by
      rw [UInt16.ofNat_add, UInt16.ofNat_toNat]
      change id = s.queryId + (id - s.queryId - 1 + 1)
      rw [UInt16.sub_add_cancel, UInt16.add_comm, UInt16.sub_add_cancel]
    rw [hround]
    refine registered_of_probeId h (fun j hj heq => ?_) (UInt16.toNat_lt _)
    have hzero : UInt16.ofNat (j + 1) = 0 := by simpa using heq
    have hnat := congrArg UInt16.toNat hzero
    rw [UInt16.toNat_ofNat', Nat.mod_eq_of_lt hj] at hnat
    cases hnat
  · intro hall
    cases hnext : s.nextId with
    | none => rfl
    | some id =>
      obtain ⟨-, -, hfree, -⟩ := next_of_nextId hnext
      obtain ⟨p, hp⟩ := hall id
      exact absurd hp (hfree p)

theorem shrinks_take (s : St) (id : UInt16) : Shrinks s (s.take id).1 := by
  cases takes s id with
  | none htake =>
    rw [htake]
    exact .of_eq rfl
  | some p _ htake =>
    rw [htake]
    exact shrinks_setPending rfl rfl nofun

def St.Unique (s : St) : Prop := ∀ id p p', s.Registered id p → s.Registered id p' → p = p'

theorem Shrinks.unique (hs : Shrinks s s') (h : s.Unique) : s'.Unique :=
  fun id p p' hp hp' => h id p p' (hs.registered id p hp) (hs.registered id p' hp')

section

variable (opts : Options) (r a conn : ℕ) (created : Bool) (h : s.nextId = some id)
include h

theorem pendings_register : (s.register opts r a conn created).pendings =
    s.pendings.push { query := s.pendingQuery opts r a conn created, queryId := id, registered := true } := by
  rw [register, h]
  rfl

theorem registered_register (id' : UInt16) (p : ℕ) : (s.register opts r a conn created).Registered id' p ↔
    s.Registered id' p ∨ p = s.pendings.size ∧ id' = id := by
  unfold St.Registered
  rw [pendings_register opts r a conn created h, size_push]
  constructor
  · rintro ⟨hp, hreg⟩
    rcases Nat.lt_succ_iff_lt_or_eq.1 hp with hlt | rfl
    · rw [get_push _ _ hlt] at hreg
      exact .inl ⟨hlt, hreg⟩
    · rw [get_push_size] at hreg
      exact .inr ⟨rfl, hreg.2.symm⟩
  · rintro (⟨hlt, hreg⟩ | ⟨rfl, rfl⟩)
    · rw [get_push _ _ hlt]
      exact ⟨Nat.lt_succ_of_lt hlt, hreg⟩
    · rw [get_push_size]
      exact ⟨Nat.lt_succ_self _, rfl, rfl⟩

theorem unique_register (hs : s.Unique) : (s.register opts r a conn created).Unique := by
  obtain ⟨-, -, hfree, -⟩ := next_of_nextId h
  have hmap := registered_register opts r a conn created h
  intro id' p p' hp hp'
  rcases (hmap id' p).1 hp with hold | ⟨rfl, rfl⟩ <;> rcases (hmap _ p').1 hp' with hold' | ⟨rfl, hid⟩
  · exact hs id' p p' hold hold'
  · exact absurd (hid ▸ hold) (hfree p)
  · exact absurd hold' (hfree p')
  · rfl

end

/-- **A query gets an ID that is free.** `register` fails exactly if all IDs are in use; otherwise it puts the query
under an ID that nobody has, and leaves the other entries alone. So no two pending queries have one ID. -/
theorem register_ids (opts : Options) (s : St) (r a conn : ℕ) (created : Bool) :
    (s.register opts r a conn created = s.setPhase r (.refused a) ↔ ∀ id, ∃ p, s.Registered id p) ∧
    (s.register opts r a conn created ≠ s.setPhase r (.refused a) → ∃ id, (∀ p, ¬s.Registered id p) ∧
      (s.register opts r a conn created).queryId = id ∧
      ((s.register opts r a conn created).pendings.get s.pendings.size).query = s.pendingQuery opts r a conn created ∧
      (∀ id' p, (s.register opts r a conn created).Registered id' p ↔
        s.Registered id' p ∨ p = s.pendings.size ∧ id' = id) ∧
      ∀ p < s.pendings.size, (s.register opts r a conn created).pendings.get p = s.pendings.get p) ∧
    (s.Unique → (s.register opts r a conn created).Unique) ∧ ∀ id, s.Unique → (s.take id).1.Unique := by
  cases hnext : s.nextId with
  | none =>
    have hfull := nextId_eq_none_iff.1 hnext
    have hregister : s.register opts r a conn created = s.setPhase r (.refused a) := by rw [register, hnext]
    rw [hregister]
    exact ⟨iff_of_true rfl hfull, fun hne => absurd rfl hne, fun h => h, fun id h => (shrinks_take s id).unique h⟩
  | some id =>
    obtain ⟨-, -, hfree, -⟩ := next_of_nextId hnext
    have hmap := registered_register opts r a conn created hnext
    have hnot : s.register opts r a conn created ≠ s.setPhase r (.refused a) := by
      intro heq
      have hnew := (hmap id s.pendings.size).2 (.inr ⟨rfl, rfl⟩)
      rw [heq] at hnew
      exact hfree _ hnew
    refine ⟨iff_of_false hnot fun hall => ?_, fun _ => ⟨id, hfree, ?_, ?_, hmap, fun p hp => ?_⟩,
      unique_register opts r a conn created hnext, fun id h => (shrinks_take s id).unique h⟩
    · obtain ⟨p, hp⟩ := hall id
      exact hfree p hp
    · rw [register, hnext]
      rfl
    · rw [pendings_register opts r a conn created hnext, get_push_size]
    · rw [pendings_register opts r a conn created hnext, get_push _ _ hp]

/-! ## Runs -/

theorem unique_of_pendings (hs : s.Unique) (heq : s'.pendings = s.pendings) : s'.Unique := (Shrinks.of_eq heq).unique hs

/-- what happens to the functions of a query does not matter -/
theorem unique_functions (hs : s.Unique) (p : ℕ) (context connection : After) :
    (s.setPending p { s.pendings.get p with context, connection }).Unique := by
  refine Shrinks.unique (shrinks_setPending ?_ ?_ fun hreg => ?_) hs
  · rfl
  · rfl
  · exact hreg

theorem unique_closeIdle (hs : s.Unique) : s.closeIdle.Unique := by
  unfold St.closeIdle
  split
  · exact hs
  · exact unique_of_pendings hs rfl

theorem unique_runnerStep (opts : Options) (hs : s.Unique) (r : ℕ) : (s.runnerStep opts r).Unique := by
  unfold St.runnerStep
  split
  case h_1 =>
    unfold St.dispatch
    split <;> exact unique_of_pendings hs rfl
  case h_2 =>
    unfold St.acquired
    dsimp only
    repeat' split
    all_goals exact unique_of_pendings hs rfl
  case h_3 a conn created _ =>
    cases hnext : s.nextId with
    | none =>
      rw [register, hnext]
      exact unique_of_pendings hs rfl
    | some id => exact unique_register opts r a conn created hnext hs
  case h_5 => exact unique_of_pendings (unique_closeIdle hs) rfl
  case h_6 => exact unique_of_pendings ((shrinks_take s _).unique hs) rfl
  case h_8 => exact unique_of_pendings (unique_functions hs _ _ _) rfl
  case h_9 =>
    unfold St.retry
    dsimp only
    split <;> exact unique_of_pendings hs rfl
  all_goals exact unique_of_pendings hs rfl

theorem step_unique (opts : Options) (hs : s.Unique) (op : Op) : (step opts s op).Unique := by
  have hguard : ∀ {b : Prop} [Decidable b] {s' : St}, s'.Unique → (if b then s' else s).Unique := by
    intro b _ s' hs'
    split_ifs
    · exact hs'
    · exact hs
  have hsame : ∀ {s' : St}, s'.pendings = s.pendings → s'.Unique := unique_of_pendings hs
  have htake (id : UInt16) : (s.take id).1.Unique := (shrinks_take s id).unique hs
  cases op with
  | runner r => exact hguard (unique_runnerStep opts hs r)
  | returned r event =>
    refine hguard ?_
    unfold St.returnedStep
    dsimp only
    split <;> exact hsame rfl
  | startContext p => exact hguard (hguard (unique_functions hs p _ _))
  | context p =>
    refine hguard ?_
    unfold St.contextStep
    split
    · exact unique_functions (htake _) p _ _
    · exact unique_functions (s := (s.stop _).poolStep _) (unique_functions hs _ _ _) p _ _
    · exact unique_functions (unique_closeIdle (s := s.callback _ _) hs) p _ _
    all_goals exact hs
  | startConnection p => exact hguard (hguard (unique_functions hs p _ _))
  | connection p =>
    refine hguard ?_
    unfold St.connectionStep
    split
    · exact unique_functions (htake _) p _ _
    · exact unique_functions (s := s.stop _) (unique_functions hs _ _ _) p _ _
    · dsimp only
      split <;> exact unique_functions hs p _ _
    all_goals exact hs
  | read k result =>
    refine hguard ?_
    unfold St.readStep
    dsimp only
    repeat' split
    all_goals exact hsame rfl
  | reader k =>
    refine hguard ?_
    unfold St.readerStep
    dsimp only
    split
    · exact unique_of_pendings (htake _) rfl
    · exact unique_of_pendings (unique_functions hs _ _ _) rfl
    · exact unique_of_pendings (unique_closeIdle (s := s.callback _ _) hs) rfl
    all_goals exact hsame rfl
  | expire c err => exact hguard (hsame rfl)
  | exchangeAsync | pool | reuse | setKeepIdle => exact hsame rfl

/-- in no run do two pending queries share an ID -/
theorem run_unique (opts : Options) (ops : List Op) : (run opts ops).Unique := by
  induction ops using List.reverseRecOn with
  | nil => exact fun _ p _ hp => absurd hp.1 (Nat.not_lt_zero p)
  | append_singleton ops op ih =>
    rw [run, List.foldl_append]
    exact step_unique opts ih op

end EtonifyCore.Multiplexer
