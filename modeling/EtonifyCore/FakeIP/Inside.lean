/-
The addresses that `Create` returns lie inside their range, and are neither the first nor the last of it (`run_inside`, with
ranges that fit). The cache file may be a new one, one of other ranges, or one that earlier runs have left (`Left`).
-/
import EtonifyCore.FakeIP.Interval

namespace EtonifyCore.FakeIP

open Core (TwoWay Batch)

/-! ## Storages -/

section

variable {σ υ : Type} (P : Bool → Addr → Prop) (M : Metadata → Prop)

/-- the storage holds addresses and metadata that it was given -/
structure Guards (S : Storage σ υ) (Q : σ → Prop) : Prop where
  loadDomain : ∀ {storage d isIPv6 a}, Q storage → S.loadDomain storage d isIPv6 = some a → P isIPv6 a
  storeAsync : ∀ {storage a}, Q storage → P a.family a → ∀ d, Q (S.storeAsync storage a d)
  saveMetadata : ∀ {storage metadata}, Q storage → M metadata → Q (S.saveMetadata storage metadata)
  reset : ∀ {storage storage'}, Q storage → S.reset storage = some storage' → Q storage'
  upkeep : ∀ {storage}, Q storage → ∀ u, Q (S.upkeep storage u)

def Filed (mapping : Mapping) : Prop := ∀ isIPv6 d a, mapping.addr isIPv6 d = some a → P isIPv6 a

theorem memory_guards : Guards P M memoryStorage (Filed P) where
  loadDomain h hload := h _ _ _ hload
  storeAsync {mapping a} h ha d := by
    intro isIPv6 d' a' haddr
    change (mapping.store Addr.family a d).addr isIPv6 d' = some a' at haddr
    rw [TwoWay.addr_store] at haddr
    split_ifs at haddr with hnew hold
    · cases haddr
      rw [hnew.1]
      exact ha
    · exact h _ _ _ haddr
  saveMetadata h _ := h
  reset _ hreset := by
    cases hreset
    exact nofun
  upkeep h _ := h

structure PendingWrites.Filed (writes : PendingWrites) : Prop where
  addr : ∀ isIPv6 d a, writes.fakeIP.addr isIPv6 d = some a → a.isSome = true → P isIPv6 a
  entries : ∀ entry ∈ writes.fakeIP.entries, P (Addr.family entry.1) entry.1
  metadata : ∀ metadata, writes.metadata = some metadata → M metadata

structure CacheFile.Filed (file : CacheFile) : Prop where
  pending : file.pending.Filed P M
  writing : ∀ writes, file.writing = some writes → writes.Filed P M
  disk : FakeIP.Filed P file.disk.fakeIP
  metadata : ∀ metadata, file.disk.metadata = some metadata → M metadata

variable {P M}

theorem PendingWrites.filed_empty : PendingWrites.Filed P M {} := ⟨nofun, nofun, nofun⟩

namespace CacheFile.Filed

variable {file : CacheFile}

theorem loadDomain (h : file.Filed P M) {d : String} {isIPv6 : Bool} {a : Addr}
    (hload : file.loadDomain d isIPv6 = some a) : P isIPv6 a := by
  obtain ⟨haddr, hsome⟩ := Option.filter_eq_some_iff.1 hload
  cases hpending : file.pending.fakeIP.addr isIPv6 d with
  | some a' =>
    rw [hpending] at haddr
    cases haddr
    exact h.pending.addr isIPv6 d a hpending hsome
  | none =>
    rw [hpending] at haddr
    dsimp only at haddr
    split at haddr
    · rename_i a' hwriting
      cases haddr
      obtain ⟨writes, hwrites, hfound⟩ := Option.bind_eq_some_iff.1 hwriting
      exact (h.writing writes hwrites).addr isIPv6 d a hfound hsome
    · exact h.disk isIPv6 d a haddr

theorem queueFakeIP (h : file.Filed P M) {a : Addr} (ha : P a.family a) (d : String) : (file.queueFakeIP a d).Filed P M := by
  refine ⟨⟨?_, ?_, h.pending.metadata⟩, h.writing, h.disk, h.metadata⟩
  · intro isIPv6 d' a' haddr hsome
    change (Batch.queue _ _ _ _ a d).addr isIPv6 d' = some a' at haddr
    rw [Batch.addr_queue] at haddr
    split_ifs at haddr with hnew hold
    · cases haddr
      rw [hnew.1]
      exact ha
    · cases haddr
      cases hsome
    · exact h.pending.addr isIPv6 d' a' haddr hsome
  · intro entry hentry
    have hentries : (file.queueFakeIP a d).pending.fakeIP.entries =
        (a, d) :: file.pending.fakeIP.entries.filter (·.1 ≠ a) := by
      unfold CacheFile.queueFakeIP Batch.queue
      cases file.load a <;> rfl
    rw [hentries] at hentry
    rcases List.mem_cons.1 hentry with rfl | hold
    · exact ha
    · exact h.pending.entries entry (List.mem_filter.1 hold).1

theorem foldl_putFakeIP {entries : List (Addr × String)} (hentries : ∀ entry ∈ entries, P (Addr.family entry.1) entry.1)
    {mapping : Mapping} (h : FakeIP.Filed P mapping) :
    FakeIP.Filed P (entries.foldl (fun mapping entry => putFakeIP mapping entry.1 entry.2) mapping) := by
  refine List.foldlRecOn (motive := FakeIP.Filed P) entries _ h fun mapping h entry hentry => ?_
  intro isIPv6 d a haddr
  change (mapping.put Addr.family entry.1 entry.2).addr isIPv6 d = some a at haddr
  rw [TwoWay.addr_put] at haddr
  split_ifs at haddr with hnew hold
  · cases haddr
    rw [hnew.1]
    exact hentries entry hentry
  · exact h isIPv6 d a haddr

theorem upkeep (h : file.Filed P M) (u : Upkeep) : (file.upkeep u).Filed P M := by
  cases u with
  | startFlush =>
    change file.startFlush.Filed P M
    unfold CacheFile.startFlush
    split_ifs
    · refine ⟨PendingWrites.filed_empty, ?_, h.disk, h.metadata⟩
      intro writes hwrites
      cases hwrites
      exact h.pending
    · exact h
  | commit entries =>
    change (file.commit entries).Filed P M
    unfold CacheFile.commit
    cases hwriting : file.writing with
    | none => exact h
    | some writes =>
      have hwrites := h.writing writes hwriting
      dsimp only
      split_ifs with hcommit
      · refine ⟨h.pending, fun _ heq => h.writing _ (hwriting.symm ▸ heq), ?_, ?_⟩
        · apply foldl_putFakeIP _ h.disk
          intro entry hentry
          exact hwrites.entries entry (hcommit.2.1.mem_iff.1 hentry)
        · intro metadata hmetadata
          rcases Option.or_eq_some_iff.1 hmetadata with hnew | ⟨-, hold⟩
          · exact hwrites.metadata metadata hnew
          · exact h.metadata metadata hold
      · exact h
  | endFlush =>
    change file.endFlush.Filed P M
    unfold CacheFile.endFlush
    split_ifs
    · exact ⟨h.pending, nofun, h.disk, h.metadata⟩
    · exact h

theorem reopen (h : file.Filed P M) : CacheFile.Filed P M { disk := file.disk } :=
  ⟨PendingWrites.filed_empty, nofun, h.disk, h.metadata⟩

end CacheFile.Filed

theorem cacheFile_guards : Guards P M cacheFileStorage (CacheFile.Filed P M) where
  loadDomain h hload := h.loadDomain hload
  storeAsync h ha d := h.queueFakeIP ha d
  saveMetadata {file metadata} h hmetadata := by
    refine ⟨⟨h.pending.addr, h.pending.entries, ?_⟩, h.writing, h.disk, h.metadata⟩
    intro metadata' heq
    cases heq
    exact hmetadata
  reset {file file'} _ hreset := by
    change file.reset = some file' at hreset
    unfold CacheFile.reset at hreset
    split_ifs at hreset
    cases hreset
    exact ⟨PendingWrites.filed_empty, nofun, nofun, nofun⟩
  upkeep h u := h.upkeep u

end

/-! ## Runs -/

section

variable {σ υ : Type} (ranges : Bool → Range)

structure Metadata.Of (metadata : Metadata) : Prop where
  inet4Range : metadata.inet4Range = ranges false
  inet6Range : metadata.inet6Range = ranges true
  inet4Current : metadata.inet4Current.isSome = true → Reached (ranges false) 1 metadata.inet4Current
  inet6Current : metadata.inet6Current.isSome = true → Reached (ranges true) 1 metadata.inet6Current

structure Within (Q : σ → Prop) (s : St σ) : Prop where
  storage : Q s.storage
  range : ∀ isIPv6, s.store.range isIPv6 = ranges isIPv6
  current : ∀ isIPv6, (s.store.current isIPv6).isSome = true → Reached (ranges isIPv6) 1 (s.store.current isIPv6)
  creating : ∀ d isIPv6, s.creating = some (d, isIPv6) → (s.store.current isIPv6).isSome = true

def StepWithin (Q : σ → Prop) (result : St σ × Option Answer) : Prop :=
  Within ranges Q result.1 ∧
    ∀ d isIPv6 a, result.2 = some ⟨d, isIPv6, .ok a⟩ → Inside (ranges isIPv6) a

variable {ranges} {S : Storage σ υ} {Q : σ → Prop} {s : St σ} {d : String} {isIPv6 : Bool}

theorem Within.of_silent (h : Within ranges Q s) : StepWithin ranges Q (s, none) := ⟨h, nofun⟩

theorem advance_reached {range : Range} (hroom : range.addr.next.isSome → range.addr.value + 2 < range.last.value)
    {a : Addr} (ha : a.isSome → Reached range 1 a) (n : ℕ)
    (hsome : ((advance range)^[n] a).isSome) : Reached range 1 ((advance range)^[n] a) := by
  induction n with
  | zero => exact ha hsome
  | succ n ih =>
    rw [Function.iterate_succ_apply'] at hsome ⊢
    unfold advance at hsome ⊢
    split_ifs at hsome ⊢ with hold
    · have hreached := ih hold
      exact (nextAddress_handed (hroom hreached.isSome_next) hreached).mono one_le_two
    · exact absurd hsome hold

section

variable (hfits : ∀ isIPv6, Fits (ranges isIPv6) (ranges !isIPv6) isIPv6)
  (hS : Guards (fun isIPv6 a => Inside (ranges isIPv6) a) (Metadata.Of ranges) S Q)

include hfits

theorem metadataAt_of (h : Within ranges Q s) (n : ℕ) : (s.store.metadataAt n).Of ranges where
  inet4Range := h.range false
  inet6Range := h.range true
  inet4Current := by
    change ((advance s.store.inet4Range)^[n] _).isSome → Reached _ 1 ((advance s.store.inet4Range)^[n] _)
    rw [show s.store.inet4Range = ranges false from h.range false]
    exact advance_reached (fun hsome => (hfits false hsome).1) (h.current false) n
  inet6Current := by
    change ((advance s.store.inet6Range)^[n] _).isSome → Reached _ 1 ((advance s.store.inet6Range)^[n] _)
    rw [show s.store.inet6Range = ranges true from h.range true]
    exact advance_reached (fun hsome => (hfits true hsome).1) (h.current true) n

include hS

theorem allocate_within (h : Within ranges Q s) (hsome : (s.store.current isIPv6).isSome) :
    StepWithin ranges Q (allocate S s d isIPv6) := by
  let store := { s.store with reservedCount := s.store.reservedCount - 1 }
  have hcurrent (isIPv6' : Bool) : (store.move isIPv6).current isIPv6' =
      if isIPv6' = isIPv6 then nextAddress (ranges isIPv6) (s.store.current isIPv6) else s.store.current isIPv6' := by
    rw [← h.range]
    exact store.current_move isIPv6 isIPv6'
  have hhanded : Reached (ranges isIPv6) 2 ((store.move isIPv6).current isIPv6) := by
    rw [hcurrent, if_pos rfl]
    have hreached := h.current isIPv6 hsome
    exact nextAddress_handed (hfits isIPv6 hreached.isSome_next).1 hreached
  refine ⟨⟨?_, ?_, ?_, nofun⟩, ?_⟩
  · -- the address is filed in its own family
    apply hS.storeAsync h.storage
    rcases (hfits isIPv6).found hhanded with hfamily | ⟨hfamily, hother⟩
    · rw [hfamily]
      exact hhanded.inside
    · rw [hfamily]
      exact hother
  · intro isIPv6'
    exact (store.range_move isIPv6 isIPv6').trans (h.range isIPv6')
  · intro isIPv6' hsome'
    change ((store.move isIPv6).current isIPv6').isSome at hsome'
    change Reached _ 1 ((store.move isIPv6).current isIPv6')
    by_cases heq : isIPv6' = isIPv6
    · subst heq
      exact hhanded.mono one_le_two
    · rw [hcurrent, if_neg heq] at hsome' ⊢
      exact h.current isIPv6' hsome'
  · intro d' isIPv6' a hanswer
    cases hanswer
    exact hhanded.inside

theorem create_within (h : Within ranges Q s) : StepWithin ranges Q (create S s d isIPv6) := by
  unfold create
  split
  · rename_i a hload
    refine ⟨h, ?_⟩
    intro d' isIPv6' a' hanswer
    cases hanswer
    exact hS.loadDomain h.storage hload
  · split_ifs with hnone
    · exact ⟨h, nofun⟩
    · refine ⟨⟨hS.saveMetadata h.storage (metadataAt_of hfits h _), h.range, h.current, ?_⟩, nofun⟩
      intro d' isIPv6' heq
      cases heq
      exact not_isNone.1 hnone
    · exact allocate_within hfits hS h (not_isNone.1 hnone)

theorem step_within (h : Within ranges Q s) (op : Op υ) : StepWithin ranges Q (step S s op) := by
  cases op with
  | create d isIPv6 =>
    cases hload : S.loadDomain s.storage d isIPv6 with
    | some a =>
      rw [step_create_found hload]
      refine ⟨h, ?_⟩
      intro d' isIPv6' a' hanswer
      cases hanswer
      exact hS.loadDomain h.storage hload
    | none =>
      unfold step
      dsimp only
      rw [hload]
      split_ifs
      · exact h.of_silent
      · exact create_within hfits hS h
  | resume =>
    unfold step
    cases hcreating : s.creating with
    | none => exact h.of_silent
    | some waiting =>
      have hsome := h.creating waiting.1 waiting.2 hcreating
      dsimp only
      split_ifs
      · exact allocate_within hfits hS ⟨h.storage, h.range, h.current, fun d isIPv6 heq =>
          h.creating d isIPv6 (hcreating.trans heq)⟩ hsome
      · exact h.of_silent
  | reset =>
    unfold step
    cases hreset : S.reset s.storage with
    | none => exact h.of_silent
    | some storage => exact ⟨⟨hS.reset h.storage hreset, h.range, h.current, h.creating⟩, nofun⟩
  | upkeep u => exact ⟨⟨hS.upkeep h.storage u, h.range, h.current, h.creating⟩, nofun⟩

theorem run_within (h : Within ranges Q s) (ops : List (Op υ)) : Within ranges Q (run S s ops) :=
  List.foldlRecOn (motive := Within ranges Q) ops _ h fun _ h op _ => (step_within hfits hS h op).1

end

def Store.contains (store : Store) (address : Addr) : Bool :=
  store.inet4Range.contains address || store.inet6Range.contains address

/-- every address that `Create` returns from here on lies inside its range, and the store has it -/
def AllInside (S : Storage σ υ) (ranges : Bool → Range) (s : St σ) : Prop :=
  ∀ ops op d isIPv6 a, (step S (run S s ops) op).2 = some ⟨d, isIPv6, .ok a⟩ →
    Inside (ranges isIPv6) a ∧ (run S s ops).store.contains a = true

theorem run_inside (hfits : ∀ isIPv6, Fits (ranges isIPv6) (ranges !isIPv6) isIPv6)
    (hS : Guards (fun isIPv6 a => Inside (ranges isIPv6) a) (Metadata.Of ranges) S Q) (h : Within ranges Q s) :
    AllInside S ranges s := by
  intro ops op d isIPv6 a hanswer
  have hrun := run_within hfits hS h ops
  have hinside := (step_within hfits hS hrun op).2 d isIPv6 a hanswer
  refine ⟨hinside, ?_⟩
  rw [Store.contains, Bool.or_eq_true]
  cases isIPv6 with
  | false => exact .inl ((congrArg (Range.contains · a) (hrun.range false)).trans hinside.1)
  | true => exact .inr ((congrArg (Range.contains · a) (hrun.range true)).trans hinside.1)

/-! ## Starts -/

def familyRange (inet4Range inet6Range : Range) (isIPv6 : Bool) : Range := if isIPv6 then inet6Range else inet4Range

variable {inet4Range inet6Range : Range}

theorem startFresh_within (hfits : ∀ isIPv6, Fits (familyRange inet4Range inet6Range isIPv6)
    (familyRange inet4Range inet6Range !isIPv6) isIPv6) {storage storage' : σ} (hreset : S.reset storage = some storage')
    (hstorage : Q storage') : Within (familyRange inet4Range inet6Range) Q (startFresh S inet4Range inet6Range storage) := by
  refine ⟨?_, ?_, ?_, nofun⟩
  · change Q ((S.reset storage).getD storage)
    rw [hreset]
    exact hstorage
  · intro isIPv6
    cases isIPv6 <;> rfl
  · intro isIPv6 hsome
    have hcurrent : (startFresh S inet4Range inet6Range storage).store.current isIPv6 =
        (familyRange inet4Range inet6Range isIPv6).addr.next := by
      cases isIPv6 <;> rfl
    rw [hcurrent] at hsome ⊢
    exact reached_second (hfits isIPv6 hsome).1 hsome

end

section

variable {inet4Range inet6Range : Range}

def close (s : St CacheFile) : CacheFile := s.storage.saveMetadata (s.store.metadataAt 0)

variable (inet4Range inet6Range) in
inductive Left : CacheFile → Prop where
  | other (file : CacheFile) (hwriting : file.writing = none)
      (hmetadata : ∀ metadata, file.disk.metadata = some metadata →
        ¬ (metadata.inet4Range = inet4Range ∧ metadata.inet6Range = inet6Range)) : Left file
  | stopped {file : CacheFile} (h : Left file) (ops : List (Op Upkeep)) :
      Left { disk := (run cacheFileStorage (start cacheFileStorage inet4Range inet6Range file) ops).storage.disk }
  | closed {file : CacheFile} (h : Left file) (ops : List (Op Upkeep)) (flushes : List Upkeep) :
      Left { disk := (flushes.foldl CacheFile.upkeep
        (close (run cacheFileStorage (start cacheFileStorage inet4Range inet6Range file) ops))).disk }

abbrev FileWithin (inet4Range inet6Range : Range) : CacheFile → Prop :=
  CacheFile.Filed (fun isIPv6 a => Inside (familyRange inet4Range inet6Range isIPv6) a)
    (Metadata.Of (familyRange inet4Range inet6Range))

theorem fileWithin_empty : FileWithin inet4Range inet6Range {} := ⟨PendingWrites.filed_empty, nofun, nofun, nofun⟩

variable (hfits : ∀ isIPv6, Fits (familyRange inet4Range inet6Range isIPv6)
  (familyRange inet4Range inet6Range !isIPv6) isIPv6)

include hfits

theorem start_within {file : CacheFile} (hwriting : file.writing = none)
    (h : ∀ metadata, file.disk.metadata = some metadata →
      metadata.inet4Range = inet4Range ∧ metadata.inet6Range = inet6Range → FileWithin inet4Range inet6Range file) :
    Within (familyRange inet4Range inet6Range) (FileWithin inet4Range inet6Range)
      (start cacheFileStorage inet4Range inet6Range file) := by
  have hreset : cacheFileStorage.reset file = some {} := by
    change file.reset = some {}
    rw [CacheFile.reset, hwriting]
    rfl
  unfold start
  split
  · rename_i metadata hmetadata
    split_ifs with hranges
    · have hfile := h metadata hmetadata hranges
      have hof := hfile.metadata metadata hmetadata
      refine ⟨hfile, ?_, ?_, nofun⟩
      · intro isIPv6
        cases isIPv6 <;> rfl
      · intro isIPv6
        cases isIPv6 with
        | false => exact hof.inet4Current
        | true => exact hof.inet6Current
    · exact startFresh_within hfits hreset fileWithin_empty
  · exact startFresh_within hfits hreset fileWithin_empty

theorem Left.within {file : CacheFile} (h : Left inet4Range inet6Range file) :
    Within (familyRange inet4Range inet6Range) (FileWithin inet4Range inet6Range)
      (start cacheFileStorage inet4Range inet6Range file) := by
  induction h with
  | other file hwriting hmetadata =>
    exact start_within hfits hwriting fun metadata heq hranges => absurd hranges (hmetadata metadata heq)
  | stopped _ ops ih =>
    have hrun := run_within hfits cacheFile_guards ih ops
    exact start_within hfits rfl fun _ _ _ => hrun.storage.reopen
  | closed _ ops flushes ih =>
    have hrun := run_within hfits cacheFile_guards ih ops
    have hclose : FileWithin inet4Range inet6Range (close (run cacheFileStorage _ ops)) :=
      cacheFile_guards.saveMetadata hrun.storage (metadataAt_of hfits hrun 0)
    have hflushed := List.foldlRecOn (motive := FileWithin inet4Range inet6Range) flushes CacheFile.upkeep hclose
      fun _ h u _ => h.upkeep u
    exact start_within hfits rfl fun _ _ _ => hflushed.reopen

end

/-! ## Ranges that do not fit -/

section

variable {s : St Mapping} {isIPv6 : Bool}

theorem exists_allocate (hcreating : s.creating = none) (hload : s.storage.addr isIPv6 "a" = none)
    (hsome : (s.store.current isIPv6).isSome) : ∃ ops op n, step memoryStorage (run memoryStorage s ops) op =
      allocate memoryStorage { s with store := { s.store with reservedCount := n } } "a" isIPv6 := by
  have hnone : memoryStorage.loadDomain s.storage "a" isIPv6 = none := hload
  have hcreate : step memoryStorage s (.create "a" isIPv6) = create memoryStorage s "a" isIPv6 := by
    rw [step, hnone, hcreating]
    rfl
  by_cases hreserved : s.store.reservedCount = 0
  · refine ⟨[.create "a" isIPv6], .resume, reservedAddressCount, ?_⟩
    have hfirst : run memoryStorage s [.create "a" isIPv6] = { s with creating := some ("a", isIPv6) } := by
      change (step memoryStorage s (.create "a" isIPv6)).1 = _
      rw [hcreate]
      rw [create, hnone]
      rw [if_neg (not_isNone.2 hsome), if_pos hreserved]
      rfl
    rw [hfirst]
    rfl
  · refine ⟨[], .create "a" isIPv6, s.store.reservedCount, ?_⟩
    change step memoryStorage s (.create "a" isIPv6) = _
    rw [hcreate]
    rw [create, hnone]
    rw [if_neg (not_isNone.2 hsome), if_neg hreserved]

structure Moved (own : Range) (isIPv6 : Bool) (n : ℕ) (s : St Mapping) : Prop where
  creating : s.creating = none
  load : s.storage.addr isIPv6 "a" = none
  range : s.store.range isIPv6 = own
  current : s.store.current isIPv6 = (nextAddress own)^[n] own.addr.next

variable {own : Range} {n : ℕ}

theorem start_moved (inet4Range inet6Range : Range) (isIPv6 : Bool) :
    Moved (familyRange inet4Range inet6Range isIPv6) isIPv6 0 (start memoryStorage inet4Range inet6Range .empty) := by
  cases isIPv6 <;> exact ⟨rfl, rfl, rfl, rfl⟩

theorem Moved.allocates (h : Moved own isIPv6 n s) (hsome : ((nextAddress own)^[n] own.addr.next).isSome) :
    ∃ ops op, let result := step memoryStorage (run memoryStorage s ops) op
      let a := (nextAddress own)^[n + 1] own.addr.next
      result.2 = some ⟨"a", isIPv6, .ok a⟩ ∧ result.1.storage.addr a.family "a" = some a ∧
        (a.family ≠ isIPv6 → Moved own isIPv6 (n + 1) result.1) := by
  rw [← h.current] at hsome
  obtain ⟨ops, op, count, hstep⟩ := exists_allocate h.creating h.load hsome
  have hrange (isIPv6' : Bool) : ({ s.store with reservedCount := count - 1 }.move isIPv6).range isIPv6' =
      s.store.range isIPv6' := Store.range_move _ _ _
  have hcurrent : ({ s.store with reservedCount := count - 1 }.move isIPv6).current isIPv6 =
      (nextAddress own)^[n + 1] own.addr.next := by
    rw [Function.iterate_succ_apply', ← h.current, ← h.range]
    exact (Store.current_move _ _ _).trans (if_pos rfl)
  refine ⟨ops, op, ?_⟩
  rw [hstep, ← hcurrent]
  refine ⟨rfl, ?_, fun hfamily => ⟨rfl, ?_, (hrange isIPv6).trans h.range, hcurrent⟩⟩
  · change (TwoWay.store Addr.family _ _ _).addr _ _ = _
    rw [TwoWay.addr_store, if_pos ⟨rfl, rfl⟩]
  · change (TwoWay.store Addr.family _ _ _).addr _ _ = _
    rw [TwoWay.addr_store, if_neg fun heq => hfamily heq.1.symm, if_neg fun heq => hfamily heq.1.symm]
    exact h.load

end

section

variable {inet4Range inet6Range : Range} {isIPv6 : Bool}

theorem run_append {σ υ : Type} (S : Storage σ υ) (s : St σ) (ops ops' : List (Op υ)) :
    run S s (ops ++ ops') = run S (run S s ops) ops' := List.foldl_append

theorem exists_moved {own : Range} {base low high : IP} (hown : own = familyRange inet4Range inet6Range isIPv6)
    (hrange : Interval own base low high) (hfamily : own.addr.family ≠ isIPv6) (n : ℕ)
    (hn : base.value + 1 + n < high.value) : ∃ ops,
    let s := run memoryStorage (start memoryStorage inet4Range inet6Range .empty) ops
    let a := (nextAddress own)^[n] own.addr.next
    Moved own isIPv6 n s ∧ (n ≠ 0 → s.storage.addr a.family "a" = some a) := by
  induction n with
  | zero =>
    refine ⟨[], ?_, fun h => absurd rfl h⟩
    rw [hown]
    exact start_moved inet4Range inet6Range isIPv6
  | succ n ih =>
    obtain ⟨ops, hmoved, -⟩ := ih (by omega)
    obtain ⟨ip, hip, -⟩ := iterate_nextAddress hrange n (by omega)
    obtain ⟨ip', hip', hfamily', -⟩ := iterate_nextAddress hrange (n + 1) hn
    have hother : Addr.family ((nextAddress own)^[n + 1] own.addr.next) ≠ isIPv6 := by
      rwa [hip', Addr.family_some, hfamily', ← Addr.family_some, ← hrange.addr]
    obtain ⟨ops', op, -, hfiled, hmoved'⟩ := hmoved.allocates (by rw [hip]; rfl)
    refine ⟨ops ++ (ops' ++ [op]), ?_⟩
    rw [run_append, run_append]
    exact ⟨hmoved' hother, fun _ => hfiled⟩

section

variable (h : AllInside memoryStorage (familyRange inet4Range inet6Range) (start memoryStorage inet4Range inet6Range .empty))
include h

theorem inside_other {own : Range} {base low high : IP}
    (hown : own = familyRange inet4Range inet6Range isIPv6) (hrange : Interval own base low high)
    (hfamily : own.addr.family ≠ isIPv6) (n : ℕ) (hn : base.value + 1 + (n + 1) < high.value) :
    ∃ ip, Inside (familyRange inet4Range inet6Range !isIPv6) (some ip) ∧
      (nextAddress own)^[n + 1] own.addr.next = some ip ∧ ip.value = base.value + 1 + (n + 1) := by
  obtain ⟨ops, -, hfiled⟩ := exists_moved hown hrange hfamily (n + 1) hn
  obtain ⟨ip, hip, hfamily', hvalue⟩ := iterate_nextAddress hrange (n + 1) hn
  have hnot : Addr.family (some ip) = !isIPv6 := by
    rw [Addr.family_some, hfamily', ← Addr.family_some, ← hrange.addr]
    exact Bool.eq_not_of_ne hfamily
  have hload := hfiled (Nat.succ_ne_zero n)
  rw [hip, hnot] at hload
  refine ⟨ip, ?_, hip, hvalue⟩
  apply And.left
  apply h ops (.create "a" !isIPv6) "a"
  rw [step_create_found hload]

theorem fits_of_allInside (isIPv6 : Bool) :
    Fits (familyRange inet4Range inet6Range isIPv6) (familyRange inet4Range inet6Range !isIPv6) isIPv6 := by
  intro hsecond
  have hthird : Inside (familyRange inet4Range inet6Range isIPv6)
      (familyRange inet4Range inet6Range isIPv6).addr.next.next := by
    obtain ⟨ops, op, hanswer, -⟩ := (start_moved inet4Range inet6Range isIPv6).allocates hsecond
    rw [← nextAddress_first]
    exact (h ops op "a" isIPv6 _ hanswer).1
  generalize hown : familyRange inet4Range inet6Range isIPv6 = own at hsecond hthird ⊢
  obtain ⟨base, hbase⟩ := Option.isSome_iff_exists.1 (isSome_of_next hsecond)
  obtain ⟨low, high, hrange⟩ := Range.interval hbase
  have hroom : base.value + 2 < high.value := by
    obtain ⟨second, hnext⟩ := Option.isSome_iff_exists.1 hsecond
    obtain ⟨third, hnext'⟩ := Option.isSome_iff_exists.1 (family_of_contains hthird.1).1
    rw [hnext'] at hthird
    rw [hnext] at hnext'
    rw [hbase] at hnext
    have hvalue := (Addr.next_eq_some.1 hnext).2
    have hvalue' := (Addr.next_eq_some.1 hnext').2
    have hlast := (hrange.inside_iff.1 hthird).2.2
    omega
  refine ⟨by rw [hrange.addr, hrange.last]; exact hroom, ?_⟩
  by_cases hfamily : own.addr.family = isIPv6
  · exact .inl hfamily
  · -- the first and the last address that are handed out bound the others
    right
    constructor
    · obtain ⟨third, hinside, heq, -⟩ := inside_other h hown.symm hrange hfamily 0 (by omega)
      change nextAddress own own.addr.next = some third at heq
      rw [← nextAddress_first, heq]
      exact hinside
    · obtain ⟨ip, hinside, -, hvalue⟩ := inside_other h hown.symm hrange hfamily (high.value - base.value - 3) (by omega)
      obtain ⟨base', hbase'⟩ := Option.isSome_iff_exists.1 (isSome_of_contains hinside.1)
      obtain ⟨low', high', hother⟩ := Range.interval hbase'
      have hlast := (hother.inside_iff.1 hinside).2.2
      rw [hrange.last, hother.last]
      change high.value ≤ high'.value
      omega

end

end

/-- **The addresses lie inside their ranges**, neither the first nor the last one, if and only if both ranges fit. -/
theorem addresses_inside (inet4Range inet6Range : Range) :
    (AllInside memoryStorage (familyRange inet4Range inet6Range)
        (start memoryStorage inet4Range inet6Range .empty) ∧
      ∀ file, Left inet4Range inet6Range file →
        AllInside cacheFileStorage (familyRange inet4Range inet6Range)
          (start cacheFileStorage inet4Range inet6Range file)) ↔
    Fits inet4Range inet6Range false ∧ Fits inet6Range inet4Range true := by
  constructor
  · intro h
    exact ⟨fits_of_allInside h.1 false, fits_of_allInside h.1 true⟩
  · intro h
    have hfits : ∀ isIPv6, Fits (familyRange inet4Range inet6Range isIPv6)
        (familyRange inet4Range inet6Range !isIPv6) isIPv6 := by
      intro isIPv6
      cases isIPv6 with
      | false => exact h.1
      | true => exact h.2
    refine ⟨?_, fun file hfile => run_inside hfits cacheFile_guards (hfile.within hfits)⟩
    exact run_inside hfits (memory_guards _ _) (startFresh_within hfits rfl nofun)

/-- 198.18.0.0/31 hands out 198.18.0.2, which is not in it, and 198.18.0.253/24 its last address -/
theorem small_range_leaves :
    (let range : Range := ⟨some (.v4 0xC6120000#32), 31⟩
      let first := start memoryStorage range {} .empty
      (step memoryStorage (run memoryStorage first [.create "a" false]) .resume).2 =
          some ⟨"a", false, .ok (some (.v4 0xC6120002#32))⟩ ∧
        range.contains (some (.v4 0xC6120002#32)) = false ∧ ¬ AllInside memoryStorage (familyRange range {}) first) ∧
    (let range : Range := ⟨some (.v4 0xC61200FD#32), 24⟩
      let first := start memoryStorage range {} .empty
      (step memoryStorage (run memoryStorage first [.create "a" false]) .resume).2 = some ⟨"a", false, .ok range.last⟩ ∧
        ¬ AllInside memoryStorage (familyRange range {}) first) := by
  refine ⟨⟨rfl, rfl, fun h => ?_⟩, rfl, fun h => ?_⟩
  · have hinside := (h [.create "a" false] .resume "a" false _ rfl).1.1
    cases hinside
  · exact (h [.create "a" false] .resume "a" false _ rfl).1.2.2 rfl

end EtonifyCore.FakeIP
