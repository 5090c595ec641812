/-
The fake-IP mapping stays a bijection, in memory and in the cache file.

Both storages do to a two-way map what `MemoryStorage` does (`Implements`). For the cache file the map is the buffer over the
batch that is being written over the database (`Buffered`). `run_inv`: in every run the storage stands for the map that the
stores make in memory, a bijection.

Premise: the ranges are usable (`Usable`).
-/
import EtonifyCore.FakeIP.Store

namespace EtonifyCore.FakeIP

open Core (TwoWay Batch)
open CacheFile

/-! ## Addresses of a range -/

/-- the range has addresses of the family, and its third address exists if its second one does -/
def Usable (range : Range) (isIPv6 : Bool) : Prop :=
  range.addr.next.isSome = true → range.addr.family = isIPv6 ∧ range.addr.next.next.isSome = true

variable {a : Addr}

theorem family_next (h : a.next.isSome) : a.next.family = a.family := by
  rcases a with _ | ⟨bits⟩ | ⟨bits⟩
  · rfl
  · simp only [Addr.next] at h ⊢
    split at h
    · cases h
    · rename_i hne
      rw [if_neg hne]
      rfl
  · simp only [Addr.next] at h ⊢
    split at h
    · cases h
    · rename_i hne
      rw [if_neg hne]
      rfl

theorem isSome_of_next (h : a.next.isSome) : a.isSome := by
  cases a with
  | none => cases h
  | some ip => rfl

theorem family_of_contains {range : Range} (h : range.contains a) : a.isSome ∧ a.family = range.addr.family := by
  unfold Range.contains at h
  split at h
  · rename_i hrange
    rw [hrange]
    exact ⟨rfl, rfl⟩
  · rename_i hrange
    rw [hrange]
    exact ⟨rfl, rfl⟩
  · cases h

/-- the position of a family: there is none, or it is an address of the family -/
def Positioned (range : Range) (isIPv6 : Bool) (a : Addr) : Prop :=
  a.isSome = true → range.addr.next.isSome = true ∧ a.family = isIPv6

theorem positioned_first {range : Range} {isIPv6 : Bool} (h : Usable range isIPv6) :
    Positioned range isIPv6 range.addr.next := fun hsome => ⟨hsome, (family_next hsome).trans (h hsome).1⟩

theorem nextAddress_positioned {range : Range} {isIPv6 : Bool} (h : Usable range isIPv6)
    (hsome : a.isSome) (ha : Positioned range isIPv6 a) :
    (nextAddress range a).isSome ∧ (nextAddress range a).family = isIPv6 := by
  obtain ⟨hnext, -⟩ := ha hsome
  obtain ⟨hfamily, hthird⟩ := h hnext
  unfold nextAddress
  dsimp only
  split
  · exact ⟨hthird, (family_next hthird).trans ((family_next hnext).trans hfamily)⟩
  · rename_i hin
    have hcontains : range.contains a.next := by
      rw [← Bool.not_eq_false]
      exact fun hno => hin (.inr hno)
    obtain ⟨hsome', hfamily'⟩ := family_of_contains hcontains
    exact ⟨hsome', hfamily'.trans hfamily⟩

/-! ## What a storage stands for -/

structure Implements {σ υ : Type} (S : Storage σ υ) (Rel : σ → Mapping → Prop) : Prop where
  inverse : ∀ {storage m}, Rel storage m → m.Inverse Addr.family
  load : ∀ {storage m}, Rel storage m → ∀ a, S.load storage a = m.name a
  loadDomain : ∀ {storage m}, Rel storage m → ∀ d isIPv6, S.loadDomain storage d isIPv6 = m.addr isIPv6 d
  storeAsync : ∀ {storage m}, Rel storage m → ∀ a d, a.isSome = true → m.addr a.family d = none →
    Rel (S.storeAsync storage a d) (m.store Addr.family a d)
  saveMetadata : ∀ {storage m}, Rel storage m → ∀ metadata, Rel (S.saveMetadata storage metadata) m
  reset : ∀ {storage m}, Rel storage m → ∀ storage', S.reset storage = some storage' → Rel storage' .empty
  upkeep : ∀ {storage m}, Rel storage m → ∀ u, Rel (S.upkeep storage u) m

def InMemory (storage m : Mapping) : Prop := storage = m ∧ m.Inverse Addr.family

theorem memory_implements : Implements memoryStorage InMemory where
  inverse h := h.2
  load h a := by rw [← h.1]; rfl
  loadDomain h d isIPv6 := by rw [← h.1]; rfl
  storeAsync h a d _ hd := ⟨by rw [← h.1]; rfl, h.2.store hd⟩
  saveMetadata h _ := h
  reset _ storage' hreset := ⟨(Option.some.inj hreset).symm, TwoWay.inverse_empty⟩
  upkeep _ u := nomatch u

/-! ## Cache file -/

namespace CacheFile

def base (file : CacheFile) : Mapping :=
  match file.writing with
  | some writing => writing.fakeIP.overlay none file.disk.fakeIP
  | none => file.disk.fakeIP

def seen (file : CacheFile) : Mapping := file.pending.fakeIP.overlay none file.base

end CacheFile

/-- the database has no entry that a load would not show -/
structure Shown (m : Mapping) : Prop where
  name : ∀ a, m.name a ≠ some ""
  addr : ∀ isIPv6 d, m.addr isIPv6 d ≠ some none

structure Buffered (file : CacheFile) (m : Mapping) : Prop where
  seen : file.seen = m
  inverse : m.Inverse Addr.family
  disk : file.disk.fakeIP.Inverse Addr.family
  shown : Shown file.disk.fakeIP
  base : file.base.Inverse Addr.family
  pending : file.pending.fakeIP.Fits Addr.family none file.base
  /-- the batch that is being written is still to be written, or is written -/
  writing : ∀ writing, file.writing = some writing →
    (file.committed = false → writing.fakeIP.Fits Addr.family none file.disk.fakeIP) ∧
    (file.committed = true → writing.fakeIP.overlay none file.disk.fakeIP = file.disk.fakeIP)

theorem buffered_empty : Buffered {} .empty :=
  ⟨rfl, TwoWay.inverse_empty, TwoWay.inverse_empty, ⟨nofun, nofun⟩, TwoWay.inverse_empty, Batch.fits_empty, nofun⟩

namespace Buffered

variable {file : CacheFile} {m : Mapping}

theorem load (h : Buffered file m) (a : Addr) : file.load a = m.name a := by
  have hdisk : (file.disk.fakeIP.name a).filter (· ≠ "") = file.disk.fakeIP.name a := by
    cases hname : file.disk.fakeIP.name a with
    | none => rfl
    | some d =>
      have hd : d ≠ "" := fun heq => h.shown.name a (hname.trans (congrArg some heq))
      simp [Option.filter, hd]
  rw [← h.seen]
  change _ = (file.pending.fakeIP.lookup a).or (file.base.name a)
  unfold CacheFile.load CacheFile.base
  rw [hdisk]
  cases file.pending.fakeIP.lookup a with
  | some d => rfl
  | none =>
    cases file.writing with
    | none => rfl
    | some writing =>
      change _ = (writing.fakeIP.lookup a).or (file.disk.fakeIP.name a)
      cases hlookup : writing.fakeIP.lookup a with
      | none => simp [hlookup]
      | some d => simp [hlookup]

theorem filter_addr (b : Batch Addr Bool String) (below : Mapping) (isIPv6 : Bool) (d : String) :
    (b.overlay none below).addr isIPv6 d =
      match b.addr isIPv6 d with
      | some a => (some a).filter Option.isSome
      | none => below.addr isIPv6 d := by
  rw [Batch.addr_overlay]
  cases b.addr isIPv6 d with
  | none => rfl
  | some a => cases a <;> rfl

theorem loadDomain (h : Buffered file m) (d : String) (isIPv6 : Bool) : file.loadDomain d isIPv6 = m.addr isIPv6 d := by
  have hdisk : (file.disk.fakeIP.addr isIPv6 d).filter Option.isSome = file.disk.fakeIP.addr isIPv6 d := by
    cases haddr : file.disk.fakeIP.addr isIPv6 d with
    | none => rfl
    | some a =>
      cases a with
      | none => exact absurd haddr (h.shown.addr isIPv6 d)
      | some ip => rfl
  rw [← h.seen]
  unfold CacheFile.loadDomain CacheFile.seen CacheFile.base
  rw [filter_addr]
  cases file.pending.fakeIP.addr isIPv6 d with
  | some a => rfl
  | none =>
    cases file.writing with
    | none => exact hdisk
    | some writing =>
      rw [filter_addr]
      change (match writing.fakeIP.addr isIPv6 d with
        | some a => some a
        | none => file.disk.fakeIP.addr isIPv6 d).filter Option.isSome = _
      cases writing.fakeIP.addr isIPv6 d with
      | some a => rfl
      | none => exact hdisk

theorem queueFakeIP (h : Buffered file m) {d : String} (ha : a.isSome) (hd : m.addr a.family d = none) :
    Buffered (file.queueFakeIP a d) (m.store Addr.family a d) := by
  have hne : a ≠ none := fun heq => by rw [heq] at ha; cases ha
  have hqueue : file.queueFakeIP a d = { file with pending := { file.pending with
      fakeIP := file.pending.fakeIP.queue Addr.family none (file.seen.name a) a d } } := by
    unfold CacheFile.queueFakeIP
    rw [h.load, h.seen]
  have hseen := h.seen
  rw [hqueue]
  refine ⟨?_, h.inverse.store hd, h.disk, h.shown, h.base, ?_, h.writing⟩
  · rw [← hseen]
    exact Batch.overlay_queue hne
  · apply h.pending.queue h.base
    · change file.seen.Inverse _
      exact hseen ▸ h.inverse
    · exact hne
    · change file.seen.addr _ d = none
      exact hseen ▸ hd

theorem startFlush (h : Buffered file m) : Buffered file.startFlush m := by
  unfold CacheFile.startFlush
  cases hwriting : file.writing with
  | some writing => exact h
  | none =>
    have hbase : file.base = file.disk.fakeIP := by
      unfold CacheFile.base
      rw [hwriting]
    have hseen : file.pending.fakeIP.overlay none file.disk.fakeIP = m := hbase ▸ h.seen
    have hinverse : (file.pending.fakeIP.overlay none file.disk.fakeIP).Inverse Addr.family := hseen ▸ h.inverse
    refine ⟨hseen, h.inverse, h.disk, h.shown, hinverse, Batch.fits_empty, ?_⟩
    intro writing heq
    obtain rfl := Option.some.inj heq
    exact ⟨fun _ => hbase ▸ h.pending, nofun⟩

theorem shown_overlay {writing : Batch Addr Bool String} (h : Shown file.disk.fakeIP) {entries : List (Addr × String)}
    (hperm : entries.Perm writing.entries) (hkeys : entries.all (fun entry => acceptsKeys entry.1 entry.2)) :
    Shown (writing.overlay none file.disk.fakeIP) := by
  constructor
  · intro a hname
    change (writing.lookup a).or (file.disk.fakeIP.name a) = some "" at hname
    cases hlookup : writing.lookup a with
    | none =>
      rw [hlookup] at hname
      exact h.name a hname
    | some d =>
      rw [hlookup] at hname
      obtain rfl : d = "" := Option.some.inj hname
      have hmem : (a, "") ∈ entries := hperm.mem_iff.2 (Batch.mem_of_lookup hlookup)
      have haccepts := List.all_eq_true.1 hkeys _ hmem
      simp [acceptsKeys] at haccepts
  · intro isIPv6 d haddr
    rw [Batch.addr_overlay] at haddr
    split at haddr
    · split_ifs at haddr with ha
      exact ha (Option.some.inj haddr)
    · exact h.addr isIPv6 d haddr

theorem commit (h : Buffered file m) (entries : List (Addr × String)) : Buffered (file.commit entries) m := by
  unfold CacheFile.commit
  cases hwriting : file.writing with
  | none => exact h
  | some writing =>
    dsimp only
    split
    · rename_i hcommit
      obtain ⟨hopen, hperm, hkeys⟩ := hcommit
      have hbase : file.base = writing.fakeIP.overlay none file.disk.fakeIP := by
        unfold CacheFile.base
        rw [hwriting]
      have hdisk : entries.foldl (fun mapping entry => putFakeIP mapping entry.1 entry.2) file.disk.fakeIP =
          writing.fakeIP.overlay none file.disk.fakeIP :=
        Batch.foldl_put ((h.writing writing hwriting).1 hopen) h.disk hperm
      have hbase' : writing.fakeIP.overlay none (writing.fakeIP.overlay none file.disk.fakeIP) = file.base := by
        rw [Batch.overlay_overlay, hbase]
      rw [hdisk]
      refine ⟨?_, h.inverse, hbase ▸ h.base, shown_overlay h.shown hperm hkeys, ?_, ?_, ?_⟩
      · rw [← h.seen]
        exact congrArg (file.pending.fakeIP.overlay none) hbase'
      · change (Batch.overlay _ _ _).Inverse _
        exact hbase'.symm ▸ h.base
      · change file.pending.fakeIP.Fits _ _ (Batch.overlay _ _ _)
        exact hbase'.symm ▸ h.pending
      · intro writing' heq
        obtain rfl := Option.some.inj heq
        exact ⟨nofun, fun _ => Batch.overlay_overlay⟩
    · exact h

theorem endFlush (h : Buffered file m) : Buffered file.endFlush m := by
  unfold CacheFile.endFlush
  cases hcommitted : file.committed with
  | false => exact h
  | true =>
    have hbase : file.disk.fakeIP = file.base := by
      unfold CacheFile.base
      cases hwriting : file.writing with
      | none => rfl
      | some writing => exact ((h.writing writing hwriting).2 hcommitted).symm
    refine ⟨?_, h.inverse, h.disk, h.shown, h.disk, ?_, nofun⟩
    · rw [← h.seen]
      exact congrArg (file.pending.fakeIP.overlay none) hbase
    · change file.pending.fakeIP.Fits _ _ file.disk.fakeIP
      exact hbase ▸ h.pending

end Buffered

theorem cacheFile_implements : Implements cacheFileStorage Buffered where
  inverse h := h.inverse
  load h := h.load
  loadDomain h := h.loadDomain
  storeAsync h _ _ := h.queueFakeIP
  saveMetadata h _ := { h with }
  reset _ file' hreset := by
    change (if _ then _ else _) = _ at hreset
    split_ifs at hreset
    rw [← Option.some.inj hreset]
    exact buffered_empty
  upkeep h u := by
    cases u with
    | startFlush => exact h.startFlush
    | commit entries => exact h.commit entries
    | endFlush => exact h.endFlush

/-! ## Runs -/

def Event.apply (m : Mapping) : Event → Mapping
  | .stored address domain => memoryStorage.storeAsync m address domain
  | .reset => .empty

def replay (stores : List Event) : Mapping := stores.foldl Event.apply .empty

theorem replay_append (stores : List Event) (event : Event) : replay (stores ++ [event]) = event.apply (replay stores) := by
  simp [replay]

theorem Store.range_move (store : Store) (isIPv6 isIPv6' : Bool) : (store.move isIPv6).range isIPv6' = store.range isIPv6' := by
  cases isIPv6 <;> cases isIPv6' <;> rfl

theorem Store.current_move (store : Store) (isIPv6 isIPv6' : Bool) : (store.move isIPv6).current isIPv6' =
    if isIPv6' = isIPv6 then nextAddress (store.range isIPv6) (store.current isIPv6) else store.current isIPv6' := by
  cases isIPv6 <;> cases isIPv6' <;> rfl

section

variable {σ υ : Type} {S : Storage σ υ} {Rel : σ → Mapping → Prop} {s : St σ} {d : String} {isIPv6 : Bool} {a : Addr}

structure Ranged (store : Store) : Prop where
  usable : ∀ isIPv6, Usable (store.range isIPv6) isIPv6
  positioned : ∀ isIPv6, Positioned (store.range isIPv6) isIPv6 (store.current isIPv6)

theorem Ranged.move {store : Store} (h : Ranged store) (hsome : (store.current isIPv6).isSome) :
    Ranged (store.move isIPv6) := by
  constructor
  · intro isIPv6'
    rw [Store.range_move]
    exact h.usable isIPv6'
  · intro isIPv6'
    rw [Store.range_move, Store.current_move]
    split_ifs with heq
    · subst heq
      intro _
      exact ⟨(h.positioned isIPv6' hsome).1, (nextAddress_positioned (h.usable isIPv6') hsome (h.positioned isIPv6')).2⟩
    · exact h.positioned isIPv6'

structure Inv (Rel : σ → Mapping → Prop) (s : St σ) : Prop where
  storage : Rel s.storage (replay s.stores)
  ranged : Ranged s.store
  /-- the domain of a `Create` that waits has no address, and there is one for it -/
  creating : ∀ d isIPv6, s.creating = some (d, isIPv6) →
    (replay s.stores).addr isIPv6 d = none ∧ (s.store.current isIPv6).isSome = true

inductive Does (stores : List Event) : List Event → Option Answer → Prop where
  | nothing : Does stores stores none
  | found {d : String} {isIPv6 : Bool} {a : Addr} (h : (replay stores).addr isIPv6 d = some a) :
    Does stores stores (some ⟨d, isIPv6, .ok a⟩)
  | refused {d : String} {isIPv6 : Bool} {err : Err} : Does stores stores (some ⟨d, isIPv6, .error err⟩)
  | stored {d : String} {isIPv6 : Bool} {a : Addr} (hfamily : a.family = isIPv6)
    (h : (replay stores).addr isIPv6 d = none) :
    Does stores (stores ++ [.stored a d]) (some ⟨d, isIPv6, .ok a⟩)
  | reset : Does stores (stores ++ [.reset]) none

def Steps (Rel : σ → Mapping → Prop) (s : St σ) (result : St σ × Option Answer) : Prop :=
  Inv Rel result.1 ∧ Does s.stores result.1.stores result.2

theorem allocate_steps (hS : Implements S Rel) (hstorage : Rel s.storage (replay s.stores)) (hranged : Ranged s.store)
    (hd : (replay s.stores).addr isIPv6 d = none) (hsome : (s.store.current isIPv6).isSome) :
    Steps Rel s (allocate S s d isIPv6) := by
  let store := { s.store with reservedCount := s.store.reservedCount - 1 }
  have haddress : (store.move isIPv6).current isIPv6 = nextAddress (s.store.range isIPv6) (s.store.current isIPv6) :=
    (store.current_move isIPv6 isIPv6).trans (if_pos rfl)
  obtain ⟨hvalid, hfamily⟩ := nextAddress_positioned (hranged.usable isIPv6) hsome (hranged.positioned isIPv6)
  rw [← haddress] at hvalid hfamily
  have hranged' : Ranged store := ⟨hranged.usable, hranged.positioned⟩
  refine ⟨⟨?_, hranged'.move hsome, nofun⟩, .stored hfamily hd⟩
  change Rel _ (replay (s.stores ++ [_]))
  rw [replay_append]
  exact hS.storeAsync hstorage _ d hvalid (hfamily.symm ▸ hd)

theorem not_isNone {α : Type} {x : Option α} : ¬ x.isNone ↔ x.isSome := by
  cases x <;> simp

theorem create_steps (hS : Implements S Rel) (h : Inv Rel s) : Steps Rel s (create S s d isIPv6) := by
  unfold create
  cases hload : S.loadDomain s.storage d isIPv6 with
  | some address => exact ⟨h, .found ((hS.loadDomain h.storage d isIPv6).symm.trans hload)⟩
  | none =>
    have hd : (replay s.stores).addr isIPv6 d = none := (hS.loadDomain h.storage d isIPv6).symm.trans hload
    dsimp only
    split_ifs with hnone
    · exact ⟨h, .refused⟩
    · refine ⟨⟨hS.saveMetadata h.storage _, h.ranged, ?_⟩, .nothing⟩
      intro d' isIPv6' heq
      cases heq
      exact ⟨hd, not_isNone.1 hnone⟩
    · exact allocate_steps hS h.storage h.ranged hd (not_isNone.1 hnone)

theorem step_create_found (h : S.loadDomain s.storage d isIPv6 = some a) :
    step S s (.create d isIPv6) = (s, some ⟨d, isIPv6, .ok a⟩) := by
  unfold step
  dsimp only
  rw [h]

theorem step_steps (hS : Implements S Rel) (h : Inv Rel s) (op : Op υ) : Steps Rel s (step S s op) := by
  cases op with
  | create d isIPv6 =>
    cases hload : S.loadDomain s.storage d isIPv6 with
    | some address =>
      rw [step_create_found hload]
      exact ⟨h, .found ((hS.loadDomain h.storage d isIPv6).symm.trans hload)⟩
    | none =>
      unfold step
      dsimp only
      rw [hload]
      dsimp only
      split_ifs
      · exact ⟨h, .nothing⟩
      · exact create_steps hS h
  | resume =>
    unfold step
    cases hcreating : s.creating with
    | none => exact ⟨h, .nothing⟩
    | some waiting =>
      obtain ⟨hd, hsome⟩ := h.creating waiting.1 waiting.2 hcreating
      dsimp only
      split_ifs
      · exact allocate_steps hS h.storage ⟨h.ranged.usable, h.ranged.positioned⟩ hd hsome
      · exact ⟨h, .nothing⟩
  | reset =>
    unfold step
    cases hreset : S.reset s.storage with
    | none => exact ⟨h, .nothing⟩
    | some storage =>
      refine ⟨⟨?_, h.ranged, ?_⟩, .reset⟩
      · rw [replay_append]
        exact hS.reset h.storage storage hreset
      · intro d isIPv6 hcreating
        refine ⟨?_, (h.creating d isIPv6 hcreating).2⟩
        rw [replay_append]
        rfl
  | upkeep u => exact ⟨⟨hS.upkeep h.storage u, h.ranged, h.creating⟩, .nothing⟩

theorem run_inv (hS : Implements S Rel) (h : Inv Rel s) (ops : List (Op υ)) : Inv Rel (run S s ops) := by
  induction ops generalizing s with
  | nil => exact h
  | cons op ops ih => exact ih (step_steps hS h op).1

/-! ## A domain keeps its address -/

theorem Does.held {stores stores' : List Event} {answer : Answer} (h : Does stores stores' (some answer))
    (hok : answer.result = .ok a) : (replay stores').addr answer.isIPv6 answer.domain = some a := by
  cases h with
  | found hd => exact hd.trans (congrArg some (Except.ok.inj hok))
  | refused => cases hok
  | stored hfamily hd =>
    obtain rfl := Except.ok.inj hok
    rw [replay_append]
    exact (TwoWay.addr_store _ _).trans (if_pos ⟨hfamily.symm, rfl⟩)

theorem Does.keeps {stores stores' : List Event} {answer : Option Answer} (h : Does stores stores' answer)
    (hm : (replay stores).Inverse Addr.family) (hd : (replay stores).addr isIPv6 d = some a)
    (hreset : stores' ≠ stores ++ [.reset])
    (hown : ∀ answer', answer = some answer' → answer'.result = .ok a → answer'.domain = d) :
    (replay stores').addr isIPv6 d = some a := by
  cases h with
  | nothing => exact hd
  | found _ => exact hd
  | refused => exact hd
  | reset => exact absurd rfl hreset
  | @stored d' isIPv6' a' hfamily hd' =>
    rw [replay_append]
    refine (TwoWay.addr_store _ _).trans ?_
    have hne : ¬ (isIPv6 = a'.family ∧ d = d') := by
      rintro ⟨rfl, rfl⟩
      rw [hfamily, hd'] at hd
      cases hd
    rw [if_neg hne, if_neg, hd]
    rintro ⟨rfl, hname⟩
    obtain rfl : a' = a := Option.some.inj ((hm.addr a' d hname).symm.trans hd)
    exact hne ⟨rfl, (hown _ rfl rfl).symm⟩

/-- no step hands the address to another domain, and no reset runs -/
def Keeps (S : Storage σ υ) (a : Addr) (d : String) : St σ → List (Op υ) → Prop
  | _, [] => True
  | s, op :: ops =>
    (step S s op).1.stores ≠ s.stores ++ [.reset] ∧
    (∀ answer, (step S s op).2 = some answer → answer.result = .ok a → answer.domain = d) ∧
    Keeps S a d (step S s op).1 ops

theorem run_keeps (hS : Implements S Rel) (h : Inv Rel s) (ops : List (Op υ)) (hops : Keeps S a d s ops)
    (hd : (replay s.stores).addr isIPv6 d = some a) : (replay (run S s ops).stores).addr isIPv6 d = some a := by
  induction ops generalizing s with
  | nil => exact hd
  | cons op ops ih =>
    obtain ⟨hreset, hown, hrest⟩ := hops
    obtain ⟨hinv, hdoes⟩ := step_steps hS h op
    exact ih hinv hrest (hdoes.keeps (hS.inverse h.storage) hd hreset hown)

structure Bijective (S : Storage σ υ) (start : St σ) : Prop where
  /-- an address that was returned for a domain is the one of the domain until it is handed to another one -/
  lasting : ∀ ops op answer a, (step S (run S start ops) op).2 = some answer → answer.result = .ok a →
    ∀ ops', Keeps S a answer.domain (step S (run S start ops) op).1 ops' →
      let s := run S (step S (run S start ops) op).1 ops'
      S.load s.storage a = some answer.domain ∧ step S s (.create answer.domain answer.isIPv6) = (s, some answer)
  /-- two domains do not have the same address -/
  distinct : ∀ ops a d d' isIPv6 isIPv6', S.loadDomain (run S start ops).storage d isIPv6 = some a →
    S.loadDomain (run S start ops).storage d' isIPv6' = some a → d = d' ∧ isIPv6 = isIPv6'

theorem bijective_of_inv (hS : Implements S Rel) (h : Inv Rel s) : Bijective S s := by
  constructor
  case lasting =>
    intro ops op answer a hanswer hok ops' hkeeps
    obtain ⟨hinv, hdoes⟩ := step_steps hS (run_inv hS h ops) op
    rw [hanswer] at hdoes
    have hheld := run_keeps hS hinv ops' hkeeps (hdoes.held hok)
    have hinv' := run_inv hS hinv ops'
    have hload := (hS.loadDomain hinv'.storage answer.domain answer.isIPv6).trans hheld
    refine ⟨(hS.load hinv'.storage a).trans ((hS.inverse hinv'.storage).name _ _ a hheld).2, ?_⟩
    rw [step_create_found hload, ← hok]
  case distinct =>
    intro ops a d d' isIPv6 isIPv6' hd hd'
    have hinv := run_inv hS h ops
    rw [hS.loadDomain hinv.storage] at hd hd'
    obtain ⟨hfamily, hname⟩ := (hS.inverse hinv.storage).name _ _ a hd
    obtain ⟨hfamily', hname'⟩ := (hS.inverse hinv.storage).name _ _ a hd'
    exact ⟨Option.some.inj (hname.symm.trans hname'), hfamily.symm.trans hfamily'⟩

theorem startFresh_inv {inet4Range inet6Range : Range} {storage storage' : σ} (h4 : Usable inet4Range false)
    (h6 : Usable inet6Range true) (hreset : S.reset storage = some storage') (hrel : Rel storage' .empty) :
    Inv Rel (startFresh S inet4Range inet6Range storage) := by
  refine ⟨?_, ⟨?_, ?_⟩, nofun⟩
  · change Rel ((S.reset storage).getD storage) .empty
    rw [hreset]
    exact hrel
  · intro isIPv6
    cases isIPv6
    · exact h4
    · exact h6
  · intro isIPv6
    cases isIPv6
    · exact positioned_first h4
    · exact positioned_first h6

end

/-! ## Ranges that are not usable -/

theorem nextAddress_first (range : Range) : nextAddress range range.addr.next = range.addr.next.next := ite_self _

section

variable {σ υ : Type} {S : Storage σ υ} {s : St σ} {d : String} {isIPv6 : Bool} {a : Addr}

/-- the addresses of the other family are not found, so that there may be only one of them -/
def Needed (range : Range) (isIPv6 : Bool) : Prop :=
  range.addr.next.isSome = true → range.addr.next.next.isSome = true ∧
    (range.addr.family = isIPv6 ∨ nextAddress range range.addr.next.next = range.addr.next.next)

theorem create_not_found (hload : S.loadDomain s.storage d isIPv6 = none) (hcreating : s.creating = none)
    (hcount : s.store.reservedCount ≠ 0) (hsame : (step S s (.create d isIPv6)).2 = some ⟨d, isIPv6, .ok a⟩) :
    (s.store.current isIPv6).isSome ∧ nextAddress (s.store.range isIPv6) (s.store.current isIPv6) = a := by
  have hcreate : step S s (.create d isIPv6) = create S s d isIPv6 := by
    unfold step
    dsimp only
    rw [hload, hcreating]
    rfl
  rw [hcreate, create, hload] at hsame
  dsimp only at hsame
  rw [if_neg hcount] at hsame
  cases hcurrent : s.store.current isIPv6 with
  | none =>
    rw [hcurrent, Option.isNone_none, if_pos rfl] at hsame
    cases hsame
  | some ip =>
    rw [hcurrent, Option.isNone_some, if_neg nofun] at hsame
    have haddress : ({ s.store with reservedCount := s.store.reservedCount - 1 }.move isIPv6).current isIPv6 = a := by
      injection hsame with hanswer
      injection hanswer with _ _ hresult
      exact Except.ok.inj hresult
    rw [← hcurrent]
    refine ⟨by rw [hcurrent]; rfl, ?_⟩
    rw [← haddress, Store.current_move, if_pos rfl]
    rfl

end

section

variable (inet4Range inet6Range : Range) (d : String) (isIPv6 : Bool)

def firstCreate : List (Op Upkeep) :=
  [.create d isIPv6, .upkeep .startFlush, .upkeep (.commit []), .upkeep .endFlush]

theorem run_firstCreate (hsome : ((start cacheFileStorage inet4Range inet6Range {}).store.current isIPv6).isSome) :
    let first := start cacheFileStorage inet4Range inet6Range {}
    run cacheFileStorage first (firstCreate d isIPv6) =
      { storage := { disk := { metadata := some (first.store.metadataAt reservedAddressCount) } }
        store := first.store
        creating := some (d, isIPv6) } := by
  intro first
  have hcreate : (step cacheFileStorage first (.create d isIPv6)).1 =
      { storage := { pending := { metadata := some (first.store.metadataAt reservedAddressCount) } }
        store := first.store
        creating := some (d, isIPv6) } := by
    change (if (first.store.current isIPv6).isNone then _ else _ : St CacheFile × Option Answer).1 = _
    rw [if_neg (not_isNone.2 hsome)]
    rfl
  change run cacheFileStorage (step cacheFileStorage first (.create d isIPv6)).1 _ = _
  rw [hcreate]
  simp [run, step, cacheFileStorage, upkeep, startFlush, commit, endFlush]

theorem loadDomain_first (metadata : Option Metadata) (ha : a = none ∨ a.family ≠ isIPv6) :
    (queueFakeIP { disk := { metadata } } a d).loadDomain d isIPv6 = none := by
  have hpending : (queueFakeIP { disk := { metadata } } a d).pending.fakeIP.addr isIPv6 d =
      if isIPv6 = a.family then some a else none := by
    change (Batch.queue Addr.family none {} none a d).addr isIPv6 d = _
    rw [Batch.addr_queue]
    simp
  unfold CacheFile.loadDomain
  rw [hpending]
  rcases ha with rfl | hfamily
  · split_ifs <;> rfl
  · rw [if_neg fun heq => hfamily heq.symm]
    rfl

theorem needed_of_bijective (h : Bijective cacheFileStorage (start cacheFileStorage inet4Range inet6Range {})) :
    Needed ((start cacheFileStorage inet4Range inet6Range {}).store.range isIPv6) isIPv6 := by
  intro hsome
  let first := start cacheFileStorage inet4Range inet6Range {}
  let file : CacheFile := { disk := { metadata := some (first.store.metadataAt reservedAddressCount) } }
  let store := { first.store with reservedCount := reservedAddressCount - 1 }.move isIPv6
  have hfirst : first.store.current isIPv6 = (first.store.range isIPv6).addr.next := by
    cases isIPv6 <;> rfl
  have hcurrent : store.current isIPv6 = (first.store.range isIPv6).addr.next.next := by
    refine (Store.current_move _ isIPv6 isIPv6).trans ((if_pos rfl).trans ?_)
    change nextAddress (first.store.range isIPv6) (first.store.current isIPv6) = _
    rw [hfirst, nextAddress_first]
  have hresume : step cacheFileStorage (run cacheFileStorage first (firstCreate "a" isIPv6)) .resume =
      ({ storage := file.queueFakeIP (store.current isIPv6) "a", store,
         stores := [.stored (store.current isIPv6) "a"] },
        some ⟨"a", isIPv6, .ok (store.current isIPv6)⟩) := by
    rw [run_firstCreate inet4Range inet6Range "a" isIPv6 (hfirst ▸ hsome)]
    rfl
  have hagain := (h.lasting (firstCreate "a" isIPv6) .resume _ _ (congrArg Prod.snd hresume) rfl [] trivial).2
  change step cacheFileStorage (step cacheFileStorage _ .resume).1 _ = _ at hagain
  rw [hresume] at hagain
  have hcount : store.reservedCount ≠ 0 := by
    cases isIPv6 <;> exact nofun
  have hnext (ha : store.current isIPv6 = none ∨ (store.current isIPv6).family ≠ isIPv6) :=
    create_not_found (loadDomain_first "a" isIPv6 _ ha) rfl hcount (congrArg Prod.snd hagain)
  have hrange : store.range isIPv6 = first.store.range isIPv6 := Store.range_move _ _ _
  rw [hrange, hcurrent] at hnext
  have hthird : (first.store.range isIPv6).addr.next.next.isSome := by
    cases hnone : (first.store.range isIPv6).addr.next.next with
    | none =>
      have hvalid := (hnext (.inl hnone)).1
      rw [hnone] at hvalid
      cases hvalid
    | some ip => rfl
  refine ⟨hthird, ?_⟩
  rw [← family_next hsome, ← family_next hthird]
  by_cases hfamily : (first.store.range isIPv6).addr.next.next.family = isIPv6
  · exact .inl hfamily
  · exact .inr (hnext (.inr hfamily)).2

end

/-- **The fake-IP mapping stays a bijection**, in memory and in the cache file, in every run with flushes at any time, if the
ranges are usable; the one exception is a range of the other family with one address. -/
theorem mapping_bijective (inet4Range inet6Range : Range) :
    (Usable inet4Range false ∧ Usable inet6Range true →
      Bijective memoryStorage (start memoryStorage inet4Range inet6Range .empty) ∧
      Bijective cacheFileStorage (start cacheFileStorage inet4Range inet6Range {}) ∧
      ∀ ops, let s := run cacheFileStorage (start cacheFileStorage inet4Range inet6Range {}) ops
        (∀ a, s.storage.load a = memoryStorage.load (replay s.stores) a) ∧
        ∀ d isIPv6, s.storage.loadDomain d isIPv6 = memoryStorage.loadDomain (replay s.stores) d isIPv6) ∧
    (Bijective cacheFileStorage (start cacheFileStorage inet4Range inet6Range {}) →
      Needed inet4Range false ∧ Needed inet6Range true) := by
  constructor
  · intro husable
    obtain ⟨h4, h6⟩ := husable
    have hmemory : Inv InMemory (start memoryStorage inet4Range inet6Range .empty) :=
      startFresh_inv h4 h6 rfl ⟨rfl, TwoWay.inverse_empty⟩
    have hfile : Inv Buffered (start cacheFileStorage inet4Range inet6Range {}) :=
      startFresh_inv h4 h6 rfl buffered_empty
    refine ⟨bijective_of_inv memory_implements hmemory, bijective_of_inv cacheFile_implements hfile, ?_⟩
    intro ops s
    have hstorage := (run_inv cacheFile_implements hfile ops).storage
    exact ⟨hstorage.load, hstorage.loadDomain⟩
  · intro h
    exact ⟨needed_of_bijective inet4Range inet6Range false h, needed_of_bijective inet4Range inet6Range true h⟩

theorem mapping_bijective_default :
    let inet4Range : Range := ⟨some (.v4 0xC6120000#32), 15⟩
    let inet6Range : Range := ⟨some (.v6 0xFC000000000000000000000000000000#128), 18⟩
    (Usable inet4Range false ∧ Usable inet6Range true) ∧
      Bijective memoryStorage (start memoryStorage inet4Range inet6Range .empty) ∧
      Bijective cacheFileStorage (start cacheFileStorage inet4Range inet6Range {}) ∧
      Needed inet4Range false ∧ Needed inet6Range true := by
  intro inet4Range inet6Range
  have husable : Usable inet4Range false ∧ Usable inet6Range true := ⟨fun _ => ⟨rfl, rfl⟩, fun _ => ⟨rfl, rfl⟩⟩
  obtain ⟨hmemory, hfile, -⟩ := (mapping_bijective inet4Range inet6Range).1 husable
  exact ⟨husable, hmemory, hfile, (mapping_bijective inet4Range inet6Range).2 hfile⟩

/-- 255.255.255.254/31 has no third address: the invalid address is handed out, and the domain is refused after that -/
theorem last_range_fails :
    let first := start memoryStorage ⟨some (.v4 0xFFFFFFFE#32), 31⟩ {} .empty
    let handed := step memoryStorage (run memoryStorage first [.create "a" false]) .resume
    handed.2 = some ⟨"a", false, .ok none⟩ ∧
    (step memoryStorage handed.1 (.create "a" false)).2 = some ⟨"a", false, .error (.missingRange false)⟩ ∧
    ¬ Bijective memoryStorage first := by
  intro first handed
  have hhanded : handed.2 = some ⟨"a", false, .ok none⟩ := rfl
  have hrefused : (step memoryStorage handed.1 (.create "a" false)).2 = some ⟨"a", false, .error (.missingRange false)⟩ := rfl
  refine ⟨hhanded, hrefused, fun h => ?_⟩
  have hagain := (h.lasting [.create "a" false] .resume _ none hhanded rfl [] trivial).2
  have hanswer := hrefused.symm.trans (congrArg Prod.snd hagain)
  cases hanswer

end EtonifyCore.FakeIP
