/-
The addresses that tunnels hold (`addressPool.allocate`, `Server.NewTunnelRequest`, `Server.releaseSession`).

An address is held from its allocation until `releaseSession` gives it back. The lemmas about a step say where the addresses
are (`Inv`): a pool has marked exactly those that some session holds.
-/
import EtonifyCore.Masque.Server

namespace EtonifyCore.Masque

open EtonifyCore.Core (Table)
open EtonifyCore.Core.Table List

/-! ## The scan -/

namespace Prefix

variable (p : Prefix)

def Has (v : ℕ) : Prop := p.first ≤ v ∧ v ≤ p.last

def after (candidate : ℕ) : ℕ := if candidate = p.last then p.first else candidate + 1

def Assignable (a : Addr) : Prop :=
  p.contains a ∧ a.value ≠ p.first ∧ a ≠ p.own ∧ (a.six = false → a.value ≠ p.last)

variable {p}

theorem assignable_iff {a : Addr} : p.Assignable a ↔ a.six = p.six ∧ p.Has a.value ∧ p.usable a.value := by
  have hpos : 0 < 2 ^ p.hostBits := Nat.two_pow_pos _
  have hdiv : a.value / 2 ^ p.hostBits = p.address / 2 ^ p.hostBits ↔ p.Has a.value := by
    rw [Nat.div_eq_iff hpos, Has, last, first]
    omega
  obtain ⟨six, v⟩ := a
  by_cases hsix : six = p.six
  · subst hsix
    simp only [Assignable, contains, usable, own, hdiv]
    cases p.six <;> simp <;> tauto
  · simp [Assignable, contains, hsix]

theorem Has.after {v : ℕ} (h : p.Has v) : p.Has (p.after v) := by
  unfold Has Prefix.after at *
  split_ifs <;> omega

end Prefix

/-- a run of the loop of `allocate` from a candidate to its end -/
inductive Scans (p : Prefix) (allocated : List ℕ) (start : ℕ) : ℕ → ℕ × Option ℕ → Prop
  | found {c : ℕ} (hfree : c ∉ allocated ∧ p.usable c) : Scans p allocated start c (p.after c, some c)
  | back {c : ℕ} (htaken : ¬(c ∉ allocated ∧ p.usable c)) (hback : p.after c = start) :
    Scans p allocated start c (p.after c, none)
  | turn {c : ℕ} {r : ℕ × Option ℕ} (htaken : ¬(c ∉ allocated ∧ p.usable c)) (hback : p.after c ≠ start)
    (hrest : Scans p allocated start (p.after c) r) : Scans p allocated start c r

variable {p : Prefix} {allocated : List ℕ} {start c : ℕ} {r : ℕ × Option ℕ}

/-- the candidates before `c` in a scan from `start` -/
def Seen (start c v : ℕ) : Prop := if start ≤ c then start ≤ v ∧ v < c else start ≤ v ∨ v < c

theorem scans_allocateLoop (hstart : p.Has start) (turns : ℕ) (hc : p.Has c)
    (hturns : turns = if start ≤ c then p.last + 1 - c + (start - p.first) else start - c) :
    Scans p allocated start c (allocateLoop p allocated start turns c) := by
  induction turns generalizing c with
  | zero =>
    obtain ⟨h1, h2⟩ := hc
    split_ifs at hturns <;> omega
  | succ turns ih =>
    rw [allocateLoop]
    change Scans p allocated start c (if (c ∉ allocated && p.usable c) = true then (p.after c, some c)
      else if p.after c = start then (p.after c, none) else allocateLoop p allocated start turns (p.after c))
    have hfree : (c ∉ allocated && p.usable c) = true ↔ c ∉ allocated ∧ p.usable c := by simp
    simp only [hfree]
    split_ifs with htaken hback
    · exact .found htaken
    · exact .back htaken hback
    · refine .turn htaken hback (ih hc.after ?_)
      unfold Prefix.Has Prefix.after at *
      split_ifs at * <;> omega

theorem mem_of_seen (htaken : ¬(c ∉ allocated ∧ p.usable c))
    (hseen : ∀ v, p.Has v → p.usable v → Seen start c v → v ∈ allocated) {v : ℕ} (hv : p.Has v) (husable : p.usable v)
    (h : v = c ∨ Seen start c v) : v ∈ allocated := by
  rcases h with rfl | h
  · by_contra hnot
    exact htaken ⟨hnot, husable⟩
  · exact hseen v hv husable h

theorem Scans.spec (h : Scans p allocated start c r) (hstart : p.Has start) (hc : p.Has c)
    (hseen : ∀ v, p.Has v → p.usable v → Seen start c v → v ∈ allocated) :
    p.Has r.1 ∧ (∀ v, r.2 = some v → p.Has v ∧ v ∉ allocated ∧ p.usable v) ∧
      (r.2 = none → ∀ v, p.Has v → p.usable v → v ∈ allocated) := by
  induction h with
  | found hfree =>
    refine ⟨hc.after, ?_, nofun⟩
    rintro v ⟨⟩
    exact ⟨hc, hfree⟩
  | @back c htaken hback =>
    refine ⟨hc.after, nofun, fun _ v hv husable => ?_⟩
    apply mem_of_seen htaken hseen hv husable
    unfold Seen Prefix.Has Prefix.after at *
    split_ifs at * <;> omega
  | @turn c r htaken hback _ ih =>
    refine ih hc.after fun v hv husable hafter => ?_
    apply mem_of_seen htaken hseen hv husable
    unfold Seen Prefix.Has Prefix.after at *
    split_ifs at * <;> omega

theorem Pool.allocate_spec {pool pool' : Pool} {value : Option ℕ} (hnext : p.Has pool.next)
    (h : pool.allocate p = (pool', value)) :
    Scans p pool.allocated pool.next pool.next (pool'.next, value) ∧ p.Has pool'.next ∧
      pool'.allocated = value.toList ++ pool.allocated ∧ (∀ v, value = some v → p.Has v ∧ v ∉ pool.allocated ∧ p.usable v) ∧
      (value = none → ∀ v, p.Has v → p.usable v → v ∈ pool.allocated) := by
  have hscan : Scans p pool.allocated pool.next pool.next
      (allocateLoop p pool.allocated pool.next (2 ^ p.hostBits) pool.next) := scans_allocateLoop hnext _ hnext ?_
  · have hspec := hscan.spec hnext hnext fun v _ _ hv => ?_
    · unfold Pool.allocate at h
      split at h <;> rename_i next _ hloop <;> cases h <;> rw [hloop] at hscan hspec
      · exact ⟨hscan, hspec.1, rfl, hspec.2⟩
      · exact ⟨hscan, hspec.1, rfl, hspec.2⟩
    · rw [Seen, if_pos le_rfl] at hv
      omega
  · have hpos : 0 < 2 ^ p.hostBits := Nat.two_pow_pos _
    unfold Prefix.Has Prefix.last at *
    rw [if_pos le_rfl]
    omega

/-! ## Where the addresses are -/

/-- the addresses that a session has been given and has not given back -/
def Session.held (s : Session) : List Addr :=
  match s.phase with
  | .releasing todo => todo
  | _ => s.addresses

def Server.Holds (srv : Server) (i : ℕ) (a : Addr) : Prop := i < srv.sessions.size ∧ a ∈ (srv.sessions.get i).held

def Registered (sessions : Table Session) (a : Addr) (i : ℕ) : Prop :=
  i < sessions.size ∧ (sessions.get i).phase = .registered ∧ a ∈ (sessions.get i).addresses

def Marks (pools : Bool → Pool) (a : Addr) : Prop := a.value ∈ (pools a.six).allocated

instance (pools : Bool → Pool) (a : Addr) : Decidable (Marks pools a) := inferInstanceAs (Decidable (_ ∈ _))

structure Inv (cfg : Config) (srv : Server) : Prop where
  next : ∀ p ∈ cfg.prefixes, p.Has (srv.pools p.six).next
  counted : ∀ a, srv.sessions.total (·.held.count a) = if Marks srv.pools a then 1 else 0
  assignable : ∀ a : Addr, Marks srv.pools a → ∃ p ∈ cfg.prefixes, p.Assignable a
  table : ∀ a i, srv.addresses a = some i → Registered srv.sessions a i

theorem assign_apply (addresses : Addr → Option ℕ) (id : ℕ) (l : List Addr) (a : Addr) :
    assign addresses id l a = if a ∈ l then some id else addresses a := by
  induction l generalizing addresses with
  | nil => rfl
  | cons b l ih =>
    rw [assign, ih, Function.update_apply]
    by_cases hab : a = b <;> simp [hab]

theorem unassign_apply (addresses : Addr → Option ℕ) (id : ℕ) (l : List Addr) (a : Addr) :
    unassign addresses id l a = if a ∈ l ∧ addresses a = some id then none else addresses a := by
  induction l generalizing addresses with
  | nil => simp [unassign]
  | cons b l ih =>
    rw [unassign, ih]
    by_cases hb : addresses b = some id
    · by_cases hab : a = b <;> simp [hab, hb]
    · by_cases hab : a = b <;> simp [hab, hb]

theorem releaseIn_next (a : Addr) (l : List Prefix) (pools : Bool → Pool) (six : Bool) :
    (releaseIn a l pools six).next = (pools six).next := by
  induction l generalizing pools with
  | nil => rfl
  | cons p l ih =>
    rw [releaseIn, ih]
    split_ifs
    · by_cases hsix : six = p.six <;> simp [hsix, Pool.release]
    · rfl

theorem marks_releaseIn (a b : Addr) (l : List Prefix) (pools : Bool → Pool) :
    Marks (releaseIn a l pools) b ↔ Marks pools b ∧ ¬(b = a ∧ ∃ p ∈ l, p.contains a) := by
  induction l generalizing pools with
  | nil => simp [releaseIn]
  | cons p l ih =>
    rw [releaseIn, ih]
    by_cases hp : p.contains a
    · have hsix : a.six = p.six := by simpa using (Bool.and_eq_true_iff.1 hp).1
      unfold Marks
      rw [if_pos hp, Function.update_apply]
      by_cases hb : b.six = p.six
      · have hba : b = a ↔ b.value = a.value := by
          obtain ⟨six, v⟩ := a
          obtain ⟨six', v'⟩ := b
          simp_all
        rw [if_pos hb, ← hb]
        simp [Pool.release, hp, hba]
        tauto
      · have hba : b ≠ a := fun h => hb (h ▸ hsix)
        rw [if_neg hb]
        simp [hba]
    · simp [hp]

variable {cfg : Config} {srv : Server} {id : ℕ} {s : Session}

section

variable (h : Inv cfg srv)
include h

theorem Inv.exists_holds_iff {a : Addr} :
    (∃ i, srv.Holds i a) ↔ Marks srv.pools a := by
  have hcounted := h.counted a
  constructor
  · rintro ⟨i, hi, hmem⟩
    have hpos := count_pos_iff.2 hmem
    have hle := srv.sessions.le_total (·.held.count a) hi
    by_contra hno
    rw [if_neg hno] at hcounted
    omega
  · intro ha
    rw [if_pos ha] at hcounted
    obtain ⟨i, hi, hpos⟩ := exists_of_total_pos srv.sessions (·.held.count a) (by omega)
    exact ⟨i, hi, count_pos_iff.1 hpos⟩

theorem Inv.holds_unique {a : Addr} {i j : ℕ} (hi : srv.Holds i a) (hj : srv.Holds j a) : i = j := by
  by_contra hne
  have hle := srv.sessions.add_le_total (·.held.count a) hi.1 hj.1 hne
  have hposi := count_pos_iff.2 hi.2
  have hposj := count_pos_iff.2 hj.2
  have hcounted := h.counted a
  split_ifs at hcounted <;> omega

theorem Inv.move (hid : id < srv.sessions.size) {pools : Bool → Pool} {addresses : Addr → Option ℕ}
    {advertisements : List ℕ} (hnext : ∀ p ∈ cfg.prefixes, p.Has (pools p.six).next)
    (hcount : ∀ a, s.held.count a + (if Marks srv.pools a then 1 else 0) =
      (srv.sessions.get id).held.count a + if Marks pools a then 1 else 0)
    (hassignable : ∀ a : Addr, Marks pools a → ∃ p ∈ cfg.prefixes, p.Assignable a)
    (htable : ∀ a i, addresses a = some i → Registered (srv.sessions.set id s) a i) :
    Inv cfg ⟨pools, addresses, advertisements, srv.sessions.set id s⟩ := by
  refine ⟨hnext, fun a => ?_, hassignable, htable⟩
  have htotal := srv.sessions.total_set (·.held.count a) s hid
  have hold := h.counted a
  have hmoved := hcount a
  dsimp only
  omega

theorem Inv.table_set (hkeep : (srv.sessions.get id).phase = .registered → s.phase = .registered ∧
    s.addresses = (srv.sessions.get id).addresses) (a : Addr) (i : ℕ) (hi : srv.addresses a = some i) :
    Registered (srv.sessions.set id s) a i := by
  obtain ⟨hsize, hin⟩ := h.table a i hi
  refine ⟨hsize, get_set_imp srv.sessions (P := fun k => k.phase = .registered ∧ a ∈ k.addresses) (fun hold => ?_) hin⟩
  obtain ⟨hphase, haddresses⟩ := hkeep hold.1
  exact ⟨hphase, haddresses ▸ hold.2⟩

theorem allocate_inv (hid : id < srv.sessions.size) : Inv cfg (step cfg srv (.allocate id)) := by
  unfold step
  dsimp only
  split
  swap
  · exact h
  rename_i k hphase
  split
  · exact h
  rename_i p hp
  have hmem := mem_of_getElem? hp
  have hheld : (srv.sessions.get id).held = (srv.sessions.get id).addresses := by rw [Session.held, hphase]
  generalize hpool : (srv.pools p.six).allocate p = r
  obtain ⟨pool, value⟩ := r
  obtain ⟨-, hnext, hallocated, hsome, -⟩ := Pool.allocate_spec (h.next p hmem) hpool
  have hpools : ∀ a : Addr, Marks (Function.update srv.pools p.six pool) a ↔
      Marks srv.pools a ∨ a.six = p.six ∧ value = some a.value := by
    intro a
    unfold Marks
    rw [Function.update_apply]
    split_ifs with hsix
    · rw [hallocated, hsix]
      simp [or_comm]
    · simp [hsix]
  refine h.move hid ?_ ?_ ?_ (h.table_set fun hno => by rw [hphase] at hno; cases hno)
  · intro q hq
    rw [Function.update_apply]
    split_ifs with hsix
    · obtain rfl : q = p := inj_on_of_nodup_map cfg.unique hq hmem hsix
      exact hnext
    · exact h.next q hq
  · intro a
    simp only [hpools, hheld]
    cases value with
    | none => simp [Session.held]
    | some v =>
      simp only [Session.held, count_append, count_singleton]
      have hfree : ¬Marks srv.pools ⟨p.six, v⟩ := (hsome v rfl).2.1
      by_cases ha : a = ⟨p.six, v⟩
      · subst ha
        simp [hfree]
      · have hne : ¬(a.six = p.six ∧ v = a.value) := by
          rintro ⟨hsix, rfl⟩
          exact ha (hsix ▸ rfl)
        simp [hne, Ne.symm ha]
  · intro a ha
    rcases (hpools a).1 ha with hold | ⟨hsix, hv⟩
    · exact h.assignable a hold
    · obtain ⟨hin, -, husable⟩ := hsome _ hv
      exact ⟨p, hmem, Prefix.assignable_iff.2 ⟨hsix, hin, husable⟩⟩

theorem release_inv (hid : id < srv.sessions.size) : Inv cfg (step cfg srv (.release id)) := by
  unfold step
  dsimp only
  split
  swap
  · exact h
  rename_i a todo hphase
  have hheld : (srv.sessions.get id).held = a :: todo := by rw [Session.held, hphase]
  -- the pool of an address that is held contains it
  have ha : Marks srv.pools a := h.exists_holds_iff.1 ⟨id, hid, hheld ▸ mem_cons_self⟩
  obtain ⟨p, hp, hassignable⟩ := h.assignable a ha
  have hmem (b : Addr) : Marks (releaseIn a cfg.prefixes srv.pools) b ↔ Marks srv.pools b ∧ b ≠ a := by
    rw [marks_releaseIn, and_iff_left (⟨p, hp, hassignable.1⟩ : ∃ p ∈ cfg.prefixes, p.contains a)]
  refine h.move hid ?_ ?_ ?_ (h.table_set fun hno => by rw [hphase] at hno; cases hno)
  · intro q hq
    rw [releaseIn_next]
    exact h.next q hq
  · intro b
    simp only [hmem, Session.held, hphase, count_cons]
    by_cases hb : b = a
    · subst hb
      simp [ha]
    · simp [hb, Ne.symm hb]
  · exact fun b hb => h.assignable b ((hmem b).1 hb).1

theorem step_inv {op : Op} (hop : op.known srv) : Inv cfg (step cfg srv op) := by
  cases op with
  | newTunnelRequest =>
    refine ⟨h.next, fun a => ?_, h.assignable, fun a i hi => ?_⟩
    · exact (total_push ..).trans (h.counted a)
    · obtain ⟨hsize, hin⟩ := h.table a i hi
      rw [Registered, step, get_push _ _ hsize]
      exact ⟨Nat.lt_succ_of_lt hsize, hin⟩
  | allocate id => exact allocate_inv h (of_decide_eq_true hop)
  | accept id routes =>
    unfold step
    dsimp only
    split_ifs with hready
    · refine h.move (of_decide_eq_true hop) h.next (fun _ => by simp only [Session.held, hready.1]) h.assignable ?_
      intro a i hi
      rw [assign_apply] at hi
      split_ifs at hi with ha
      · cases hi
        rw [Registered, get_set_self]
        exact ⟨of_decide_eq_true hop, rfl, ha⟩
      · refine h.table_set ?_ a i hi
        exact fun _ => ⟨rfl, rfl⟩
    · exact h
  | handleRouteAdvertisement id routes =>
    unfold step
    dsimp only
    split
    · exact h.move (of_decide_eq_true hop) h.next (fun _ => rfl) h.assignable (h.table_set fun hold => ⟨hold, rfl⟩)
    · exact h
  | unregister id =>
    unfold step
    dsimp only
    split_ifs with hphase
    · refine h.move (of_decide_eq_true hop) h.next (fun _ => ?_) h.assignable fun a i hi => ?_
      · rcases hphase with hphase | hphase <;> simp only [Session.held, hphase]
      · rw [unassign_apply] at hi
        split_ifs at hi with ha
        obtain ⟨hsize, hin⟩ := h.table a i hi
        -- an entry that is left is not one of this session
        have hne : i ≠ id := by
          rintro rfl
          exact ha ⟨hin.2, hi⟩
        rw [Registered, get_set_of_ne _ _ hne]
        exact ⟨hsize, hin⟩
    · exact h
  | release id => exact release_inv h (of_decide_eq_true hop)

end

theorem init_inv (cfg : Config) : Inv cfg (init cfg) := by
  have hpool (a : Addr) : ¬Marks (init cfg).pools a := by
    unfold Marks init
    dsimp only
    split <;> exact not_mem_nil
  refine ⟨fun p hp => ?_, fun a => (if_neg (hpool a)).symm, fun a ha => absurd ha (hpool a), nofun⟩
  cases hfind : cfg.prefixes.find? fun q => q.six = p.six with
  | none => simpa using find?_eq_none.1 hfind p hp
  | some q =>
    obtain rfl : q = p := inj_on_of_nodup_map cfg.unique (mem_of_find?_eq_some hfind) hp (by simpa using find?_some hfind)
    unfold init
    dsimp only
    rw [hfind]
    exact ⟨le_rfl, Nat.le_add_right _ _⟩

theorem run_inv (cfg : Config) (ops : List Op) : Inv cfg (run cfg ops) := by
  unfold run
  induction ops using reverseRecOn with
  | nil => exact init_inv cfg
  | append_singleton ops op ih =>
    rw [foldl_append, foldl_cons, foldl_nil]
    split_ifs with hop
    · exact step_inv ih hop
    · exact ih

/-- **No address is given to two tunnels.** All that are held are assignable; `allocate` ends, and fails exactly if all
assignable addresses are held; the map has the holder of an address. -/
theorem addresses_safe (cfg : Config) (ops : List Op) :
    let srv := run cfg ops
    (∀ i < srv.sessions.size, (srv.sessions.get i).held.Nodup) ∧
    (∀ i j a, srv.Holds i a → srv.Holds j a → i = j) ∧
    (∀ i a, srv.Holds i a → ∃ p ∈ cfg.prefixes, p.Assignable a) ∧
    (∀ p ∈ cfg.prefixes, ∀ pool value, (srv.pools p.six).allocate p = (pool, value) →
      Scans p (srv.pools p.six).allocated (srv.pools p.six).next (srv.pools p.six).next (pool.next, value) ∧
      (value = none ↔ ∀ a, p.Assignable a → ∃ i, srv.Holds i a) ∧
      ∀ v, value = some v → p.Assignable ⟨p.six, v⟩ ∧ ∀ i, ¬srv.Holds i ⟨p.six, v⟩) ∧
    ∀ a i, srv.addresses a = some i → ∀ j, srv.Holds j a ↔ j = i := by
  intro srv
  have h : Inv cfg srv := run_inv cfg ops
  refine ⟨fun i hi => ?_, fun i j a hi hj => h.holds_unique hi hj, fun i a hi => ?_, ?_, ?_⟩
  · refine nodup_iff_count_le_one.2 fun a => ?_
    have hle := srv.sessions.le_total (·.held.count a) hi
    have hcounted := h.counted a
    split_ifs at hcounted <;> omega
  · exact h.assignable a (h.exists_holds_iff.1 ⟨i, hi⟩)
  · intro p hp pool value hpool
    obtain ⟨hscan, -, -, hsome, hnone⟩ := Pool.allocate_spec (h.next p hp) hpool
    have hfound : ∀ v, value = some v → p.Assignable ⟨p.six, v⟩ ∧ ∀ i, ¬srv.Holds i ⟨p.six, v⟩ := by
      intro v hv
      obtain ⟨hin, hfree, husable⟩ := hsome v hv
      exact ⟨Prefix.assignable_iff.2 ⟨rfl, hin, husable⟩, fun i hi => hfree (h.exists_holds_iff.1 ⟨i, hi⟩)⟩
    refine ⟨hscan, ⟨fun hv a ha => ?_, fun hall => ?_⟩, hfound⟩
    · obtain ⟨hsix, hin, husable⟩ := Prefix.assignable_iff.1 ha
      rw [h.exists_holds_iff, Marks, hsix]
      exact hnone hv _ hin husable
    · cases value with
      | none => rfl
      | some v =>
        obtain ⟨hassignable, hnot⟩ := hfound v rfl
        obtain ⟨i, hi⟩ := hall _ hassignable
        exact absurd hi (hnot i)
  · intro a i hi j
    obtain ⟨hsize, hphase, hmem⟩ := h.table a i hi
    have hheld : srv.Holds i a := by
      rw [Server.Holds, Session.held, hphase]
      exact ⟨hsize, hmem⟩
    exact ⟨fun hj => h.holds_unique hj hheld, fun hj => hj ▸ hheld⟩

end EtonifyCore.Masque
