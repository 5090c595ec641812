/-
The XMUX pool is bounded, counts its leases, and loses no wake-up.
-/
import EtonifyCore.Transport.XmuxPool

namespace EtonifyCore.Xmux

open List
open Core (Table)
open Core.Table St

variable {limits : Limits} {s : St} {t t' t'' : Table XClient} {i j l : ℕ}

/-! ## Limits -/

theorem newXmuxManager_le (config : Config) (concurrencyDraw connectionsDraw : ℕ) :
    (newXmuxManager config concurrencyDraw connectionsDraw).maxConnections ≤ hardXmuxPoolLimit ∧
      (newXmuxManager config concurrencyDraw connectionsDraw).desiredConnections ≤
        (newXmuxManager config concurrencyDraw connectionsDraw).maxConnections := by
  unfold newXmuxManager hardXmuxPoolLimit defaultXmuxPoolLimit
  dsimp only
  split_ifs <;> dsimp only <;> omega

theorem newClient_spec (limits : Limits) (draws : Draws) (now : ℕ) :
    (newClient limits draws now).openUsage = 0 ∧ (newClient limits draws now).retiring = false ∧
      (newClient limits draws now).expired now = false ∧ (0 < (newClient limits draws now).reuseTimes →
        (newClient limits draws now).leftUsage = (newClient limits draws now).reuseTimes) := by
  refine ⟨rfl, rfl, ?_, fun h => if_pos h⟩
  unfold newClient XClient.expired
  dsimp only
  split_ifs <;> simp

/-! ## Marks -/

structure Marked (t t' : Table XClient) : Prop where
  size : t'.size = t.size
  get : ∀ i, ∃ retiring, t'.get i = { t.get i with retiring } ∧ ((t.get i).retiring = true → retiring = true)

namespace Marked

theorem refl (t : Table XClient) : Marked t t := ⟨rfl, fun i => ⟨(t.get i).retiring, rfl, id⟩⟩

theorem trans (h : Marked t t') (h' : Marked t' t'') : Marked t t'' := by
  refine ⟨h'.size.trans h.size, fun i => ?_⟩
  obtain ⟨r, hr, hmono⟩ := h.get i
  obtain ⟨r', hr', hmono'⟩ := h'.get i
  refine ⟨r', by rw [hr', hr], fun hretiring => hmono' ?_⟩
  rw [hr]
  exact hmono hretiring

theorem set {client : XClient} (retiring : Bool) (hclient : client = { t.get i with retiring })
    (hmono : (t.get i).retiring → retiring) : Marked t (t.set i client) := by
  refine ⟨rfl, fun j => ?_⟩
  by_cases hj : j = i
  · rw [hj, get_set_self]
    exact ⟨retiring, hclient, hmono⟩
  · rw [get_set_of_ne _ _ hj]
    exact ⟨_, rfl, id⟩

variable (h : Marked t t') (i : ℕ)
include h

theorem openUsage : (t'.get i).openUsage = (t.get i).openUsage := by
  obtain ⟨r, hr, -⟩ := h.get i
  rw [hr]

theorem leftUsage : (t'.get i).leftUsage = (t.get i).leftUsage := by
  obtain ⟨r, hr, -⟩ := h.get i
  rw [hr]

theorem leftRequests : (t'.get i).leftRequests = (t.get i).leftRequests := by
  obtain ⟨r, hr, -⟩ := h.get i
  rw [hr]

theorem reuseTimes : (t'.get i).reuseTimes = (t.get i).reuseTimes := by
  obtain ⟨r, hr, -⟩ := h.get i
  rw [hr]

theorem expired (now : ℕ) : (t'.get i).expired now = (t.get i).expired now := by
  obtain ⟨r, hr, -⟩ := h.get i
  rw [hr]
  rfl

theorem retiring (hretiring : (t.get i).retiring) : (t'.get i).retiring := by
  obtain ⟨r, hr, hmono⟩ := h.get i
  rw [hr]
  exact hmono hretiring

end Marked

theorem marked_prune (now : ℕ) (pool : List ℕ) (t : Table XClient) :
    Marked t (pool.foldl (fun clients i => clients.set i ((clients.get i).prune now)) t) := by
  induction pool generalizing t with
  | nil => exact .refl t
  | cons i pool ih =>
    refine Marked.trans (.set _ rfl fun hretiring => ?_) (ih _)
    rw [hretiring, Bool.true_or]

/-! ## Looking for a client -/

structure Available (limits : Limits) (now : ℕ) (c : XClient) : Prop where
  retiring : c.retiring = false
  leftRequests : 0 < c.leftRequests
  expired : c.expired now = false
  room : 0 < limits.concurrency → (c.openUsage : ℤ) < limits.concurrency

def Busy (limits : Limits) (c : XClient) : Prop :=
  c.retiring = true ∨ c.leftRequests ≤ 0 ∨ (0 < limits.concurrency ∧ limits.concurrency ≤ c.openUsage)

theorem Available.of_marked {now : ℕ} (h : Marked t t') (ha : Available limits now (t'.get i)) :
    Available limits now (t.get i) where
  retiring := Bool.eq_false_iff.2 fun hretiring => Bool.eq_false_iff.1 ha.retiring (h.retiring i hretiring)
  leftRequests := h.leftRequests i ▸ ha.leftRequests
  expired := h.expired i now ▸ ha.expired
  room := h.openUsage i ▸ ha.room

theorem Busy.of_marked (h : Marked t t') (hbusy : Busy limits (t.get i)) : Busy limits (t'.get i) := by
  unfold Busy at hbusy ⊢
  rw [h.leftRequests, h.openUsage]
  exact hbusy.imp_left (h.retiring i)

section

variable (limits : Limits) (now : ℕ → ℕ)

theorem look_spec (t : Table XClient) (selected : Option ℕ) (i : ℕ) : Marked t (look limits now (t, selected) i).1 ∧
      (∀ j, (look limits now (t, selected) i).2 = some j → selected = some j ∨ j = i ∧ Available limits (now i) (t.get i)) ∧
      ((look limits now (t, selected) i).2 = none →
        selected = none ∧ Busy limits ((look limits now (t, selected) i).1.get i)) := by
  unfold look
  dsimp only
  split_ifs with hretired hexpired hfull
  · refine ⟨.refl t, fun j hj => .inl hj, fun hnone => ⟨hnone, ?_⟩⟩
    exact hretired.imp_right .inl
  · refine ⟨.set true rfl fun _ => rfl, fun j hj => .inl hj, fun hnone => ⟨hnone, .inl ?_⟩⟩
    rw [get_set_self]
  · exact ⟨.refl t, fun j hj => .inl hj, fun hnone => ⟨hnone, .inr (.inr hfull)⟩⟩
  · have havailable : Available limits (now i) (t.get i) :=
      ⟨Bool.eq_false_iff.2 fun h => hretired (.inl h), not_le.1 fun h => hretired (.inr h), Bool.eq_false_iff.2 hexpired,
        fun hpos => not_le.1 fun hle => hfull ⟨hpos, hle⟩⟩
    cases selected with
    | none => exact ⟨.refl t, fun j hj => .inr ⟨(Option.some.inj hj).symm, havailable⟩, nofun⟩
    | some k =>
      dsimp only
      split_ifs
      · exact ⟨.refl t, fun j hj => .inr ⟨(Option.some.inj hj).symm, havailable⟩, nofun⟩
      · exact ⟨.refl t, fun j hj => .inl hj, nofun⟩

theorem look_get (t : Table XClient) (selected : Option ℕ) (i : ℕ)
    (hj : (t.get j).expired (now j) = false) : (look limits now (t, selected) i).1.get j = t.get j := by
  unfold look
  dsimp only
  split_ifs with _ hexpired hfull
  · rfl
  · have hji : j ≠ i := by
      rintro rfl
      exact Bool.eq_false_iff.1 hj hexpired
    exact get_set_of_ne _ _ hji
  · rfl
  · cases selected with
    | none => rfl
    | some k =>
      dsimp only
      split_ifs <;> rfl

section

variable (pool : List ℕ) (t : Table XClient) (selected : Option ℕ)

theorem selected_get
    (hj : (t.get j).expired (now j) = false) : (pool.foldl (look limits now) (t, selected)).1.get j = t.get j := by
  induction pool generalizing t selected with
  | nil => rfl
  | cons i pool ih =>
    have hget := look_get limits now t selected i hj
    have hnext := ih (look limits now (t, selected) i).1 (look limits now (t, selected) i).2 (by rw [hget, hj])
    exact hnext.trans hget

theorem selected_spec : Marked t (pool.foldl (look limits now) (t, selected)).1 ∧
      (∀ j, (pool.foldl (look limits now) (t, selected)).2 = some j →
        selected = some j ∨ j ∈ pool ∧ Available limits (now j) (t.get j)) ∧
      ((pool.foldl (look limits now) (t, selected)).2 = none →
        selected = none ∧ ∀ i ∈ pool, Busy limits ((pool.foldl (look limits now) (t, selected)).1.get i)) := by
  induction pool generalizing t selected with
  | nil => exact ⟨.refl t, fun j hj => .inl hj, fun hnone => ⟨hnone, nofun⟩⟩
  | cons i pool ih =>
    obtain ⟨hmarked, hsome, hnone⟩ := look_spec limits now t selected i
    obtain ⟨hmarked', hsome', hnone'⟩ := ih (look limits now (t, selected) i).1 (look limits now (t, selected) i).2
    refine ⟨hmarked.trans hmarked', fun j hj => ?_, fun hj => ?_⟩
    · rcases hsome' j hj with hold | ⟨hmem, havailable⟩
      · rcases hsome j hold with hold | ⟨rfl, havailable⟩
        · exact .inl hold
        · exact .inr ⟨mem_cons_self, havailable⟩
      · exact .inr ⟨mem_cons_of_mem _ hmem, havailable.of_marked hmarked⟩
    · obtain ⟨hold, hbusy⟩ := hnone' hj
      obtain ⟨hold, hbusy'⟩ := hnone hold
      refine ⟨hold, fun k hk => ?_⟩
      rcases mem_cons.1 hk with rfl | hk
      · exact hbusy'.of_marked hmarked'
      · exact hbusy k hk

end

theorem availableClientLocked_spec (s : St) :
    (∀ j, (s.availableClientLocked limits now).2 = some j → j ∈ s.pool ∧ Available limits (now j) (s.clients.get j) ∧
      (s.availableClientLocked limits now).1.clients.get j = s.clients.get j) ∧
    ((s.availableClientLocked limits now).2 = none →
      ∀ i ∈ s.pool, Busy limits ((s.availableClientLocked limits now).1.clients.get i)) := by
  obtain ⟨-, hsome, hnone⟩ := selected_spec limits now s.pool s.clients none
  refine ⟨fun j hj => ?_, fun hj => (hnone hj).2⟩
  obtain ⟨hmem, havailable⟩ := (hsome j hj).resolve_left nofun
  exact ⟨hmem, havailable, selected_get limits now s.pool s.clients none havailable.expired⟩

end

theorem enter_cases (hlimits : limits.desiredConnections ≤ limits.maxConnections) (s : St) (a : ℕ) (reading : Reading)
    (draws : Draws) {p : St} (hp : s.pruneLocked reading.prune = p) :
    (s.closed ∧ s.enter limits a reading draws = p.setAcquirer a .closed) ∨ s.closed = false ∧ ∃ t, Marked p.clients t ∧
      ((p.pool.length < limits.maxConnections ∧
          s.enter limits a reading draws = create { p with clients := t } limits draws reading.create a) ∨
        (∃ i ∈ p.pool, Available limits (reading.look i) (p.clients.get i) ∧ t.get i = p.clients.get i ∧
          s.enter limits a reading draws = grant { p with clients := t } a i) ∨
        (limits.maxConnections ≤ p.pool.length ∧ (∀ i ∈ p.pool, Busy limits (t.get i)) ∧
          s.enter limits a reading draws = setAcquirer { p with clients := t } a (.waiting s.notify))) := by
  obtain ⟨hsome, hnone⟩ := availableClientLocked_spec limits reading.look p
  have hmarked := (selected_spec limits reading.look p.pool p.clients none).1
  have hclosed : p.closed = s.closed := by rw [← hp]; rfl
  have hnotify : p.notify = s.notify := by rw [← hp]; rfl
  have hfound : ∀ selected, (p.availableClientLocked limits reading.look).2 = selected →
      p.availableClientLocked limits reading.look =
        ({ p with clients := (p.availableClientLocked limits reading.look).1.clients }, selected) :=
    fun selected h => Prod.ext rfl h
  unfold St.enter
  dsimp only
  rw [hp, ← hclosed, ← hnotify]
  split_ifs with hc hdesired
  · exact .inl ⟨hc, rfl⟩
  · exact .inr ⟨Bool.eq_false_iff.2 hc, _, .refl _, .inl ⟨hdesired.trans_le hlimits, rfl⟩⟩
  · refine .inr ⟨Bool.eq_false_iff.2 hc, _, hmarked, ?_⟩
    cases hselected : (p.availableClientLocked limits reading.look).2 with
    | none =>
      rw [hfound _ hselected]
      dsimp only
      split_ifs with hroom
      · exact .inl ⟨hroom, rfl⟩
      · exact .inr (.inr ⟨not_lt.1 hroom, hnone hselected, rfl⟩)
    | some i =>
      obtain ⟨hmem, havailable, hget⟩ := hsome i hselected
      rw [hfound _ hselected]
      exact .inr (.inl ⟨i, hmem, havailable, hget, rfl⟩)

/-! ## Invariant -/

def Lease.on (i : ℕ) (lease : Lease) : ℕ := if lease.client = i then 1 else 0

def Lease.opened (i : ℕ) (lease : Lease) : ℕ := if lease.client = i ∧ lease.released = false then 1 else 0

structure ClientInv (limits : Limits) (leases : Table Lease) (i : ℕ) (c : XClient) : Prop where
  openUsage : c.openUsage = leases.total (Lease.opened i)
  concurrency : 0 < limits.concurrency → (c.openUsage : ℤ) ≤ limits.concurrency
  reuse : 0 < c.reuseTimes →
    (leases.total (Lease.on i) : ℤ) + c.leftUsage = c.reuseTimes ∧ 0 ≤ c.leftUsage ∧ (c.leftUsage = 0 → c.retiring = true)

structure Inv (limits : Limits) (s : St) : Prop where
  bounded : s.pool.length ≤ limits.maxConnections
  pool : ∀ i ∈ s.pool, i < s.clients.size
  client : ∀ i < s.clients.size, ClientInv limits s.leases i (s.clients.get i)
  lease : ∀ l < s.leases.size, (s.leases.get l).client < s.clients.size
  waiting : ∀ a channel, s.acquirers.get a = .waiting channel → channel ≤ s.notify

variable {leases : Table Lease}

theorem ClientInv.marked (hmarked : Marked t t') (h : ClientInv limits leases i (t.get i)) :
    ClientInv limits leases i (t'.get i) where
  openUsage := by rw [hmarked.openUsage, h.openUsage]
  concurrency := by
    rw [hmarked.openUsage]
    exact h.concurrency
  reuse hpos := by
    rw [hmarked.reuseTimes] at hpos ⊢
    rw [hmarked.leftUsage]
    obtain ⟨hsum, hnonneg, hretiring⟩ := h.reuse hpos
    exact ⟨hsum, hnonneg, fun hzero => hmarked.retiring i (hretiring hzero)⟩

variable {c : XClient}

theorem ClientInv.acquire (h : ClientInv limits leases i c) (hretiring : c.retiring = false)
    (hroom : 0 < limits.concurrency → (c.openUsage : ℤ) < limits.concurrency) :
    ClientInv limits (leases.push ⟨i, false⟩) i c.acquire := by
  have hopened : Lease.opened i ⟨i, false⟩ = 1 := if_pos ⟨rfl, rfl⟩
  have hon : Lease.on i ⟨i, false⟩ = 1 := if_pos rfl
  have husage : c.acquire.openUsage = c.openUsage + 1 := by
    unfold XClient.acquire
    dsimp only
    split_ifs <;> rfl
  have hreuse : c.acquire.reuseTimes = c.reuseTimes := by
    unfold XClient.acquire
    dsimp only
    split_ifs <;> rfl
  refine ⟨?_, fun hpos => ?_, fun hpos => ?_⟩
  · rw [husage, total_push, hopened, h.openUsage]
  · have := hroom hpos
    rw [husage]
    omega
  · rw [hreuse] at hpos ⊢
    obtain ⟨hsum, hnonneg, hretired⟩ := h.reuse hpos
    -- the client has a lease left, since it would have retired otherwise
    have hleft : 0 < c.leftUsage := lt_of_le_of_ne hnonneg fun hzero => Bool.eq_false_iff.1 hretiring (hretired hzero.symm)
    have hacquire : c.acquire.leftUsage = c.leftUsage - 1 ∧ c.acquire.retiring = (c.retiring || c.leftUsage - 1 == 0) := by
      unfold XClient.acquire
      rw [if_pos hleft]
      exact ⟨rfl, rfl⟩
    rw [total_push, hon, hacquire.1, hacquire.2]
    refine ⟨by push_cast; omega, by omega, fun hzero => ?_⟩
    rw [hzero]
    simp

theorem ClientInv.push_of_ne (h : ClientInv limits leases j c) (hne : i ≠ j) :
    ClientInv limits (leases.push ⟨i, false⟩) j c := by
  have hopened : Lease.opened j ⟨i, false⟩ = 0 := if_neg fun h => hne h.1
  have hon : Lease.on j ⟨i, false⟩ = 0 := if_neg hne
  refine ⟨?_, h.concurrency, ?_⟩
  · rw [total_push, hopened, Nat.add_zero, h.openUsage]
  · rw [total_push, hon, Nat.add_zero]
    exact h.reuse

theorem ClientInv.release (h : ClientInv limits leases i c) (hl : l < leases.size)
    (hclient : (leases.get l).client = i) (hreleased : (leases.get l).released = false) :
    ClientInv limits (leases.set l ⟨i, true⟩) i c.release := by
  have hopened : Lease.opened i (leases.get l) = 1 := if_pos ⟨hclient, hreleased⟩
  have hclosed : Lease.opened i ⟨i, true⟩ = 0 := if_neg fun h => nomatch h.2
  have htotal := leases.total_set (Lease.opened i) ⟨i, true⟩ hl
  have hon : (leases.set l ⟨i, true⟩).total (Lease.on i) = leases.total (Lease.on i) :=
    total_set_of_eq _ _ (by unfold Lease.on; rw [hclient])
  have husage := h.openUsage
  rw [hopened, hclosed] at htotal
  have hrelease : c.release.openUsage + 1 = c.openUsage := by
    have hpos : c.openUsage > 0 := by omega
    unfold XClient.release
    dsimp only
    rw [if_pos hpos]
    omega
  refine ⟨by omega, fun hpos => ?_, fun hpos => ?_⟩
  · have := h.concurrency hpos
    omega
  · rw [hon]
    exact h.reuse hpos

theorem ClientInv.set_of_ne (h : ClientInv limits leases j c)
    (hne : (leases.get l).client ≠ j) : ClientInv limits (leases.set l ⟨(leases.get l).client, true⟩) j c := by
  have hopened : (leases.set l ⟨(leases.get l).client, true⟩).total (Lease.opened j) = leases.total (Lease.opened j) := by
    apply total_set_of_eq
    unfold Lease.opened
    rw [if_neg fun h => hne h.1, if_neg fun h => hne h.1]
  have hon : (leases.set l ⟨(leases.get l).client, true⟩).total (Lease.on j) = leases.total (Lease.on j) :=
    total_set_of_eq _ _ rfl
  refine ⟨?_, h.concurrency, ?_⟩
  · rw [hopened, h.openUsage]
  · rw [hon]
    exact h.reuse

namespace Inv

section

variable (h : Inv limits s)
include h

theorem marked (hmarked : Marked s.clients t) {pool : List ℕ} (hpool : pool.Sublist s.pool) :
    Inv limits { s with clients := t, pool } where
  bounded := hpool.length_le.trans h.bounded
  pool i hi := by
    rw [hmarked.size]
    exact h.pool i (hpool.subset hi)
  client i hi := (h.client i (hmarked.size ▸ hi)).marked hmarked
  lease l hl := by
    rw [hmarked.size]
    exact h.lease l hl
  waiting := h.waiting

theorem pruneLocked (now : ℕ) : Inv limits (s.pruneLocked now) where
  __ := h.marked (marked_prune now s.pool s.clients) filter_sublist

theorem setAcquirer (a : ℕ) {acquirer : Acquirer}
    (hwaiting : ∀ channel, acquirer = .waiting channel → channel ≤ s.notify) : Inv limits (s.setAcquirer a acquirer) where
  __ := h
  waiting a' channel :=
    get_set_cases (P := fun acquirer : Acquirer => acquirer = .waiting channel → channel ≤ s.notify) _
      (fun _ => hwaiting channel) fun _ => h.waiting a' channel

theorem grant (a : ℕ) (hi : i < s.clients.size) (hretiring : (s.clients.get i).retiring = false)
    (hroom : 0 < limits.concurrency → ((s.clients.get i).openUsage : ℤ) < limits.concurrency) :
    Inv limits (s.grant a i) := by
  refine setAcquirer (s := { s with
    clients := s.clients.set i (s.clients.get i).acquire
    leases := s.leases.push ⟨i, false⟩
    log := s.log ++ [.acquire i] }) ?_ a nofun
  refine ⟨h.bounded, h.pool, fun j hj => ?_, fun l hl => ?_, h.waiting⟩
  · by_cases hji : j = i
    · rw [hji]
      rw [get_set_self]
      exact (h.client i hi).acquire hretiring hroom
    · rw [get_set_of_ne _ _ hji]
      exact (h.client j hj).push_of_ne fun hij => hji hij.symm
  · exact get_push_cases (P := fun lease : Lease => lease.client < s.clients.size) _ hl (fun _ => hi) (h.lease l)

theorem total_new (f : ℕ → Lease → ℕ) (hf : ∀ lease : Lease, lease.client ≠ s.clients.size → f s.clients.size lease = 0) :
    s.leases.total (f s.clients.size) = 0 := by
  apply total_eq_zero
  intro l hl
  exact hf _ (h.lease l hl).ne

theorem create (draws : Draws) (now a : ℕ) (hroom : s.pool.length < limits.maxConnections) :
    Inv limits (s.create limits draws now a) := by
  obtain ⟨husage, hretiring, -, hreuse⟩ := newClient_spec limits draws now
  have hnew : (s.clients.push (newClient limits draws now)).get s.clients.size = newClient limits draws now :=
    get_push_size _ _
  refine grant (s := { s with
    clients := s.clients.push (newClient limits draws now), pool := s.pool ++ [s.clients.size] }) ?_ a (Nat.lt_succ_self _) ?_ ?_
  · refine ⟨?_, fun i hi => ?_, fun i hi => ?_, fun l hl => (h.lease l hl).trans (Nat.lt_succ_self _), h.waiting⟩
    · rw [length_append, length_singleton]
      exact hroom
    · rcases mem_append.1 hi with hold | hi
      · exact (h.pool i hold).trans (Nat.lt_succ_self _)
      · rw [mem_singleton.1 hi]
        exact Nat.lt_succ_self _
    · rcases Nat.lt_succ_iff_lt_or_eq.1 hi with hlt | rfl
      · rw [get_push _ _ hlt]
        exact h.client i hlt
      · rw [hnew]
        refine ⟨?_, fun hpos => ?_, fun hpos => ?_⟩
        · rw [husage, h.total_new Lease.opened fun lease hne => if_neg fun h => hne h.1]
        · rw [husage]
          exact hpos.le
        · rw [h.total_new Lease.on fun lease hne => if_neg hne, hreuse hpos]
          exact ⟨zero_add _, hpos.le, fun hzero => absurd hzero hpos.ne'⟩
  · rw [hnew, hretiring]
  · rw [hnew, husage]
    exact id

theorem enter (hlimits : limits.desiredConnections ≤ limits.maxConnections) (a : ℕ) (reading : Reading)
    (draws : Draws) : Inv limits (s.enter limits a reading draws) := by
  have hpruned := h.pruneLocked reading.prune
  rcases enter_cases hlimits s a reading draws rfl with ⟨-, henter⟩ | ⟨-, t, hmarked, hcases⟩
  · rw [henter]
    exact hpruned.setAcquirer a nofun
  · have hlooked := hpruned.marked hmarked (.refl _)
    rcases hcases with ⟨hroom, henter⟩ | ⟨i, hmem, havailable, hget, henter⟩ | ⟨-, -, henter⟩ <;> rw [henter]
    · exact hlooked.create draws _ a hroom
    · refine hlooked.grant a (hlooked.pool i hmem) ?_ ?_
      · exact hget ▸ havailable.retiring
      · exact hget ▸ havailable.room
    · refine hlooked.setAcquirer a fun channel hchannel => ?_
      exact (Acquirer.waiting.inj hchannel).ge

theorem signalLocked : Inv limits s.signalLocked :=
  { h with waiting := fun a channel hw => (h.waiting a channel hw).trans (Nat.le_succ _) }

theorem releaseLease (hl : l < s.leases.size) (hheld : (s.leases.get l).released = false) : Inv limits { s with
    leases := s.leases.set l ⟨(s.leases.get l).client, true⟩
    clients := s.clients.set (s.leases.get l).client (s.clients.get (s.leases.get l).client).release
    log := s.log ++ [.release (s.leases.get l).client] } := by
  refine ⟨h.bounded, h.pool, fun i hi => ?_, fun l' hl' => ?_, h.waiting⟩
  · have hinv := h.client i hi
    by_cases hil : i = (s.leases.get l).client
    · rw [← hil, get_set_self]
      exact hinv.release hl hil.symm hheld
    · rw [get_set_of_ne _ _ hil]
      exact hinv.set_of_ne fun h => hil h.symm
  · exact get_set_cases (P := fun lease : Lease => lease.client < s.clients.size) _ (fun _ => h.lease l hl)
      fun _ => h.lease l' hl'

theorem release (hl : l < s.leases.size) (now : ℕ) : Inv limits (s.release l now) := by
  unfold St.release
  dsimp only
  split_ifs with hreleased
  · exact h
  · exact ((h.releaseLease hl (Bool.eq_false_iff.2 hreleased)).pruneLocked now).signalLocked

theorem consumeRequest (l : ℕ) : Inv limits (s.consumeRequest l) := by
  have hclient : ∀ i, i < s.clients.size → ClientInv limits s.leases i (s.clients.get i).consumeRequest := by
    intro i hi
    have hinv := h.client i hi
    unfold XClient.consumeRequest
    split_ifs
    · refine ⟨hinv.openUsage, hinv.concurrency, fun hpos => ?_⟩
      obtain ⟨hsum, hnonneg, hretired⟩ := hinv.reuse hpos
      refine ⟨hsum, hnonneg, fun hzero => ?_⟩
      rw [hretired hzero, Bool.true_or]
    · exact hinv
  refine signalLocked { h with client := fun i hi => ?_ }
  dsimp only
  by_cases hil : i = (s.leases.get l).client
  · rw [← hil, get_set_self]
    exact hclient i hi
  · rw [get_set_of_ne _ _ hil]
    exact h.client i hi

theorem closeAll : Inv limits s.closeAll := by
  unfold St.closeAll
  split_ifs
  · exact h
  · exact signalLocked ⟨Nat.zero_le _, nofun, h.client, h.lease, h.waiting⟩

theorem closeNext : Inv limits s.closeNext := by
  unfold St.closeNext
  cases s.closing with
  | nil => exact h
  | cons i closing => exact { h with }

theorem wake (a : ℕ) : Inv limits (s.wake a) := by
  unfold St.wake
  split
  · split_ifs
    · exact h.setAcquirer a nofun
    · exact h
  · exact h

theorem cancel (a : ℕ) : Inv limits (s.cancel a) := by
  unfold St.cancel
  split
  · exact h.setAcquirer a nofun
  · exact h

end

end Inv

theorem step_inv (h : Inv limits s) (hlimits : limits.desiredConnections ≤ limits.maxConnections) (op : Op) :
    Inv limits (step limits s op) := by
  unfold step
  cases op with
  | acquire =>
    refine { h with waiting := fun a channel hw => ?_ }
    by_cases ha : a = s.acquirers.size
    · rw [ha, get_push_size] at hw
      exact absurd hw nofun
    · rw [get_push_of_ne _ _ ha] at hw
      exact h.waiting a channel hw
  | enter a reading draws =>
    dsimp only
    split_ifs
    · exact h.enter hlimits a reading draws
    · exact h
  | wake a =>
    dsimp only
    split_ifs
    · exact h.wake a
    · exact h
  | cancel a =>
    dsimp only
    split_ifs
    · exact h.cancel a
    · exact h
  | release l now =>
    dsimp only
    split_ifs with hl
    · exact h.release hl now
    · exact h
  | consumeRequest l =>
    dsimp only
    split_ifs
    · exact h.consumeRequest l
    · exact h
  | closeAll => exact h.closeAll
  | closeNext => exact h.closeNext

theorem run_inv (hlimits : limits.desiredConnections ≤ limits.maxConnections) (ops : List Op) :
    Inv limits (run limits ops) := by
  have hinit : Inv limits {} :=
    ⟨Nat.zero_le _, nofun, fun i hi => absurd hi (Nat.not_lt_zero i), fun l hl => absurd hl (Nat.not_lt_zero l),
      fun _ _ hw => absurd hw nofun⟩
  exact List.foldlRecOn (motive := Inv limits) ops (step limits) hinit fun s h op _ => step_inv h hlimits op

/-! ## What a step does -/

def Signals (s : St) : Op → Prop
  | .release l _ => l < s.leases.size ∧ (s.leases.get l).released = false
  | .consumeRequest l => l < s.leases.size
  | .closeAll => s.closed = false
  | _ => False

/-- a lease is granted on a client of the pool that can be leased, or on a new client, by a pool that is open -/
structure Granted (limits : Limits) (s : St) (op : Op) (i : ℕ) : Prop where
  isOpen : s.closed = false
  client : ∃ a reading draws, op = .enter a reading draws ∧
    ((i ∈ s.pool ∧ Available limits (reading.look i) (s.clients.get i)) ∨
      (i = s.clients.size ∧ (newClient limits draws reading.create).retiring = false ∧
        (newClient limits draws reading.create).expired reading.create = false))

structure StepSafe (limits : Limits) (s : St) (op : Op) : Prop where
  /-- leases are granted on clients that are neither retired nor over their time -/
  grants : ∀ l, s.leases.size ≤ l → l < (step limits s op).leases.size →
    Granted limits s op ((step limits s op).leases.get l).client
  /-- a client that leaves the pool is not in use -/
  leaves : ∀ i ∈ s.pool, i ∉ (step limits s op).pool → op = .closeAll ∨ ((step limits s op).clients.get i).openUsage = 0
  /-- a pool that is closed stays closed -/
  closes : op = .closeAll ∨ s.closed = true → (step limits s op).closed = true
  /-- an acquirer begins to wait on the open channel, with a full pool of clients that are retired or full -/
  blocks : ∀ a channel, (step limits s op).acquirers.get a = .waiting channel → s.acquirers.get a = .waiting channel ∨
    channel = (step limits s op).notify ∧ (step limits s op).pool.length = limits.maxConnections ∧
      ∀ i ∈ (step limits s op).pool, Busy limits ((step limits s op).clients.get i)
  /-- a signal closes the channel of every acquirer that waits -/
  signals : Signals s op → ∀ a channel, (step limits s op).acquirers.get a = .waiting channel →
    channel < (step limits s op).notify
  /-- an acquirer whose channel is closed goes on -/
  wakes : ∀ a channel, op = .wake a → a < s.acquirers.size → s.acquirers.get a = .waiting channel → channel < s.notify →
    (step limits s op).acquirers.get a = .entering

theorem openUsage_of_pruned (now : ℕ) (hi : i ∈ s.pool) (hleft : i ∉ (s.pruneLocked now).pool) :
    ((s.pruneLocked now).clients.get i).openUsage = 0 := by
  by_contra hused
  refine hleft (mem_filter.2 ⟨hi, ?_⟩)
  have hbeq : (((s.pruneLocked now).clients.get i).openUsage == 0) = false := beq_false_of_ne hused
  change (!(((s.pruneLocked now).clients.get i).retiring && (((s.pruneLocked now).clients.get i).openUsage == 0)))
  rw [hbeq, Bool.and_false]
  rfl

theorem waiting_setAcquirer {a b channel : ℕ} (acquirer : Acquirer) (hacquirer : ∀ channel, acquirer ≠ .waiting channel)
    (hw : (s.setAcquirer b acquirer).acquirers.get a = .waiting channel) : s.acquirers.get a = .waiting channel := by
  change (s.acquirers.set b acquirer).get a = .waiting channel at hw
  by_cases hab : a = b
  · rw [hab, get_set_self] at hw
    exact absurd hw (hacquirer channel)
  · rwa [get_set_of_ne _ _ hab] at hw

theorem enter_safe (h : Inv limits s) (hlimits : limits.desiredConnections ≤ limits.maxConnections) (a : ℕ) (reading : Reading)
    (draws : Draws) (ha : a < s.acquirers.size ∧ s.acquirers.get a = .entering) :
    StepSafe limits s (.enter a reading draws) := by
  have hstep : step limits s (.enter a reading draws) = s.enter limits a reading draws := if_pos ha
  have hpruned := h.pruneLocked reading.prune
  have hleft := fun i => openUsage_of_pruned (s := s) (i := i) reading.prune
  have hsub : ∀ i ∈ (s.pruneLocked reading.prune).pool, i ∈ s.pool := fun i hi => mem_of_mem_filter hi
  have hmark : Marked s.clients (s.pruneLocked reading.prune).clients := marked_prune reading.prune s.pool s.clients
  rcases enter_cases hlimits s a reading draws rfl with ⟨hclosed, henter⟩ | ⟨hopen, t, hmarked, hcases⟩
  · rw [henter] at hstep
    refine ⟨?_, ?_, ?_, ?_, False.elim, fun _ _ hop => nomatch hop⟩ <;> rw [hstep]
    · exact fun l hl hl' => absurd hl' (not_lt.2 hl)
    · exact fun i hi hnot => .inr (hleft i hi hnot)
    · exact fun _ => hclosed
    · exact fun b channel hw => .inl (waiting_setAcquirer .closed nofun hw)
  · have hstays : ¬ (Op.enter a reading draws = .closeAll ∨ s.closed) := by
      rintro (hop | hclosed)
      · exact absurd hop nofun
      · exact Bool.eq_false_iff.1 hopen hclosed
    have hlooked : ∀ i ∈ s.pool, i ∉ (s.pruneLocked reading.prune).pool → (t.get i).openUsage = 0 := by
      intro i hi hnot
      rw [hmarked.openUsage]
      exact hleft i hi hnot
    rcases hcases with ⟨hroom, henter⟩ | ⟨i, hmem, havailable, hget, henter⟩ | ⟨hfull, hbusy, henter⟩ <;> rw [henter] at hstep
    · -- a new client
      have hsize : t.size = s.clients.size := hmarked.size.trans hmark.size
      obtain ⟨-, hretiring, hexpired, -⟩ := newClient_spec limits draws reading.create
      refine ⟨?_, ?_, fun hc => absurd hc hstays, ?_, False.elim, fun _ _ hop => nomatch hop⟩ <;> rw [hstep]
      · intro l hl hl'
        have hlast : l = s.leases.size := le_antisymm (Nat.lt_succ_iff.1 hl') hl
        refine ⟨hopen, a, reading, draws, rfl, .inr ⟨?_, hretiring, hexpired⟩⟩
        change ((s.leases.push ⟨t.size, false⟩).get l).client = s.clients.size
        rw [hlast, get_push_size, hsize]
      · intro i hi hnot
        have hnew : i ≠ t.size := hsize ▸ (h.pool i hi).ne
        have hold := hlooked i hi fun hmem => hnot (mem_append_left _ hmem)
        refine .inr ?_
        change (((t.push (newClient limits draws reading.create)).set t.size _).get i).openUsage = 0
        rw [get_set_of_ne _ _ hnew, get_push_of_ne _ _ hnew]
        exact hold
      · exact fun b channel hw => .inl (waiting_setAcquirer (s := s) (.granted s.leases.size) nofun hw)
    · -- a client of the pool
      refine ⟨?_, ?_, fun hc => absurd hc hstays, ?_, False.elim, fun _ _ hop => nomatch hop⟩ <;> rw [hstep]
      · intro l hl hl'
        have hlast : l = s.leases.size := le_antisymm (Nat.lt_succ_iff.1 hl') hl
        refine ⟨hopen, a, reading, draws, rfl, .inl ?_⟩
        change ((s.leases.push ⟨i, false⟩).get l).client ∈ s.pool ∧
          Available limits (reading.look ((s.leases.push ⟨i, false⟩).get l).client)
            (s.clients.get ((s.leases.push ⟨i, false⟩).get l).client)
        rw [hlast, get_push_size]
        exact ⟨hsub i hmem, havailable.of_marked hmark⟩
      · intro j hj hnot
        have hji : j ≠ i := fun hji => hnot (hji ▸ hmem)
        refine .inr ?_
        change ((t.set i _).get j).openUsage = 0
        rw [get_set_of_ne _ _ hji]
        exact hlooked j hj hnot
      · exact fun b channel hw => .inl (waiting_setAcquirer (s := s) (.granted s.leases.size) nofun hw)
    · -- the acquirer waits
      refine ⟨?_, ?_, fun hc => absurd hc hstays, ?_, False.elim, fun _ _ hop => nomatch hop⟩ <;> rw [hstep]
      · exact fun l hl hl' => absurd hl' (not_lt.2 hl)
      · exact fun i hi hnot => .inr (hlooked i hi hnot)
      · intro b channel hw
        by_cases hba : b = a
        · have hchannel : channel = s.notify := by
            change (s.acquirers.set a _).get b = .waiting channel at hw
            rw [hba, get_set_self] at hw
            exact (Acquirer.waiting.inj hw).symm
          exact .inr ⟨hchannel, le_antisymm hpruned.bounded hfull, hbusy⟩
        · change (s.acquirers.set a _).get b = .waiting channel at hw
          rw [get_set_of_ne _ _ hba] at hw
          exact .inl hw

theorem idle_safe {op : Op} (hleases : (step limits s op).leases = s.leases) (hpool : (step limits s op).pool = s.pool)
    (hclosed : (step limits s op).closed = s.closed) (hop : op ≠ .closeAll) (hsignals : ¬ Signals s op)
    (hwaits : ∀ a channel, (step limits s op).acquirers.get a = .waiting channel → s.acquirers.get a = .waiting channel)
    (hwakes : ∀ a channel, op = .wake a → a < s.acquirers.size → s.acquirers.get a = .waiting channel → channel < s.notify →
      (step limits s op).acquirers.get a = .entering) : StepSafe limits s op where
  grants _ hl hl' := absurd (hleases ▸ hl') (not_lt.2 hl)
  leaves _ hi hnot := absurd (hpool ▸ hi) hnot
  closes hc := hclosed.trans (hc.resolve_left hop)
  blocks a channel hw := .inl (hwaits a channel hw)
  signals hs := absurd hs hsignals
  wakes := hwakes

theorem same_safe {op : Op} (hstep : step limits s op = s) (hop : op ≠ .closeAll) (hsignals : ¬ Signals s op)
    (hwakes : ∀ a, op = .wake a → ∀ channel, a < s.acquirers.size → s.acquirers.get a = .waiting channel →
      ¬ channel < s.notify) : StepSafe limits s op := by
  refine idle_safe (by rw [hstep]) (by rw [hstep]) (by rw [hstep]) hop hsignals (fun a channel hw => ?_)
    fun a channel hwake ha hw hlt => absurd hlt (hwakes a hwake channel ha hw)
  rwa [hstep] at hw

theorem wake_safe (a : ℕ) : StepSafe limits s (.wake a) := by
  have hsame : step limits s (.wake a) = s → (∀ channel, a < s.acquirers.size → s.acquirers.get a = .waiting channel →
      ¬ channel < s.notify) → StepSafe limits s (.wake a) := by
    intro hstep hwakes
    refine same_safe hstep nofun id fun b hb => ?_
    rw [← Op.wake.inj hb]
    exact hwakes
  by_cases ha : a < s.acquirers.size
  · have hstep : step limits s (.wake a) = s.wake a := if_pos ha
    unfold St.wake at hstep
    cases hacquirer : s.acquirers.get a with
    | waiting channel =>
      rw [hacquirer] at hstep
      dsimp only at hstep
      by_cases hlt : channel < s.notify
      · rw [if_pos hlt] at hstep
        refine idle_safe (by rw [hstep]; rfl) (by rw [hstep]; rfl) (by rw [hstep]; rfl) nofun id (fun b channel' hw => ?_)
          fun b channel' hb _ _ _ => ?_
        · rw [hstep] at hw
          exact waiting_setAcquirer .entering nofun hw
        · rw [hstep, ← Op.wake.inj hb]
          exact get_set_self _ _ _
      · rw [if_neg hlt] at hstep
        refine hsame hstep fun channel' _ hw => ?_
        rw [← Acquirer.waiting.inj (hacquirer.symm.trans hw)]
        exact hlt
    | _ =>
      rw [hacquirer] at hstep
      exact hsame hstep fun channel' _ hw => absurd (hacquirer.symm.trans hw) nofun
  · exact hsame (if_neg ha) fun _ hlt => absurd hlt ha

theorem cancel_safe (a : ℕ) : StepSafe limits s (.cancel a) := by
  have hsame : step limits s (.cancel a) = s → StepSafe limits s (.cancel a) := fun hstep =>
    same_safe hstep nofun id fun _ hop => nomatch hop
  by_cases ha : a < s.acquirers.size
  · have hstep : step limits s (.cancel a) = s.cancel a := if_pos ha
    unfold cancel at hstep
    cases hacquirer : s.acquirers.get a with
    | waiting channel =>
      rw [hacquirer] at hstep
      refine idle_safe (by rw [hstep]; rfl) (by rw [hstep]; rfl) (by rw [hstep]; rfl) nofun id (fun b channel' hw => ?_)
        fun _ _ hop => nomatch hop
      rw [hstep] at hw
      exact waiting_setAcquirer .cancelled nofun hw
    | _ =>
      rw [hacquirer] at hstep
      exact hsame hstep
  · exact hsame (if_neg ha)

theorem release_safe (h : Inv limits s) (l now : ℕ) : StepSafe limits s (.release l now) := by
  by_cases hl : l < s.leases.size ∧ (s.leases.get l).released = false
  · have hstep : step limits s (.release l now) = s.release l now := if_pos hl.1
    unfold St.release at hstep
    rw [if_neg (Bool.eq_false_iff.1 hl.2)] at hstep
    refine ⟨?_, ?_, ?_, ?_, ?_, fun _ _ hop => nomatch hop⟩ <;> rw [hstep]
    · exact fun l' hl' hlt => absurd hlt (not_lt.2 hl')
    · exact fun i hi hnot => .inr (openUsage_of_pruned now hi hnot)
    · exact fun hc => hc.resolve_left nofun
    · exact fun a channel hw => .inl hw
    · exact fun _ a channel hw => Nat.lt_succ_of_le (h.waiting a channel hw)
  · refine same_safe ?_ nofun hl fun _ hop => nomatch hop
    by_cases hsize : l < s.leases.size
    · have hreleased : (s.leases.get l).released := by
        rw [← Bool.not_eq_false]
        exact fun hfalse => hl ⟨hsize, hfalse⟩
      unfold step St.release
      dsimp only
      rw [if_pos hsize, if_pos hreleased]
    · exact if_neg hsize

theorem step_safe (h : Inv limits s) (hlimits : limits.desiredConnections ≤ limits.maxConnections) (op : Op) :
    StepSafe limits s op := by
  cases op with
  | acquire =>
    refine idle_safe rfl rfl rfl nofun id (fun a channel hw => ?_) fun _ _ hop => nomatch hop
    change (s.acquirers.push .entering).get a = .waiting channel at hw
    by_cases ha : a = s.acquirers.size
    · rw [ha, get_push_size] at hw
      exact absurd hw nofun
    · rwa [get_push_of_ne _ _ ha] at hw
  | enter a reading draws =>
    by_cases ha : a < s.acquirers.size ∧ s.acquirers.get a = .entering
    · exact enter_safe h hlimits a reading draws ha
    · exact same_safe (if_neg ha) nofun id fun _ hop => nomatch hop
  | wake a => exact wake_safe a
  | cancel a => exact cancel_safe a
  | release l now => exact release_safe h l now
  | consumeRequest l =>
    by_cases hl : l < s.leases.size
    · have hstep : step limits s (.consumeRequest l) = s.consumeRequest l := if_pos hl
      refine ⟨?_, ?_, ?_, ?_, ?_, fun _ _ hop => nomatch hop⟩ <;> rw [hstep]
      · exact fun l' hl' hlt => absurd hlt (not_lt.2 hl')
      · exact fun i hi hnot => absurd hi hnot
      · exact fun hc => hc.resolve_left nofun
      · exact fun a channel hw => .inl hw
      · exact fun _ a channel hw => Nat.lt_succ_of_le (h.waiting a channel hw)
    · exact same_safe (if_neg hl) nofun hl fun _ hop => nomatch hop
  | closeAll =>
    have hstep : step limits s .closeAll = s.closeAll := rfl
    unfold closeAll at hstep
    by_cases hc : s.closed
    · rw [if_pos hc] at hstep
      refine ⟨?_, fun _ _ _ => .inl rfl, ?_, ?_, fun hs => absurd hs (Bool.not_eq_false _ ▸ hc), fun _ _ hop => nomatch hop⟩ <;>
        rw [hstep]
      · exact fun l' hl' hlt => absurd hlt (not_lt.2 hl')
      · exact fun _ => hc
      · exact fun a channel hw => .inl hw
    · rw [if_neg hc] at hstep
      refine ⟨?_, fun _ _ _ => .inl rfl, ?_, ?_, ?_, fun _ _ hop => nomatch hop⟩ <;> rw [hstep]
      · exact fun l' hl' hlt => absurd hlt (not_lt.2 hl')
      · exact fun _ => rfl
      · exact fun a channel hw => .inl hw
      · exact fun _ a channel hw => Nat.lt_succ_of_le (h.waiting a channel hw)
  | closeNext =>
    have hstep : step limits s .closeNext = s.closeNext := rfl
    unfold St.closeNext at hstep
    cases hclosing : s.closing with
    | nil =>
      rw [hclosing] at hstep
      exact same_safe hstep nofun id fun _ hop => nomatch hop
    | cons i closing =>
      rw [hclosing] at hstep
      refine idle_safe ?_ ?_ ?_ nofun id (fun a channel hw => ?_) fun _ _ hop => nomatch hop
      · rw [hstep]
      · rw [hstep]
      · rw [hstep]
      · rwa [hstep] at hw

/-- **The XMUX pool** has at most `maxConnections` clients, at most sixteen; each client counts its open leases and keeps its
limits; and every step grants, removes, blocks and wakes as `StepSafe` says. -/
theorem xmux_pool (config : Config) (concurrencyDraw connectionsDraw : ℕ) (ops : List Op) :
    let limits := newXmuxManager config concurrencyDraw connectionsDraw
    limits.maxConnections ≤ 16 ∧ Inv limits (run limits ops) ∧ ∀ op, StepSafe limits (run limits ops) op := by
  obtain ⟨hmax, hdesired⟩ := newXmuxManager_le config concurrencyDraw connectionsDraw
  have hinv := run_inv hdesired ops
  exact ⟨hmax, hinv, step_safe hinv hdesired⟩

end EtonifyCore.Xmux
