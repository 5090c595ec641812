/-
Idle connections of the XMUX pool: the calls of `closeIdleConnections` in `pruneLocked` and in the loop of `closeAll`.

Result: `closed_once`. Each client that has left the pool has had the call exactly once, or the loop of `closeAll` still comes
to it. The call is behind the last release exactly if no lease is held when it is made; a pruned client has none. After a
`closeAll` the release of a lease makes no second call (`leased_not_swept`), which is what the test of `closeAll` asks for.
The manager after a `Reset` is a new one.
-/
import EtonifyCore.Transport.XmuxPoolSafety

namespace EtonifyCore.Xmux

open List

/-! ## What the log says about a client -/

/-- the log has one call for client `i`, no lease on it is acquired afterwards, and none is held if it is pruned -/
structure Split (i : ℕ) (log pre : List Event) (pruned : Bool) (post : List Event) : Prop where
  eq : log = pre ++ .closeIdle i pruned :: post
  once : ∀ b, .closeIdle i b ∉ pre ++ post
  last : .acquire i ∉ post
  idle : pruned = true → pre.count (.release i) = pre.count (.acquire i)

def Called (log : List Event) (i : ℕ) : Prop := ∃ pre pruned post, Split i log pre pruned post

/-- the claim on a client: a call at or after the release of its last lease -/
def ClosedAtEnd (log : List Event) (i : ℕ) : Prop :=
  ∃ pre pruned post, log = pre ++ .closeIdle i pruned :: post ∧ .release i ∉ post

theorem Called.append {log events : List Event} {i : ℕ} (h : Called log i) (hacquire : .acquire i ∉ events)
    (hclose : ∀ b, .closeIdle i b ∉ events) : Called (log ++ events) i := by
  obtain ⟨pre, pruned, post, heq, honce, hlast, hidle⟩ := h
  refine ⟨pre, pruned, post ++ events, by rw [heq, append_assoc, cons_append], fun b hb => ?_, fun ha => ?_, hidle⟩
  · rw [← append_assoc] at hb
    exact (mem_append.1 hb).elim (honce b) (hclose b)
  · exact (mem_append.1 ha).elim hlast hacquire

theorem Called.mem {log : List Event} {i : ℕ} (h : Called log i) : ∃ b, .closeIdle i b ∈ log := by
  obtain ⟨pre, pruned, post, heq, -⟩ := h
  exact ⟨pruned, by rw [heq]; exact mem_append_right _ mem_cons_self⟩

/-! ## Invariant -/

structure Logged (s : St) : Prop where
  held : ∀ i, s.log.count (.acquire i) = s.leases.total (Lease.opened i) + s.log.count (.release i)
  fresh : ∀ i, s.clients.size ≤ i → ∀ b, .closeIdle i b ∉ s.log
  nodup : (s.pool ++ s.closing).Nodup
  kept : ∀ i ∈ s.pool ++ s.closing, i < s.clients.size ∧ ∀ b, .closeIdle i b ∉ s.log
  left : ∀ i < s.clients.size, i ∈ s.pool ++ s.closing ∨ Called s.log i
  isOpen : s.closed = false → s.closing = []
  isClosed : s.closed = true → s.pool = []

namespace Logged

variable {limits : Limits} {s s' : St} {i : ℕ} (h : Logged s)
include h

/-- what is logged and kept is the same -/
theorem of_eq (hclients : s'.clients.size = s.clients.size) (hpool : s'.pool = s.pool) (hclosing : s'.closing = s.closing)
    (hleases : s'.leases = s.leases) (hlog : s'.log = s.log) (hclosed : s'.closed = s.closed) : Logged s' := by
  obtain ⟨hheld, hfresh, hnodup, hkept, hleft, hopen, hdone⟩ := h
  constructor <;> simp only [hclients, hpool, hclosing, hleases, hlog, hclosed] <;> assumption

theorem not_called (hi : i ∈ s.pool ++ s.closing) : ¬ Called s.log i := fun hcalled => by
  obtain ⟨b, hb⟩ := hcalled.mem
  exact (h.kept i hi).2 b hb

theorem pruneLocked (hinv : Inv limits s) (now : ℕ) : Logged (s.pruneLocked now) := by
  have hmarked := marked_prune now s.pool s.clients
  generalize hclients : s.pool.foldl (fun clients i => clients.set i ((clients.get i).prune now)) s.clients = clients at hmarked
  let idle i := (clients.get i).retiring && (clients.get i).openUsage == 0
  have hs : s.pruneLocked now = { s with
      clients
      pool := s.pool.filter fun i => !idle i
      log := s.log ++ (s.pool.filter idle).map fun i => .closeIdle i true } := by
    subst hclients
    rfl
  have hother : ∀ e : Event, (∀ j b, e ≠ .closeIdle j b) → ((s.pool.filter idle).map fun i => Event.closeIdle i true).count e = 0 :=
    fun e he => count_eq_zero.2 fun hmem => by
      obtain ⟨j, -, hj⟩ := mem_map.1 hmem
      exact he j true hj.symm
  have hcloses : ∀ j b, .closeIdle j b ∈ (s.pool.filter idle).map (fun i => Event.closeIdle i true) →
      j ∈ s.pool ∧ idle j = true := by
    intro j b hmem
    obtain ⟨j', hj', heq⟩ := mem_map.1 hmem
    obtain rfl := (Event.closeIdle.inj heq).1
    exact mem_filter.1 hj'
  rw [hs]
  refine ⟨fun i => ?_, fun i hi b hb => ?_, ?_, fun i hi => ?_, fun i hi => ?_, h.isOpen, fun hc => ?_⟩
  · simp only [count_append, hother (.acquire i) nofun, hother (.release i) nofun, add_zero]
    exact h.held i
  · have hi' : s.clients.size ≤ i := hmarked.size ▸ hi
    rcases mem_append.1 hb with hold | hnew
    · exact h.fresh i hi' b hold
    · exact absurd (h.kept i (mem_append_left _ (hcloses i b hnew).1)).1 (not_lt.2 hi')
  · exact h.nodup.sublist (filter_sublist.append_right _)
  · have hmem : i ∈ s.pool ++ s.closing := (mem_append.1 hi).elim (fun hp => mem_append_left _ (mem_of_mem_filter hp))
      fun hc => mem_append_right _ hc
    refine ⟨hmarked.size ▸ (h.kept i hmem).1, fun b hb => ?_⟩
    rcases mem_append.1 hb with hold | hnew
    · exact (h.kept i hmem).2 b hold
    · obtain ⟨hpool, hidle⟩ := hcloses i b hnew
      rcases mem_append.1 hi with hp | hc
      · simpa [hidle] using (mem_filter.1 hp).2
      · exact (nodup_append.1 h.nodup).2.2 i hpool i hc rfl
  · have hlt : i < s.clients.size := hmarked.size ▸ hi
    rcases h.left i hlt with hmem | hcalled
    · rcases mem_append.1 hmem with hpool | hc
      · cases hidle : idle i with
        | false => exact .inl (mem_append_left _ (mem_filter.2 ⟨hpool, by rw [hidle]; rfl⟩))
        | true =>
          -- the call of this round
          obtain ⟨before, behind, hout⟩ := append_of_mem (mem_filter.2 ⟨hpool, hidle⟩)
          have hnodup := ((nodup_append.1 h.nodup).1.filter idle)
          rw [hout] at hnodup hother
          obtain ⟨hbefore, hbehind⟩ := List.nodup_middle.1 hnodup |> nodup_cons.1 |>.1 |> not_or.1 ∘ mt mem_append.2
          have hzero : s.leases.total (Lease.opened i) = 0 := by
            rw [← (hinv.client i hlt).openUsage, ← hmarked.openUsage]
            simpa using (Bool.and_eq_true_iff.1 hidle).2
          have hcount := h.held i
          refine .inr ⟨s.log ++ before.map fun i => .closeIdle i true, true, behind.map fun i => .closeIdle i true,
            by simp [hout], fun b hb => ?_, by simp, fun _ => ?_⟩
          · simp only [mem_append, mem_map, Event.closeIdle.injEq] at hb
            rcases hb with (hlog | ⟨j, hj, rfl, -⟩) | ⟨j, hj, rfl, -⟩
            · exact (h.kept _ hmem).2 b hlog
            · exact hbefore hj
            · exact hbehind hj
          · have hnone : ∀ e : Event, (∀ j b, e ≠ .closeIdle j b) → (before.map fun i => Event.closeIdle i true).count e = 0 :=
              fun e he => count_eq_zero.2 (by simpa using fun j _ heq => he j true heq.symm)
            rw [count_append, count_append, hnone (.release i) nofun, hnone (.acquire i) nofun]
            omega
      · exact .inl (mem_append_right _ hc)
    · refine .inr (hcalled.append (by simp) fun b hb => ?_)
      exact h.not_called (mem_append_left _ (hcloses i b hb).1) hcalled
  · rw [show s.pool = [] from h.isClosed hc]
    rfl

theorem grant (a : ℕ) (hi : i ∈ s.pool) : Logged (s.grant a i) := by
  have hmem : i ∈ s.pool ++ s.closing := mem_append_left _ hi
  refine ⟨fun j => ?_, fun j hj b hb => ?_, h.nodup, fun j hj => ⟨(h.kept j hj).1, fun b hb => ?_⟩, fun j hj => ?_, h.isOpen,
    h.isClosed⟩
  · have hj := h.held j
    change (s.log ++ [Event.acquire i]).count _ = (s.leases.push ⟨i, false⟩).total _ + (s.log ++ [Event.acquire i]).count _
    rw [count_append, count_append, Core.Table.total_push]
    by_cases hij : i = j
    · subst hij
      simp [Lease.opened]
      omega
    · simp [Lease.opened, hij]
      omega
  · exact (mem_append.1 hb).elim (h.fresh j hj b) (by simp)
  · exact (mem_append.1 hb).elim ((h.kept j hj).2 b) (by simp)
  · refine (h.left j hj).imp_right fun hcalled => hcalled.append ?_ (by simp)
    rw [mem_singleton, Event.acquire.injEq]
    rintro rfl
    exact h.not_called hmem hcalled

theorem create (hopen : s.closed = false) (draws : Draws) (now a : ℕ) : Logged (s.create limits draws now a) := by
  have hclosing := h.isOpen hopen
  refine grant (s := { s with
    clients := s.clients.push (newClient limits draws now), pool := s.pool ++ [s.clients.size] }) ?_ a
    (mem_append_right _ mem_cons_self)
  have hnew : s.clients.size ∉ s.pool := fun hmem => Nat.lt_irrefl _ (h.kept _ (mem_append_left _ hmem)).1
  refine ⟨h.held, fun i hi => h.fresh i (Nat.le_of_succ_le hi), ?_, fun i hi => ?_, fun i hi => ?_, fun _ => hclosing,
    fun hc => absurd hc (by rw [hopen]; nofun)⟩
  · have hnodup := h.nodup
    simp only [hclosing, append_nil] at hnodup ⊢
    exact hnodup.append (nodup_singleton _) (by simpa using hnew)
  · rcases mem_append.1 hi with hpool | hc
    · rcases mem_append.1 hpool with hold | hlast
      · obtain ⟨hlt, hnone⟩ := h.kept i (mem_append_left _ hold)
        exact ⟨hlt.trans (Nat.lt_succ_self _), hnone⟩
      · rw [mem_singleton.1 hlast]
        exact ⟨Nat.lt_succ_self _, h.fresh _ le_rfl⟩
    · rw [hclosing] at hc
      cases hc
  · rcases Nat.lt_succ_iff_lt_or_eq.1 hi with hlt | rfl
    · refine (h.left i hlt).imp_left fun hmem => ?_
      rw [hclosing, append_nil] at hmem
      exact mem_append_left _ (mem_append_left _ hmem)
    · exact .inl (mem_append_left _ (mem_append_right _ mem_cons_self))

theorem enter (hinv : Inv limits s) (hlimits : limits.desiredConnections ≤ limits.maxConnections) (a : ℕ) (reading : Reading)
    (draws : Draws) : Logged (s.enter limits a reading draws) := by
  have hpruned := h.pruneLocked hinv reading.prune
  rcases enter_cases hlimits s a reading draws rfl with ⟨-, henter⟩ | ⟨hopen, t, hmarked, hcases⟩
  · rw [henter]
    exact hpruned.of_eq rfl rfl rfl rfl rfl rfl
  · have hlooked : Logged { s.pruneLocked reading.prune with clients := t } := hpruned.of_eq hmarked.size rfl rfl rfl rfl rfl
    rcases hcases with ⟨-, henter⟩ | ⟨i, hmem, -, -, henter⟩ | ⟨-, -, henter⟩ <;> rw [henter]
    · exact hlooked.create hopen draws _ a
    · exact hlooked.grant a hmem
    · exact hlooked.of_eq rfl rfl rfl rfl rfl rfl

theorem release (hinv : Inv limits s) {l : ℕ} (hl : l < s.leases.size) (now : ℕ) : Logged (s.release l now) := by
  unfold St.release
  dsimp only
  split_ifs with hreleased
  · exact h
  · refine of_eq (pruneLocked ?_ (hinv.releaseLease hl (Bool.eq_false_iff.2 hreleased)) now) rfl rfl rfl rfl rfl rfl
    refine ⟨fun j => ?_, fun j hj b hb => ?_, h.nodup, fun j hj => ⟨(h.kept j hj).1, fun b hb => ?_⟩, fun j hj => ?_,
      h.isOpen, h.isClosed⟩
    · have hj := h.held j
      have htotal := s.leases.total_set (Lease.opened j) ⟨(s.leases.get l).client, true⟩ hl
      dsimp only
      rw [count_append, count_append]
      by_cases hij : (s.leases.get l).client = j
      · simp [Lease.opened, hij, hreleased] at htotal ⊢
        omega
      · simp [Lease.opened, hij] at htotal ⊢
        omega
    · exact (mem_append.1 hb).elim (h.fresh j hj b) (by simp)
    · exact (mem_append.1 hb).elim ((h.kept j hj).2 b) (by simp)
    · exact (h.left j hj).imp_right fun hcalled => hcalled.append (by simp) (by simp)

theorem closeAll : Logged s.closeAll := by
  unfold St.closeAll
  split_ifs with hc
  · exact h
  · have hclosing := h.isOpen (Bool.eq_false_iff.2 hc)
    have hsame : s.pool ++ s.closing = [] ++ s.pool := by rw [hclosing, append_nil, nil_append]
    exact ⟨h.held, h.fresh, hsame ▸ h.nodup, hsame ▸ h.kept, hsame ▸ h.left, nofun, fun _ => rfl⟩

theorem closeNext : Logged s.closeNext := by
  unfold St.closeNext
  cases hclosing : s.closing with
  | nil => exact h
  | cons i closing =>
    have hi : i ∈ s.pool ++ s.closing := mem_append_right _ (by rw [hclosing]; exact mem_cons_self)
    have hnodup := h.nodup
    rw [hclosing, nodup_middle, nodup_cons] at hnodup
    have hmem : ∀ j ∈ s.pool ++ closing, j ∈ s.pool ++ s.closing := fun j hj =>
      (mem_append.1 hj).elim (mem_append_left _) fun hc => mem_append_right _ (by rw [hclosing]; exact mem_cons_of_mem _ hc)
    refine ⟨fun j => ?_, fun j hj b hb => ?_, hnodup.2, fun j hj => ⟨(h.kept j (hmem j hj)).1, fun b hb => ?_⟩, fun j hj => ?_,
      fun hopen => ?_, h.isClosed⟩
    · have hj := h.held j
      simpa using hj
    · rcases mem_append.1 hb with hold | hnew
      · exact h.fresh j hj b hold
      · obtain ⟨rfl, -⟩ := Event.closeIdle.inj (mem_singleton.1 hnew)
        exact absurd (h.kept j hi).1 (not_lt.2 hj)
    · rcases mem_append.1 hb with hold | hnew
      · exact (h.kept j (hmem j hj)).2 b hold
      · obtain ⟨rfl, -⟩ := Event.closeIdle.inj (mem_singleton.1 hnew)
        exact hnodup.1 hj
    · by_cases hji : j = i
      · subst hji
        exact .inr ⟨s.log, false, [], rfl, by simpa using (h.kept j hi).2, by simp, nofun⟩
      · rcases h.left j hj with hold | hcalled
        · rw [hclosing, mem_append, mem_cons] at hold
          exact .inl (mem_append.2 (hold.imp_right fun hc => hc.resolve_left hji))
        · refine .inr (hcalled.append (by simp) fun b hb => ?_)
          exact hji (Event.closeIdle.inj (mem_singleton.1 hb)).1
    · rw [h.isOpen hopen] at hclosing
      cases hclosing

theorem step (hinv : Inv limits s) (hlimits : limits.desiredConnections ≤ limits.maxConnections) (op : Op) :
    Logged (step limits s op) := by
  cases op with
  | acquire => exact h.of_eq rfl rfl rfl rfl rfl rfl
  | enter a reading draws =>
    rw [Xmux.step]
    split_ifs
    · exact h.enter hinv hlimits a reading draws
    · exact h
  | wake a =>
    rw [Xmux.step, St.wake]
    split_ifs <;> (try split) <;> (try split_ifs) <;> exact h.of_eq rfl rfl rfl rfl rfl rfl
  | cancel a =>
    rw [Xmux.step, St.cancel]
    split_ifs <;> (try split) <;> exact h.of_eq rfl rfl rfl rfl rfl rfl
  | release l now =>
    rw [Xmux.step]
    split_ifs with hl
    · exact h.release hinv hl now
    · exact h
  | consumeRequest l =>
    rw [Xmux.step]
    split_ifs <;> exact h.of_eq rfl rfl rfl rfl rfl rfl
  | closeAll => exact h.closeAll
  | closeNext => exact h.closeNext

end Logged

/-! ## Runs -/

theorem run_logged {limits : Limits} (hlimits : limits.desiredConnections ≤ limits.maxConnections) (ops : List Op) :
    Logged (run limits ops) := by
  have hinit : Logged {} :=
    ⟨fun _ => rfl, fun _ _ _ => not_mem_nil, nodup_nil, nofun, fun i hi => absurd hi (Nat.not_lt_zero i), fun _ => rfl, nofun⟩
  induction ops using List.reverseRecOn with
  | nil => exact hinit
  | append_singleton ops op ih =>
    rw [run, foldl_append]
    exact ih.step (run_inv hlimits ops) hlimits op

/-- the loop of `closeAll` comes to all its clients -/
theorem closing_empties (limits : Limits) (s : St) :
    ((replicate s.closing.length Op.closeNext).foldl (step limits) s).closing = [] := by
  generalize hn : s.closing.length = n
  induction n generalizing s with
  | zero => exact length_eq_zero_iff.1 hn
  | succ n ih =>
    rw [replicate_succ, foldl_cons]
    apply ih
    change s.closeNext.closing.length = n
    unfold St.closeNext
    cases hclosing : s.closing with
    | nil => simp [hclosing] at hn
    | cons i closing => simpa [hclosing] using hn

/-- **Each transport is closed once.** A client that has left the pool, and that the loop of `closeAll` has come to, has had one
call of `closeIdleConnections`; the call is behind the last release if and only if no lease was held at the call, as for
every client that is pruned; and the loop comes to every client. -/
theorem closed_once (config : Config) (concurrencyDraw connectionsDraw : ℕ) (ops : List Op) :
    let limits := newXmuxManager config concurrencyDraw connectionsDraw
    let s := run limits ops
    (∀ i < s.clients.size, i ∉ s.pool → i ∉ s.closing → ∃ pre pruned post,
      s.log = pre ++ .closeIdle i pruned :: post ∧ (∀ b, .closeIdle i b ∉ pre ++ post) ∧
      (pruned = true → pre.count (.release i) = pre.count (.acquire i)) ∧
      (s.leases.total (Lease.opened i) = 0 →
        (.release i ∉ post ↔ pre.count (.release i) = pre.count (.acquire i)))) ∧
    (run limits (ops ++ replicate s.closing.length .closeNext)).closing = [] := by
  obtain ⟨-, hlimits⟩ := newXmuxManager_le config concurrencyDraw connectionsDraw
  have hlogged := run_logged hlimits ops
  refine ⟨fun i hi hpool hclosing => ?_, ?_⟩
  · have hcalled := (hlogged.left i hi).resolve_left fun hmem => (mem_append.1 hmem).elim hpool hclosing
    obtain ⟨pre, pruned, post, heq, honce, hlast, hidle⟩ := hcalled
    refine ⟨pre, pruned, post, heq, honce, hidle, fun hreleased => ?_⟩
    have hheld := hlogged.held i
    rw [hreleased, heq] at hheld
    simp only [count_append, count_cons, count_eq_zero.2 hlast] at hheld
    rw [← count_eq_zero]
    simp at hheld
    omega
  · rw [run, foldl_append]
    exact closing_empties _ _

/-- `closeAll` while a dial holds its lease: the call comes before the release, and there is no other -/
theorem leased_not_swept :
    let s := run (newXmuxManager {} 0 0) [.acquire, .enter 0 {} {}, .closeAll, .closeNext, .release 0 0]
    s.clients.size = 1 ∧ s.pool = [] ∧ s.closing = [] ∧ s.leases.total (Lease.opened 0) = 0 ∧ ¬ ClosedAtEnd s.log 0 := by
  refine ⟨by decide +kernel, by decide +kernel, by decide +kernel, by decide +kernel, ?_⟩
  rintro ⟨pre, pruned, post, heq, hno⟩
  have hlog : (run (newXmuxManager {} 0 0) [.acquire, .enter 0 {} {}, .closeAll, .closeNext, .release 0 0]).log =
      [.acquire 0, .closeIdle 0 false, .release 0] := by decide +kernel
  rw [hlog] at heq
  -- the only call is the second event
  obtain _ | ⟨e, _ | ⟨e', _ | ⟨e'', pre⟩⟩⟩ := pre
  · simp at heq
  · obtain ⟨-, -, rfl⟩ : _ ∧ _ ∧ [Event.release 0] = post := by simpa using heq
    exact hno mem_cons_self
  · simp at heq
  · simp at heq

end EtonifyCore.Xmux
