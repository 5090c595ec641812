/-
The registry of the realm server over every interleaving of its requests, timers and readers.

- `Registry`: `realms`, `sessions` and `userCounts` describe one set of open sessions.
- `Channels`: which channels are still open, and who may close or send to them.
- `inv_run`: both are kept by every section, on any pointer a request may still hold.

Premise: `rand.Read` does not repeat a token that is in use (`Fresh`).
-/
import EtonifyCore.Realm.Server

namespace EtonifyCore.Realm

open Function List
open Core (Table Chan)
open Core.Keyed Core.Table

/-! ## The invariants -/

/-- every token of the user has a positive limit, of at most `n` -/
def Limit (tokenMap : String → Option User) (name : String) (n : ℤ) : Prop :=
  0 ≤ n ∧ ∀ bearer user, tokenMap bearer = some user → user.name = name → 0 < user.maxRealms ∧ user.maxRealms ≤ n

def sessionsOf (heap : Table Session) (sessions : List (String × ℕ)) (name : String) : ℕ :=
  sessions.countP fun kv => (heap.get kv.2).username = name

structure Registry (tokenMap : String → Option User) (st : St) : Prop where
  keys : (st.sessions.map (·.1)).Nodup
  session : ∀ kv ∈ st.sessions, kv.2 < st.heap.size ∧ (st.heap.get kv.2).id = kv.1 ∧ (st.heap.get kv.2).closed = false
  realm : ∀ id p, st.realms id = some p →
    p < st.heap.size ∧ (st.heap.get p).closed = false ∧ (st.heap.get p).realmID = id
  listed : ∀ p < st.heap.size, (st.heap.get p).closed = false →
    ((st.heap.get p).id, p) ∈ st.sessions ∧ st.realms (st.heap.get p).realmID = some p
  counts : ∀ name, st.userCounts name = sessionsOf st.heap st.sessions name
  limits : ∀ name n, Limit tokenMap name n → st.userCounts name ≤ n

structure SessionOk (chans : Table (Chan (List String))) (sess : Session) : Prop where
  opened : sess.closed = false → sess.done.Fresh ∧ sess.events.Fresh
  done : sess.done.Sound
  events : sess.events.Sound
  removed : sess.closed = true → sess.pending = []
  few : sess.pending.length ≤ maxPendingAttempts
  distinct : (sess.pending.map (·.2)).Nodup
  pending : ∀ kv ∈ sess.pending, kv.2 < chans.size ∧ (chans.get kv.2).Fresh

structure Channels (st : St) : Prop where
  session : ∀ p < st.heap.size, SessionOk st.chans (st.heap.get p)
  apart : ∀ p < st.heap.size, ∀ q < st.heap.size, p ≠ q →
    ∀ kv ∈ (st.heap.get p).pending, ∀ kv' ∈ (st.heap.get q).pending, kv.2 ≠ kv'.2
  sound : ∀ c < st.chans.size, (st.chans.get c).Sound

def Phase.sess : Phase → Option ℕ
  | .deregister p | .heartbeat p _ | .acknowledge p | .attempt p _ _ | .punch p _ _ _ | .wait p _ _ _ | .cancel p _ _
  | .respond p _ _ => some p
  | .received _ | .replied _ => none

structure Inv (tokenMap : String → Option User) (st : St) : Prop where
  registry : Registry tokenMap st
  channels : Channels st
  calls : ∀ i < st.calls.size, ∀ p, (st.calls.get i).sess = some p → p < st.heap.size

/-! ## Sections that leave the registry alone -/

structure Session.Same (a b : Session) : Prop where
  id : b.id = a.id
  realmID : b.realmID = a.realmID
  username : b.username = a.username
  closed : b.closed = a.closed

theorem Session.Same.refl (a : Session) : Session.Same a a := ⟨rfl, rfl, rfl, rfl⟩

theorem Registry.same {tokenMap : String → Option User} {st st' : St} (h : Registry tokenMap st)
    (hsize : st'.heap.size = st.heap.size) (hsame : ∀ p, Session.Same (st.heap.get p) (st'.heap.get p))
    (hrealms : st'.realms = st.realms) (hsessions : st'.sessions = st.sessions)
    (hcounts : st'.userCounts = st.userCounts) : Registry tokenMap st' := by
  refine ⟨?_, ?_, ?_, ?_, ?_, ?_⟩
  · rw [hsessions]
    exact h.keys
  · intro kv hkv
    rw [hsessions] at hkv
    obtain ⟨hlt, hid, hopen⟩ := h.session kv hkv
    rw [hsize, (hsame kv.2).id, (hsame kv.2).closed]
    exact ⟨hlt, hid, hopen⟩
  · intro id p hp
    rw [hrealms] at hp
    obtain ⟨hlt, hopen, hrealm⟩ := h.realm id p hp
    rw [hsize, (hsame p).closed, (hsame p).realmID]
    exact ⟨hlt, hopen, hrealm⟩
  · intro p hp hopen
    rw [hsize] at hp
    rw [(hsame p).closed] at hopen
    rw [(hsame p).id, (hsame p).realmID, hsessions, hrealms]
    exact h.listed p hp hopen
  · intro name
    rw [hcounts, hsessions, h.counts name]
    simp only [sessionsOf, (hsame _).username]
  · intro name n hn
    rw [hcounts]
    exact h.limits name n hn

variable {sess : Session}

theorem same_set {heap : Table Session} {p : ℕ} (h : Session.Same (heap.get p) sess) (q : ℕ) :
    Session.Same (heap.get q) ((heap.set p sess).get q) :=
  get_set_cases (P := fun x : Session => Session.Same (heap.get q) x) heap (fun hq => hq ▸ h)
    fun _ => Session.Same.refl _

theorem Channels.set {st : St} (h : Channels st) {p : ℕ} (hok : SessionOk st.chans sess)
    (hsub : ∀ kv ∈ sess.pending, kv ∈ (st.heap.get p).pending) : Channels { st with heap := st.heap.set p sess } := by
  refine ⟨?_, ?_, h.sound⟩
  · intro q hq
    exact get_set_cases (P := SessionOk st.chans) st.heap (fun _ => hok) fun _ => h.session q hq
  · have hback : ∀ q, ∀ kv ∈ ((st.heap.set p sess).get q).pending, kv ∈ (st.heap.get q).pending := by
      intro q kv
      exact get_set_cases (P := fun x : Session => kv ∈ x.pending → kv ∈ (st.heap.get q).pending) st.heap
        (fun hq hkv => hq ▸ hsub kv hkv) fun _ hkv => hkv
    intro q hq r hr hne kv hkv kv' hkv'
    exact h.apart q hq r hr hne kv (hback q kv hkv) kv' (hback r kv' hkv')

/-! ## Removing a session -/

section Remove

variable {tokenMap : String → Option User} {st : St} {p : ℕ}

theorem Registry.eq_of_id (h : Registry tokenMap st) {q : ℕ} (hp : p < st.heap.size) (hq : q < st.heap.size)
    (hpo : (st.heap.get p).closed = false) (hqo : (st.heap.get q).closed = false)
    (hid : (st.heap.get p).id = (st.heap.get q).id) : p = q := by
  have hpm := (h.listed p hp hpo).1
  have hqm := (h.listed q hq hqo).1
  rw [hid] at hpm
  exact congrArg Prod.snd (inj_on_of_nodup_map h.keys hpm hqm rfl)

theorem removeSessionLocked_closed (hclosed : (st.heap.get p).closed) : st.removeSessionLocked p = st := by
  exact if_pos hclosed

def Session.remove (sess : Session) : Session :=
  { sess with closed := true, done := sess.done.close, events := sess.events.close, pending := [] }

theorem removeSessionLocked_open (h : Registry tokenMap st) (hp : p < st.heap.size)
    (hopen : (st.heap.get p).closed = false) : st.removeSessionLocked p = { st with
        heap := st.heap.set p (st.heap.get p).remove
        chans := (st.heap.get p).pending.foldl (fun chans kv => chans.set kv.2 (chans.get kv.2).close) st.chans
        realms := update st.realms (st.heap.get p).realmID none
        sessions := without (st.heap.get p).id st.sessions
        userCounts := st.countDown (st.heap.get p).username } := by
  obtain ⟨hlisted, hrealm⟩ := h.listed p hp hopen
  have hsome : (get? (st.heap.get p).id st.sessions).isSome := by
    cases hget : get? (st.heap.get p).id st.sessions with
    | some q => rfl
    | none => exact absurd (mem_map_of_mem hlisted) (not_mem_of_get? hget)
  unfold St.removeSessionLocked
  dsimp only
  rw [if_neg (by rw [hopen]; decide), if_pos hrealm, if_pos hsome]
  rfl

theorem Registry.remove (h : Registry tokenMap st) (hp : p < st.heap.size) :
    Registry tokenMap (st.removeSessionLocked p) := by
  cases hopen : (st.heap.get p).closed with
  | true =>
    rw [removeSessionLocked_closed hopen]
    exact h
  | false =>
    rw [removeSessionLocked_open h hp hopen]
    obtain ⟨hlisted, hrealm⟩ := h.listed p hp hopen
    have hother : ∀ q, q ≠ p → (st.heap.set p (st.heap.get p).remove).get q = st.heap.get q :=
      fun q hq => get_set_of_ne _ _ hq
    have hself : (st.heap.set p (st.heap.get p).remove).get p = (st.heap.get p).remove := get_set_self _ _ _
    have hname := apply_get_set st.heap Session.username (a := (st.heap.get p).remove) (i := p) rfl
    have hcount : ∀ name, st.countDown (st.heap.get p).username name =
        sessionsOf (st.heap.set p (st.heap.get p).remove) (without (st.heap.get p).id st.sessions) name := by
      intro name
      have hold := h.counts name
      have htake := countP_without h.keys hlisted fun kv => decide ((st.heap.get kv.2).username = name)
      simp only [sessionsOf, hname, St.countDown] at hold ⊢
      by_cases hu : name = (st.heap.get p).username
      · subst hu
        rw [if_pos (by simp)] at htake
        rw [update_self]
        split_ifs <;> omega
      · rw [if_neg (by simpa using Ne.symm hu)] at htake
        rw [update_of_ne hu]
        omega
    refine ⟨?_, ?_, ?_, ?_, hcount, ?_⟩
    · exact h.keys.sublist ((without_sublist _ _).map _)
    · intro kv hkv
      obtain ⟨hmem, hne⟩ := mem_without.1 hkv
      obtain ⟨hlt, hid, hko⟩ := h.session kv hmem
      have hkp : kv.2 ≠ p := fun hkp => hne (by rw [← hid, hkp])
      rw [hother kv.2 hkp]
      exact ⟨hlt, hid, hko⟩
    · intro id q hq
      by_cases hid : id = (st.heap.get p).realmID
      · rw [hid] at hq
        simp at hq
      · have hq' : st.realms id = some q := by
          simpa [update_of_ne hid] using hq
        obtain ⟨hlt, hqo, hrid⟩ := h.realm id q hq'
        have hqp : q ≠ p := fun hqp => hid (by rw [← hrid, hqp])
        rw [hother q hqp]
        exact ⟨hlt, hqo, hrid⟩
    · intro q hq hqo
      have hqp : q ≠ p := by
        intro hqp
        rw [hqp] at hqo
        rw [hself] at hqo
        cases hqo
      rw [hother q hqp] at hqo
      obtain ⟨hql, hqr⟩ := h.listed q hq hqo
      have hids : (st.heap.get q).id ≠ (st.heap.get p).id := fun hids => hqp (h.eq_of_id hq hp hqo hopen hids)
      have hrealms : (st.heap.get q).realmID ≠ (st.heap.get p).realmID := by
        intro hrealms
        rw [hrealms, hrealm] at hqr
        exact hqp (Option.some.inj hqr).symm
      change (((st.heap.set p _).get q).id, q) ∈ without _ st.sessions ∧
        update st.realms _ none ((st.heap.set p _).get q).realmID = some q
      rw [hother q hqp, update_of_ne hrealms]
      exact ⟨mem_without.2 ⟨hql, hids⟩, hqr⟩
    · intro name n hn
      have hold := h.limits name n hn
      change st.countDown (st.heap.get p).username name ≤ n
      unfold St.countDown
      by_cases hu : name = (st.heap.get p).username
      · subst hu
        rw [update_self]
        split_ifs
        · exact hn.1
        · omega
      · rw [update_of_ne hu]
        exact hold

theorem fold_close {l : List (String × ℕ)} {chans : Table (Chan (List String))} (hnodup : (l.map (·.2)).Nodup)
    (hfresh : ∀ kv ∈ l, (chans.get kv.2).Fresh) :
    (l.foldl (fun chans kv => chans.set kv.2 (chans.get kv.2).close) chans).size = chans.size ∧ (∀ c, c ∉ l.map (·.2) →
        (l.foldl (fun chans kv => chans.set kv.2 (chans.get kv.2).close) chans).get c = chans.get c) ∧
      ∀ c ∈ l.map (·.2), ((l.foldl (fun chans kv => chans.set kv.2 (chans.get kv.2).close) chans).get c).Sound := by
  induction l generalizing chans with
  | nil => exact ⟨rfl, fun _ _ => rfl, fun c hc => absurd hc (by simp)⟩
  | cons kv l ih =>
    rw [map_cons] at hnodup
    obtain ⟨hnew, hrest⟩ := nodup_cons.1 hnodup
    have hne : ∀ kv' ∈ l, kv'.2 ≠ kv.2 := fun kv' hkv' heq => hnew (heq ▸ mem_map_of_mem hkv')
    have hstill : ∀ kv' ∈ l, ((chans.set kv.2 (chans.get kv.2).close).get kv'.2).Fresh := by
      intro kv' hkv'
      rw [get_set_of_ne _ _ (hne kv' hkv')]
      exact hfresh kv' (mem_cons_of_mem _ hkv')
    obtain ⟨hsize, hother, hclosed⟩ := ih hrest hstill
    rw [foldl_cons]
    refine ⟨hsize, ?_, ?_⟩
    · intro c hc
      rw [map_cons, mem_cons, not_or] at hc
      rw [hother c hc.2, get_set_of_ne _ _ hc.1]
    · intro c hc
      rw [map_cons, mem_cons] at hc
      by_cases hin : c ∈ l.map (·.2)
      · exact hclosed c hin
      · have hcv : c = kv.2 := hc.resolve_right hin
        rw [hother c hin, hcv, get_set_self]
        exact (hfresh kv (by simp)).close

theorem Channels.remove (hreg : Registry tokenMap st) (h : Channels st) (hp : p < st.heap.size) :
    Channels (st.removeSessionLocked p) := by
  cases hopen : (st.heap.get p).closed with
  | true =>
    rw [removeSessionLocked_closed hopen]
    exact h
  | false =>
    rw [removeSessionLocked_open hreg hp hopen]
    have hsess := h.session p hp
    obtain ⟨hsize, hother, hclosed⟩ := fold_close hsess.distinct fun kv hkv => (hsess.pending kv hkv).2
    have hremoved : SessionOk st.chans (st.heap.get p).remove := by
      obtain ⟨hdone, hevents⟩ := hsess.opened hopen
      exact ⟨nofun, hdone.close, hevents.close, fun _ => rfl, Nat.zero_le _, nodup_nil, nofun⟩
    have hset := h.set (p := p) hremoved nofun
    refine ⟨?_, hset.apart, ?_⟩
    · intro q hq
      have hq' := hset.session q hq
      refine { hq' with pending := fun kv hkv => ?_ }
      -- a channel that is still pending belongs to another session
      have hqp : q ≠ p := by
        intro hqp
        subst hqp
        simp [Session.remove] at hkv
      have hkv' : kv ∈ (st.heap.get q).pending := by
        simpa [get_set_of_ne _ _ hqp] using hkv
      have hnot : kv.2 ∉ (st.heap.get p).pending.map (·.2) := by
        intro hin
        obtain ⟨kv', hin', heq⟩ := mem_map.1 hin
        exact h.apart p hp q hq (Ne.symm hqp) kv' hin' kv hkv' heq
      have hfresh := (h.session q hq).pending kv hkv'
      rw [hsize, hother _ hnot]
      exact hfresh
    · intro c hc
      by_cases hin : c ∈ (st.heap.get p).pending.map (·.2)
      · exact hclosed c hin
      · rw [hother c hin]
        rw [hsize] at hc
        exact h.sound c hc

theorem remove_size : (st.removeSessionLocked p).heap.size = st.heap.size := by
  unfold St.removeSessionLocked
  dsimp only
  split_ifs <;> rfl

theorem remove_calls : (st.removeSessionLocked p).calls = st.calls := by
  unfold St.removeSessionLocked
  dsimp only
  split_ifs <;> rfl

theorem Inv.remove (h : Inv tokenMap st) (hp : p < st.heap.size) : Inv tokenMap (st.removeSessionLocked p) := by
  refine ⟨h.registry.remove hp, h.channels.remove h.registry hp, ?_⟩
  rw [remove_calls, remove_size]
  exact h.calls

theorem Inv.removeAll (l : List ℕ) (h : Inv tokenMap st) (hl : ∀ p ∈ l, p < st.heap.size) :
    Inv tokenMap (l.foldl St.removeSessionLocked st) := by
  induction l generalizing st with
  | nil => exact h
  | cons p l ih =>
    rw [foldl_cons]
    apply ih (h.remove (hl p (by simp)))
    intro q hq
    rw [remove_size]
    exact hl q (mem_cons_of_mem _ hq)

end Remove

/-! ## Registering a session -/

section Add

variable {tokenMap : String → Option User} {st : St} {sess : Session}

theorem Registry.add (h : Registry tokenMap st) (hopen : sess.closed = false) (hfree : st.realms sess.realmID = none)
    (hfresh : sess.id ∉ st.sessions.map (·.1))
    (hlimit : ∀ n, Limit tokenMap sess.username n → st.userCounts sess.username + 1 ≤ n) :
    Registry tokenMap (st.addSession sess) := by
  obtain ⟨hold, hnew, -, hsplit⟩ := push_facts st.heap (a := sess) rfl
  have hsessions : (st.addSession sess).sessions = (sess.id, st.heap.size) :: st.sessions := by
    simp only [St.addSession, put, without_of_not_mem hfresh]
  refine ⟨?_, ?_, ?_, ?_, ?_, ?_⟩
  · rw [hsessions, map_cons]
    exact nodup_cons.2 ⟨hfresh, h.keys⟩
  · intro kv hkv
    rw [hsessions] at hkv
    change kv.2 < st.heap.size + 1 ∧ ((st.heap.push sess).get kv.2).id = kv.1 ∧
      ((st.heap.push sess).get kv.2).closed = false
    rcases mem_cons.1 hkv with hkv | hkv
    · subst hkv
      rw [hnew]
      exact ⟨Nat.lt_succ_self _, rfl, hopen⟩
    · obtain ⟨hlt, hid, hko⟩ := h.session kv hkv
      rw [hold kv.2 hlt]
      exact ⟨Nat.lt_succ_of_lt hlt, hid, hko⟩
  · intro id p hp
    change p < st.heap.size + 1 ∧ ((st.heap.push sess).get p).closed = false ∧ ((st.heap.push sess).get p).realmID = id
    change update st.realms sess.realmID (some st.heap.size) id = some p at hp
    by_cases hid : id = sess.realmID
    · subst hid
      rw [update_self] at hp
      cases hp
      rw [hnew]
      exact ⟨Nat.lt_succ_self _, hopen, rfl⟩
    · rw [update_of_ne hid] at hp
      obtain ⟨hlt, hpo, hrid⟩ := h.realm id p hp
      rw [hold p hlt]
      exact ⟨Nat.lt_succ_of_lt hlt, hpo, hrid⟩
  · intro p hp hpo
    rw [hsessions]
    change (((st.heap.push sess).get p).id, p) ∈ _ ∧
      update st.realms sess.realmID (some st.heap.size) ((st.heap.push sess).get p).realmID = some p
    change ((st.heap.push sess).get p).closed = false at hpo
    rcases hsplit p hp with hlt | rfl
    · rw [hold p hlt] at hpo ⊢
      obtain ⟨hlisted, hrealm⟩ := h.listed p hlt hpo
      have hne : (st.heap.get p).realmID ≠ sess.realmID := by
        intro hne
        rw [hne, hfree] at hrealm
        cases hrealm
      rw [update_of_ne hne]
      exact ⟨mem_cons_of_mem _ hlisted, hrealm⟩
    · rw [hnew, update_self]
      exact ⟨by simp, rfl⟩
  · intro name
    rw [hsessions]
    have hrest : st.sessions.countP (fun kv => decide (((st.heap.push sess).get kv.2).username = name)) =
        sessionsOf st.heap st.sessions name := by
      refine countP_congr ?_
      intro kv hkv
      rw [hold kv.2 (h.session kv hkv).1]
    have hcounts := h.counts name
    change update st.userCounts sess.username (st.userCounts sess.username + 1) name =
      (List.countP (fun kv : String × ℕ => decide (((st.heap.push sess).get kv.2).username = name)) _ : ℕ)
    rw [countP_cons, hrest, hnew]
    by_cases hname : name = sess.username
    · subst hname
      rw [update_self, hcounts]
      simp
    · rw [update_of_ne hname, hcounts]
      simp [Ne.symm hname]
  · intro name n hn
    change update st.userCounts sess.username (st.userCounts sess.username + 1) name ≤ n
    by_cases hname : name = sess.username
    · subst hname
      rw [update_self]
      exact hlimit n hn
    · rw [update_of_ne hname]
      exact h.limits name n hn

theorem Channels.add (h : Channels st) (hok : SessionOk st.chans sess) (hnone : sess.pending = []) :
    Channels (st.addSession sess) := by
  obtain ⟨hold, hnew, -, hsplit⟩ := push_facts st.heap (a := sess) rfl
  refine ⟨?_, ?_, h.sound⟩
  · intro p hp
    exact get_push_cases (P := SessionOk st.chans) st.heap hp (fun _ => hok) (h.session p)
  · -- the new session has no pending channel
    intro p hp q hq hne kv hkv kv' hkv'
    change kv ∈ ((st.heap.push sess).get p).pending at hkv
    change kv' ∈ ((st.heap.push sess).get q).pending at hkv'
    rcases hsplit p hp with hlt | rfl
    · rcases hsplit q hq with hlt' | rfl
      · rw [hold p hlt] at hkv
        rw [hold q hlt'] at hkv'
        exact h.apart p hlt q hlt' hne kv hkv kv' hkv'
      · rw [hnew, hnone] at hkv'
        cases hkv'
    · rw [hnew, hnone] at hkv
      cases hkv

variable {token : String}

theorem Inv.register (h : Inv tokenMap st) {bearer : String} {user : User} (huser : tokenMap bearer = some user)
    (id : String) (addresses : List String) (now : ℕ) (hfresh : token ∉ st.sessions.map (·.1)) :
    Inv tokenMap (st.register user id addresses now token).1 := by
  unfold St.register
  split_ifs with htaken hlimit
  · exact h
  · exact h
  · refine ⟨h.registry.add rfl (by simpa using htaken) hfresh ?_, h.channels.add ?_ rfl, ?_⟩
    · intro n hn
      obtain ⟨hpos, hle⟩ := hn.2 bearer user huser rfl
      by_contra hbig
      refine hlimit ⟨hpos, ?_⟩
      dsimp only at hbig
      omega
    · exact ⟨fun _ => ⟨Chan.make_fresh _, Chan.make_fresh _⟩, (Chan.make_fresh _).sound, (Chan.make_fresh _).sound,
        nofun, Nat.zero_le _, nodup_nil, nofun⟩
    · intro i hi p hp
      exact Nat.lt_succ_of_lt (h.calls i hi p hp)

end Add

/-! ## The other sections -/

section Sections

variable {tokenMap : String → Option User} {st : St} {p : ℕ}

theorem Inv.set (h : Inv tokenMap st) (hsame : Session.Same (st.heap.get p) sess)
    (hok : SessionOk st.chans sess) (hsub : ∀ kv ∈ sess.pending, kv ∈ (st.heap.get p).pending) :
    Inv tokenMap { st with heap := st.heap.set p sess } :=
  ⟨h.registry.same rfl (same_set hsame) rfl rfl rfl, h.channels.set hok hsub, h.calls⟩

section

variable (h : Inv tokenMap st) (hp : p < st.heap.size)
include h hp

theorem Inv.beat (addresses : Option (List String)) (now : ℕ) : Inv tokenMap (st.beat p addresses now) := by
  exact h.set ⟨rfl, rfl, rfl, rfl⟩ { h.channels.session p hp with } fun _ hkv => hkv

theorem Inv.sendEvent (ev : Event) : Inv tokenMap (st.sendEvent p ev).1 := by
  unfold St.sendEvent
  dsimp only
  split_ifs with hclosed
  · exact h
  · have hs := h.channels.session p hp
    have hopen : (st.heap.get p).closed = false := by simpa using hclosed
    obtain ⟨hdone, hevents⟩ := hs.opened hopen
    have hsent := hevents.trySend ev
    exact h.set ⟨rfl, rfl, rfl, rfl⟩
      { hs with opened := fun _ => ⟨hdone, hsent⟩, events := hsent.sound } fun _ hkv => hkv

theorem Inv.readEvent {ev : Option Event} {events : Chan Event}
    (hread : (st.heap.get p).events.receive? = some (ev, events)) :
    Inv tokenMap { st with heap := st.heap.set p { st.heap.get p with events } } := by
  have hs := h.channels.session p hp
  obtain ⟨hcloses, hbad⟩ := Chan.receive?_counts hread
  refine h.set ⟨rfl, rfl, rfl, rfl⟩ { hs with opened := ?_, events := ?_ } fun _ hkv => hkv
  · intro hopen
    obtain ⟨hdone, hevents⟩ := hs.opened hopen
    exact ⟨hdone, hcloses.trans hevents.1, hbad.trans hevents.2⟩
  · exact ⟨hcloses ▸ hs.events.1, hbad.trans hs.events.2⟩

end

theorem SessionOk.without {chans : Table (Chan (List String))} (h : SessionOk chans sess)
    (nonce : String) : SessionOk chans { sess with pending := without nonce sess.pending } := by
  have hsub := without_sublist nonce sess.pending
  refine ⟨h.opened, h.done, h.events, ?_, hsub.length_le.trans h.few, h.distinct.sublist (hsub.map _), ?_⟩
  · intro hclosed
    have hnone := h.removed hclosed
    rw [hnone]
    rfl
  · intro kv hkv
    exact h.pending kv (hsub.subset hkv)

theorem Inv.cancelPending (h : Inv tokenMap st) (hp : p < st.heap.size) (nonce : String) :
    Inv tokenMap (st.cancelPending p nonce) :=
  h.set ⟨rfl, rfl, rfl, rfl⟩ ((h.channels.session p hp).without nonce) fun _ hkv => (mem_without.1 hkv).1

theorem Channels.setChan (h : Channels st) {c : ℕ} {chan : Chan (List String)} (hsound : c < st.chans.size → chan.Sound)
    (hfresh : (st.chans.get c).Fresh → chan.Fresh) : Channels { st with chans := st.chans.set c chan } := by
  refine ⟨?_, h.apart, ?_⟩
  · intro q hq
    have hs := h.session q hq
    refine { hs with pending := fun kv hkv => ?_ }
    obtain ⟨hlt, hf⟩ := hs.pending kv hkv
    refine ⟨hlt, get_set_cases (P := Chan.Fresh) st.chans (fun hc => hfresh (hc ▸ hf)) fun _ => hf⟩
  · intro d hd
    exact get_set_cases (P := Chan.Sound) st.chans (fun hdc => hsound (hdc ▸ hd)) fun _ => h.sound d hd

theorem Inv.deliverPending (h : Inv tokenMap st) (hp : p < st.heap.size) (nonce : String) (addresses : List String) :
    Inv tokenMap (st.deliverPending p nonce addresses).1 := by
  unfold St.deliverPending
  dsimp only
  split_ifs
  · exact h
  · cases hget : get? nonce (st.heap.get p).pending with
    | none => exact h
    | some ch =>
      have hs := h.channels.session p hp
      have hfresh := (hs.pending _ (mem_of_get? hget)).2
      have hcancel := h.cancelPending hp nonce
      have hsent := hfresh.trySend addresses
      refine ⟨hcancel.registry.same rfl (fun _ => Session.Same.refl _) rfl rfl rfl, ?_, h.calls⟩
      exact hcancel.channels.setChan (fun _ => hsent.sound) fun _ => hsent

theorem Inv.registerPending (h : Inv tokenMap st) (hp : p < st.heap.size) {nonce : String} {st' : St} {ch : ℕ}
    (hr : st.registerPending p nonce = some (st', ch)) : Inv tokenMap st' ∧ st'.heap.size = st.heap.size ∧
      st'.calls = st.calls := by
  unfold St.registerPending at hr
  dsimp only at hr
  split_ifs at hr with hfull hexists
  cases hr
  rw [Bool.or_eq_true, not_or, decide_eq_true_iff, not_le] at hfull
  obtain ⟨hclosed, hfew⟩ := hfull
  have hopen : (st.heap.get p).closed = false := by simpa using hclosed
  have hs := h.channels.session p hp
  have hput : put nonce st.chans.size (st.heap.get p).pending = (nonce, st.chans.size) :: (st.heap.get p).pending := by
    rw [put, without_of_not_mem (not_mem_of_get? (by simpa using hexists))]
  have hgrow : ∀ c < st.chans.size, (st.chans.push (.make 1)).get c = st.chans.get c := fun c hc => get_push _ _ hc
  -- a channel that some session waits on is older than the new one
  have hold : ∀ q < st.heap.size, ∀ kv ∈ (st.heap.get q).pending, kv.2 < st.chans.size ∧
      (st.chans.get kv.2).Fresh := fun q hq kv hkv => (h.channels.session q hq).pending kv hkv
  have hok : ∀ q < st.heap.size, SessionOk (st.chans.push (.make 1)) (st.heap.get q) := by
    intro q hq
    have hq' := h.channels.session q hq
    refine { hq' with pending := fun kv hkv => ?_ }
    obtain ⟨hlt, hf⟩ := hq'.pending kv hkv
    rw [hgrow _ hlt]
    exact ⟨Nat.lt_succ_of_lt hlt, hf⟩
  refine ⟨⟨h.registry.same rfl (same_set ⟨rfl, rfl, rfl, rfl⟩) rfl rfl rfl, ⟨?_, ?_, ?_⟩, h.calls⟩, rfl, rfl⟩
  · intro q hq
    refine get_set_cases (P := SessionOk (st.chans.push (.make 1))) st.heap (fun _ => ?_) fun _ => hok q hq
    refine ⟨hs.opened, hs.done, hs.events, ?_, ?_, ?_, ?_⟩
    · intro hc
      rw [hopen] at hc
      cases hc
    · rw [hput]
      exact hfew
    · rw [hput, map_cons]
      refine nodup_cons.2 ⟨?_, hs.distinct⟩
      intro hin
      obtain ⟨kv, hkv, heq⟩ := mem_map.1 hin
      exact Nat.lt_irrefl _ (heq ▸ (hold p hp kv hkv).1)
    · intro kv hkv
      rw [hput] at hkv
      rcases mem_cons.1 hkv with hkv | hkv
      · subst hkv
        refine ⟨Nat.lt_succ_self _, ?_⟩
        rw [get_push_size]
        exact Chan.make_fresh 1
      · exact (hok p hp).pending kv hkv
  · intro q hq r hr hne kv hkv kv' hkv'
    have hback : ∀ q < st.heap.size, ∀ kv ∈ ((st.heap.set p { st.heap.get p with
        pending := put nonce st.chans.size (st.heap.get p).pending }).get q).pending,
        q = p ∧ kv.2 = st.chans.size ∨ kv ∈ (st.heap.get q).pending := by
      intro q hq kv hkv
      by_cases hqp : q = p
      · subst hqp
        rw [get_set_self, hput] at hkv
        rcases mem_cons.1 hkv with hkv | hkv
        · exact Or.inl ⟨rfl, by rw [hkv]⟩
        · exact Or.inr hkv
      · rw [get_set_of_ne _ _ hqp] at hkv
        exact Or.inr hkv
    rcases hback q hq kv hkv with ⟨hqp, hk⟩ | hk
    · rcases hback r hr kv' hkv' with ⟨hrp, -⟩ | hk'
      · exact absurd (hqp.trans hrp.symm) hne
      · have hlt := (hold r hr kv' hk').1
        omega
    · rcases hback r hr kv' hkv' with ⟨-, hk'⟩ | hk'
      · have hlt := (hold q hq kv hk).1
        omega
      · exact h.channels.apart q hq r hr hne kv hk kv' hk'
  · intro c hc
    exact get_push_cases (P := Chan.Sound) st.chans hc (fun _ => (Chan.make_fresh 1).sound) (h.channels.sound c)

theorem Inv.goto (h : Inv tokenMap st) (i : ℕ) {phase : Phase} (hp : ∀ p, phase.sess = some p → p < st.heap.size) :
    Inv tokenMap (st.goto i phase) := by
  refine ⟨h.registry.same rfl (fun _ => Session.Same.refl _) rfl rfl rfl,
    ⟨h.channels.session, h.channels.apart, h.channels.sound⟩, ?_⟩
  intro j hj p hsess
  exact get_set_cases (P := fun x : Phase => x.sess = some p → p < st.heap.size) st.calls (fun _ => hp p)
    (fun _ => h.calls j hj p) hsess

end Sections

/-! ## Every interleaving -/

section Steps

variable {tokenMap : String → Option User} {st : St}

theorem sendEvent_size (p : ℕ) (ev : Event) : (st.sendEvent p ev).1.heap.size = st.heap.size := by
  unfold St.sendEvent
  dsimp only
  split_ifs <;> rfl

theorem Registry.lt_of_token (h : Registry tokenMap st) {now p : ℕ}
    (hget : st.getSessionByToken token now = some p) : p < st.heap.size := by
  unfold St.getSessionByToken at hget
  cases hlook : get? token st.sessions with
  | none =>
    rw [hlook] at hget
    cases hget
  | some q =>
    rw [hlook] at hget
    dsimp only at hget
    split_ifs at hget
    cases hget
    exact (h.session _ (mem_of_get? hlook)).1

theorem Registry.lt_of_auth (h : Registry tokenMap st) {token id : String} {now p : ℕ}
    (hauth : st.authSession token id now = some p) : p < st.heap.size := by
  unfold St.authSession at hauth
  cases hget : st.getSessionByToken token now with
  | none =>
    rw [hget] at hauth
    cases hauth
  | some q =>
    rw [hget] at hauth
    dsimp only at hauth
    split_ifs at hauth
    cases hauth
    exact h.lt_of_token hget

theorem Registry.lt_of_lookup (h : Registry tokenMap st) {id : String} {now p : ℕ} (hlook : st.lookup id now = some p) :
    p < st.heap.size := by
  unfold St.lookup at hlook
  cases hrealm : st.realms id with
  | none =>
    rw [hrealm] at hlook
    cases hlook
  | some q =>
    rw [hrealm] at hlook
    dsimp only at hlook
    split_ifs at hlook
    cases hlook
    exact (h.realm id _ hrealm).1

section

variable (h : Inv tokenMap st)
include h

theorem Inv.reply (i : ℕ) (reply : Reply) : Inv tokenMap (st.goto i (.replied reply)) := h.goto i nofun

theorem Inv.hold (i : ℕ) {phase : Phase} {p : ℕ} (hsess : phase.sess = some p)
    (hp : p < st.heap.size) : Inv tokenMap (st.goto i phase) := by
  apply h.goto i
  intro q hq
  rw [hsess] at hq
  cases hq
  exact hp

theorem inv_receive (i : ℕ) (now : ℕ) (hfresh : token ∉ st.sessions.map (·.1)) (request : Request) :
    Inv tokenMap (receive tokenMap st i now token request) := by
  cases request with
  | register bearer id addresses =>
    unfold receive
    dsimp only
    cases huser : tokenMap bearer with
    | none => exact h.reply i _
    | some user => exact (h.register huser id addresses now hfresh).reply i _
  | deregister bearer id | heartbeat bearer id addresses =>
    unfold receive
    dsimp only
    cases hauth : st.authSession bearer id now with
    | none => exact h.reply i _
    | some p => exact h.hold i rfl (h.registry.lt_of_auth hauth)
  | connect bearer id data =>
    unfold receive
    dsimp only
    cases tokenMap bearer with
    | none => exact h.reply i _
    | some user =>
      cases hlook : st.lookup id now with
      | none => exact h.reply i _
      | some p => exact h.hold i rfl (h.registry.lt_of_lookup hlook)
  | connectResponse bearer id nonce addresses =>
    unfold receive
    dsimp only
    cases hauth : st.authSession bearer id now with
    | none => exact h.reply i _
    | some p => exact h.hold i rfl (h.registry.lt_of_auth hauth)

theorem inv_select (i : ℕ) {p : ℕ} (hp : p < st.heap.size) (addresses : List String)
    (data : PunchEvent) (ch : ℕ) (wake : Wake) : Inv tokenMap (select st i p addresses data ch wake) := by
  cases wake with
  | response =>
    unfold select
    cases hread : (st.chans.get ch).receive? with
    | none => exact h
    | some r =>
      obtain ⟨payload, chan⟩ := r
      obtain ⟨hcloses, hbad⟩ := Chan.receive?_counts hread
      cases payload with
      | none => exact h.hold i rfl hp
      | some payload =>
        -- what was received leaves the channel as open or as closed as it was
        have hset : Inv tokenMap { st with chans := st.chans.set ch chan } := by
          refine ⟨h.registry.same rfl (fun _ => Session.Same.refl _) rfl rfl rfl, h.channels.setChan ?_ ?_, h.calls⟩
          · intro hc
            have hsound := h.channels.sound ch hc
            exact ⟨hcloses ▸ hsound.1, hbad.trans hsound.2⟩
          · intro hf
            exact ⟨hcloses.trans hf.1, hbad.trans hf.2⟩
        exact hset.hold i rfl hp
  | timer => exact h.hold i rfl hp
  | done =>
    unfold select
    split_ifs
    · exact h.hold i rfl hp
    · exact h
  | context => exact h.hold i rfl hp

theorem inv_advance {i : ℕ} (hi : i < st.calls.size) (now : ℕ) (hfresh : token ∉ st.sessions.map (·.1)) (wake : Wake) :
    Inv tokenMap (advance tokenMap st i now token wake) := by
  have hsess := h.calls i hi
  unfold advance
  generalize st.calls.get i = phase at hsess
  cases phase with
  | received request => exact inv_receive h i now hfresh request
  | deregister p =>
    exact (h.remove (hsess p rfl)).reply i _
  | heartbeat p addresses =>
    exact (h.beat (hsess p rfl) addresses now).hold i rfl (hsess p rfl)
  | acknowledge p =>
    exact (h.sendEvent (hsess p rfl) _).reply i _
  | attempt p addresses data =>
    dsimp only
    cases hr : st.registerPending p data.nonce with
    | none => exact h.reply i _
    | some r =>
      obtain ⟨st', ch⟩ := r
      obtain ⟨h', hsize, -⟩ := h.registerPending (hsess p rfl) hr
      exact h'.hold i rfl (hsize ▸ hsess p rfl)
  | punch p addresses data ch =>
    have hsent := h.sendEvent (hsess p rfl) (.punch data)
    have hp : p < (st.sendEvent p (.punch data)).1.heap.size := by
      rw [sendEvent_size]
      exact hsess p rfl
    dsimp only
    split_ifs
    · exact hsent.hold i rfl hp
    · exact hsent.hold i rfl hp
  | wait p addresses data ch =>
    exact inv_select h i (hsess p rfl) addresses data ch wake
  | cancel p nonce reply =>
    exact (h.cancelPending (hsess p rfl) nonce).reply i _
  | respond p nonce addresses =>
    have hdelivered := h.deliverPending (hsess p rfl) nonce addresses
    dsimp only
    split_ifs
    · exact hdelivered.reply i _
    · exact hdelivered.reply i _
  | replied reply => exact h

end

/-- the token that is read in a step is not in use -/
def Fresh (st : St) : Op → Prop
  | .advance _ _ token _ => token ∉ st.sessions.map (·.1)
  | _ => True

instance (st : St) (op : Op) : Decidable (Fresh st op) :=
  match op with
  | .advance _ _ token _ => inferInstanceAs (Decidable (token ∉ st.sessions.map (·.1)))
  | .request _ | .expire _ _ | .readEvent _ | .closeAll => isTrue trivial

theorem inv_step (h : Inv tokenMap st) (op : Op) (hfresh : Fresh st op) : Inv tokenMap (step tokenMap st op) := by
  cases op with
  | request request =>
    refine ⟨h.registry.same rfl (fun _ => Session.Same.refl _) rfl rfl rfl,
      ⟨h.channels.session, h.channels.apart, h.channels.sound⟩, ?_⟩
    intro i hi p hp
    exact get_push_cases (P := fun x : Phase => x.sess = some p → p < st.heap.size) st.calls hi
      (fun _ hx => absurd hx (by simp [Phase.sess])) (fun hlt => h.calls i hlt p) hp
  | advance i now token wake =>
    unfold step
    dsimp only
    split_ifs with hi
    · exact inv_advance h hi now hfresh wake
    · exact h
  | expire p now =>
    unfold step
    dsimp only
    split_ifs with hp
    · unfold St.removeExpiredSession
      split_ifs
      · exact h
      · exact h.remove hp
    · exact h
  | readEvent p =>
    unfold step
    dsimp only
    split_ifs with hp
    · cases hread : (st.heap.get p).events.receive? with
      | none => exact h
      | some r => exact h.readEvent hp hread
    · exact h
  | closeAll =>
    apply h.removeAll
    intro p hp
    obtain ⟨kv, hkv, rfl⟩ := mem_map.1 hp
    exact (h.registry.session kv hkv).1

theorem inv_init (tokenMap : String → Option User) : Inv tokenMap init := by
  refine ⟨⟨nodup_nil, nofun, nofun, ?_, fun _ => rfl, fun _ _ hn => hn.1⟩, ⟨?_, ?_, ?_⟩, ?_⟩ <;>
  · intro p hp
    exact absurd hp (Nat.not_lt_zero p)

end Steps

def FreshRun (tokenMap : String → Option User) : St → List Op → Prop
  | _, [] => True
  | st, op :: ops => Fresh st op ∧ FreshRun tokenMap (step tokenMap st op) ops

instance decidableFreshRun (tokenMap : String → Option User) :
    ∀ (st : St) (ops : List Op), Decidable (FreshRun tokenMap st ops)
  | _, [] => isTrue trivial
  | st, op :: ops =>
    have := decidableFreshRun tokenMap (step tokenMap st op) ops
    inferInstanceAs (Decidable (Fresh st op ∧ FreshRun tokenMap (step tokenMap st op) ops))

theorem inv_run (tokenMap : String → Option User) (ops : List Op) (hfresh : FreshRun tokenMap init ops) :
    Inv tokenMap (run tokenMap ops) := by
  have hrun : ∀ (ops : List Op) (st : St), Inv tokenMap st → FreshRun tokenMap st ops →
      Inv tokenMap (ops.foldl (step tokenMap) st) := by
    intro ops
    induction ops with
    | nil =>
      intro st h _
      exact h
    | cons op ops ih =>
      intro st h hf
      rw [foldl_cons]
      exact ih _ (inv_step h op hf.1) hf.2
  exact hrun ops init (inv_init tokenMap) hfresh

/-- **The registry of realms.** A realm is mapped to a session exactly when that is listed, open and of the realm; counts are
right and within the limits; no channel is closed twice, and nothing is sent on a closed one. -/
theorem realm_registry (tokenMap : String → Option User) (ops : List Op) (hfresh : FreshRun tokenMap init ops) :
    (∀ id p, (run tokenMap ops).realms id = some p ↔
      (((run tokenMap ops).heap.get p).id, p) ∈ (run tokenMap ops).sessions ∧
        ((run tokenMap ops).heap.get p).closed = false ∧ ((run tokenMap ops).heap.get p).realmID = id) ∧
    (∀ name, (run tokenMap ops).userCounts name =
      sessionsOf (run tokenMap ops).heap (run tokenMap ops).sessions name) ∧
    (∀ name n, Limit tokenMap name n → (run tokenMap ops).userCounts name ≤ n) ∧
    (∀ p < (run tokenMap ops).heap.size, ((run tokenMap ops).heap.get p).pending.length ≤ maxPendingAttempts ∧
      ((run tokenMap ops).heap.get p).done.Sound ∧ ((run tokenMap ops).heap.get p).events.Sound) ∧
    (∀ c < (run tokenMap ops).chans.size, ((run tokenMap ops).chans.get c).Sound) := by
  obtain ⟨hreg, hch, -⟩ := inv_run tokenMap ops hfresh
  refine ⟨?_, hreg.counts, hreg.limits, ?_, hch.sound⟩
  · intro id p
    constructor
    · intro hp
      obtain ⟨hlt, hopen, hrealm⟩ := hreg.realm id p hp
      exact ⟨(hreg.listed p hlt hopen).1, hopen, hrealm⟩
    · rintro ⟨hlisted, hopen, hrealm⟩
      rw [← hrealm]
      exact (hreg.listed p (hreg.session _ hlisted).1 hopen).2
  · intro p hp
    have hs := hch.session p hp
    exact ⟨hs.few, hs.done, hs.events⟩

def sampleTokens (bearer : String) : Option User := if bearer = "secret" then some ⟨"alice", 1⟩ else none

def sampleOps : List Op :=
  [Op.request (.register "secret" "home" ["1.2.3.4:1"]), Op.advance 0 0 "t0" .timer,
    Op.request (.register "secret" "away" ["1.2.3.4:2"]), Op.advance 1 1 "t1" .timer,
    Op.request (.connect "secret" "home" ⟨["5.6.7.8:1"], "n", "o"⟩), Op.advance 2 2 "t2" .timer,
    Op.advance 2 2 "t2" .timer, Op.advance 2 2 "t2" .timer,
    Op.request (.connectResponse "t0" "home" "n" ["1.2.3.4:3"]), Op.advance 3 3 "t3" .timer, Op.advance 3 3 "t3" .timer,
    Op.request (.deregister "t0" "home"), Op.advance 4 4 "t4" .timer, Op.advance 2 4 "t4" .response]

theorem realm_registry_sample :
    FreshRun sampleTokens init sampleOps ∧ (run sampleTokens sampleOps).realms "home" = some 0 ∧
      (run sampleTokens sampleOps).calls.get 1 =
        .replied (.failure 429 "realm_limit_reached" "per-user realm limit reached") ∧
      (run sampleTokens sampleOps).calls.get 2 = .cancel 0 "n" (.addresses ["1.2.3.4:3"] "n" "o") ∧
      (run sampleTokens sampleOps).userCounts "alice" ≤ 1 := by
  refine ⟨by decide +kernel, by decide +kernel, by decide +kernel, by decide +kernel, ?_⟩
  refine (realm_registry sampleTokens sampleOps (by decide +kernel)).2.2.1 "alice" 1 ⟨by decide, ?_⟩
  intro bearer user huser hname
  unfold sampleTokens at huser
  split_ifs at huser
  cases huser
  exact ⟨by decide, by decide⟩

end EtonifyCore.Realm
