/-
What the sections of the realm server do to the lease of a session, and which heartbeats they let in (`realm_server.go`).

- `step_lease`: a section keeps a lease, extends it (`handleHeartbeat`) or ends it (`deregister`, an expiry check, `closeAll`).
- `advance_lease`: the only section that starts one is that of `handleRegister`.
- `heartbeat_of_step`: `authSession` lets a heartbeat in only if its session is open.
-/
import EtonifyCore.Realm.Registry

namespace EtonifyCore.Realm

open Core (Table)
open Core.Table

/-! ## What a section does to a lease -/

def Session.lease (sess : Session) : Bool × ℕ := (sess.closed, sess.expires)

inductive Effect
  | keep
  | beat (now : ℕ)
  | remove

def Effect.apply : Effect → Bool × ℕ → Bool × ℕ
  | .keep, lease => lease
  | .beat now, (closed, _) => (closed, now + sessionTTL)
  | .remove, (_, expires) => (true, expires)

def effect (st : St) (q : ℕ) : Op → Effect
  | .request _ | .readEvent _ => .keep
  | .advance i now _ _ =>
    if i < st.calls.size then
      match st.calls.get i with
      | .deregister p => if q = p then .remove else .keep
      | .heartbeat p _ => if q = p then .beat now else .keep
      | _ => .keep
    else .keep
  | .expire p now => if q = p ∧ p < st.heap.size ∧ (st.heap.get p).expired now then .remove else .keep
  | .closeAll => if q ∈ st.sessions.map (·.2) then .remove else .keep

variable {tokenMap : String → Option User} {st : St} {p q : ℕ}

theorem remove_lease (st : St) (p q : ℕ) :
    ((st.removeSessionLocked p).heap.get q).lease =
      (if q = p then Effect.remove else .keep).apply (st.heap.get q).lease := by
  rw [St.removeSessionLocked]
  by_cases hclosed : (st.heap.get p).closed
  · rw [if_pos hclosed]
    split_ifs with hq
    · subst hq
      exact Prod.ext hclosed rfl
    · rfl
  · rw [if_neg hclosed]
    change ((st.heap.set p _).get q).lease = _
    by_cases hq : q = p
    · subst hq
      rw [get_set_self, if_pos rfl]
      rfl
    · rw [get_set_of_ne _ _ hq, if_neg hq]
      rfl

theorem removeAll_lease (l : List ℕ) (st : St) (q : ℕ) :
    ((l.foldl St.removeSessionLocked st).heap.get q).lease =
      (if q ∈ l then Effect.remove else .keep).apply (st.heap.get q).lease := by
  induction l generalizing st with
  | nil => rfl
  | cons p l ih =>
    rw [List.foldl_cons, ih, remove_lease]
    by_cases hq : q = p <;> by_cases hl : q ∈ l <;> simp [hq, hl, Effect.apply] <;> simp_all

theorem set_lease {sess : Session} (h : sess.lease = (st.heap.get p).lease) (q : ℕ) :
    ((st.heap.set p sess).get q).lease = (st.heap.get q).lease := apply_get_set st.heap Session.lease h q

theorem sendEvent_lease (ev : Event) (q : ℕ) : ((st.sendEvent p ev).1.heap.get q).lease = (st.heap.get q).lease := by
  rw [St.sendEvent]
  split_ifs
  · rfl
  · refine set_lease ?_ q
    rfl

theorem registerPending_lease {nonce : String} {st' : St} {ch : ℕ} (h : st.registerPending p nonce = some (st', ch))
    (q : ℕ) : (st'.heap.get q).lease = (st.heap.get q).lease ∧ st'.heap.size = st.heap.size := by
  rw [St.registerPending] at h
  split_ifs at h
  obtain ⟨rfl, -⟩ := Prod.mk.inj (Option.some.inj h)
  refine ⟨set_lease ?_ q, rfl⟩
  rfl

theorem deliverPending_lease (nonce : String) (addresses : List String) (q : ℕ) :
    ((st.deliverPending p nonce addresses).1.heap.get q).lease = (st.heap.get q).lease ∧
      (st.deliverPending p nonce addresses).1.heap.size = st.heap.size := by
  rw [St.deliverPending]
  split_ifs
  · exact ⟨rfl, rfl⟩
  · split
    · exact ⟨rfl, rfl⟩
    · refine ⟨set_lease ?_ q, rfl⟩
      rfl

theorem select_heap (i : ℕ) (addresses : List String) (data : PunchEvent) (ch : ℕ) (wake : Wake) :
    (select st i p addresses data ch wake).heap = st.heap := by
  unfold select
  repeat' split
  all_goals rfl

/-- the first section of a request leaves all leases alone, and starts one where a session is registered -/
theorem receive_lease (i now : ℕ) (token : String) (request : Request) :
    (∀ q < st.heap.size, ((receive tokenMap st i now token request).heap.get q).lease = (st.heap.get q).lease) ∧
      ((receive tokenMap st i now token request).heap.size = st.heap.size ∨
        (∃ bearer id addresses, request = .register bearer id addresses) ∧
          (receive tokenMap st i now token request).heap.size = st.heap.size + 1 ∧
          ((receive tokenMap st i now token request).heap.get st.heap.size).lease = (false, now + sessionTTL)) := by
  cases request with
  | register bearer id addresses =>
    rw [receive]
    split
    · exact ⟨fun _ _ => rfl, .inl rfl⟩
    · rename_i user _
      change (∀ q < st.heap.size, ((st.register user id addresses now token).1.heap.get q).lease = _) ∧
        ((st.register user id addresses now token).1.heap.size = _ ∨ _ ∧
          (st.register user id addresses now token).1.heap.size = _ ∧
            ((st.register user id addresses now token).1.heap.get _).lease = _)
      rw [St.register]
      split_ifs
      · exact ⟨fun _ _ => rfl, .inl rfl⟩
      · exact ⟨fun _ _ => rfl, .inl rfl⟩
      · refine ⟨fun q hq => ?_, .inr ⟨⟨bearer, id, addresses, rfl⟩, rfl, ?_⟩⟩
        · rw [St.addSession]
          dsimp only
          rw [get_push _ _ hq]
        · rw [St.addSession]
          dsimp only
          rw [get_push_size]
          rfl
  | deregister bearer id | heartbeat bearer id addresses | connectResponse bearer id nonce addresses =>
    rw [receive]
    split <;> exact ⟨fun _ _ => rfl, .inl rfl⟩
  | connect bearer id data =>
    rw [receive]
    split
    · exact ⟨fun _ _ => rfl, .inl rfl⟩
    · split <;> exact ⟨fun _ _ => rfl, .inl rfl⟩

theorem advance_lease (i now : ℕ) (token : String) (wake : Wake) (hi : i < st.calls.size) :
    (∀ q < st.heap.size, ((advance tokenMap st i now token wake).heap.get q).lease =
        (effect st q (.advance i now token wake)).apply (st.heap.get q).lease) ∧
      ((advance tokenMap st i now token wake).heap.size = st.heap.size ∨
        (∃ bearer id addresses, st.calls.get i = .received (.register bearer id addresses)) ∧
          (advance tokenMap st i now token wake).heap.size = st.heap.size + 1 ∧
          ((advance tokenMap st i now token wake).heap.get st.heap.size).lease = (false, now + sessionTTL)) := by
  have heffect : ∀ q, effect st q (.advance i now token wake) = match st.calls.get i with
      | .deregister p => if q = p then .remove else .keep
      | .heartbeat p _ => if q = p then .beat now else .keep
      | _ => .keep := fun q => if_pos hi
  simp only [heffect]
  unfold advance
  cases hphase : st.calls.get i with
  | received request =>
    obtain ⟨hlease, hsize⟩ := @receive_lease tokenMap st i now token request
    refine ⟨hlease, ?_⟩
    rcases hsize with hsame | ⟨⟨bearer, id, addresses, hrequest⟩, hrest⟩
    · exact .inl hsame
    · exact .inr ⟨⟨bearer, id, addresses, by rw [hrequest]⟩, hrest⟩
  | deregister p => exact ⟨fun q _ => remove_lease st p q, .inl remove_size⟩
  | heartbeat p addresses =>
    refine ⟨fun q _ => ?_, .inl rfl⟩
    change ((st.heap.set p _).get q).lease = _
    dsimp only
    split_ifs with hq
    · subst hq
      rw [get_set_self]
      rfl
    · rw [get_set_of_ne _ _ hq]
      rfl
  | acknowledge p => exact ⟨fun q _ => sendEvent_lease _ q, .inl (sendEvent_size p _)⟩
  | attempt p addresses data =>
    dsimp only
    split
    · exact ⟨fun _ _ => rfl, .inl rfl⟩
    · rename_i st' ch hpending
      exact ⟨fun q _ => (registerPending_lease hpending q).1, .inl (registerPending_lease hpending 0).2⟩
  | punch p addresses data ch =>
    dsimp only
    split_ifs <;> exact ⟨fun q _ => sendEvent_lease _ q, .inl (sendEvent_size p _)⟩
  | wait p addresses data ch =>
    dsimp only
    rw [select_heap]
    exact ⟨fun _ _ => rfl, .inl rfl⟩
  | cancel p nonce reply =>
    refine ⟨fun q _ => set_lease ?_ q, .inl rfl⟩
    rfl
  | respond p nonce addresses =>
    dsimp only
    split_ifs <;>
      exact ⟨fun q _ => (deliverPending_lease nonce addresses q).1, .inl (deliverPending_lease nonce addresses 0).2⟩
  | replied reply => exact ⟨fun _ _ => rfl, .inl rfl⟩

theorem step_lease (op : Op) (hq : q < st.heap.size) :
    ((step tokenMap st op).heap.get q).lease = (effect st q op).apply (st.heap.get q).lease := by
  cases op with
  | request request => rfl
  | advance i now token wake =>
    rw [step]
    split_ifs with hi
    · exact (advance_lease i now token wake hi).1 q hq
    · rw [effect, if_neg hi]
      rfl
  | expire p now =>
    rw [step, effect]
    by_cases hp : p < st.heap.size
    swap
    · rw [if_neg hp, if_neg fun h => hp h.2.1]
      rfl
    rw [if_pos hp, St.removeExpiredSession]
    by_cases hexpired : (st.heap.get p).expired now
    swap
    · rw [if_pos (by simp [hexpired]), if_neg fun h => hexpired h.2.2]
      rfl
    simp only [hp, hexpired, and_true]
    by_cases hclosed : (st.heap.get p).closed
    · rw [if_pos (by simp [hclosed])]
      split_ifs with heq
      · subst heq
        exact Prod.ext hclosed rfl
      · rfl
    · rw [if_neg (by simp [hclosed])]
      exact remove_lease st p q
  | readEvent p =>
    rw [step]
    split_ifs
    · split
      · rfl
      · refine set_lease ?_ q
        rfl
    · rfl
  | closeAll => exact removeAll_lease _ st q

theorem removeAll_frame (l : List ℕ) (st : St) :
    (l.foldl St.removeSessionLocked st).heap.size = st.heap.size ∧
      (l.foldl St.removeSessionLocked st).calls = st.calls := by
  induction l generalizing st with
  | nil => exact ⟨rfl, rfl⟩
  | cons p l ih =>
    rw [List.foldl_cons, (ih _).1, (ih _).2]
    exact ⟨remove_size, remove_calls⟩

/-- a request comes in or goes on -/
def Op.ofRequest : Op → Bool
  | .request _ | .advance .. => true
  | .expire .. | .readEvent _ | .closeAll => false

/-- only the section of a request starts leases or moves requests on -/
theorem step_frame (tokenMap : String → Option User) (st : St) (op : Op) (hop : op.ofRequest = false) :
    (step tokenMap st op).heap.size = st.heap.size ∧ (step tokenMap st op).calls = st.calls := by
  cases op with
  | request request | advance i now token wake => cases hop
  | expire p now =>
    rw [step, St.removeExpiredSession]
    split_ifs
    · exact ⟨rfl, rfl⟩
    · exact ⟨remove_size, remove_calls⟩
    · exact ⟨rfl, rfl⟩
  | readEvent p =>
    rw [step]
    split_ifs
    · split <;> exact ⟨rfl, rfl⟩
    · exact ⟨rfl, rfl⟩
  | closeAll => exact removeAll_frame _ st

/-! ## Which heartbeats are let in -/

theorem open_of_auth {token id : String} {now : ℕ} (h : st.authSession token id now = some p) :
    (st.heap.get p).closed = false := by
  rw [St.authSession] at h
  split at h
  · cases h
  · rename_i r hr
    split_ifs at h
    obtain rfl := Option.some.inj h
    rw [St.getSessionByToken] at hr
    split at hr
    · cases hr
    · split_ifs at hr with hgone
      obtain rfl := Option.some.inj hr
      rw [Bool.or_eq_true, not_or, Bool.not_eq_true] at hgone
      exact hgone.1

/-- call `i` has moved on, to a heartbeat only if its session is open -/
def Goes (st : St) (i : ℕ) (st' : St) : Prop :=
  st'.calls = st.calls ∨ ∃ phase, st'.calls = st.calls.set i phase ∧
    ∀ p addresses, phase = .heartbeat p addresses → (st.heap.get p).closed = false ∧ st'.heap = st.heap

def Phase.isHeartbeat : Phase → Bool
  | .heartbeat .. => true
  | _ => false

theorem Goes.goto {st' : St} (h : st'.calls = st.calls) {i : ℕ} {phase : Phase}
    (hphase : phase.isHeartbeat = false) : Goes st i (st'.goto i phase) := by
  refine .inr ⟨phase, ?_, fun p addresses heq => ?_⟩
  · rw [St.goto, h]
  · rw [heq] at hphase
    cases hphase

theorem receive_goes (i now : ℕ) (token : String) (request : Request) :
    Goes st i (receive tokenMap st i now token request) := by
  cases request with
  | register bearer id addresses =>
    rw [receive]
    split
    · exact .goto rfl rfl
    · refine .goto ?_ rfl
      rw [St.register]
      split_ifs <;> rfl
  | heartbeat bearer id addresses =>
    rw [receive]
    split
    · exact .goto rfl rfl
    · rename_i p hauth
      refine .inr ⟨_, rfl, fun p' addresses' heq => ?_⟩
      cases heq
      exact ⟨open_of_auth hauth, rfl⟩
  | deregister bearer id | connectResponse bearer id nonce addresses =>
    rw [receive]
    split <;> exact .goto rfl rfl
  | connect bearer id data =>
    rw [receive]
    split
    · exact .goto rfl rfl
    · split <;> exact .goto rfl rfl

theorem sendEvent_calls (ev : Event) : (st.sendEvent p ev).1.calls = st.calls := by
  rw [St.sendEvent]
  split_ifs <;> rfl

theorem advance_goes (i now : ℕ) (token : String) (wake : Wake) : Goes st i (advance tokenMap st i now token wake) := by
  unfold advance
  split
  · exact receive_goes i now token _
  · exact .goto remove_calls rfl
  · refine .goto ?_ rfl
    rfl
  · exact .goto (sendEvent_calls _) rfl
  · split
    · exact .goto rfl rfl
    · rename_i st' ch hpending
      refine .goto ?_ rfl
      rw [St.registerPending] at hpending
      split_ifs at hpending
      obtain ⟨rfl, -⟩ := Prod.mk.inj (Option.some.inj hpending)
      rfl
  · split_ifs <;> exact .goto (sendEvent_calls _) rfl
  · unfold select
    split
    · split
      · exact .inl rfl
      · exact .goto rfl rfl
      · exact .goto rfl rfl
    · exact .goto rfl rfl
    · split_ifs
      · exact .goto rfl rfl
      · exact .inl rfl
    · exact .goto rfl rfl
  · refine .goto ?_ rfl
    rfl
  · have hcalls : ∀ nonce addresses p, (st.deliverPending p nonce addresses).1.calls = st.calls := by
      intro nonce addresses p
      rw [St.deliverPending]
      split_ifs
      · rfl
      · split <;> rfl
    split_ifs <;> exact .goto (hcalls ..) rfl
  · exact .inl rfl

/-- a heartbeat that is let in was let in before, or `authSession` has just found its session open -/
theorem heartbeat_of_step (op : Op) {i : ℕ} {addresses : Option (List String)}
    (hi : i < (step tokenMap st op).calls.size) (hphase : (step tokenMap st op).calls.get i = .heartbeat p addresses) :
    i < st.calls.size ∧ st.calls.get i = .heartbeat p addresses ∨
      (st.heap.get p).closed = false ∧ (step tokenMap st op).heap = st.heap := by
  cases op with
  | request request =>
    exact get_push_cases (P := fun x : Phase => x = .heartbeat p addresses → _) st.calls hi
      (fun _ hno => by cases hno) (fun hlt hold => .inl ⟨hlt, hold⟩) hphase
  | advance j now token wake =>
    rw [step] at hi hphase ⊢
    split_ifs at hi hphase ⊢ with hj
    swap
    · exact .inl ⟨hi, hphase⟩
    rcases @advance_goes tokenMap st j now token wake with hcalls | ⟨phase, hcalls, hopen⟩
    · rw [hcalls] at hi hphase
      exact .inl ⟨hi, hphase⟩
    · rw [hcalls] at hi hphase
      by_cases hij : i = j
      · subst hij
        rw [get_set_self] at hphase
        exact .inr (hopen p addresses hphase)
      · rw [get_set_of_ne _ _ hij] at hphase
        exact .inl ⟨hi, hphase⟩
  | expire r now =>
    rw [(step_frame tokenMap _ (.expire r now) rfl).2] at hi hphase
    exact .inl ⟨hi, hphase⟩
  | readEvent r =>
    rw [(step_frame tokenMap _ (.readEvent r) rfl).2] at hi hphase
    exact .inl ⟨hi, hphase⟩
  | closeAll =>
    rw [(step_frame tokenMap _ .closeAll rfl).2] at hi hphase
    exact .inl ⟨hi, hphase⟩

end EtonifyCore.Realm
