/-
The users of a managed Shadowsocks endpoint (`service/ssmapi/user.go`, and their load in `cache.go`).

Model: `accepted` is the set of users that the server's `UpdateUsers` took last. Every call comes with a server of its
own, which judges each set as it likes. The traffic manager is left out: nothing here reads it.
-/
import Mathlib.Logic.Function.Basic

namespace EtonifyCore.SSMAPI

open Function

abbrev Users := String → Option String

structure UserManager where
  usersMap : Users
  accepted : Users

inductive Call
  | add (username password : String)
  | update (username password : String)
  | delete (username : String)

inductive Err
  /-- `user ` … ` already exists` -/
  | alreadyExists (username : String)
  /-- the error of `UpdateUsers` -/
  | refused
  deriving DecidableEq

namespace UserManager

def postUpdate (m : UserManager) (server : Users → Bool) : UserManager × Option Err :=
  if server m.usersMap then ({ m with accepted := m.usersMap }, none) else (m, some .refused)

def call (m : UserManager) (server : Users → Bool) : Call → UserManager × Option Err
  | .add username password =>
    if (m.usersMap username).isSome then (m, some (.alreadyExists username))
    else postUpdate { m with usersMap := update m.usersMap username (some password) } server
  | .update username password => postUpdate { m with usersMap := update m.usersMap username (some password) } server
  | .delete username => postUpdate { m with usersMap := update m.usersMap username none } server

/-- `NewUserManager`, and `decodeCache` if there is a cache; it drops the error -/
def start : Option (Users × (Users → Bool)) → UserManager
  | none => ⟨fun _ => none, fun _ => none⟩
  | some (users, server) => (postUpdate ⟨users, fun _ => none⟩ server).1

/-- all or nothing, call after call -/
def Atomic (m : UserManager) : List (Call × (Users → Bool)) → Prop
  | [] => True
  | (c, server) :: calls =>
    ((m.call server c).2 ≠ none → (m.call server c).1.usersMap = m.usersMap) ∧
      (m.call server c).1.usersMap = (m.call server c).1.accepted ∧ (m.call server c).1.Atomic calls

/-- the users that a call hands to the server, if it gets there -/
def offer (m : UserManager) : Call → Option Users
  | .add username password =>
    if (m.usersMap username).isSome then none else some (update m.usersMap username (some password))
  | .update username password => some (update m.usersMap username (some password))
  | .delete username => some (update m.usersMap username none)

/-- no call is refused that changes the users -/
def Welcome (m : UserManager) : List (Call × (Users → Bool)) → Prop
  | [] => True
  | (c, server) :: calls =>
    (∀ users, m.offer c = some users → server users = false → users = m.usersMap) ∧
      (m.call server c).1.Welcome calls

variable (m : UserManager) (server : Users → Bool)

theorem call_of_offer_none {c : Call} (h : m.offer c = none) : ∃ err, m.call server c = (m, some err) := by
  cases c with
  | add username password =>
    by_cases hu : (m.usersMap username).isSome
    · exact ⟨.alreadyExists username, if_pos hu⟩
    · simp [offer, hu] at h
  | update | delete => cases h

theorem call_of_offer {c : Call} {users : Users} (h : m.offer c = some users) :
    m.call server c = postUpdate ⟨users, m.accepted⟩ server := by
  cases c with
  | add username password =>
    by_cases hu : (m.usersMap username).isSome
    · simp [offer, hu] at h
    · simp only [offer, hu] at h
      cases h
      exact if_neg hu
  | update | delete => cases h; rfl

theorem call_atomic_iff (c : Call) (h : m.usersMap = m.accepted) :
    (((m.call server c).2 ≠ none → (m.call server c).1.usersMap = m.usersMap) ∧
        (m.call server c).1.usersMap = (m.call server c).1.accepted) ↔
      ∀ users, m.offer c = some users → server users = false → users = m.usersMap := by
  cases ho : m.offer c with
  | none =>
    obtain ⟨err, he⟩ := m.call_of_offer_none server ho
    simp [he, h]
  | some users =>
    rw [m.call_of_offer server ho, postUpdate]
    cases hs : server users with
    | true => simp [hs]
    | false => simp [hs, ← h]

theorem atomic_iff (calls : List (Call × (Users → Bool))) (h : m.usersMap = m.accepted) :
    m.Atomic calls ↔ m.Welcome calls := by
  induction calls generalizing m with
  | nil => exact Iff.rfl
  | cons c calls ih =>
    obtain ⟨c, server⟩ := c
    have hc := m.call_atomic_iff server c h
    constructor
    · rintro ⟨h1, h2, h3⟩
      exact ⟨hc.1 ⟨h1, h2⟩, (ih _ h2).1 h3⟩
    · rintro ⟨h1, h2⟩
      have h1 := hc.2 h1
      exact ⟨h1.1, h1.2, (ih _ h1.2).2 h2⟩

/-- Loads and calls keep the map and the server in step just when the server refuses nothing that is a change. -/
theorem calls_atomic_iff (cache : Option (Users × (Users → Bool))) (calls : List (Call × (Users → Bool))) :
    ((start cache).usersMap = (start cache).accepted ∧ (start cache).Atomic calls) ↔
      (∀ users server, cache = some (users, server) → server users = false → users = fun _ => none) ∧
        (start cache).Welcome calls := by
  have hstart : (start cache).usersMap = (start cache).accepted ↔
      ∀ users server, cache = some (users, server) → server users = false → users = fun _ => none := by
    rcases cache with _ | ⟨users, server⟩
    · simp [start]
    · cases hs : server users <;> simp [start, postUpdate, hs]
  rw [← hstart]
  exact and_congr_right fun h => (start cache).atomic_iff calls h

/-- A server that does not take `bob`: the refused `Add` stays in the map, `alice` is refused because of it, and a server
that takes `alice` alone is never asked. -/
theorem refused_user_stays :
    let server : Users → Bool := fun users => (users "bob").isNone
    let m := ((start none).call server (.add "bob" "x")).1
    ((start none).call server (.add "bob" "x")).2 = some .refused ∧ m.usersMap "bob" = some "x" ∧
      m.accepted "bob" = none ∧ (m.call server (.add "alice" "y")).2 = some .refused ∧
      ((start none).call server (.add "alice" "y")).2 = none ∧
      ¬(start none).Atomic [(.add "bob" "x", server)] := by
  refine ⟨rfl, rfl, rfl, rfl, rfl, fun h => ?_⟩
  have hb := congrFun (h.1 (by decide)) "bob"
  cases hb

end UserManager

end EtonifyCore.SSMAPI
