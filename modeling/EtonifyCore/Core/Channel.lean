/-
Go channels that are only sent to without waiting, and maps as lists of pairs.

`Chan` counts how often it was closed and how often a value was sent to it after that. `Chan.Fresh`: never closed;
`Chan.Sound`: not misused. `Keyed`: a map; with no key twice, taking a key away takes one pair away (`perm_without`).
-/
import Mathlib.Tactic

namespace EtonifyCore.Core

open List

/-! ## Channels -/

structure Chan (α : Type) where
  cap : ℕ
  buffer : List α
  closes : ℕ
  badSends : ℕ
  deriving DecidableEq, Repr

namespace Chan

variable {α : Type}

def make (cap : ℕ) : Chan α := ⟨cap, [], 0, 0⟩

instance : Inhabited (Chan α) := ⟨make 0⟩

def close (c : Chan α) : Chan α := { c with closes := c.closes + 1 }

def trySend (c : Chan α) (a : α) : Chan α × Bool :=
  if 0 < c.closes then ({ c with badSends := c.badSends + 1 }, false)
  else if c.buffer.length < c.cap then ({ c with buffer := c.buffer ++ [a] }, true)
  else (c, false)

def receive? (c : Chan α) : Option (Option α × Chan α) :=
  match c.buffer with
  | a :: rest => some (some a, { c with buffer := rest })
  | [] => if 0 < c.closes then some (none, c) else none

def Fresh (c : Chan α) : Prop := c.closes = 0 ∧ c.badSends = 0

def Sound (c : Chan α) : Prop := c.closes ≤ 1 ∧ c.badSends = 0

theorem make_fresh (cap : ℕ) : (make cap : Chan α).Fresh := ⟨rfl, rfl⟩

theorem Fresh.sound {c : Chan α} (h : c.Fresh) : c.Sound := ⟨by rw [h.1]; exact Nat.zero_le 1, h.2⟩

theorem Fresh.close {c : Chan α} (h : c.Fresh) : c.close.Sound := ⟨by simp [Chan.close, h.1], h.2⟩

theorem Fresh.trySend {c : Chan α} (h : c.Fresh) (a : α) : (c.trySend a).1.Fresh := by
  unfold Chan.trySend
  rw [if_neg (by rw [h.1]; decide)]
  split_ifs
  · exact h
  · exact h

theorem receive?_counts {c c' : Chan α} {a : Option α} (h : c.receive? = some (a, c')) :
    c'.closes = c.closes ∧ c'.badSends = c.badSends := by
  unfold receive? at h
  split at h
  · cases h
    exact ⟨rfl, rfl⟩
  · split_ifs at h
    cases h
    exact ⟨rfl, rfl⟩

end Chan

/-! ## Maps -/

namespace Keyed

variable {κ β : Type} [DecidableEq κ]

/-- `delete(m, k)` -/
def without (k : κ) (m : List (κ × β)) : List (κ × β) := m.filter fun kv => kv.1 ≠ k

/-- `m[k] = v` -/
def put (k : κ) (v : β) (m : List (κ × β)) : List (κ × β) := (k, v) :: without k m

def get? (k : κ) (m : List (κ × β)) : Option β := (m.find? fun kv => kv.1 = k).map (·.2)

variable {k : κ} {m : List (κ × β)}

theorem mem_without {kv : κ × β} : kv ∈ without k m ↔ kv ∈ m ∧ kv.1 ≠ k := by
  simp [without]

theorem without_sublist (k : κ) (m : List (κ × β)) : (without k m).Sublist m := filter_sublist

theorem mem_of_get? {v : β} (h : get? k m = some v) : (k, v) ∈ m := by
  unfold get? at h
  rw [Option.map_eq_some_iff] at h
  obtain ⟨kv, hfind, hv⟩ := h
  have hk : kv.1 = k := by simpa using List.find?_some hfind
  have hmem := mem_of_find?_eq_some hfind
  rwa [← hk, ← hv]

theorem not_mem_of_get? (h : get? k m = none) : k ∉ m.map (·.1) := by
  intro hmem
  obtain ⟨kv, hkv, hk⟩ := mem_map.1 hmem
  unfold get? at h
  rw [Option.map_eq_none_iff] at h
  exact List.find?_eq_none.1 h kv hkv (by simpa using hk)

theorem without_of_not_mem (h : k ∉ m.map (·.1)) : without k m = m := by
  refine filter_eq_self.2 ?_
  intro kv hkv
  have hne : kv.1 ≠ k := fun hk => h (hk ▸ mem_map_of_mem hkv)
  simpa using hne

theorem perm_without (hnodup : (m.map (·.1)).Nodup) {v : β} (hmem : (k, v) ∈ m) : m.Perm ((k, v) :: without k m) := by
  induction m with
  | nil => cases hmem
  | cons kv m ih =>
    obtain ⟨hnew, hrest⟩ := nodup_cons.1 hnodup
    rcases mem_cons.1 hmem with hkv | hmem
    · subst hkv
      have hsame : without k ((k, v) :: m) = m := by
        have h := without_of_not_mem hnew
        simpa [without] using h
      rw [hsame]
    · have hne : kv.1 ≠ k := by
        intro hk
        exact hnew (mem_map.2 ⟨(k, v), hmem, hk.symm⟩)
      have hcons : without k (kv :: m) = kv :: without k m := by simp [without, hne]
      rw [hcons]
      exact ((ih hrest hmem).cons kv).trans (Perm.swap _ _ _)

theorem countP_without (hnodup : (m.map (·.1)).Nodup) {v : β} (hmem : (k, v) ∈ m)
    (f : κ × β → Bool) : (without k m).countP f + (if f (k, v) then 1 else 0) = m.countP f := by
  rw [(perm_without hnodup hmem).countP_eq f, countP_cons]

section Put

variable (k : κ) (v : β)

theorem nodup_put (h : (m.map (·.1)).Nodup) : ((put k v m).map (·.1)).Nodup := by
  refine nodup_cons.2 ⟨fun hmem => ?_, h.sublist ((without_sublist k m).map _)⟩
  obtain ⟨kv, hkv, hk⟩ := mem_map.1 hmem
  exact (mem_without.1 hkv).2 hk

theorem sum_put (h : (m.map (·.1)).Nodup) (f : κ × β → ℤ) :
    ((put k v m).map f).sum = (m.map f).sum + f (k, v) - ((get? k m).map fun v => f (k, v)).getD 0 := by
  cases hk : get? k m with
  | none => simp [put, without_of_not_mem (not_mem_of_get? hk), add_comm]
  | some old =>
    have hsum := ((perm_without h (mem_of_get? hk)).map f).sum_eq
    simp only [map_cons, sum_cons] at hsum
    simp only [put, map_cons, sum_cons, Option.map_some, Option.getD_some]
    omega

theorem length_put (h : (m.map (·.1)).Nodup) :
    ((put k v m).length : ℤ) = m.length + (if (get? k m).isNone then 1 else 0) := by
  have hsum := sum_put k v h fun _ => 1
  cases hk : get? k m <;> simp [hk] at hsum ⊢ <;> omega

end Put

end Keyed

end EtonifyCore.Core
