/-
A store with a write buffer. While a flush runs, what it writes can still be read (`writing`) and new values go into the next
buffer (`pending`). The transaction writes the entries in any order, and has no effect if one of them is refused.

`Holds P Q`: every buffered entry satisfies `P` and the database `Q`. It is kept by every operation if the write of an entry
with `P` keeps `Q`, and says where a loaded value comes from (`Holds.load`).
-/
import Mathlib.Tactic

namespace EtonifyCore.Core

structure WriteBuffer (K V D : Type*) where
  pending : List (K × V) := []
  writing : Option (List (K × V)) := none
  disk : D

namespace WriteBuffer

variable {K V D : Type*} [DecidableEq K]

def save (k : K) (v : V) (b : WriteBuffer K V D) : WriteBuffer K V D :=
  { b with pending := (k, v) :: b.pending.filter fun entry => entry.1 ≠ k }

def startFlush (b : WriteBuffer K V D) : WriteBuffer K V D :=
  match b.writing, b.pending with
  | none, entry :: entries => { b with pending := [], writing := some (entry :: entries) }
  | _, _ => b

def inOrder (keys : List K) (entries : List (K × V)) : List (K × V) :=
  keys.filterMap fun k => (entries.lookup k).map (k, ·)

def commit (put : D → K → V → Option D) (keys : List K) (b : WriteBuffer K V D) : WriteBuffer K V D :=
  match b.writing with
  | none => b
  | some entries =>
    if keys.Perm (entries.map Prod.fst) then
      match (inOrder keys entries).foldlM (fun disk entry => put disk entry.1 entry.2) b.disk with
      | none => b
      | some disk => { b with disk }
    else b

def endFlush (b : WriteBuffer K V D) : WriteBuffer K V D := { b with writing := none }

def load (get : D → K → Option V) (b : WriteBuffer K V D) (k : K) : Option V :=
  (b.pending.lookup k).or ((b.writing.bind (List.lookup k)).or (get b.disk k))

structure Holds (P : K → V → Prop) (Q : D → Prop) (b : WriteBuffer K V D) : Prop where
  pending : ∀ entry ∈ b.pending, P entry.1 entry.2
  writing : ∀ entries, b.writing = some entries → ∀ entry ∈ entries, P entry.1 entry.2
  disk : Q b.disk

variable {P : K → V → Prop} {Q : D → Prop} {b : WriteBuffer K V D} {put : D → K → V → Option D}

theorem mem_of_lookup {entries : List (K × V)} {k : K} {v : V} (h : entries.lookup k = some v) : (k, v) ∈ entries := by
  obtain ⟨before, after, rfl, -⟩ := List.lookup_eq_some_iff.1 h
  exact List.mem_append_right _ List.mem_cons_self

theorem mem_of_mem_inOrder {keys : List K} {entries : List (K × V)} {entry : K × V} (h : entry ∈ inOrder keys entries) :
    entry ∈ entries := by
  obtain ⟨k, -, hk⟩ := List.mem_filterMap.1 h
  obtain ⟨v, hv, rfl⟩ := Option.map_eq_some_iff.1 hk
  exact mem_of_lookup hv

omit [DecidableEq K] in
theorem foldlM_put (hput : ∀ disk k v disk', Q disk → P k v → put disk k v = some disk' → Q disk') :
    ∀ (entries : List (K × V)) (disk disk' : D), (∀ entry ∈ entries, P entry.1 entry.2) → Q disk →
      entries.foldlM (fun disk entry => put disk entry.1 entry.2) disk = some disk' → Q disk' := by
  intro entries
  induction entries with
  | nil =>
    intro disk disk' _ hdisk h
    obtain rfl := Option.some.inj h
    exact hdisk
  | cons entry entries ih =>
    intro disk disk' hentries hdisk h
    rw [List.foldlM_cons] at h
    obtain ⟨next, hnext, hrest⟩ := Option.bind_eq_some_iff.1 h
    have hQ := hput disk entry.1 entry.2 next hdisk (hentries entry List.mem_cons_self) hnext
    exact ih next disk' (fun e he => hentries e (List.mem_cons_of_mem _ he)) hQ hrest

section

variable (h : Holds P Q b)
include h

theorem Holds.save {k : K} {v : V} (hkv : P k v) : Holds P Q (b.save k v) := by
  refine ⟨fun entry hmem => ?_, h.writing, h.disk⟩
  rcases List.mem_cons.1 hmem with rfl | hmem
  · exact hkv
  · exact h.pending entry (List.mem_filter.1 hmem).1

omit [DecidableEq K] in
theorem Holds.startFlush : Holds P Q b.startFlush := by
  rw [WriteBuffer.startFlush]
  split
  · rename_i entry entries _ hpending
    refine ⟨nofun, fun taken htaken => ?_, h.disk⟩
    obtain rfl := Option.some.inj htaken
    rw [← hpending]
    exact h.pending
  · exact h

theorem Holds.commit (hput : ∀ disk k v disk', Q disk → P k v → put disk k v = some disk' → Q disk')
    (keys : List K) : Holds P Q (b.commit put keys) := by
  rw [WriteBuffer.commit]
  split
  · exact h
  · rename_i entries hwriting
    split_ifs
    · split
      · exact h
      · rename_i disk hdisk
        refine ⟨h.pending, h.writing, ?_⟩
        exact foldlM_put hput _ _ _ (fun e he => h.writing entries hwriting e (mem_of_mem_inOrder he)) h.disk hdisk
    · exact h

omit [DecidableEq K] in
theorem Holds.endFlush : Holds P Q b.endFlush := ⟨h.pending, nofun, h.disk⟩

theorem Holds.load {get : D → K → Option V} {k : K} {v : V} (hload : b.load get k = some v) :
    P k v ∨ get b.disk k = some v := by
  rw [WriteBuffer.load, Option.or_eq_some_iff] at hload
  rcases hload with hpending | ⟨-, hrest⟩
  · exact .inl (h.pending _ (mem_of_lookup hpending))
  rw [Option.or_eq_some_iff] at hrest
  rcases hrest with hwriting | ⟨-, hdisk⟩
  · obtain ⟨entries, hentries, hlookup⟩ := Option.bind_eq_some_iff.1 hwriting
    exact .inl (h.writing entries hentries _ (mem_of_lookup hlookup))
  · exact .inr hdisk

end

theorem load_save (get : D → K → Option V) (k : K) (v : V) (b : WriteBuffer K V D) :
    (b.save k v).load get k = some v := by
  simp [WriteBuffer.load, WriteBuffer.save]

end WriteBuffer

end EtonifyCore.Core
