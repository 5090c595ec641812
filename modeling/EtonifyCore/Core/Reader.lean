/-
Readers with data put back in front of them.

A read returns data that was put back before it touches the reader behind; it may return less than there is.
-/
import Mathlib.Data.List.Infix

namespace EtonifyCore.Core

open List

inductive Reader (α : Type) where
  | source (pieces : List (List α))
  | cached (data : List α) (upstream : Reader α)
deriving DecidableEq, Repr

namespace Reader

variable {α : Type}

def read (n : ℕ) : Reader α → List α × Reader α
  | source [] => ([], source [])
  | source (p :: ps) => if p.length ≤ n then (p, source ps) else (p.take n, source (p.drop n :: ps))
  | cached [] r => r.read n
  | cached (a :: as) r => ((a :: as).take n, cached ((a :: as).drop n) r)

/-- successive reads of the given sizes: the data they return, and the reader afterwards -/
def drain : List ℕ → Reader α → List α × Reader α
  | [], r => ([], r)
  | n :: ns, r => ((r.read n).1 ++ ((r.read n).2.drain ns).1, ((r.read n).2.drain ns).2)

def contents : Reader α → List α
  | source ps => ps.flatten
  | cached data r => data ++ r.contents

/-- the reads return `xs` in order, whatever their sizes, and reads that return all of it exist -/
def Delivers (r : Reader α) (xs : List α) : Prop :=
  (∀ sizes, (r.drain sizes).1 <+: xs) ∧ ∃ sizes, (r.drain sizes).1 = xs

def pushAll (pieces : List (List α)) (r : Reader α) : Reader α := pieces.foldl (fun r p => cached p r) r

def pushBackward (pieces : List (List α)) (r : Reader α) : Reader α := pieces.foldr cached r

/-! ## Reads and contents -/

theorem read_contents (n : ℕ) (r : Reader α) : (r.read n).1 ++ (r.read n).2.contents = r.contents := by
  induction r with
  | source ps =>
    cases ps with
    | nil => rfl
    | cons p ps =>
      rw [read]
      split_ifs
      · simp [contents]
      · rw [contents, contents, flatten_cons, flatten_cons, ← append_assoc, take_append_drop]
  | cached data r ih =>
    cases data with
    | nil => exact ih
    | cons a as => rw [read, contents, contents, ← append_assoc, take_append_drop]

theorem drain_contents (sizes : List ℕ) (r : Reader α) :
    (r.drain sizes).1 ++ (r.drain sizes).2.contents = r.contents := by
  induction sizes generalizing r with
  | nil => rfl
  | cons n ns ih => rw [drain, append_assoc, ih, read_contents]

theorem drain_source (ps : List (List α)) : ((source ps).drain (ps.map List.length)).1 = ps.flatten := by
  induction ps with
  | nil => rfl
  | cons p ps ih => simp only [map_cons, drain, read, le_refl, if_true, flatten_cons, ih]

theorem drain_cached_nil (sizes : List ℕ) (r : Reader α) : ((cached [] r).drain sizes).1 = (r.drain sizes).1 := by
  cases sizes <;> rfl

theorem exists_drain (r : Reader α) : ∃ sizes, (r.drain sizes).1 = r.contents := by
  induction r with
  | source ps => exact ⟨ps.map List.length, drain_source ps⟩
  | cached data r ih =>
    obtain ⟨sizes, hsizes⟩ := ih
    cases data with
    | nil => exact ⟨sizes, (drain_cached_nil sizes r).trans hsizes⟩
    | cons a as =>
      -- one read takes the data, the others go to the reader behind
      refine ⟨(a :: as).length :: sizes, ?_⟩
      rw [drain, read, take_length, drop_length, drain_cached_nil, hsizes, contents]

/-- **What a reader returns is its contents.** -/
theorem delivers_iff (r : Reader α) (xs : List α) : r.Delivers xs ↔ r.contents = xs := by
  constructor
  · rintro ⟨hpre, sizes, hall⟩
    obtain ⟨sizes', hall'⟩ := exists_drain r
    have hle : r.contents <+: xs := hall' ▸ hpre sizes'
    have hge : xs <+: r.contents := ⟨_, hall ▸ drain_contents sizes r⟩
    exact hle.eq_of_length_le hge.length_le
  · rintro rfl
    exact ⟨fun sizes => ⟨_, drain_contents sizes r⟩, exists_drain r⟩

/-! ## Full reads -/

def fullFrom : ℕ → List (List α) → Option (List α × List (List α))
  | 0, ps => some ([], ps)
  | _ + 1, [] => none
  | n + 1, p :: ps =>
    if p.length ≤ n + 1 then (fullFrom (n + 1 - p.length) ps).map fun (xs, ps) => (p ++ xs, ps)
    else some (p.take (n + 1), p.drop (n + 1) :: ps)

def readFull (n : ℕ) : Reader α → Option (List α × Reader α)
  | source ps => (fullFrom n ps).map fun (xs, ps) => (xs, source ps)
  | cached data r =>
    if n ≤ data.length then some (data.take n, cached (data.drop n) r)
    else (r.readFull (n - data.length)).map fun (xs, r) => (data ++ xs, r)

theorem fullFrom_eq {n : ℕ} {ps : List (List α)} (h : n ≤ ps.flatten.length) :
    ∃ ps', fullFrom n ps = some (ps.flatten.take n, ps') ∧ ps'.flatten = ps.flatten.drop n := by
  induction ps generalizing n with
  | nil =>
    obtain rfl : n = 0 := Nat.le_zero.1 h
    exact ⟨[], rfl, rfl⟩
  | cons p ps ih =>
    cases n with
    | zero => exact ⟨p :: ps, rfl, rfl⟩
    | succ n =>
      rw [flatten_cons, length_append] at h
      rw [fullFrom, flatten_cons]
      by_cases hle : p.length ≤ n + 1
      · obtain ⟨ps', hps', hrest⟩ := ih (n := n + 1 - p.length) (by omega)
        rw [if_pos hle, hps']
        refine ⟨ps', ?_, ?_⟩
        · rw [take_append, take_of_length_le hle]
          rfl
        · rw [hrest, drop_append, drop_of_length_le hle, nil_append]
      · rw [if_neg hle]
        refine ⟨p.drop (n + 1) :: ps, ?_, ?_⟩
        · rw [take_append_of_le_length (by omega)]
        · rw [flatten_cons, drop_append_of_le_length (by omega)]

theorem fullFrom_none {n : ℕ} {ps : List (List α)} (h : ps.flatten.length < n) : fullFrom n ps = none := by
  induction ps generalizing n with
  | nil =>
    obtain ⟨m, rfl⟩ := Nat.exists_eq_add_of_lt h
    rfl
  | cons p ps ih =>
    rw [flatten_cons, length_append] at h
    cases n with
    | zero => omega
    | succ n =>
      rw [fullFrom, if_pos (by omega), ih (by omega)]
      rfl

theorem readFull_eq {n : ℕ} {r : Reader α} (h : n ≤ r.contents.length) :
    ∃ r', r.readFull n = some (r.contents.take n, r') ∧ r'.contents = r.contents.drop n := by
  induction r generalizing n with
  | source ps =>
    obtain ⟨ps', hps', hrest⟩ := fullFrom_eq h
    refine ⟨source ps', ?_, hrest⟩
    rw [readFull, hps']
    rfl
  | cached data r ih =>
    rw [contents, length_append] at h
    rw [readFull, contents]
    by_cases hle : n ≤ data.length
    · rw [if_pos hle]
      refine ⟨cached (data.drop n) r, ?_, ?_⟩
      · rw [take_append_of_le_length hle]
      · rw [contents, drop_append_of_le_length hle]
    · obtain ⟨r', hr', hrest⟩ := ih (n := n - data.length) (by omega)
      have hdata : data.length ≤ n := by omega
      rw [if_neg hle, hr']
      refine ⟨r', ?_, ?_⟩
      · rw [take_append, take_of_length_le hdata]
        rfl
      · rw [hrest, drop_append, drop_of_length_le hdata, nil_append]

theorem readFull_none {n : ℕ} {r : Reader α} (h : r.contents.length < n) : r.readFull n = none := by
  induction r generalizing n with
  | source ps =>
    rw [readFull, fullFrom_none h]
    rfl
  | cached data r ih =>
    rw [contents, length_append] at h
    rw [readFull, if_neg (by omega), ih (by omega)]
    rfl

/-! ## Putting pieces back -/

theorem contents_pushAll (pieces : List (List α)) (r : Reader α) :
    (r.pushAll pieces).contents = pieces.reverse.flatten ++ r.contents := by
  induction pieces generalizing r with
  | nil => rfl
  | cons p ps ih =>
    rw [pushAll, foldl_cons]
    exact (ih (cached p r)).trans (by simp [contents])

theorem contents_pushBackward (pieces : List (List α)) (r : Reader α) :
    (r.pushBackward pieces).contents = pieces.flatten ++ r.contents := by
  induction pieces with
  | nil => rfl
  | cons p ps ih =>
    calc (r.pushBackward (p :: ps)).contents = p ++ (r.pushBackward ps).contents := rfl
      _ = (p :: ps).flatten ++ r.contents := by rw [ih, flatten_cons, append_assoc]

end Reader

end EtonifyCore.Core
