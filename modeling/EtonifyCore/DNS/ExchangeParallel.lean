/-
Exchanges that run at the same time (`ExchangeParallel`, `dns/transport/exchange_strategy.go`).

Model: each exchanger calls its callback once, in any order. A call of `complete` is one step: who has set `completed` under
the lock is alone behind it. Results may depend on the cancelled context; none is looked at after that.
-/
import Mathlib.Data.Fintype.Card
import Mathlib.Data.List.FinRange

namespace EtonifyCore.ExchangeParallel

open List Function

variable {α ε : Type} {n : ℕ}

/-- what the callback is called with: a response and an error, or all errors -/
inductive Delivery (α ε : Type) (n : ℕ)
  | missingExchangers
  | result (response : Option α) (err : Option ε)
  | errors (errors : Fin n → Option ε)

/-- `parallelExchange`; `results` are `responses` and `errors`, and `callbacks` logs the calls of the callback -/
structure Parallel (α ε : Type) (n : ℕ) where
  results : Fin n → Option α × Option ε := fun _ => (none, none)
  pending : ℕ := n
  completed : Bool := false
  callbacks : List (Delivery α ε n) := []

def start (α ε : Type) (n : ℕ) : Parallel α ε n := if n = 0 then { callbacks := [.missingExchangers] } else {}

/-- the loop at the end of `complete` -/
def final (results : Fin n → Option α × Option ε) : Delivery α ε n :=
  match (finRange n).find? fun i => (results i).2.isNone with
  | some i => .result (results i).1 none
  | none => .errors fun i => (results i).2

variable (accept : Option α × Option ε → Bool) (out : Fin n → Option α × Option ε)

def complete (p : Parallel α ε n) (index : Fin n) : Parallel α ε n :=
  if p.completed then p
  else if accept (out index) then
    { p with completed := true, callbacks := p.callbacks ++ [.result (out index).1 (out index).2] }
  else
    let p := { p with results := update p.results index (out index), pending := p.pending - 1 }
    if 0 < p.pending then p
    else { p with completed := true, callbacks := p.callbacks ++ [final p.results] }

def run (indices : List (Fin n)) : Parallel α ε n := indices.foldl (complete accept out) (start α ε n)

/-- an accepted result at once; else, after all of them, the one without error of the smallest index, or all errors -/
def expected (indices : List (Fin n)) : List (Delivery α ε n) :=
  if n = 0 then [.missingExchangers]
  else match indices.find? fun i => accept (out i) with
    | some i => [.result (out i).1 (out i).2]
    | none => if indices.length < n then [] else [final out]

/-- the results of these exchangers -/
def collected (indices : List (Fin n)) (i : Fin n) : Option α × Option ε := if i ∈ indices then out i else (none, none)

theorem update_collected (indices : List (Fin n)) (i : Fin n) :
    update (collected out indices) i (out i) = collected out (indices ++ [i]) := by
  funext j
  by_cases hj : j = i <;> simp [collected, hj]

variable {accept out} {indices : List (Fin n)}

theorem foldl_of_completed {p : Parallel α ε n} (hp : p.completed) (indices : List (Fin n)) :
    indices.foldl (complete accept out) p = p := by
  induction indices with
  | nil => rfl
  | cons i indices ih => rw [foldl_cons, complete, if_pos hp, ih]

theorem collected_all (hnodup : indices.Nodup) (hall : indices.length = n) : collected out indices = out := by
  have hcard : indices.toFinset.card = Fintype.card (Fin n) := by
    rw [toFinset_card_of_nodup hnodup, hall, Fintype.card_fin]
  funext i
  rw [collected, if_pos (mem_toFinset.1 (Finset.eq_univ_of_card _ hcard ▸ Finset.mem_univ i))]

section

variable (hno : ∀ i ∈ indices, accept (out i) = false)
include hno

/-- as long as nothing is accepted and a result is missing, results are collected -/
theorem run_open (hlt : indices.length < n) :
    run accept out indices = { results := collected out indices, pending := n - indices.length } := by
  induction indices using List.reverseRecOn with
  | nil =>
    have hn : n ≠ 0 := Nat.ne_of_gt hlt
    rw [run, foldl_nil, start, if_neg hn]
    rfl
  | append_singleton indices i ih =>
    rw [length_append, length_singleton] at hlt
    have hprev := ih (fun j hj => hno j (mem_append_left _ hj)) (by omega)
    have hpending : 0 < n - indices.length - 1 := by omega
    rw [run] at hprev
    rw [run, foldl_append, hprev, foldl_cons, foldl_nil, complete, if_neg Bool.false_ne_true, hno i (by simp),
      if_neg Bool.false_ne_true]
    dsimp only
    rw [if_pos hpending, update_collected, length_append, length_singleton, Nat.sub_sub]

theorem run_closed (hnodup : indices.Nodup) (hn : n ≠ 0) (hall : indices.length = n) :
    (run accept out indices).callbacks = [final out] := by
  have hout : collected out indices = out := collected_all hnodup hall
  cases indices using List.reverseRecOn with
  | nil => exact absurd hall.symm hn
  | append_singleton indices i =>
    rw [length_append, length_singleton] at hall
    have hprev := run_open (fun j hj => hno j (mem_append_left _ hj)) (by omega)
    have hpending : ¬ 0 < n - indices.length - 1 := by omega
    rw [run] at hprev
    rw [run, foldl_append, hprev, foldl_cons, foldl_nil, complete, if_neg Bool.false_ne_true, hno i (by simp),
      if_neg Bool.false_ne_true]
    dsimp only
    rw [if_neg hpending, update_collected, hout]
    rfl

end

/-- **One callback, whatever the order**, at any time: `order` is the order in which the exchangers end, and `k` of them
have. -/
theorem parallel_delivers (accept : Option α × Option ε → Bool) (out : Fin n → Option α × Option ε)
    (order : Equiv.Perm (Fin n)) (k : ℕ) :
    (run accept out ((ofFn order).take k)).callbacks = expected accept out ((ofFn order).take k) := by
  by_cases hn : n = 0
  · subst hn
    simp [run, start, expected]
  have hnodup : ((ofFn order).take k).Nodup := (nodup_ofFn.2 order.injective).sublist (take_sublist _ _)
  have hle : ((ofFn order).take k).length ≤ n := by simp
  generalize (ofFn order).take k = indices at hnodup hle
  rw [expected, if_neg hn]
  cases hfind : indices.find? fun i => accept (out i) with
  | none =>
    have hno : ∀ i ∈ indices, accept (out i) = false := by simpa using find?_eq_none.1 hfind
    dsimp only
    split_ifs with hlt
    · rw [run_open hno hlt]
    · exact run_closed hno hnodup hn (by omega)
  | some i =>
    -- what comes before the first accepted result is collected, and what comes after it is not looked at
    obtain ⟨hi, before, after, rfl, hno⟩ := find?_eq_some_iff_append.1 hfind
    rw [length_append, length_cons] at hle
    have hopen : run accept out before = _ := run_open (by simpa using hno) (by omega)
    rw [run] at hopen
    rw [run, foldl_append, hopen, foldl_cons, complete, if_neg Bool.false_ne_true, if_pos hi, foldl_of_completed rfl]
    rfl

end EtonifyCore.ExchangeParallel
