/-
The goroutines of a connection end, and with them the connection.

A step of a goroutine that has not ended takes at least one off `rank`; so after finitely many rounds in which each has had
its turn all of them have ended. A copy that has its turn is a copy that ends: what makes it end is the outcome that comes
with the operation.
-/
import EtonifyCore.Route.ConnectionEnd

namespace EtonifyCore.ConnectionEnd

open List

/-! ## Every goroutine ends -/

def Act.weight : Act → ℕ
  | .close _ | .onClose => 1
  | .swapFirst => 2
  | .swapSecond _ => 4

def weight (todo : List Act) : ℕ := (todo.map Act.weight).sum

def Main.rank : Main → ℕ
  | .dial => 9
  | .report => 8
  | .spoof => 7
  | .kick download => if download then 5 else 6
  | .exit todo => weight todo
  | .started => 0

def Copy.rank : Copy → ℕ
  | .waiting => 8
  | .copying => 7
  | .ending todo => weight todo

def rank (st : St) : ℕ := st.main.rank + both Copy.rank st.copies

theorem exec_weight (st : St) (a : Act) (todo : List Act) : weight ((exec st a).2 ++ todo) < weight (a :: todo) := by
  cases a with
  | close c | onClose => simp [exec, weight, Act.weight]
  | swapFirst => cases hdone : st.done <;> simp [exec, weight, Act.weight, hdone]
  | swapSecond d => cases hdone : st.done <;> (simp [exec, weight, Act.weight, hdone]; try omega)

theorem exec_copies (st : St) (a : Act) : (exec st a).1.copies = st.copies := by
  cases a <;> rfl

theorem exec_main (st : St) (a : Act) : (exec st a).1.main = st.main := by
  cases a <;> rfl

theorem both_update_lt {f : Copy → ℕ} {copies : Bool → Copy} {download : Bool} {c : Copy}
    (h : f c < f (copies download)) : both f (Function.update copies download c) < both f copies := by
  rw [both_update, both_eq f copies download]
  omega

variable {cfg : Config} {st : St}

theorem rank_start (h : Inv cfg st) (hm : st.main ≠ .started) : rank (start st) < rank st := by
  have hwait : ∀ d, st.copies d = .waiting := by
    intro d
    by_contra hc
    exact hm (started_of_copy h hc)
  simp only [rank, both, start, hwait, Main.rank, Copy.rank]
  omega

theorem mainStep_rank (h : Inv cfg st) (ok : Bool) (k : Kick) :
    st.main = .exit [] ∨ st.main = .started ∨ rank (mainStep cfg st ok k) < rank st := by
  have hgo : ∀ m : Main, m.rank < st.main.rank → rank { st with main := m } < rank st := by
    intro m hr
    exact Nat.add_lt_add_right hr _
  unfold mainStep
  generalize hm : st.main = main at hgo ⊢
  cases main with
  | dial =>
    refine Or.inr (Or.inr ?_)
    dsimp only
    split_ifs
    · exact hgo .report (by decide)
    · exact hgo _ (by decide)
  | report =>
    refine Or.inr (Or.inr ?_)
    dsimp only
    split_ifs
    · exact hgo _ (by decide)
    · exact rank_start h (by simp [hm])
    · exact hgo _ (by decide)
    · exact hgo _ (by decide)
  | spoof =>
    refine Or.inr (Or.inr ?_)
    dsimp only
    split_ifs
    · exact hgo _ (by decide)
    · exact hgo _ (by decide)
  | kick download =>
    refine Or.inr (Or.inr ?_)
    dsimp only
    split_ifs with _ hdown
    · exact hgo _ (by cases download <;> decide)
    · exact rank_start h (by simp [hm])
    · exact hgo _ (by cases download <;> first | decide | exact absurd rfl hdown)
  | exit todo =>
    cases todo with
    | nil => exact Or.inl rfl
    | cons a todo =>
      refine Or.inr (Or.inr ?_)
      rw [rank, rank, hm, exec_copies]
      exact Nat.add_lt_add_right (exec_weight st a todo) _
  | started => exact Or.inr (Or.inl rfl)

theorem weight_copy (cfg : Config) (download : Bool) (e : CopyEnd) :
    weight (if cfg.packet then packetConnectionCopy download else connectionCopy download e) < 7 := by
  split_ifs <;> cases download <;> cases e <;> decide

theorem copyStep_rank (cfg : Config) (st : St) (download : Bool) (e : CopyEnd) :
    st.copies download = .waiting ∨ st.copies download = .ending [] ∨ rank (copyStep cfg st download e) < rank st := by
  unfold copyStep
  cases hc : st.copies download with
  | waiting => exact Or.inl rfl
  | copying =>
    refine Or.inr (Or.inr (Nat.add_lt_add_left (both_update_lt ?_) _))
    rw [hc]
    exact weight_copy cfg download e
  | ending todo =>
    cases todo with
    | nil => exact Or.inr (Or.inl rfl)
    | cons a todo =>
      refine Or.inr (Or.inr ?_)
      rw [rank, rank, exec_main]
      refine Nat.add_lt_add_left (both_update_lt ?_) _
      rw [hc]
      exact exec_weight st a todo

theorem step_rank (h : Inv cfg st) (op : Op) : step cfg st op = st ∨ rank (step cfg st op) < rank st := by
  cases op with
  | main ok k =>
    rcases mainStep_rank h ok k with hm | hm | hlt
    · exact Or.inl (by simp [step, mainStep, hm])
    · exact Or.inl (by simp [step, mainStep, hm])
    · exact Or.inr hlt
  | copy download e =>
    rcases copyStep_rank cfg st download e with hc | hc | hlt
    · exact Or.inl (by simp [step, copyStep, hc])
    · exact Or.inl (by simp [step, copyStep, hc])
    · exact Or.inr hlt

def Handed (st : St) : Prop := st.main = .started → ∀ download, st.copies download ≠ .waiting

theorem handed_step (cfg : Config) (h : Handed st) (op : Op) : Handed (step cfg st op) := by
  cases op with
  | main ok k =>
    unfold step mainStep
    cases hm : st.main with
    | started => exact h
    | exit todo =>
      cases todo with
      | nil => exact h
      | cons a todo =>
        intro hs
        cases hs
    | _ =>
      dsimp only
      split_ifs <;> intro hs d <;> cases hs <;> exact Copy.noConfusion
  | copy download e =>
    have hupdate : ∀ (st' : St) todo, st'.main = st.main →
        Handed { st' with copies := Function.update st.copies download (.ending todo) } := by
      intro st' todo hm hs d
      by_cases hd : d = download
      · subst hd
        simp
      · simp only [Function.update_of_ne hd]
        exact h (hm.symm.trans hs) d
    change Handed (copyStep cfg st download e)
    unfold copyStep
    cases st.copies download with
    | waiting => exact h
    | copying => exact hupdate st _ rfl
    | ending todo =>
      cases todo with
      | nil => exact h
      | cons a todo => exact hupdate _ _ (exec_main st a)

/-- a round in which every goroutine takes a step, in any order and with any outcome -/
def Fair (round : List Op) : Prop :=
  (∃ ok k, .main ok k ∈ round) ∧ ∀ download, ∃ e, .copy download e ∈ round

theorem exists_progress (h : Inv cfg st) (hhanded : Handed st) (hnot : ¬ Ended st) {round : List Op}
    (hfair : Fair round) : ∃ op ∈ round, rank (step cfg st op) < rank st := by
  obtain ⟨⟨ok, k, hmain⟩, hcopy⟩ := hfair
  rcases mainStep_rank h ok k with hm | hm | hlt
  · exact absurd (Or.inl hm) hnot
  · have hex : ∃ d, st.copies d ≠ .ending [] := by
      by_contra hall
      exact hnot (Or.inr ⟨hm, fun d => not_not.1 fun hd => hall ⟨d, hd⟩⟩)
    obtain ⟨d, hd⟩ := hex
    obtain ⟨e, he⟩ := hcopy d
    rcases copyStep_rank cfg st d e with hw | hz | hlt
    · exact absurd hw (hhanded hm d)
    · exact absurd hz hd
    · exact ⟨_, he, hlt⟩
  · exact ⟨_, hmain, hlt⟩

def Reached (cfg : Config) (st : St) : Prop := Inv cfg st ∧ Handed st

theorem reached_foldl (h : Reached cfg st) (ops : List Op) : Reached cfg (ops.foldl (step cfg) st) :=
  List.foldlRecOn (motive := Reached cfg) ops (step cfg) h fun _ h op _ =>
    ⟨inv_step cfg h.1 op, handed_step cfg h.2 op⟩

theorem foldl_rank (h : Reached cfg st) (ops : List Op) :
    (ops.foldl (step cfg) st = st ∧ ∀ op ∈ ops, step cfg st op = st) ∨ rank (ops.foldl (step cfg) st) < rank st := by
  induction ops generalizing st with
  | nil => exact Or.inl ⟨rfl, fun op hop => absurd hop not_mem_nil⟩
  | cons op ops ih =>
    have hrest := ih (reached_foldl h [op])
    simp only [foldl_cons, foldl_nil] at hrest ⊢
    rcases step_rank h.1 op with hsame | hlt
    · rw [hsame] at hrest ⊢
      rcases hrest with ⟨heq, hall⟩ | hlt
      · exact Or.inl ⟨heq, forall_mem_cons.2 ⟨hsame, hall⟩⟩
      · exact Or.inr hlt
    · rcases hrest with ⟨heq, -⟩ | hlt'
      · exact Or.inr (by rwa [heq])
      · exact Or.inr (hlt'.trans hlt)

theorem fair_rank (h : Reached cfg st) {round : List Op} (hfair : Fair round) :
    Ended (round.foldl (step cfg) st) ∨ rank (round.foldl (step cfg) st) < rank st := by
  rcases foldl_rank h round with ⟨heq, hall⟩ | hlt
  · rw [heq]
    by_contra hnot
    push Not at hnot
    obtain ⟨op, hop, hlt⟩ := exists_progress h.1 h.2 hnot.1 hfair
    rw [hall op hop] at hlt
    exact lt_irrefl _ hlt
  · exact Or.inr hlt

theorem ended_step (h : Inv cfg st) (hended : Ended st) (op : Op) : step cfg st op = st := by
  cases op with
  | main ok k =>
    rcases hended with hm | ⟨hm, -⟩
    · simp [step, mainStep, hm]
    · simp [step, mainStep, hm]
  | copy download e =>
    rcases hended with hm | ⟨-, hcopies⟩
    · simp only [Inv, hm] at h
      simp [step, copyStep, h.waiting download]
    · simp [step, copyStep, hcopies download]

theorem ended_foldl (h : Inv cfg st) (hended : Ended st) (ops : List Op) : ops.foldl (step cfg) st = st := by
  induction ops with
  | nil => rfl
  | cons op ops ih => rw [foldl_cons, ended_step h hended op, ih]

theorem ended_of_rounds (h : Reached cfg st) (rounds : List (List Op))
    (hfair : ∀ round ∈ rounds, Fair round) (hlen : rank st < rounds.length) :
    Ended (rounds.flatten.foldl (step cfg) st) := by
  induction rounds generalizing st with
  | nil => exact absurd hlen (Nat.not_lt_zero _)
  | cons round rounds ih =>
    obtain ⟨hround, hrest⟩ := forall_mem_cons.1 hfair
    have hreached := reached_foldl h round
    rw [flatten_cons, foldl_append]
    rcases fair_rank h hround with hended | hlt
    · rw [ended_foldl hreached.1 hended]
      exact hended
    · refine ih hreached hrest ?_
      rw [length_cons] at hlen
      omega

theorem reached_run (cfg : Config) (ops : List Op) : Reached cfg (run cfg ops) :=
  reached_foldl ⟨inv_init cfg, fun h => by cases h⟩ ops

theorem rank_run (cfg : Config) (ops : List Op) : rank (run cfg ops) ≤ 25 := by
  rcases foldl_rank (reached_run cfg []) ops with ⟨heq, -⟩ | hlt
  · exact (congrArg rank heq).le
  · exact hlt.le

theorem Inv.ended (h : Inv cfg st) (hended : Ended st) :
    st.onCloses = 1 ∧ st.closed .inbound ∧ (st.dialed → st.closed .remote) := by
  rcases hended with hm | ⟨hm, hcopies⟩
  · simp only [Inv, hm] at h
    refine ⟨?_, ?_, ?_⟩
    · simpa using h.account
    · simpa using h.inbound
    · intro hd
      simpa using h.remote hd
  · have hboth : both Copy.swaps st.copies = 0 ∧ both Copy.calls st.copies = 0 := by
      simp [both, hcopies]
    simp only [Inv, hm] at h
    split_ifs at h
    · have hclosed : ∀ c, st.closed c := fun c => by simpa using h.closing false [] (hcopies false) c
      rcases h.account with ⟨-, h2, -⟩ | ⟨-, -, h1⟩
      · omega
      · exact ⟨by omega, hclosed _, fun _ => hclosed _⟩
    · have hclosed : ∀ c, st.closed c := by
        intro c
        rcases h.closing hboth.1 c with hc | ⟨d, todo, hd, hmem⟩
        · exact hc
        · rw [hcopies d] at hd
          cases hd
          cases hmem
      rcases h.account with ⟨-, h2, -⟩ | ⟨-, h1⟩
      · omega
      · exact ⟨by omega, hclosed _, fun _ => hclosed _⟩

/-- **Every connection ends exactly once.** `onClose` is called at most once, and has been when all goroutines have ended,
with both connections closed; they do end once each of them has had its turns. -/
theorem connection_ends_once (cfg : Config) (ops : List Op) :
    (run cfg ops).onCloses ≤ 1 ∧
      (Ended (run cfg ops) → (run cfg ops).onCloses = 1 ∧ (run cfg ops).closed .inbound = true ∧
        ((run cfg ops).dialed = true → (run cfg ops).closed .remote = true)) ∧
      ∀ rounds : List (List Op), (∀ round ∈ rounds, Fair round) → 25 < rounds.length →
        Ended (run cfg (ops ++ rounds.flatten)) := by
  refine ⟨(inv_run cfg ops).at_most_once, (inv_run cfg ops).ended, ?_⟩
  intro rounds hfair hlen
  rw [run, foldl_append]
  exact ended_of_rounds (reached_run cfg ops) rounds hfair (lt_of_le_of_lt (rank_run cfg ops) hlen)

def plainRound : List Op := [.main true ⟨false, false, none⟩, .copy true .noCloseWrite, .copy false .closedWrite]

theorem connection_ends_once_stream :
    (run ⟨false, false, false⟩ (List.replicate 26 plainRound).flatten).onCloses = 1 ∧
      ∀ c, (run ⟨false, false, false⟩ (List.replicate 26 plainRound).flatten).closed c = true := by
  have h := connection_ends_once ⟨false, false, false⟩ []
  have hended := h.2.2 (List.replicate 26 plainRound) (fun round hround => by
    rw [eq_of_mem_replicate hround]
    exact ⟨⟨true, ⟨false, false, none⟩, by decide⟩, fun d => by cases d <;> simp [plainRound]⟩) (by simp)
  rw [nil_append] at hended
  have hresult := (connection_ends_once ⟨false, false, false⟩ (List.replicate 26 plainRound).flatten).2.1 hended
  refine ⟨hresult.1, fun c => ?_⟩
  cases c with
  | inbound => exact hresult.2.1
  | remote => exact hresult.2.2 (by decide +kernel)

end EtonifyCore.ConnectionEnd
