/-
No transport of `ManagedTransport` is closed under a request, in interleavings whose steps are `Timely` (`safe_run`).

The race: a request that brings the count to zero looks at the mark in a second step. If a new request begins in
between, and the epoch is then replaced and marked, the first request closes the transport.
-/
import EtonifyCore.HTTPClient.Epochs

namespace EtonifyCore.ManagedTransport

open Core (Table)
open Phase

/-! ## Nobody uses what is closed -/

def Phase.closes (e : ℕ) : Phase → Bool
  | .releaseClose e' _ | .retireClose e' => e' = e
  | _ => false

/-- the epoch is closed, or some call will close it without looking at its count again -/
def Doomed (epochs : Table Epoch) (calls : Table Call) (e : ℕ) : Prop :=
  (epochs.get e).closeOnce = true ∨ (∃ i < calls.size, (calls.get i).phase.closes e = true) ∨
    ((epochs.get e).marked = true ∧ ∃ i < calls.size, (calls.get i).phase.pending e = true)

def Unused (calls : Table Call) (e : ℕ) : Prop := ∀ i < calls.size, (calls.get i).phase.uses e = false

instance (calls : Table Call) (e : ℕ) : Decidable (Unused calls e) :=
  inferInstanceAs (Decidable (∀ i < calls.size, (calls.get i).phase.uses e = false))

def Safe (st : St) : Prop := ∀ e < st.epochs.size, Doomed st.epochs st.calls e → Unused st.calls e

def Phase.marks : Phase → Option ℕ
  | .mark e => some e
  | _ => none

/-- what the step of a call has to meet: it marks an epoch only when no request uses it, or no call is between bringing
its count to zero and looking at its mark -/
def Timely (st : St) : Op → Prop
  | .advance i _ =>
    i < st.calls.size → ∀ e ∈ (st.calls.get i).phase.marks,
      Unused st.calls e ∨ ∀ j < st.calls.size, (st.calls.get j).phase.pending e = false
  | _ => True

instance (st : St) (op : Op) : Decidable (Timely st op) :=
  match op with
  | .advance i _ => inferInstanceAs (Decidable (i < st.calls.size → ∀ e ∈ (st.calls.get i).phase.marks,
      Unused st.calls e ∨ ∀ j < st.calls.size, (st.calls.get j).phase.pending e = false))
  | .roundTrip | .reset | .closeIdleConnections | .closeBody _ => isTrue trivial

variable {p : Phase} {e : ℕ}

theorem counted_of_uses (h : p.uses e) : p.counted e = 1 := by
  cases p with
  | request e' | body e' => simpa [uses, counted] using h
  | release e' again => simp_all [uses, counted]
  | _ => cases h

theorem unused_of_no_users {calls : Table Call} (h : users calls e = 0) : Unused calls e := by
  intro i hi
  cases huse : (calls.get i).phase.uses e with
  | false => rfl
  | true =>
    have hle := one_le_users hi (counted_of_uses huse)
    omega

variable {st : St}

theorem Inv.doomed_marked (h : Inv st) (he : e < st.epochs.size)
    (hd : Doomed st.epochs st.calls e) : (st.epochs.get e).marked := by
  rcases hd with hd | ⟨i, hi, hd⟩ | ⟨hd, -⟩
  · exact (h.epochs e he).closeOnce hd
  · have hcall := (h.calls i hi).phase
    generalize (st.calls.get i).phase = p at hd hcall
    cases p with
    | releaseClose e' again | retireClose e' =>
      have hee : e' = e := by simpa [closes] using hd
      exact hee ▸ hcall.2
    | _ => cases hd
  · exact hd

variable {i : ℕ}

theorem Safe.move (h : Safe st) {epochs : Table Epoch} {current lock : Option ℕ} (hi : i < st.calls.size)
    (hdoom : ∀ e < epochs.size, Doomed epochs (moved st.calls i p) e →
      (e < st.epochs.size ∧ Doomed st.epochs st.calls e) ∨ Unused (moved st.calls i p) e)
    (huse : ∀ e < epochs.size, p.uses e → Doomed epochs (moved st.calls i p) e →
      (st.calls.get i).phase.uses e) : Safe ⟨epochs, current, lock, moved st.calls i p⟩ := by
  intro e he hd
  rcases hdoom e he hd with ⟨he', hold⟩ | hunused
  · intro j hj
    by_cases hji : j = i
    · subst hji
      simp only [get_moved_self]
      cases hp : p.uses e with
      | false => rfl
      | true =>
        rw [← h e he' hold j hi]
        exact (huse e he hp hd).symm
    · simp only [get_moved_of_ne _ _ hji]
      exact h e he' hold j hj
  · exact hunused

theorem Doomed.back {epochs epochs' : Table Epoch} {calls : Table Call} {i e : ℕ} {D : Prop}
    (hd : Doomed epochs' (moved calls i p) e) (honce : (epochs'.get e).closeOnce → (epochs.get e).closeOnce ∨ D)
    (hcloses : p.closes e → D) (hpending : (epochs'.get e).marked → p.pending e → D)
    (hmarked : ∀ j < calls.size, (calls.get j).phase.pending e → (epochs'.get e).marked →
      (epochs.get e).marked ∨ D) : Doomed epochs calls e ∨ D := by
  rcases hd with hd | ⟨j, hj, hd⟩ | ⟨hm, j, hj, hd⟩
  · exact (honce hd).imp Or.inl id
  · by_cases hji : j = i
    · subst hji
      exact Or.inr (hcloses (by simpa using hd))
    · rw [get_moved_of_ne _ _ hji] at hd
      exact Or.inl (Or.inr (Or.inl ⟨j, hj, hd⟩))
  · by_cases hji : j = i
    · subst hji
      exact Or.inr (hpending hm (by simpa using hd))
    · rw [get_moved_of_ne _ _ hji] at hd
      exact (hmarked j hj hd hm).imp (fun hm' => Or.inr (Or.inr ⟨hm', j, hj, hd⟩)) id

theorem Doomed.same {epochs epochs' : Table Epoch} {calls : Table Call} {i e : ℕ}
    (hd : Doomed epochs' (moved calls i p) e) (honce : (epochs'.get e).closeOnce = (epochs.get e).closeOnce)
    (hmarked : (epochs'.get e).marked = (epochs.get e).marked) (hcloses : p.closes e = false)
    (hpending : p.pending e = false) : Doomed epochs calls e := by
  have hor : Doomed epochs calls e ∨ False := by
    refine hd.back (fun ho => Or.inl (honce ▸ ho)) ?_ ?_ fun _ _ _ hm => Or.inl (hmarked ▸ hm)
    · rw [hcloses]
      nofun
    · rw [hpending]
      nofun
  exact hor.elim id False.elim

structure Phase.Plain (p : Phase) : Prop where
  closes : ∀ e, p.closes e = false := by exact fun _ => rfl
  pending : ∀ e, p.pending e = false := by exact fun _ => rfl
  uses : ∀ e, p.uses e = false := by exact fun _ => rfl

theorem plain_afterRelease (again : Bool) : (afterRelease again).Plain := by
  cases again <;> exact {}

section

variable (h : Safe st) {epochs : Table Epoch} {current lock : Option ℕ} (hi : i < st.calls.size)
  (hsize : epochs.size = st.epochs.size) (hflags : ∀ e, (epochs.get e).closeOnce = (st.epochs.get e).closeOnce ∧
    (epochs.get e).marked = (st.epochs.get e).marked)
include h hi hsize hflags

theorem Safe.quiet (hcloses : ∀ e, p.closes e = false) (hpending : ∀ e, p.pending e = false)
    (huse : ∀ e < st.epochs.size, p.uses e → Doomed st.epochs st.calls e →
      (st.calls.get i).phase.uses e) : Safe ⟨epochs, current, lock, moved st.calls i p⟩ := by
  have hback : ∀ e, Doomed epochs (moved st.calls i p) e → Doomed st.epochs st.calls e :=
    fun e hd => hd.same (hflags e).1 (hflags e).2 (hcloses e) (hpending e)
  refine h.move hi ?_ ?_
  · intro e he hd
    exact Or.inl ⟨hsize ▸ he, hback e hd⟩
  · intro e he hp hd
    exact huse e (hsize ▸ he) hp (hback e hd)

theorem Safe.plain (hp : p.Plain) : Safe ⟨epochs, current, lock, moved st.calls i p⟩ := by
  refine h.quiet hi hsize hflags hp.closes hp.pending ?_
  intro e _ hx
  rw [hp.uses e] at hx
  cases hx

end

theorem flags_refl (epochs : Table Epoch) (e : ℕ) :
    (epochs.get e).closeOnce = (epochs.get e).closeOnce ∧ (epochs.get e).marked = (epochs.get e).marked := ⟨rfl, rfl⟩

theorem flags_set (epochs : Table Epoch) (e : ℕ) (epoch : Epoch)
    (ho : epoch.closeOnce = (epochs.get e).closeOnce) (hm : epoch.marked = (epochs.get e).marked) (x : ℕ) :
    ((epochs.set e epoch).get x).closeOnce = (epochs.get x).closeOnce ∧
      ((epochs.set e epoch).get x).marked = (epochs.get x).marked :=
  ⟨Table.apply_get_set epochs Epoch.closeOnce ho x, Table.apply_get_set epochs Epoch.marked hm x⟩

theorem Safe.close (h : Safe st) (hi : i < st.calls.size) (he : e < st.epochs.size)
    (hcl : (st.calls.get i).phase.closes e) (hp : p.Plain) : Safe ((st.tryClose e).goto i p) := by
  have hdoomed : Doomed st.epochs st.calls e := Or.inr (Or.inl ⟨i, hi, hcl⟩)
  rcases tryClose_eq st e with ⟨heq, -⟩ | ⟨heq, -⟩
  · rw [heq]
    exact h.plain hi rfl (flags_refl _) hp
  · rw [heq]
    refine h.move hi ?_ ?_
    · intro x hx hd
      by_cases hxe : x = e
      · subst hxe
        exact Or.inl ⟨he, hdoomed⟩
      · have hget : ∀ a, (st.epochs.set e a).get x = st.epochs.get x := fun a => Table.get_set_of_ne _ a hxe
        exact Or.inl ⟨hx, hd.same (by simp [St.withEpoch, hget]) (by simp [St.withEpoch, hget]) (hp.closes x)
          (hp.pending x)⟩
    · intro x _ hx
      rw [hp.uses x] at hx
      cases hx

theorem Safe.release (h : Safe st) (hinv : Inv st) (hi : i < st.calls.size) {again : Bool}
    (hp : (st.calls.get i).phase = .release e again) (hzero : (st.epochs.get e).active - 1 = 0) :
    Safe ((st.withEpoch e { st.epochs.get e with active := (st.epochs.get e).active - 1 }).goto i
      (.loadMarked e again)) := by
  have hcounted : (st.calls.get i).phase.counted e = 1 := by simp [hp, counted]
  have he : e < st.epochs.size := lt_of_counted (hinv.calls i hi).phase (by rw [hcounted]; decide)
  have hnone : Unused (moved st.calls i (.loadMarked e again)) e := by
    apply unused_of_no_users
    have hu := users_moved st.calls hi (.loadMarked e again) e
    have ha := hinv.active e he
    have hc : (loadMarked e again).counted e = 0 := rfl
    omega
  have hflags := flags_set st.epochs e { st.epochs.get e with active := (st.epochs.get e).active - 1 } rfl rfl
  refine h.move hi ?_ fun _ _ hused => absurd hused Bool.false_ne_true
  intro x hx hd
  by_cases hxe : x = e
  · subst hxe
    exact Or.inr hnone
  · exact Or.inl ⟨hx, hd.same (hflags x).1 (hflags x).2 rfl (by simpa [pending] using Ne.symm hxe)⟩

theorem Safe.mark (h : Safe st) (hi : i < st.calls.size) (hp : (st.calls.get i).phase = .mark e)
    (htimely : Unused st.calls e ∨ ∀ j < st.calls.size, (st.calls.get j).phase.pending e = false) :
    Safe ((st.withEpoch e { st.epochs.get e with marked := true }).goto i (.loadActive e)) := by
  have hunused : Unused st.calls e → Unused (moved st.calls i (.loadActive e)) e := by
    intro hu j hj
    by_cases hji : j = i
    · subst hji
      simp [uses]
    · rw [get_moved_of_ne _ _ hji]
      exact hu j hj
  refine h.move hi ?_ nofun
  intro x hx hd
  have hor : Doomed st.epochs st.calls x ∨ Unused (moved st.calls i (.loadActive e)) x := by
    refine hd.back ?_ nofun nofun ?_
    · intro ho
      refine Or.inl ?_
      have hsame : ((st.epochs.set e { st.epochs.get e with marked := true }).get x).closeOnce =
          (st.epochs.get x).closeOnce :=
        Table.apply_get_set _ Epoch.closeOnce (by exact rfl) x
      rw [← hsame]
      exact ho
    · intro j hj hpend hm
      by_cases hxe : x = e
      · subst hxe
        rcases htimely with hu | hnone
        · exact Or.inr (hunused hu)
        · rw [hnone j hj] at hpend
          cases hpend
      · have hget : ∀ a, (st.epochs.set e a).get x = st.epochs.get x := fun a => Table.get_set_of_ne _ a hxe
        exact Or.inl (by simpa [St.withEpoch, hget] using hm)
  exact hor.imp (fun hold => ⟨hx, hold⟩) id

theorem Safe.store (h : Safe st) (hinv : Inv st) (hi : i < st.calls.size) (b : Builder) :
    Safe ({ st with epochs := st.epochs.push default, current := some st.epochs.size }.goto i
      (.unlock b (some st.epochs.size))) := by
  refine h.move hi ?_ nofun
  intro x hx hd
  rcases Nat.lt_succ_iff_lt_or_eq.1 hx with hlt | rfl
  · have hget : (st.epochs.push default).get x = st.epochs.get x := Table.get_push _ _ hlt
    exact Or.inl ⟨hlt, hd.same (congrArg Epoch.closeOnce hget) (congrArg Epoch.marked hget) rfl rfl⟩
  · -- nobody has to do with an epoch that did not exist
    refine Or.inr (unused_of_no_users ?_)
    have hu := users_moved st.calls hi (.unlock b (some st.epochs.size)) st.epochs.size
    have hc : (unlock b (some st.epochs.size)).counted st.epochs.size = 0 := rfl
    have hnew := hinv.users_new
    omega

variable (cheapRebuild : Bool)

theorem safe_advance (hinv : Inv st) (h : Safe st) (hi : i < st.calls.size)
    (ok : Bool) (htimely : Timely st (.advance i ok)) : Safe (advance cheapRebuild st i ok) := by
  have hcall := (hinv.calls i hi).phase
  have hplain : ∀ (current lock : Option ℕ) {p : Phase}, p.Plain →
      Safe ⟨st.epochs, current, lock, moved st.calls i p⟩ := fun _ _ => h.plain hi rfl (flags_refl _)
  unfold advance
  generalize hp : (st.calls.get i).phase = phase at hcall ⊢
  cases phase with
  | load =>
    dsimp only
    cases st.current with
    | none | some e => exact hplain _ _ {}
  | lock b =>
    dsimp only
    cases st.rebuildAccess with
    | some j => exact h
    | none => exact hplain _ _ {}
  | loadAgain b =>
    dsimp only
    cases st.current with
    | some e | none => exact hplain _ _ {}
  | factory b =>
    cases ok with
    | true | false => exact hplain _ _ {}
  | store b => exact h.store hinv hi b
  | unlock b epoch =>
    refine hplain _ _ ?_
    cases b with
    | getEpoch => cases epoch <;> exact {}
    | reset old => cases old <;> exact {}
  | add e =>
    exact h.quiet hi rfl (flags_set _ _ _ rfl rfl) (fun _ => rfl) (fun _ => rfl) fun _ _ hx => absurd hx (by simp [uses])
  | verify e =>
    dsimp only
    by_cases hcur : st.current = some e
    · rw [if_pos hcur]
      refine h.quiet hi rfl (flags_refl _) (fun _ => rfl) (fun _ => rfl) ?_
      -- the current epoch is not doomed
      intro x hx hu hd
      have hxe : e = x := by simpa [uses] using hu
      subst hxe
      have hr := (hinv.epochs e hx).marked (hinv.doomed_marked hx hd)
      rw [(hinv.current e hcur).2] at hr
      cases hr
    · rw [if_neg hcur]
      exact hplain _ _ ⟨fun _ => rfl, fun _ => rfl, fun x => by simp [uses]⟩
  | request e =>
    cases ok with
    | true => exact h.quiet hi rfl (flags_refl _) (fun _ => rfl) (fun _ => rfl) fun x _ hu _ => by rw [hp]; exact hu
    | false =>
      refine h.quiet hi rfl (flags_refl _) (fun _ => rfl) (fun _ => rfl) ?_
      intro x _ hu _
      rw [hp]
      simpa [uses] using hu
  | body e => exact h
  | release e again =>
    dsimp only
    by_cases hzero : (st.epochs.get e).active - 1 = 0
    · rw [if_pos hzero]
      exact h.release hinv hi hp hzero
    · rw [if_neg hzero]
      exact h.plain hi rfl (flags_set _ _ _ rfl rfl) (plain_afterRelease again)
  | loadMarked e again =>
    dsimp only
    by_cases hmarked : (st.epochs.get e).marked
    · rw [if_pos hmarked]
      -- the epoch was doomed before
      refine h.move hi ?_ nofun
      intro x hx hd
      refine Or.inl ⟨hx, ?_⟩
      have hor : Doomed st.epochs st.calls x ∨ Doomed st.epochs st.calls x := by
        refine hd.back (fun ho => Or.inl ho) ?_ nofun fun _ _ _ hm => Or.inl hm
        intro hc
        have hxe : e = x := by simpa [closes] using hc
        subst hxe
        exact Or.inr (Or.inr ⟨hmarked, i, hi, by rw [hp]; simp [pending]⟩)
      exact hor.elim id id
    · rw [if_neg hmarked]
      exact hplain _ _ (plain_afterRelease again)
  | releaseClose e again =>
    exact h.close hi hcall.1 (by rw [hp]; simp [closes]) (plain_afterRelease again)
  | swap reset =>
    dsimp only
    cases st.current with
    | none =>
      refine hplain _ _ ?_
      cases reset <;> cases cheapRebuild <;> exact {}
    | some e =>
      refine h.plain hi rfl (flags_set _ _ _ rfl rfl) ?_
      cases reset <;> cases cheapRebuild <;> exact {}
  | closeIdle e => exact hplain _ _ {}
  | mark e => exact h.mark hi hp (htimely hi e (by rw [hp]; rfl))
  | loadActive e =>
    dsimp only
    by_cases hzero : (st.epochs.get e).active = 0
    · rw [if_pos hzero]
      refine h.move hi ?_ nofun
      intro x hx hd
      have hor : Doomed st.epochs st.calls x ∨ Unused (moved st.calls i (.retireClose e)) x := by
        refine hd.back (fun ho => Or.inl ho) ?_ nofun fun _ _ _ hm => Or.inl hm
        intro hc
        have hxe : e = x := by simpa [closes] using hc
        subst hxe
        apply unused_of_no_users
        have hu := users_moved st.calls hi (.retireClose e) e
        have ha := hinv.active e hcall.1
        have hc' : (retireClose e).counted e = 0 := rfl
        omega
      exact hor.imp (fun hold => ⟨hx, hold⟩) id
    · rw [if_neg hzero]
      exact hplain _ _ {}
  | retireClose e =>
    exact h.close hi hcall.1 (by rw [hp]; simp [closes]) {}
  | returned => exact h

theorem safe_begin (h : Safe st) (hp : p.Plain) : Safe (st.begin p) := by
  intro e he hd
  have hold : ∀ j < st.calls.size, (st.begin p).calls.get j = st.calls.get j :=
    fun j hj => Table.get_push st.calls _ hj
  have hdoomed : Doomed st.epochs st.calls e := by
    rcases hd with hd | ⟨j, hj, hd⟩ | ⟨hm, j, hj, hd⟩
    · exact Or.inl hd
    · rcases Nat.lt_succ_iff_lt_or_eq.1 hj with hlt | rfl
      · exact Or.inr (Or.inl ⟨j, hlt, hold j hlt ▸ hd⟩)
      · simp [St.begin, hp.closes] at hd
    · rcases Nat.lt_succ_iff_lt_or_eq.1 hj with hlt | rfl
      · exact Or.inr (Or.inr ⟨hm, j, hlt, hold j hlt ▸ hd⟩)
      · simp [St.begin, hp.pending] at hd
  intro j hj
  exact Table.get_push_cases (P := fun c : Call => c.phase.uses e = false) st.calls hj (fun _ => hp.uses e)
    (h e he hdoomed j)

theorem safe_step (hinv : Inv st) (h : Safe st) (op : Op) (htimely : Timely st op) :
    Safe (step cheapRebuild st op) := by
  cases op with
  | roundTrip | reset | closeIdleConnections => exact safe_begin h {}
  | advance i ok =>
    unfold step
    dsimp only
    split_ifs with hi
    · exact safe_advance cheapRebuild hinv h hi ok htimely
    · exact h
  | closeBody i =>
    unfold step
    dsimp only
    split_ifs with hi
    · cases hp : (st.calls.get i).phase with
      | body e =>
        refine h.quiet hi rfl (flags_refl _) (fun _ => rfl) (fun _ => rfl) ?_
        intro x _ hu _
        rw [hp]
        simpa [uses] using hu
      | _ => exact h
    · exact h

def TimelyRun (cheapRebuild : Bool) : St → List Op → Prop
  | _, [] => True
  | st, op :: ops => Timely st op ∧ TimelyRun cheapRebuild (step cheapRebuild st op) ops

instance decidableTimelyRun (cheapRebuild : Bool) : ∀ (st : St) (ops : List Op), Decidable (TimelyRun cheapRebuild st ops)
  | _, [] => isTrue trivial
  | st, op :: ops =>
    have := decidableTimelyRun cheapRebuild (step cheapRebuild st op) ops
    inferInstanceAs (Decidable (Timely st op ∧ TimelyRun cheapRebuild (step cheapRebuild st op) ops))

/-- **Nobody uses what is closed**, in every interleaving of timely steps -/
theorem safe_run (ops : List Op) (htimely : TimelyRun cheapRebuild init ops) : Safe (run cheapRebuild ops) := by
  have hrun : ∀ (ops : List Op) (st : St), Inv st → Safe st → TimelyRun cheapRebuild st ops →
      Safe (ops.foldl (step cheapRebuild) st) := by
    intro ops
    induction ops with
    | nil =>
      intro st _ h _
      exact h
    | cons op ops ih =>
      intro st hinv h ht
      rw [List.foldl_cons]
      exact ih _ (inv_step cheapRebuild hinv op) (safe_step cheapRebuild hinv h op ht.1) ht.2
  exact hrun ops init inv_init (fun e he => absurd he (by simp [init])) htimely

/-! ## A mark that is not timely -/

def ClosedUnderUse (st : St) : Prop :=
  ∃ e < st.epochs.size, (st.epochs.get e).closed = 1 ∧ ∃ i < st.calls.size, (st.calls.get i).phase.uses e = true

theorem tryClose_calls (st : St) (e : ℕ) : (st.tryClose e).calls = st.calls := by
  rcases tryClose_eq st e with ⟨h, -⟩ | ⟨h, -⟩
  · rw [h]
  · rw [h]
    rfl

theorem tryClose_closeOnce (st : St) (e : ℕ) : ((st.tryClose e).epochs.get e).closeOnce := by
  rcases tryClose_eq st e with ⟨h, hc⟩ | ⟨h, -⟩
  · rw [h]
    exact hc
  · rw [h]
    simp [St.withEpoch]

theorem tryClose_size (st : St) (e : ℕ) : (st.tryClose e).epochs.size = st.epochs.size := by
  rcases tryClose_eq st e with ⟨h, -⟩ | ⟨h, -⟩
  · rw [h]
  · rw [h]
    rfl

/-- **An untimely mark closes the transport under the request**: the call that is about to look at the mark finds it -/
theorem untimely_mark_closes (hinv : Inv st) {i e : ℕ} (ok : Bool)
    (hi : i < st.calls.size) (hp : (st.calls.get i).phase = .mark e) (huse : ¬ Unused st.calls e)
    (hpend : ¬ ∀ j < st.calls.size, (st.calls.get j).phase.pending e = false) :
    ∃ j, ClosedUnderUse ([.advance i ok, .advance j ok, .advance j ok].foldl (step cheapRebuild) st) := by
  unfold Unused at huse
  push Not at huse hpend
  obtain ⟨u, hu, huse⟩ := huse
  obtain ⟨j, hj, hpend⟩ := hpend
  have huse : (st.calls.get u).phase.uses e := by simpa using huse
  have he : e < st.epochs.size := lt_of_counted (hinv.calls u hu).phase (by rw [counted_of_uses huse]; decide)
  obtain ⟨again, hpj⟩ : ∃ again, (st.calls.get j).phase = .loadMarked e again := by
    generalize (st.calls.get j).phase = p at hpend
    cases p with
    | loadMarked e' again =>
      have hee : e' = e := by simpa [pending] using hpend
      exact ⟨again, hee ▸ rfl⟩
    | _ => exact absurd rfl hpend
  have hji : j ≠ i := by
    intro h
    rw [h, hp] at hpj
    cases hpj
  have hui : u ≠ i := by
    intro h
    rw [h, hp] at huse
    cases huse
  have huj : u ≠ j := by
    intro h
    rw [h, hpj] at huse
    cases huse
  refine ⟨j, ?_⟩
  set st₁ : St := (st.withEpoch e { st.epochs.get e with marked := true }).goto i (.loadActive e) with hst₁
  have h₁ : step cheapRebuild st (.advance i ok) = st₁ := by
    simp only [step, if_pos hi, advance, hp]
    rfl
  have hpj₁ : (st₁.calls.get j).phase = .loadMarked e again := by
    rw [← hpj]
    exact congrArg Call.phase (get_moved_of_ne st.calls _ hji)
  set st₂ : St := st₁.goto j (.releaseClose e again) with hst₂
  have h₂ : step cheapRebuild st₁ (.advance j ok) = st₂ := by
    have hm : (st₁.epochs.get e).marked := by simp [hst₁, St.goto, St.withEpoch]
    have hj₁ : j < st₁.calls.size := hj
    simp only [step, if_pos hj₁, advance, hpj₁, if_pos hm]
    rfl
  have hpj₂ : (st₂.calls.get j).phase = .releaseClose e again := by
    have h := get_moved_self st₁.calls j (.releaseClose e again)
    exact congrArg Call.phase h
  have h₃ : step cheapRebuild st₂ (.advance j ok) = (st₂.tryClose e).goto j (afterRelease again) := by
    have hj₂ : j < st₂.calls.size := hj
    simp only [step, if_pos hj₂, advance, hpj₂]
  have hinv₃ : Inv ((st₂.tryClose e).goto j (afterRelease again)) := by
    rw [← h₃, ← h₂, ← h₁]
    exact inv_step _ (inv_step _ (inv_step _ hinv _) _) _
  simp only [List.foldl_cons, List.foldl_nil, h₁, h₂, h₃]
  have hsize : e < ((st₂.tryClose e).goto j (afterRelease again)).epochs.size := by
    change e < (st₂.tryClose e).epochs.size
    rw [tryClose_size]
    exact he
  refine ⟨e, hsize, ?_, u, ?_, ?_⟩
  · have hclosed := (hinv₃.epochs e hsize).closed
    have honce : (((st₂.tryClose e).goto j (afterRelease again)).epochs.get e).closeOnce :=
      tryClose_closeOnce st₂ e
    rw [honce] at hclosed
    exact hclosed
  · change u < (st₂.tryClose e).calls.size
    rw [tryClose_calls]
    exact hu
  · have hget : ((st₂.tryClose e).goto j (afterRelease again)).calls.get u = st.calls.get u := by
      calc ((st₂.tryClose e).goto j (afterRelease again)).calls.get u
          = (st₂.tryClose e).calls.get u := get_moved_of_ne _ _ huj
        _ = st₂.calls.get u := by rw [tryClose_calls]
        _ = st₁.calls.get u := get_moved_of_ne _ _ huj
        _ = st.calls.get u := get_moved_of_ne _ _ hui
    rw [hget]
    exact huse

/-! ## The contract -/

/-- the call that replaced the epoch has returned, no request uses it or is still leaving it, and no acquisition of it
is in progress -/
def Abandoned (st : St) (e : ℕ) : Prop :=
  ∀ i < st.calls.size, (st.calls.get i).phase.retires e = false ∧ (st.calls.get i).phase.uses e = false ∧
    (st.calls.get i).phase.finishes e = false ∧ (st.calls.get i).phase.acquires e = false

theorem counted_cases (h : p.counted e = 1) : p.uses e ∨ p.acquires e := by
  cases p with
  | verify e' => exact Or.inr (by simpa [acquires, counted] using h)
  | request e' | body e' => exact Or.inl (by simpa [uses, counted] using h)
  | release e' again =>
    cases again with
    | true => exact Or.inr (by simpa [acquires, counted] using h)
    | false => exact Or.inl (by simpa [uses, counted] using h)
  | _ => cases h

theorem Inv.closed_of_abandoned (h : Inv st) (he : e < st.epochs.size)
    (hr : (st.epochs.get e).replaced) (ha : Abandoned st e) : (st.epochs.get e).closed = 1 := by
  have honce : (st.epochs.get e).closeOnce := by
    rcases h.kept e he hr with hk | ⟨i, hi, hk⟩ | ⟨-, i, hi, hk⟩
    · exact hk
    · rw [(ha i hi).1] at hk
      cases hk
    · obtain ⟨-, hu, hf, hacq⟩ := ha i hi
      rcases hk with hk | hk
      · rcases counted_cases hk with hk | hk
        · rw [hu] at hk
          cases hk
        · rw [hacq] at hk
          cases hk
      · rw [hf] at hk
        cases hk
  have hclosed := (h.epochs e he).closed
  rw [honce] at hclosed
  exact hclosed

theorem Inv.not_before (h : Inv st) {i e : ℕ} (hi : i < st.calls.size)
    (hu : (st.calls.get i).phase.uses e) : (st.calls.get i).replacedBefore e = false := by
  have hcall := (h.calls i hi).phase
  generalize (st.calls.get i).phase = p at hu hcall
  cases p with
  | request e' | body e' =>
    have hee : e' = e := by simpa [uses] using hu
    exact hee ▸ hcall.2
  | release e' again =>
    cases again with
    | true => simp [uses] at hu
    | false =>
      have hee : e' = e := by simpa [uses] using hu
      exact hee ▸ hcall.2
  | _ => cases hu

/-- **The transports of a `ManagedTransport`**: each is closed at most once, and once it was replaced and abandoned; no
request is on one that was replaced before it began; none is closed under a request while every step is timely. -/
theorem transport_epochs (cheapRebuild : Bool) (ops : List Op) :
    (∀ e < (run cheapRebuild ops).epochs.size, ((run cheapRebuild ops).epochs.get e).closed ≤ 1) ∧
    (∀ e < (run cheapRebuild ops).epochs.size, ((run cheapRebuild ops).epochs.get e).replaced = true →
      Abandoned (run cheapRebuild ops) e → ((run cheapRebuild ops).epochs.get e).closed = 1) ∧
    (∀ i < (run cheapRebuild ops).calls.size, ∀ e, ((run cheapRebuild ops).calls.get i).phase.uses e = true →
      ((run cheapRebuild ops).calls.get i).replacedBefore e = false) ∧
    (TimelyRun cheapRebuild init ops → ¬ ClosedUnderUse (run cheapRebuild ops)) ∧
    (∀ op, ¬ Timely (run cheapRebuild ops) op → ∃ more, ClosedUnderUse (run cheapRebuild (ops ++ op :: more))) := by
  have hinv := inv_run cheapRebuild ops
  refine ⟨?_, ?_, ?_, ?_, ?_⟩
  · intro e he
    rw [(hinv.epochs e he).closed]
    split_ifs <;> omega
  · intro e he hr ha
    exact hinv.closed_of_abandoned he hr ha
  · intro i hi e hu
    exact hinv.not_before hi hu
  · intro htimely hbad
    obtain ⟨e, he, hclosed, i, hi, hu⟩ := hbad
    have honce : ((run cheapRebuild ops).epochs.get e).closeOnce = true := by
      have h := (hinv.epochs e he).closed
      rw [hclosed] at h
      by_contra hno
      rw [if_neg hno] at h
      cases h
    have hunused := safe_run cheapRebuild ops htimely e he (Or.inl honce) i hi
    rw [hu] at hunused
    cases hunused
  · intro op hnot
    cases op with
    | advance i ok =>
      unfold Timely at hnot
      push Not at hnot
      obtain ⟨hi, e, hmarks, huse, j, hj, hpend⟩ := hnot
      have hp : ((run cheapRebuild ops).calls.get i).phase = .mark e := by
        generalize ((run cheapRebuild ops).calls.get i).phase = p at hmarks
        cases p with
        | mark e' =>
          cases hmarks
          rfl
        | _ => cases hmarks
      obtain ⟨k, hbad⟩ := untimely_mark_closes cheapRebuild hinv ok hi hp huse fun hall => hpend (hall j hj)
      refine ⟨[.advance k ok, .advance k ok], ?_⟩
      unfold run
      rw [List.foldl_append]
      exact hbad
    | _ => exact absurd trivial hnot

def steps (i n : ℕ) : List Op := List.replicate n (.advance i true)

def replacedWhileOpen : List Op :=
  [[Op.roundTrip], steps 0 9, [Op.reset], steps 1 3].flatten

def closedWithBody : List Op :=
  [replacedWhileOpen, [Op.closeBody 0], steps 0 3].flatten

theorem transport_epochs_sample :
    ¬ ClosedUnderUse (run false replacedWhileOpen) ∧ ((run false replacedWhileOpen).calls.get 0).phase = .body 0 ∧
      ((run false replacedWhileOpen).epochs.get 0).replaced = true ∧
      ((run false closedWithBody).epochs.get 0).closed = 1 := by
  refine ⟨?_, by decide +kernel, by decide +kernel, by decide +kernel⟩
  exact (transport_epochs false replacedWhileOpen).2.2.2.1 (by decide +kernel)

def staleZero : List Op :=
  [[Op.roundTrip], steps 0 8, [Op.advance 0 false], steps 0 1, [Op.roundTrip], steps 1 3, [Op.reset], steps 2 2,
    steps 0 2].flatten

theorem closed_under_second_request :
    ClosedUnderUse (run false staleZero) ∧ ((run false staleZero).calls.get 1).phase = .request 0 ∧
      ((run false staleZero).epochs.get 0).active = 1 := by
  refine ⟨⟨0, by decide +kernel, by decide +kernel, 1, by decide +kernel, by decide +kernel⟩, by decide +kernel,
    by decide +kernel⟩

end EtonifyCore.ManagedTransport
