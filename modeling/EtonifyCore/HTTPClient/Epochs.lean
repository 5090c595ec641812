/-
The epochs of `ManagedTransport` over every interleaving (`inv_run`): the count of an epoch is the number of calls that have
counted themselves, an epoch is closed at most once, and one that was replaced is closed or has a call that will see to it
(`Kept`).
-/
import EtonifyCore.HTTPClient.ManagedTransport

namespace EtonifyCore.ManagedTransport

open Core (Table)
open Core.Table Phase

/-! ## The invariant -/

def Phase.owes (e : ℕ) (p : Phase) : Prop := p.counted e = 1 ∨ p.finishes e = true

def Builder.Ok (epochs : Table Epoch) : Builder → Prop
  | .reset (some e) => e < epochs.size ∧ (epochs.get e).replaced = true
  | _ => True

/-- what the next step of a call relies on; `before` are the epochs that were replaced when the call began -/
def Phase.Ok (epochs : Table Epoch) (before : ℕ → Bool) : Phase → Prop
  | .lock b | .loadAgain b | .factory b | .store b | .unlock b none => b.Ok epochs
  | .unlock b (some e) => b.Ok epochs ∧ e < epochs.size
  | .add e | .verify e | .release e true | .loadMarked e _ => e < epochs.size
  | .request e | .body e | .release e false => e < epochs.size ∧ before e = false
  | .releaseClose e _ | .loadActive e | .retireClose e => e < epochs.size ∧ (epochs.get e).marked = true
  | .closeIdle e | .mark e => e < epochs.size ∧ (epochs.get e).replaced = true
  | .load | .swap _ | .returned => True

structure CallOk (epochs : Table Epoch) (c : Call) : Prop where
  before : ∀ e, c.replacedBefore e = true → e < epochs.size ∧ (epochs.get e).replaced = true
  phase : c.phase.Ok epochs c.replacedBefore

structure EpochOk (epoch : Epoch) : Prop where
  marked : epoch.marked = true → epoch.replaced = true
  closeOnce : epoch.closeOnce = true → epoch.marked = true
  closed : epoch.closed = if epoch.closeOnce then 1 else 0

/-- the epoch is closed, or the call that replaced it is not done with it, or the last one to leave will close it -/
def Kept (epochs : Table Epoch) (calls : Table Call) (e : ℕ) : Prop :=
  (epochs.get e).closeOnce = true ∨ (∃ i < calls.size, (calls.get i).phase.retires e = true) ∨
    ((epochs.get e).marked = true ∧ ∃ i < calls.size, (calls.get i).phase.owes e)

def users (calls : Table Call) (e : ℕ) : ℕ := calls.total fun c => c.phase.counted e

structure Inv (st : St) : Prop where
  current : ∀ e, st.current = some e → e < st.epochs.size ∧ (st.epochs.get e).replaced = false
  calls : ∀ i < st.calls.size, CallOk st.epochs (st.calls.get i)
  active : ∀ e < st.epochs.size, (st.epochs.get e).active = users st.calls e
  epochs : ∀ e < st.epochs.size, EpochOk (st.epochs.get e)
  kept : ∀ e < st.epochs.size, (st.epochs.get e).replaced = true → Kept st.epochs st.calls e

structure Rises (a b : Epoch) : Prop where
  replaced : a.replaced = true → b.replaced = true
  marked : a.marked = true → b.marked = true
  closeOnce : a.closeOnce = true → b.closeOnce = true

structure Grows (epochs epochs' : Table Epoch) : Prop where
  size : epochs.size ≤ epochs'.size
  rises : ∀ e < epochs.size, Rises (epochs.get e) (epochs'.get e)

theorem Rises.refl (a : Epoch) : Rises a a := ⟨id, id, id⟩

theorem Grows.refl (epochs : Table Epoch) : Grows epochs epochs := ⟨le_refl _, fun _ _ => Rises.refl _⟩

theorem Grows.push (epochs : Table Epoch) (epoch : Epoch) : Grows epochs (epochs.push epoch) := by
  refine ⟨by simp, ?_⟩
  intro e he
  rw [get_push _ _ he]
  exact Rises.refl _

variable {e : ℕ}

theorem Grows.set (epochs : Table Epoch) {epoch : Epoch} (h : Rises (epochs.get e) epoch) :
    Grows epochs (epochs.set e epoch) := by
  refine ⟨by simp, ?_⟩
  intro j _
  exact get_set_cases (P := fun x : Epoch => Rises (epochs.get j) x) epochs (fun hj => hj ▸ h)
    fun _ => Rises.refl _

variable {epochs epochs' : Table Epoch} {b : Builder}

theorem Builder.Ok.grows (hg : Grows epochs epochs') (h : b.Ok epochs) : b.Ok epochs' := by
  cases b with
  | getEpoch => trivial
  | reset old =>
    cases old with
    | none => trivial
    | some e => exact ⟨Nat.lt_of_lt_of_le h.1 hg.size, (hg.rises e h.1).replaced h.2⟩

variable {p : Phase}

variable {before : ℕ → Bool}

theorem Phase.Ok.grows (hg : Grows epochs epochs') (h : p.Ok epochs before) : p.Ok epochs' before := by
  unfold Phase.Ok at h ⊢
  split at h
  all_goals first
    | exact Builder.Ok.grows hg h
    | exact ⟨Builder.Ok.grows hg h.1, Nat.lt_of_lt_of_le h.2 hg.size⟩
    | exact Nat.lt_of_lt_of_le h hg.size
    | exact ⟨Nat.lt_of_lt_of_le h.1 hg.size, h.2⟩
    | exact ⟨Nat.lt_of_lt_of_le h.1 hg.size, (hg.rises _ h.1).marked h.2⟩
    | exact ⟨Nat.lt_of_lt_of_le h.1 hg.size, (hg.rises _ h.1).replaced h.2⟩
    | trivial

theorem CallOk.grows (hg : Grows epochs epochs') {c : Call} (h : CallOk epochs c) : CallOk epochs' c := by
  refine ⟨?_, h.phase.grows hg⟩
  intro e he
  obtain ⟨hlt, hr⟩ := h.before e he
  exact ⟨Nat.lt_of_lt_of_le hlt hg.size, (hg.rises e hlt).replaced hr⟩

/-! ## One call moves -/

def moved (calls : Table Call) (i : ℕ) (p : Phase) : Table Call := calls.set i { calls.get i with phase := p }

@[simp] theorem get_moved_self (calls : Table Call) (i : ℕ) (p : Phase) :
    (moved calls i p).get i = { calls.get i with phase := p } := get_set_self _ _ _

theorem get_moved_of_ne (calls : Table Call) {i j : ℕ} (p : Phase) (h : j ≠ i) :
    (moved calls i p).get j = calls.get j := get_set_of_ne _ _ h

variable {i : ℕ}

theorem users_moved (calls : Table Call) (hi : i < calls.size) (p : Phase) (e : ℕ) :
    users (moved calls i p) e + (calls.get i).phase.counted e = users calls e + p.counted e :=
  total_set calls (fun c => c.phase.counted e) { calls.get i with phase := p } hi

variable {calls : Table Call}

theorem one_le_users {i e : ℕ} (hi : i < calls.size) (h : (calls.get i).phase.counted e = 1) : 1 ≤ users calls e := by
  have hle := le_total calls (fun c => c.phase.counted e) hi
  rw [h] at hle
  exact hle

theorem counted_le_one (e : ℕ) (p : Phase) : p.counted e ≤ 1 := by
  unfold counted
  split <;> first | (split_ifs <;> omega) | omega

theorem exists_counted (h : 0 < users calls e) : ∃ i < calls.size, (calls.get i).phase.counted e = 1 := by
  obtain ⟨i, hi, hpos⟩ := exists_of_total_pos calls (fun c => c.phase.counted e) h
  have hle := counted_le_one e (calls.get i).phase
  exact ⟨i, hi, by omega⟩

theorem Kept.move {i e : ℕ} (h : Kept epochs calls e)
    (hi : i < calls.size) (hrise : Rises (epochs.get e) (epochs'.get e))
    (hret : (calls.get i).phase.retires e → p.retires e ∨ Kept epochs' (moved calls i p) e)
    (howe : (epochs.get e).marked → (calls.get i).phase.owes e →
      p.owes e ∨ Kept epochs' (moved calls i p) e) : Kept epochs' (moved calls i p) e := by
  rcases h with h | ⟨j, hj, h⟩ | ⟨hm, j, hj, h⟩
  · exact Or.inl (hrise.closeOnce h)
  · by_cases hji : j = i
    · subst hji
      rcases hret h with hp | hk
      · exact Or.inr (Or.inl ⟨j, hj, by simpa using hp⟩)
      · exact hk
    · exact Or.inr (Or.inl ⟨j, hj, by rw [get_moved_of_ne _ _ hji]; exact h⟩)
  · by_cases hji : j = i
    · subst hji
      rcases howe hm h with hp | hk
      · exact Or.inr (Or.inr ⟨hrise.marked hm, j, hj, by simpa using hp⟩)
      · exact hk
    · exact Or.inr (Or.inr ⟨hrise.marked hm, j, hj, by rw [get_moved_of_ne _ _ hji]; exact h⟩)

theorem calls_moved
    (h : ∀ j < calls.size, CallOk epochs (calls.get j)) (hi : i < calls.size) (hg : Grows epochs epochs')
    (hp : p.Ok epochs' (calls.get i).replacedBefore) :
    ∀ j < (moved calls i p).size, CallOk epochs' ((moved calls i p).get j) := by
  intro j hj
  by_cases hji : j = i
  · subst hji
    rw [get_moved_self]
    exact ⟨((h j hi).grows hg).before, hp⟩
  · rw [get_moved_of_ne _ _ hji]
    exact (h j hj).grows hg

variable {st : St}

theorem Inv.goto (h : Inv st) (hi : i < st.calls.size) {q : Phase} (hq : (st.calls.get i).phase = q) (lock : Option ℕ)
    (hok : p.Ok st.epochs (st.calls.get i).replacedBefore) (hcount : ∀ e, p.counted e = q.counted e)
    (hret : ∀ e, q.retires e → p.retires e ∨ Kept st.epochs (moved st.calls i p) e)
    (howe : ∀ e, (st.epochs.get e).marked → q.owes e → p.owes e ∨ Kept st.epochs (moved st.calls i p) e) :
    Inv ({ st with rebuildAccess := lock }.goto i p) := by
  subst hq
  refine ⟨h.current, calls_moved h.calls hi (Grows.refl _) hok, ?_, h.epochs, ?_⟩
  · intro e he
    have hu := users_moved st.calls hi p e
    rw [hcount e] at hu
    have hsame : users (moved st.calls i p) e = users st.calls e := by omega
    change (st.epochs.get e).active = (users (moved st.calls i p) e : ℕ)
    rw [hsame]
    exact h.active e he
  · intro e he hr
    exact (h.kept e he hr).move hi (Rises.refl _) (hret e) (howe e)

theorem Inv.update (h : Inv st) (hi : i < st.calls.size) {q : Phase} (hq : (st.calls.get i).phase = q)
    (he : e < st.epochs.size) {epoch : Epoch} {current : Option ℕ} (hrise : Rises (st.epochs.get e) epoch)
    (hepoch : EpochOk epoch)
    (hcurrent : current = none ∨ current = st.current ∧ epoch.replaced = (st.epochs.get e).replaced)
    (hok : p.Ok (st.epochs.set e epoch) (st.calls.get i).replacedBefore)
    (hactive : epoch.active + q.counted e = (st.epochs.get e).active + p.counted e)
    (hcount : ∀ x, x ≠ e → p.counted x = q.counted x)
    (hret : ∀ x, x ≠ e → q.retires x → p.retires x) (howe : ∀ x, x ≠ e → q.owes x → p.owes x)
    (hkept : epoch.replaced → Kept (st.epochs.set e epoch) (moved st.calls i p) e) :
    Inv (({ st with current }.withEpoch e epoch).goto i p) := by
  subst hq
  have hg : Grows st.epochs (st.epochs.set e epoch) := Grows.set _ hrise
  refine ⟨?_, calls_moved h.calls hi hg hok, ?_, ?_, ?_⟩
  · rintro x rfl
    rcases hcurrent with hnone | ⟨hsame, hr⟩
    · cases hnone
    obtain ⟨hlt, hopen⟩ := h.current x hsame.symm
    exact ⟨hlt, get_set_cases (P := fun a : Epoch => a.replaced = false) _ (fun hxe => hr.trans (hxe ▸ hopen))
      fun _ => hopen⟩
  · intro x hx
    have hu := users_moved st.calls hi p x
    change ((st.epochs.set e epoch).get x).active = (users (moved st.calls i p) x : ℕ)
    by_cases hxe : x = e
    · subst hxe
      have ha := h.active x he
      rw [get_set_self]
      omega
    · have ha := h.active x hx
      have hc := hcount x hxe
      rw [get_set_of_ne _ _ hxe]
      omega
  · intro x hx
    exact get_set_cases (P := EpochOk) _ (fun _ => hepoch) fun _ => h.epochs x hx
  · intro x hx hr
    by_cases hxe : x = e
    · subst hxe
      refine hkept ?_
      simpa [St.goto, St.withEpoch] using hr
    · have hget : (st.epochs.set e epoch).get x = st.epochs.get x := get_set_of_ne _ _ hxe
      have hr' : (st.epochs.get x).replaced := by
        rw [← hget]
        exact hr
      exact (h.kept x hx hr').move hi (hg.rises x hx) (fun hold => Or.inl (hret x hxe hold))
        fun _ hold => Or.inl (howe x hxe hold)

theorem tryClose_eq (st : St) (e : ℕ) : st.tryClose e = st ∧ (st.epochs.get e).closeOnce ∨
      st.tryClose e = st.withEpoch e { st.epochs.get e with closeOnce := true, closed := (st.epochs.get e).closed + 1 } ∧
        (st.epochs.get e).closeOnce = false := by
  unfold St.tryClose
  dsimp only
  by_cases h : (st.epochs.get e).closeOnce
  · exact Or.inl ⟨if_pos h, h⟩
  · exact Or.inr ⟨if_neg h, by simpa using h⟩

theorem Inv.close (h : Inv st) (hi : i < st.calls.size) {q : Phase} (hq : (st.calls.get i).phase = q)
    (he : e < st.epochs.size) (hmarked : (st.epochs.get e).marked) (hok : ∀ epochs before, p.Ok epochs before)
    (hcount : ∀ x, p.counted x = q.counted x) (hret : ∀ x, x ≠ e → ¬q.retires x)
    (howe : ∀ x, x ≠ e → ¬q.owes x) : Inv ((st.tryClose e).goto i p) := by
  have hepoch := h.epochs e he
  rcases tryClose_eq st e with ⟨heq, hclosed⟩ | ⟨heq, hopen⟩
  · rw [heq]
    have hdone : ∀ x, x = e → Kept st.epochs (moved st.calls i p) x := fun x hx => Or.inl (hx ▸ hclosed)
    refine h.goto hi hq st.rebuildAccess (hok _ _) hcount ?_ ?_
    · intro x hx
      exact Or.inr (hdone x (by_contra fun hxe => hret x hxe hx))
    · intro x _ hx
      exact Or.inr (hdone x (by_contra fun hxe => howe x hxe hx))
  · rw [heq]
    refine h.update hi hq he ⟨id, id, fun _ => rfl⟩ ⟨hepoch.marked, fun _ => hmarked, ?_⟩ (.inr ⟨rfl, rfl⟩) (hok _ _)
      (by rw [hcount]) (fun x _ => hcount x) (fun x hxe hx => absurd hx (hret x hxe))
      (fun x hxe hx => absurd hx (howe x hxe)) fun _ => Or.inl (by simp)
    have hzero := hepoch.closed
    rw [hopen] at hzero
    simpa using hzero

/-! ## The invariant over one step -/

variable {epochs : Table Epoch}

theorem kept_of_users (hmarked : (epochs.get e).marked) (h : 0 < users calls e) : Kept epochs calls e := by
  obtain ⟨j, hj, hc⟩ := exists_counted h
  exact Or.inr (Or.inr ⟨hmarked, j, hj, Or.inl hc⟩)

theorem lt_of_counted (h : p.Ok epochs before) (hc : p.counted e ≠ 0) : e < epochs.size := by
  cases p with
  | verify e' | request e' | body e' => simp_all [counted, Phase.Ok]
  | release e' again => cases again <;> simp_all [counted, Phase.Ok]
  | _ => exact absurd rfl hc

structure Phase.Same (q p : Phase) : Prop where
  counted : ∀ e, p.counted e = q.counted e := by exact fun _ => rfl
  retires : ∀ e, q.retires e = true → p.retires e = true := by exact fun _ hx => hx
  finishes : ∀ e, q.finishes e = true → p.finishes e = true := by exact fun _ hx => hx

section

variable (h : Inv st)
include h

theorem Inv.users_new : users st.calls st.epochs.size = 0 := by
  refine total_eq_zero _ _ ?_
  intro j hj
  by_contra hc
  exact Nat.lt_irrefl _ (lt_of_counted (h.calls j hj).phase hc)

section

variable (hi : i < st.calls.size)
include hi

theorem Inv.store (hp : (st.calls.get i).phase = .store b) :
    Inv ({ st with epochs := st.epochs.push default, current := some st.epochs.size }.goto i
      (.unlock b (some st.epochs.size))) := by
  have hg : Grows st.epochs (st.epochs.push default) := Grows.push _ _
  have hcall := (h.calls i hi).phase.grows hg
  rw [hp] at hcall
  have hsize : st.epochs.size < (st.epochs.push default).size := Nat.lt_succ_self _
  refine ⟨?_, calls_moved h.calls hi hg ?_, ?_, ?_, ?_⟩
  · intro x hx
    cases hx
    refine ⟨hsize, ?_⟩
    change ((st.epochs.push default).get st.epochs.size).replaced = false
    rw [get_push_size]
    rfl
  · exact ⟨hcall, hsize⟩
  · intro x hx
    have hu := users_moved st.calls hi (.unlock b (some st.epochs.size)) x
    rw [hp] at hu
    have hsame : users (moved st.calls i (.unlock b (some st.epochs.size))) x = users st.calls x := hu
    change ((st.epochs.push default).get x).active = (users (moved st.calls i _) x : ℕ)
    rw [hsame]
    refine get_push_cases (P := fun a : Epoch => a.active = users st.calls x) st.epochs hx ?_ (h.active x)
    intro hx
    rw [hx, h.users_new]
    rfl
  · intro x hx
    exact get_push_cases (P := EpochOk) st.epochs hx (fun _ => ⟨nofun, nofun, rfl⟩) (h.epochs x)
  · intro x hx hr
    rcases Nat.lt_succ_iff_lt_or_eq.1 hx with hlt | rfl
    · have hr' : (st.epochs.get x).replaced := by
        rw [← get_push st.epochs default hlt]
        exact hr
      refine (h.kept x hlt hr').move hi (hg.rises x hlt) ?_ ?_
      · intro hret
        rw [hp] at hret
        exact Or.inl hret
      · intro _ howe
        rw [hp] at howe
        exact absurd howe (by simp [owes, counted, finishes])
    · change ((st.epochs.push default).get st.epochs.size).replaced at hr
      rw [get_push_size] at hr
      cases hr

theorem Inv.quiet {q p : Phase} (hq : (st.calls.get i).phase = q) (lock : Option ℕ)
    (hok : p.Ok st.epochs (st.calls.get i).replacedBefore) (hs : q.Same p) : Inv ({ st with rebuildAccess := lock }.goto i p) := by
  refine h.goto hi hq lock hok hs.counted (fun e he => Or.inl (hs.retires e he)) ?_
  intro e _ he
  refine Or.inl ?_
  rcases he with he | he
  · exact Or.inl ((hs.counted e).trans he)
  · exact Or.inr (hs.finishes e he)

theorem Inv.add (hp : (st.calls.get i).phase = .add e) :
    Inv ((st.withEpoch e { st.epochs.get e with active := (st.epochs.get e).active + 1 }).goto i (.verify e)) := by
  have hcall := (h.calls i hi).phase
  rw [hp] at hcall
  have he : e < st.epochs.size := hcall
  have hepoch := h.epochs e he
  refine h.update hi hp he ⟨id, id, id⟩ ⟨hepoch.marked, hepoch.closeOnce, hepoch.closed⟩ (.inr ⟨rfl, rfl⟩) hcall
    (by simp [counted]) (fun x hxe => by simp [counted, Ne.symm hxe]) nofun
    (fun x _ hx => absurd hx (by simp [owes, counted, finishes])) ?_
  intro hr
  refine (h.kept e he hr).move hi (by simpa using ⟨id, id, id⟩) ?_ ?_
  · rw [hp]
    nofun
  · intro _ hx
    exact Or.inl (Or.inl (by simp [counted]))

theorem Inv.release {again : Bool} (hp : (st.calls.get i).phase = .release e again)
    (hok : p.Ok st.epochs (st.calls.get i).replacedBefore) (hcount : ∀ x, p.counted x = 0)
    (hlast : (st.epochs.get e).active - 1 = 0 → p.finishes e) :
    Inv ((st.withEpoch e { st.epochs.get e with active := (st.epochs.get e).active - 1 }).goto i p) := by
  have hcall := (h.calls i hi).phase
  have hcounted : (st.calls.get i).phase.counted e = 1 := by simp [hp, counted]
  have he : e < st.epochs.size := lt_of_counted hcall (by rw [hcounted]; decide)
  have hepoch := h.epochs e he
  have hrise : Rises (st.epochs.get e) { st.epochs.get e with active := (st.epochs.get e).active - 1 } := ⟨id, id, id⟩
  refine h.update hi hp he hrise ⟨hepoch.marked, hepoch.closeOnce, hepoch.closed⟩ (.inr ⟨rfl, rfl⟩)
    (hok.grows (Grows.set _ hrise)) ?_ (fun x hxe => by rw [hcount]; simp [counted, Ne.symm hxe]) nofun
    (fun x hxe hx => absurd hx (by simp [owes, counted, finishes, Ne.symm hxe])) ?_
  · rw [← hp, hcounted, hcount]
    push_cast
    ring
  · intro hr
    refine (h.kept e he hr).move hi (by simpa using hrise) ?_ ?_
    · rw [hp]
      nofun
    · intro hm _
      by_cases hzero : (st.epochs.get e).active - 1 = 0
      · exact Or.inl (Or.inr (hlast hzero))
      · -- somebody else has counted itself
        refine Or.inr (kept_of_users (by simpa using hm) ?_)
        have hu := users_moved st.calls hi p e
        have ha := h.active e he
        rw [hcounted, hcount] at hu
        omega

theorem Inv.mark (hp : (st.calls.get i).phase = .mark e) :
    Inv ((st.withEpoch e { st.epochs.get e with marked := true }).goto i (.loadActive e)) := by
  have hcall := (h.calls i hi).phase
  rw [hp] at hcall
  obtain ⟨he, hr⟩ : e < st.epochs.size ∧ (st.epochs.get e).replaced := hcall
  have hepoch := h.epochs e he
  exact h.update hi hp he ⟨id, fun _ => rfl, id⟩ ⟨fun _ => hr, fun _ => rfl, hepoch.closed⟩ (.inr ⟨rfl, rfl⟩)
    ⟨he, by simp⟩ rfl (fun _ _ => rfl) (fun x hxe hx => absurd hx (by simpa [Phase.retires] using Ne.symm hxe))
    (fun x _ hx => absurd hx (by simp [owes, counted, finishes]))
    fun _ => Or.inr (Or.inl ⟨i, hi, by simp [Phase.retires]⟩)

theorem Inv.swap {reset : Bool} (hp : (st.calls.get i).phase = .swap reset) (hcur : st.current = some e)
    (hok : ∀ epochs : Table Epoch, e < epochs.size ∧ (epochs.get e).replaced →
      p.Ok epochs (st.calls.get i).replacedBefore) (hcount : ∀ x, p.counted x = 0) (hret : p.retires e) :
    Inv (({ st with current := none }.withEpoch e { st.epochs.get e with replaced := true }).goto i p) := by
  obtain ⟨he, -⟩ := h.current e hcur
  have hepoch := h.epochs e he
  exact h.update hi hp he ⟨fun _ => rfl, id, id⟩ ⟨fun _ => rfl, hepoch.closeOnce, hepoch.closed⟩ (.inl rfl)
    (hok _ ⟨he, by simp⟩) (by rw [hcount]; rfl) (fun x _ => hcount x) nofun
    (fun x _ hx => absurd hx (by simp [owes, counted, finishes])) fun _ => Or.inr (Or.inl ⟨i, hi, by simpa using hret⟩)

end

end

theorem afterRelease_ok (again : Bool) (epochs : Table Epoch) (before : ℕ → Bool) :
    (afterRelease again).Ok epochs before := by
  cases again <;> trivial

theorem afterRelease_counted (again : Bool) (e : ℕ) : (afterRelease again).counted e = 0 := by
  cases again <;> rfl

theorem afterUnlock_retires {epoch : Option ℕ} (h : (unlock b epoch).retires e) : (afterUnlock b epoch).retires e := by
  cases b with
  | getEpoch => cases h
  | reset old =>
    have hold : old = some e := by simpa [Phase.retires, Builder.retires] using h
    subst hold
    simp [afterUnlock, retire, Phase.retires]

theorem afterUnlock_ok {epoch : Option ℕ}
    (h : (unlock b epoch).Ok epochs before) : (afterUnlock b epoch).Ok epochs before := by
  cases b with
  | getEpoch =>
    cases epoch with
    | none => trivial
    | some e => exact h.2
  | reset old =>
    cases old with
    | none => trivial
    | some e =>
      cases epoch with
      | none => exact h
      | some e' => exact h.1

theorem afterUnlock_counted (b : Builder) (epoch : Option ℕ) (e : ℕ) : (afterUnlock b epoch).counted e = 0 := by
  cases b with
  | getEpoch => cases epoch <;> rfl
  | reset old => cases old <;> rfl

theorem inv_advance (cheapRebuild : Bool) (h : Inv st) (hi : i < st.calls.size) (ok : Bool) :
    Inv (advance cheapRebuild st i ok) := by
  have hcall := (h.calls i hi).phase
  unfold advance
  generalize hp : (st.calls.get i).phase = phase at hcall ⊢
  cases phase with
  | load =>
    dsimp only
    cases hcur : st.current with
    | none => exact h.quiet hi hp st.rebuildAccess trivial {}
    | some e => exact h.quiet hi hp st.rebuildAccess (h.current e hcur).1 {}
  | lock b =>
    dsimp only
    cases hlock : st.rebuildAccess with
    | some j => exact h
    | none => exact h.quiet hi hp (some i) hcall {}
  | loadAgain b =>
    dsimp only
    cases hcur : st.current with
    | some e => exact h.quiet hi hp st.rebuildAccess ⟨hcall, (h.current e hcur).1⟩ {}
    | none => exact h.quiet hi hp st.rebuildAccess hcall {}
  | factory b =>
    cases ok with
    | true | false => exact h.quiet hi hp st.rebuildAccess hcall {}
  | store b => exact h.store hi hp
  | unlock b epoch =>
    exact h.quiet hi hp none (afterUnlock_ok hcall) ⟨afterUnlock_counted b epoch, fun _ => afterUnlock_retires, nofun⟩
  | add e => exact h.add hi hp
  | verify e =>
    dsimp only
    by_cases hcur : st.current = some e
    · rw [if_pos hcur]
      refine h.quiet hi hp st.rebuildAccess ⟨hcall, ?_⟩ {}
      -- what is current now had not been replaced before
      cases hbefore : (st.calls.get i).replacedBefore e with
      | false => rfl
      | true =>
        have hr := ((h.calls i hi).before e hbefore).2
        rw [(h.current e hcur).2] at hr
        cases hr
    · rw [if_neg hcur]
      exact h.quiet hi hp st.rebuildAccess hcall {}
  | request e =>
    cases ok with
    | true | false => exact h.quiet hi hp st.rebuildAccess hcall {}
  | body e => exact h
  | release e again =>
    have he : e < st.epochs.size := lt_of_counted hcall (by simp [counted])
    dsimp only
    by_cases hzero : (st.epochs.get e).active - 1 = 0
    · rw [if_pos hzero]
      exact h.release hi hp he (fun _ => rfl) fun _ => by simp [finishes]
    · rw [if_neg hzero]
      exact h.release hi hp (afterRelease_ok _ _ _) (afterRelease_counted _) fun hz => absurd hz hzero
  | loadMarked e again =>
    dsimp only
    by_cases hmarked : (st.epochs.get e).marked
    · rw [if_pos hmarked]
      exact h.quiet hi hp st.rebuildAccess ⟨hcall, hmarked⟩ {}
    · rw [if_neg hmarked]
      refine h.goto hi hp st.rebuildAccess (afterRelease_ok _ _ _) (afterRelease_counted again) nofun ?_
      intro x hm hx
      have hxe : e = x := by simpa [owes, counted, finishes] using hx
      exact absurd (hxe ▸ hm) hmarked
  | releaseClose e again =>
    exact h.close hi hp hcall.1 hcall.2 (afterRelease_ok again) (afterRelease_counted again) nofun
      fun x hxe hx => absurd hx (by simpa [owes, counted, finishes] using Ne.symm hxe)
  | swap reset =>
    dsimp only
    cases hcur : st.current with
    | none =>
      refine h.quiet hi hp st.rebuildAccess ?_ ⟨?_, nofun, nofun⟩
      · cases reset <;> cases cheapRebuild <;> trivial
      · intro x
        cases reset <;> cases cheapRebuild <;> rfl
    | some e =>
      refine h.swap hi hp hcur ?_ ?_ ?_
      · intro epochs he
        cases reset <;> cases cheapRebuild <;> exact he
      · intro x
        cases reset <;> cases cheapRebuild <;> rfl
      · cases reset <;> cases cheapRebuild <;> simp [afterSwap, retire, Phase.retires, Builder.retires]
  | closeIdle e =>
    exact h.quiet hi hp st.rebuildAccess hcall {}
  | mark e => exact h.mark hi hp
  | loadActive e =>
    dsimp only
    by_cases hzero : (st.epochs.get e).active = 0
    · rw [if_pos hzero]
      exact h.quiet hi hp st.rebuildAccess hcall {}
    · rw [if_neg hzero]
      refine h.goto hi hp st.rebuildAccess trivial (fun _ => rfl) ?_ fun x _ hx => absurd hx (by simp [owes, counted, finishes])
      intro x hx
      have hxe : e = x := by simpa [Phase.retires] using hx
      subst hxe
      -- the calls that are still active will close it
      refine Or.inr (kept_of_users hcall.2 ?_)
      have hu := users_moved st.calls hi .returned e
      have ha := h.active e hcall.1
      have hc : (st.calls.get i).phase.counted e = 0 := by
        rw [hp]
        rfl
      rw [hc] at hu
      omega
  | retireClose e =>
    exact h.close hi hp hcall.1 hcall.2 (fun _ _ => trivial) (fun _ => rfl)
      (fun x hxe hx => absurd hx (by simpa [Phase.retires] using Ne.symm hxe))
      fun x _ hx => absurd hx (by simp [owes, counted, finishes])
  | returned => exact h

theorem Inv.begin (h : Inv st) (hok : ∀ epochs before, p.Ok epochs before)
    (hcount : ∀ e, p.counted e = 0) : Inv (st.begin p) := by
  refine ⟨h.current, ?_, ?_, h.epochs, ?_⟩
  · intro j hj
    refine get_push_cases (P := CallOk st.epochs) st.calls hj ?_ (h.calls j)
    intro _
    refine ⟨?_, hok _ _⟩
    intro e he
    simpa using he
  · intro e he
    have hu : users (st.begin p).calls e = users st.calls e := by
      have hpush := total_push st.calls (fun c => c.phase.counted e)
        ⟨p, fun e => decide (e < st.epochs.size) && (st.epochs.get e).replaced⟩
      dsimp only at hpush
      rw [hcount e] at hpush
      exact hpush
    rw [hu]
    exact h.active e he
  · intro e he hr
    have hold : ∀ j < st.calls.size, (st.begin p).calls.get j = st.calls.get j := fun j hj => get_push st.calls _ hj
    rcases h.kept e he hr with hk | ⟨j, hj, hk⟩ | ⟨hm, j, hj, hk⟩
    · exact Or.inl hk
    · exact Or.inr (Or.inl ⟨j, Nat.lt_succ_of_lt hj, by rw [hold j hj]; exact hk⟩)
    · exact Or.inr (Or.inr ⟨hm, j, Nat.lt_succ_of_lt hj, by rw [hold j hj]; exact hk⟩)

theorem inv_step (cheapRebuild : Bool) (h : Inv st) (op : Op) : Inv (step cheapRebuild st op) := by
  cases op with
  | roundTrip | reset | closeIdleConnections => exact h.begin (fun _ _ => trivial) fun _ => rfl
  | advance i ok =>
    unfold step
    dsimp only
    split_ifs with hi
    · exact inv_advance cheapRebuild h hi ok
    · exact h
  | closeBody i =>
    unfold step
    dsimp only
    split_ifs with hi
    · cases hp : (st.calls.get i).phase with
      | body e =>
        have hcall := (h.calls i hi).phase
        rw [hp] at hcall
        exact h.quiet hi hp st.rebuildAccess hcall {}
      | _ => exact h
    · exact h

theorem inv_init : Inv init := ⟨nofun, fun _ hi => absurd hi (by simp [init]), fun _ he => absurd he (by simp [init]),
    fun _ he => absurd he (by simp [init]), fun _ he => absurd he (by simp [init])⟩

theorem inv_run (cheapRebuild : Bool) (ops : List Op) : Inv (run cheapRebuild ops) :=
  List.foldlRecOn (motive := Inv) ops (step cheapRebuild) inv_init fun _ h op _ => inv_step cheapRebuild h op

end EtonifyCore.ManagedTransport
