/-
What lifecycle scopes guarantee, for every interleaving of `Add`, `Start` and `Close`.

An entry waits in one place, then it runs, then it has ended. `waiting` and `begun` count these places; their sum is one for
every entry that was registered (`Inv.once`).
-/
import EtonifyCore.Lifecycle.Scope

namespace EtonifyCore.Lifecycle

open List
open Core (Table)
open Core.Table

/-! ## Where a cleanup is -/

def Closing.running (K : Closing) : List Entry := (K.current.map Running.entry).toList

def Late.count (phase : LatePhase) (e : Entry) (L : Late) : ℕ := if L.phase = phase ∧ .cleanup L.id = e then 1 else 0

namespace St

def waiting (s : St) (e : Entry) : ℕ :=
  s.scopes.total (·.cleanups.count e) + s.closings.total (·.todo.count e) + s.lates.total (Late.count .waiting e)

def begun (s : St) (e : Entry) : ℕ :=
  s.closings.total (·.running.count e) + s.lates.total (Late.count .running e) + s.ended.count e

def Known (s : St) : Entry → Prop
  | .cleanup id => id < s.homes.size
  | .child c => 0 < c ∧ c < s.scopes.size

instance (s : St) (e : Entry) : Decidable (s.Known e) := by
  cases e <;> unfold Known <;> infer_instance

def home (s : St) : Entry → ℕ
  | .cleanup id => s.homes.get id
  | .child c => (s.scopes.get c).parent

structure ScopeInv (s : St) (c : ℕ) (S : Scope) : Prop where
  opened : S.closed = false → S.cleanups = S.registered
  closed : S.closed = true → S.cleanups = [] ∧ S.cancelled = true
  registered : ∀ e ∈ S.registered, s.Known e ∧ s.home e = c

structure ClosingInv (s : St) (K : Closing) : Prop where
  scope : K.scope < s.scopes.size
  closed : (s.scopes.get K.scope).closed = true
  taken : ∀ e ∈ K.taken, e ∈ (s.scopes.get K.scope).registered
  split : K.taken = K.todo ++ K.running ++ (K.ran.map Prod.fst).reverse
  ended : ∀ e ∈ K.ran.map Prod.fst, e ∈ s.ended
  result : K.result ≠ none → K.todo = [] ∧ K.current = none
  errors : K.cleanupErrors = K.ran.flatMap fun p => (p.2.map expand).getD []
  error : ∀ r, K.result = some r → r = K.closeError

structure StartInv (s : St) (r : Starting) : Prop where
  scope : r.scope < s.scopes.size
  started : ∀ error, r.phase = .started error true → (s.scopes.get r.scope).cancelled = true
  returned : ∀ cancelled, r.phase = .returned none cancelled → cancelled = false

structure Inv (s : St) : Prop where
  once : ∀ e, s.waiting e + s.begun e = if s.Known e then 1 else 0
  homed : ∀ id < s.homes.size, s.homes.get id < s.scopes.size
  parent : ∀ c < s.scopes.size, 0 < c → (s.scopes.get c).parent < c
  scope : ∀ c < s.scopes.size, s.ScopeInv c (s.scopes.get c)
  owner : ∀ c < s.scopes.size, (s.scopes.get c).closed = true →
    ∃ k < s.closings.size, (s.closings.get k).scope = c ∧ (s.closings.get k).taken = (s.scopes.get c).registered
  closing : ∀ k < s.closings.size, s.ClosingInv (s.closings.get k)
  child : ∀ c < s.scopes.size, 0 < s.begun (.child c) → (s.scopes.get c).closed = true
  byParent : ∀ c < s.scopes.size, (s.scopes.get c).byParent = true → 0 < s.begun (.child c)
  link : ∀ k < s.closings.size, ∀ c j, (s.closings.get k).current = some (.child c j) →
    j < s.closings.size ∧ ((s.scopes.get c).byParent = true →
      (s.closings.get j).taken = (s.scopes.get c).registered)
  shut : ∀ c < s.scopes.size, (s.scopes.get c).byParent = true → .child c ∈ s.ended →
    ∀ e ∈ (s.scopes.get c).registered, e ∈ s.ended
  cancelled : ∀ id, 0 < s.begun (.cleanup id) → (s.scopes.get (s.homes.get id)).cancelled = true
  late : ∀ i < s.lates.size, (s.lates.get i).id < s.homes.size ∧
    (s.scopes.get (s.homes.get (s.lates.get i).id)).cancelled = true
  start : ∀ i < s.starts.size, s.StartInv (s.starts.get i)

/-! ## What a step leaves as it is -/

structure Grows (s s' : St) : Prop where
  scopes : s.scopes.size ≤ s'.scopes.size
  parent : ∀ c < s.scopes.size, (s'.scopes.get c).parent = (s.scopes.get c).parent
  cancelled : ∀ c < s.scopes.size, (s.scopes.get c).cancelled = true → (s'.scopes.get c).cancelled = true
  closed : ∀ c < s.scopes.size, (s.scopes.get c).closed = true → (s'.scopes.get c).closed = true
  registered : ∀ c < s.scopes.size, ∀ e ∈ (s.scopes.get c).registered, e ∈ (s'.scopes.get c).registered
  homes : s.homes.size ≤ s'.homes.size
  home : ∀ id < s.homes.size, s'.homes.get id = s.homes.get id
  ended : ∀ e ∈ s.ended, e ∈ s'.ended

variable {s s' : St}

variable {e : Entry}

theorem Known.grows (h : s.Known e) (hg : Grows s s') : s'.Known e := by
  cases e with
  | cleanup id => exact lt_of_lt_of_le h hg.homes
  | child c => exact ⟨h.1, lt_of_lt_of_le h.2 hg.scopes⟩

theorem home_grows (h : s.Known e) (hg : Grows s s') : s'.home e = s.home e := by
  cases e with
  | cleanup id => exact hg.home id h
  | child c => exact hg.parent c h.2

variable {c : ℕ}

theorem ScopeInv.grows {S : Scope} (h : s.ScopeInv c S) (hg : Grows s s') : s'.ScopeInv c S := by
  refine ⟨h.opened, h.closed, fun e he => ?_⟩
  obtain ⟨hknown, hhome⟩ := h.registered e he
  exact ⟨hknown.grows hg, (home_grows hknown hg).trans hhome⟩

theorem ClosingInv.grows {K : Closing} (h : s.ClosingInv K) (hg : Grows s s') : s'.ClosingInv K where
  scope := lt_of_lt_of_le h.scope hg.scopes
  closed := hg.closed _ h.scope h.closed
  taken e he := hg.registered _ h.scope e (h.taken e he)
  __ := h
  ended e he := hg.ended e (h.ended e he)

theorem StartInv.grows {r : Starting} (h : s.StartInv r) (hg : Grows s s') : s'.StartInv r where
  scope := lt_of_lt_of_le h.scope hg.scopes
  started error hr := hg.cancelled _ h.scope (h.started error hr)
  returned := h.returned

theorem begun_of_current {k c j : ℕ} (hk : k < s.closings.size)
    (hcurrent : (s.closings.get k).current = some (.child c j)) : 0 < s.begun (.child c) := by
  have hle := s.closings.le_total (fun K => K.running.count (.child c)) hk
  have hone : (s.closings.get k).running.count (.child c) = 1 := by simp [Closing.running, hcurrent, Running.entry]
  rw [hone] at hle
  rw [begun]
  omega

namespace Inv

theorem known_of_begun (h : s.Inv) (he : 0 < s.begun e) : s.Known e := by
  by_contra hno
  have honce := h.once e
  rw [if_neg hno] at honce
  omega

theorem closed_of_byParent (h : s.Inv) (hc : c < s.scopes.size) (hby : (s.scopes.get c).byParent) :
    (s.scopes.get c).closed :=
  h.child c hc (h.byParent c hc hby)

theorem of_scopes (h : s.Inv) (hg : Grows s s') (hclosings : s'.closings = s.closings) (hended : s'.ended = s.ended)
    (hstarts : s'.starts = s.starts) (hbegun : ∀ e, s'.begun e = s.begun e)
    (hsame : ∀ c < s.scopes.size, (s'.scopes.get c).closed = (s.scopes.get c).closed ∧
      (s'.scopes.get c).byParent = (s.scopes.get c).byParent ∧
      ((s.scopes.get c).closed → (s'.scopes.get c).registered = (s.scopes.get c).registered))
    (hnew : ∀ c < s'.scopes.size, s.scopes.size ≤ c → (s'.scopes.get c).closed = false ∧
      (s'.scopes.get c).byParent = false ∧ (s'.scopes.get c).parent < c)
    (honce : ∀ e, s'.waiting e + s'.begun e = if s'.Known e then 1 else 0)
    (hhomed : ∀ id < s'.homes.size, s'.homes.get id < s'.scopes.size)
    (hscope : ∀ c < s'.scopes.size, s'.ScopeInv c (s'.scopes.get c))
    (hlate : ∀ i < s'.lates.size, (s'.lates.get i).id < s'.homes.size ∧
      (s'.scopes.get (s'.homes.get (s'.lates.get i).id)).cancelled) : s'.Inv := by
  have hold : ∀ c < s'.scopes.size, (s'.scopes.get c).closed ∨ (s'.scopes.get c).byParent →
      c < s.scopes.size := by
    intro c hc hset
    by_contra hge
    obtain ⟨hclosed, hby, -⟩ := hnew c hc (Nat.le_of_not_lt hge)
    rw [hclosed, hby] at hset
    simp at hset
  -- a scope that is closed is not written any more
  have hfrozen : ∀ c < s.scopes.size, (s'.scopes.get c).byParent →
      (s.scopes.get c).byParent ∧ (s'.scopes.get c).registered = (s.scopes.get c).registered := by
    intro c hc hby
    obtain ⟨-, hsameBy, hreg⟩ := hsame c hc
    rw [hsameBy] at hby
    exact ⟨hby, hreg (h.closed_of_byParent hc hby)⟩
  refine ⟨honce, hhomed, ?_, hscope, ?_, ?_, ?_, ?_, ?_, ?_, ?_, hlate, ?_⟩
  · intro c hc hpos
    by_cases hlt : c < s.scopes.size
    · rw [hg.parent c hlt]
      exact h.parent c hlt hpos
    · exact (hnew c hc (Nat.le_of_not_lt hlt)).2.2
  · intro c hc hclosed
    have hlt := hold c hc (.inl hclosed)
    obtain ⟨hsameClosed, -, hreg⟩ := hsame c hlt
    rw [hsameClosed] at hclosed
    rw [hclosings, hreg hclosed]
    exact h.owner c hlt hclosed
  · intro k hk
    rw [hclosings] at hk ⊢
    exact (h.closing k hk).grows hg
  · intro c _ hpos
    rw [hbegun] at hpos
    have hlt : c < s.scopes.size := (h.known_of_begun hpos).2
    rw [(hsame c hlt).1]
    exact h.child c hlt hpos
  · intro c hc hby
    have hlt := hold c hc (.inr hby)
    rw [hbegun]
    exact h.byParent c hlt (hfrozen c hlt hby).1
  · intro k hk c j hcurrent
    rw [hclosings] at hk hcurrent ⊢
    have hlt : c < s.scopes.size := (h.known_of_begun (begun_of_current hk hcurrent)).2
    refine ⟨(h.link k hk c j hcurrent).1, fun hby => ?_⟩
    obtain ⟨hby', hreg⟩ := hfrozen c hlt hby
    rw [hreg]
    exact (h.link k hk c j hcurrent).2 hby'
  · intro c hc hby hmem
    have hlt := hold c hc (.inr hby)
    obtain ⟨hby', hreg⟩ := hfrozen c hlt hby
    rw [hended] at hmem ⊢
    rw [hreg]
    exact h.shut c hlt hby' hmem
  · intro id hpos
    rw [hbegun] at hpos
    have hid : id < s.homes.size := h.known_of_begun hpos
    rw [hg.home id hid]
    exact hg.cancelled _ (h.homed id hid) (h.cancelled id hpos)
  · intro i hi
    rw [hstarts] at hi ⊢
    exact (h.start i hi).grows hg

theorem of_calls (h : s.Inv) (hscopes : s'.scopes = s.scopes) (hhomes : s'.homes = s.homes)
    (hended : ∀ e ∈ s.ended, e ∈ s'.ended)
    (honce : ∀ e, s'.waiting e + s'.begun e = s.waiting e + s.begun e) (hbegun : ∀ e, s.begun e ≤ s'.begun e)
    (hnew : ∀ e, 0 < s'.begun e → 0 < s.begun e ∨ ∃ id, e = .cleanup id ∧ (s.scopes.get (s.homes.get id)).cancelled)
    (hsize : s'.closings.size = s.closings.size)
    (hsame : ∀ k < s.closings.size, (s'.closings.get k).scope = (s.closings.get k).scope ∧
      (s'.closings.get k).taken = (s.closings.get k).taken)
    (hclosing : ∀ k < s'.closings.size, s'.ClosingInv (s'.closings.get k))
    (hcurrent : ∀ k < s.closings.size, ∀ c j, (s'.closings.get k).current = some (.child c j) →
      (s.closings.get k).current = some (.child c j)) (hshut : ∀ c, .child c ∈ s'.ended → .child c ∈ s.ended ∨
      ((s.scopes.get c).byParent → ∀ e ∈ (s.scopes.get c).registered, e ∈ s.ended))
    (hlates : s'.lates.size = s.lates.size) (hids : ∀ i < s.lates.size, (s'.lates.get i).id = (s.lates.get i).id)
    (hstarts : s'.starts = s.starts) : s'.Inv := by
  obtain ⟨scopes, homes, lates, starts, closings, ended⟩ := s'
  obtain rfl : scopes = s.scopes := hscopes
  obtain rfl : homes = s.homes := hhomes
  obtain rfl : starts = s.starts := hstarts
  have hg : Grows s ⟨s.scopes, s.homes, lates, s.starts, closings, ended⟩ :=
    ⟨le_rfl, fun _ _ => rfl, fun _ _ hc => hc, fun _ _ hc => hc, fun _ _ _ he => he, le_rfl, fun _ _ => rfl, hended⟩
  refine ⟨?_, h.homed, h.parent, fun c hc => (h.scope c hc).grows hg, ?_, hclosing, ?_, ?_, ?_, ?_, ?_, ?_,
    fun i hi => (h.start i hi).grows hg⟩
  · intro e
    rw [honce, h.once]
    cases e <;> rfl
  · intro c hc hclosed
    obtain ⟨k, hk, hscope, htaken⟩ := h.owner c hc hclosed
    obtain ⟨hsameScope, hsameTaken⟩ := hsame k hk
    exact ⟨k, hsize ▸ hk, hsameScope.trans hscope, hsameTaken.trans htaken⟩
  · intro c hc hpos
    rcases hnew _ hpos with hold | ⟨id, hno, -⟩
    · exact h.child c hc hold
    · cases hno
  · exact fun c hc hby => lt_of_lt_of_le (h.byParent c hc hby) (hbegun _)
  · intro k hk c j hcur
    rw [hsize] at hk ⊢
    obtain ⟨hj, hlink⟩ := h.link k hk c j (hcurrent k hk c j hcur)
    rw [(hsame j hj).2]
    exact ⟨hj, hlink⟩
  · intro c hc hby hmem e he
    rcases hshut c hmem with hold | hall
    · exact hended e (h.shut c hc hby hold e he)
    · exact hended e (hall hby e he)
  · intro id hpos
    rcases hnew _ hpos with hold | ⟨id', heq, hcancelled⟩
    · exact h.cancelled id hold
    · cases heq
      exact hcancelled
  · intro i hi
    rw [hlates] at hi
    rw [hids i hi]
    exact h.late i hi

end Inv

/-! ## Registering and cancelling -/

theorem cancel_inv (h : s.Inv) (scope : ℕ) : (s.cancel scope).Inv := by
  have hkeep {β : Type} (f : Scope → β) (hf : ∀ S : Scope, f { S with cancelled := true } = f S) (c : ℕ) :
      f ((s.cancel scope).scopes.get c) = f (s.scopes.get c) := apply_get_set s.scopes f (hf _) c
  have hmark : ∀ c, (s.scopes.get c).cancelled → ((s.cancel scope).scopes.get c).cancelled := fun c =>
    get_set_imp s.scopes (P := fun S => S.cancelled = true) fun _ => rfl
  have hclosed := hkeep Scope.closed fun _ => rfl
  have hcleanups := hkeep Scope.cleanups fun _ => rfl
  have hregistered := hkeep Scope.registered fun _ => rfl
  have hg : Grows s (s.cancel scope) :=
    ⟨le_rfl, fun c _ => hkeep Scope.parent (fun _ => rfl) c, fun c _ => hmark c, fun c _ hc => (hclosed c).trans hc,
      fun c _ e he => hregistered c ▸ he, le_rfl, fun _ _ => rfl, fun _ he => he⟩
  have hwaiting : ∀ e, (s.cancel scope).waiting e = s.waiting e := by
    intro e
    rw [waiting, waiting]
    congr 2
    exact total_set_of_eq _ _ rfl
  refine h.of_scopes hg rfl rfl rfl (fun _ => rfl) ?_ ?_ ?_ h.homed ?_ ?_
  · exact fun c _ => ⟨hclosed c, hkeep Scope.byParent (fun _ => rfl) c, fun _ => hregistered c⟩
  · exact fun c hc hge => absurd hc (Nat.not_lt.2 hge)
  · intro e
    rw [hwaiting]
    exact h.once e
  · intro c hc
    obtain ⟨hopened, hshut, hreg⟩ := (h.scope c hc).grows hg
    refine ⟨?_, fun hc => ?_, hregistered c ▸ hreg⟩
    · rw [hclosed, hcleanups, hregistered]
      exact hopened
    · rw [hclosed] at hc
      exact ⟨(hcleanups c).trans (hshut hc).1, hmark c (hshut hc).2⟩
  · intro i hi
    exact ⟨(h.late i hi).1, hmark _ (h.late i hi).2⟩

theorem propagate_inv (h : s.Inv) (scope : ℕ) : (s.propagate scope).Inv := by
  rw [propagate]
  split_ifs
  · exact cancel_inv h scope
  · exact h

theorem once_register (h : s.Inv) {e₀ : Entry} (hnot : ¬s.Known e₀)
    (hwaiting : ∀ e, s'.waiting e = s.waiting e + [e₀].count e) (hbegun : ∀ e, s'.begun e = s.begun e)
    (hknown : ∀ e, s'.Known e ↔ s.Known e ∨ e = e₀) (e : Entry) :
    s'.waiting e + s'.begun e = if s'.Known e then 1 else 0 := by
  have honce := h.once e
  rw [hwaiting, hbegun]
  simp only [hknown]
  by_cases he : e = e₀
  · subst he
    rw [if_neg hnot] at honce
    simp
    omega
  · have hcount : [e₀].count e = 0 := count_eq_zero.2 (by simpa using he)
    simp only [he, or_false]
    omega

theorem register_inv (h : s.Inv) {scope : ℕ} (e₀ : Entry) (hscope : scope < s.scopes.size)
    (hopen : (s.scopes.get scope).cancelled = false)
    (hother : ∀ c < s.scopes.size, c ≠ scope → s'.scopes.get c = s.scopes.get c)
    (hS : ∃ children, s'.scopes.get scope = { (s.scopes.get scope).register e₀ with children := children })
    (hsize : s.scopes.size ≤ s'.scopes.size)
    (hnew : ∀ c < s'.scopes.size, s.scopes.size ≤ c → ∃ name, s'.scopes.get c = { parent := scope, name := name })
    (hhomes : s.homes.size ≤ s'.homes.size) (hsame : ∀ id < s.homes.size, s'.homes.get id = s.homes.get id)
    (hhomed : ∀ id < s'.homes.size, s'.homes.get id < s'.scopes.size) (hlates : s'.lates = s.lates)
    (hclosings : s'.closings = s.closings) (hended : s'.ended = s.ended) (hstarts : s'.starts = s.starts)
    (hnot : ¬s.Known e₀) (hknown : ∀ e, s'.Known e ↔ s.Known e ∨ e = e₀) (hhome : s'.home e₀ = scope)
    (htotal : ∀ e, s'.scopes.total (·.cleanups.count e) = s.scopes.total (·.cleanups.count e) + [e₀].count e) :
    s'.Inv := by
  obtain ⟨children, hS⟩ := hS
  have hclosed : (s.scopes.get scope).closed = false := by
    by_contra hc
    rw [((h.scope scope hscope).closed (by simpa using hc)).2] at hopen
    cases hopen
  have hbegun : ∀ e, s'.begun e = s.begun e := by
    intro e
    rw [begun, begun, hclosings, hlates, hended]
  -- of the scopes that were there, only one has changed, in its lists
  have hfields : ∀ c < s.scopes.size, (s'.scopes.get c).parent = (s.scopes.get c).parent ∧
      (s'.scopes.get c).closed = (s.scopes.get c).closed ∧ (s'.scopes.get c).byParent = (s.scopes.get c).byParent ∧
      (s'.scopes.get c).cancelled = (s.scopes.get c).cancelled ∧
      (∀ e ∈ (s.scopes.get c).registered, e ∈ (s'.scopes.get c).registered) ∧
      ((s.scopes.get c).closed → (s'.scopes.get c).registered = (s.scopes.get c).registered) := by
    intro c hc
    by_cases heq : c = scope
    · subst heq
      rw [hS]
      simp +contextual [Scope.register, hclosed]
    · rw [hother c hc heq]
      simp
  have hg : Grows s s' := ⟨hsize, fun c hc => (hfields c hc).1, fun c hc hcan => (hfields c hc).2.2.2.1.trans hcan,
      fun c hc hcl => (hfields c hc).2.1.trans hcl, fun c hc => (hfields c hc).2.2.2.2.1, hhomes, hsame,
      fun e he => hended ▸ he⟩
  refine h.of_scopes hg hclosings hended hstarts hbegun ?_ ?_ ?_ hhomed ?_ ?_
  · intro c hc
    obtain ⟨-, hcl, hby, -, -, hfrozen⟩ := hfields c hc
    exact ⟨hcl, hby, hfrozen⟩
  · intro c hc hge
    obtain ⟨name, hget⟩ := hnew c hc hge
    rw [hget]
    exact ⟨rfl, rfl, lt_of_lt_of_le hscope hge⟩
  · refine once_register h hnot (fun e => ?_) hbegun hknown
    rw [waiting, waiting, htotal, hclosings, hlates]
    omega
  · intro c hc
    by_cases hlt : c < s.scopes.size
    · have hold := (h.scope c hlt).grows hg
      by_cases heq : c = scope
      · subst heq
        refine ⟨fun _ => ?_, fun hno => ?_, fun e he => ?_⟩
        · rw [hS]
          simp only [Scope.register]
          rw [hold.opened hclosed]
        · rw [(hfields c hlt).2.1, hclosed] at hno
          cases hno
        · rw [hS] at he
          rcases mem_append.1 he with he | he
          · exact hold.registered e he
          · obtain rfl := mem_singleton.1 he
            exact ⟨(hknown e).2 (.inr rfl), hhome⟩
      · rw [hother c hlt heq]
        exact hold
    · obtain ⟨name, hget⟩ := hnew c hc (Nat.le_of_not_lt hlt)
      rw [hget]
      exact ⟨fun _ => rfl, nofun, nofun⟩
  · intro i hi
    rw [hlates] at hi ⊢
    obtain ⟨hid, hcancelled⟩ := h.late i hi
    refine ⟨lt_of_lt_of_le hid hhomes, ?_⟩
    rw [hsame _ hid]
    exact hg.cancelled _ (h.homed _ hid) hcancelled

theorem known_push (scope : ℕ) (hscopes : s'.scopes.size = s.scopes.size) (hhomes : s'.homes = s.homes.push scope)
    (e : Entry) : s'.Known e ↔ s.Known e ∨ e = .cleanup s.homes.size := by
  cases e with
  | cleanup id =>
    simp only [Known, hhomes, size_push, Entry.cleanup.injEq]
    omega
  | child c => simp [Known, hscopes]

section

variable (h : s.Inv)
include h

theorem add_inv (scope : ℕ) : (s.add scope).Inv := by
  rw [add]
  split_ifs with hscope
  swap
  · exact h
  have hnot : ¬s.Known (.cleanup s.homes.size) := Nat.lt_irrefl _
  have hpush : ∀ id < s.homes.size + 1, (s.homes.push scope).get id < s.scopes.size :=
    forall_push s.homes (P := (· < s.scopes.size)) h.homed hscope
  dsimp only
  split_ifs with hcancelled
  · -- the context is cancelled: `Add` runs the cleanup itself
    have hg : Grows s { s with homes := s.homes.push scope, lates := s.lates.push { id := s.homes.size } } :=
      ⟨le_rfl, fun _ _ => rfl, fun _ _ hc => hc, fun _ _ hc => hc, fun _ _ _ he => he, Nat.le_succ _,
        fun id hid => get_push _ _ hid, fun _ he => he⟩
    refine h.of_scopes hg rfl rfl rfl ?_ (fun c _ => ⟨rfl, rfl, fun _ => rfl⟩)
      (fun c hc hge => absurd hc (Nat.not_lt.2 hge)) ?_ hpush ?_ ?_
    · intro e
      simp [begun, Late.count]
    · refine once_register h hnot ?_ ?_ (known_push scope rfl rfl)
      · intro e
        simp only [waiting, total_push, Late.count, count_singleton, true_and, beq_iff_eq]
        omega
      · intro e
        simp [begun, Late.count]
    · exact fun c hc => (h.scope c hc).grows hg
    · refine forall_push s.lates (P := fun L => L.id < s.homes.size + 1 ∧
        (s.scopes.get ((s.homes.push scope).get L.id)).cancelled) ?_ ?_
      · intro i hi
        obtain ⟨hid, hlate⟩ := h.late i hi
        rw [get_push _ _ hid]
        exact ⟨Nat.lt_succ_of_lt hid, hlate⟩
      · rw [get_push_size]
        exact ⟨Nat.lt_succ_self _, hcancelled⟩
  · have hopen : (s.scopes.get scope).cancelled = false := by simpa using hcancelled
    refine register_inv h (.cleanup s.homes.size) hscope hopen (fun c _ hc => get_set_of_ne _ _ hc) ?_
      le_rfl (fun c hc hge => absurd hc (Nat.not_lt.2 hge)) (Nat.le_succ _) (fun id hid => get_push _ _ hid)
      hpush rfl rfl rfl rfl hnot (known_push scope rfl rfl) (get_push_size _ _) ?_
    · exact ⟨(s.scopes.get scope).children, get_set_self _ _ _⟩
    · intro e
      have htotal := s.scopes.total_set (·.cleanups.count e)
        ((s.scopes.get scope).register (.cleanup s.homes.size)) hscope
      simp only [Scope.register, count_append] at htotal
      simp only [Scope.register]
      omega

theorem childScope_inv {scope : ℕ} (hscope : scope < s.scopes.size)
    (hopen : (s.scopes.get scope).cancelled = false) (component : ℕ) (name : String) :
    (s.childScope scope component name).Inv := by
  rw [childScope]
  split
  · exact h
  have hne : scope ≠ s.scopes.size := Nat.ne_of_lt hscope
  refine register_inv h (.child s.scopes.size) hscope hopen ?_ ?_ (Nat.le_succ _) ?_ le_rfl (fun _ _ => rfl)
    ?_ rfl rfl rfl rfl ?_ ?_ ?_ ?_
  · intro c hc heq
    rw [get_push _ _ (by exact hc), get_set_of_ne _ _ heq]
  · refine ⟨(s.scopes.get scope).children ++ [(component, s.scopes.size)], ?_⟩
    rw [get_push _ _ (by exact hscope), get_set_self]
  · intro c hc hge
    obtain rfl : c = s.scopes.size := Nat.le_antisymm (Nat.le_of_lt_succ hc) hge
    exact ⟨name, get_push_size _ _⟩
  · exact fun id hid => Nat.lt_succ_of_lt (h.homed id hid)
  · exact fun hno => Nat.lt_irrefl _ hno.2
  · intro e
    cases e with
    | cleanup id => simp [Known]
    | child c =>
      simp only [Known, size_push, size_set, Entry.child.injEq]
      omega
  · exact congrArg Scope.parent (get_push_size _ _)
  · intro e
    have htotal := s.scopes.total_set (·.cleanups.count e)
      { (s.scopes.get scope).register (.child s.scopes.size) with
        children := (s.scopes.get scope).children ++ [(component, s.scopes.size)] } hscope
    rw [total_push]
    simp only [Scope.register, count_append, count_nil] at htotal ⊢
    omega

theorem inv_starts {starts : Table Starting} (hstarts : ∀ i < starts.size, s.StartInv (starts.get i)) :
    { s with starts := starts }.Inv := by
  have hg : Grows s { s with starts := starts } :=
    ⟨le_rfl, fun _ _ => rfl, fun _ _ hc => hc, fun _ _ hc => hc, fun _ _ _ he => he, le_rfl, fun _ _ => rfl,
      fun _ he => he⟩
  exact { h with
    scope := fun c hc => (h.scope c hc).grows hg
    closing := fun k hk => (h.closing k hk).grows hg
    start := fun i hi => (hstarts i hi).grows hg }

theorem start_inv (scope component : ℕ) (stage : StartStage) (name : String) :
    (s.start scope component stage name).Inv := by
  rw [start]
  split_ifs with hscope hcancelled
  · exact inv_starts h (forall_push s.starts (P := s.StartInv) h.start ⟨hscope, nofun, nofun⟩)
  · have h' := childScope_inv h hscope (by simpa using hcancelled) component name
    have hscope' : scope < (s.childScope scope component name).scopes.size := by
      rw [childScope]
      split
      · exact hscope
      · exact Nat.lt_succ_of_lt hscope
    exact inv_starts h' (forall_push _ (P := St.StartInv _) h'.start ⟨hscope', nofun, nofun⟩)
  · exact h

theorem started_inv (i : ℕ) (error : Option Err) : (s.started i error).Inv := by
  rw [started]
  split_ifs with hi
  · split
    · refine inv_starts h (forall_set s.starts (P := s.StartInv) h.start ?_ i)
      refine ⟨(h.start i hi).scope, ?_, nofun⟩
      intro error' hphase
      exact (StartPhase.started.inj hphase).2
    · exact h
    · exact h
  · exact h

theorem startReturn_inv (i : ℕ) : (s.startReturn i).Inv := by
  rw [startReturn]
  by_cases hi : i < s.starts.size
  swap
  · rw [if_neg hi]
    exact h
  rw [if_pos hi]
  split
  · rename_i error cancelled hphase
    refine inv_starts h (forall_set s.starts (P := s.StartInv) h.start ?_ i)
    refine ⟨(h.start i hi).scope, nofun, ?_⟩
    intro cancelled' hreturned
    obtain ⟨herror, rfl⟩ := StartPhase.returned.inj hreturned
    by_contra hcancelled
    obtain rfl : cancelled = true := by simpa using hcancelled
    have hctx := (h.start i hi).started error hphase
    cases error <;> simp [hctx] at herror
  · exact h
  · exact h

/-! ## Running late cleanups -/

theorem late_inv {i : ℕ} {L : Late} {ended : List Entry} (hi : i < s.lates.size)
    (hid : L.id = (s.lates.get i).id) (hended : ∀ e ∈ s.ended, e ∈ ended)
    (hchild : ∀ c, .child c ∈ ended → .child c ∈ s.ended)
    (hmoved : ∀ e, Late.count .waiting e L + (Late.count .running e L + ended.count e) =
      Late.count .waiting e (s.lates.get i) + (Late.count .running e (s.lates.get i) + s.ended.count e))
    (hbegun : ∀ e, Late.count .running e (s.lates.get i) + s.ended.count e ≤ Late.count .running e L + ended.count e) :
    { s with lates := s.lates.set i L, ended := ended }.Inv := by
  have hwait := fun e => s.lates.total_set (Late.count .waiting e) L hi
  have hrun := fun e => s.lates.total_set (Late.count .running e) L hi
  refine h.of_calls rfl rfl hended ?_ ?_ ?_ rfl (fun _ _ => ⟨rfl, rfl⟩) ?_ (fun _ _ _ _ hc => hc)
    (fun c hc => .inl (hchild c hc)) rfl ?_ rfl
  · intro e
    have := hwait e
    have := hrun e
    have := hmoved e
    simp only [waiting, begun]
    omega
  · intro e
    have := hrun e
    have := hbegun e
    simp only [begun]
    omega
  · intro e hpos
    by_cases he : e = .cleanup (s.lates.get i).id
    · exact .inr ⟨_, he, (h.late i hi).2⟩
    · left
      have hzero : ∀ phase (L' : Late), L'.id = (s.lates.get i).id → Late.count phase e L' = 0 := by
        intro phase L' hid'
        rw [Late.count, if_neg]
        rintro ⟨-, heq⟩
        exact he (hid' ▸ heq.symm)
      have := hrun e
      have hsum := hmoved e
      simp only [hzero _ L hid, hzero _ (s.lates.get i) rfl] at this hsum
      simp only [begun] at hpos ⊢
      omega
  · intro k hk
    exact { h.closing k hk with ended := fun e he => hended e ((h.closing k hk).ended e he) }
  · exact fun j _ => apply_get_set _ Late.id hid j

theorem lateBegin_inv (i : ℕ) : (s.lateBegin i).Inv := by
  rw [lateBegin]
  split_ifs with hi
  · obtain ⟨hi, hphase⟩ := hi
    refine late_inv h hi rfl (fun _ he => he) (fun _ hc => hc) ?_ ?_
    · intro e
      simp [Late.count, hphase]
    · intro e
      simp [Late.count, hphase]
  · exact h

theorem lateEnd_inv (i : ℕ) : (s.lateEnd i).Inv := by
  rw [lateEnd]
  split_ifs with hi
  · obtain ⟨hi, hphase⟩ := hi
    refine late_inv h hi rfl (fun _ he => mem_append_left _ he) ?_ ?_ ?_
    · intro c hc
      simpa using hc
    · intro e
      simp only [Late.count, hphase, count_append, count_singleton, beq_iff_eq]
      simp
      omega
    · intro e
      simp only [Late.count, hphase, count_append, count_singleton, beq_iff_eq]
      simp
      omega
  · exact h

/-! ## Running the cleanups of a call of Close -/

theorem Inv.of_mem_taken {k : ℕ} (hk : k < s.closings.size) (he : e ∈ (s.closings.get k).taken) :
    s.Known e ∧ (s.scopes.get (s.home e)).cancelled := by
  have hK := h.closing k hk
  obtain ⟨hknown, hhome⟩ := (h.scope _ hK.scope).registered e (hK.taken e he)
  rw [hhome]
  exact ⟨hknown, ((h.scope _ hK.scope).closed hK.closed).2⟩

theorem closing_inv {k : ℕ} {K : Closing} {ended : List Entry} (hk : k < s.closings.size)
    (hscope : K.scope = (s.closings.get k).scope) (htaken : K.taken = (s.closings.get k).taken)
    (hended : ∀ e ∈ s.ended, e ∈ ended) (hsplit : K.taken = K.todo ++ K.running ++ (K.ran.map Prod.fst).reverse)
    (hran : ∀ e ∈ K.ran.map Prod.fst, e ∈ ended) (hresult : K.result ≠ none → K.todo = [] ∧ K.current = none)
    (herrors : K.cleanupErrors = K.ran.flatMap fun p => (p.2.map expand).getD [])
    (herror : ∀ r, K.result = some r → r = K.closeError)
    (hmoved : ∀ e, K.todo.count e + (K.running.count e + ended.count e) = (s.closings.get k).todo.count e +
      ((s.closings.get k).running.count e + s.ended.count e))
    (hbegun : ∀ e, (s.closings.get k).running.count e + s.ended.count e ≤ K.running.count e + ended.count e)
    (hnew : ∀ c, (s.closings.get k).running.count (.child c) + s.ended.count (.child c) =
      K.running.count (.child c) + ended.count (.child c))
    (hcurrent : ∀ c j, K.current = some (.child c j) → (s.closings.get k).current = some (.child c j))
    (hshut : ∀ c, .child c ∈ ended → .child c ∈ s.ended ∨
      ((s.scopes.get c).byParent → ∀ e ∈ (s.scopes.get c).registered, e ∈ s.ended)) :
    { s with closings := s.closings.set k K, ended := ended }.Inv := by
  have htodo := fun e => s.closings.total_set (·.todo.count e) K hk
  have hrun := fun e => s.closings.total_set (·.running.count e) K hk
  have hget : ∀ j, j ≠ k → (s.closings.set k K).get j = s.closings.get j := fun j hj => get_set_of_ne _ _ hj
  refine h.of_calls rfl rfl hended ?_ ?_ ?_ rfl ?_ ?_ ?_ hshut rfl (fun _ _ => rfl) rfl
  · intro e
    have := htodo e
    have := hrun e
    have := hmoved e
    simp only [waiting, begun]
    omega
  · intro e
    have := hrun e
    have := hbegun e
    simp only [begun]
    omega
  · intro e hpos
    have hsum := hrun e
    cases e with
    | child c =>
      left
      have := hnew c
      simp only [begun] at hpos ⊢
      omega
    | cleanup id =>
      by_cases hmem : .cleanup id ∈ K.todo ++ K.running ++ (K.ran.map Prod.fst).reverse
      · right
        rw [← hsplit, htaken] at hmem
        exact ⟨id, rfl, (h.of_mem_taken hk hmem).2⟩
      · left
        have hold : .cleanup id ∉ (s.closings.get k).todo ++ (s.closings.get k).running ++
            ((s.closings.get k).ran.map Prod.fst).reverse := by
          rw [← (h.closing k hk).split, ← htaken, hsplit]
          exact hmem
        simp only [mem_append, not_or] at hmem hold
        have := hmoved (.cleanup id)
        rw [count_eq_zero.2 hmem.1.1, count_eq_zero.2 hmem.1.2, count_eq_zero.2 hold.1.1,
          count_eq_zero.2 hold.1.2] at this
        rw [count_eq_zero.2 hmem.1.2, count_eq_zero.2 hold.1.2] at hsum
        simp only [begun] at hpos ⊢
        omega
  · exact fun j _ => ⟨apply_get_set _ Closing.scope hscope j, apply_get_set _ Closing.taken htaken j⟩
  · intro j hj
    by_cases heq : j = k
    · subst heq
      obtain ⟨h1, h2, h3, -⟩ := h.closing j hk
      simp only [get_set_self]
      exact ⟨hscope ▸ h1, hscope ▸ h2, hscope ▸ htaken ▸ h3, hsplit, hran, hresult, herrors, herror⟩
    · simp only [hget j heq]
      exact { h.closing j hj with ended := fun e he => hended e ((h.closing j hj).ended e he) }
  · intro j _ c i hcur
    by_cases heq : j = k
    · subst heq
      simp only [get_set_self] at hcur
      exact hcurrent c i hcur
    · simpa only [hget j heq] using hcur

end

theorem ClosingInv.begin {K : Closing} (h : s.ClosingInv K) {r : Running} (hidle : K.current = none)
    (hlast : K.todo.getLast? = some r.entry) : s.ClosingInv (K.begin r) where
  __ := h
  split := by
    have hsplit := h.split
    rw [← dropLast_append_getLast? _ hlast] at hsplit
    simpa [Closing.begin, Closing.running, hidle] using hsplit
  result hr := by
    rw [(h.result hr).1] at hlast
    cases hlast

theorem begin_count {K : Closing} {r : Running} (hidle : K.current = none) (hlast : K.todo.getLast? = some r.entry)
    (e : Entry) : (K.begin r).todo.count e + [r.entry].count e = K.todo.count e ∧
      (K.begin r).running.count e = K.running.count e + [r.entry].count e := by
  constructor
  · rw [← count_append]
    exact congrArg (List.count e) (dropLast_append_getLast? _ hlast)
  · simp [Closing.begin, Closing.running, hidle]

theorem record_inv (h : s.Inv) {k : ℕ} (hk : k < s.closings.size) {r : Running} {error : Option Err}
    (hcurrent : (s.closings.get k).current = some r)
    (hshut : ∀ c j, r = .child c j → (s.scopes.get c).byParent → ∀ e ∈ (s.scopes.get c).registered, e ∈ s.ended) :
    { s with
      closings := s.closings.set k ((s.closings.get k).record r.entry error)
      ended := s.ended ++ [r.entry] }.Inv := by
  have hK := h.closing k hk
  have hrunning : (s.closings.get k).running = [r.entry] := by simp [Closing.running, hcurrent]
  have hnone : ((s.closings.get k).record r.entry error).running = [] := rfl
  refine closing_inv h hk rfl rfl (fun _ he => mem_append_left _ he) ?_ ?_ ?_ ?_ ?_ ?_ ?_ ?_ nofun ?_
  · have hsplit := hK.split
    rw [hrunning] at hsplit
    simpa [Closing.record, Closing.running] using hsplit
  · intro e he
    simp only [Closing.record, map_append, mem_append] at he
    rcases he with he | he
    · exact mem_append_left _ (hK.ended e he)
    · exact mem_append_right _ he
  · intro hno
    rw [(hK.result hno).2] at hcurrent
    cases hcurrent
  · simp [Closing.record, hK.errors]
  · intro r' hr'
    have hno := (hK.result (by rw [show (s.closings.get k).result = some r' from hr']; simp)).2
    rw [hno] at hcurrent
    cases hcurrent
  · intro e
    rw [hrunning, hnone]
    simp only [Closing.record, count_append, count_nil]
    omega
  · intro e
    rw [hrunning, hnone]
    simp only [count_append, count_nil]
    omega
  · intro c
    rw [hrunning, hnone]
    simp only [count_append, count_nil]
    omega
  · intro c hc
    rcases mem_append.1 hc with hc | hc
    · exact .inl hc
    · right
      cases r with
      | cleanup id => simp [Running.entry] at hc
      | child c' j =>
        obtain rfl : c = c' := by simpa [Running.entry] using hc
        exact hshut c j rfl

theorem finish_inv (h : s.Inv) (k : ℕ) (error : Option Err) : (s.finish k error).Inv := by
  rw [finish]
  by_cases hk : k < s.closings.size
  swap
  · rw [if_neg hk]
    exact h
  rw [if_pos hk]
  split
  · exact h
  · rename_i id hcurrent
    exact record_inv h hk hcurrent nofun
  · rename_i c call hcurrent
    split
    · exact h
    · rename_i closeErr hresult
      refine record_inv h hk hcurrent ?_
      rintro c' j ⟨⟩ hby e he
      -- the call that is waited for has returned, so all that it took has been run
      obtain ⟨hcall, hlink⟩ := h.link k hk c call hcurrent
      have hC := h.closing call hcall
      obtain ⟨htodo, hidle⟩ := hC.result (by rw [hresult]; simp)
      have hsplit := hC.split
      simp only [htodo, Closing.running, hidle, hlink hby] at hsplit
      rw [hsplit] at he
      exact hC.ended e (by simpa using he)

theorem closeReturn_inv (h : s.Inv) (k : ℕ) : (s.closeReturn k).Inv := by
  rw [closeReturn]
  split_ifs with hk
  swap
  · exact h
  obtain ⟨hk, hidle, htodo, -⟩ := hk
  have hK := h.closing k hk
  refine closing_inv h hk rfl rfl (fun _ he => he) hK.split hK.ended (fun _ => ⟨htodo, hidle⟩) hK.errors ?_
    (fun _ => rfl) (fun _ => le_rfl) (fun _ => rfl) (fun _ _ hc => hc) (fun _ hc => .inl hc)
  intro r hr
  exact (Option.some.inj hr).symm

theorem drain_inv (h : s.Inv) (hc : c < s.scopes.size) (byParent : Bool) (closings : Table Closing)
    (hsize : closings.size = s.closings.size)
    (hsame : ∀ k < s.closings.size, (closings.get k).scope = (s.closings.get k).scope ∧
      (closings.get k).taken = (s.closings.get k).taken)
    (hclosing : ∀ k < s.closings.size, s.ClosingInv (closings.get k))
    (hcurrent : ∀ k < s.closings.size, ∀ c' j, (closings.get k).current = some (.child c' j) →
      (s.closings.get k).current = some (.child c' j) ∨ (byParent ∧ c' = c ∧ j = s.closings.size))
    (hcount : ∀ e, ∃ n, closings.total (·.running.count e) = s.closings.total (·.running.count e) + n ∧
      closings.total (·.todo.count e) + n = s.closings.total (·.todo.count e) ∧
      (0 < n ↔ byParent ∧ e = .child c)) (hfresh : byParent → s.begun (.child c) = 0) : { s with
      scopes := s.scopes.set c ((s.scopes.get c).drain byParent)
      closings := closings.push
        { scope := c, taken := (s.scopes.get c).cleanups, todo := (s.scopes.get c).cleanups } }.Inv := by
  set S := s.scopes.get c with hS
  set new : Closing := { scope := c, taken := S.cleanups, todo := S.cleanups } with hnew
  set s' : St := { s with scopes := s.scopes.set c (S.drain byParent), closings := closings.push new } with hs'
  have hgetc : s'.scopes.get c = S.drain byParent := get_set_self _ _ _
  have hget : ∀ c', c' ≠ c → s'.scopes.get c' = s.scopes.get c' := fun c' hne => get_set_of_ne _ _ hne
  have hcall : ∀ k < s.closings.size, s'.closings.get k = closings.get k := fun k hk => get_push _ _ (hsize ▸ hk)
  have hlast : s'.closings.get s.closings.size = new := by
    rw [← hsize]
    exact get_push_size _ _
  have hcalls : s'.closings.size = s.closings.size + 1 := by rw [← hsize]; rfl
  -- what is the same of the scopes, and how marks are set
  have hparent := apply_get_set s.scopes Scope.parent (a := S.drain byParent) (i := c) rfl
  have hregistered := apply_get_set s.scopes Scope.registered (a := S.drain byParent) (i := c) rfl
  have hcancelled : ∀ c', (s.scopes.get c').cancelled → (s'.scopes.get c').cancelled := fun c' =>
    get_set_imp s.scopes (P := fun S => S.cancelled = true) fun _ => rfl
  have hclosed : ∀ c', (s.scopes.get c').closed → (s'.scopes.get c').closed := fun c' =>
    get_set_imp s.scopes (P := fun S => S.closed = true) fun _ => rfl
  have hmark : ∀ c', (s'.scopes.get c').byParent → (s.scopes.get c').byParent ∨
      (c' = c ∧ byParent ∧ S.closed = false) := by
    intro c' hby
    by_cases hne : c' = c
    · subst hne
      rw [hgetc] at hby
      simpa [Scope.drain] using hby
    · rw [hget c' hne] at hby
      exact .inl hby
  have hg : Grows s s' :=
    ⟨le_rfl, fun c' _ => hparent c', fun c' _ => hcancelled c', fun c' _ => hclosed c',
      fun c' _ e he => (hregistered c').symm ▸ he, le_rfl, fun _ _ => rfl, fun _ he => he⟩
  -- the cleanups move from the scope to the call, and the entry that is waited for begins
  have hbegun : ∀ e, s.begun e ≤ s'.begun e ∧ s'.waiting e + s'.begun e = s.waiting e + s.begun e ∧
      (s.begun e < s'.begun e ↔ byParent ∧ e = .child c) := by
    intro e
    obtain ⟨n, hrun, htodo, hpos⟩ := hcount e
    have hmoved := s.scopes.total_set (·.cleanups.count e) (S.drain byParent) hc
    have hbegun' : s'.begun e = s.begun e + n := by
      simp only [begun, hs', total_push, hrun]
      simp only [Closing.running, hnew, Option.map_none, Option.toList_none, count_nil]
      omega
    have hwaiting' : s'.waiting e + n = s.waiting e := by
      simp only [waiting, hs', total_push]
      simp only [Scope.drain, count_nil, hnew, ← hS] at hmoved ⊢
      omega
    refine ⟨by omega, by omega, ?_⟩
    rw [← hpos]
    omega
  have hnotby : byParent → S.byParent = false := by
    intro hb
    by_contra hby
    have := h.byParent c hc (by simpa using hby)
    have := hfresh hb
    omega
  refine ⟨?_, h.homed, ?_, ?_, ?_, ?_, ?_, ?_, ?_, ?_, ?_, ?_, fun i hi => (h.start i hi).grows hg⟩
  · intro e
    rw [(hbegun e).2.1, h.once e]
    cases e <;> rfl
  · intro c' hc' hpos
    exact (hparent c').trans_lt (h.parent c' hc' hpos)
  · intro c' hc'
    by_cases hne : c' = c
    · subst hne
      rw [hgetc]
      refine ⟨nofun, fun _ => ⟨rfl, rfl⟩, ?_⟩
      exact ((h.scope c' hc).grows hg).registered
    · rw [hget c' hne]
      exact (h.scope c' hc').grows hg
  · intro c' hc' hclosed
    rw [show (s'.scopes.get c').registered = _ from hregistered c']
    by_cases hwas : (s.scopes.get c').closed
    · obtain ⟨k, hk, hscope, htaken⟩ := h.owner c' hc' hwas
      refine ⟨k, by omega, ?_⟩
      rw [hcall k hk, (hsame k hk).1, (hsame k hk).2]
      exact ⟨hscope, htaken⟩
    · have heq : c' = c := by
        by_contra hne
        rw [hget c' hne] at hclosed
        exact hwas hclosed
      subst heq
      refine ⟨s.closings.size, by omega, ?_⟩
      rw [hlast]
      exact ⟨rfl, (h.scope c' hc).opened (by simpa using hwas)⟩
  · intro k hk
    by_cases hlt : k < s.closings.size
    · rw [hcall k hlt]
      exact (hclosing k hlt).grows hg
    · obtain rfl : k = s.closings.size := by omega
      rw [hlast]
      refine ⟨hc, ?_, ?_, ?_, nofun, fun hno => absurd rfl hno, rfl, nofun⟩
      · rw [show new.scope = c from rfl, hgetc]
        rfl
      · intro e he
        rw [show new.scope = c from rfl, hgetc]
        cases hclosed : S.closed with
        | false => exact (h.scope c hc).opened hclosed ▸ he
        | true =>
          rw [show new.taken = S.cleanups from rfl, ((h.scope c hc).closed hclosed).1] at he
          cases he
      · simp [hnew, Closing.running]
  · intro c' hc' hpos
    by_cases hold : 0 < s.begun (.child c')
    · exact hclosed c' (h.child c' hc' hold)
    · obtain ⟨-, heq⟩ := (hbegun (.child c')).2.2.1 (by omega)
      cases heq
      rw [hgetc]
      rfl
  · intro c' hc' hby
    have hle := (hbegun (.child c')).1
    rcases hmark c' hby with hold | ⟨rfl, hb, -⟩
    · have := h.byParent c' hc' hold
      omega
    · have := (hbegun (.child c')).2.2.2 ⟨hb, rfl⟩
      omega
  · intro k hk c' j hcur
    by_cases hlt : k < s.closings.size
    swap
    · obtain rfl : k = s.closings.size := by omega
      rw [hlast] at hcur
      cases hcur
    rw [hcall k hlt] at hcur
    rw [show (s'.scopes.get c').registered = _ from hregistered c']
    rcases hcurrent k hlt c' j hcur with hold | ⟨hb, rfl, rfl⟩
    · obtain ⟨hj, hlink⟩ := h.link k hlt c' j hold
      refine ⟨by omega, fun hby => ?_⟩
      rw [hcall j hj, (hsame j hj).2]
      rcases hmark c' hby with hby' | ⟨rfl, hb, -⟩
      · exact hlink hby'
      · have := begun_of_current hlt hold
        have := hfresh hb
        omega
    · refine ⟨by omega, fun hby => ?_⟩
      rw [hlast]
      rcases hmark c' hby with hby' | ⟨-, -, hopen⟩
      · rw [hnotby hb] at hby'
        cases hby'
      · exact (h.scope c' hc).opened hopen
  · intro c' hc' hby hmem
    rw [show (s'.scopes.get c').registered = _ from hregistered c']
    rcases hmark c' hby with hold | ⟨rfl, hb, -⟩
    · exact h.shut c' hc' hold hmem
    · have hpos : 0 < s.ended.count (.child c') := count_pos_iff.2 hmem
      have hnone := hfresh hb
      rw [begun] at hnone
      omega
  · intro id hpos
    have hold : 0 < s.begun (.cleanup id) := by
      by_contra hno
      obtain ⟨-, heq⟩ := (hbegun (.cleanup id)).2.2.1 (by omega)
      cases heq
    exact hcancelled _ (h.cancelled id hold)
  · exact fun i hi => ⟨(h.late i hi).1, hcancelled _ (h.late i hi).2⟩

theorem close_inv (h : s.Inv) (scope : ℕ) : (s.close scope false).Inv := by
  rw [close]
  split_ifs with hscope
  · exact drain_inv h hscope false s.closings rfl (fun _ _ => ⟨rfl, rfl⟩) h.closing (fun _ _ _ _ hc => .inl hc)
      (fun e => ⟨0, rfl, rfl, by simp⟩) nofun
  · exact h

theorem next_inv (h : s.Inv) (k : ℕ) : (s.next k).Inv := by
  rw [next]
  split_ifs with hk
  swap
  · exact h
  obtain ⟨hk, hidle⟩ := hk
  have hK := h.closing k hk
  split
  · exact h
  · rename_i id hlast
    have hcount := fun e => begin_count (r := .cleanup id) hidle hlast e
    obtain ⟨-, -, -, h4, h5, h6, h7, h8⟩ := hK.begin (r := .cleanup id) hidle hlast
    refine closing_inv h hk rfl rfl (fun _ he => he) h4 h5 h6 h7 h8 ?_ ?_ ?_ nofun (fun _ hc => .inl hc)
    · intro e
      have := hcount e
      omega
    · intro e
      have := hcount e
      omega
    · intro c
      have := hcount (.child c)
      simp only [Running.entry, count_singleton] at this
      simp at this
      omega
  · rename_i c hlast
    have hmem : .child c ∈ (s.closings.get k).taken := by
      rw [hK.split, append_assoc]
      exact mem_append_left _ (mem_of_getLast? hlast)
    have hc : c < s.scopes.size := (h.of_mem_taken hk hmem).1.2
    have hcount := fun e => begin_count (r := .child c s.closings.size) hidle hlast e
    rw [close, if_pos (by exact hc)]
    refine drain_inv h hc true (s.closings.set k ((s.closings.get k).begin (.child c s.closings.size))) rfl
      ?_ ?_ ?_ ?_ ?_
    · exact fun j _ => ⟨apply_get_set _ Closing.scope (by exact rfl) j, apply_get_set _ Closing.taken (by exact rfl) j⟩
    · exact forall_set s.closings (P := s.ClosingInv) h.closing
        (hK.begin (r := .child c s.closings.size) hidle hlast) k
    · intro j _ c' i hcur
      by_cases hj : j = k
      · subst hj
        rw [get_set_self] at hcur
        cases hcur
        exact .inr ⟨rfl, rfl, rfl⟩
      · rw [get_set_of_ne _ _ hj] at hcur
        exact .inl hcur
    · intro e
      have htodo := s.closings.total_set (·.todo.count e) ((s.closings.get k).begin (.child c s.closings.size)) hk
      have hrun := s.closings.total_set (·.running.count e) ((s.closings.get k).begin (.child c s.closings.size)) hk
      obtain ⟨hmoved, hstarted⟩ := hcount e
      refine ⟨[Entry.child c].count e, ?_, ?_, ?_⟩
      · simp only [Running.entry] at hstarted
        omega
      · simp only [Running.entry] at hmoved
        omega
      · rw [count_pos_iff]
        simp
    · intro _
      -- the entry still waits, and it is in one place only
      have honce := h.once (.child c)
      have hle := s.closings.le_total (·.todo.count (.child c)) hk
      have hpos : 0 < (s.closings.get k).todo.count (.child c) := count_pos_iff.2 (mem_of_getLast? hlast)
      rw [waiting] at honce
      split_ifs at honce <;> omega

theorem init_inv : init.Inv := by
  refine ⟨?_, nofun, ?_, ?_, ?_, nofun, ?_, ?_, nofun, nofun, ?_, nofun, nofun⟩
  · intro e
    have hknown : ¬init.Known e := by
      cases e with
      | cleanup id => exact Nat.not_lt_zero id
      | child c => exact fun h => Nat.not_lt.2 (Nat.lt_one_iff.1 h.2 ▸ le_rfl) h.1
    rw [if_neg hknown]
    simp [waiting, begun, init, total_push]
  · intro c hc hpos
    exact absurd hpos (Nat.lt_one_iff.1 hc ▸ Nat.lt_irrefl 0)
  · intro c hc
    obtain rfl := Nat.lt_one_iff.1 hc
    exact ⟨fun _ => rfl, nofun, nofun⟩
  · intro c hc hno
    obtain rfl := Nat.lt_one_iff.1 hc
    cases hno
  · intro c _ hno
    simp [begun, init] at hno
  · intro c hc hno
    obtain rfl := Nat.lt_one_iff.1 hc
    cases hno
  · intro id hno
    simp [begun, init] at hno

end St

open St

theorem step_inv {s : St} (h : s.Inv) (o : Op) : (step s o).Inv := by
  cases o with
  | add scope => exact add_inv h scope
  | lateBegin i => exact lateBegin_inv h i
  | lateEnd i => exact lateEnd_inv h i
  | start scope component stage name => exact start_inv h scope component stage name
  | started i error => exact started_inv h i error
  | startReturn i => exact startReturn_inv h i
  | close scope => exact close_inv h scope
  | next k => exact next_inv h k
  | finish k error => exact finish_inv h k error
  | closeReturn k => exact closeReturn_inv h k
  | propagate scope => exact propagate_inv h scope
  | expire => exact cancel_inv h 0

theorem run_inv (ops : List Op) : (run ops).Inv := by
  suffices hfold : ∀ s : St, s.Inv → (ops.foldl step s).Inv from hfold init init_inv
  intro s h
  induction ops generalizing s with
  | nil => exact h
  | cons o ops ih => exact ih (step s o) (step_inv h o)

/-! ## Exactly once -/

inductive Encloses (s : St) (a : ℕ) : ℕ → Prop
  | refl : Encloses s a a
  | step {c : ℕ} : c < s.scopes.size → 0 < c → Encloses s a (s.scopes.get c).parent → Encloses s a c

def Quiet (s : St) : Prop :=
  (∀ k < s.closings.size, (s.closings.get k).result ≠ none) ∧ ∀ i < s.lates.size, (s.lates.get i).phase = .done

section Results

variable {s : St}

theorem waiting_eq_zero (h : s.Inv) (hquiet : Quiet s)
    (hclosed : (s.scopes.get (s.home e)).closed) : s.waiting e = 0 := by
  have hcleanups : s.scopes.total (·.cleanups.count e) = 0 := by
    refine total_eq_zero _ _ fun c hc => count_eq_zero.2 fun hmem => ?_
    cases hopen : (s.scopes.get c).closed with
    | true =>
      rw [((h.scope c hc).closed hopen).1] at hmem
      cases hmem
    | false =>
      rw [(h.scope c hc).opened hopen] at hmem
      rw [((h.scope c hc).registered e hmem).2, hopen] at hclosed
      cases hclosed
  have htodo : s.closings.total (·.todo.count e) = 0 := by
    refine total_eq_zero _ _ fun k hk => ?_
    rw [((h.closing k hk).result (hquiet.1 k hk)).1]
    rfl
  have hlates : s.lates.total (Late.count .waiting e) = 0 := by
    refine total_eq_zero _ _ fun i hi => ?_
    simp [Late.count, hquiet.2 i hi]
  rw [St.waiting, hcleanups, htodo, hlates]

theorem closed_of_encloses (h : s.Inv) (hquiet : Quiet s) {a c : ℕ} (ha : (s.scopes.get a).closed)
    (henc : Encloses s a c) : (s.scopes.get c).closed := by
  induction henc with
  | refl => exact ha
  | @step c hc hpos _ ih =>
    refine h.child c hc ?_
    have honce := h.once (.child c)
    rw [waiting_eq_zero h hquiet (e := .child c) ih, if_pos ⟨hpos, hc⟩] at honce
    omega

theorem ended_once (h : s.Inv) (hquiet : Quiet s) {id a : ℕ} (hid : id < s.homes.size)
    (ha : (s.scopes.get a).closed) (henc : Encloses s a (s.homes.get id)) : s.ended.count (.cleanup id) = 1 := by
  have honce := h.once (.cleanup id)
  rw [waiting_eq_zero h hquiet (e := .cleanup id) (closed_of_encloses h hquiet ha henc),
    if_pos (show s.Known (.cleanup id) from hid)] at honce
  have hrunning : s.closings.total (·.running.count (.cleanup id)) = 0 := by
    refine total_eq_zero _ _ fun k hk => ?_
    simp [Closing.running, ((h.closing k hk).result (hquiet.1 k hk)).2]
  have hlates : s.lates.total (Late.count .running (.cleanup id)) = 0 := by
    refine total_eq_zero _ _ fun i hi => ?_
    simp [Late.count, hquiet.2 i hi]
  rw [St.begun, hrunning, hlates] at honce
  omega

theorem ended_le_one (h : s.Inv) (e : Entry) : s.ended.count e ≤ 1 := by
  have honce := h.once e
  rw [St.begun] at honce
  split_ifs at honce <;> omega

/-! ## Order -/

/-- the cleanup is the entry, or was added to the child scope that the entry closes, or to a scope below -/
inductive Under (s : St) : Entry → ℕ → Prop
  | cleanup {id : ℕ} : Under s (.cleanup id) id
  | child {c id : ℕ} {e : Entry} : e ∈ (s.scopes.get c).registered → Under s e id → Under s (.child c) id

theorem closed_of_begun (h : s.Inv) (hc : c < s.scopes.size) (he : e ∈ (s.scopes.get c).registered)
    (hbegun : 0 < s.begun e) : (s.scopes.get c).closed := by
  by_contra hopen
  rw [← (h.scope c hc).opened (by simpa using hopen)] at he
  have hle := s.scopes.le_total (·.cleanups.count e) hc
  have hpos : 0 < (s.scopes.get c).cleanups.count e := count_pos_iff.2 he
  have honce := h.once e
  rw [St.waiting] at honce
  split_ifs at honce <;> omega

theorem mem_done_of_after {todo running done l₁ l₂ l₃ : List Entry} {e e' : Entry}
    (hsplit : l₁ ++ e :: (l₂ ++ e' :: l₃) = todo ++ (running ++ done)) (htodo : e ∉ todo)
    (hrunning : running.length ≤ 1) : e' ∈ done := by
  induction todo generalizing l₁ with
  | nil =>
    rcases running with - | ⟨r, - | ⟨r', rs⟩⟩
    · rw [nil_append, nil_append] at hsplit
      rw [← hsplit]
      simp
    · -- the entry is the one that runs, or comes after it
      cases l₁ with
      | nil =>
        have hrest : l₂ ++ e' :: l₃ = done := (List.cons.inj hsplit).2
        rw [← hrest]
        simp
      | cons a l₁ =>
        have hrest : l₁ ++ e :: (l₂ ++ e' :: l₃) = done := (List.cons.inj hsplit).2
        rw [← hrest]
        simp
    · simp at hrunning
  | cons x todo ih =>
    cases l₁ with
    | nil =>
      obtain ⟨rfl, -⟩ := List.cons.inj hsplit
      exact absurd mem_cons_self htodo
    | cons a l₁ => exact ih (List.cons.inj hsplit).2 fun hmem => htodo (mem_cons_of_mem x hmem)

theorem later_ended (h : s.Inv) (hc : c < s.scopes.size) {l₁ l₂ l₃ : List Entry} {e e' : Entry}
    (hreg : (s.scopes.get c).registered = l₁ ++ e :: (l₂ ++ e' :: l₃)) (hbegun : 0 < s.begun e) : e' ∈ s.ended := by
  have hmem : e ∈ (s.scopes.get c).registered := by rw [hreg]; simp
  obtain ⟨k, hk, -, htaken⟩ := h.owner c hc (closed_of_begun h hc hmem hbegun)
  have hK := h.closing k hk
  have htodo : e ∉ (s.closings.get k).todo := by
    intro htodo
    have hle := s.closings.le_total (·.todo.count e) hk
    have hpos : 0 < (s.closings.get k).todo.count e := count_pos_iff.2 htodo
    have honce := h.once e
    rw [St.waiting] at honce
    split_ifs at honce <;> omega
  have hrunning : (s.closings.get k).running.length ≤ 1 := by
    cases hcurrent : (s.closings.get k).current <;> simp [Closing.running, hcurrent]
  have hsplit := htaken.symm.trans hK.split
  rw [hreg, append_assoc] at hsplit
  exact hK.ended e' (mem_reverse.1 (mem_done_of_after hsplit htodo hrunning))

theorem le_of_encloses (h : s.Inv) {a c : ℕ} (henc : Encloses s a c) : a ≤ c := by
  induction henc with
  | refl => exact le_rfl
  | step hc hpos _ ih => exact ih.trans (h.parent _ hc hpos).le

/-- every scope below has been closed by the cleanup of its parent, if at all -/
def ClosedInside (s : St) (a : ℕ) : Prop :=
  ∀ c < s.scopes.size, a < c → Encloses s a c → (s.scopes.get c).closed = true → (s.scopes.get c).byParent = true

theorem child_below (h : s.Inv) {a c : ℕ} (hknown : s.Known (.child c)) (henc : Encloses s a (s.home (.child c))) :
    a < c ∧ Encloses s a c :=
  ⟨lt_of_le_of_lt (le_of_encloses h henc) (h.parent c hknown.2 hknown.1), .step hknown.2 hknown.1 henc⟩

section

variable (h : s.Inv) {a : ℕ} (hinside : ClosedInside s a) {id : ℕ} (hunder : Under s e id) (hknown : s.Known e) (henc : Encloses s a (s.home e))
include h hinside hunder hknown henc

theorem begun_of_under (hbegun : 0 < s.begun (.cleanup id)) : 0 < s.begun e := by
  induction hunder with
  | cleanup => exact hbegun
  | @child c id e hmem _ ih =>
    have hc : c < s.scopes.size := hknown.2
    obtain ⟨hlt, hbelow⟩ := child_below h hknown henc
    obtain ⟨hknown', hhome⟩ := (h.scope c hc).registered e hmem
    have hclosed := closed_of_begun h hc hmem (ih hknown' (hhome ▸ hbelow) hbegun)
    exact h.byParent c hc (hinside c hc hlt hbelow hclosed)

theorem ended_of_under (hended : e ∈ s.ended) : .cleanup id ∈ s.ended := by
  induction hunder with
  | cleanup => exact hended
  | @child c id e hmem _ ih =>
    have hc : c < s.scopes.size := hknown.2
    obtain ⟨hlt, hbelow⟩ := child_below h hknown henc
    obtain ⟨hknown', hhome⟩ := (h.scope c hc).registered e hmem
    have hpos : 0 < s.begun (.child c) := by
      have : 0 < s.ended.count (.child c) := count_pos_iff.2 hended
      rw [St.begun]
      omega
    have hby := hinside c hc hlt hbelow (h.child c hc hpos)
    exact ih hknown' (hhome ▸ hbelow) (h.shut c hc hby hended e hmem)

end

/-! ## Errors -/

theorem result_contains (h : s.Inv) {k : ℕ} (hk : k < s.closings.size) {r : Option Err}
    (hresult : (s.closings.get k).result = some r) {error part : Err}
    (hran : (e, some error) ∈ (s.closings.get k).ran) (hpart : part ∈ expand error) (hfail : HasFailure part) :
    Contains r part := by
  have hK := h.closing k hk
  rw [hK.error r hresult, Closing.closeError]
  have hmem : part ∈ (s.closings.get k).cleanupErrors := by
    rw [hK.errors]
    exact mem_flatMap.2 ⟨_, hran, hpart⟩
  have hkept : (!expectedScopeCleanupError part) := by
    rw [Bool.not_eq_true', ← Bool.not_eq_true, expectedScopeCleanupError_iff]
    exact not_not_intro hfail
  refine joinErrors_contains (mem_filter.2 ⟨hmem, hkept⟩) ?_
  rw [expand_of_mem_expand error part hpart]
  exact mem_singleton_self part

end Results

/-! ## Main result -/

/-- **Scopes clean up everything exactly once**, when their context is cancelled, later entries first (unless a scope below
was closed by a call of its own); a late `Start` returns an error, and that of `Close` has the text of every failure. -/
theorem run_cleans_up (ops : List Op) :
    let s := run ops
    (∀ id < s.homes.size, s.ended.count (.cleanup id) ≤ 1 ∧
      (Quiet s → (∃ a, (s.scopes.get a).closed = true ∧ Encloses s a (s.homes.get id)) →
        s.ended.count (.cleanup id) = 1)) ∧
    (∀ id, 0 < s.begun (.cleanup id) → (s.scopes.get (s.homes.get id)).cancelled = true) ∧
    (∀ a < s.scopes.size, ClosedInside s a → ∀ l₁ e l₂ e' l₃ id id',
      (s.scopes.get a).registered = l₁ ++ e :: (l₂ ++ e' :: l₃) → Under s e id → Under s e' id' →
      0 < s.begun (.cleanup id) → .cleanup id' ∈ s.ended) ∧
    (∀ i < s.starts.size, (s.starts.get i).phase ≠ .returned none true) ∧
    (∀ k < s.closings.size, ∀ r, (s.closings.get k).result = some r → ∀ e error part,
      (e, some error) ∈ (s.closings.get k).ran → part ∈ expand error → HasFailure part → Contains r part) := by
  intro s
  have h : s.Inv := run_inv ops
  refine ⟨?_, h.cancelled, ?_, ?_, ?_⟩
  · intro id hid
    refine ⟨ended_le_one h _, fun hquiet hclosed => ?_⟩
    obtain ⟨a, ha, henc⟩ := hclosed
    exact ended_once h hquiet hid ha henc
  · intro a ha hinside l₁ e l₂ e' l₃ id id' hreg hunder hunder' hbegun
    obtain ⟨hknown, hhome⟩ := (h.scope a ha).registered e (by rw [hreg]; simp)
    obtain ⟨hknown', hhome'⟩ := (h.scope a ha).registered e' (by rw [hreg]; simp)
    have hfirst : 0 < s.begun e := begun_of_under h hinside hunder hknown (hhome ▸ .refl) hbegun
    exact ended_of_under h hinside hunder' hknown' (hhome' ▸ .refl) (later_ended h ha hreg hfirst)
  · intro i hi hno
    cases (h.start i hi).returned true hno
  · exact fun k hk r hresult e error part => result_contains h hk hresult

def grown : List Op := [.add 0, .start 0 0 .stateStart "child", .add 1, .add 0]

/-- A child that is closed by a call of its own does not wait for its turn. Of two errors of the same text, `Close` returns
one. -/
theorem child_closed_alone :
    (let s := run (grown ++ [.close 1, .next 0, .finish 0 none, .closeReturn 0, .close 0, .next 1, .finish 1 none])
     (s.scopes.get 0).registered = [.cleanup 0, .child 1, .cleanup 2] ∧ (s.scopes.get 1).registered = [.cleanup 1] ∧
      s.ended = [.cleanup 1, .cleanup 2]) ∧
    (let s := run [.add 0, .add 0, .close 0, .next 0, .finish 0 (some (.leaf 1 "busy" .other)), .next 0,
      .finish 0 (some (.leaf 2 "busy" .other)), .closeReturn 0]
     (s.closings.get 0).result = some (some (.leaf 1 "busy" .other))) := by
  refine ⟨⟨?_, ?_, ?_⟩, ?_⟩
  · decide +kernel
  · decide +kernel
  · decide +kernel
  · rfl

end EtonifyCore.Lifecycle
