/-
Switching a selector group while connections are being routed through it.

A connection resolves its chain of outbounds group by group (`resolveOutbound`), attaches its closer to every group of the
chain, and checks the chain again (`registerInterrupt`, `flowInterrupter.AttachFlow`). A switch (`Selector.SelectOutbound`)
swaps the selected member, takes the list of attached closers, and closes them one by one.

Model: an `Op` is one atomic step of one switch or connection. The invariant speaks of the view of one connection (`View`);
steps of others only interfere with it (`Interferes`).

Premises: `interrupt_exist_connections` is on for all groups. Left out: the cache file, the history and the connections that
a group dials itself.
-/
import Mathlib.Tactic

namespace EtonifyCore.SelectorSwitch

open Function List

/-! ## Model -/

structure Config where
  isGroup : ℕ → Bool
  members : ℕ → List ℕ
  supports : ℕ → Bool

/-- a routed connection (`registerInterrupt`, `onClose`) or a flow (`AttachFlow`, `CloseFlow`) -/
inductive Kind where
  | conn
  | flow
deriving DecidableEq, Repr

inductive Phase where
  | idle
  | resolving
  | attaching (todo : List ℕ)
  /-- `AttachFlow` takes the lock of the flow -/
  | locking
  | checking (todo : List (ℕ × ℕ))
  /-- `AttachFlow` calls `CloseFlow`, the chain has changed -/
  | closing
  /-- the closer is removed again; afterwards the connection is closed if `close` -/
  | refusing (todo : List ℕ) (close : Bool)
  | refused
  | dispatched
deriving DecidableEq, Repr

structure Client where
  kind : Kind := .conn
  chain : List ℕ := []
  phase : Phase := .idle
  closed : Bool := false
  /-- `onClose` has been called, or the flow is marked as closed -/
  released : Bool := false
  /-- running calls of `onClose` or `CloseFlow`: the groups each still has to remove the closer from -/
  calls : List (List ℕ) := []
  returned : Bool := false
deriving DecidableEq, Repr

inductive SwitchPhase where
  | called
  | swapped
  | closing (closers : List ℕ)
deriving DecidableEq, Repr

structure Switch where
  group : ℕ
  target : ℕ
  phase : SwitchPhase := .called
deriving DecidableEq, Repr

structure St where
  selected : ℕ → ℕ
  connections : ℕ → List ℕ := fun _ => []
  switches : List Switch := []
  clients : ℕ → Client := fun _ => {}

inductive Op where
  | select (group target : ℕ)
  | switch (i : ℕ)
  | start (c : ℕ) (kind : Kind) (outbound : ℕ)
  | route (c : ℕ)
  | close (c : ℕ)
  | release (c i : ℕ)
deriving DecidableEq, Repr

variable (cfg : Config)

namespace Client

def groups (k : Client) : List ℕ := k.chain.filter cfg.isGroup

/-- what `outboundChainSelected` compares: each group with the member that follows it in the chain -/
def links (k : Client) : List (ℕ × ℕ) := (k.chain.zip k.chain.tail).filter fun p => cfg.isGroup p.1

def stored (k : Client) : Bool :=
  match k.phase with
  | .checking _ | .closing | .dispatched => true
  | .idle | .resolving | .attaching _ | .locking | .refusing .. | .refused => false

end Client

namespace St

def setClient (s : St) (c : ℕ) (k : Client) : St := { s with clients := Function.update s.clients c k }

def setPhase (s : St) (c : ℕ) (phase : Phase) : St := s.setClient c { s.clients c with phase := phase }

def attach (s : St) (g c : ℕ) : St :=
  { s with connections := Function.update s.connections g (s.connections g ++ [c]) }

/-- the remover that `Group.Add` returns; a chain has a group once, so a connection has one element there -/
def remove (s : St) (g c : ℕ) : St :=
  { s with connections := Function.update s.connections g ((s.connections g).filter (· ≠ c)) }

end St

/-! ## Steps -/

def resolveStep (s : St) (c : ℕ) (k : Client) : St :=
  match k.chain.getLast? with
  | none => s.setPhase c .refused
  | some o =>
    if cfg.isGroup o then
      if s.selected o ∈ k.chain then s.setPhase c .refused
      else s.setClient c { k with chain := k.chain ++ [s.selected o] }
    else if cfg.supports o then s.setPhase c (.attaching (k.groups cfg))
    else s.setPhase c .refused

def routeStep (s : St) (c : ℕ) : St :=
  let k := s.clients c
  match k.phase with
  | .idle | .refused | .dispatched => s
  | .resolving => resolveStep cfg s c k
  | .attaching (g :: todo) => (s.attach g c).setPhase c (.attaching todo)
  | .attaching [] =>
    match k.kind with
    | .conn => s.setPhase c (.checking (k.links cfg))
    | .flow => s.setPhase c .locking
  | .locking =>
    if k.released then s.setPhase c (.refusing (k.groups cfg) false) else s.setPhase c (.checking (k.links cfg))
  | .checking ((g, member) :: todo) =>
    if s.selected g = member then s.setPhase c (.checking todo)
    else match k.kind with
    | .conn => s.setPhase c (.refusing (k.groups cfg) true)
    | .flow => s.setPhase c .closing
  | .checking [] => s.setPhase c .dispatched
  | .closing =>
    if k.released then s.setClient c { k with phase := .refused, closed := true }
    else s.setClient c { k with phase := .refusing (k.groups cfg) true, released := true }
  | .refusing (g :: todo) close => (s.remove g c).setPhase c (.refusing todo close)
  | .refusing [] close => s.setClient c { k with phase := .refused, closed := k.closed || close }

/-- `onClose` exists when `registerInterrupt` has returned; `CloseFlow` may come at any time and takes what is stored -/
def closeStep (s : St) (c : ℕ) : St :=
  let k := s.clients c
  match k.kind with
  | .conn =>
    if k.phase = .dispatched then
      s.setClient c { k with released := true, calls := k.calls ++ [k.groups cfg] }
    else s
  | .flow =>
    if k.released then s
    else s.setClient c
      { k with released := true, calls := k.calls ++ [if k.stored then k.groups cfg else []] }

def releaseStep (s : St) (c i : ℕ) : St :=
  let k := s.clients c
  match k.calls[i]? with
  | none => s
  | some [] => s.setClient c { k with calls := k.calls.eraseIdx i, returned := true }
  | some (g :: todo) => (s.remove g c).setClient c { k with calls := k.calls.set i todo }

def switchStep (s : St) (i : ℕ) : St :=
  match s.switches[i]? with
  | none => s
  | some sw =>
    match sw.phase with
    | .called =>
      if s.selected sw.group = sw.target then { s with switches := s.switches.eraseIdx i }
      else { s with
        selected := Function.update s.selected sw.group sw.target
        switches := s.switches.set i { sw with phase := .swapped } }
    | .swapped =>
      { s with
        connections := Function.update s.connections sw.group []
        switches := s.switches.set i { sw with phase := .closing (s.connections sw.group) } }
    | .closing (c :: closers) =>
      { s.setClient c { s.clients c with closed := true } with
        switches := s.switches.set i { sw with phase := .closing closers } }
    | .closing [] => { s with switches := s.switches.eraseIdx i }

def step (s : St) : Op → St
  | .select group target =>
    if target ∈ cfg.members group then { s with switches := s.switches ++ [{ group, target }] } else s
  | .switch i => switchStep s i
  | .start c kind outbound =>
    if (s.clients c).phase = .idle then
      s.setClient c { kind, chain := [outbound], phase := .resolving }
    else s
  | .route c => routeStep cfg s c
  | .close c => closeStep cfg s c
  | .release c i => releaseStep s c i

def run (s : St) (ops : List Op) : St := ops.foldl (step cfg) s

def init (selected : ℕ → ℕ) : St := { selected }

theorem run_cons (s : St) (o : Op) (ops : List Op) : run cfg s (o :: ops) = run cfg (step cfg s o) ops := rfl

/-! ## The view of one connection -/

/-- a connection, the groups that hold its closer, and what concerns it of the groups and switches -/
structure View where
  client : Client
  held : ℕ → Prop
  selected : ℕ → ℕ
  /-- a switch of the group has swapped and not yet taken the closers -/
  swapped : ℕ → Prop
  /-- a switch of the group has taken the closer and not yet closed it -/
  pending : ℕ → Prop

def view (s : St) (c : ℕ) : View where
  client := s.clients c
  held g := c ∈ s.connections g
  selected := s.selected
  swapped g := ∃ sw ∈ s.switches, sw.group = g ∧ sw.phase = .swapped
  pending g := ∃ sw ∈ s.switches, sw.group = g ∧ ∃ closers, sw.phase = .closing closers ∧ c ∈ closers

namespace Client

def Attached (k : Client) (g : ℕ) : Prop :=
  g ∈ k.groups cfg ∧
    match k.phase with
    | .attaching todo => g ∉ todo
    | .locking | .checking _ | .dispatched => True
    | .idle | .resolving | .closing | .refusing .. | .refused => False

/-- the link has been found selected after the closer was attached -/
def Checked (k : Client) (link : ℕ × ℕ) : Prop :=
  link ∈ k.links cfg ∧
    match k.phase with
    | .checking todo => link ∉ todo
    | .dispatched => True
    | .idle | .resolving | .attaching _ | .locking | .closing | .refusing .. | .refused => False

def MayHold (k : Client) (g : ℕ) : Prop :=
  g ∈ k.groups cfg ∧
    match k.phase with
    | .idle | .resolving => False
    | .attaching _ | .locking => True
    | .checking _ | .closing | .dispatched =>
      match k.kind with
      | .conn => k.returned = false ∧ ∀ call ∈ k.calls, g ∈ call
      | .flow => k.released = false ∨ ∃ call ∈ k.calls, g ∈ call
    | .refusing todo _ => g ∈ todo
    | .refused => ∃ call ∈ k.calls, g ∈ call

structure WF (k : Client) : Prop where
  conn : k.kind = .conn → k.phase ≠ .dispatched → k.calls = [] ∧ k.returned = false
  calls : k.calls ≠ [] → k.released = true
  kind : k.kind = .conn → k.phase ≠ .locking ∧ k.phase ≠ .closing
  attaching : ∀ todo, k.phase = .attaching todo → ∀ g ∈ todo, g ∈ k.groups cfg
  checking : ∀ todo, k.phase = .checking todo → ∀ link ∈ todo, link ∈ k.links cfg

end Client

namespace View

/-- the connection is closed or about to be, or the closer is still in place -/
def Covered (v : View) (g : ℕ) : Prop := v.client.closed = true ∨ v.client.released = true ∨ v.pending g ∨ v.held g

/-- as `Covered`, and a closer that is in place sees the member it was checked against, or a switch will take it -/
def Safe (v : View) (link : ℕ × ℕ) : Prop :=
  v.client.closed = true ∨ v.client.released = true ∨ v.pending link.1 ∨
    (v.held link.1 ∧ (v.selected link.1 = link.2 ∨ v.swapped link.1))

structure Inv (v : View) : Prop where
  wf : v.client.WF cfg
  held : ∀ g, v.held g → v.client.MayHold cfg g
  attached : ∀ g, v.client.Attached cfg g → v.Covered g
  checked : ∀ link, v.client.Checked cfg link → v.Safe link

/-! ## Steps of others -/

/-- what switches and other connections can do to a connection -/
structure Interferes (v v' : View) : Prop where
  client : v'.client = v.client ∨ v'.client = { v.client with closed := true }
  held : ∀ g, v'.held g → v.held g
  kept : ∀ g, v.held g → v'.held g ∨ v'.pending g
  pending : ∀ g, v.pending g → v'.pending g ∨ v'.client.closed = true
  selected : ∀ g member, v'.held g → v.selected g = member ∨ v.swapped g → v'.selected g = member ∨ v'.swapped g

variable {cfg} {v v' : View}

theorem Inv.interferes (h : v.Inv cfg) (hv : Interferes v v') : v'.Inv cfg := by
  -- the client may be closed, and is the same otherwise
  have hclient : v'.client.released = v.client.released ∧ (v.client.closed → v'.client.closed) ∧ v'.client.WF cfg ∧
      v'.client.MayHold cfg = v.client.MayHold cfg ∧ v'.client.Attached cfg = v.client.Attached cfg ∧
      v'.client.Checked cfg = v.client.Checked cfg := by
    rcases hv.client with hclient | hclient <;> rw [hclient]
    · exact ⟨rfl, id, h.wf, rfl, rfl, rfl⟩
    · exact ⟨rfl, fun _ => rfl, { h.wf with }, rfl, rfl, rfl⟩
  obtain ⟨hreleased, hclosed, hwf, hmay, hattached, hchecked⟩ := hclient
  refine ⟨hwf, fun g hg => hmay ▸ h.held g (hv.held g hg), fun g hg => ?_, fun link hlink => ?_⟩
  · rcases h.attached g (hattached ▸ hg) with hc | hr | hp | hh
    · exact .inl (hclosed hc)
    · exact .inr (.inl (hreleased.trans hr))
    · rcases hv.pending g hp with hp' | hc
      · exact .inr (.inr (.inl hp'))
      · exact .inl hc
    · rcases hv.kept g hh with hh' | hp'
      · exact .inr (.inr (.inr hh'))
      · exact .inr (.inr (.inl hp'))
  · rcases h.checked link (hchecked ▸ hlink) with hc | hr | hp | ⟨hh, hs⟩
    · exact .inl (hclosed hc)
    · exact .inr (.inl (hreleased.trans hr))
    · rcases hv.pending link.1 hp with hp' | hc
      · exact .inr (.inr (.inl hp'))
      · exact .inl hc
    · rcases hv.kept link.1 hh with hh' | hp'
      · exact .inr (.inr (.inr ⟨hh', hv.selected link.1 link.2 hh' hs⟩))
      · exact .inr (.inr (.inl hp'))

end View

section

variable {α : Type} {l : List α} {i : ℕ}

theorem exists_mem_set {P : α → Prop} {y a : α} (h : ∃ x ∈ l, P x) (hy : l[i]? = some y) (hnot : ¬P y) :
    ∃ x ∈ l.set i a, P x := by
  obtain ⟨x, hx, hpx⟩ := h
  obtain ⟨j, hj⟩ := mem_iff_getElem?.1 hx
  have hij : i ≠ j := by
    rintro rfl
    exact hnot (Option.some.inj (hj.symm.trans hy) ▸ hpx)
  refine ⟨x, mem_iff_getElem?.2 ⟨j, ?_⟩, hpx⟩
  rw [List.getElem?_set_ne hij, hj]

theorem mem_set_self {y a : α} (hy : l[i]? = some y) : a ∈ l.set i a := by
  obtain ⟨hlt, -⟩ := List.getElem?_eq_some_iff.1 hy
  exact mem_set hlt a

theorem exists_mem_eraseIdx {P : α → Prop} {y : α} (h : ∃ x ∈ l, P x) (hy : l[i]? = some y) (hnot : ¬P y) :
    ∃ x ∈ l.eraseIdx i, P x := by
  obtain ⟨x, hx, hpx⟩ := h
  obtain ⟨j, hj⟩ := mem_iff_getElem?.1 hx
  refine ⟨x, mem_eraseIdx_iff_getElem?.2 ⟨j, ?_, hj⟩, hpx⟩
  rintro rfl
  exact hnot (Option.some.inj (hj.symm.trans hy) ▸ hpx)

end

variable {c : ℕ}

theorem interferes_of_eq {s s' : St} (hclient : s'.clients c = s.clients c)
    (hheld : ∀ g, c ∈ s'.connections g ↔ c ∈ s.connections g) (hselected : s'.selected = s.selected)
    (hswitches : s'.switches = s.switches) : View.Interferes (view s c) (view s' c) where
  client := .inl hclient
  held g hg := (hheld g).1 hg
  kept g hg := .inl ((hheld g).2 hg)
  pending g hg := by
    left
    simpa only [view, hswitches] using hg
  selected g member _ hs := by simpa only [view, hswitches, hselected] using hs

theorem select_interferes (s : St) (group target c : ℕ) :
    View.Interferes (view s c) (view (step cfg s (.select group target)) c) := by
  rw [step]
  split_ifs
  · refine ⟨.inl rfl, fun g hg => hg, fun g hg => .inl hg, fun g hg => .inl ?_, fun g member _ hs => ?_⟩
    · obtain ⟨sw, hsw, hpending⟩ := hg
      exact ⟨sw, mem_append_left _ hsw, hpending⟩
    · refine hs.imp id ?_
      rintro ⟨sw, hsw, hswapped⟩
      exact ⟨sw, mem_append_left _ hsw, hswapped⟩
  · exact interferes_of_eq rfl (fun _ => .rfl) rfl rfl

variable {s : St}

theorem erase_interferes {i : ℕ} {sw : Switch} (hi : s.switches[i]? = some sw)
    (hphase : sw.phase = .called ∨ sw.phase = .closing []) (c : ℕ) :
    View.Interferes (view s c) (view { s with switches := s.switches.eraseIdx i } c) := by
  refine ⟨.inl rfl, fun g hg => hg, fun g hg => .inl hg, fun g hg => .inl ?_, fun g member _ hs => ?_⟩
  · refine exists_mem_eraseIdx hg hi ?_
    rcases hphase with hphase | hphase <;> simp [hphase]
  · refine hs.imp id fun hs => exists_mem_eraseIdx hs hi ?_
    rcases hphase with hphase | hphase <;> simp [hphase]

theorem switch_interferes (s : St) (i c : ℕ) : View.Interferes (view s c) (view (switchStep s i) c) := by
  rw [switchStep]
  cases hi : s.switches[i]? with
  | none => exact interferes_of_eq rfl (fun _ => .rfl) rfl rfl
  | some sw =>
    dsimp only
    cases hphase : sw.phase with
    | called =>
      split_ifs
      · exact erase_interferes hi (.inl hphase) c
      · -- the swap: the closers of the group now wait for this switch
        refine ⟨.inl rfl, fun g hg => hg, fun g hg => .inl hg, fun g hg => .inl ?_, fun g member _ hs => ?_⟩
        · exact exists_mem_set hg hi (by simp [hphase])
        · by_cases hg : g = sw.group
          · right
            exact ⟨_, mem_set_self hi, hg.symm, rfl⟩
          · rcases hs with hs | hs
            · left
              exact (update_of_ne hg _ _).trans hs
            · right
              exact exists_mem_set hs hi fun hsw => hg hsw.1.symm
    | swapped =>
      -- the closers are taken: what the group held is pending at this switch
      have hother : ∀ g, c ∈ update s.connections sw.group [] g → g ≠ sw.group ∧ c ∈ s.connections g := by
        intro g hg
        by_cases hgroup : g = sw.group
        · rw [hgroup, update_self] at hg; cases hg
        · rw [update_of_ne hgroup] at hg
          exact ⟨hgroup, hg⟩
      refine ⟨.inl rfl, fun g hg => (hother g hg).2, fun g hg => ?_, fun g hg => .inl ?_, fun g member hg hs => ?_⟩
      · by_cases hgroup : g = sw.group
        · right
          exact ⟨_, mem_set_self hi, hgroup.symm, _, rfl, hgroup ▸ hg⟩
        · left
          change c ∈ update s.connections sw.group [] g
          rw [update_of_ne hgroup]
          exact hg
      · exact exists_mem_set hg hi (by simp [hphase])
      · exact hs.imp id fun hs => exists_mem_set hs hi fun hsw => (hother g hg).1 hsw.1.symm
    | closing closers =>
      cases closers with
      | nil => exact erase_interferes hi (.inr hphase) c
      | cons c' closers =>
        refine ⟨?_, fun g hg => hg, fun g hg => .inl hg, fun g hg => ?_, fun g member _ hs => ?_⟩
        · by_cases hc : c = c'
          · right
            subst hc
            exact update_self c _ _
          · left
            exact update_of_ne hc _ _
        · by_cases hc : c = c'
          · right
            subst hc
            change (update s.clients c { s.clients c with closed := true } c).closed
            rw [update_self]
          · left
            by_cases hsw : sw.group = g ∧ c ∈ closers
            · exact ⟨_, mem_set_self hi, hsw.1, closers, rfl, hsw.2⟩
            · exact exists_mem_set hg hi (by simpa [hphase, hc] using hsw)
        · exact hs.imp id fun hs => exists_mem_set hs hi (by simp [hphase])

/-! ## Steps of other connections -/

structure Local (c : ℕ) (s s' : St) : Prop where
  clients : ∀ c' ≠ c, s'.clients c' = s.clients c'
  connections : ∀ c' ≠ c, ∀ g, c' ∈ s'.connections g ↔ c' ∈ s.connections g
  selected : s'.selected = s.selected
  switches : s'.switches = s.switches

namespace Local

variable {c : ℕ} {s s' s'' : St}

theorem refl (c : ℕ) (s : St) : Local c s s := ⟨fun _ _ => rfl, fun _ _ _ => .rfl, rfl, rfl⟩

theorem trans (h : Local c s s') (h' : Local c s' s'') : Local c s s'' where
  clients c' hc := (h'.clients c' hc).trans (h.clients c' hc)
  connections c' hc g := (h'.connections c' hc g).trans (h.connections c' hc g)
  selected := h'.selected.trans h.selected
  switches := h'.switches.trans h.switches

section

variable (c : ℕ) (s : St)

theorem setClient (k : Client) : Local c s (s.setClient c k) :=
  ⟨fun _ hc => update_of_ne hc _ _, fun _ _ _ => .rfl, rfl, rfl⟩

theorem setPhase (phase : Phase) : Local c s (s.setPhase c phase) := setClient c s _

theorem attach (g : ℕ) : Local c s (s.attach g c) := by
  refine ⟨fun _ _ => rfl, fun c' hc g' => ?_, rfl, rfl⟩
  by_cases hg : g' = g
  · subst hg
    simp [St.attach, hc]
  · simp [St.attach, update_of_ne hg]

theorem remove (g : ℕ) : Local c s (s.remove g c) := by
  refine ⟨fun _ _ => rfl, fun c' hc g' => ?_, rfl, rfl⟩
  by_cases hg : g' = g
  · subst hg
    simp [St.remove, hc]
  · simp [St.remove, update_of_ne hg]

end

theorem interferes (h : Local c s s') {c' : ℕ} (hc : c' ≠ c) : View.Interferes (view s c') (view s' c') :=
  interferes_of_eq (h.clients c' hc) (h.connections c' hc) h.selected h.switches

end Local

theorem resolveStep_local (s : St) (c : ℕ) (k : Client) : Local c s (resolveStep cfg s c k) := by
  rw [resolveStep]
  split
  · exact .setPhase c s _
  · split_ifs
    · exact .setPhase c s _
    · exact .setClient c s _
    · exact .setPhase c s _
    · exact .setPhase c s _

theorem routeStep_local (s : St) (c : ℕ) : Local c s (routeStep cfg s c) := by
  unfold routeStep
  dsimp only
  split
  · exact .refl c s
  · exact .refl c s
  · exact .refl c s
  · exact resolveStep_local cfg s c _
  · exact (Local.attach c s _).trans (.setPhase c _ _)
  · split <;> exact .setPhase c s _
  · split_ifs <;> exact .setPhase c s _
  · split_ifs
    · exact .setPhase c s _
    · split <;> exact .setPhase c s _
  · exact .setPhase c s _
  · split_ifs <;> exact .setClient c s _
  · exact (Local.remove c s _).trans (.setPhase c _ _)
  · exact .setClient c s _

theorem closeStep_local (s : St) (c : ℕ) : Local c s (closeStep cfg s c) := by
  unfold closeStep
  dsimp only
  split
  · split_ifs
    · exact .setClient c s _
    · exact .refl c s
  · split_ifs
    · exact .refl c s
    · exact .setClient c s _
    · exact .setClient c s _

theorem releaseStep_local (s : St) (c i : ℕ) : Local c s (releaseStep s c i) := by
  unfold releaseStep
  dsimp only
  split
  · exact .refl c s
  · exact .setClient c s _
  · exact (Local.remove c s _).trans (.setClient c _ _)

/-! ## Steps of the connection itself -/

section Own

variable (s : St) (c : ℕ)

@[simp] theorem view_setClient (k : Client) : view (s.setClient c k) c = { view s c with client := k } := by
  have hclient : (s.setClient c k).clients c = k := by simp [St.setClient]
  rw [view, hclient]
  rfl

@[simp] theorem view_setPhase (phase : Phase) :
    view (s.setPhase c phase) c = { view s c with client := { s.clients c with phase := phase } } :=
  view_setClient s c _

theorem view_attach (g : ℕ) :
    view (s.attach g c) c = { view s c with held := fun g' => g' = g ∨ (view s c).held g' } := by
  have hheld : (fun g' => c ∈ (s.attach g c).connections g') = fun g' => g' = g ∨ c ∈ s.connections g' := by
    funext g'
    by_cases hg : g' = g
    · subst hg
      simp [St.attach]
    · simp [St.attach, hg]
  rw [view, hheld]
  rfl

theorem view_remove (g : ℕ) :
    view (s.remove g c) c = { view s c with held := fun g' => g' ≠ g ∧ (view s c).held g' } := by
  have hheld : (fun g' => c ∈ (s.remove g c).connections g') = fun g' => g' ≠ g ∧ c ∈ s.connections g' := by
    funext g'
    by_cases hg : g' = g
    · subst hg
      simp [St.remove]
    · simp [St.remove, hg]
  rw [view, hheld]
  rfl

end Own

section Transition

variable {cfg} {v : View} {k k' : Client}

theorem View.Inv.own (h : v.Inv cfg) (hclient : v.client = k) (hwf : k'.WF cfg)
    (hclosed : k.closed → k'.closed) (hreleased : k.released → k'.released)
    (hmay : ∀ g, k.MayHold cfg g → k'.MayHold cfg g)
    (hattached : ∀ g, k'.Attached cfg g → k.Attached cfg g ∨ k'.released)
    (hchecked : ∀ link, k'.Checked cfg link → k.Checked cfg link ∨ k'.released ∨
      (k.Attached cfg link.1 ∧ v.selected link.1 = link.2)) : View.Inv cfg { v with client := k' } := by
  subst hclient
  have hcovered : ∀ g, v.Covered g → View.Covered { v with client := k' } g :=
    fun g hg => hg.imp hclosed (Or.imp_left hreleased)
  refine ⟨hwf, fun g hg => hmay g (h.held g hg), fun g hg => ?_, fun link hlink => ?_⟩
  · rcases hattached g hg with hold | hr
    · exact hcovered g (h.attached g hold)
    · exact .inr (.inl hr)
  · rcases hchecked link hlink with hold | hr | ⟨hold, hselected⟩
    · exact (h.checked link hold).imp hclosed (Or.imp_left hreleased)
    · exact .inr (.inl hr)
    · rcases hcovered link.1 (h.attached link.1 hold) with hc | hr | hp | hh
      · exact .inl hc
      · exact .inr (.inl hr)
      · exact .inr (.inr (.inl hp))
      · exact .inr (.inr (.inr ⟨hh, .inl hselected⟩))

theorem View.Inv.attach (h : v.Inv cfg) {g : ℕ} {todo : List ℕ} (hphase : v.client.phase = .attaching (g :: todo)) :
    View.Inv cfg { v with client := { v.client with phase := .attaching todo }, held := fun g' => g' = g ∨ v.held g' } := by
  obtain ⟨hconn, hcalls, hkind, hattaching, hchecking⟩ := h.wf
  have hgroups := hattaching _ hphase
  refine ⟨⟨fun hk _ => hconn hk (by rw [hphase]; simp), hcalls, fun _ => by simp, ?_, fun _ hno => by cases hno⟩, ?_, ?_, ?_⟩
  · intro todo' htodo g' hg'
    obtain rfl := Phase.attaching.inj htodo
    exact hgroups g' (mem_cons_of_mem g hg')
  · rintro g' (rfl | hheld)
    · exact ⟨hgroups g' mem_cons_self, trivial⟩
    · exact ⟨(h.held g' hheld).1, trivial⟩
  · rintro g' ⟨hg', hnot⟩
    by_cases heq : g' = g
    · exact .inr (.inr (.inr (.inl heq)))
    · have hold : v.client.Attached cfg g' := by
        refine ⟨hg', ?_⟩
        rw [hphase]
        exact fun hmem => (mem_cons.1 hmem).elim heq hnot
      exact (h.attached g' hold).imp_right (Or.imp_right (Or.imp_right .inr))
  · rintro link ⟨-, hno⟩
    exact hno.elim

theorem View.Inv.detach (h : v.Inv cfg) {g : ℕ} (hwf : k'.WF cfg)
    (hmay : ∀ g', g' ≠ g → v.client.MayHold cfg g' → k'.MayHold cfg g')
    (hattached : ∀ g', k'.Attached cfg g' → k'.released) (hchecked : ∀ link, k'.Checked cfg link → k'.released) :
    View.Inv cfg { v with client := k', held := fun g' => g' ≠ g ∧ v.held g' } where
  wf := hwf
  held g' hg' := hmay g' hg'.1 (h.held g' hg'.2)
  attached g' hg' := .inr (.inl (hattached g' hg'))
  checked link hlink := .inr (.inl (hchecked link hlink))

end Transition

variable {k : Client}

theorem Client.mem_groups_of_link {link : ℕ × ℕ} (h : link ∈ k.links cfg) : link.1 ∈ k.groups cfg := by
  obtain ⟨hmem, hgroup⟩ := mem_filter.1 h
  exact mem_filter.2 ⟨(of_mem_zip hmem).1, hgroup⟩

theorem Client.WF.flow (h : k.WF cfg) (hphase : k.phase = .locking ∨ k.phase = .closing) : k.kind = .flow := by
  cases hkind : k.kind with
  | conn => exact absurd hphase (not_or.2 (h.kind hkind))
  | flow => rfl

theorem Client.WF.setPhase (h : k.WF cfg) {phase : Phase} (hbefore : k.phase ≠ .dispatched)
    (hkind : k.kind = .conn → phase ≠ .locking ∧ phase ≠ .closing)
    (hattaching : ∀ todo, phase = .attaching todo → ∀ g ∈ todo, g ∈ k.groups cfg)
    (hchecking : ∀ todo, phase = .checking todo → ∀ link ∈ todo, link ∈ k.links cfg) :
    Client.WF cfg { k with phase := phase } :=
  ⟨fun hk _ => h.conn hk hbefore, h.calls, hkind, hattaching, hchecking⟩

theorem Client.WF.setFinal (h : k.WF cfg) {phase : Phase} (hbefore : k.phase ≠ .dispatched)
    (hphase : phase = .refused ∨ phase = .dispatched ∨ ∃ todo close, phase = .refusing todo close) :
    Client.WF cfg { k with phase := phase } := by
  refine h.setPhase cfg hbefore ?_ ?_ ?_
  · rintro -
    rcases hphase with rfl | rfl | ⟨todo, close, rfl⟩ <;> simp
  · rintro todo rfl
    rcases hphase with hno | hno | ⟨_, _, hno⟩ <;> cases hno
  · rintro todo rfl
    rcases hphase with hno | hno | ⟨_, _, hno⟩ <;> cases hno

theorem resolveStep_own (h : (view s c).Inv cfg) (hphase : (s.clients c).phase = .resolving) :
    (view (resolveStep cfg s c (s.clients c)) c).Inv cfg := by
  have hwf : (s.clients c).WF cfg := h.wf
  have hbefore : (s.clients c).phase ≠ .dispatched := by rw [hphase]; simp
  have hnone : ∀ g, ¬(s.clients c).MayHold cfg g := by
    rintro g ⟨-, hno⟩
    rw [hphase] at hno
    exact hno
  -- nothing is attached before the chain is resolved, so any client without requirements will do
  have hfresh : ∀ k' : Client, k'.WF cfg → (∀ g, ¬k'.Attached cfg g) → (∀ link, ¬k'.Checked cfg link) →
      (view (s.setClient c k') c).Inv cfg := by
    intro k' hwf hattached hchecked
    rw [view_setClient]
    exact ⟨hwf, fun g hg => absurd (h.held g hg) (hnone g), fun g hg => absurd hg (hattached g),
      fun link hlink => absurd hlink (hchecked link)⟩
  have hrefused : (view (s.setPhase c .refused) c).Inv cfg :=
    hfresh _ (hwf.setFinal cfg hbefore (.inl rfl)) (fun g hg => hg.2) (fun link hlink => hlink.2)
  rw [resolveStep]
  split
  · exact hrefused
  · split_ifs
    · exact hrefused
    · refine hfresh _ ⟨hwf.conn, hwf.calls, hwf.kind, ?_, ?_⟩ ?_ ?_
      · intro todo hno
        cases hphase.symm.trans hno
      · intro todo hno
        cases hphase.symm.trans hno
      · rintro g ⟨-, hno⟩
        simp only [hphase] at hno
      · rintro link ⟨-, hno⟩
        simp only [hphase] at hno
    · refine hfresh _ (hwf.setPhase cfg hbefore (fun _ => by simp) ?_ nofun) ?_ (fun link hlink => hlink.2)
      · rintro todo htodo g hg
        obtain rfl := Phase.attaching.inj htodo
        exact hg
      · rintro g ⟨hg, hnot⟩
        exact hnot hg
    · exact hrefused

theorem checking_own {c g member : ℕ} {todo : List (ℕ × ℕ)} (h : (view s c).Inv cfg)
    (hphase : (s.clients c).phase = .checking ((g, member) :: todo)) (hselected : s.selected g = member) :
    (view (s.setPhase c (.checking todo)) c).Inv cfg := by
  have hwf : (s.clients c).WF cfg := h.wf
  have hlinks := hwf.checking _ hphase
  rw [view_setPhase]
  refine h.own rfl (hwf.setPhase cfg (by rw [hphase]; simp) (fun _ => by simp) nofun ?_) id id ?_ ?_ ?_
  · intro todo' htodo link hlink
    obtain rfl := Phase.checking.inj htodo
    exact hlinks link (mem_cons_of_mem _ hlink)
  · rintro g' ⟨hg', hmay⟩
    rw [view, hphase] at hmay
    exact ⟨hg', hmay⟩
  · rintro g' ⟨hg', -⟩
    left
    refine ⟨hg', ?_⟩
    rw [view, hphase]
    trivial
  · rintro link ⟨hlink, hnot⟩
    by_cases heq : link = (g, member)
    · right; right
      refine ⟨⟨Client.mem_groups_of_link cfg hlink, ?_⟩, ?_⟩
      · rw [view, hphase]
        trivial
      · rw [heq]
        exact hselected
    · left
      refine ⟨hlink, ?_⟩
      rw [view, hphase]
      exact fun hmem => (mem_cons.1 hmem).elim heq hnot

theorem refuse_own {released close : Bool} (h : (view s c).Inv cfg)
    (hbefore : (s.clients c).phase ≠ .dispatched) (hreleased : (s.clients c).released → released) : (view (s.setClient c
      { s.clients c with phase := .refusing ((s.clients c).groups cfg) close, released := released }) c).Inv cfg := by
  have hwf : (s.clients c).WF cfg := h.wf
  have hfinal := hwf.setFinal cfg hbefore (.inr (.inr ⟨(s.clients c).groups cfg, close, rfl⟩))
  rw [view_setClient]
  refine h.own rfl { hfinal with calls := fun hne => hreleased (hfinal.calls hne) } id hreleased ?_ ?_ ?_
  · exact fun g hg => ⟨hg.1, hg.1⟩
  · exact fun g hg => hg.2.elim
  · exact fun link hlink => hlink.2.elim

theorem routeStep_own (h : (view s c).Inv cfg) : (view (routeStep cfg s c) c).Inv cfg := by
  have hwf : (s.clients c).WF cfg := h.wf
  unfold routeStep
  dsimp only
  by_cases hbefore : (s.clients c).phase = .dispatched
  · rw [hbefore]
    exact h
  cases hphase : (s.clients c).phase with
  | idle => exact h
  | refused => exact h
  | dispatched => exact h
  | resolving => exact resolveStep_own cfg h hphase
  | attaching todo =>
    cases todo with
    | cons g todo =>
      dsimp only
      rw [view_setPhase, view_attach]
      exact h.attach hphase
    | nil =>
      dsimp only
      cases hkind : (s.clients c).kind with
      | conn =>
        rw [view_setPhase]
        refine h.own rfl (hwf.setPhase cfg hbefore (fun _ => by simp) nofun ?_) id id ?_ ?_ ?_
        · intro todo htodo link hlink
          obtain rfl := Phase.checking.inj htodo
          exact hlink
        · rintro g ⟨hg, -⟩
          obtain ⟨hcalls, hreturned⟩ := hwf.conn hkind hbefore
          refine ⟨hg, ?_⟩
          simp only [hkind, hcalls, hreturned]
          simp
        · rintro g ⟨hg, -⟩
          left
          refine ⟨hg, ?_⟩
          rw [view, hphase]
          simp
        · rintro link ⟨hlink, hnot⟩
          exact absurd hlink hnot
      | flow =>
        rw [view_setPhase]
        refine h.own rfl (hwf.setPhase cfg hbefore ?_ nofun nofun) id id ?_ ?_ ?_
        · intro hno; cases hkind.symm.trans hno
        · exact fun g hg => ⟨hg.1, trivial⟩
        · rintro g ⟨hg, -⟩
          left
          refine ⟨hg, ?_⟩
          rw [view, hphase]
          simp
        · exact fun link hlink => hlink.2.elim
  | locking =>
    have hflow := hwf.flow cfg (.inl hphase)
    dsimp only
    split_ifs with hreleased
    · exact refuse_own cfg h hbefore id
    · rw [view_setPhase]
      refine h.own rfl (hwf.setPhase cfg hbefore (fun _ => by simp) nofun ?_) id id ?_ ?_ ?_
      · intro todo htodo link hlink
        obtain rfl := Phase.checking.inj htodo
        exact hlink
      · rintro g ⟨hg, -⟩
        refine ⟨hg, ?_⟩
        simp only [hflow]
        exact .inl (Bool.eq_false_iff.2 hreleased)
      · rintro g ⟨hg, -⟩
        left
        refine ⟨hg, ?_⟩
        rw [view, hphase]
        trivial
      · rintro link ⟨hlink, hnot⟩
        exact absurd hlink hnot
  | checking todo =>
    cases todo with
    | nil =>
      dsimp only
      rw [view_setPhase]
      refine h.own rfl (hwf.setFinal cfg hbefore (.inr (.inl rfl))) id id ?_ ?_ ?_
      · rintro g ⟨hg, hmay⟩
        rw [view, hphase] at hmay
        exact ⟨hg, hmay⟩
      · rintro g ⟨hg, -⟩
        left
        refine ⟨hg, ?_⟩
        rw [view, hphase]
        trivial
      · rintro link ⟨hlink, -⟩
        left
        refine ⟨hlink, ?_⟩
        rw [view, hphase]
        simp
    | cons link todo =>
      obtain ⟨g, member⟩ := link
      dsimp only
      split_ifs with hselected
      · exact checking_own cfg h hphase hselected
      · cases hkind : (s.clients c).kind with
        | conn => exact refuse_own cfg h hbefore id
        | flow =>
          rw [view_setPhase]
          refine h.own rfl (hwf.setPhase cfg hbefore ?_ nofun nofun) id id ?_ ?_ ?_
          · intro hno; cases hkind.symm.trans hno
          · rintro g ⟨hg, hmay⟩
            rw [view, hphase] at hmay
            exact ⟨hg, hmay⟩
          · exact fun g hg => hg.2.elim
          · exact fun link hlink => hlink.2.elim
  | closing =>
    have hflow := hwf.flow cfg (.inr hphase)
    dsimp only
    split_ifs with hreleased
    · -- another call has the removers
      rw [view_setClient]
      refine h.own rfl { hwf.setFinal cfg hbefore (.inl rfl) with } (fun _ => rfl) id ?_
        (fun g hg => hg.2.elim) (fun link hlink => hlink.2.elim)
      rintro g ⟨hg, hmay⟩
      rw [view] at hmay
      simp only [hphase, hflow, hreleased] at hmay
      exact ⟨hg, hmay.resolve_left (by simp)⟩
    · exact refuse_own cfg h hbefore fun _ => rfl
  | refusing todo close =>
    cases todo with
    | nil =>
      dsimp only
      rw [view_setClient]
      refine h.own rfl { hwf.setFinal cfg hbefore (.inl rfl) with } ?_ id ?_ ?_ ?_
      · intro hclosed
        change ((s.clients c).closed || close)
        rw [show (s.clients c).closed from hclosed, Bool.true_or]
      · rintro g ⟨-, hmay⟩
        rw [view, hphase] at hmay
        cases hmay
      · exact fun g hg => hg.2.elim
      · exact fun link hlink => hlink.2.elim
    | cons g todo =>
      dsimp only
      rw [view_setPhase, view_remove]
      refine h.detach (hwf.setFinal cfg hbefore (.inr (.inr ⟨todo, close, rfl⟩))) ?_ ?_ ?_
      · rintro g' hne ⟨hg', hmay⟩
        rw [view, hphase] at hmay
        exact ⟨hg', (mem_cons.1 hmay).resolve_left hne⟩
      · exact fun g hg => hg.2.elim
      · exact fun link hlink => hlink.2.elim

theorem Client.MayHold.of_calls {g : ℕ} (h : k.MayHold cfg g) {calls : List (List ℕ)} {returned : Bool}
    (hconn : k.kind = .conn → k.returned = false → (∀ call ∈ k.calls, g ∈ call) →
      returned = false ∧ ∀ call ∈ calls, g ∈ call) (hstored : k.released = false → k.stored → ∃ call ∈ calls, g ∈ call)
    (hcalls : (∃ call ∈ k.calls, g ∈ call) → ∃ call ∈ calls, g ∈ call) :
    Client.MayHold cfg { k with released := true, calls := calls, returned := returned } g := by
  obtain ⟨kind, chain, phase, closed, released, calls₀, returned₀⟩ := k
  obtain ⟨hg, hmay⟩ := h
  refine ⟨hg, ?_⟩
  cases phase with
  | idle => exact hmay
  | resolving => exact hmay
  | attaching todo => trivial
  | locking => trivial
  | refusing todo close => exact hmay
  | refused => exact hcalls hmay
  | checking todo | closing | dispatched =>
    cases kind with
    | conn => exact hconn rfl hmay.1 hmay.2
    | flow => exact .inr (hmay.elim (fun hr => hstored hr rfl) hcalls)

theorem addCall_own {call : List ℕ} (h : (view s c).Inv cfg)
    (hconn : (s.clients c).kind = .conn → (s.clients c).phase = .dispatched ∧ call = (s.clients c).groups cfg)
    (hstored : (s.clients c).stored → call = (s.clients c).groups cfg) : (view (s.setClient c
      { s.clients c with released := true, calls := (s.clients c).calls ++ [call] }) c).Inv cfg := by
  have hwf : (s.clients c).WF cfg := h.wf
  rw [view_setClient]
  refine h.own rfl ⟨?_, fun _ => rfl, hwf.kind, hwf.attaching, hwf.checking⟩ id (fun _ => rfl) ?_
    (fun _ _ => .inr rfl) (fun _ _ => .inr (.inl rfl))
  · intro hk hno
    exact absurd (hconn hk).1 hno
  · intro g hg
    have hgroup : g ∈ (s.clients c).groups cfg := hg.1
    refine Client.MayHold.of_calls cfg hg ?_ ?_ ?_
    · intro hk hreturned hall
      refine ⟨hreturned, fun call' hcall => ?_⟩
      rcases mem_append.1 hcall with hcall | hcall
      · exact hall call' hcall
      · obtain rfl := mem_singleton.1 hcall
        rw [(hconn hk).2]
        exact hgroup
    · intro _ hs
      refine ⟨call, mem_append_right _ (mem_singleton_self _), ?_⟩
      rw [hstored hs]
      exact hgroup
    · rintro ⟨call', hcall, hmem⟩
      exact ⟨call', mem_append_left _ hcall, hmem⟩

theorem closeStep_own (h : (view s c).Inv cfg) : (view (closeStep cfg s c) c).Inv cfg := by
  unfold closeStep
  dsimp only
  split
  · split_ifs with hphase
    · exact addCall_own cfg h (fun _ => ⟨hphase, rfl⟩) (fun _ => rfl)
    · exact h
  · rename_i hk
    have hnoconn : (s.clients c).kind ≠ .conn := by rw [hk]; simp
    split_ifs with _ hstored
    · exact h
    · exact addCall_own cfg h (fun hno => absurd hno hnoconn) (fun _ => rfl)
    · exact addCall_own cfg h (fun hno => absurd hno hnoconn) (fun hno => absurd hno hstored)

theorem releaseStep_own {c i : ℕ} (h : (view s c).Inv cfg) : (view (releaseStep s c i) c).Inv cfg := by
  have hwf : (s.clients c).WF cfg := h.wf
  -- a call that runs has released the connection, and a connection that is not dispatched has no calls
  have hrunning : ∀ {call}, (s.clients c).calls[i]? = some call → (s.clients c).released :=
    fun hi => hwf.calls (ne_nil_of_mem (mem_of_getElem? hi))
  have hdispatched : ∀ {call}, (s.clients c).calls[i]? = some call → (s.clients c).kind = .conn →
      ¬(s.clients c).phase ≠ .dispatched := by
    intro call hi hk hno
    have hcall := mem_of_getElem? hi
    rw [(hwf.conn hk hno).1] at hcall
    cases hcall
  unfold releaseStep
  dsimp only
  split
  · exact h
  · rename_i hi
    have hreleased := hrunning hi
    rw [view_setClient]
    refine h.own rfl ⟨fun hk hno => absurd hno (hdispatched hi hk), fun _ => hreleased, hwf.kind, hwf.attaching,
      hwf.checking⟩ id id ?_ (fun _ _ => .inr hreleased) (fun _ _ => .inr (.inl hreleased))
    intro g hg
    rw [hreleased]
    refine Client.MayHold.of_calls cfg hg ?_ ?_ ?_
    · intro _ _ hall
      cases hall _ (mem_of_getElem? hi)
    · intro hno
      cases hreleased.symm.trans hno
    · exact fun hcall => exists_mem_eraseIdx hcall hi not_mem_nil
  · rename_i g todo hi
    have hreleased := hrunning hi
    rw [view_setClient, view_remove]
    refine h.detach ⟨fun hk hno => absurd hno (hdispatched hi hk), fun _ => hreleased, hwf.kind, hwf.attaching,
      hwf.checking⟩ ?_ (fun _ _ => hreleased) (fun _ _ => hreleased)
    intro g' hne hg'
    rw [hreleased]
    refine Client.MayHold.of_calls cfg hg' ?_ ?_ ?_
    · intro _ hreturned hall
      refine ⟨hreturned, fun call hcall => ?_⟩
      rcases mem_or_eq_of_mem_set hcall with hcall | rfl
      · exact hall call hcall
      · exact (mem_cons.1 (hall _ (mem_of_getElem? hi))).resolve_left hne
    · intro hno
      cases hreleased.symm.trans hno
    · intro hcall
      by_cases hmem : g' ∈ todo
      · exact ⟨todo, mem_set_self hi, hmem⟩
      · exact exists_mem_set hcall hi fun hno => hmem ((mem_cons.1 hno).resolve_left hne)

theorem start_own (kind : Kind) (outbound : ℕ) (h : (view s c).Inv cfg) (hphase : (s.clients c).phase = .idle) :
    (view (s.setClient c { kind, chain := [outbound], phase := .resolving }) c).Inv cfg := by
  rw [view_setClient]
  refine ⟨⟨fun _ _ => ⟨rfl, rfl⟩, fun hno => absurd rfl hno, fun _ => by simp, nofun, nofun⟩, ?_, ?_, ?_⟩
  · intro g hg
    obtain ⟨-, hno⟩ := h.held g hg
    rw [view, hphase] at hno
    exact hno.elim
  · exact fun g hg => hg.2.elim
  · exact fun link hlink => hlink.2.elim

/-! ## Runs -/

theorem step_inv (h : ∀ c, (view s c).Inv cfg) (o : Op) (c : ℕ) : (view (step cfg s o) c).Inv cfg := by
  -- the connection that the operation belongs to, and all others
  have hsplit : ∀ {c' : ℕ} {s' : St}, Local c' s s' → (view s' c').Inv cfg → (view s' c).Inv cfg := by
    intro c' s' hlocal hown
    by_cases hc : c = c'
    · subst hc
      exact hown
    · exact (h c).interferes (hlocal.interferes hc)
  cases o with
  | select group target => exact (h c).interferes (select_interferes cfg s group target c)
  | switch i => exact (h c).interferes (switch_interferes s i c)
  | start c' kind outbound =>
    rw [step]
    split_ifs with hphase
    · exact hsplit (.setClient c' s _) (start_own cfg kind outbound (h c') hphase)
    · exact h c
  | route c' => exact hsplit (routeStep_local cfg s c') (routeStep_own cfg (h c'))
  | close c' => exact hsplit (closeStep_local cfg s c') (closeStep_own cfg (h c'))
  | release c' i => exact hsplit (releaseStep_local s c' i) (releaseStep_own cfg (h c'))

theorem init_inv (selected : ℕ → ℕ) (c : ℕ) : (view (init selected) c).Inv cfg := by
  refine ⟨⟨fun _ _ => ⟨rfl, rfl⟩, fun hno => absurd rfl hno, fun _ => ⟨nofun, nofun⟩, nofun, nofun⟩, nofun, ?_, ?_⟩
  · exact fun g hg => hg.2.elim
  · exact fun link hlink => hlink.2.elim

theorem run_inv (h : ∀ c, (view s c).Inv cfg) (ops : List Op) (c : ℕ) : (view (run cfg s ops) c).Inv cfg := by
  induction ops generalizing s with
  | nil => exact h c
  | cons o ops ih =>
    rw [run_cons]
    exact ih fun c => step_inv cfg h o c

theorem not_held (h : (view s c).Inv cfg) (hmay : ∀ g, ¬(s.clients c).MayHold cfg g) (g : ℕ) : c ∉ s.connections g :=
  fun hheld => hmay g (h.held g hheld)

/-- **No connection escapes a switch.** Once its registration and all switches have returned, a connection over a member that
is not selected was refused or closed, or its closing has begun; no group holds the closer of one that is gone. -/
theorem run_no_escape (selected : ℕ → ℕ) (ops : List Op) :
    let s := run cfg (init selected) ops
    (∀ c g member, ((s.clients c).phase = .refused ∨ (s.clients c).phase = .dispatched) →
      (g, member) ∈ (s.clients c).links cfg → s.selected g ≠ member →
      (∀ sw ∈ s.switches, sw.group = g → sw.phase = .called) →
      (s.clients c).phase = .refused ∨ (s.clients c).closed = true ∨ (s.clients c).released = true) ∧
    (∀ c, (s.clients c).kind = .conn → (s.clients c).returned = true → ∀ g, c ∉ s.connections g) ∧
    (∀ c, (s.clients c).kind = .conn → (s.clients c).phase = .refused → ∀ g, c ∉ s.connections g) ∧
    (∀ c, (s.clients c).kind = .flow → (s.clients c).released = true → (s.clients c).calls = [] →
      ((s.clients c).phase = .refused ∨ (s.clients c).phase = .dispatched) → ∀ g, c ∉ s.connections g) := by
  intro s
  have hinv : ∀ c, (view s c).Inv cfg := run_inv cfg (init_inv cfg selected) ops
  refine ⟨?_, ?_, ?_, ?_⟩
  · rintro c g member (hrefused | hphase) hlink hselected hswitches
    · exact .inl hrefused
    have hchecked : (s.clients c).Checked cfg (g, member) := by
      refine ⟨hlink, ?_⟩
      rw [hphase]
      trivial
    rcases (hinv c).checked (g, member) hchecked with hc | hr | ⟨sw, hsw, hgroup, closers, hclosing, -⟩ | ⟨-, hsel | hswap⟩
    · exact .inr (.inl hc)
    · exact .inr (.inr hr)
    · cases hclosing.symm.trans (hswitches sw hsw hgroup)
    · exact absurd hsel hselected
    · obtain ⟨sw, hsw, hgroup, hswapped⟩ := hswap
      cases hswapped.symm.trans (hswitches sw hsw hgroup)
  · intro c hkind hreturned
    have hphase : (s.clients c).phase = .dispatched := by
      by_contra hno
      cases hreturned.symm.trans ((hinv c).wf.conn hkind hno).2
    refine not_held cfg (hinv c) ?_
    rintro g ⟨-, hmay⟩
    simp only [hphase, hkind, hreturned] at hmay
    cases hmay.1
  · intro c hkind hphase
    have hcalls : (s.clients c).calls = [] := ((hinv c).wf.conn hkind (by rw [view, hphase]; simp)).1
    refine not_held cfg (hinv c) ?_
    rintro g ⟨-, hmay⟩
    simp [hphase, hcalls] at hmay
  · intro c hkind hreleased hcalls hphase
    refine not_held cfg (hinv c) ?_
    rintro g ⟨-, hmay⟩
    rcases hphase with hphase | hphase <;> simp [hphase, hkind, hreleased, hcalls] at hmay

def Config.sample : Config where
  isGroup o := o == 10
  members o := if o = 10 then [1, 2, 3] else []
  supports _ := true

def routed : List Op := .start 0 .conn 10 :: List.replicate 6 (.route 0)

def switched : List Op := routed ++ .select 10 2 :: List.replicate 4 (.switch 0)

theorem run_closed_by_switch :
    let s := run Config.sample (init fun _ => 1) switched
    (s.clients 0).phase = .dispatched ∧ (10, 1) ∈ (s.clients 0).links Config.sample ∧ s.selected 10 = 2 ∧
    s.switches = [] ∧
    ((s.clients 0).phase = .refused ∨ (s.clients 0).closed = true ∨ (s.clients 0).released = true) := by
  intro s
  obtain ⟨hescape, -⟩ := run_no_escape Config.sample (fun _ => 1) switched
  have hphase : (s.clients 0).phase = .dispatched := by decide +kernel
  have hlink : (10, 1) ∈ (s.clients 0).links Config.sample := by decide +kernel
  have hselected : s.selected 10 = 2 := by decide +kernel
  have hswitches : s.switches = [] := by decide +kernel
  have hother : s.selected 10 ≠ 1 := by rw [hselected]; decide
  have hcalled : ∀ sw ∈ s.switches, sw.group = 10 → sw.phase = .called := by rw [hswitches]; nofun
  exact ⟨hphase, hlink, hselected, hswitches, hescape 0 10 1 (.inr hphase) hlink hother hcalled⟩

/-- A second switch of the group returns while the first one has taken the closer and not closed it: the connection runs on
over a member that is not selected. -/
theorem switch_returns_early :
    (let ops : List Op := routed ++ [.select 10 2, .switch 0, .switch 0, .select 10 3, .switch 1, .switch 1]
     let before := run Config.sample (init fun _ => 1) ops
     let s := run Config.sample (init fun _ => 1) (ops ++ [.switch 1])
     before.switches = [⟨10, 2, .closing [0]⟩, ⟨10, 3, .closing []⟩] ∧ s.switches = [⟨10, 2, .closing [0]⟩] ∧
      s.selected 10 = 3 ∧ (10, 1) ∈ (s.clients 0).links Config.sample ∧ (s.clients 0).phase = .dispatched ∧
      (s.clients 0).closed = false ∧ (s.clients 0).released = false) ∧
    (let s := run Config.sample (init fun _ => 1)
      [.start 0 .flow 10, .route 0, .route 0, .route 0, .close 0, .release 0 0]
     (s.clients 0).returned = true ∧ (s.clients 0).calls = [] ∧ 0 ∈ s.connections 10) := by
  decide +kernel

end EtonifyCore.SelectorSwitch
