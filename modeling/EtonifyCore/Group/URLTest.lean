/-
The selection of a URL-test group: `Select`, `selectByHistory` and `performUpdateCheck`.

Delays and the tolerance are 16-bit numbers, and so is their sum. `selectByHistory` is `Hysteresis.best` as long as no sum
that wraps decides (`selectByHistory_eq`).

Results: `select_obeys`, the tolerance is obeyed under that condition, and each sum that breaks it makes the loop leave an
outbound that it should keep; `performUpdateCheck_stable`, a second update changes nothing.

Left out: probes, tickers, and the interruption of connections. `Select` reads one state of the history.
-/
import Mathlib.Data.Fintype.Card
import EtonifyCore.Core.Hysteresis

namespace EtonifyCore.Group

open List
open Core Hysteresis Option

/-! ## Outbounds -/

inductive Network where
  | tcp
  | udp
  | icmp
deriving DecidableEq, Repr

structure Outbounds (α : Type) where
  tag : α → String
  network : α → List Network
  selected : α → Option (Network → Option α)

section

variable {α : Type} [DecidableEq α] [Fintype α] (outbounds : Outbounds α)

theorem card_compl_insert_lt {visited : Finset α} {detour : α} (h : detour ∉ visited) :
    ((insert detour visited)ᶜ).card < (visitedᶜ).card := by
  apply Finset.card_lt_card
  rw [Finset.compl_ssubset_compl]
  exact Finset.ssubset_insert h

def realTagFrom {α : Type} [DecidableEq α] [Fintype α] (outbounds : Outbounds α) (network : Network) (visited : Finset α) (detour : Option α) : String :=
  match detour with
  | none => ""
  | some detour =>
    if _h : detour ∈ visited then ""
    else
      match outbounds.selected detour with
      | none => outbounds.tag detour
      | some selected => realTagFrom outbounds network (insert detour visited) (selected network)
termination_by (visitedᶜ).card
decreasing_by exact card_compl_insert_lt _h

def realTag (detour : α) (network : Network) : String := realTagFrom outbounds network ∅ (some detour)

theorem realTag_leaf {detour : α} (h : outbounds.selected detour = none) (network : Network) :
    realTag outbounds detour network = outbounds.tag detour := by
  unfold realTag realTagFrom
  simp [h]

end

/-! ## History -/

structure Entry where
  generation : ℕ
  delay : UInt16
deriving DecidableEq, Repr

structure HistoryStorage where
  generation : ℕ
  delayHistory : String → Option Entry
  excludedTags : String → Bool

namespace HistoryStorage

variable (history : HistoryStorage)

def loadURLTestHistory (generation : Option ℕ) (tag : String) : Option UInt16 :=
  match history.delayHistory tag with
  | none => none
  | some entry =>
    match generation with
    | none => some entry.delay
    | some generation =>
      if generation ≠ history.generation ∨ entry.generation ≠ generation then none else some entry.delay

variable {delay : UInt16}

theorem entry_of_load {history : HistoryStorage} {generation : Option ℕ} {tag : String}
    (h : history.loadURLTestHistory generation tag = some delay) :
    ∃ entry, history.delayHistory tag = some entry ∧ entry.delay = delay := by
  unfold loadURLTestHistory at h
  cases hentry : history.delayHistory tag with
  | none =>
    rw [hentry] at h
    cases h
  | some entry =>
    rw [hentry] at h
    cases generation with
    | none => exact ⟨entry, rfl, some.inj h⟩
    | some generation =>
      dsimp only at h
      split_ifs at h
      exact ⟨entry, rfl, some.inj h⟩

end HistoryStorage

/-- `URLTestHistoryIsAvailable` -/
def isAvailable (history : Option UInt16) : Option UInt16 := history.filter (0 < ·)

/-! ## Selection -/

structure URLTestGroup (α : Type) where
  manager : Outbounds α
  history : HistoryStorage
  outbounds : List α
  tolerance : UInt16
  selectedOutboundTCP : Option α := none
  selectedOutboundUDP : Option α := none

namespace URLTestGroup

variable {α : Type} [DecidableEq α] [Fintype α] (g : URLTestGroup α)

def selectedOutbound (network : Network) : Option α :=
  match network with
  | .tcp => g.selectedOutboundTCP
  | .udp => g.selectedOutboundUDP
  | .icmp => none

def eligible (outbound : α) (network : Network) : Bool :=
  let tag := realTag g.manager outbound network
  tag ≠ "" && !g.history.excludedTags tag

section

variable (loadHistory : String → Option UInt16) (network : Network)

def measured (outbound : α) : Option UInt16 :=
  if g.eligible outbound network then isAvailable (loadHistory (realTag g.manager outbound network)) else none

def consider (state : UInt16 × Option α) (detour : α) : UInt16 × Option α :=
  let (minDelay, _) := state
  if network ∈ g.manager.network detour then
    match g.measured loadHistory network detour with
    | none => state
    | some delay => if minDelay = 0 ∨ minDelay > delay + g.tolerance then (delay, some detour) else state
  else state

def startAt : UInt16 × Option α :=
  match g.selectedOutbound network with
  | none => (0, none)
  | some selected =>
    match g.measured loadHistory network selected with
    | none => (0, none)
    | some delay => (delay, some selected)

end

def selectByHistory (network : Network) (loadHistory : String → Option UInt16) : Option α :=
  (g.outbounds.foldl (g.consider loadHistory network) (g.startAt loadHistory network)).2

def current : String → Option UInt16 := g.history.loadURLTestHistory (some g.history.generation)

def fallback : String → Option UInt16 := g.history.loadURLTestHistory none

def select (network : Network) : Option α × Bool :=
  match g.selectByHistory network g.current with
  | some outbound => (some outbound, true)
  | none =>
    match g.selectByHistory network g.fallback with
    | some outbound => (some outbound, true)
    | none => (g.outbounds.find? fun detour => network ∈ g.manager.network detour && g.eligible detour network, false)

def nextSelected (network : Network) : Option α :=
  let selected := g.selectedOutbound network
  let (next, hasHistory) := g.select network
  if next ≠ selected ∧ (next = none ∨ selected = none ∨ hasHistory = true ∨
      selected.any (g.eligible · network) = false) then next else selected

def performUpdateCheck : URLTestGroup α :=
  { g with selectedOutboundTCP := g.nextSelected .tcp, selectedOutboundUDP := g.nextSelected .udp }

/-! ## What is meant -/

/-- an outbound of the network: one that supports it, or the one that is selected for it -/
def OfNetwork (network : Network) (outbound : α) : Prop :=
  g.selectedOutbound network = some outbound ∨ (outbound ∈ g.outbounds ∧ network ∈ g.manager.network outbound)

section

variable (loadHistory : String → Option UInt16) (network : Network)

/-- the delay of an outbound is at most the tolerance above that of any outbound of the network, in exact arithmetic -/
def Within (outbound : α) : Prop :=
  ∃ delay, g.measured loadHistory network outbound = some delay ∧
    ∀ other delay', g.OfNetwork network other → g.measured loadHistory network other = some delay' →
      delay.toNat ≤ delay'.toNat + g.tolerance.toNat

def Measured : Prop :=
  ∃ outbound, g.OfNetwork network outbound ∧ (g.measured loadHistory network outbound).isSome = true

/-- an eligible outbound within the tolerance is selected, which is the selected one if that is within the tolerance -/
def SelectsWithin : Prop :=
  ∃ outbound, g.select network = (some outbound, true) ∧ g.eligible outbound network = true ∧
    g.Within loadHistory network outbound ∧
    ∀ selected, g.selectedOutbound network = some selected → g.Within loadHistory network selected → outbound = selected

end

/-- measurements of the current generation decide, or retained ones if there are none -/
def Obeys (network : Network) : Prop :=
  (g.Measured g.current network → g.SelectsWithin g.current network) ∧
    (¬ g.Measured g.current network → g.Measured g.fallback network → g.SelectsWithin g.fallback network)

/-! ## Selection without a wrap -/

section

variable (loadHistory : String → Option UInt16) (network : Network)

/-- the sum of the delay of `detour` and the tolerance wraps, and the loop takes `detour` for it -/
def TakesWrapped (state : UInt16 × Option α) (detour : α) : Prop :=
  network ∈ g.manager.network detour ∧ ∃ delay, g.measured loadHistory network detour = some delay ∧ state.1 ≠ 0 ∧
    65536 ≤ delay.toNat + g.tolerance.toNat ∧ state.1 > delay + g.tolerance

/-- no sum that wraps decides while the loop goes through the outbounds -/
def SumsHold (state : UInt16 × Option α) : List α → Prop
  | [] => True
  | detour :: outbounds =>
    ¬ g.TakesWrapped loadHistory network state detour ∧ SumsHold (g.consider loadHistory network state detour) outbounds

/-- the loop of `selectByHistory` decides by sums that do not wrap -/
def Exact : Prop := g.SumsHold loadHistory network (g.startAt loadHistory network) g.outbounds

end

/-- the sums of the measured delays and the tolerance fit 16 bits -/
def Fits (loadHistory : String → Option UInt16) (network : Network) : Prop :=
  ∀ outbound delay, g.OfNetwork network outbound → g.measured loadHistory network outbound = some delay →
    delay.toNat + g.tolerance.toNat < 65536

variable {loadHistory : String → Option UInt16} {network : Network} {outbound : α}

section

variable (h : g.measured loadHistory network outbound = some delay)
include h

theorem measured_pos : delay ≠ 0 := by
  unfold measured isAvailable at h
  split_ifs at h
  have hpos := (filter_eq_some_iff.1 h).2
  rintro rfl
  exact absurd hpos (by decide)

theorem load_of_measured : loadHistory (realTag g.manager outbound network) = some delay := by
  unfold measured isAvailable at h
  split_ifs at h
  exact (filter_eq_some_iff.1 h).1

theorem eligible_of_measured : g.eligible outbound network := by
  unfold measured at h
  split_ifs at h with heligible
  exact heligible

end

def choices (loadHistory : String → Option UInt16) (network : Network) (outbounds : List α) : List (α × ℕ) :=
  outbounds.filterMap fun outbound =>
    if network ∈ g.manager.network outbound then
      (g.measured loadHistory network outbound).map fun delay => (outbound, delay.toNat)
    else none

/-- `minDelay` and `minOutbound` as a choice: zero means that there is none yet -/
def choice (state : UInt16 × Option α) : Option (α × ℕ) := state.2.map fun outbound => (outbound, state.1.toNat)

/-- there is no outbound yet exactly if the least delay is zero -/
def Proper (state : UInt16 × Option α) : Prop := state.1 = 0 ↔ state.2 = none

theorem mem_choices {outbounds : List α} {cost : ℕ} :
    (outbound, cost) ∈ g.choices loadHistory network outbounds ↔ outbound ∈ outbounds ∧
      network ∈ g.manager.network outbound ∧
      ∃ delay, g.measured loadHistory network outbound = some delay ∧ delay.toNat = cost := by
  unfold choices
  rw [mem_filterMap]
  constructor
  · rintro ⟨other, hmem, hchoice⟩
    split_ifs at hchoice with hnetwork
    obtain ⟨delay, hdelay, hpair⟩ := map_eq_some_iff.1 hchoice
    obtain ⟨rfl, rfl⟩ := Prod.mk.inj hpair
    exact ⟨hmem, hnetwork, delay, hdelay, rfl⟩
  · rintro ⟨hmem, hnetwork, delay, hdelay, rfl⟩
    exact ⟨outbound, hmem, by rw [if_pos hnetwork, hdelay]; rfl⟩

theorem consider_choice {state : UInt16 × Option α} {detour : α} (hstate : Proper state)
    (hsum : ¬ g.TakesWrapped loadHistory network state detour) :
    Proper (g.consider loadHistory network state detour) ∧ choice (g.consider loadHistory network state detour) =
        best g.tolerance.toNat (choice state) (g.choices loadHistory network [detour]) := by
  obtain ⟨minDelay, minOutbound⟩ := state
  unfold consider choices
  by_cases hnetwork : network ∈ g.manager.network detour
  · cases hmeasured : g.measured loadHistory network detour with
    | none => simp [hnetwork, hmeasured, hstate]
    | some delay =>
      have hless (hne : minDelay ≠ 0) :
          minDelay > delay + g.tolerance ↔ delay.toNat + g.tolerance.toNat < minDelay.toNat := by
        by_cases hwraps : 65536 ≤ delay.toNat + g.tolerance.toNat
        · have hkept : ¬ minDelay > delay + g.tolerance := fun hswitch =>
            hsum ⟨hnetwork, delay, hmeasured, hne, hwraps, hswitch⟩
          have hbound := minDelay.toNat_lt
          exact iff_of_false hkept (by omega)
        · rw [gt_iff_lt, UInt16.lt_iff_toNat_lt, UInt16.toNat_add, Nat.mod_eq_of_lt (by omega)]
      have hpos := g.measured_pos hmeasured
      cases minOutbound with
      | none =>
        have hzero : minDelay = 0 := hstate.2 rfl
        simp [hnetwork, hmeasured, hzero, Proper, hpos, choice, better]
      | some outbound =>
        have hne : minDelay ≠ 0 := fun hzero => some_ne_none _ (hstate.1 hzero)
        by_cases hswitch : minDelay > delay + g.tolerance
        · simp [hnetwork, hmeasured, hne, hswitch, Proper, hpos, choice, better, (hless hne).1 hswitch]
        · simp [hnetwork, hmeasured, hne, hswitch, Proper, choice, better, mt (hless hne).2 hswitch]
  · simp [hnetwork, hstate]

theorem consider_fold {state : UInt16 × Option α} {outbounds : List α} (hstate : Proper state)
    (hsums : g.SumsHold loadHistory network state outbounds) : choice (outbounds.foldl (g.consider loadHistory network) state) =
      best g.tolerance.toNat (choice state) (g.choices loadHistory network outbounds) := by
  induction outbounds generalizing state with
  | nil => rfl
  | cons detour outbounds ih =>
    obtain ⟨hproper, hchoice⟩ := g.consider_choice hstate hsums.1
    have happend : g.choices loadHistory network (detour :: outbounds) =
        g.choices loadHistory network [detour] ++ g.choices loadHistory network outbounds :=
      filterMap_append (l := [detour])
    rw [foldl_cons, ih hproper hsums.2, hchoice, happend]
    exact foldl_append.symm

theorem startAt_proper (loadHistory : String → Option UInt16) (network : Network) :
    Proper (g.startAt loadHistory network) := by
  unfold startAt
  cases g.selectedOutbound network with
  | none => exact ⟨fun _ => rfl, fun _ => rfl⟩
  | some selected =>
    cases hmeasured : g.measured loadHistory network selected with
    | none => simp [hmeasured, Proper]
    | some delay => simp [hmeasured, Proper, g.measured_pos hmeasured]

theorem choice_startAt {cost : ℕ} :
    choice (g.startAt loadHistory network) = some (outbound, cost) ↔ g.selectedOutbound network = some outbound ∧
      ∃ delay, g.measured loadHistory network outbound = some delay ∧ delay.toNat = cost := by
  unfold startAt choice
  cases g.selectedOutbound network with
  | none => simp
  | some selected =>
    cases hmeasured : g.measured loadHistory network selected with
    | none =>
      simp only [hmeasured, map_none, reduceCtorEq, some.injEq, false_iff, not_and, not_exists]
      rintro rfl delay hdelay
      rw [hmeasured] at hdelay
      cases hdelay
    | some delay =>
      simp only [hmeasured, map_some, some.injEq, Prod.mk.injEq]
      constructor
      · rintro ⟨rfl, rfl⟩
        exact ⟨rfl, delay, hmeasured, rfl⟩
      · rintro ⟨rfl, delay', hdelay, rfl⟩
        rw [hmeasured] at hdelay
        exact ⟨rfl, congrArg UInt16.toNat (some.inj hdelay)⟩

theorem sumsHold_of_fits (state : UInt16 × Option α) {outbounds : List α}
    (hfits : ∀ outbound ∈ outbounds, network ∈ g.manager.network outbound →
      ∀ delay, g.measured loadHistory network outbound = some delay → delay.toNat + g.tolerance.toNat < 65536) :
    g.SumsHold loadHistory network state outbounds := by
  induction outbounds generalizing state with
  | nil => trivial
  | cons detour outbounds ih =>
    refine ⟨?_, ih _ fun outbound hmem => hfits outbound (mem_cons_of_mem _ hmem)⟩
    rintro ⟨hnetwork, delay, hmeasured, -, hwraps, -⟩
    exact absurd (hfits detour mem_cons_self hnetwork delay hmeasured) (by omega)

theorem exact_of_fits (hfits : g.Fits loadHistory network) : g.Exact loadHistory network :=
  g.sumsHold_of_fits _ fun outbound hmem hnetwork delay hdelay => hfits outbound delay (.inr ⟨hmem, hnetwork⟩) hdelay

theorem selectByHistory_eq (hexact : g.Exact loadHistory network) :
    g.selectByHistory network loadHistory = (best g.tolerance.toNat (choice (g.startAt loadHistory network))
      (g.choices loadHistory network g.outbounds)).map Prod.fst := by
  rw [← g.consider_fold (g.startAt_proper loadHistory network) hexact]
  unfold selectByHistory choice
  rw [Option.map_map]
  exact Option.map_id.symm ▸ rfl

theorem mem_of_measured
    (hof : g.OfNetwork network outbound) (hmeasured : g.measured loadHistory network outbound = some delay) :
    choice (g.startAt loadHistory network) = some (outbound, delay.toNat) ∨
      (outbound, delay.toNat) ∈ g.choices loadHistory network g.outbounds := by
  rcases hof with hselected | ⟨hmem, hnetwork⟩
  · exact .inl (g.choice_startAt.2 ⟨hselected, delay, hmeasured, rfl⟩)
  · exact .inr (g.mem_choices.2 ⟨hmem, hnetwork, delay, hmeasured, rfl⟩)

theorem selectByHistory_some (hexact : g.Exact loadHistory network) (hsome : g.Measured loadHistory network) :
    ∃ outbound, g.selectByHistory network loadHistory = some outbound ∧ g.eligible outbound network ∧
      g.Within loadHistory network outbound ∧
      ∀ selected, g.selectedOutbound network = some selected → g.Within loadHistory network selected → outbound = selected := by
  obtain ⟨first, hof, hmeasured⟩ := hsome
  obtain ⟨firstDelay, hfirst⟩ := isSome_iff_exists.1 hmeasured
  have hchoices : (choice (g.startAt loadHistory network)).isSome ∨
      g.choices loadHistory network g.outbounds ≠ [] := by
    rcases g.mem_of_measured hof hfirst with hstart | hmem
    · exact .inl (isSome_of_eq_some hstart)
    · exact .inr (ne_nil_of_mem hmem)
  obtain ⟨⟨outbound, cost⟩, hbest⟩ := best_isSome g.tolerance.toNat hchoices
  have hdelay : ∃ delay, g.measured loadHistory network outbound = some delay ∧ delay.toNat = cost := by
    rcases best_mem _ hbest with hstart | hmem
    · exact (g.choice_startAt.1 hstart).2
    · exact (g.mem_choices.1 hmem).2.2
  obtain ⟨delay, hdelay, rfl⟩ := hdelay
  refine ⟨outbound, by rw [g.selectByHistory_eq hexact, hbest]; rfl, g.eligible_of_measured hdelay,
    ⟨delay, hdelay, fun other delay' hother hmeasured' => ?_⟩, fun selected hselected hwithin => ?_⟩
  · rcases g.mem_of_measured hother hmeasured' with hstart | hmem
    · exact (best_le_start _ hbest hstart).trans (Nat.le_add_right _ _)
    · exact best_le _ hbest _ hmem
  · obtain ⟨selectedDelay, hselectedDelay, hle⟩ := hwithin
    have hstart := g.choice_startAt.2 ⟨hselected, selectedDelay, hselectedDelay, rfl⟩
    have hstays : ∀ other ∈ g.choices loadHistory network g.outbounds,
        selectedDelay.toNat ≤ other.2 + g.tolerance.toNat := by
      intro other hother
      obtain ⟨hmem, hnetwork, otherDelay, hotherDelay, hcost⟩ := g.mem_choices.1 hother
      rw [← hcost]
      exact hle other.1 otherDelay (.inr ⟨hmem, hnetwork⟩) hotherDelay
    rw [hstart, best_stays _ hstays] at hbest
    exact (congrArg Prod.fst (some.inj hbest)).symm

theorem selectByHistory_none
    (hnone : ¬ g.Measured loadHistory network) : g.selectByHistory network loadHistory = none := by
  have hunmeasured {outbound : α} (hof : g.OfNetwork network outbound) :
      g.measured loadHistory network outbound = none := by
    rw [← not_isSome_iff_eq_none]
    exact fun h => hnone ⟨outbound, hof, h⟩
  have hfits : g.Fits loadHistory network := by
    intro outbound delay hof hmeasured
    rw [hunmeasured hof] at hmeasured
    cases hmeasured
  have hbest : best g.tolerance.toNat (choice (g.startAt loadHistory network))
      (g.choices loadHistory network g.outbounds) = none := by
    rw [eq_none_iff_forall_not_mem]
    rintro ⟨outbound, cost⟩ hbest
    rcases best_mem _ hbest with hstart | hmem
    · obtain ⟨hselected, delay, hdelay, -⟩ := g.choice_startAt.1 hstart
      rw [hunmeasured (.inl hselected)] at hdelay
      cases hdelay
    · obtain ⟨houtbound, hnetwork, delay, hdelay, -⟩ := g.mem_choices.1 hmem
      rw [hunmeasured (.inr ⟨houtbound, hnetwork⟩)] at hdelay
      cases hdelay
  rw [g.selectByHistory_eq (g.exact_of_fits hfits), hbest]
  rfl

theorem obeys_of_exact (hcurrent : g.Exact g.current network)
    (hfallback : ¬ g.Measured g.current network → g.Exact g.fallback network) : g.Obeys network := by
  constructor
  · intro hsome
    obtain ⟨outbound, hselect, hrest⟩ := g.selectByHistory_some hcurrent hsome
    refine ⟨outbound, ?_, hrest⟩
    unfold select
    rw [hselect]
  · intro hnone hsome
    obtain ⟨outbound, hselect, hrest⟩ := g.selectByHistory_some (hfallback hnone) hsome
    refine ⟨outbound, ?_, hrest⟩
    unfold select
    rw [g.selectByHistory_none hnone, hselect]

/-! ## Updates -/

theorem selectByHistory_ofNetwork
    (hfits : g.Fits loadHistory network) (h : g.selectByHistory network loadHistory = some outbound) :
    g.OfNetwork network outbound := by
  rw [g.selectByHistory_eq (g.exact_of_fits hfits)] at h
  obtain ⟨⟨_, cost⟩, hbest, rfl⟩ := map_eq_some_iff.1 h
  rcases best_mem _ hbest with hstart | hmem
  · exact .inl (g.choice_startAt.1 hstart).1
  · obtain ⟨houtbound, hnetwork, -⟩ := g.mem_choices.1 hmem
    exact .inr ⟨houtbound, hnetwork⟩

theorem select_cases (hcurrent : g.Fits g.current network) (hfallback : g.Fits g.fallback network) :
    (∃ outbound, g.select network = (some outbound, true) ∧ g.OfNetwork network outbound ∧
      ((g.Measured g.current network ∧ g.Within g.current network outbound) ∨
        (¬ g.Measured g.current network ∧ g.Measured g.fallback network ∧ g.Within g.fallback network outbound))) ∨
    (¬ g.Measured g.current network ∧ ¬ g.Measured g.fallback network ∧ g.select network =
      (g.outbounds.find? fun detour => network ∈ g.manager.network detour && g.eligible detour network, false)) := by
  unfold select
  by_cases hsome : g.Measured g.current network
  · obtain ⟨outbound, hselect, -, hwithin, -⟩ := g.selectByHistory_some (g.exact_of_fits hcurrent) hsome
    rw [hselect]
    exact .inl ⟨outbound, rfl, g.selectByHistory_ofNetwork hcurrent hselect, .inl ⟨hsome, hwithin⟩⟩
  · rw [g.selectByHistory_none hsome]
    by_cases hretained : g.Measured g.fallback network
    · obtain ⟨outbound, hselect, -, hwithin, -⟩ := g.selectByHistory_some (g.exact_of_fits hfallback) hretained
      rw [hselect]
      exact .inl ⟨outbound, rfl, g.selectByHistory_ofNetwork hfallback hselect, .inr ⟨hsome, hretained, hwithin⟩⟩
    · rw [g.selectByHistory_none hretained]
      exact .inr ⟨hsome, hretained, rfl⟩

theorem selectedOutbound_update (hnetwork : network ≠ .icmp) :
    g.performUpdateCheck.selectedOutbound network = g.nextSelected network := by
  cases network with
  | tcp => rfl
  | udp => rfl
  | icmp => exact absurd rfl hnetwork

theorem nextSelected_of_history (h : g.select network = (some outbound, true)) :
    g.nextSelected network = some outbound := by
  unfold nextSelected
  rw [h]
  by_cases hsame : some outbound = g.selectedOutbound network
  · simp [← hsame]
  · simp [hsame]

theorem nextSelected_ofNetwork (hcurrent : g.Fits g.current network) (hfallback : g.Fits g.fallback network)
    (h : g.nextSelected network = some outbound) : g.OfNetwork network outbound := by
  have hnext : g.nextSelected network = g.selectedOutbound network ∨ g.nextSelected network = (g.select network).1 := by
    unfold nextSelected
    dsimp only
    split_ifs
    · exact .inr rfl
    · exact .inl rfl
  rcases hnext with hsame | hfound
  · exact .inl (hsame.symm.trans h)
  · rw [hfound] at h
    rcases g.select_cases hcurrent hfallback with ⟨_, hselect, hmem, -⟩ | ⟨-, -, hselect⟩ <;> rw [hselect] at h
    · exact some.inj h ▸ hmem
    · have hfind := List.find?_some (p := fun detour => network ∈ g.manager.network detour && g.eligible detour network) h
      exact .inr ⟨mem_of_find?_eq_some h, of_decide_eq_true (Bool.and_eq_true_iff.1 hfind).1⟩

theorem nextSelected_stable (network : Network) (hnetwork : network ≠ .icmp) (hcurrent : g.Fits g.current network)
    (hfallback : g.Fits g.fallback network) : g.performUpdateCheck.nextSelected network = g.nextSelected network := by
  have hselected := g.selectedOutbound_update hnetwork
  -- the outbounds of the network after the update are among those before it
  have hof {outbound : α} (h : g.performUpdateCheck.OfNetwork network outbound) : g.OfNetwork network outbound := by
    rcases h with h | h
    · exact g.nextSelected_ofNetwork hcurrent hfallback (hselected.symm.trans h)
    · exact .inr h
  have hmeasured {loadHistory : String → Option UInt16} (h : g.performUpdateCheck.Measured loadHistory network) :
      g.Measured loadHistory network := by
    obtain ⟨outbound, hmem, hsome⟩ := h
    exact ⟨outbound, hof hmem, hsome⟩
  have hfits {loadHistory : String → Option UInt16} (h : g.Fits loadHistory network) :
      g.performUpdateCheck.Fits loadHistory network := fun outbound delay hmem => h outbound delay (hof hmem)
  rcases g.select_cases hcurrent hfallback with ⟨outbound, hselect, -, hwithin⟩ | ⟨hnone, hnoneRetained, hselect⟩
  · have hnext := g.nextSelected_of_history hselect
    have hobeys := g.performUpdateCheck.obeys_of_exact (exact_of_fits _ (hfits hcurrent)) fun _ => exact_of_fits _ (hfits hfallback)
    have hstays {loadHistory : String → Option UInt16} (h : g.Within loadHistory network outbound)
        (hselects : g.performUpdateCheck.Measured loadHistory network →
          g.performUpdateCheck.SelectsWithin loadHistory network) :
        g.performUpdateCheck.select network = (some outbound, true) := by
      obtain ⟨delay, hdelay, hle⟩ := h
      obtain ⟨outbound', hselect', -, -, hkept⟩ :=
        hselects ⟨outbound, .inl (hselected.trans hnext), isSome_of_eq_some hdelay⟩
      obtain rfl := hkept outbound (hselected.trans hnext)
        ⟨delay, hdelay, fun other delay' hother => hle other delay' (hof hother)⟩
      exact hselect'
    rw [hnext]
    apply nextSelected_of_history
    rcases hwithin with ⟨-, hwithin⟩ | ⟨hnone, -, hwithin⟩
    · exact hstays hwithin hobeys.1
    · exact hstays hwithin (hobeys.2 fun h => hnone (hmeasured h))
  · have hselect' : g.performUpdateCheck.select network = g.select network := by
      rcases g.performUpdateCheck.select_cases (hfits hcurrent) (hfits hfallback) with
        ⟨_, -, -, ⟨hsome, -⟩ | ⟨-, hsome, -⟩⟩ | ⟨-, -, h⟩
      · exact absurd (hmeasured hsome) hnone
      · exact absurd (hmeasured hsome) hnoneRetained
      · exact h.trans hselect.symm
    have heligible (outbound : α) : g.performUpdateCheck.eligible outbound network = g.eligible outbound network := rfl
    rw [nextSelected, hselect', hselected]
    simp only [heligible]
    unfold nextSelected
    rw [hselect]
    dsimp only
    split_ifs
    all_goals rfl

/-- **A second update changes nothing**, as long as no sum wraps. -/
theorem performUpdateCheck_stable (hcurrent : ∀ network, g.Fits g.current network)
    (hfallback : ∀ network, g.Fits g.fallback network) : g.performUpdateCheck.performUpdateCheck = g.performUpdateCheck := by
  have htcp := g.nextSelected_stable .tcp nofun (hcurrent .tcp) (hfallback .tcp)
  have hudp := g.nextSelected_stable .udp nofun (hcurrent .udp) (hfallback .udp)
  unfold performUpdateCheck at htcp hudp ⊢
  rw [htcp, hudp]

/-! ## Selection with a wrap -/

/-- the loop leaves the outbound it has for `detour`, which is not faster by more than the tolerance -/
def LeavesWithin (loadHistory : String → Option UInt16) (network : Network) (state : UInt16 × Option α) (detour : α) : Prop :=
  ∃ kept cost delay, choice state = some (kept, cost) ∧ g.measured loadHistory network detour = some delay ∧
    cost ≤ delay.toNat + g.tolerance.toNat ∧ g.consider loadHistory network state detour = (delay, some detour)

theorem consider_proper {state : UInt16 × Option α} (hstate : Proper state) (detour : α) :
    Proper (g.consider loadHistory network state detour) := by
  unfold consider
  dsimp only
  split_ifs
  · cases hmeasured : g.measured loadHistory network detour with
    | none => exact hstate
    | some delay =>
      dsimp only
      split_ifs
      · exact iff_of_false (g.measured_pos hmeasured) nofun
      · exact hstate
  · exact hstate

theorem leaves_of_takesWrapped {state : UInt16 × Option α} (hstate : Proper state) {detour : α}
    (h : g.TakesWrapped loadHistory network state detour) : g.LeavesWithin loadHistory network state detour := by
  obtain ⟨minDelay, minOutbound⟩ := state
  obtain ⟨hnetwork, delay, hmeasured, hne, hwraps, hswitch⟩ := h
  have hbound := minDelay.toNat_lt
  cases minOutbound with
  | none => exact absurd (hstate.2 rfl) hne
  | some kept =>
    refine ⟨kept, minDelay.toNat, delay, rfl, hmeasured, by omega, ?_⟩
    unfold consider
    dsimp only
    rw [if_pos hnetwork, hmeasured]
    exact if_pos (.inr hswitch)

theorem leaves_of_not_sumsHold {state : UInt16 × Option α} (hstate : Proper state) {outbounds : List α}
    (h : ¬ g.SumsHold loadHistory network state outbounds) :
    ∃ pre detour post, outbounds = pre ++ detour :: post ∧
      g.LeavesWithin loadHistory network (pre.foldl (g.consider loadHistory network) state) detour := by
  induction outbounds generalizing state with
  | nil => exact absurd trivial h
  | cons detour outbounds ih =>
    by_cases hwrapped : g.TakesWrapped loadHistory network state detour
    · exact ⟨[], detour, outbounds, rfl, g.leaves_of_takesWrapped hstate hwrapped⟩
    · obtain ⟨pre, found, post, rfl, hleaves⟩ := ih (g.consider_proper hstate detour) fun hrest => h ⟨hwrapped, hrest⟩
      exact ⟨detour :: pre, found, post, rfl, hleaves⟩

/-- **Selection obeys the tolerance** if no sum that wraps decides in the loop that selects; a sum that does makes the loop
leave an outbound for one that is not faster by more than the tolerance. -/
theorem select_obeys (network : Network) :
    (g.Exact g.current network → (¬ g.Measured g.current network → g.Exact g.fallback network) → g.Obeys network) ∧
    ∀ loadHistory, ¬ g.Exact loadHistory network → ∃ pre detour post, g.outbounds = pre ++ detour :: post ∧
      g.LeavesWithin loadHistory network
        (pre.foldl (g.consider loadHistory network) (g.startAt loadHistory network)) detour :=
  ⟨fun hcurrent hfallback => g.obeys_of_exact hcurrent hfallback,
    fun loadHistory hwraps => g.leaves_of_not_sumsHold (g.startAt_proper loadHistory network) hwraps⟩

end URLTestGroup

def pairGroup (tolerance first second : UInt16) : URLTestGroup Bool where
  manager := ⟨fun outbound => if outbound then "first" else "second", fun _ => [.tcp], fun _ => none⟩
  history := ⟨0, fun tag => if tag = "first" then some ⟨0, first⟩ else if tag = "second" then some ⟨0, second⟩ else none,
    fun _ => false⟩
  outbounds := [true, false]
  tolerance := tolerance
  selectedOutboundTCP := some true

theorem pairGroup_stable :
    (pairGroup 50 100 120).performUpdateCheck.performUpdateCheck = (pairGroup 50 100 120).performUpdateCheck := by
  have hfits (generation : Option ℕ) (network : Network) :
      (pairGroup 50 100 120).Fits ((pairGroup 50 100 120).history.loadURLTestHistory generation) network := by
    intro outbound delay _ hmeasured
    obtain ⟨entry, hentry, rfl⟩ := HistoryStorage.entry_of_load (URLTestGroup.load_of_measured _ hmeasured)
    change (if _ = "first" then _ else if _ = "second" then _ else none) = _ at hentry
    split_ifs at hentry <;> obtain rfl := Option.some.inj hentry <;> decide
  exact URLTestGroup.performUpdateCheck_stable _ (hfits _) (hfits _)

theorem pairGroup_measured (tolerance : UInt16) {first second : UInt16} (hfirst : first ≠ 0) (hsecond : second ≠ 0) (outbound : Bool) :
    (pairGroup tolerance first second).measured (pairGroup tolerance first second).current .tcp outbound =
      some (if outbound then first else second) := by
  have hpos {delay : UInt16} (h : delay ≠ 0) : 0 < delay := UInt16.pos_iff_ne_zero.2 h
  have hleaf : (pairGroup tolerance first second).manager.selected outbound = none := rfl
  have htag := realTag_leaf (pairGroup tolerance first second).manager hleaf .tcp
  unfold URLTestGroup.measured URLTestGroup.eligible
  rw [htag]
  cases outbound with
  | true => simp [pairGroup, URLTestGroup.current, HistoryStorage.loadURLTestHistory, isAvailable, hpos hfirst]
  | false => simp [pairGroup, URLTestGroup.current, HistoryStorage.loadURLTestHistory, isAvailable, hpos hsecond]

theorem pairGroup_select {tolerance first second : UInt16} (hfirst : first ≠ 0) (hsecond : second ≠ 0)
    (hless : first > second + tolerance) : (pairGroup tolerance first second).select .tcp = (some false, true) := by
  have hselect : (pairGroup tolerance first second).selectByHistory .tcp (pairGroup tolerance first second).current =
      some false := by
    have hmeasured := pairGroup_measured tolerance hfirst hsecond
    have hstart : (pairGroup tolerance first second).startAt (pairGroup tolerance first second).current .tcp =
        (first, some true) := by
      change (match (pairGroup tolerance first second).measured _ _ true with
        | none => _
        | some delay => _) = _
      rw [hmeasured]
      rfl
    have hround (state : UInt16 × Option Bool) (outbound : Bool) :
        (pairGroup tolerance first second).consider (pairGroup tolerance first second).current .tcp state outbound =
          if state.1 = 0 ∨ state.1 > (if outbound then first else second) + tolerance
            then (if outbound then first else second, some outbound) else state := by
      have hnetwork : Network.tcp ∈ (pairGroup tolerance first second).manager.network outbound := mem_singleton.2 rfl
      unfold URLTestGroup.consider
      dsimp only
      rw [hmeasured, if_pos hnetwork]
      rfl
    have hstay : (if first = 0 ∨ first > first + tolerance then (first, some true) else (first, some true)) =
        (first, some true) := ite_self _
    have hswitch : (if first = 0 ∨ first > second + tolerance then (second, some false) else (first, some true)) =
        (second, some false) := if_pos (.inr hless)
    have houtbounds : (pairGroup tolerance first second).outbounds = [true, false] := rfl
    unfold URLTestGroup.selectByHistory
    rw [hstart, houtbounds, foldl_cons, foldl_cons, foldl_nil, hround, hround]
    simp only [if_true, Bool.false_eq_true, if_false, hstay, hswitch]
  unfold URLTestGroup.select
  rw [hselect]

theorem pairGroup_not_obeys (tolerance first second : UInt16) (hfirst : first ≠ 0) (hsecond : second ≠ 0)
    (hless : first > second + tolerance) (hslower : first.toNat ≤ second.toNat + tolerance.toNat) :
    ¬ (pairGroup tolerance first second).Obeys .tcp := by
  intro hobeys
  have hmeasured := pairGroup_measured tolerance hfirst hsecond
  have hsome : (pairGroup tolerance first second).Measured (pairGroup tolerance first second).current .tcp :=
    ⟨true, .inl rfl, by rw [hmeasured]; rfl⟩
  have hwithin : (pairGroup tolerance first second).Within (pairGroup tolerance first second).current .tcp true := by
    refine ⟨first, hmeasured true, fun other delay' _ hdelay => ?_⟩
    obtain rfl := some.inj ((hmeasured other).symm.trans hdelay)
    cases other with
    | true => exact Nat.le_add_right _ _
    | false => exact hslower
  obtain ⟨outbound, hselect, -, -, hstays⟩ := hobeys.1 hsome
  obtain rfl := hstays true rfl hwithin
  rw [pairGroup_select hfirst hsecond hless] at hselect
  cases hselect

/-- an outbound of 100 ms is left for one of 65500 ms -/
theorem slower_is_selected :
    (pairGroup 50 100 65500).select .tcp = (some false, true) ∧ ¬ (pairGroup 50 100 65500).Obeys .tcp :=
  ⟨pairGroup_select (by decide) (by decide) (by decide), pairGroup_not_obeys _ _ _ (by decide) (by decide) (by decide) (by decide)⟩

end EtonifyCore.Group
