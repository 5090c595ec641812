/-
What `Match` computes, as pure functions.

- `Regular`: a matcher changes nothing of the context but the deferred groups, and defers at most the destination
  address group. Every rule is regular, so a sub-rule or a set never sees what its siblings did.
- `truth`: the answer as a `Truth`, open while something is deferred; logical rules are three-valued connectives.
- `eval`: the answer when nothing is deferred, `plain_matchOn`.
-/
import EtonifyCore.Core.Truth
import EtonifyCore.Rule.Match

namespace EtonifyCore.RuleMatch

open List
open EtonifyCore.Core AbstractDefaultRule InboundContext RuleGroupMatch RuleItem RuleMatchState Truth Rule

variable {E D : Type}

/-! ## Deferred groups -/

namespace RuleMatchState

theorem isEmpty_iff (s : RuleMatchState) : s.isEmpty ↔ ∀ g, s g = false := by
  simp only [isEmpty, Bool.and_eq_true, Bool.not_eq_true']
  constructor
  · rintro ⟨⟨⟨h1, h2⟩, h3⟩, h4⟩ g
    cases g <;> assumption
  · intro h
    exact ⟨⟨⟨h _, h _⟩, h _⟩, h _⟩

/-- the destination address group if `x`, else nothing -/
def dst (x : Bool) : RuleMatchState := fun g => x && decide (g = .destinationAddress)

@[simp] theorem dst_isEmpty (x : Bool) : (dst x).isEmpty = !x := by
  cases x <;> rfl

@[simp] theorem dst_union (x y : Bool) : (dst x).union (dst y) = dst (x || y) := by
  funext g; cases x <;> cases y <;> cases g <;> rfl

@[simp] theorem dst_diff (x : Bool) (s : RuleMatchState) : (dst x).diff s = dst (x && !s .destinationAddress) := by
  funext g; cases x <;> cases g <;> simp [dst, diff]

@[simp] theorem empty_eq_dst : empty = dst false := rfl

@[simp] theorem single_eq_dst : single .destinationAddress = dst true := by
  funext g; cases g <;> rfl

end RuleMatchState

open RuleMatchState (dst)

/-! ## The context during a match -/

namespace InboundContext

@[simp] theorem setDeferred_deferred (m : InboundContext E) (d : RuleMatchState) :
    (m.setDeferred d).deferredIPCIDRMatchGroups = d := rfl

@[simp] theorem setDeferred_setDeferred (m : InboundContext E) (d d' : RuleMatchState) :
    (m.setDeferred d).setDeferred d' = m.setDeferred d' := rfl

variable {m : InboundContext E}

theorem setDeferred_self {d : RuleMatchState} (h : m.deferredIPCIDRMatchGroups = d) : m.setDeferred d = m := by
  subst h; rfl

end InboundContext

variable {m m' : InboundContext E}

theorem restore_congr (s : RuleMatchSnapshot) (h : m'.resetRuleCache = m.resetRuleCache) :
    s.restore m' = s.restore m := by
  have e : ∀ x : InboundContext E, s.restore x = s.restore x.resetRuleCache := fun _ => rfl
  rw [e m', h, ← e m]

@[simp] theorem restore_snapshot (m : InboundContext E) : (snapshotRuleMatch m).restore m = m := rfl

theorem restoreDeferred_snapshot (h : m'.resetRuleCache = m.resetRuleCache)
    (hm : m.deferredIPCIDRMatchGroups = dst false) (b x : Bool) :
    restoreDeferred (snapshotRuleMatch m) b (dst x) m' = m.setDeferred (dst (b && x)) := by
  have hs : (dst false).union (dst x) = dst x := by simp
  cases b <;> simp [restoreDeferred, restore_congr _ h, hm, hs, setDeferred_self]

variable (item : RuleSetItem E)

theorem prepareNestedMatch_congr
    (h : m'.resetRuleCache = m.resetRuleCache) : item.prepareNestedMatch m' = item.prepareNestedMatch m := by
  have e : ∀ x : InboundContext E, item.prepareNestedMatch x = item.prepareNestedMatch x.resetRuleCache := fun _ => rfl
  rw [e m', h, ← e m]

@[simp] theorem ruleItem_setDeferred (m : InboundContext E) (d : RuleMatchState) :
    RuleItem.matchOn (m.setDeferred d) = RuleItem.matchOn m := by
  funext i; cases i <;> rfl

/-! ## Regular matchers -/

/-- whether an answer was given with something left open -/
def pending (f : Matcher E) (m : InboundContext E) : Bool := !(f m).2.deferredIPCIDRMatchGroups.isEmpty

/-- a matcher that writes nothing but the deferred groups, and defers at most the destination address group -/
def Regular (f : Matcher E) : Prop :=
  ∀ m, m.deferredIPCIDRMatchGroups = dst false → (f m).2 = m.setDeferred (dst (pending f m))

theorem Regular.of_eq {f : Matcher E} (h : ∀ m, m.deferredIPCIDRMatchGroups = dst false →
    ∃ b x, f m = (b, m.setDeferred (dst x))) : Regular f := by
  intro m hm
  obtain ⟨b, x, e⟩ := h m hm
  simp [pending, e]

def truth (f : Matcher E) (m : InboundContext E) : Truth := Truth.held (f m).1 (pending f m)

theorem truth_of_eq {f : Matcher E} {b x : Bool} (h : f m = (b, m.setDeferred (dst x))) : truth f m = held b x := by
  simp [truth, pending, h]

variable {fs : List (Matcher E)}

theorem andLoop_eq (hf : ∀ f ∈ fs, Regular f) {m m1 : InboundContext E}
    (h1 : m1.resetRuleCache = m.resetRuleCache) (y : Bool) :
    ∃ m2 : InboundContext E, m2.resetRuleCache = m.resetRuleCache ∧
      andLoop fs m1 (dst y) = (fs.all fun f => (f m.resetRuleCache).1,
        dst ((fs.all fun f => (f m.resetRuleCache).1) && (y || fs.any fun f => pending f m.resetRuleCache)), m2) := by
  induction fs generalizing m1 y with
  | nil => exact ⟨m1, h1, by simp [andLoop]⟩
  | cons f fs ih =>
    have hr := hf f mem_cons_self m.resetRuleCache rfl
    have hbase : (f m.resetRuleCache).2.resetRuleCache = m.resetRuleCache := by rw [hr]; rfl
    obtain ⟨m2, h2, e⟩ := ih (fun g hg => hf g (mem_cons_of_mem _ hg)) hbase (y || pending f m.resetRuleCache)
    cases hb : (f m.resetRuleCache).1 with
    | false =>
      refine ⟨(f m.resetRuleCache).2, hbase, ?_⟩
      simp [andLoop, h1, hb]
    | true =>
      refine ⟨m2, h2, ?_⟩
      have hd : (f m.resetRuleCache).2.deferredIPCIDRMatchGroups = dst (pending f m.resetRuleCache) := by
        rw [hr]; rfl
      simp only [andLoop, h1, hb, if_true, hd, dst_union, e, all_cons, Bool.true_and, any_cons, Bool.or_assoc]

theorem orLoop_eq (reset : InboundContext E → InboundContext E) (hf : ∀ f ∈ fs, Regular f)
    (hd : (reset m).deferredIPCIDRMatchGroups = dst false)
    (hset : ∀ d, reset ((reset m).setDeferred d) = reset m) {m1 : InboundContext E} (h1 : reset m1 = reset m)
    (hb1 : m1.resetRuleCache = m.resetRuleCache) (hb : (reset m).resetRuleCache = m.resetRuleCache) (b y : Bool)
    (hy : b → y) : ∃ m2 : InboundContext E, m2.resetRuleCache = m.resetRuleCache ∧ ∃ d,
      orLoop reset fs m1 b (dst y) = (b || fs.any fun f => (f (reset m)).1, dst d, m2) ∧
      ((b || fs.any fun f => (f (reset m)).1) → d = !fs.any fun f => (f (reset m)).1 && !pending f (reset m)) := by
  induction fs generalizing m1 b y with
  | nil => exact ⟨m1, hb1, y, by simp [orLoop], by simpa using hy⟩
  | cons f fs ih =>
    have hr := hf f mem_cons_self (reset m) hd
    have hdf : (f (reset m)).2.deferredIPCIDRMatchGroups = dst (pending f (reset m)) := by rw [hr]; rfl
    have hreset : reset (f (reset m)).2 = reset m := by rw [hr, hset]
    have hbase : (f (reset m)).2.resetRuleCache = m.resetRuleCache := by rw [hr]; exact hb
    have hfs : ∀ g ∈ fs, Regular g := fun g hg => hf g (mem_cons_of_mem _ hg)
    cases hbf : (f (reset m)).1 with
    | false =>
      obtain ⟨m2, h2, d, e, hdd⟩ := ih hfs hreset hbase b y hy
      exact ⟨m2, h2, d, by simp [orLoop, h1, hbf, e], by simpa [hbf] using hdd⟩
    | true =>
      cases hp : pending f (reset m) with
      | false =>
        refine ⟨(f (reset m)).2, hbase, false, ?_, by simp [hbf, hp]⟩
        simp [orLoop, h1, hbf, hdf, hp]
      | true =>
        obtain ⟨m2, h2, d, e, hdd⟩ := ih hfs hreset hbase true true (fun _ => rfl)
        refine ⟨m2, h2, d, ?_, by simpa [hbf, hp] using hdd⟩
        simp [orLoop, h1, hbf, hdf, hp, e]

theorem truth_all (fs : List (Matcher E)) (m : InboundContext E) :
    Truth.all (fs.map fun f => truth f m) = Truth.held (fs.all fun f => (f m).1) (fs.any fun f => pending f m) := by
  ext1
  · simp [Truth.all, Truth.held, truth, all_map, Function.comp_def]
  · induction fs with
    | nil => rfl
    | cons f fs ih =>
      simp only [Truth.all, Truth.held, truth, map_cons, all_cons, any_cons] at ih ⊢
      rw [ih]
      cases (f m).1 <;> cases pending f m <;> simp

theorem truth_any_of_eq (fs : List (Matcher E)) (m : InboundContext E) (d : Bool)
    (hd : (fs.any fun f => (f m).1) → d = !fs.any fun f => (f m).1 && !pending f m) :
    Truth.held (fs.any fun f => (f m).1) d = Truth.any (fs.map fun f => truth f m) := by
  ext1
  · simp [Truth.any, Truth.held, truth, any_map, Function.comp_def]
  · have e : (Truth.any (fs.map fun f => truth f m)).definite = fs.any fun f => (f m).1 && !pending f m := by
      simp [Truth.any, Truth.held, truth, any_map, Function.comp_def]
    rw [e]
    cases hb : fs.any fun f => (f m).1 with
    | true => simp [held, hd hb]
    | false =>
      have hn : ∀ f ∈ fs, (f m).1 = false := by simpa using hb
      symm
      simp only [held, Bool.false_and, any_eq_false]
      intro f hf
      simp [hn f hf]

/-! ## Logical rules -/

def LogicalMode.combine : LogicalMode → List Truth → Truth
  | .and => Truth.all
  | .or => Truth.any

theorem invert_loop {m m2 : InboundContext E} (h2 : m2.resetRuleCache = m.resetRuleCache)
    (hm : m.deferredIPCIDRMatchGroups = dst false) (invert b x : Bool) :
    ∃ b' x', (if invert then (if b then !(dst x).isEmpty else true) else b,
        restoreDeferred (snapshotRuleMatch m) b (dst x) m2) = (b', m.setDeferred (dst x')) ∧
      held b' x' = (held b x).xor invert := by
  rw [restoreDeferred_snapshot h2 hm]
  refine ⟨_, _, rfl, ?_⟩
  cases invert <;> cases b <;> cases x <;> rfl

section

variable (hf : ∀ f ∈ fs, Regular f) (mode : LogicalMode) (invert : Bool) (hm : m.deferredIPCIDRMatchGroups = dst false)
include hf hm

theorem logicalMatch_eq : ∃ b x, logicalMatch mode invert fs m = (b, m.setDeferred (dst x)) ∧
      held b x = (mode.combine (fs.map fun f => truth f m.resetRuleCache)).xor invert := by
  cases mode with
  | and =>
    obtain ⟨m2, h2, e⟩ := andLoop_eq hf (m := m) rfl false
    obtain ⟨b', x', e', ht⟩ := invert_loop h2 hm invert (fs.all fun f => (f m.resetRuleCache).1) _
    refine ⟨b', x', by simp only [logicalMatch, empty_eq_dst, e]; exact e', ?_⟩
    rw [ht, LogicalMode.combine, truth_all]
    congr 1
    ext1 <;> simp [held]
    cases fs.all fun f => (f m.resetRuleCache).1 <;> simp
  | or =>
    obtain ⟨m2, h2, d, e, hd⟩ := orLoop_eq resetRuleCache hf (m := m) rfl (fun _ => rfl) rfl rfl rfl
      false false (by simp)
    obtain ⟨b', x', e', ht⟩ := invert_loop h2 hm invert (fs.any fun f => (f m.resetRuleCache).1) d
    refine ⟨b', x', by simp only [logicalMatch, empty_eq_dst, e]; exact e', ?_⟩
    rw [ht, LogicalMode.combine]
    congr 1
    exact truth_any_of_eq fs _ d hd

theorem truth_logicalMatch :
    truth (logicalMatch mode invert fs) m = (mode.combine (fs.map fun f => truth f m.resetRuleCache)).xor invert := by
  obtain ⟨b, x, e, ht⟩ := logicalMatch_eq hf mode invert hm
  rw [truth_of_eq e, ht]

end

variable {leaf : D → Matcher E}

theorem rule_regular (hl : ∀ d, Regular (leaf d)) (r : Rule D) : Regular (Rule.matchOn leaf r) := by
  induction r using inductionOn with
  | default d => exact hl d
  | logical mode invert rs ih =>
    refine Regular.of_eq fun m hm => ?_
    have hf : ∀ f ∈ rs.map (Rule.matchOn leaf), Regular f := by simpa using ih
    obtain ⟨b, x, e, -⟩ := logicalMatch_eq hf mode invert hm
    exact ⟨b, x, by rw [Rule.matchOn, matchers_eq, e]⟩

theorem truth_logical (hl : ∀ d, Regular (leaf d)) (mode : LogicalMode) (invert : Bool)
    (rs : List (Rule D)) (hm : m.deferredIPCIDRMatchGroups = dst false) :
    truth (Rule.matchOn leaf (.logical mode invert rs)) m =
      (mode.combine (rs.map fun r => truth (Rule.matchOn leaf r) m.resetRuleCache)).xor invert := by
  have hf : ∀ f ∈ rs.map (Rule.matchOn leaf), Regular f := by simpa using fun r _ => rule_regular hl r
  have ht := truth_logicalMatch hf mode invert hm
  rw [Rule.matchOn, matchers_eq, ht, map_map]
  rfl

/-! ## Default rules -/

theorem RuleGroupMatch.ext_of {a b : RuleGroupMatch} (hr : ∀ g, a.required g = b.required g)
    (hs : ∀ g, a.satisfied g = b.satisfied g) : a = b := by
  cases a
  cases b
  obtain rfl := funext hr
  obtain rfl := funext hs
  rfl

theorem done_iff (gs : RuleGroupMatch) : gs.done ↔ ∀ g, gs.required g → gs.satisfied g := by
  rw [done, RuleMatchState.isEmpty_iff]
  refine forall_congr' fun g => ?_
  cases hr : gs.required g <;> cases hs : gs.satisfied g <;> simp [diff, hr, hs]

namespace AbstractDefaultRule

variable (r : AbstractDefaultRule E)

theorem evaluateGroups_eq (m : InboundContext E) (hm : m.deferredIPCIDRMatchGroups = dst false) :
    r.evaluateGroups m = (r.groups m, m.setDeferred (dst (r.defers m))) := by
  unfold evaluateGroups
  cases r.defers m with
  | true => simp [hm]
  | false => simp [setDeferred_self hm]

def groupItems (r : AbstractDefaultRule E) : Group → List (RuleItem E)
  | .sourceAddress => r.sourceAddressItems
  | .sourcePort => r.sourcePortItems
  | .destinationAddress => r.destinationAddressItems
  | .destinationPort => r.destinationPortItems

/-- whether the `ip_cidr` items are tested as part of group `g` -/
def ipCIDRIn (r : AbstractDefaultRule E) (m : InboundContext E) : Group → Bool
  | .sourceAddress => r.destinationIPCIDRMatchesSource m
  | .destinationAddress => r.destinationIPCIDRMatchesDestination m
  | .sourcePort | .destinationPort => false

section

variable (g h : Group) (items : List (RuleItem E)) (m : InboundContext E) (gs : RuleGroupMatch)

theorem evaluateGroup_required :
    (evaluateGroup g items m gs).required h = (gs.required h || (decide (h = g) && !items.isEmpty)) := by
  unfold evaluateGroup
  cases items.isEmpty <;> simp [require, union, single]

theorem evaluateGroup_satisfied :
    (evaluateGroup g items m gs).satisfied h = (gs.satisfied h || (decide (h = g) && matchAnyItem items m)) := by
  unfold evaluateGroup
  cases items with
  | nil => simp [matchAnyItem]
  | cons i is =>
    cases matchAnyItem (i :: is) m <;> simp [require, union, single]

end

section

variable (use : Bool) (g h : Group) (r : AbstractDefaultRule E) (m : InboundContext E) (gs : RuleGroupMatch)

theorem evaluateIPCIDR_required : (evaluateIPCIDR use g r m gs).required h = (gs.required h || (decide (h = g) && use)) := by
  unfold evaluateIPCIDR
  cases use <;> simp [require, union, single]

theorem evaluateIPCIDR_satisfied : (evaluateIPCIDR use g r m gs).satisfied h =
      (gs.satisfied h || (decide (h = g) && (use && matchAnyAddressItem r.destinationIPCIDRItems m))) := by
  unfold evaluateIPCIDR
  cases use with
  | false => simp
  | true =>
    -- the items are not tested when the group is satisfied already
    cases hg : gs.satisfied g <;> cases matchAnyAddressItem r.destinationIPCIDRItems m <;>
      simp [require, union, single]
    by_cases hh : h = g
    · simp [hh, hg]
    · simp [hh]

end

theorem groups_required (m : InboundContext E) (g : Group) :
    (r.groups m).required g = (!(r.groupItems g).isEmpty || r.ipCIDRIn m g) := by
  simp only [groups, evaluateGroup_required, evaluateIPCIDR_required]
  cases g <;> simp [groupItems, ipCIDRIn, dst]

theorem groups_satisfied (m : InboundContext E) (g : Group) :
    (r.groups m).satisfied g = (matchAnyItem (r.groupItems g) m ||
      (r.ipCIDRIn m g && matchAnyAddressItem r.destinationIPCIDRItems m)) := by
  simp only [groups, evaluateGroup_satisfied, evaluateIPCIDR_satisfied]
  cases g <;> simp [groupItems, ipCIDRIn, dst]

theorem groups_congr {r : AbstractDefaultRule E} (hin : ∀ g, r.ipCIDRIn m g = r.ipCIDRIn m' g)
    (hitems : ∀ g, matchAnyItem (r.groupItems g) m = matchAnyItem (r.groupItems g) m')
    (hcidr : matchAnyAddressItem r.destinationIPCIDRItems m = matchAnyAddressItem r.destinationIPCIDRItems m') :
    r.groups m = r.groups m' := by
  refine ext_of (fun g => ?_) (fun g => ?_)
  · rw [groups_required, groups_required, hin]
  · rw [groups_satisfied, groups_satisfied, hin, hitems, hcidr]

theorem satisfied_of_defers {r : AbstractDefaultRule E} (h : r.defers m) :
    (r.groups m).satisfied .destinationAddress = false := by
  simp only [defers, Bool.and_eq_true, List.isEmpty_iff] at h
  obtain ⟨⟨⟨hi, -⟩, -⟩, hd⟩ := h
  have hu : r.ipCIDRIn m .destinationAddress = false := by simp [ipCIDRIn, destinationIPCIDRMatchesDestination, hi]
  rw [groups_satisfied, hu, groupItems, hd]
  rfl

/-- the conjunction a default rule stands for, before `invert` and rule-sets -/
def base (r : AbstractDefaultRule E) (m : InboundContext E) : Bool :=
  r.items.all (RuleItem.matchOn m) && (r.groups m).done

theorem invert_inner (m : InboundContext E) (invert b x : Bool) : ∃ b' x', (if invert then
          if b then (!(m.setDeferred (dst x)).deferredIPCIDRMatchGroups.isEmpty, m.setDeferred (dst x))
          else (true, (m.setDeferred (dst x)).setDeferred .empty)
        else (b, m.setDeferred (dst x))) = (b', m.setDeferred (dst x')) ∧ held b' x' = (held b x).xor invert := by
  cases invert
  · exact ⟨b, x, rfl, rfl⟩
  · cases b
    · exact ⟨true, false, rfl, rfl⟩
    · exact ⟨x, x, by simp, by cases x <;> rfl⟩

theorem matchInner_none (hm : m.deferredIPCIDRMatchGroups = dst false) :
    matchInner none r m = (r.base m, m.setDeferred (dst (r.defers m))) := by
  rw [matchInner, r.evaluateGroups_eq m hm]
  cases hi : r.items.all (RuleItem.matchOn m) with
  | false => simp [base, hi]
  | true =>
    cases hg : (r.groups m).done with
    | false => simp [base, hi, hg]
    | true =>
      cases hd : r.defers m with
      | false => simp [base, hi, hg]
      | true => simp [base, hi, hg, satisfied_of_defers hd]

theorem matchOn_none_eq (hm : m.deferredIPCIDRMatchGroups = dst false) (hne : r.noItems = false) :
    ∃ b x, matchOn none r m = (b, m.setDeferred (dst x)) ∧
      held b x = (held (r.base m) (r.defers m)).xor r.invert := by
  obtain ⟨b', x', e, ht⟩ := invert_inner m r.invert (r.base m) (r.defers m)
  refine ⟨b', x', ?_, ht⟩
  simp only [matchOn, hne, Bool.false_and, matchInner_none r hm]
  exact e

theorem matchOn_none_regular : Regular (matchOn none r) := by
  refine Regular.of_eq fun m hm => ?_
  cases hne : r.noItems with
  | true => exact ⟨true, false, by simp [matchOn, hne, setDeferred_self hm]⟩
  | false =>
    obtain ⟨b, x, e, -⟩ := matchOn_none_eq r hm hne
    exact ⟨b, x, e⟩

theorem truth_matchOn_none (hm : m.deferredIPCIDRMatchGroups = dst false) :
    truth (matchOn none r) m = if r.noItems then ofBool true else (held (r.base m) (r.defers m)).xor r.invert := by
  cases hne : r.noItems with
  | true =>
    have e : matchOn none r m = (true, m.setDeferred (dst false)) := by
      simp [matchOn, hne, setDeferred_self hm]
    rw [truth_of_eq e]; rfl
  | false =>
    obtain ⟨b, x, e, ht⟩ := matchOn_none_eq r hm hne
    rw [truth_of_eq e, ht]; rfl

end AbstractDefaultRule

theorem headless_regular (r : HeadlessRule E) : Regular r.matchOn :=
  rule_regular (fun d => d.toAbstractDefaultRule.matchOn_none_regular) r

/-! ## Rule-sets -/

variable (rules : List (HeadlessRule E))

theorem matchAnyHeadlessRule_eq (hm : m.deferredIPCIDRMatchGroups = dst false) :
    ∃ x, matchAnyHeadlessRule rules m = (rules.any fun r => (r.matchOn m).1, m.setDeferred (dst x)) ∧
      Truth.held (rules.any fun r => (r.matchOn m).1) x = Truth.any (rules.map fun r => truth r.matchOn m) := by
  have hf : ∀ f ∈ rules.map HeadlessRule.matchOn, Regular f := by simpa using fun r _ => headless_regular r
  have hreset : m.resetRuleMatchCache = m := setDeferred_self hm
  obtain ⟨m2, h2, d, e, hd⟩ := orLoop_eq resetRuleMatchCache hf (m := m) rfl (fun _ => rfl) rfl rfl
    rfl false false (by simp)
  simp only [hreset, Bool.false_or, any_map, Function.comp_def] at e hd
  refine ⟨(rules.any fun r => (r.matchOn m).1) && d, ?_, ?_⟩
  · simp only [matchAnyHeadlessRule, empty_eq_dst, e, restoreDeferred_snapshot h2 hm]
  · have ht := truth_any_of_eq (rules.map HeadlessRule.matchOn) m d
      (by simpa only [any_map, Function.comp_def] using hd)
    simp only [any_map, map_map, Function.comp_def] at ht
    rw [← ht]
    cases rules.any fun r => (r.matchOn m).1 <;> simp [held]

theorem matchAnyHeadlessRule_regular : Regular (matchAnyHeadlessRule rules) := Regular.of_eq fun _ hm =>
    have ⟨x, e, _⟩ := matchAnyHeadlessRule_eq rules hm
    ⟨_, x, e⟩

theorem truth_matchAnyHeadlessRule (hm : m.deferredIPCIDRMatchGroups = dst false) :
    truth (matchAnyHeadlessRule rules) m = Truth.any (rules.map fun r => truth r.matchOn m) := by
  obtain ⟨x, e, ht⟩ := matchAnyHeadlessRule_eq rules hm
  rw [truth_of_eq e, ht]

namespace RuleSetItem

section

variable (item : RuleSetItem E) (m : InboundContext E)

def merged (outer : RuleGroupMatch) (branch : DefaultHeadlessRule E) : RuleGroupMatch :=
  outer.mergeWith (branch.groups (item.prepareNestedMatch m))

def setPossible (outer : RuleGroupMatch) (s : RuleSet E) : Bool :=
  match mergeableRuleIn s.rules with
  | some branch =>
    branch.items.all (RuleItem.matchOn (item.prepareNestedMatch m)) && (item.merged m outer branch).done
  | none => outer.done && (matchAnyHeadlessRule s.rules (item.prepareNestedMatch m)).1

/-- whether the set's own `ip_cidr` items were left for later -/
def setPending (s : RuleSet E) : Bool :=
  match mergeableRuleIn s.rules with
  | some branch => branch.defers (item.prepareNestedMatch m)
  | none => pending (matchAnyHeadlessRule s.rules) (item.prepareNestedMatch m)

/-- whether a merged rule satisfies the destination address group together with the outer rule -/
def setSatisfies (outer : RuleGroupMatch) (s : RuleSet E) : Bool :=
  match mergeableRuleIn s.rules with
  | some branch => (item.merged m outer branch).satisfied .destinationAddress
  | none => false

end

theorem matchLoop_cons (outer : RuleGroupMatch) (s : RuleSet E) (sets : List (RuleSet E))
    {m m1 : InboundContext E} {y : Bool} (hm : m.deferredIPCIDRMatchGroups = dst y)
    (h1 : m1.resetRuleCache = m.resetRuleCache) (matched x : Bool) :
    ∃ m2 : InboundContext E, m2.resetRuleCache = m.resetRuleCache ∧
      matchLoop item outer (snapshotRuleMatch m) (s :: sets) m1 matched (dst x) = if item.setPossible m outer s then
          if item.setPending m s && !item.setSatisfies m outer s then
            matchLoop item outer (snapshotRuleMatch m) sets m2 true (dst true)
          else (true, m.setDeferred (dst (y && !item.setSatisfies m outer s)))
        else matchLoop item outer (snapshotRuleMatch m) sets m2 matched (dst x) := by
  have hp := prepareNestedMatch_congr item h1
  have hm' : (item.prepareNestedMatch m).deferredIPCIDRMatchGroups = dst false := rfl
  have hrestore : ∀ d, (snapshotRuleMatch m).restore ((item.prepareNestedMatch m).setDeferred d) =
      m.setDeferred (dst y) := by
    intro d
    rw [setDeferred_self hm]
    exact restore_congr (snapshotRuleMatch m) rfl
  cases hs : mergeableRuleIn s.rules with
  | some branch =>
    refine ⟨(item.prepareNestedMatch m).setDeferred (dst (branch.defers (item.prepareNestedMatch m))), rfl, ?_⟩
    have hmerged : outer.mergeWith (branch.groups (item.prepareNestedMatch m)) = item.merged m outer branch := rfl
    simp only [matchLoop, hs, hp, setPossible, setPending, setSatisfies, evaluateForMerge,
      branch.toAbstractDefaultRule.evaluateGroups_eq _ hm', ruleItem_setDeferred]
    cases branch.items.all (RuleItem.matchOn (item.prepareNestedMatch m)) with
    | false => simp
    | true =>
      simp only [if_true, hmerged, Bool.true_and]
      cases hg : (item.merged m outer branch).done with
      | false => simp
      | true =>
        simp only [if_true, setDeferred_deferred, dst_diff, dst_isEmpty, dst_union, hrestore]
        cases branch.defers (item.prepareNestedMatch m) <;>
          cases (item.merged m outer branch).satisfied .destinationAddress <;> simp
  | none =>
    refine ⟨(item.prepareNestedMatch m).setDeferred
      (dst (outer.done && pending (matchAnyHeadlessRule s.rules) (item.prepareNestedMatch m))), rfl, ?_⟩
    have hr := matchAnyHeadlessRule_regular s.rules (item.prepareNestedMatch m) hm'
    simp only [matchLoop, hs, hp, setPossible, setPending, setSatisfies]
    cases hg : outer.done with
    | false => simp [setDeferred_self hm']
    | true =>
      cases (matchAnyHeadlessRule s.rules (item.prepareNestedMatch m)).1 with
      | false => simp [← hr]
      | true =>
        simp only [if_true, hr, setDeferred_deferred, dst_isEmpty, dst_union]
        cases pending (matchAnyHeadlessRule s.rules) (item.prepareNestedMatch m) with
        | false => simp [hrestore]
        | true => simp

/-- a set that matches with nothing left open, given whether the outer rule left its own items open (`y`) -/
def setSettles (item : RuleSetItem E) (m : InboundContext E) (outer : RuleGroupMatch) (y : Bool) (s : RuleSet E) :
    Bool :=
  item.setPossible m outer s && (item.setSatisfies m outer s || (!item.setPending m s && !y))

theorem matchLoop_eq (outer : RuleGroupMatch) {y : Bool}
    (hm : m.deferredIPCIDRMatchGroups = dst y) (sets : List (RuleSet E)) {m1 : InboundContext E}
    (h1 : m1.resetRuleCache = m.resetRuleCache) (matched x : Bool) (hx : matched = x) :
    ∃ z, matchLoop item outer (snapshotRuleMatch m) sets m1 matched (dst x) =
        (matched || sets.any (item.setPossible m outer), m.setDeferred (dst z)) ∧
      (matched ∨ sets.any (item.setPossible m outer) → z = false →
        sets.any (item.setSettles m outer y)) ∧
      (matched = false → y = false → (∀ s ∈ sets, item.setPossible m outer s → item.setPending m s = false) →
        z = false) := by
  induction sets generalizing m1 matched x with
  | nil =>
    subst hx
    refine ⟨y || matched, ?_, ?_, ?_⟩
    · have hr : (snapshotRuleMatch m).restore m1 = m := by rw [restore_congr _ h1, restore_snapshot]
      cases matched <;> simp [matchLoop, restoreDeferred, hr, hm, setDeferred_self]
    · rintro (h | h)
      · simp [h]
      · simp at h
    · intro h hy _
      simp [h, hy]
  | cons s sets ih =>
    obtain ⟨m2, h2, e⟩ := matchLoop_cons item outer s sets hm h1 matched x
    rw [e]
    cases hs : item.setPossible m outer s with
    | false =>
      obtain ⟨z, e', hz, hp⟩ := ih h2 matched x hx
      refine ⟨z, by simp [e', hs], ?_, fun h hy hn => hp h hy fun t ht => hn t (mem_cons_of_mem _ ht)⟩
      intro h h0
      have h' := hz (by simpa [hs] using h) h0
      simp only [any_cons, h', Bool.or_true]
    | true =>
      cases ho : item.setPending m s && !item.setSatisfies m outer s with
      | true =>
        obtain ⟨z, e', hz, hp⟩ := ih h2 true true rfl
        refine ⟨z, by simp [e', hs], ?_, ?_⟩
        · intro _ h0
          have h' := hz (.inl rfl) h0
          simp only [any_cons, h', Bool.or_true]
        · intro _ _ hn
          rw [hn s mem_cons_self hs] at ho
          simp at ho
      | false =>
        refine ⟨y && !item.setSatisfies m outer s, by simp [hs], ?_, fun _ hy _ => by simp [hy]⟩
        intro _ h0
        simp only [any_cons, setSettles, hs]
        revert ho h0
        cases item.setPending m s <;> cases item.setSatisfies m outer s <;> cases y <;> simp

end RuleSetItem

/-! ## Default rules with a rule-set reference -/

namespace AbstractDefaultRule

section

variable (item : RuleSetItem E) (r : AbstractDefaultRule E) (m : InboundContext E)

/-- the conjunction a default rule with a rule-set reference stands for, before `invert` -/
def baseWithSet : Bool :=
  r.items.all (RuleItem.matchOn m) && item.setList.any (item.setPossible m (r.groups m))

def settledWithSet : Bool :=
  (r.groups m).satisfied .destinationAddress || item.setList.any (item.setSettles m (r.groups m) (r.defers m))

end

section

variable (m : InboundContext E) (d : RuleMatchState)

theorem setPossible_setDeferred : item.setPossible (m.setDeferred d) = item.setPossible m := rfl

theorem setPending_setDeferred : item.setPending (m.setDeferred d) = item.setPending m := rfl

theorem setSettles_setDeferred : item.setSettles (m.setDeferred d) = item.setSettles m := rfl

end

section

variable (r : AbstractDefaultRule E) (hm : m.deferredIPCIDRMatchGroups = dst false)
include hm

theorem matchInner_some :
    ∃ x, matchInner (some item.matchWithOuterGroups) r m = (r.baseWithSet item m, m.setDeferred (dst x)) ∧
      (r.baseWithSet item m → x = false → r.settledWithSet item m) ∧
      (r.defers m = false →
        (∀ s ∈ item.setList, item.setPossible m (r.groups m) s → item.setPending m s = false) → x = false) := by
  have hd : (m.setDeferred (dst (r.defers m))).deferredIPCIDRMatchGroups = dst (r.defers m) := rfl
  obtain ⟨z, e, hz, hp⟩ := item.matchLoop_eq (r.groups m) hd item.setList rfl false false rfl
  simp only [setPossible_setDeferred, setSettles_setDeferred, setPending_setDeferred, Bool.false_or,
    setDeferred_setDeferred] at e hz hp
  rw [matchInner, r.evaluateGroups_eq m hm]
  cases hi : r.items.all (RuleItem.matchOn m) with
  | false => exact ⟨r.defers m, by simp [baseWithSet, hi], by simp [baseWithSet, hi], fun h _ => h⟩
  | true =>
    simp only [RuleSetItem.matchWithOuterGroups, empty_eq_dst, e]
    cases hs : item.setList.any (item.setPossible m (r.groups m)) with
    | false => exact ⟨z, by simp [baseWithSet, hi, hs], by simp [baseWithSet, hs], fun h hn => hp trivial h hn⟩
    | true =>
      refine ⟨z && !(r.groups m).satisfied .destinationAddress, by simp [baseWithSet, hi, hs], ?_, ?_⟩
      · intro _ h0
        simp only [settledWithSet, Bool.or_eq_true]
        cases hsat : (r.groups m).satisfied .destinationAddress with
        | true => exact .inl rfl
        | false => exact .inr (hz (.inr hs) (by simpa [hsat] using h0))
      · intro h hn
        simp [hp trivial h hn]

theorem matchOn_some_eq : ∃ b x z, matchOn (some item.matchWithOuterGroups) r m = (b, m.setDeferred (dst z)) ∧
      held b z = (held (r.baseWithSet item m) x).xor r.invert ∧
      (r.baseWithSet item m → x = false → r.settledWithSet item m) ∧
      (r.defers m = false →
        (∀ s ∈ item.setList, item.setPossible m (r.groups m) s → item.setPending m s = false) → x = false) := by
  obtain ⟨x, e, hz, hp⟩ := matchInner_some item r hm
  obtain ⟨b', z, e', ht⟩ := invert_inner m r.invert (r.baseWithSet item m) x
  refine ⟨b', x, z, ?_, ht, hz, hp⟩
  simp only [matchOn, Option.isNone_some, Bool.and_false, e]
  exact e'

end

end AbstractDefaultRule

namespace DefaultDNSRule

theorem abstractMatch_regular (r : DefaultDNSRule E) : Regular r.abstractMatch := by
  unfold abstractMatch
  cases r.ruleSetItem with
  | none => exact r.toAbstractDefaultRule.matchOn_none_regular
  | some item =>
    refine Regular.of_eq fun m hm => ?_
    obtain ⟨b, -, z, e, -⟩ := matchOn_some_eq item r.toAbstractDefaultRule hm
    exact ⟨b, z, e⟩

theorem matchForMatch_regular (r : DefaultDNSRule E) : Regular r.matchForMatch := by
  refine Regular.of_eq fun m hm => ?_
  have hself : m.setDeferred (dst false) = m := setDeferred_self hm
  unfold matchForMatch
  split_ifs
  · cases r.boundResponse m with
    | none | some response => exact ⟨_, false, by rw [hself]⟩
  · exact ⟨_, _, Prod.ext rfl (r.abstractMatch_regular m hm)⟩

end DefaultDNSRule

theorem dnsRule_regular (r : DNSRuleTree E) : Regular r.matchOn := rule_regular DefaultDNSRule.matchForMatch_regular r

/-! ## Matching with nothing deferred -/

/-- ordinary matching: `LegacyPreMatch` is not running and nothing is deferred -/
structure Plain (m : InboundContext E) : Prop where
  ignore : m.ignoreDestinationIPCIDRMatch = false
  deferred : m.deferredIPCIDRMatchGroups = dst false

theorem Plain.reset (h : Plain m) : Plain m.resetRuleCache := ⟨h.ignore, rfl⟩

theorem Plain.prepare (h : Plain m) (item : RuleSetItem E) : Plain (item.prepareNestedMatch m) := ⟨h.ignore, rfl⟩

theorem Plain.response (h : Plain m) (response : Option Msg) : Plain (DefaultDNSRule.responseContext m response) :=
  ⟨h.ignore, h.deferred⟩

theorem Plain.defers (h : Plain m) (r : AbstractDefaultRule E) : r.defers m = false := by
  simp [AbstractDefaultRule.defers, h.ignore]

def LogicalMode.eval : LogicalMode → List Bool → Bool
  | .and, bs => bs.all id
  | .or, bs => bs.any id

mutual

/-- a rule tree as a Boolean function; `reset` is what a logical rule does to the context of its sub-rules -/
def Rule.eval (reset : InboundContext E → InboundContext E) (leaf : D → InboundContext E → Bool) :
    Rule D → InboundContext E → Bool
  | .default d, m => leaf d m
  | .logical mode invert rules, m => invert ^^ mode.eval (Rule.evals reset leaf rules (reset m))

def Rule.evals (reset : InboundContext E → InboundContext E) (leaf : D → InboundContext E → Bool) :
    List (Rule D) → InboundContext E → List Bool
  | [], _ => []
  | r :: rs, m => Rule.eval reset leaf r m :: Rule.evals reset leaf rs m

end

theorem Rule.evals_eq (reset : InboundContext E → InboundContext E) (leaf : D → InboundContext E → Bool)
    (rs : List (Rule D)) (m : InboundContext E) : evals reset leaf rs m = rs.map fun r => Rule.eval reset leaf r m := by
  induction rs with
  | nil => simp [evals]
  | cons r rs ih => simp [evals, ih]

theorem Rule.eval_congr {R : InboundContext E → InboundContext E → Prop}
    {reset reset' : InboundContext E → InboundContext E} (hreset : ∀ m m', R m m' → R (reset m) (reset' m'))
    {leaf leaf' : D → InboundContext E → Bool} {bad : D → Bool}
    (hl : ∀ d, bad d = false → ∀ m m', R m m' → leaf d m = leaf' d m') (r : Rule D) (hr : has bad r = false)
    (h : R m m') : Rule.eval reset leaf r m = Rule.eval reset' leaf' r m' := by
  induction r using inductionOn generalizing m m' with
  | default d => exact hl d hr m m' h
  | logical mode invert rs ih =>
    rw [has, hasAny_eq, any_eq_false] at hr
    rw [Rule.eval, Rule.eval, evals_eq, evals_eq]
    congr 2
    exact map_congr_left fun r hr' => ih r hr' (by simpa using hr r hr') (hreset m m' h)

/-- a default rule without rule-set reference; one without any item matches everything -/
def AbstractDefaultRule.eval (r : AbstractDefaultRule E) (m : InboundContext E) : Bool :=
  r.noItems || (r.invert ^^ r.base m)

def DefaultHeadlessRule.eval (r : DefaultHeadlessRule E) (m : InboundContext E) : Bool := r.toAbstractDefaultRule.eval m

def HeadlessRule.eval (r : HeadlessRule E) (m : InboundContext E) : Bool :=
  Rule.eval InboundContext.resetRuleCache DefaultHeadlessRule.eval r m

def RuleSetItem.evalSet (item : RuleSetItem E) (m : InboundContext E) (outer : RuleGroupMatch) (s : RuleSet E) : Bool :=
  match mergeableRuleIn s.rules with
  | some branch =>
    branch.items.all (RuleItem.matchOn (item.prepareNestedMatch m)) && (item.merged m outer branch).done
  | none => outer.done && s.rules.any fun r => r.eval (item.prepareNestedMatch m)

namespace DefaultDNSRule

def abstractEval (r : DefaultDNSRule E) (m : InboundContext E) : Bool :=
  match r.ruleSetItem with
  | none => r.toAbstractDefaultRule.eval m
  | some item =>
    r.invert ^^ (r.items.all (RuleItem.matchOn m) && item.setList.any (item.evalSet m (r.groups m)))

def eval (r : DefaultDNSRule E) (m : InboundContext E) : Bool :=
  if r.matchResponse then
    match r.boundResponse m with
    | none => r.invert
    | some response => r.abstractEval (responseContext m (some response))
  else r.abstractEval m

end DefaultDNSRule

def DNSRuleTree.eval (r : DNSRuleTree E) (m : InboundContext E) : Bool :=
  Rule.eval InboundContext.resetRuleCache DefaultDNSRule.eval r m

/-- `f` answers `g` in every plain context, and leaves nothing open -/
def Answers (f : Matcher E) (g : InboundContext E → Bool) : Prop := ∀ m, Plain m → truth f m = Truth.ofBool (g m)

theorem combine_ofBool (mode : LogicalMode) {rs : List D} {t : D → Truth} {b : D → Bool}
    (h : ∀ r ∈ rs, t r = ofBool (b r)) : mode.combine (rs.map t) = ofBool (mode.eval (rs.map b)) := by
  cases mode with
  | and => simpa [LogicalMode.combine, LogicalMode.eval] using all_ofBool h
  | or => simpa [LogicalMode.combine, LogicalMode.eval] using any_ofBool h

/-- what the leaves answer, the tree answers: `R` relates the context of a match to the one its answer is about -/
theorem rule_truth {R : InboundContext E → InboundContext E → Prop}
    (hd : ∀ m m', R m m' → m.deferredIPCIDRMatchGroups = dst false)
    (hreset : ∀ m m', R m m' → R m.resetRuleCache m'.resetRuleCache)
    {leafEval : D → InboundContext E → Bool} {bad : D → Bool} (hl : ∀ d, Regular (leaf d))
    (ha : ∀ d, bad d = false → ∀ m m', R m m' → truth (leaf d) m = ofBool (leafEval d m')) (r : Rule D)
    (hr : has bad r = false) (h : R m m') :
    truth (Rule.matchOn leaf r) m = ofBool (Rule.eval resetRuleCache leafEval r m') := by
  induction r using inductionOn generalizing m m' with
  | default d => exact ha d hr m m' h
  | logical mode invert rs ih =>
    rw [has, hasAny_eq, any_eq_false] at hr
    have hsub := combine_ofBool mode fun r hr' => ih r hr' (by simpa using hr r hr') (hreset m m' h)
    rw [truth_logical hl mode invert rs (hd m m' h), hsub, ofBool_xor, Rule.eval, evals_eq]

theorem Rule.has_false (r : Rule D) : has (fun _ => false) r = false := by
  induction r using inductionOn with
  | default d => rfl
  | logical mode invert rs ih => simpa [has, hasAny_eq] using ih

theorem Rule.has_mono {a b : D → Bool} (h : ∀ d, a d → b d) {r : Rule D} (hr : has b r = false) : has a r = false := by
  induction r using inductionOn with
  | default d =>
    rw [has, ← Bool.not_eq_true] at hr ⊢
    exact fun ha => hr (h d ha)
  | logical mode invert rs ih =>
    rw [has, hasAny_eq, any_eq_false] at hr ⊢
    intro r hmem
    rw [ih r hmem (by simpa using hr r hmem)]
    exact Bool.false_ne_true

theorem Rule.has_or (a b : D → Bool) (r : Rule D) : has (fun d => a d || b d) r = (has a r || has b r) := by
  induction r using inductionOn with
  | default d => rfl
  | logical mode invert rs ih =>
    simp only [has, hasAny_eq]
    rw [any_congr_mem ih, Bool.eq_iff_iff]
    simp only [Bool.or_eq_true, any_eq_true, and_or_left, exists_or]

theorem rule_answers {leafEval : D → InboundContext E → Bool} (hl : ∀ d, Regular (leaf d))
    (ha : ∀ d, Answers (leaf d) (leafEval d)) (r : Rule D) :
    Answers (Rule.matchOn leaf r) (Rule.eval resetRuleCache leafEval r) := by
  intro m hm
  refine rule_truth (R := fun m m' => Plain m ∧ m' = m) (fun m m' h => h.1.deferred) ?_ hl ?_ r (has_false r)
    ⟨hm, rfl⟩
  · rintro m m' ⟨h, rfl⟩
    exact ⟨h.reset, rfl⟩
  · rintro d - m m' ⟨h, rfl⟩
    exact ha d m' h

theorem held_false (b : Bool) : held b false = ofBool b := by
  cases b <;> rfl

theorem AbstractDefaultRule.matchOn_none_answers : Answers (matchOn none r) r.eval := by
  intro m hm
  rw [truth_matchOn_none r hm.deferred, hm.defers, held_false, ofBool_xor, AbstractDefaultRule.eval]
  cases r.noItems <;> rfl

theorem headless_answers (r : HeadlessRule E) : Answers r.matchOn r.eval :=
  rule_answers (fun d => d.toAbstractDefaultRule.matchOn_none_regular)
    (fun d => d.toAbstractDefaultRule.matchOn_none_answers) r

theorem matchAnyHeadlessRule_answers : Answers (matchAnyHeadlessRule rules) fun m => rules.any fun r => r.eval m := by
  intro m hm
  rw [truth_matchAnyHeadlessRule rules hm.deferred]
  exact any_ofBool fun r _ => headless_answers r m hm

theorem answer_of_truth {f : Matcher E} {b : Bool} (h : truth f m = ofBool b) :
    (f m).1 = b ∧ (b → pending f m = false) := by
  have hp := congrArg possible h
  have hd := congrArg definite h
  simp only [truth, held, ofBool] at hp hd
  subst hp
  exact ⟨rfl, fun hb => by simpa [hb] using hd⟩

namespace RuleSetItem

theorem setPossible_plain (hm : Plain m) (outer : RuleGroupMatch) (s : RuleSet E) :
    item.setPossible m outer s = item.evalSet m outer s ∧
      (item.setPossible m outer s → item.setPending m s = false) := by
  unfold setPossible evalSet setPending
  cases mergeableRuleIn s.rules with
  | some branch => exact ⟨rfl, fun _ => (hm.prepare item).defers branch.toAbstractDefaultRule⟩
  | none =>
    obtain ⟨hb, hp⟩ := answer_of_truth (matchAnyHeadlessRule_answers s.rules _ (hm.prepare item))
    refine ⟨by rw [hb], fun h => hp ?_⟩
    rw [hb, Bool.and_eq_true] at h
    exact h.2

end RuleSetItem

namespace DefaultDNSRule

theorem truth_matchOn_some (r : AbstractDefaultRule E)
    (hm : m.deferredIPCIDRMatchGroups = dst false) (hd : r.defers m = false)
    (hi : r.items.all (RuleItem.matchOn m) = r.items.all (RuleItem.matchOn m'))
    (hs : ∀ s ∈ item.setList, item.setPossible m (r.groups m) s = item.evalSet m' (r.groups m') s ∧
      (item.setPossible m (r.groups m) s → item.setPending m s = false)) :
    truth (r.matchOn (some item.matchWithOuterGroups)) m = ofBool
      (r.invert ^^ (r.items.all (RuleItem.matchOn m') && item.setList.any (item.evalSet m' (r.groups m')))) := by
  obtain ⟨b, x, z, e, ht, -, hp⟩ := matchOn_some_eq item r hm
  have hx : x = false := hp hd fun s h => (hs s h).2
  have hb : r.baseWithSet item m =
      (r.items.all (RuleItem.matchOn m') && item.setList.any (item.evalSet m' (r.groups m'))) := by
    rw [baseWithSet, hi, any_congr_mem fun s h => (hs s h).1]
  rw [truth_of_eq e, ht, hx, held_false, ofBool_xor, hb]

theorem abstractMatch_answers (r : DefaultDNSRule E) : Answers r.abstractMatch r.abstractEval := by
  intro m hm
  unfold abstractMatch abstractEval
  cases r.ruleSetItem with
  | none => exact r.toAbstractDefaultRule.matchOn_none_answers m hm
  | some item =>
    exact truth_matchOn_some item r.toAbstractDefaultRule hm.deferred (hm.defers _) rfl
      fun s _ => item.setPossible_plain hm (r.groups m) s

theorem matchForMatch_answers (r : DefaultDNSRule E) : Answers r.matchForMatch r.eval := by
  intro m hm
  have hclosed : ∀ b, held b (!m.deferredIPCIDRMatchGroups.isEmpty) = ofBool b := by
    intro b
    rw [hm.deferred, dst_isEmpty]
    exact held_false b
  unfold truth pending matchForMatch eval
  split_ifs
  · cases r.boundResponse m with
    | none => exact hclosed r.invert
    | some response =>
      have ha := answer_of_truth (r.abstractMatch_answers _ (hm.response (some response)))
      simp only [ha.1]
      exact hclosed _
  · exact r.abstractMatch_answers m hm

end DefaultDNSRule

/-- **Matching is a Boolean function.** In a plain context `Match` answers `eval`, whatever the tree. -/
theorem dnsRule_answers (r : DNSRuleTree E) : Answers r.matchOn r.eval :=
  rule_answers DefaultDNSRule.matchForMatch_regular DefaultDNSRule.matchForMatch_answers r

end EtonifyCore.RuleMatch
