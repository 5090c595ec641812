/-
The frame of a match: `Match` gives back the flags of the context, and in ordinary matching all of it, so nothing that is
evaluated later sees what was evaluated before.
-/
import EtonifyCore.Rule.Semantics

namespace EtonifyCore.RuleMatch

open InboundContext RuleMatchState AbstractDefaultRule

variable {E D : Type}

namespace RuleSetItem

variable (item : RuleSetItem E)

def matchFirst (snapshot : RuleMatchSnapshot) : List (RuleSet E) → Matcher E
  | [], m => (false, snapshot.restore m)
  | s :: sets, m =>
    let (b, m) := matchAnyHeadlessRule s.rules (item.prepareNestedMatch m)
    if b then (true, snapshot.restore m) else matchFirst snapshot sets m

/-- `RuleSetItem.Match`; rules use `matchWithOuterGroups` -/
def matchOn : Matcher E := fun m => item.matchFirst (snapshotRuleMatch m) item.setList m

end RuleSetItem

inductive Evaluation : Matcher E → Prop
  | rule (r : DNSRuleTree E) : Evaluation r.matchOn
  | headlessRule (r : HeadlessRule E) : Evaluation r.matchOn
  | ruleSet (s : RuleSet E) : Evaluation (matchAnyHeadlessRule s.rules)
  | merged (r : DefaultHeadlessRule E) :
    Evaluation fun m => ((r.evaluateForMerge m).1.isSome, (r.evaluateForMerge m).2)
  | ruleSetItem (item : RuleSetItem E) : Evaluation item.matchOn
  | withOuterGroups (item : RuleSetItem E) (gs : RuleGroupMatch) : Evaluation (item.matchWithOuterGroups · gs)

/-- what a loop does to the context before each of its rules or sets -/
inductive Resets : (InboundContext E → InboundContext E) → Prop
  | rules : Resets resetRuleCache
  | headlessRules : Resets resetRuleMatchCache
  | ruleSets (item : RuleSetItem E) : Resets item.prepareNestedMatch

variable {m m₁ after : InboundContext E} {d : RuleMatchState} {f : Matcher E} {fs : List (Matcher E)}
  {reset : InboundContext E → InboundContext E}

/-- the context after siblings that are evaluated one after another -/
def inTurn (reset : InboundContext E → InboundContext E) (fs : List (Matcher E)) (m : InboundContext E) : InboundContext E :=
  fs.foldl (fun m f => (f (reset m)).2) m

/-- nothing but the deferred groups has changed, and in ordinary matching nothing at all -/
def Keeps (m after : InboundContext E) : Prop := ∃ d, after = m.setDeferred d ∧ (Plain m → d = dst false)

namespace Keeps

theorem refl (m : InboundContext E) : Keeps m m := ⟨_, rfl, (·.deferred)⟩

theorem diff (m : InboundContext E) (s : RuleMatchState) : Keeps m (m.setDeferred (m.deferredIPCIDRMatchGroups.diff s)) :=
  ⟨_, rfl, fun hm => by simp [hm.deferred]⟩

theorem trans (h : Keeps m m₁) (h₁ : Keeps m₁ after) : Keeps m after := by
  obtain ⟨d, rfl, hd⟩ := h
  obtain ⟨d', rfl, hd'⟩ := h₁
  exact ⟨d', rfl, fun hm => hd' ⟨hm.ignore, hd hm⟩⟩

end Keeps

/-- between two evaluations of a loop that began in `m` and has collected `d` -/
structure Between (m : InboundContext E) (d : RuleMatchState) (m₁ : InboundContext E) : Prop where
  base : m₁.resetRuleCache = m.resetRuleCache
  collected : m.ignoreDestinationIPCIDRMatch = false → d = dst false

namespace Between

theorem start (m : InboundContext E) : Between m .empty m := ⟨rfl, fun _ => rfl⟩

variable (h : Between m d m₁)
include h

theorem next (hr : Resets reset) (hk : Keeps (reset m₁) after) :
    Between m d after ∧ (m.ignoreDestinationIPCIDRMatch = false → after.deferredIPCIDRMatchGroups = dst false) := by
  obtain ⟨d', rfl, hd'⟩ := hk
  have hreset : (reset m₁).resetRuleCache = m₁.resetRuleCache ∧ (reset m₁).deferredIPCIDRMatchGroups = dst false := by
    cases hr <;> exact ⟨rfl, rfl⟩
  have hbase := hreset.1.trans h.base
  refine ⟨⟨hbase, h.collected⟩, fun hi => hd' ⟨?_, hreset.2⟩⟩
  rw [← hi]
  exact congrArg (·.ignoreDestinationIPCIDRMatch) hbase

theorem union {d' : RuleMatchState} (hd : m.ignoreDestinationIPCIDRMatch = false → d' = dst false) :
    Between m (d.union d') m₁ :=
  ⟨h.base, fun hi => by simp [h.collected hi, hd hi]⟩

theorem restore : (snapshotRuleMatch m).restore m₁ = m := by rw [restore_congr _ h.base, restore_snapshot]

theorem restoreDeferred (b : Bool) : Keeps m (restoreDeferred (snapshotRuleMatch m) b d m₁) := by
  rw [RuleMatch.restoreDeferred, h.restore]
  split_ifs
  · exact ⟨_, rfl, fun hm => by simp [hm.deferred, h.collected hm.ignore]⟩
  · exact .refl m

end Between

section

variable (hf : ∀ f ∈ fs, ∀ m, Keeps m (f m).2)
include hf

theorem andLoop_between (h : Between m d m₁) : Between m (andLoop fs m₁ d).2.1 (andLoop fs m₁ d).2.2 := by
  induction fs generalizing m₁ d with
  | nil => exact h
  | cons f fs ih =>
    obtain ⟨hf, hfs⟩ := List.forall_mem_cons.1 hf
    obtain ⟨hn, hd⟩ := h.next .rules (hf _)
    rw [andLoop]
    dsimp only
    split_ifs
    · exact ih hfs (hn.union hd)
    · exact ⟨hn.base, fun _ => rfl⟩

theorem orLoop_between (hr : Resets reset) (h : Between m d m₁) (b : Bool) :
    Between m (orLoop reset fs m₁ b d).2.1 (orLoop reset fs m₁ b d).2.2 := by
  induction fs generalizing m₁ b d with
  | nil => exact h
  | cons f fs ih =>
    obtain ⟨hf, hfs⟩ := List.forall_mem_cons.1 hf
    obtain ⟨hn, hd⟩ := h.next hr (hf _)
    rw [orLoop]
    dsimp only
    split_ifs
    · exact ⟨hn.base, fun _ => rfl⟩
    · exact ih hfs (hn.union hd) true
    · exact ih hfs hn b

end

theorem rule_keeps {leaf : D → Matcher E} (hl : ∀ d m, Keeps m (leaf d m).2) (r : Rule D) (m : InboundContext E) :
    Keeps m (Rule.matchOn leaf r m).2 := by
  induction r using Rule.inductionOn generalizing m with
  | default d => exact hl d m
  | logical mode invert rs ih =>
    have hf : ∀ f ∈ rs.map (Rule.matchOn leaf), ∀ m, Keeps m (f m).2 := by simpa using ih
    rw [Rule.matchOn, Rule.matchers_eq]
    cases mode with
    | and => exact (andLoop_between hf (.start m)).restoreDeferred _
    | or => exact (orLoop_between hf .rules (.start m) false).restoreDeferred _

theorem evaluateGroups_keeps (r : AbstractDefaultRule E) (m : InboundContext E) : Keeps m (r.evaluateGroups m).2 := by
  unfold evaluateGroups
  dsimp only
  split_ifs with h
  · exact ⟨_, rfl, fun hm => by simp [hm.defers] at h⟩
  · exact .refl m

theorem matchOn_keeps (setMatch : Option (SetMatch E)) (hs : ∀ f ∈ setMatch, ∀ m gs, Keeps m (f m gs).2)
    (r : AbstractDefaultRule E) (m : InboundContext E) : Keeps m (matchOn setMatch r m).2 := by
  have hinner : Keeps m (matchInner setMatch r m).2 := by
    refine (evaluateGroups_keeps r m).trans ?_
    unfold matchInner
    cases setMatch with
    | none =>
      dsimp only
      split_ifs
      · exact .diff _ _
      · exact .refl _
      · exact .refl _
    | some f =>
      have hset := hs f rfl (r.evaluateGroups m).2 (r.evaluateGroups m).1
      dsimp only
      split_ifs
      · exact hset.trans (.diff _ _)
      · exact hset
      · exact .refl _
  unfold matchOn
  dsimp only
  split_ifs
  · exact .refl m
  · exact hinner
  · exact hinner.trans ⟨_, rfl, fun _ => rfl⟩
  · exact hinner

theorem headless_keeps (r : HeadlessRule E) (m : InboundContext E) : Keeps m (r.matchOn m).2 := by
  have hleaf : ∀ (d : DefaultHeadlessRule E) m, Keeps m (d.matchOn m).2 := fun d =>
    matchOn_keeps none (by simp) d.toAbstractDefaultRule
  exact rule_keeps hleaf r m

theorem matchAnyHeadlessRule_keeps (rules : List (HeadlessRule E)) (m : InboundContext E) :
    Keeps m (matchAnyHeadlessRule rules m).2 :=
  (orLoop_between (by simpa using fun r _ => headless_keeps r) .headlessRules (.start m) false).restoreDeferred _

theorem evaluateForMerge_keeps (r : DefaultHeadlessRule E) (m : InboundContext E) : Keeps m (r.evaluateForMerge m).2 :=
  evaluateGroups_keeps r.toAbstractDefaultRule m

namespace RuleSetItem

variable (item : RuleSetItem E)

theorem matchFirst_keeps (sets : List (RuleSet E)) (h : Between m d m₁) :
    Keeps m (item.matchFirst (snapshotRuleMatch m) sets m₁).2 := by
  induction sets generalizing m₁ with
  | nil =>
    rw [matchFirst, h.restore]
    exact .refl m
  | cons s sets ih =>
    obtain ⟨hn, -⟩ := h.next (.ruleSets item) (matchAnyHeadlessRule_keeps s.rules _)
    rw [matchFirst]
    dsimp only
    split_ifs
    · rw [hn.restore]
      exact .refl m
    · exact ih hn

theorem matchLoop_keeps (gs : RuleGroupMatch) (sets : List (RuleSet E)) (h : Between m d m₁) (b : Bool) :
    Keeps m (item.matchLoop gs (snapshotRuleMatch m) sets m₁ b d).2 := by
  induction sets generalizing m₁ b d with
  | nil => exact h.restoreDeferred b
  | cons s sets ih =>
    unfold matchLoop
    cases mergeableRuleIn s.rules with
    | some branch =>
      obtain ⟨hn, hd⟩ := h.next (.ruleSets item) (evaluateForMerge_keeps branch _)
      dsimp only
      rcases hp : branch.evaluateForMerge (item.prepareNestedMatch m₁) with ⟨_ | branchGroups, m₂⟩
      all_goals rw [hp] at hn hd
      · exact ih hn b
      · dsimp only at hd ⊢
        split_ifs
        · rw [hn.restore]
          exact .diff m _
        · refine ih (hn.union fun hi => ?_) true
          simp [hd hi]
        · exact ih hn b
    | none =>
      obtain ⟨hn, hd⟩ := h.next (.ruleSets item) (matchAnyHeadlessRule_keeps s.rules _)
      dsimp only
      split_ifs
      · rw [hn.restore]
        exact .refl m
      · exact ih (hn.union hd) true
      · exact ih hn b
      · exact ih (h.next (.ruleSets item) (.refl _)).1 b

end RuleSetItem

namespace Evaluation

theorem keeps (hf : Evaluation f) (m : InboundContext E) : Keeps m (f m).2 := by
  have houter : ∀ (item : RuleSetItem E) m gs, Keeps m (item.matchWithOuterGroups m gs).2 := fun item m gs =>
    item.matchLoop_keeps gs item.setList (.start m) false
  cases hf with
  | rule r =>
    refine rule_keeps (fun d m => ?_) r m
    unfold DefaultDNSRule.matchForMatch
    split_ifs
    · cases d.boundResponse m <;> exact .refl m
    · exact matchOn_keeps _ (by simpa using fun item _ => houter item) _ m
  | headlessRule r => exact headless_keeps r m
  | ruleSet s => exact matchAnyHeadlessRule_keeps s.rules m
  | merged r => exact evaluateForMerge_keeps r m
  | ruleSetItem item => exact item.matchFirst_keeps item.setList (.start m)
  | withOuterGroups item gs => exact houter item m gs

variable (hfs : ∀ f ∈ fs, Evaluation f)
include hfs

theorem inTurn_plain (hm : Plain m) : inTurn id fs m = m := by
  refine List.foldlRecOn (motive := fun m' => m' = m) fs _ rfl fun m' hm' f hf => ?_
  obtain ⟨d, e, hd⟩ := (hfs f hf).keeps m'
  subst hm'
  rw [id, e, hd hm, setDeferred_self hm.deferred]

theorem reset_inTurn (hr : Resets reset) (m : InboundContext E) : reset (inTurn reset fs m) = reset m := by
  refine List.foldlRecOn (motive := fun m' => reset m' = reset m) fs _ rfl fun m' hm' f hf => ?_
  obtain ⟨d, e, -⟩ := (hfs f hf).keeps (reset m')
  rw [e, hm']
  cases hr <;> rfl

end Evaluation

/-- **A match leaves no trace.** It gives back the flags and, in ordinary matching, the deferred groups; and what comes after
other rules or sets, in any of the loops, has the outcome that it has alone. -/
theorem match_frame (hf : Evaluation f) (m : InboundContext E) :
    (f m).2.ipCidrMatchSource = m.ipCidrMatchSource ∧ (f m).2.ipCidrAcceptEmpty = m.ipCidrAcceptEmpty ∧
    (m.ignoreDestinationIPCIDRMatch = false → m.deferredIPCIDRMatchGroups = .empty →
      (f m).2.deferredIPCIDRMatchGroups = .empty) ∧
    ∀ earlier : List (Matcher E), (∀ g ∈ earlier, Evaluation g) →
      (m.ignoreDestinationIPCIDRMatch = false → m.deferredIPCIDRMatchGroups = .empty → f (inTurn id earlier m) = f m) ∧
      ∀ reset, Resets reset → f (reset (inTurn reset earlier m)) = f (reset m) := by
  obtain ⟨d, e, hd⟩ := hf.keeps m
  refine ⟨by rw [e]; rfl, by rw [e]; rfl, fun hi hm => ?_, fun earlier hall => ⟨fun hi hm => ?_, fun reset hr => ?_⟩⟩
  · rw [e]
    exact hd ⟨hi, hm⟩
  · rw [Evaluation.inTurn_plain hall ⟨hi, hm⟩]
  · rw [Evaluation.reset_inTurn hall hr]

/-- a set that is tested against the source, in a context with the other flag, and the same rule once more -/
theorem match_frame_reference :
    let r : DNSRuleTree Unit := .default { ruleSetItem := some {
      setList := [⟨"lan", [.default { destinationIPCIDRItems := [.ipCIDR fun a => a == .v4 1] }]⟩], ipCidrMatchSource := true } }
    let m : InboundContext Unit := { query := ⟨some (.v4 1), {}, [], 0, 0, ()⟩, ipCidrAcceptEmpty := true }
    (r.matchOn m).1 = true ∧ (r.matchOn m).2.ipCidrMatchSource = false ∧ (r.matchOn m).2.ipCidrAcceptEmpty = true ∧
    (r.matchOn m).2.deferredIPCIDRMatchGroups = .empty ∧ r.matchOn (inTurn id [r.matchOn] m) = r.matchOn m := by
  intro r m
  obtain ⟨hsource, hempty, hdeferred, hlater⟩ := match_frame (.rule r) m
  exact ⟨by decide, hsource, hempty, hdeferred rfl rfl, (hlater [r.matchOn] (by simpa using .rule r)).1 rfl rfl⟩

end EtonifyCore.RuleMatch
