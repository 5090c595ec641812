/-
What the rule of an AdGuard filter matches.

Accepted lines are patterns or exceptions, plain or important. A domain is meant to be matched if no important exception
matches it, and an important pattern does, or a plain one and no plain exception (`intended`). In a filter of raw domains a
line is the domain itself; otherwise it is an AdGuard pattern or a regular expression.
-/
import EtonifyCore.AdGuard.Convertor

namespace EtonifyCore.AdGuard

open List
open Core RuleMatch AbstractDefaultRule

variable (lib : Library)

/-! ## What is meant -/

def regexHit (regex name : Text) : Bool :=
  match lib.compile regex with
  | some matcher => matcher name
  | none => false

section

variable (lines : List RuleLine)

def hits (isImportant isExclude : Bool) (name : Text) : Bool :=
  (patterns lines isImportant true isExclude).any (regexHit lib · name) ||
    (patterns lines isImportant false isExclude).any (lib.adGuard · name)

def allRaw : Bool := lines.all (·.isRawDomain)

def plainHits (name : Text) : Bool :=
  if allRaw lines then (lines.map (·.ruleLine)).contains name else hits lib lines false false name

def otherHits (isImportant isExclude : Bool) (name : Text) : Bool :=
  !allRaw lines && hits lib lines isImportant isExclude name

def intended (name : Text) : Bool :=
  !otherHits lib lines true true name &&
    (otherHits lib lines true false name || (plainHits lib lines name && !otherHits lib lines false true name))

def Faithful (rules : List Options) : Prop :=
  ∃ rule built, rules = [rule] ∧ newHeadlessRule lib rule = .ok built ∧
    ∀ m, Plain m → host m.query ≠ [] → (built.matchOn m).1 = intended lib lines (lib.toLower (host m.query))

end

/-! ## Rules that test the domain -/

def found (test : Text → Bool) (query : Query Text) : Bool := host query ≠ [] && test (lib.toLower (host query))

theorem domainItem_matchOn (test : Text → Bool) (m : InboundContext Text) :
    (domainItem lib test).matchOn m = found lib test m.query := by
  change (if host m.query = [] then false else _) = _
  unfold found
  split_ifs with h
  · simp [h]
  · simp [h]

theorem domainRule_eval (tests : List (Text → Bool)) (invert : Bool) (m : InboundContext Text) :
    (domainRule lib tests invert).eval m =
      (tests.isEmpty || (invert ^^ found lib (fun name => tests.any fun test => test name) m.query)) := by
  have hany : matchAnyItem (tests.map (domainItem lib)) m =
      found lib (fun name => tests.any fun test => test name) m.query := by
    unfold matchAnyItem
    rw [any_map]
    induction tests with
    | nil => simp [found]
    | cons test tests ih =>
      rw [any_cons, ih, Function.comp_apply, domainItem_matchOn]
      cases hhost : decide (host m.query ≠ []) <;> simp [found, hhost]
  have hdone : ∀ items : List (RuleItem Text), items.isEmpty = false →
      base { destinationAddressItems := items, invert } m = matchAnyItem items m := by
    intro items hitems
    simp only [base, RuleGroupMatch.done, RuleMatchState.isEmpty, RuleMatchState.diff,
      groups_required, groups_satisfied, groupItems,
      ipCIDRIn, destinationIPCIDRMatchesSource,
      destinationIPCIDRMatchesDestination, hitems]
    simp
  change AbstractDefaultRule.eval { destinationAddressItems := tests.map (domainItem lib), invert } m = _
  unfold AbstractDefaultRule.eval
  cases tests with
  | nil => rfl
  | cons test tests =>
    rw [hdone _ rfl, hany]
    rfl

def Means (rule : Options) (f : Query Text → Bool) : Prop :=
  ∃ built, newHeadlessRule lib rule = .ok built ∧ ∀ m, built.eval m = f m.query

variable {rule : Options}

theorem Means.congr {f g : Query Text → Bool} (h : Means lib rule f) (hfg : ∀ query, f query = g query) :
    Means lib rule g := by
  obtain ⟨built, hbuilt, heval⟩ := h
  exact ⟨built, hbuilt, fun m => (heval m).trans (hfg m.query)⟩

variable {built : HeadlessRule Text}

theorem isValid_of_built (h : newHeadlessRule lib rule = .ok built) : isValid rule := by
  cases rule with
  | default options | logical mode invert rules =>
    rw [newHeadlessRule] at h
    split_ifs at h with hvalid
    exact hvalid

variable {mode : LogicalMode}

theorem newHeadlessRule_pair {first second : Options} {built built' : HeadlessRule Text}
    (h : newHeadlessRule lib first = .ok built) (h' : newHeadlessRule lib second = .ok built') :
    newHeadlessRule lib (.logical mode false [first, second]) = .ok (.logical mode false [built, built']) := by
  have hvalid : isValid (.logical mode false [first, second]) := by
    simp [isValid, allValid, isValid_of_built lib h, isValid_of_built lib h']
  rw [newHeadlessRule, if_pos hvalid, newHeadlessRules, h, newHeadlessRules, h']
  rfl

theorem Means.pair {first second : Options} {f g : Query Text → Bool} (h : Means lib first f)
    (h' : Means lib second g) :
    Means lib (.logical mode false [first, second]) fun query => mode.eval [f query, g query] := by
  obtain ⟨built, hbuilt, heval⟩ := h
  obtain ⟨built', hbuilt', heval'⟩ := h'
  refine ⟨_, newHeadlessRule_pair lib hbuilt hbuilt', fun m => ?_⟩
  change (false ^^ mode.eval [built.eval m.resetRuleCache, built'.eval m.resetRuleCache]) = _
  rw [heval, heval', Bool.false_xor]
  rfl

/-! ## The rule of a kind of lines -/

def KindCompiles (lines : List RuleLine) (isImportant isExclude : Bool) : Prop :=
  ∀ regex ∈ patterns lines isImportant true isExclude, (lib.compile regex).isSome = true

theorem mapM_compile {regexes : List Text} (h : ∀ regex ∈ regexes, (lib.compile regex).isSome) :
    ∃ matchers, regexes.mapM lib.compile = some matchers ∧
      ∀ name, (matchers.any fun matcher => matcher name) = regexes.any (regexHit lib · name) := by
  induction regexes with
  | nil => exact ⟨[], rfl, fun _ => rfl⟩
  | cons regex regexes ih =>
    obtain ⟨matchers, hmatchers, hany⟩ := ih fun regex hmem => h regex (mem_cons_of_mem _ hmem)
    obtain ⟨matcher, hmatcher⟩ := Option.isSome_iff_exists.1 (h regex mem_cons_self)
    refine ⟨matcher :: matchers, ?_, fun name => ?_⟩
    · simp [mapM_cons, hmatcher, hmatchers]
    · rw [any_cons, any_cons, hany, regexHit, hmatcher]

theorem compiles_of_mapM {regexes : List Text} {matchers : List (Text → Bool)} (h : regexes.mapM lib.compile = some matchers) :
    ∀ regex ∈ regexes, (lib.compile regex).isSome := by
  induction regexes generalizing matchers with
  | nil => intro regex hmem; cases hmem
  | cons regex regexes ih =>
    rw [mapM_cons] at h
    cases hcompile : lib.compile regex with
    | none => simp [hcompile] at h
    | some matcher =>
      cases hrest : regexes.mapM lib.compile with
      | none => simp [hcompile, hrest] at h
      | some matchers' =>
        exact forall_mem_cons.2 ⟨by rw [hcompile]; rfl, ih hrest⟩

def hasKind (lines : List RuleLine) (isImportant isExclude : Bool) : Bool :=
  patterns lines isImportant false isExclude ≠ [] || patterns lines isImportant true isExclude ≠ []

variable {lines : List RuleLine} {isImportant isExclude : Bool}

theorem patternRule_means (h : KindCompiles lib lines isImportant isExclude) :
    Means lib (.default (patternRule lines isImportant isExclude)) fun query =>
      !hasKind lines isImportant isExclude || (isExclude ^^ found lib (hits lib lines isImportant isExclude) query) := by
  obtain ⟨matchers, hmatchers, hany⟩ := mapM_compile lib h
  have htests : ∃ tests, domainTests lib (patternRule lines isImportant isExclude) = .ok tests ∧
      tests.isEmpty = !hasKind lines isImportant isExclude ∧
      ∀ name, (tests.any fun test => test name) = hits lib lines isImportant isExclude name := by
    unfold domainTests patternRule
    simp only [Option.getD_none, Option.getD_some, contains_nil, Bool.false_eq_true, if_false, hmatchers]
    refine ⟨_, rfl, ?_, fun name => ?_⟩
    · unfold hasKind
      by_cases h1 : patterns lines isImportant true isExclude = [] <;>
        by_cases h2 : patterns lines isImportant false isExclude = [] <;> simp [h1, h2]
    · unfold hits
      rw [← hany]
      by_cases h1 : patterns lines isImportant true isExclude = [] <;>
        by_cases h2 : patterns lines isImportant false isExclude = []
      · rw [h1] at hany
        simp [h1, h2, hany]
      · rw [h1] at hany
        simp [h1, h2, hany]
      · simp [h1, h2]
      · simp [h1, h2]
  obtain ⟨tests, hok, hempty, hhits⟩ := htests
  refine ⟨.default (domainRule lib tests isExclude), ?_, fun m => ?_⟩
  · rw [newHeadlessRule, if_pos (by rfl), newDefaultHeadlessRule, hok]
    rfl
  · change (domainRule lib tests isExclude).eval m = _
    rw [domainRule_eval, hempty]
    congr 3
    exact funext hhits

theorem newDefault_compiles (h : newHeadlessRule lib (.default (patternRule lines isImportant isExclude)) = .ok built) :
    KindCompiles lib lines isImportant isExclude := by
  rw [newHeadlessRule, if_pos (by rfl), newDefaultHeadlessRule] at h
  unfold domainTests patternRule at h
  simp only [Option.getD_none, Option.getD_some, contains_nil, Bool.false_eq_true, if_false] at h
  cases hmapM : (patterns lines isImportant true isExclude).mapM lib.compile with
  | none =>
    rw [hmapM] at h
    cases h
  | some matchers => exact compiles_of_mapM lib hmapM

theorem hits_of_not_hasKind
    (h : hasKind lines isImportant isExclude = false) (name : Text) : hits lib lines isImportant isExclude name = false := by
  simp only [hasKind, Bool.or_eq_false_iff, decide_eq_false_iff_not, not_not] at h
  unfold hits
  rw [h.1, h.2]
  rfl

/-! ## Layers -/

theorem layer_eq (lines : List RuleLine) (isImportant isExclude : Bool) (mode : LogicalMode) (currentRule : Options) :
    layer lines isImportant isExclude mode currentRule = if hasKind lines isImportant isExclude then
        .logical mode false [.default (patternRule lines isImportant isExclude), currentRule] else currentRule := by
  unfold layer hasKind
  by_cases h1 : patterns lines isImportant false isExclude = [] <;>
    by_cases h2 : patterns lines isImportant true isExclude = [] <;> simp [h1, h2]

theorem layer_means (mode : LogicalMode) {currentRule : Options}
    {f : Query Text → Bool} (hmode : ∀ b, mode.eval [isExclude, b] = b) (h : KindCompiles lib lines isImportant isExclude)
    (hcurrent : Means lib currentRule f) : Means lib (layer lines isImportant isExclude mode currentRule) fun query =>
      mode.eval [isExclude ^^ found lib (hits lib lines isImportant isExclude) query, f query] := by
  rw [layer_eq]
  cases hkind : hasKind lines isImportant isExclude with
  | true =>
    refine (Means.pair lib (patternRule_means lib h) hcurrent).congr lib fun query => ?_
    rw [hkind]
    rfl
  | false =>
    refine hcurrent.congr lib fun query => ?_
    have hnone : found lib (hits lib lines isImportant isExclude) query = false := by
      unfold found
      rw [hits_of_not_hasKind lib hkind, Bool.and_false]
    rw [hnone, Bool.xor_false, hmode]

theorem layer_built {currentRule : Options}
    (h : newHeadlessRule lib (layer lines isImportant isExclude mode currentRule) = .ok built) :
    KindCompiles lib lines isImportant isExclude ∧ ∃ built', newHeadlessRule lib currentRule = .ok built' := by
  rw [layer_eq] at h
  cases hkind : hasKind lines isImportant isExclude with
  | true =>
    rw [hkind, if_pos rfl, newHeadlessRule] at h
    split_ifs at h
    rw [newHeadlessRules] at h
    cases hfirst : newHeadlessRule lib (.default (patternRule lines isImportant isExclude)) with
    | error err =>
      rw [hfirst] at h
      cases h
    | ok first =>
      refine ⟨newDefault_compiles lib hfirst, ?_⟩
      rw [hfirst, newHeadlessRules] at h
      cases hcurrent : newHeadlessRule lib currentRule with
      | error err =>
        rw [hcurrent] at h
        cases h
      | ok built' => exact ⟨built', rfl⟩
  | false =>
    rw [hkind, if_neg Bool.false_ne_true] at h
    refine ⟨fun regex hmem => ?_, built, h⟩
    simp only [hasKind, Bool.or_eq_false_iff, decide_eq_false_iff_not, not_not] at hkind
    rw [hkind.2] at hmem
    cases hmem

def Compiles (lines : List RuleLine) : Prop := ∀ isImportant isExclude, KindCompiles lib lines isImportant isExclude

/-- what the rule matches: a rule without plain patterns has an innermost rule without items -/
def matched (lines : List RuleLine) (query : Query Text) : Bool :=
  !found lib (hits lib lines true true) query &&
    (found lib (hits lib lines true false) query ||
      (!found lib (hits lib lines false true) query &&
        (!hasKind lines false false || found lib (hits lib lines false false) query)))

theorem patternRules_means (h : Compiles lib lines) : Means lib (patternRules lines) (matched lib lines) := by
  have hplain := patternRule_means lib (h false false)
  have hexclude := layer_means lib .and (by simp [LogicalMode.eval]) (h false true) hplain
  have himportant := layer_means lib .or (by simp [LogicalMode.eval]) (h true false) hexclude
  have hall := layer_means lib .and (by simp [LogicalMode.eval]) (h true true) himportant
  refine hall.congr lib fun query => ?_
  unfold matched
  simp [LogicalMode.eval]

theorem patternRules_compiles (h : newHeadlessRule lib (patternRules lines) = .ok built) : Compiles lib lines := by
  obtain ⟨himportantExclude, built, h⟩ := layer_built lib h
  obtain ⟨himportant, built, h⟩ := layer_built lib h
  obtain ⟨hexclude, built, h⟩ := layer_built lib h
  have hplain := newDefault_compiles lib h
  intro isImportant isExclude
  cases isImportant <;> cases isExclude
  · exact hplain
  · exact hexclude
  · exact himportant
  · exact himportantExclude

/-! ## Raw domains -/

theorem parseDomain_raw {flags it : RuleLine} {line : Text} (h : parseDomain flags line = .accepted it) :
    it.isRawDomain = flags.isRawDomain := by
  unfold parseDomain at h
  dsimp only at h
  split_ifs at h
  all_goals
    obtain rfl := (Outcome.accepted.inj h).symm
    rfl

theorem parsePattern_raw {flags it : RuleLine} (h : parsePattern flags = .accepted it) :
    it.isRawDomain = flags.isRawDomain := by
  unfold parsePattern at h
  dsimp only at h
  split_ifs at h
  · obtain rfl := (Outcome.accepted.inj h).symm
    rfl
  · exact parseDomain_raw h

theorem ruleLine_of_raw {line : Text} {it : RuleLine} (h : parseLine lib line = .accepted it) (hraw : it.isRawDomain) :
    it.ruleLine ≠ [] := by
  unfold parseLine at h
  split at h
  · cases h
  split at h
  · rename_i hdomain
    obtain rfl := (Outcome.accepted.inj h).symm
    intro hempty
    change line = [] at hempty
    rw [hempty] at hdomain
    cases hdomain
  split at h
  · cases h
  · rename_i domain hne hhost
    obtain rfl := (Outcome.accepted.inj h).symm
    exact fun hempty => hne hempty
  · split at h
    · cases h
    · rw [parsePattern_raw h] at hraw
      cases hraw

theorem mem_acceptedLines {lines : List Text} {its : List RuleLine} (h : acceptedLines lib lines = .ok its) :
    ∀ it ∈ its, ∃ line ∈ lines, parseLine lib line = .accepted it := by
  induction lines generalizing its with
  | nil =>
    obtain rfl := (Except.ok.inj h).symm
    intro it hmem
    cases hmem
  | cons line lines ih =>
    rw [acceptedLines] at h
    generalize hparse : parseLine lib line = outcome at h
    cases outcome with
    | panics => cases h
    | skipped =>
      intro it hmem
      obtain ⟨line', hline', hit⟩ := ih h it hmem
      exact ⟨line', mem_cons_of_mem _ hline', hit⟩
    | accepted first =>
      generalize hrest : acceptedLines lib lines = accepted at h
      cases accepted with
      | error err => cases h
      | ok rest =>
        obtain rfl := (Except.ok.inj h).symm
        intro it hmem
        rcases mem_cons.1 hmem with rfl | hmem
        · exact ⟨line, mem_cons_self, hparse⟩
        · obtain ⟨line', hline', hit⟩ := ih hrest it hmem
          exact ⟨line', mem_cons_of_mem _ hline', hit⟩

theorem rawRule_means {domains : List Text} (hne : domains ≠ []) (hempty : [] ∉ domains) :
    Means lib (.default { domain := some domains }) (found lib fun name => domains.contains name) := by
  have htests : domainTests lib { domain := some domains } = .ok [fun name => domains.contains name] := by
    unfold domainTests
    simp [hempty, hne]
  refine ⟨.default (domainRule lib [fun name => domains.contains name] false), ?_, fun m => ?_⟩
  · rw [newHeadlessRule, if_pos (by rfl), newDefaultHeadlessRule, htests]
    rfl
  · change (domainRule lib [fun name => domains.contains name] false).eval m = _
    rw [domainRule_eval]
    simp [found]

/-! ## Filters -/

theorem matchOn_of_means {f : Query Text → Bool} (h : Means lib rule f)
    (hbuilt : newHeadlessRule lib rule = .ok built) {m : InboundContext Text} (hm : Plain m) :
    (built.matchOn m).1 = f m.query := by
  obtain ⟨built', hbuilt', heval⟩ := h
  obtain rfl := Except.ok.inj (hbuilt.symm.trans hbuilt')
  exact (answer_of_truth (headless_answers built m hm)).1.trans (heval m)

def toDomain (domain : Text) : InboundContext Text where
  query := ⟨none, {}, [], 0, 0, domain⟩

theorem toDomain_plain (domain : Text) : Plain (toDomain domain) := ⟨rfl, rfl⟩

theorem host_toDomain {domain : Text} (h : domain ≠ []) : host (toDomain domain).query = domain := if_pos h

theorem found_of_host {test : Text → Bool} {query : Query Text} (h : host query ≠ []) :
    found lib test query = test (lib.toLower (host query)) := by
  simp [found, h]

/-- there is a plain pattern, or for every domain a pattern or an exception of another kind -/
def Blocks (lines : List RuleLine) : Prop :=
  hasKind lines false false = true ∨
    ∀ domain, domain ≠ [] → hits lib lines true true (lib.toLower domain) = true ∨
      hits lib lines true false (lib.toLower domain) = true ∨ hits lib lines false true (lib.toLower domain) = true

theorem matched_eq_intended_iff (hraw : allRaw lines = false) {query : Query Text} (hhost : host query ≠ []) :
    matched lib lines query = intended lib lines (lib.toLower (host query)) ↔
      hasKind lines false false ∨ hits lib lines true true (lib.toLower (host query)) ∨
        hits lib lines true false (lib.toLower (host query)) ∨
        hits lib lines false true (lib.toLower (host query)) := by
  have hnone (h : hasKind lines false false = false) := hits_of_not_hasKind lib h (lib.toLower (host query))
  unfold matched intended plainHits otherHits
  simp only [found_of_host lib hhost, hraw, Bool.not_false, Bool.true_and]
  generalize hits lib lines true true (lib.toLower (host query)) = first
  generalize hits lib lines true false (lib.toLower (host query)) = second
  generalize hits lib lines false true (lib.toLower (host query)) = third
  cases hkind : hasKind lines false false with
  | true => cases first <;> cases second <;> cases third <;> simp
  | false =>
    rw [hnone hkind]
    cases first <;> cases second <;> cases third <;> simp

/-- **The rule matches what the filter means.** This needs regular expressions that compile, and a plain pattern. -/
theorem toOptions_meaning (text : Text) (lines : List RuleLine) (rules : List Options)
    (hlines : acceptedLines lib (scanLines text) = .ok lines) (hrules : toOptions lib text = .ok rules) :
    Faithful lib lines rules ↔ allRaw lines = true ∨ (Compiles lib lines ∧ Blocks lib lines) := by
  have hok : lineRules lines = .ok rules := by
    unfold toOptions at hrules
    rw [hlines] at hrules
    exact hrules
  unfold lineRules at hok
  split_ifs at hok with hempty hraw
  · have hraw' : allRaw lines = true := hraw
    obtain rfl := Except.ok.inj hok
    refine ⟨fun _ => .inl hraw', fun _ => ?_⟩
    have hnonempty : [] ∉ lines.map (·.ruleLine) := by
      intro hmem
      obtain ⟨it, hit, hline⟩ := mem_map.1 hmem
      obtain ⟨line, -, hparse⟩ := mem_acceptedLines lib hlines it hit
      exact ruleLine_of_raw lib hparse (all_eq_true.1 hraw it hit) hline
    have hmeans := rawRule_means lib (fun h => hempty (map_eq_nil_iff.1 h)) hnonempty
    have ⟨built, hbuilt, _⟩ := hmeans
    refine ⟨_, built, rfl, hbuilt, fun m hm hhost => ?_⟩
    rw [matchOn_of_means lib hmeans hbuilt hm, found_of_host lib hhost]
    unfold intended plainHits otherHits
    simp [hraw']
  · have hraw' : allRaw lines = false := Bool.eq_false_iff.2 hraw
    obtain rfl := Except.ok.inj hok
    rw [hraw', or_iff_right Bool.false_ne_true]
    constructor
    · intro hfaithful
      obtain ⟨rule, built, hrule, hbuilt, hmatch⟩ := hfaithful
      obtain rfl := singleton_inj.1 hrule
      have hcompiles := patternRules_compiles lib hbuilt
      refine ⟨hcompiles, or_iff_not_imp_left.2 fun hkind domain hdomain => ?_⟩
      have hhost : host (toDomain domain).query ≠ [] := by rwa [host_toDomain hdomain]
      have hagree := hmatch (toDomain domain) (toDomain_plain domain) hhost
      rw [matchOn_of_means lib (patternRules_means lib hcompiles) hbuilt (toDomain_plain domain),
        matched_eq_intended_iff lib hraw' hhost, host_toDomain hdomain] at hagree
      exact hagree.resolve_left hkind
    · intro hsound
      obtain ⟨hcompiles, hblocks⟩ := hsound
      have hmeans := patternRules_means lib hcompiles
      have ⟨built, hbuilt, _⟩ := hmeans
      refine ⟨_, built, rfl, hbuilt, fun m hm hhost => ?_⟩
      rw [matchOn_of_means lib hmeans hbuilt hm, matched_eq_intended_iff lib hraw' hhost]
      exact hblocks.imp_right fun h => h _ hhost

def sampleLibrary : Library where
  parseAddr _ := none
  isUnspecified _ := false
  toLower := id
  compile regex := if regex = ['('] then none else some (Text.contains regex)
  adGuard pattern name := pattern = ['|', '|'] ++ name ++ ['^']

theorem toOptions_meaning_sample :
    let text := "||a.com^\n@@/b/\n".toList
    let lines : List RuleLine :=
      [{ ruleLine := "a.com".toList, isSuffix := true, hasEnd := true },
        { ruleLine := "b".toList, isExclude := true, isRegexp := true }]
    (acceptedLines sampleLibrary (scanLines text) = .ok lines ∧ toOptions sampleLibrary text = .ok [patternRules lines]) ∧
      Faithful sampleLibrary lines [patternRules lines] := by
  intro text lines
  have hlines : acceptedLines sampleLibrary (scanLines text) = .ok lines := by decide +kernel
  have hrules : toOptions sampleLibrary text = .ok [patternRules lines] := by
    unfold toOptions
    rw [hlines]
    rfl
  refine ⟨⟨hlines, hrules⟩, (toOptions_meaning sampleLibrary text lines _ hlines hrules).2 (.inr ⟨?_, .inl (by decide)⟩)⟩
  unfold Compiles KindCompiles
  decide

theorem important_matches_all :
    let text := "||a.com^$important\n".toList
    let lines : List RuleLine := [{ ruleLine := "a.com".toList, isSuffix := true, hasEnd := true, isImportant := true }]
    (acceptedLines sampleLibrary (scanLines text) = .ok lines ∧ toOptions sampleLibrary text = .ok [patternRules lines]) ∧
      intended sampleLibrary lines "b.com".toList = false ∧
      (∃ built, newHeadlessRule sampleLibrary (patternRules lines) = .ok built ∧
        (built.matchOn (toDomain "b.com".toList)).1 = true) ∧
      ¬ Faithful sampleLibrary lines [patternRules lines] := by
  intro text lines
  have hlines : acceptedLines sampleLibrary (scanLines text) = .ok lines := by decide +kernel
  have hrules : toOptions sampleLibrary text = .ok [patternRules lines] := by
    unfold toOptions
    rw [hlines]
    rfl
  have hintended : intended sampleLibrary lines "b.com".toList = false := by decide +kernel
  have hcompiles : Compiles sampleLibrary lines := by
    unfold Compiles KindCompiles
    decide
  have hmeans := patternRules_means sampleLibrary hcompiles
  have hmatch : ∀ built, newHeadlessRule sampleLibrary (patternRules lines) = .ok built →
      (built.matchOn (toDomain "b.com".toList)).1 = true := by
    intro built hbuilt
    rw [matchOn_of_means sampleLibrary hmeans hbuilt (toDomain_plain _)]
    decide +kernel
  refine ⟨⟨hlines, hrules⟩, hintended, ?_, ?_⟩
  · have ⟨built, hbuilt, _⟩ := hmeans
    exact ⟨built, hbuilt, hmatch built hbuilt⟩
  · rintro ⟨rule, built, hrule, hbuilt, hagree⟩
    obtain rfl := singleton_inj.1 hrule
    have hsame := hagree (toDomain "b.com".toList) (toDomain_plain _) (by decide)
    rw [hmatch built hbuilt] at hsame
    exact Bool.false_ne_true (hintended.symm.trans hsame.symm)

end EtonifyCore.AdGuard
