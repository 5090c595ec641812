/-
The text that `FromOptions` writes, read again by `ToOptions`.

`collect` takes the first exceptions that it finds for important ones, whatever they were; regular expressions with
`$important` are not read back; and a text of names without marks is read as raw domains. `Restored` says that none of this
makes a difference.
-/
import Mathlib.Data.List.TakeWhile
import EtonifyCore.AdGuard.Meaning
import EtonifyCore.AdGuard.WrittenLine

namespace EtonifyCore.AdGuard

open List
open Core RuleMatch

variable {lib : Library}

/-! ## Texts that are read back -/

theorem acceptedLines_append {lines lines' : List Text} {its its' : List RuleLine} (h : acceptedLines lib lines = .ok its)
    (h' : acceptedLines lib lines' = .ok its') : acceptedLines lib (lines ++ lines') = .ok (its ++ its') := by
  induction lines generalizing its with
  | nil =>
    obtain rfl := (Except.ok.inj h).symm
    exact h'
  | cons line lines ih =>
    rw [acceptedLines] at h
    rw [cons_append, acceptedLines]
    generalize parseLine lib line = outcome at h ⊢
    cases outcome with
    | panics => cases h
    | skipped => exact ih h
    | accepted it =>
      generalize hrest : acceptedLines lib lines = accepted at h
      cases accepted with
      | error err => cases h
      | ok rest =>
        obtain rfl := (Except.ok.inj h).symm
        rw [ih hrest]
        rfl

theorem patterns_append (its its' : List RuleLine) (isImportant isRegexp isExclude : Bool) :
    patterns (its ++ its') isImportant isRegexp isExclude =
      patterns its isImportant isRegexp isExclude ++ patterns its' isImportant isRegexp isExclude := by
  simp [patterns]

theorem mapDomain_of_domainName {line : Text} {it : RuleLine} (h : parseLine lib line = .accepted it)
    (hdomain : isDomainName line) : mapDomain it = it.ruleLine := by
  unfold parseLine at h
  split at h
  · cases h
  · obtain rfl := (Outcome.accepted.inj h).symm
    rfl

structure OfKind (its : List RuleLine) (isImportant isRegexp isExclude : Bool) (texts : List Text) : Prop where
  texts : its.map mapDomain = texts
  kind : ∀ it ∈ its, it.isImportant = isImportant ∧ it.isRegexp = isRegexp ∧ it.isExclude = isExclude
  raw : ∀ it ∈ its, it.isRawDomain = isDomainName (writeLine isImportant isRegexp isExclude (mapDomain it))
  unmarked : ∀ it ∈ its, it.isRawDomain = true → mapDomain it = it.ruleLine

variable {its : List RuleLine} {isImportant isRegexp isExclude : Bool} {texts : List Text}

theorem OfKind.patterns
    (h : OfKind its isImportant isRegexp isExclude texts) (isImportant' isRegexp' isExclude' : Bool) :
    patterns its isImportant' isRegexp' isExclude' =
      if isImportant = isImportant' ∧ isRegexp = isRegexp' ∧ isExclude = isExclude' then texts else [] := by
  unfold AdGuard.patterns
  split_ifs with hsame
  · obtain ⟨rfl, rfl, rfl⟩ := hsame
    rw [filter_eq_self.2 fun it hit => decide_eq_true (h.kind it hit), h.texts]
  · rw [filter_eq_nil_iff.2, map_nil]
    intro it hit hkind
    obtain ⟨himportant, hregexp, hexclude⟩ := h.kind it hit
    rw [himportant, hregexp, hexclude] at hkind
    exact hsame (of_decide_eq_true hkind)

theorem acceptedLines_kind
    (h : ∀ text ∈ texts, ∃ it, parseLine lib (writeLine isImportant isRegexp isExclude text) = .accepted it ∧
      mapDomain it = text ∧ it.isImportant = isImportant ∧ it.isRegexp = isRegexp ∧ it.isExclude = isExclude ∧
      it.isRawDomain = isDomainName (writeLine isImportant isRegexp isExclude text)) :
    ∃ its, acceptedLines lib (texts.map (writeLine isImportant isRegexp isExclude)) = .ok its ∧
      OfKind its isImportant isRegexp isExclude texts := by
  induction texts with
  | nil => exact ⟨[], rfl, rfl, nofun, nofun, nofun⟩
  | cons text texts ih =>
    obtain ⟨its, hits, htexts, hkind, hraw, hunmarked⟩ := ih fun text hmem => h text (mem_cons_of_mem _ hmem)
    obtain ⟨it, hparse, htext, himportant, hregexp, hexclude, hrawDomain⟩ := h text mem_cons_self
    refine ⟨it :: its, ?_, ?_, ?_, ?_, ?_⟩
    · rw [map_cons, acceptedLines, hparse]
      rw [hits]
      rfl
    · rw [map_cons, htext, htexts]
    · exact forall_mem_cons.2 ⟨⟨himportant, hregexp, hexclude⟩, hkind⟩
    · exact forall_mem_cons.2 ⟨by rw [htext, hrawDomain], hraw⟩
    · intro it' hmem hraw'
      rcases mem_cons.1 hmem with rfl | hmem
      · exact mapDomain_of_domainName hparse (hrawDomain.symm.trans hraw')
      · exact hunmarked it' hmem hraw'

def collected (its : List RuleLine) : Lists where
  importantDomain := patterns its true false false
  importantDomainRegex := patterns its true true false
  importantExcludeDomain := patterns its (hasKind its true true) false true
  importantExcludeDomainRegex := patterns its (hasKind its true true) true true
  domain := patterns its false false false
  domainRegex := patterns its false true false
  excludeDomain := if hasKind its true true then patterns its false false true else []
  excludeDomainRegex := if hasKind its true true then patterns its false true true else []

theorem not_hasKind_iff {isImportant isExclude : Bool} : hasKind its isImportant isExclude = false ↔
      patterns its isImportant false isExclude = [] ∧ patterns its isImportant true isExclude = [] := by
  simp [hasKind]

theorem not_both_nil {isImportant isExclude : Bool} (h : hasKind its isImportant isExclude) :
    ¬ (patterns its isImportant false isExclude = [] ∧ patterns its isImportant true isExclude = []) := by
  intro hnil
  rw [not_hasKind_iff.2 hnil] at h
  cases h

section

variable {its : List RuleLine} {lists : Lists} {rest : Options}

theorem collect_plain : collect lists (.default (patternRule its false false)) =
    if hasKind its false false then .ok { lists with
      domain := patterns its false false false, domainRegex := patterns its false true false } else .error .invalid := by
  rw [collect]
  change (if patterns its false false false = [] ∧ patterns its false true false = [] then _ else _) = _
  cases hkind : hasKind its false false with
  | true =>
    rw [if_neg (not_both_nil hkind)]
    rfl
  | false =>
    rw [if_pos (not_hasKind_iff.1 hkind)]
    rfl

theorem collect_important (h : hasKind its true false) :
    collect lists (.logical .or false [.default (patternRule its true false), rest]) = collect { lists with
        importantDomain := patterns its true false false, importantDomainRegex := patterns its true true false } rest := by
  rw [collect]
  change (if patterns its true false false = [] ∧ patterns its true true false = [] then _ else _) = _
  rw [if_neg (not_both_nil h)]
  rfl

theorem collect_exclude {isImportant : Bool} (h : hasKind its isImportant true = true) :
    collect lists (.logical .and false [.default (patternRule its isImportant true), rest]) =
      if lists.importantExcludeDomain = [] ∧ lists.importantExcludeDomainRegex = [] then collect { lists with
          importantExcludeDomain := patterns its isImportant false true
          importantExcludeDomainRegex := patterns its isImportant true true } rest
      else
        collect { lists with
          excludeDomain := patterns its isImportant false true, excludeDomainRegex := patterns its isImportant true true } rest := by
  rw [collect]
  change (if patterns its isImportant false true = [] ∧ patterns its isImportant true true = [] then _ else _) = _
  rw [if_neg (not_both_nil h)]
  rfl

end

theorem collect_patternRules (its : List RuleLine) :
    collect {} (patternRules its) = if hasKind its false false then .ok (collected its) else .error .invalid := by
  unfold patternRules collected
  dsimp only
  rw [layer_eq, layer_eq, layer_eq]
  cases hX : hasKind its true true <;> cases hI : hasKind its true false <;> cases hE : hasKind its false true <;>
    simp [collect_plain, collect_important, collect_exclude, hX, hI, hE, not_hasKind_iff.1, not_both_nil]

theorem lines_eq (lists : Lists) : lists.lines =
    lists.importantDomain.map (writeLine true false false) ++ lists.importantDomainRegex.map (writeLine true true false) ++
    lists.importantExcludeDomain.map (writeLine true false true) ++
    lists.importantExcludeDomainRegex.map (writeLine true true true) ++
    lists.domain.map (writeLine false false false) ++ lists.domainRegex.map (writeLine false true false) ++
    lists.excludeDomain.map (writeLine false false true) ++ lists.excludeDomainRegex.map (writeLine false true true) := by
  have hsame : writeLine false false false = id := funext fun line => append_nil line
  have hregex (isExclude : Bool) : writeLine true true isExclude = fun line =>
      (if isExclude then ['@', '@'] else []) ++ ('/' :: line ++ "/$important".toList) := by
    funext line
    change _ ++ ('/' :: line ++ ['/']) ++ "$important".toList = _
    rw [append_assoc, append_assoc]
    rfl
  have hplain (isRegexp : Bool) : writeLine false isRegexp true = fun line =>
      '@' :: '@' :: if isRegexp then '/' :: line ++ ['/'] else line := by
    funext line
    exact append_nil _
  have hplainRegex : writeLine false true false = fun line => '/' :: line ++ ['/'] := by
    funext line
    exact append_nil _
  rw [hsame, hregex, hregex, hplain, hplain, hplainRegex, map_id]
  rfl

theorem mem_scanLines {text line : Text} (h : line ∈ scanLines text) : '\n' ∉ line ∧ line.length ≤ maxLine := by
  obtain ⟨whole, hwhole, rfl⟩ := mem_map.1 h
  obtain ⟨tail, htail⟩ := Text.trimSuffix_spec ['\r'] whole
  have hfits := mem_takeWhile_imp hwhole
  have hlength : whole.length ≤ maxLine := of_decide_eq_true hfits
  have hsplit : whole ∈ text.splitOn '\n' := by
    have hmem := (takeWhile_sublist _).subset hwhole
    unfold splitLines at hmem
    dsimp only at hmem
    split_ifs at hmem
    · exact (dropLast_sublist _).subset hmem
    · exact hmem
  have hline := Text.notMem_of_mem_splitOn hsplit
  rw [htail] at hline hlength
  rw [length_append] at hlength
  exact ⟨fun hmem => hline (mem_append_left _ hmem), by omega⟩

variable {text : Text}

theorem text_written (hlib : lib.Lawful)
    (h : acceptedLines lib (scanLines text) = .ok its) : ∀ it ∈ its, Written it := by
  intro it hit
  obtain ⟨line, hline, hparse⟩ := mem_acceptedLines lib h it hit
  obtain ⟨hnewline, hlength⟩ := mem_scanLines hline
  exact accepted_written hlib hparse hnewline hlength

theorem scanLines_flatMap {lines : List Text} (hnewline : ∀ line ∈ lines, '\n' ∉ line)
    (hlength : ∀ line ∈ lines, line.length ≤ maxLine) (hreturn : ∀ line ∈ lines, line.getLast? ≠ some '\r') :
    scanLines (lines.flatMap (· ++ ['\n'])) = lines := by
  have hsplit : splitLines (lines.flatMap (· ++ ['\n'])) = lines := by
    unfold splitLines
    rw [Text.splitOn_flatMap hnewline]
    simp
  unfold scanLines
  rw [hsplit, takeWhile_eq_self_iff.2 fun line hline => decide_eq_true (hlength line hline)]
  exact (map_congr_left fun line hline => Text.trimSuffix_eq_self (hreturn line hline)).trans (map_id _)

section

variable {its : List RuleLine} (hits : ∀ it ∈ its, Written it)

include hits

theorem mem_patterns (h : text ∈ patterns its isImportant isRegexp isExclude) :
    ∃ it ∈ its, Written it ∧ mapDomain it = text ∧ it.isImportant = isImportant ∧ it.isRegexp = isRegexp ∧
      it.isExclude = isExclude := by
  obtain ⟨it, hit, htext⟩ := mem_map.1 h
  obtain ⟨hmem, hkind⟩ := mem_filter.1 hit
  exact ⟨it, hmem, hits it hmem, htext, of_decide_eq_true hkind⟩

theorem kind_reads (hlib : lib.Lawful) (isImportant isImportant' isRegexp isExclude : Bool)
    (hkind : isRegexp → isExclude ∨ isImportant' = false) : ∀ text ∈ patterns its isImportant isRegexp isExclude,
      ∃ it, parseLine lib (writeLine isImportant' isRegexp isExclude text) = .accepted it ∧ mapDomain it = text ∧
        it.isImportant = isImportant' ∧ it.isRegexp = isRegexp ∧ it.isExclude = isExclude ∧
        it.isRawDomain = isDomainName (writeLine isImportant' isRegexp isExclude text) := by
  intro text htext
  obtain ⟨it, -, hwritten, rfl, -, hregexp, hexclude⟩ := mem_patterns hits htext
  cases isRegexp with
  | false => exact parseLine_name (hwritten.name hregexp) _ _ _ isImportant' isExclude
  | true =>
    have hdollar : isExclude → '$' ∉ mapDomain it := fun h => hwritten.dollar (.inl (hexclude.trans h))
    refine ⟨_, parseLine_regex hlib (hwritten.regex hregexp) isImportant' isExclude (hkind rfl) hdollar, ?_, rfl, rfl, rfl, ?_⟩
    · simp [mapDomain]
    · have hslash : '/' ∈ writeLine isImportant' true isExclude (mapDomain it) := by simp [writeLine]
      exact (isDomainName_eq_false hslash (by decide)).symm

theorem written_line {isImportant : Bool} (isImportant' isRegexp isExclude : Bool) :
    ∀ text ∈ patterns its isImportant isRegexp isExclude, '\n' ∉ writeLine isImportant' isRegexp isExclude text ∧
        (writeLine isImportant' isRegexp isExclude text).getLast? ≠ some '\r' := by
  intro text htext
  obtain ⟨it, -, hwritten, rfl, -, hregexp, -⟩ := mem_patterns hits htext
  have hnewline := hwritten.newline
  have hlast : isImportant' = false → isRegexp = false → (mapDomain it).getLast? ≠ some '\r' := by
    intro _ hname hreturn
    rw [hname] at hregexp
    rcases marked_last (hwritten.name hregexp) _ _ _ _ hreturn with hhat | hmem
    · cases hhat
    · exact (hwritten.name hregexp).notMem (by decide) hmem
  have hne : mapDomain it ≠ [] ∨ isRegexp := by
    cases isRegexp with
    | true => exact .inr rfl
    | false => exact .inl (marked_ne (hwritten.name hregexp) _ _ _)
  unfold writeLine
  constructor
  · intro hmem
    rcases mem_append.1 hmem with hmem | hmem
    · cases isExclude <;> cases isRegexp <;> simp [hnewline] at hmem
    · exact notMem_importance (by decide) isImportant' hmem
  · cases isImportant' with
    | true =>
      have himportance : importance true ≠ [] := by decide
      rw [List.getLast?_append_of_ne_nil _ himportance]
      decide
    | false =>
      change (_ ++ []).getLast? ≠ _
      rw [append_nil]
      cases isRegexp with
      | true =>
        rw [if_pos rfl, ← append_assoc, List.getLast?_append_of_ne_nil _ (cons_ne_nil _ _)]
        decide
      | false =>
        rw [if_neg Bool.false_ne_true, List.getLast?_append_of_ne_nil _ (hne.resolve_right Bool.false_ne_true)]
        exact hlast rfl rfl

end

def Fits (its : List RuleLine) : Prop :=
  hasKind its true true = true ∨
    ∀ it ∈ its, it.isExclude = true → (writeLine true it.isRegexp true (mapDomain it)).length ≤ maxLine

def readsRaw (its : List RuleLine) : Bool :=
  patterns its true false false = [] && !hasKind its true true && !hasKind its false true &&
    patterns its false true false = [] && (patterns its false false false).all isDomainName

structure ReadBack (its its' : List RuleLine) : Prop where
  important : patterns its' true false false = patterns its true false false
  importantRegex : patterns its' true true false = []
  importantExclude : ∀ isRegexp, patterns its' true isRegexp true = patterns its (hasKind its true true) isRegexp true
  plain : ∀ isRegexp, patterns its' false isRegexp false = patterns its false isRegexp false
  exclude : ∀ isRegexp, patterns its' false isRegexp true =
    if hasKind its true true then patterns its false isRegexp true else []
  raw : allRaw its' = readsRaw its
  unmarked : ∀ it ∈ its', it.isRawDomain = true → mapDomain it = it.ruleLine
  domains : its'.map mapDomain = (collected its).importantDomain ++ (collected its).importantExcludeDomain ++
    (collected its).importantExcludeDomainRegex ++ (collected its).domain ++ (collected its).domainRegex ++
    (collected its).excludeDomain ++ (collected its).excludeDomainRegex

theorem acceptedLines_skipped (hlib : lib.Lawful) :
    acceptedLines lib (texts.map (writeLine true true false)) = .ok [] := by
  induction texts with
  | nil => rfl
  | cons text texts ih =>
    rw [map_cons, acceptedLines, parseLine_importantRegex hlib]
    exact ih

theorem OfKind.all_raw (h : OfKind its isImportant isRegexp isExclude texts) :
    allRaw its = texts.all fun text => isDomainName (writeLine isImportant isRegexp isExclude text) := by
  unfold allRaw
  rw [← h.texts, all_map, Bool.eq_iff_iff, all_eq_true, all_eq_true]
  exact forall₂_congr fun it hit => by rw [h.raw it hit]; rfl

theorem OfKind.marked_raw
    (h : OfKind its isImportant isRegexp isExclude texts) (hkind : (isImportant || isRegexp || isExclude)) :
    allRaw its = decide (texts = []) := by
  have hline (text : Text) : isDomainName (writeLine isImportant isRegexp isExclude text) = false := by
    cases isImportant with
    | true =>
      have hdollar : '$' ∈ writeLine true isRegexp isExclude text := mem_append_right _ (by decide)
      exact isDomainName_eq_false hdollar (by decide)
    | false =>
      cases isRegexp with
      | true =>
        have hslash : '/' ∈ writeLine false true isExclude text := by simp [writeLine]
        exact isDomainName_eq_false hslash (by decide)
      | false =>
        obtain rfl : isExclude = true := hkind
        have hat : '@' ∈ writeLine false false true text := by simp [writeLine]
        exact isDomainName_eq_false hat (by decide)
  rw [h.all_raw]
  cases texts with
  | nil => rfl
  | cons text texts => simp [hline]

theorem allRaw_append (its its' : List RuleLine) : allRaw (its ++ its') = (allRaw its && allRaw its') := all_append

theorem readBack (hlib : lib.Lawful) (hits : ∀ it ∈ its, Written it) :
    ∃ its', acceptedLines lib (collected its).lines = .ok its' ∧ ReadBack its its' := by
  have hkind (isImportant isImportant' isRegexp isExclude : Bool)
      (hregexp : isRegexp → isExclude ∨ isImportant' = false) :=
    acceptedLines_kind (kind_reads hits hlib isImportant isImportant' isRegexp isExclude hregexp)
  have hexcluded (isRegexp : Bool) : ∃ its',
      acceptedLines lib ((if hasKind its true true then patterns its false isRegexp true else []).map
        (writeLine false isRegexp true)) = .ok its' ∧
      OfKind its' false isRegexp true (if hasKind its true true then patterns its false isRegexp true else []) := by
    split_ifs
    · exact hkind false false isRegexp true fun _ => .inl rfl
    · exact ⟨[], rfl, rfl, nofun, nofun, nofun⟩
  obtain ⟨its₁, hread₁, h₁⟩ := hkind true true false false nofun
  obtain ⟨its₂, hread₂, h₂⟩ := hkind (hasKind its true true) true false true nofun
  obtain ⟨its₃, hread₃, h₃⟩ := hkind (hasKind its true true) true true true fun _ => .inl rfl
  obtain ⟨its₄, hread₄, h₄⟩ := hkind false false false false nofun
  obtain ⟨its₅, hread₅, h₅⟩ := hkind false false true false fun _ => .inr rfl
  obtain ⟨its₆, hread₆, h₆⟩ := hexcluded false
  obtain ⟨its₇, hread₇, h₇⟩ := hexcluded true
  have hread : acceptedLines lib (collected its).lines =
      .ok (its₁ ++ [] ++ its₂ ++ its₃ ++ its₄ ++ its₅ ++ its₆ ++ its₇) := by
    rw [lines_eq]
    exact acceptedLines_append (acceptedLines_append (acceptedLines_append (acceptedLines_append (acceptedLines_append
      (acceptedLines_append (acceptedLines_append hread₁ (acceptedLines_skipped hlib)) hread₂) hread₃) hread₄) hread₅)
      hread₆) hread₇
  rw [append_nil] at hread
  refine ⟨_, hread, ?_, ?_, Bool.forall_bool.2 ⟨?_, ?_⟩, Bool.forall_bool.2 ⟨?_, ?_⟩, Bool.forall_bool.2 ⟨?_, ?_⟩, ?raw,
    ?unmarked, ?domains⟩
  case raw =>
    have hplain : allRaw its₄ = (patterns its false false false).all isDomainName := by
      rw [h₄.all_raw]
      simp [writeLine, importance]
    simp only [allRaw_append, hplain, h₁.marked_raw rfl, h₂.marked_raw rfl, h₃.marked_raw rfl, h₅.marked_raw rfl,
      h₆.marked_raw rfl, h₇.marked_raw rfl]
    unfold readsRaw
    cases hX : hasKind its true true with
    | true =>
      have hnot := not_both_nil hX
      simp only [Bool.not_true, Bool.and_false, Bool.false_and]
      grind
    | false =>
      cases hE : hasKind its false true with
      | true =>
        have hnot := not_both_nil hE
        simp only [Bool.not_true, Bool.and_false, Bool.false_and]
        grind
      | false =>
        obtain ⟨hnames, hregexes⟩ := not_hasKind_iff.1 hE
        simp [hnames, hregexes, Bool.and_comm, Bool.and_left_comm]
  case unmarked =>
    intro it hmem
    simp only [mem_append] at hmem
    rcases hmem with (((((hmem | hmem) | hmem) | hmem) | hmem) | hmem) | hmem
    · exact h₁.unmarked it hmem
    · exact h₂.unmarked it hmem
    · exact h₃.unmarked it hmem
    · exact h₄.unmarked it hmem
    · exact h₅.unmarked it hmem
    · exact h₆.unmarked it hmem
    · exact h₇.unmarked it hmem
  case domains =>
    simp only [map_append, h₁.texts, h₂.texts, h₃.texts, h₄.texts, h₅.texts, h₆.texts, h₇.texts]
    rfl
  all_goals
    simp [patterns_append, h₁.patterns, h₂.patterns, h₃.patterns, h₄.patterns, h₅.patterns, h₆.patterns, h₇.patterns]

theorem mem_lines {line : Text} (h : line ∈ (collected its).lines) :
    ∃ isImportant isImportant' isRegexp isExclude, ∃ text ∈ patterns its isImportant isRegexp isExclude,
      writeLine isImportant' isRegexp isExclude text = line ∧
        (isImportant' = isImportant ∨ (isImportant' ∧ isExclude ∧ hasKind its true true = false)) := by
  have hexclude : true = hasKind its true true ∨ (true = true ∧ true = true ∧ hasKind its true true = false) := by
    cases hasKind its true true <;> simp
  have hof {isRegexp : Bool} {text : Text}
      (h : text ∈ if hasKind its true true then patterns its false isRegexp true else []) :
      text ∈ patterns its false isRegexp true := by
    split_ifs at h
    · exact h
    · cases h
  rw [lines_eq] at h
  simp only [mem_append, mem_map] at h
  rcases h with ((((((⟨text, hmem, hline⟩ | ⟨text, hmem, hline⟩) | ⟨text, hmem, hline⟩) | ⟨text, hmem, hline⟩) |
    ⟨text, hmem, hline⟩) | ⟨text, hmem, hline⟩) | ⟨text, hmem, hline⟩) | ⟨text, hmem, hline⟩
  · exact ⟨_, _, _, _, text, hmem, hline, .inl rfl⟩
  · exact ⟨_, _, _, _, text, hmem, hline, .inl rfl⟩
  · exact ⟨_, _, _, _, text, hmem, hline, hexclude⟩
  · exact ⟨_, _, _, _, text, hmem, hline, hexclude⟩
  · exact ⟨_, _, _, _, text, hmem, hline, .inl rfl⟩
  · exact ⟨_, _, _, _, text, hmem, hline, .inl rfl⟩
  · exact ⟨_, _, _, _, text, hof hmem, hline, .inl rfl⟩
  · exact ⟨_, _, _, _, text, hof hmem, hline, .inl rfl⟩

theorem scan_collected (hits : ∀ it ∈ its, Written it) (hfits : Fits its) :
    scanLines ((collected its).lines.flatMap (· ++ ['\n'])) = (collected its).lines := by
  apply scanLines_flatMap
  · intro line hline
    obtain ⟨_, isImportant', isRegexp, isExclude, text, htext, rfl, -⟩ := mem_lines hline
    exact (written_line hits isImportant' isRegexp isExclude text htext).1
  · intro line hline
    obtain ⟨_, isImportant', isRegexp, isExclude, text, htext, rfl, hkind⟩ := mem_lines hline
    obtain ⟨it, hit, hwritten, rfl, himportant, hregexp, hexclude⟩ := mem_patterns hits htext
    rcases hkind with hsame | ⟨rfl, hexcept, hnone⟩
    · have hlength := hwritten.fits
      rwa [himportant, hregexp, hexclude, ← hsame] at hlength
    · rcases hfits with hsome | hfits
      · exact absurd (hnone.symm.trans hsome) Bool.false_ne_true
      · have hlength := hfits it hit (hexclude.trans hexcept)
        rw [hregexp] at hlength
        rwa [hexcept]
  · intro line hline
    obtain ⟨_, isImportant', isRegexp, isExclude, text, htext, rfl, -⟩ := mem_lines hline
    exact (written_line hits isImportant' isRegexp isExclude text htext).2

/-! ## The filter that is read back -/

section

variable (lib)

section

variable (its : List RuleLine) (name : Text)

def importantRegexHits : Bool :=
  (patterns its true true false).any (regexHit lib · name)

def importantNameHits : Bool :=
  (patterns its true false false).any (lib.adGuard · name)

theorem hits_important :
    hits lib its true false name = (importantRegexHits lib its name || importantNameHits lib its name) := rfl

end

/-- what is lost makes no difference: raw domains are the domains that the patterns match; otherwise an important regular
expression matches nothing more, and no exception is stopped by an important pattern unless there is an important
exception -/
def Restored (its : List RuleLine) : Prop :=
  ∀ domain, domain ≠ [] →
    let name := lib.toLower domain
    if readsRaw its then
      (hits lib its true false name || hits lib its false false name) = (patterns its false false false).contains name
    else
      (hits lib its true true name = false → importantRegexHits lib its name = true →
        importantNameHits lib its name = true ∨ (hits lib its false true name = false ∧ hits lib its false false name = true)) ∧
      (hasKind its true true = false → ¬ (hits lib its true false name = true ∧ hits lib its false true name = true))

end

namespace ReadBack

variable {its its' : List RuleLine} (h : ReadBack its its')

include h

variable (name : Text)

theorem hits_important_exclude : hits lib its' true true name = hits lib its (hasKind its true true) true name := by
  unfold hits
  rw [h.importantExclude, h.importantExclude]

theorem hits_important_name : hits lib its' true false name = importantNameHits lib its name := by
  unfold hits
  rw [h.importantRegex, h.important]
  rfl

theorem hits_plain : hits lib its' false false name = hits lib its false false name := by
  unfold hits
  rw [h.plain, h.plain]

theorem hits_exclude : hits lib its' false true name = (hasKind its true true && hits lib its false true name) := by
  unfold hits
  rw [h.exclude, h.exclude]
  cases hasKind its true true <;> simp

theorem hasKind_plain : hasKind its' false false = hasKind its false false := by
  unfold hasKind
  rw [h.plain, h.plain]

theorem compiles (hcompiles : Compiles lib its) : Compiles lib its' := by
  intro isImportant isExclude regex hregex
  cases isImportant <;> cases isExclude
  · rw [h.plain] at hregex
    exact hcompiles false false regex hregex
  · rw [h.exclude] at hregex
    split_ifs at hregex
    · exact hcompiles false true regex hregex
    · cases hregex
  · rw [h.importantRegex] at hregex
    cases hregex
  · rw [h.importantExclude] at hregex
    exact hcompiles _ true regex hregex

theorem matched_iff (hplain : hasKind its false false) {query : Query Text} (hhost : host query ≠ []) :
    matched lib its' query = matched lib its query ↔
      (hits lib its true true (lib.toLower (host query)) = false → importantRegexHits lib its (lib.toLower (host query)) →
        importantNameHits lib its (lib.toLower (host query)) ∨
          (hits lib its false true (lib.toLower (host query)) = false ∧ hits lib its false false (lib.toLower (host query)))) ∧
      (hasKind its true true = false → ¬ (hits lib its true false (lib.toLower (host query)) ∧
        hits lib its false true (lib.toLower (host query)))) := by
  have hnone (hkind : hasKind its true true = false) := hits_of_not_hasKind lib hkind (lib.toLower (host query))
  unfold matched
  simp only [found_of_host lib hhost, h.hits_important_exclude, h.hits_important_name, h.hits_plain, h.hits_exclude,
    h.hasKind_plain, hplain, hits_important, Bool.not_true, Bool.false_or]
  generalize importantRegexHits lib its (lib.toLower (host query)) = regex
  generalize importantNameHits lib its (lib.toLower (host query)) = important
  generalize hits lib its false false (lib.toLower (host query)) = plain
  cases hkind : hasKind its true true with
  | true =>
    generalize hits lib its false true (lib.toLower (host query)) = exclude
    generalize hits lib its true true (lib.toLower (host query)) = importantExclude
    cases regex <;> cases important <;> cases plain <;> cases exclude <;> cases importantExclude <;> simp
  | false =>
    rw [hnone hkind]
    generalize hits lib its false true (lib.toLower (host query)) = exclude
    cases regex <;> cases important <;> cases plain <;> cases exclude <;> simp

end ReadBack

section

variable (lib)

def RoundTrips (rules : List Options) (text : Text) : Prop :=
  ∃ rule', toOptions lib text = .ok [rule'] ∧ ∀ rule ∈ rules, ∀ built, newHeadlessRule lib rule = .ok built →
    ∃ built', newHeadlessRule lib rule' = .ok built' ∧
      ∀ m, Plain m → host m.query ≠ [] → (built'.matchOn m).1 = (built.matchOn m).1

theorem toOptions_lines (h : acceptedLines lib (scanLines text) = .ok its) : toOptions lib text = lineRules its := by
  unfold toOptions
  rw [h]
  rfl

theorem fromOptions_lines {rules : List Options} (hrules : lineRules its = .ok rules)
    (htext : fromOptions rules = .ok text) :
    rules = [patternRules its] ∧ hasKind its false false ∧ text = (collected its).lines.flatMap (· ++ ['\n']) := by
  unfold lineRules at hrules
  split_ifs at hrules with hempty hraw
  · obtain rfl := Except.ok.inj hrules
    cases htext
  · obtain rfl := Except.ok.inj hrules
    rw [fromOptions, collect_patternRules] at htext
    split_ifs at htext with hkind
    · exact ⟨rfl, hkind, (Except.ok.inj htext).symm⟩
    · cases htext

theorem same_iff {rule rule' : Options} {f f' : Query Text → Bool} (h : Means lib rule f) (h' : Means lib rule' f')
    (hdomain : ∀ query query', host query = host query' → f query = f query' ∧ f' query = f' query') :
    (∀ built, newHeadlessRule lib rule = .ok built → ∃ built', newHeadlessRule lib rule' = .ok built' ∧
      ∀ m, Plain m → host m.query ≠ [] → (built'.matchOn m).1 = (built.matchOn m).1) ↔
    ∀ domain, domain ≠ [] → f' (toDomain domain).query = f (toDomain domain).query := by
  constructor
  · intro hsame domain hne
    have ⟨built, hbuilt, _⟩ := h
    obtain ⟨built', hbuilt', hmatch⟩ := hsame built hbuilt
    have hplain := toDomain_plain domain
    have heq := hmatch (toDomain domain) hplain (by rwa [host_toDomain hne])
    rwa [matchOn_of_means lib h hbuilt hplain, matchOn_of_means lib h' hbuilt' hplain] at heq
  · intro hsame built hbuilt
    have ⟨built', hbuilt', _⟩ := h'
    refine ⟨built', hbuilt', fun m hm hhost => ?_⟩
    have hhost' : host m.query = host (toDomain (host m.query)).query := (host_toDomain hhost).symm
    rw [matchOn_of_means lib h hbuilt hm, matchOn_of_means lib h' hbuilt' hm, (hdomain _ _ hhost').1, (hdomain _ _ hhost').2]
    exact hsame _ hhost

theorem matched_host (its : List RuleLine) {query query' : Query Text} (h : host query = host query') :
    matched lib its query = matched lib its query' := by
  unfold matched found
  rw [h]

end

namespace ReadBack

variable {its its' : List RuleLine} (h : ReadBack its its')

include h

theorem ruleLines (hraw : readsRaw its) : its'.map (·.ruleLine) = patterns its false false false := by
  have hlines : its'.map (·.ruleLine) = its'.map mapDomain := by
    refine map_congr_left fun it hit => (h.unmarked it hit ?_).symm
    exact all_eq_true.1 (h.raw.trans hraw) it hit
  unfold readsRaw at hraw
  simp only [Bool.and_eq_true, decide_eq_true_eq, Bool.not_eq_true'] at hraw
  obtain ⟨⟨⟨⟨himportant, hX⟩, hE⟩, hregex⟩, -⟩ := hraw
  obtain ⟨hnames, hregexes⟩ := not_hasKind_iff.1 hE
  rw [hlines, h.domains]
  simp [collected, himportant, hX, hnames, hregexes, hregex]

end ReadBack

theorem matched_readsRaw (hraw : readsRaw its) (hplain : hasKind its false false)
    {query : Query Text} (hhost : host query ≠ []) : matched lib its query =
      (hits lib its true false (lib.toLower (host query)) || hits lib its false false (lib.toLower (host query))) := by
  unfold readsRaw at hraw
  simp only [Bool.and_eq_true, decide_eq_true_eq, Bool.not_eq_true'] at hraw
  obtain ⟨⟨⟨⟨-, hX⟩, hE⟩, -⟩, -⟩ := hraw
  unfold matched
  simp [found_of_host lib hhost, hits_of_not_hasKind lib hX, hits_of_not_hasKind lib hE, hplain]

theorem roundTrips_iff_restored (hlib : lib.Lawful) (hits : ∀ it ∈ its, Written it)
    (hplain : hasKind its false false) (hfits : Fits its) :
    RoundTrips lib [patternRules its] ((collected its).lines.flatMap (· ++ ['\n'])) ↔
      (Compiles lib its → Restored lib its) := by
  obtain ⟨its', hread, hback⟩ := readBack hlib hits
  have hrules : toOptions lib ((collected its).lines.flatMap (· ++ ['\n'])) = lineRules its' := by
    apply toOptions_lines
    rw [scan_collected hits hfits]
    exact hread
  have hne : its' ≠ [] := by
    intro hnil
    have hkind := hback.hasKind_plain
    rw [hnil, hplain] at hkind
    cases hkind
  have hkeep {rule' : Options} (hrule' : lineRules its' = .ok [rule']) :
      RoundTrips lib [patternRules its] ((collected its).lines.flatMap (· ++ ['\n'])) ↔
        ∀ built, newHeadlessRule lib (patternRules its) = .ok built → ∃ built', newHeadlessRule lib rule' = .ok built' ∧
          ∀ m, Plain m → host m.query ≠ [] → (built'.matchOn m).1 = (built.matchOn m).1 := by
    unfold RoundTrips
    rw [hrules, hrule']
    simp
  -- a filter that cannot be built matches nothing to compare
  have hiff {rule' : Options} {f' : Query Text → Bool} (hrule' : lineRules its' = .ok [rule'])
      (hmeans : Compiles lib its → Means lib rule' f')
      (hhost : ∀ query query', host query = host query' → f' query = f' query')
      (hrestored : Restored lib its ↔ ∀ domain, domain ≠ [] →
        f' (toDomain domain).query = matched lib its (toDomain domain).query) :
      RoundTrips lib [patternRules its] ((collected its).lines.flatMap (· ++ ['\n'])) ↔
        (Compiles lib its → Restored lib its) := by
    rw [hkeep hrule']
    by_cases hcompiles : Compiles lib its
    · rw [same_iff lib (patternRules_means lib hcompiles) (hmeans hcompiles)
        fun _ _ h => ⟨matched_host lib its h, hhost _ _ h⟩, ← hrestored]
      exact ⟨fun h _ => h, fun h => h hcompiles⟩
    · exact ⟨fun _ h => absurd h hcompiles, fun _ built hbuilt => absurd (patternRules_compiles lib hbuilt) hcompiles⟩
  cases hraw : readsRaw its with
  | true =>
    have hlines := hback.ruleLines hraw
    have hrule' : lineRules its' = .ok [.default { domain := some (patterns its false false false) }] := by
      have hall : its'.all (·.isRawDomain) := hback.raw.trans hraw
      unfold lineRules
      rw [if_neg hne, if_pos hall, hlines]
    have hall : (patterns its false false false).all isDomainName := by
      unfold readsRaw at hraw
      exact (Bool.and_eq_true_iff.1 hraw).2
    have hsome : patterns its false false false ≠ [] := by
      rw [← hlines]
      exact fun h => hne (map_eq_nil_iff.1 h)
    have hempty : [] ∉ patterns its false false false := fun h => Bool.false_ne_true (all_eq_true.1 hall _ h)
    refine hiff hrule' (fun _ => rawRule_means lib hsome hempty) (fun query query' h => ?_) ?_
    · unfold found
      rw [h]
    · unfold Restored
      refine forall₂_congr fun domain hdomain => ?_
      have hhost : host (toDomain domain).query ≠ [] := by rwa [host_toDomain hdomain]
      rw [matched_readsRaw hraw hplain hhost, found_of_host lib hhost, host_toDomain hdomain]
      simp only [hraw, if_true]
      exact eq_comm
  | false =>
    have hrule' : lineRules its' = .ok [patternRules its'] := by
      unfold lineRules
      rw [if_neg hne, if_neg]
      exact fun h => Bool.false_ne_true (hraw.symm.trans (hback.raw.symm.trans h))
    refine hiff hrule' (fun hcompiles => patternRules_means lib (hback.compiles hcompiles))
      (fun query query' h => matched_host lib its' h) ?_
    unfold Restored
    refine forall₂_congr fun domain hdomain => ?_
    have hhost : host (toDomain domain).query ≠ [] := by rwa [host_toDomain hdomain]
    rw [hback.matched_iff hplain hhost, host_toDomain hdomain]
    simp only [hraw, Bool.false_eq_true, if_false]

/-- **The text of a filter is read back**, to rules that match the same domains, exactly if what is lost on the way makes no
difference (up to lines that do not fit the scanner). -/
theorem roundTrip_iff (hlib : lib.Lawful) (text text' : Text) (its : List RuleLine) (rules : List Options)
    (hlines : acceptedLines lib (scanLines text) = .ok its) (hrules : toOptions lib text = .ok rules)
    (htext : fromOptions rules = .ok text') :
    (Fits its ∧ (Compiles lib its → Restored lib its) → RoundTrips lib rules text') ∧
      (RoundTrips lib rules text' → Fits its → Compiles lib its → Restored lib its) := by
  rw [toOptions_lines lib hlines] at hrules
  obtain ⟨rfl, hplain, rfl⟩ := fromOptions_lines hrules htext
  have hwritten := text_written hlib hlines
  constructor
  · intro hcondition
    exact (roundTrips_iff_restored hlib hwritten hplain hcondition.1).2 hcondition.2
  · intro htrip hfits
    exact (roundTrips_iff_restored hlib hwritten hplain hfits).1 htrip

theorem sampleLibrary_lawful : sampleLibrary.Lawful := ⟨rfl, fun _ => rfl, fun _ => rfl⟩

theorem roundTrip_sample :
    let text := "||a.com^\n@@||b.com^\n".toList
    let its : List RuleLine :=
      [{ ruleLine := "a.com".toList, isSuffix := true, hasEnd := true },
        { ruleLine := "b.com".toList, isExclude := true, isSuffix := true, hasEnd := true }]
    let text' := "@@||b.com^$important\n||a.com^\n".toList
    (acceptedLines sampleLibrary (scanLines text) = .ok its ∧ toOptions sampleLibrary text = .ok [patternRules its] ∧
        fromOptions [patternRules its] = .ok text') ∧
      RoundTrips sampleLibrary [patternRules its] text' := by
  intro text its text'
  have hlines : acceptedLines sampleLibrary (scanLines text) = .ok its := by decide +kernel
  have hrules : toOptions sampleLibrary text = .ok [patternRules its] := by
    rw [toOptions_lines sampleLibrary hlines]
    rfl
  have htext : fromOptions [patternRules its] = .ok text' := by decide +kernel
  refine ⟨⟨hlines, hrules, htext⟩, ?_⟩
  apply (roundTrip_iff sampleLibrary_lawful text text' its _ hlines hrules htext).1
  refine ⟨.inr (by decide), fun _ domain _ => ?_⟩
  have hraw : readsRaw its = false := by decide +kernel
  have himportant : hits sampleLibrary its true false domain = false := rfl
  exact ⟨fun _ h => absurd h Bool.false_ne_true, fun _ h => Bool.false_ne_true (himportant.symm.trans h.1)⟩

/-- an important pattern and a plain exception for one domain: the exception comes back as an important one -/
theorem exception_becomes_important :
    let text := "||a.com^$important\n||b.com^\n@@||a.com^\n".toList
    let its : List RuleLine :=
      [{ ruleLine := "a.com".toList, isImportant := true, isSuffix := true, hasEnd := true },
        { ruleLine := "b.com".toList, isSuffix := true, hasEnd := true },
        { ruleLine := "a.com".toList, isExclude := true, isSuffix := true, hasEnd := true }]
    let text' := "||a.com^$important\n@@||a.com^$important\n||b.com^\n".toList
    (acceptedLines sampleLibrary (scanLines text) = .ok its ∧ toOptions sampleLibrary text = .ok [patternRules its] ∧
        fromOptions [patternRules its] = .ok text') ∧
      ¬ RoundTrips sampleLibrary [patternRules its] text' := by
  intro text its text'
  have hlines : acceptedLines sampleLibrary (scanLines text) = .ok its := by decide +kernel
  have hrules : toOptions sampleLibrary text = .ok [patternRules its] := by
    rw [toOptions_lines sampleLibrary hlines]
    rfl
  have htext : fromOptions [patternRules its] = .ok text' := by decide +kernel
  refine ⟨⟨hlines, hrules, htext⟩, fun htrip => ?_⟩
  have hcompiles : Compiles sampleLibrary its := by
    unfold Compiles KindCompiles
    decide
  have hrule : lineRules its = .ok [patternRules its] := rfl
  obtain ⟨-, hplain, hsame⟩ := fromOptions_lines hrule htext
  rw [hsame, roundTrips_iff_restored sampleLibrary_lawful (text_written sampleLibrary_lawful hlines) hplain
    (.inr (by decide))] at htrip
  have hrestored := htrip hcompiles "a.com".toList (by decide)
  have hraw : readsRaw its = false := by decide +kernel
  exact hrestored.2 (by decide) ⟨by decide, by decide⟩

end EtonifyCore.AdGuard
