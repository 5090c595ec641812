/-
Lines of a filter that `FromOptions` writes, and how `ToOptions` reads them.

An accepted line is `Written` (`accepted_written`): a name with marks around it, or a regular expression. Both are read back,
but for `parseLine_importantRegex`: a line that starts with `/` has no modifiers.

Premise: a text that is empty, or starts with `/` or `@`, is not an address (`Library.Lawful`).
-/
import EtonifyCore.AdGuard.Convertor

namespace EtonifyCore.AdGuard

open List
open Core Text

/-! ## Names -/

def nameChar (c : Char) : Bool := c.isAlpha || c.isDigit || c = '_' || c = '-' || c = '.'

theorem nameChar_of_isDomainNameFrom {last : Char} {partlen : ℕ} {nonNumeric : Bool} {text : Text}
    (h : isDomainNameFrom last partlen nonNumeric text) : ∀ c ∈ text, nameChar c := by
  induction text generalizing last partlen nonNumeric with
  | nil => intro c hmem; cases hmem
  | cons d text ih =>
    intro c hmem
    have hd : nameChar d ∧ ∃ last partlen nonNumeric, isDomainNameFrom last partlen nonNumeric text := by
      rw [isDomainNameFrom] at h
      split_ifs at h with halpha hdigit hdash hdot
      · refine ⟨?_, _, _, _, h⟩
        rcases halpha with halpha | rfl
        · simp [nameChar, halpha]
        · decide
      · exact ⟨by simp [nameChar, hdigit], _, _, _, h⟩
      · rw [Bool.and_eq_true] at h
        exact ⟨by simp [nameChar, hdash], _, _, _, h.2⟩
      · rw [Bool.and_eq_true] at h
        exact ⟨by simp [nameChar, hdot], _, _, _, h.2⟩
    obtain ⟨hname, last, partlen, nonNumeric, hrest⟩ := hd
    rcases mem_cons.1 hmem with rfl | hmem
    · exact hname
    · exact ih hrest c hmem

theorem nameChar_of_isDomainName {text : Text} (h : isDomainName text) : ∀ c ∈ text, nameChar c := by
  unfold isDomainName at h
  rw [Bool.or_eq_true] at h
  rcases h with h | h
  · rw [of_decide_eq_true h]
    exact all_eq_true.1 (by decide)
  · rw [Bool.and_eq_true] at h
    exact nameChar_of_isDomainNameFrom h.2

structure Name (line : Text) : Prop where
  ne : line ≠ []
  check : checkDomain line = true

namespace Name

variable {line : Text}

theorem char (h : Name line) : ∀ c ∈ line, (c = '*' || nameChar c) := by
  intro c hc
  by_cases hstar : c = '*'
  · simp [hstar]
  · have hmem : c ∈ (if ['.'].isPrefixOf line || ['-'].isPrefixOf line then 'r' :: line else line).map
        fun c => if c = '*' then 'x' else c := by
      refine mem_map.2 ⟨c, ?_, if_neg hstar⟩
      split_ifs
      · exact mem_cons_of_mem _ hc
      · exact hc
    rw [nameChar_of_isDomainName h.check c hmem, Bool.or_true]

variable {c : Char}

section

variable (h : Name line) (hc : (c = '*' || nameChar c) = false)
include h hc

theorem notMem : c ∉ line := by
  intro hmem
  rw [h.char c hmem] at hc
  cases hc

theorem head : line.head? ≠ some c := fun heq => h.notMem hc (mem_of_mem_head? heq)

theorem last : line.getLast? ≠ some c := fun heq => h.notMem hc (mem_of_getLast? heq)

end

end Name

variable {line : Text}

theorem name_of_isDomainName (h : isDomainName line) : Name line := by
  have hne : line ≠ [] := by
    rintro rfl
    cases h
  refine ⟨hne, ?_⟩
  unfold checkDomain
  have hmap : ∀ text : Text, (∀ c ∈ text, nameChar c) → text.map (fun c => if c = '*' then 'x' else c) = text := by
    intro text htext
    refine (map_congr_left fun c hc => ?_).trans (map_id text)
    have hstar : c ≠ '*' := by
      rintro rfl
      exact absurd (htext _ hc) (by decide)
    exact if_neg hstar
  have hchar := nameChar_of_isDomainName h
  by_cases hroot : line = ['.']
  · rw [hroot]
    decide
  · -- no other name starts with a dot or a dash
    have hfrom : isDomainNameFrom '.' 0 false line := by
      unfold isDomainName at h
      simp only [hroot, decide_false, Bool.false_or, Bool.and_eq_true] at h
      exact h.2
    have hstart : (['.'].isPrefixOf line || ['-'].isPrefixOf line) = false := by
      cases line with
      | nil => rfl
      | cons c line =>
        rw [Bool.or_eq_false_iff]
        constructor
        · rw [Bool.eq_false_iff]
          intro hdot
          obtain rfl : '.' = c := by simpa [List.isPrefixOf] using hdot
          exact absurd hfrom (by simp [isDomainNameFrom])
        · rw [Bool.eq_false_iff]
          intro hdash
          obtain rfl : '-' = c := by simpa [List.isPrefixOf] using hdash
          exact absurd hfrom (by simp [isDomainNameFrom])
    rw [hstart, if_neg Bool.false_ne_true]
    dsimp only
    rw [hmap line hchar]
    exact h

/-! ## Lines that are read back -/

structure Library.Lawful (lib : Library) : Prop where
  nil : lib.parseAddr [] = none
  slash : ∀ text, lib.parseAddr ('/' :: text) = none
  at_ : ∀ text, lib.parseAddr ('@' :: text) = none

def importance (isImportant : Bool) : Text := if isImportant then "$important".toList else []

theorem notMem_importance (hc : c ∉ "$important".toList) (isImportant : Bool) : c ∉ importance isImportant := by
  cases isImportant with
  | true => exact hc
  | false => exact not_mem_nil

def writeLine (isImportant isRegexp isExclude : Bool) (pattern : Text) : Text :=
  (if isExclude then ['@', '@'] else []) ++ (if isRegexp then '/' :: pattern ++ ['/'] else pattern) ++
    importance isImportant

variable {lib : Library}

theorem modifiers_important : modifiers lib ("important".toList.splitOn ',') = some true := by
  have hsplit : "important".toList.splitOn ',' = ["important".toList] := by decide
  have hname : "important".toList.splitOn '=' = ["important".toList] := by decide
  rw [hsplit, modifiers, modifiers, modifier, hname]
  rfl

variable {isImportant : Bool}

theorem cutModifiers_written {body : Text} (hslash : ['/'].isPrefixOf body = false) (hbody : '$' ∉ body)
    (hne : body ≠ []) : cutModifiers lib (body ++ importance isImportant) = some (body, isImportant) := by
  cases isImportant with
  | true =>
    have hstart : ['/'].isPrefixOf (body ++ "$important".toList) = false := by
      cases body with
      | nil => exact absurd rfl hne
      | cons c body => simpa [List.isPrefixOf] using hslash
    have hcontains : contains ['$'] (body ++ "$important".toList) := by
      have hself := contains_append ['$'] body "important".toList
      rwa [append_assoc] at hself
    have hafter : after ['$'] (body ++ "$important".toList) = "important".toList := after_append hbody
    have hbefore : before ['$'] (body ++ "$important".toList) = body := before_append hbody
    change cutModifiers lib (body ++ "$important".toList) = _
    rw [cutModifiers, if_pos ⟨hstart, hcontains⟩, hafter, hbefore, modifiers_important]
    rfl
  | false =>
    have hnone : contains ['$'] body = false := contains_eq_false mem_cons_self hbody
    change cutModifiers lib (body ++ []) = _
    rw [append_nil, cutModifiers, if_neg]
    rintro ⟨-, hcontains⟩
    rw [hnone] at hcontains
    cases hcontains

def marked (isSuffix hasStart hasEnd : Bool) (name : Text) : Text :=
  mapDomain { ruleLine := name, isSuffix, hasStart, hasEnd }

theorem marked_eq (isSuffix hasStart hasEnd : Bool) (name : Text) : marked isSuffix hasStart hasEnd name =
      (if isSuffix then ['|', '|'] else if hasStart then ['|'] else []) ++ name ++ if hasEnd then ['^'] else [] := by
  cases isSuffix <;> cases hasStart <;> cases hasEnd <;> simp [marked, mapDomain]

theorem mapDomain_eq_marked (it : RuleLine) : mapDomain it = marked it.isSuffix it.hasStart it.hasEnd it.ruleLine := rfl

theorem mem_marked {isSuffix hasStart hasEnd : Bool} {name : Text} (h : c ∈ marked isSuffix hasStart hasEnd name) :
    c ∈ name ∨ c = '|' ∨ c = '^' := by
  rw [marked_eq] at h
  cases isSuffix <;> cases hasStart <;> cases hasEnd <;> simp at h <;> tauto

section

variable {name : Text} (h : Name name) (isSuffix hasStart hasEnd : Bool)

include h

theorem marked_last : ∀ c, (marked isSuffix hasStart hasEnd name).getLast? = some c → c = '^' ∨ c ∈ name := by
  intro c hc
  rw [marked_eq] at hc
  cases hasEnd with
  | true =>
    simp at hc
    exact .inl hc.symm
  | false =>
    have hlast : name.getLast? = some c := by
      cases hname : name.getLast? with
      | none => exact absurd (List.getLast?_eq_none_iff.1 hname) h.ne
      | some d => simpa [hname] using hc
    exact .inr (mem_of_getLast? hlast)

theorem marked_head : ∀ c, (marked isSuffix hasStart hasEnd name).head? = some c → c = '|' ∨ c ∈ name := by
  intro c hc
  obtain ⟨d, rest, hrest⟩ := exists_cons_of_ne_nil h.ne
  rw [marked_eq, hrest] at hc
  cases isSuffix <;> cases hasStart <;> simp at hc <;> subst hc <;> simp [hrest]

theorem marked_ne : marked isSuffix hasStart hasEnd name ≠ [] := by
  intro hnil
  rw [marked_eq, append_eq_nil_iff, append_eq_nil_iff] at hnil
  exact h.ne hnil.1.2

theorem lineFlags_marked (isImportant isExclude : Bool) :
    lineFlags isImportant ((if isExclude then ['@', '@'] else []) ++ marked isSuffix hasStart hasEnd name) =
      { ruleLine := name, isExclude, isSuffix, hasStart := !isSuffix && hasStart, hasEnd, isImportant } := by
  have hat : cutPrefix ['@', '@'] ((if isExclude then ['@', '@'] else []) ++ marked isSuffix hasStart hasEnd name) =
      (marked isSuffix hasStart hasEnd name, isExclude) := by
    cases isExclude with
    | true => exact cutPrefix_append
    | false =>
      refine cutPrefix_eq_self fun hhead => ?_
      rcases marked_head h isSuffix hasStart hasEnd _ hhead with hbar | hmem
      · cases hbar
      · exact h.notMem (by decide) hmem
  have htrim : trimSuffix ['|'] (marked isSuffix hasStart hasEnd name) = marked isSuffix hasStart hasEnd name := by
    refine trimSuffix_eq_self fun hlast => ?_
    rcases marked_last h isSuffix hasStart hasEnd _ hlast with hhat | hmem
    · cases hhat
    · exact h.notMem (by decide) hmem
  have hend : cutSuffix ['^'] (name ++ if hasEnd then ['^'] else []) = (name, hasEnd) := by
    cases hasEnd with
    | true => exact cutSuffix_append
    | false =>
      rw [if_neg Bool.false_ne_true, append_nil]
      exact cutSuffix_eq_self (h.last (by decide))
  have hhead : (name ++ if hasEnd then ['^'] else []).head? ≠ some '|' := by
    rw [List.head?_append_of_ne_nil name h.ne]
    exact h.head (by decide)
  unfold lineFlags
  simp only [hat, htrim]
  rw [marked_eq]
  cases isSuffix with
  | true =>
    rw [if_pos rfl, append_assoc, cutPrefix_append]
    simp only [if_true, hend]
    rfl
  | false =>
    rw [if_neg Bool.false_ne_true]
    cases hasStart with
    | true =>
      have hbars : cutPrefix ['|', '|'] (['|'] ++ name ++ if hasEnd then ['^'] else []) =
          (['|'] ++ name ++ if hasEnd then ['^'] else [], false) := by
        rw [cutPrefix, if_neg]
        intro hpre
        obtain ⟨t, ht⟩ := isPrefixOf_iff_prefix.1 hpre
        rw [append_assoc] at ht
        have hsame : '|' :: t = name ++ if hasEnd then ['^'] else [] := (List.cons.inj ht).2
        rw [← hsame] at hhead
        exact hhead rfl
      rw [if_pos rfl, hbars]
      dsimp only
      rw [if_neg Bool.false_ne_true, append_assoc, cutPrefix_append]
      simp only [hend]
      rfl
    | false =>
      rw [if_neg Bool.false_ne_true, nil_append, cutPrefix_eq_self hhead]
      dsimp only
      rw [if_neg Bool.false_ne_true, cutPrefix_eq_self hhead]
      simp only [hend]
      rfl

end

variable {flags : RuleLine}

theorem parseDomain_name {name : Text} (h : Name name) :
    parseDomain flags name = .accepted { flags with ruleLine := name } := by
  have hscheme : contains "://".toList name = false := contains_eq_false mem_cons_self (h.notMem (by decide))
  have hplain : name.any (· ∈ unsupported) = false := by
    rw [any_eq_false]
    intro c hc hmem
    have hall : unsupported.all (fun c => !(c = '*' || nameChar c)) := by decide
    have hno : ∀ c ∈ unsupported, (c = '*' || nameChar c) = false := fun c hc => by
      simpa only [Bool.not_eq_true'] using all_eq_true.1 hall c hc
    exact h.notMem (hno c (of_decide_eq_true hmem)) hc
  have hcut : cutScheme name = (name, false) := by rw [cutScheme, hscheme, if_neg Bool.false_ne_true]
  unfold parseDomain
  rw [hcut]
  dsimp only
  rw [hplain, if_neg Bool.false_ne_true, if_neg h.ne, if_pos h.check, Bool.or_false]

theorem parsePattern_name (h : Name flags.ruleLine) : parsePattern flags = .accepted flags := by
  have hslash : ['/'].isPrefixOf flags.ruleLine = false := by
    rw [Bool.eq_false_iff]
    intro hpre
    exact h.notMem (by decide) ((List.isPrefixOf_iff_prefix.1 hpre).subset mem_cons_self)
  unfold parsePattern
  dsimp only
  rw [hslash, Bool.false_and, if_neg Bool.false_ne_true, parseDomain_name h]

theorem parsePattern_regex {regex : Text} (hline : flags.ruleLine = '/' :: regex ++ ['/'])
    (hregex : ignoreIPCIDRRegexp regex = false) :
    parsePattern flags = .accepted { flags with ruleLine := regex, isRegexp := true } := by
  have hstart : ['/'].isPrefixOf ('/' :: regex ++ ['/']) := by simp [List.isPrefixOf]
  have hend : ['/'].isSuffixOf ('/' :: regex ++ ['/']) := isSuffixOf_iff_suffix.2 (suffix_append _ _)
  have hinner : (('/' :: regex ++ ['/']).drop 1).take (('/' :: regex ++ ['/']).length - 2) = regex := by simp
  unfold parsePattern
  dsimp only
  rw [hline, hstart, hend, Bool.true_and, if_pos rfl, if_neg (by simp), hinner, hregex, if_neg Bool.false_ne_true]

theorem parseLine_eq (hhead : line.head? = some c) (hmark : c ≠ '!') (hhash : c ≠ '#')
    (hname : isDomainName line = false) (hhost : parseAdGuardHostLine lib line = none)
    (hlast : line.getLast? ≠ some '|') {body : Text} (hcut : cutModifiers lib line = some (body, isImportant)) :
    parseLine lib line = parsePattern (lineFlags isImportant body) := by
  have hstart : ¬ (line = [] ∨ ['!'].isPrefixOf line ∨ ['#'].isPrefixOf line) := by
    cases line with
    | nil => cases hhead
    | cons d line =>
      obtain rfl : d = c := Option.some.inj hhead
      simp [List.isPrefixOf, Ne.symm hmark, Ne.symm hhash]
  unfold parseLine
  rw [if_neg hstart, hname, if_neg Bool.false_ne_true, hhost, trimSuffix_eq_self hlast]
  rw [hcut]

theorem isDomainName_eq_false (hmem : c ∈ line) (hc : nameChar c = false) : isDomainName line = false := by
  rw [Bool.eq_false_iff]
  intro hname
  rw [nameChar_of_isDomainName hname c hmem] at hc
  cases hc

theorem getLast?_written (body : Text) (hlast : body.getLast? ≠ some '|') :
    (body ++ importance isImportant).getLast? ≠ some '|' := by
  cases isImportant with
  | true =>
    have hne : importance true ≠ [] := by decide
    rw [List.getLast?_append_of_ne_nil body hne]
    decide
  | false =>
    change (body ++ []).getLast? ≠ _
    rwa [append_nil]

theorem parseLine_name {name : Text} (h : Name name) (isSuffix hasStart hasEnd isImportant isExclude : Bool) :
    ∃ it, parseLine lib (writeLine isImportant false isExclude (marked isSuffix hasStart hasEnd name)) = .accepted it ∧
      mapDomain it = marked isSuffix hasStart hasEnd name ∧ it.isImportant = isImportant ∧ it.isRegexp = false ∧
      it.isExclude = isExclude ∧
      it.isRawDomain = isDomainName (writeLine isImportant false isExclude (marked isSuffix hasStart hasEnd name)) := by
  let pattern := marked isSuffix hasStart hasEnd name
  let body := (if isExclude then ['@', '@'] else []) ++ pattern
  have hline : writeLine isImportant false isExclude pattern = body ++ importance isImportant := rfl
  have hno (c : Char) (hc : c ≠ '@' ∧ c ≠ '|' ∧ c ≠ '^' ∧ (c = '*' || nameChar c) = false) : c ∉ body := by
    obtain ⟨hat, hbar, hhat, hc⟩ := hc
    intro hmem
    rcases mem_append.1 hmem with hmem | hpattern
    · cases isExclude with
      | true => exact hat (by simpa using hmem)
      | false => cases hmem
    · rcases mem_marked hpattern with hmem | hmark | hmark
      · rw [h.char c hmem] at hc
        cases hc
      · exact hbar hmark
      · exact hhat hmark
  have hne : body ≠ [] := fun hnil => marked_ne h isSuffix hasStart hasEnd (append_eq_nil_iff.1 hnil).2
  obtain ⟨c, rest, hrest⟩ := exists_cons_of_ne_nil hne
  have hmem : c ∈ body := hrest ▸ mem_cons_self
  rw [hline]
  cases hname : isDomainName (body ++ importance isImportant) with
  | true =>
    -- without modifiers and marks of an exception, it is a raw domain
    have hchar := nameChar_of_isDomainName hname
    have himportant : isImportant = false := by
      rw [Bool.eq_false_iff]
      rintro rfl
      exact absurd (hchar '$' (mem_append_right _ (by decide))) (by decide)
    have hexclude : isExclude = false := by
      rw [Bool.eq_false_iff]
      rintro rfl
      exact absurd (hchar '@' (mem_append_left _ mem_cons_self)) (by decide)
    subst himportant hexclude
    refine ⟨{ ruleLine := pattern, isRawDomain := true }, ?_, rfl, rfl, rfl, rfl, rfl⟩
    have hpattern : body ++ importance false = pattern := append_nil _
    rw [hpattern] at hname hchar ⊢
    have hstart : ¬ (pattern = [] ∨ ['!'].isPrefixOf pattern ∨ ['#'].isPrefixOf pattern) := by
      rintro (hnil | hpre | hpre)
      · exact marked_ne h isSuffix hasStart hasEnd hnil
      · exact absurd (hchar '!' ((List.isPrefixOf_iff_prefix.1 hpre).subset mem_cons_self)) (by decide)
      · exact absurd (hchar '#' ((List.isPrefixOf_iff_prefix.1 hpre).subset mem_cons_self)) (by decide)
    rw [parseLine, if_neg hstart, hname, if_pos rfl]
  | false =>
    have hspace : ' ' ∉ body ++ importance isImportant := by
      intro hmem
      rcases mem_append.1 hmem with hmem | hmem
      · exact hno ' ' (by decide) hmem
      · exact notMem_importance (by decide) isImportant hmem
    have hhost : parseAdGuardHostLine lib (body ++ importance isImportant) = none := by
      rw [parseAdGuardHostLine, contains_eq_false mem_cons_self hspace, if_neg Bool.false_ne_true]
    have hslash : ['/'].isPrefixOf body = false := by
      rw [Bool.eq_false_iff]
      intro hpre
      exact hno '/' (by decide) ((List.isPrefixOf_iff_prefix.1 hpre).subset mem_cons_self)
    have hlast : body.getLast? ≠ some '|' := by
      rw [List.getLast?_append_of_ne_nil _ (marked_ne h isSuffix hasStart hasEnd)]
      intro hlast
      rcases marked_last h isSuffix hasStart hasEnd _ hlast with hhat | hmem
      · cases hhat
      · exact h.notMem (by decide) hmem
    have hhead : (body ++ importance isImportant).head? = some c := by
      rw [List.head?_append_of_ne_nil body hne, hrest]
      rfl
    have hparse := parseLine_eq hhead (fun heq => hno '!' (by decide) (heq ▸ hmem))
      (fun heq => hno '#' (by decide) (heq ▸ hmem)) hname hhost (getLast?_written body hlast)
      (cutModifiers_written hslash (hno '$' (by decide)) hne)
    rw [hparse, lineFlags_marked h, parsePattern_name h]
    refine ⟨_, rfl, ?_, rfl, rfl, rfl, rfl⟩
    cases isSuffix <;> rfl

section

variable {regex : Text}

theorem hostLine_of_mark (hlib : lib.Lawful) (hhead : line.head? = some c)
    (hc : c = '/' ∨ c = '@') : parseAdGuardHostLine lib line = none := by
  unfold parseAdGuardHostLine
  split_ifs
  · cases line with
    | nil => cases hhead
    | cons d line =>
      obtain rfl : d = c := Option.some.inj hhead
      have hbefore : before [' '] (d :: line) = d :: before [' '] line := by
        rw [before, if_neg]
        rcases hc with rfl | rfl
        · simp [List.isPrefixOf]
        · simp [List.isPrefixOf]
      rw [hbefore]
      rcases hc with rfl | rfl
      · rw [hlib.slash]
      · rw [hlib.at_]
  · rfl

theorem lineFlags_plain {body : Text} {isExclude : Bool} (isImportant : Bool)
    (hat : cutPrefix ['@', '@'] body = (line, isExclude)) (hhead : line.head? ≠ some '|')
    (hlast : ∀ c, c = '|' ∨ c = '^' → line.getLast? ≠ some c) :
    lineFlags isImportant body = { ruleLine := line, isExclude, isImportant } := by
  unfold lineFlags
  rw [hat]
  dsimp only
  rw [trimSuffix_eq_self (hlast '|' (.inl rfl)), cutPrefix_eq_self hhead]
  dsimp only
  rw [if_neg Bool.false_ne_true, cutPrefix_eq_self hhead, cutSuffix_eq_self (hlast '^' (.inr rfl))]

theorem parseLine_regex (hlib : lib.Lawful) (hregex : ignoreIPCIDRRegexp regex = false) (isImportant isExclude : Bool)
    (hkind : isExclude ∨ isImportant = false) (hdollar : isExclude → '$' ∉ regex) :
    parseLine lib (writeLine isImportant true isExclude regex) =
      .accepted { ruleLine := regex, isExclude, isImportant, isRegexp := true } := by
  let body := (if isExclude then ['@', '@'] else []) ++ ('/' :: regex ++ ['/'])
  have hline : writeLine isImportant true isExclude regex = body ++ importance isImportant := rfl
  have hslash : '/' ∈ body ++ importance isImportant := by simp [body]
  have hname := isDomainName_eq_false hslash (by decide)
  have hlast : body.getLast? ≠ some '|' := by simp [body, ← append_assoc]
  have hcut : cutModifiers lib (body ++ importance isImportant) = some (body, isImportant) := by
    cases hexclude : isExclude with
    | true =>
      refine cutModifiers_written ?_ ?_ ?_
      · simp [body, hexclude, List.isPrefixOf]
      · simpa [body, hexclude] using hdollar hexclude
      · simp [body]
    | false =>
      obtain rfl : isImportant = false := hkind.resolve_left (by simp [hexclude])
      change cutModifiers lib (body ++ []) = _
      rw [append_nil, cutModifiers, if_neg]
      rintro ⟨hstart, -⟩
      simp [body, hexclude, List.isPrefixOf] at hstart
  have hflags : lineFlags isImportant body = { ruleLine := '/' :: regex ++ ['/'], isExclude, isImportant } := by
    have hat : cutPrefix ['@', '@'] body = ('/' :: regex ++ ['/'], isExclude) := by
      cases hexclude : isExclude with
      | true =>
        simp only [body, hexclude, if_true]
        exact cutPrefix_append
      | false =>
        simp only [body, hexclude]
        exact cutPrefix_eq_self (by simp)
    refine lineFlags_plain isImportant hat (by simp) ?_
    rintro c hc
    rw [List.getLast?_append_of_ne_nil _ (cons_ne_nil _ _)]
    rintro ⟨⟩
    revert hc
    decide
  rw [hline]
  obtain ⟨c, hhead, hc⟩ : ∃ c, (body ++ importance isImportant).head? = some c ∧ (c = '/' ∨ c = '@') := by
    cases isExclude <;> simp [body]
  rw [parseLine_eq hhead (by rcases hc with rfl | rfl <;> decide) (by rcases hc with rfl | rfl <;> decide) hname
    (hostLine_of_mark hlib hhead hc) (getLast?_written body hlast) hcut, hflags, parsePattern_regex rfl hregex]

theorem parseDomain_skipped (hmem : '/' ∈ (cutScheme line).1 ∨ '$' ∈ (cutScheme line).1) :
    parseDomain flags line = .skipped := by
  unfold parseDomain
  dsimp only
  rcases hmem with hslash | hdollar
  · rw [if_pos (any_eq_true.2 ⟨'/', hslash, by decide⟩)]
  · split_ifs with _ hne hcheck
    · rfl
    · rfl
    · exact absurd hdollar (Name.notMem ⟨hne, hcheck⟩ (by decide))
    · rfl

theorem parseLine_importantRegex (hlib : lib.Lawful) (regex : Text) :
    parseLine lib (writeLine true true false regex) = .skipped := by
  let line := '/' :: regex ++ ['/'] ++ importance true
  have hline : writeLine true true false regex = line := rfl
  have hslash : '/' ∈ line := mem_cons_self
  have hhead : line.head? = some '/' := rfl
  have hlast (c : Char) (hc : some 't' ≠ some c) : line.getLast? ≠ some c := by
    have hne : importance true ≠ [] := by decide
    rw [List.getLast?_append_of_ne_nil _ hne]
    exact hc
  have hcut : cutModifiers lib line = some (line, false) := by
    rw [cutModifiers, if_neg]
    rintro ⟨hstart, -⟩
    cases hstart
  have hflags : lineFlags false line = { ruleLine := line } := by
    refine lineFlags_plain false (cutPrefix_eq_self (by rw [hhead]; decide)) (by rw [hhead]; decide) ?_
    rintro c (rfl | rfl)
    · exact hlast '|' (by decide)
    · exact hlast '^' (by decide)
  have hend : ['/'].isSuffixOf line = false := by
    rw [Bool.eq_false_iff]
    intro hsuf
    obtain ⟨text, htext⟩ := isSuffixOf_iff_suffix.1 hsuf
    refine hlast '/' (by decide) ?_
    rw [← htext, List.getLast?_append_of_ne_nil _ (cons_ne_nil _ _)]
    rfl
  rw [hline, parseLine_eq hhead (by decide) (by decide) (isDomainName_eq_false hslash (by decide))
    (hostLine_of_mark hlib hhead (.inl rfl)) (hlast '|' (by decide)) hcut, hflags]
  unfold parsePattern
  dsimp only
  rw [hend, Bool.and_false, if_neg Bool.false_ne_true]
  cases hscheme : contains "://".toList line with
  | false =>
    refine parseDomain_skipped (.inl ?_)
    rw [cutScheme, hscheme]
    exact hslash
  | true =>
    refine parseDomain_skipped ?_
    rw [cutScheme, hscheme, if_pos rfl]
    have hsplit := before_append_after hscheme
    -- either the last slash comes later, or the modifier is what is left
    rcases append_eq_append_iff.1 hsplit with ⟨part, -, hafter⟩ | ⟨part, hbefore, hafter⟩
    · refine .inr ?_
      rw [hafter]
      exact mem_append_right _ (by decide)
    · rcases eq_nil_or_concat part with rfl | ⟨front, c, rfl⟩
      · refine .inr ?_
        rw [nil_append] at hafter
        rw [← hafter]
        decide
      · have hc : (before "://".toList line ++ "://".toList).getLast? = some c := by
          rw [hbefore, concat_eq_append, ← append_assoc, List.getLast?_append_of_ne_nil _ (cons_ne_nil _ _)]
          rfl
        have hne : "://".toList ≠ [] := by decide
        rw [List.getLast?_append_of_ne_nil _ hne] at hc
        obtain rfl : '/' = c := Option.some.inj hc
        have hmem : '/' ∈ importance true := by
          rw [hafter, concat_eq_append]
          simp
        exact absurd hmem (by decide)

end

/-! ## What accepted lines are like -/

theorem parsesUint8_eq_false {text : Text} (hmem : c ∈ text) (hc : c.isDigit = false) : parsesUint8 text = false := by
  have hall : text.all Char.isDigit = false := by
    rw [all_eq_false]
    exact ⟨c, hmem, by simp [hc]⟩
  simp [parsesUint8, hall]

theorem ignoreIPCIDRRegexp_marked {regex : Text} (h : ignoreIPCIDRRegexp regex = false) (isSuffix hasStart hasEnd : Bool) :
    ignoreIPCIDRRegexp (marked isSuffix hasStart hasEnd regex) = false := by
  have hbar : ∀ text, ignoreIPCIDRRegexp ('|' :: text) = false := by
    intro text
    have hbefore (sub : Text) (hsub : sub.isPrefixOf ('|' :: text) = false) : '|' ∈ before sub ('|' :: text) := by
      rw [before, hsub, if_neg Bool.false_ne_true]
      exact mem_cons_self
    have hbackslash : '|' ∈ before ['\\', '.'] ('|' :: text) := hbefore _ (by simp [List.isPrefixOf])
    have hdot : '|' ∈ before ['.'] ('|' :: text) := hbefore _ (by simp [List.isPrefixOf])
    unfold ignoreIPCIDRRegexp
    simp [List.isPrefixOf, parsesUint8_eq_false hbackslash, parsesUint8_eq_false hdot]
  have hbefore (sub text : Text) (hsub : '^' ∉ sub) (hne : sub ≠ []) (htext : parsesUint8 (before sub text) = false) :
      parsesUint8 (before sub (text ++ ['^'])) = false := by
    rw [before_concat hsub hne]
    split_ifs
    · exact htext
    · exact parsesUint8_eq_false (mem_append_right text mem_cons_self) (by decide)
  have htests (text : Text) (htext : (parsesUint8 (before ['\\', '.'] text) || parsesUint8 (before ['.'] text)) = false) :
      (parsesUint8 (before ['\\', '.'] (text ++ ['^'])) || parsesUint8 (before ['.'] (text ++ ['^']))) = false := by
    rw [Bool.or_eq_false_iff] at htext ⊢
    exact ⟨hbefore _ text (by decide) (by decide) htext.1, hbefore _ text (by decide) (by decide) htext.2⟩
  have hdrop (sub : Text) (hsub : sub.isPrefixOf regex) :
      (regex ++ ['^']).drop sub.length = regex.drop sub.length ++ ['^'] :=
    drop_append_of_le_length (List.isPrefixOf_iff_prefix.1 hsub).length_le
  have hhat : ignoreIPCIDRRegexp (regex ++ ['^']) = false := by
    cases hregex : regex with
    | nil => decide
    | cons c rest =>
      have hfirst : ['^'].isPrefixOf (regex ++ ['^']) = ['^'].isPrefixOf regex := by
        rw [hregex]
        simp [List.isPrefixOf]
      rw [← hregex]
      unfold ignoreIPCIDRRegexp at h ⊢
      rw [isPrefixOf_concat (by decide), isPrefixOf_concat (by decide), hfirst]
      split_ifs at h ⊢ with hhttp hhttps hcaret
      · exact hdrop _ hhttp ▸ htests _ h
      · exact hdrop _ hhttps ▸ htests _ h
      · exact hdrop _ hcaret ▸ htests _ h
      · exact htests _ h
  rw [marked_eq]
  cases isSuffix <;> cases hasStart <;> cases hasEnd
  · simpa using h
  · simpa using hhat
  all_goals exact hbar _

theorem lineFlags_spec (isImportant : Bool) (body : Text) :
    ∃ tail, body = (if (lineFlags isImportant body).isExclude then ['@', '@'] else []) ++
      (mapDomain (lineFlags isImportant body) ++ tail) := by
  have hat := cutPrefix_spec ['@', '@'] body
  obtain ⟨tail, htail⟩ := trimSuffix_spec ['|'] (cutPrefix ['@', '@'] body).1
  have hbars := cutPrefix_spec ['|', '|'] (trimSuffix ['|'] (cutPrefix ['@', '@'] body).1)
  refine ⟨tail, ?_⟩
  unfold lineFlags
  dsimp only
  generalize cutPrefix ['@', '@'] body = exclude at hat htail hbars ⊢
  generalize trimSuffix ['|'] exclude.1 = trimmed at htail hbars ⊢
  generalize cutPrefix ['|', '|'] trimmed = bars at hbars ⊢
  rw [mapDomain_eq_marked, marked_eq]
  rw [hat]
  congr 1
  rw [htail]
  congr 1
  rw [hbars]
  cases bars.2 with
  | true =>
    simp only [if_true, append_assoc]
    congr 1
    exact cutSuffix_spec ['^'] bars.1
  | false =>
    have hbar := cutPrefix_spec ['|'] bars.1
    simp only [if_neg Bool.false_ne_true, nil_append, append_assoc]
    generalize cutPrefix ['|'] bars.1 = bar at hbar ⊢
    rw [hbar]
    congr 1
    exact cutSuffix_spec ['^'] bar.1

theorem modifiers_length {params : List Text} (h : modifiers lib params = some true) : ∃ param ∈ params, 9 ≤ param.length := by
  induction params with
  | nil => cases h
  | cons param params ih =>
    rw [modifiers] at h
    cases hmodifier : modifier lib param with
    | none =>
      rw [hmodifier] at h
      cases h
    | some important =>
      cases hrest : modifiers lib params with
      | none =>
        rw [hmodifier, hrest] at h
        cases h
      | some important' =>
        rw [hmodifier, hrest] at h
        cases important' with
        | true =>
          obtain ⟨param', hmem, hlength⟩ := ih hrest
          exact ⟨param', mem_cons_of_mem _ hmem, hlength⟩
        | false =>
          obtain rfl : important = true := by simpa using h
          refine ⟨param, mem_cons_self, ?_⟩
          have hname : ∃ name ∈ param.splitOn '=', name = "important".toList := by
            unfold modifier at hmodifier
            split at hmodifier
            · rename_i name hsplit
              split_ifs at hmodifier with himportant
              exact ⟨name, hsplit ▸ mem_cons_self, himportant⟩
            · rename_i name value hsplit
              split_ifs at hmodifier with himportant
              · exact ⟨name, hsplit ▸ mem_cons_self, himportant⟩
              · cases hmodifier
            · cases hmodifier
          obtain ⟨name, hmem, rfl⟩ := hname
          exact length_le_of_mem_splitOn hmem

theorem cutModifiers_spec {line body : Text} (h : cutModifiers lib line = some (body, isImportant)) :
    body.length + (importance isImportant).length ≤ line.length ∧ body ⊆ line ∧
      ('$' ∉ body ∨ (['/'].isPrefixOf body ∧ isImportant = false)) := by
  unfold cutModifiers at h
  split_ifs at h with hcut
  · cases hmodifiers : modifiers lib ((after ['$'] line).splitOn ',') with
    | none =>
      rw [hmodifiers] at h
      cases h
    | some important =>
      rw [hmodifiers] at h
      obtain ⟨rfl, rfl⟩ : before ['$'] line = body ∧ important = isImportant := by simpa using h
      refine ⟨?_, before_subset, .inl notMem_before⟩
      have hsplit := congrArg List.length (before_append_after hcut.2)
      simp only [length_append, length_singleton] at hsplit
      cases important with
      | false =>
        change _ + 0 ≤ _
        omega
      | true =>
        obtain ⟨param, hmem, hlength⟩ := modifiers_length hmodifiers
        have hle := length_le_of_mem_splitOn hmem
        have hten : (importance true).length = 10 := by decide
        omega
  · obtain ⟨rfl, rfl⟩ : line = body ∧ false = isImportant := by simpa using h
    refine ⟨le_refl _, List.Subset.refl _, ?_⟩
    cases hslash : ['/'].isPrefixOf line with
    | true => exact .inr ⟨rfl, rfl⟩
    | false =>
      refine .inl fun hmem => hcut ⟨hslash, ?_⟩
      obtain ⟨front, back, rfl⟩ := append_of_mem hmem
      have hself := contains_append ['$'] front back
      rwa [append_assoc] at hself

theorem cutScheme_spec (line : Text) :
    (cutScheme line).1 ⊆ line ∧ (cutScheme line).1.length + (if (cutScheme line).2 then 3 else 0) ≤ line.length := by
  unfold cutScheme
  cases hscheme : contains "://".toList line with
  | false => exact ⟨List.Subset.refl _, le_refl _⟩
  | true =>
    have hsplit := before_append_after hscheme
    have hlength := congrArg List.length hsplit
    have hthree : "://".toList.length = 3 := by decide
    simp only [length_append, hthree] at hlength
    refine ⟨fun c hc => ?_, ?_⟩
    · rw [← hsplit]
      exact mem_append_right _ hc
    · change _ + 3 ≤ _
      rw [if_pos rfl]
      dsimp only
      omega

theorem parsePattern_spec {flags it : RuleLine} (h : parsePattern flags = .accepted it) (hflags : flags.isRegexp = false) :
    it.isExclude = flags.isExclude ∧ it.isImportant = flags.isImportant ∧ it.ruleLine ⊆ flags.ruleLine ∧
    (it.isRegexp = false → Name it.ruleLine) ∧ (it.isRegexp → ignoreIPCIDRRegexp (mapDomain it) = false) ∧
    (mapDomain it).length + (if it.isRegexp then 2 else 0) ≤ (mapDomain flags).length := by
  unfold parsePattern at h
  dsimp only at h
  split_ifs at h with hslash hshort hignore
  · obtain rfl := (Outcome.accepted.inj h).symm
    refine ⟨rfl, rfl, ?_, nofun, fun _ => ignoreIPCIDRRegexp_marked (by simpa using hignore) _ _ _, ?_⟩
    · exact fun c hc => mem_of_mem_drop (mem_of_mem_take hc)
    · rw [mapDomain_eq_marked, mapDomain_eq_marked, marked_eq, marked_eq]
      simp only [length_append, length_take, length_drop, if_true]
      omega
  · obtain ⟨hsubset, hlength⟩ := cutScheme_spec flags.ruleLine
    unfold parseDomain at h
    dsimp only at h
    split_ifs at h with hplain hne hcheck
    obtain rfl := (Outcome.accepted.inj h).symm
    refine ⟨rfl, rfl, hsubset, fun _ => ⟨hne, hcheck⟩, ?_, ?_⟩
    · intro hregex
      rw [hflags] at hregex
      cases hregex
    · rw [mapDomain_eq_marked, mapDomain_eq_marked, marked_eq, marked_eq]
      simp only [hflags, length_append, if_neg Bool.false_ne_true]
      cases hscheme : (cutScheme flags.ruleLine).2 with
      | false =>
        rw [hscheme] at hlength
        simp only [Bool.or_false, if_neg Bool.false_ne_true] at hlength ⊢
        omega
      | true =>
        rw [hscheme] at hlength
        simp only [if_true, Bool.or_true, length_cons, length_nil] at hlength ⊢
        omega

structure Written (it : RuleLine) : Prop where
  name : it.isRegexp = false → Name it.ruleLine
  regex : it.isRegexp = true → ignoreIPCIDRRegexp (mapDomain it) = false
  dollar : it.isExclude = true ∨ it.isImportant = true → '$' ∉ mapDomain it
  newline : '\n' ∉ mapDomain it
  fits : (writeLine it.isImportant it.isRegexp it.isExclude (mapDomain it)).length ≤ maxLine

theorem length_writeLine (isImportant isRegexp isExclude : Bool) (pattern : Text) :
    (writeLine isImportant isRegexp isExclude pattern).length =
      (if isExclude then 2 else 0) + (pattern.length + if isRegexp then 2 else 0) + (importance isImportant).length := by
  unfold writeLine
  cases isExclude <;> cases isRegexp <;> simp <;> omega

theorem notMem_mapDomain {it : RuleLine} (hline : c ∉ it.ruleLine) (hbar : c ≠ '|') (hhat : c ≠ '^') :
    c ∉ mapDomain it := by
  intro hmem
  rcases mem_marked hmem with hmem | heq | heq
  · exact hline hmem
  · exact hbar heq
  · exact hhat heq

theorem hostLine_spec (hlib : lib.Lawful) {line domain : Text} (h : parseAdGuardHostLine lib line = some domain) (hne : domain ≠ []) :
    isDomainName domain ∧ domain.length + 2 ≤ line.length := by
  unfold parseAdGuardHostLine at h
  split_ifs at h with hspace
  have hsplit := congrArg List.length (before_append_after hspace)
  simp only [length_append, length_singleton] at hsplit
  cases hbefore : before [' '] line with
  | nil =>
    rw [hbefore, hlib.nil] at h
    cases h
  | cons c before =>
    rw [hbefore, length_cons] at hsplit
    split at h
    · cases h
    · exact absurd (Option.some.inj h).symm hne
    · dsimp only at h
      split_ifs at h with hdomain
      obtain rfl := Option.some.inj h
      exact ⟨hdomain, by omega⟩

theorem pattern_written {line body : Text} {it : RuleLine} (hline : '\n' ∉ line)
    (hlength : line.length ≤ maxLine) (hcut : cutModifiers lib (trimSuffix ['|'] line) = some (body, isImportant))
    (h : parsePattern (lineFlags isImportant body) = .accepted it) : Written it := by
  obtain ⟨hcutLength, hcutSubset, hdollar⟩ := cutModifiers_spec hcut
  obtain ⟨bar, hbar⟩ := trimSuffix_spec ['|'] line
  obtain ⟨tail, htail⟩ := lineFlags_spec isImportant body
  obtain ⟨hexclude, himportant, hsubset, hname, hregex, hshort⟩ := parsePattern_spec h rfl
  have hflags : (lineFlags isImportant body).ruleLine ⊆ body := by
    intro c hc
    rw [htail]
    refine mem_append_right _ (mem_append_left _ ?_)
    rw [mapDomain_eq_marked, marked_eq]
    exact mem_append_left _ (mem_append_right _ hc)
  have hbody : body ⊆ line := by
    intro c hc
    rw [hbar]
    exact mem_append_left _ (hcutSubset hc)
  refine ⟨hname, hregex, fun hkind => ?_, ?_, ?_⟩
  · refine notMem_mapDomain (fun hmem => ?_) (by decide) (by decide)
    rcases hdollar with hdollar | ⟨hslash, hplain⟩
    · exact hdollar (hflags (hsubset hmem))
    · rw [hexclude, himportant] at hkind
      rcases hkind with hat | himp
      · rw [hat, if_pos rfl] at htail
        rw [htail] at hslash
        cases hslash
      · rw [show (lineFlags isImportant body).isImportant = isImportant from rfl, hplain] at himp
        cases himp
  · exact notMem_mapDomain (fun hmem => hline (hbody (hflags (hsubset hmem)))) (by decide) (by decide)
  · have htailLength := congrArg List.length htail
    have hbarLength := congrArg List.length hbar
    have hat : (if (lineFlags isImportant body).isExclude then ['@', '@'] else []).length =
        if (lineFlags isImportant body).isExclude then 2 else 0 := by
      split_ifs <;> rfl
    simp only [length_append] at htailLength hbarLength
    rw [hat] at htailLength
    rw [length_writeLine, hexclude, himportant]
    change _ + (importance isImportant).length ≤ maxLine
    omega

theorem accepted_written (hlib : lib.Lawful) {it : RuleLine} (h : parseLine lib line = .accepted it)
    (hline : '\n' ∉ line) (hlength : line.length ≤ maxLine) : Written it := by
  unfold parseLine at h
  split at h
  · cases h
  split at h
  · rename_i hdomain
    obtain rfl := (Outcome.accepted.inj h).symm
    refine ⟨fun _ => name_of_isDomainName hdomain, nofun, nofun, hline, ?_⟩
    rw [length_writeLine]
    change 0 + (line.length + 0) + 0 ≤ maxLine
    omega
  split at h
  · cases h
  · rename_i domain hne hhost
    obtain rfl := (Outcome.accepted.inj h).symm
    obtain ⟨hdomain, hshort⟩ := hostLine_spec hlib hhost hne
    have hname := name_of_isDomainName hdomain
    refine ⟨fun _ => hname, nofun, nofun, ?_, ?_⟩
    · exact notMem_mapDomain (hname.notMem (by decide)) (by decide) (by decide)
    · rw [length_writeLine, mapDomain_eq_marked, marked_eq]
      simp only [length_append, length_singleton, if_true, if_neg Bool.false_ne_true]
      change 0 + (1 + domain.length + 1 + 0) + 0 ≤ maxLine
      omega
  · split at h
    · cases h
    · rename_i hcut
      exact pattern_written hline hlength hcut h

end EtonifyCore.AdGuard
