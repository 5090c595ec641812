/-
AdGuard filters: `common/convertor/adguard/convertor.go`, and what `route/rule/rule_headless.go` and `option/rule_set.go` make
of the rules it returns.

A text is a list of bytes, each written as a character. `bufio.Scanner` stops at a line that does not fit its buffer. A line
is skipped, is accepted, or makes the code panic (a single `/`). Logging is left out, and `parseADGuardIPCIDRLine` with it.

A slice that was never set (`none`) is not a slice without elements: `reflect.DeepEqual` in `IsValid` tells them apart.

Third-party code (`Library`): parsing of addresses, `strings.ToLower`, regular expressions, and the matcher of AdGuard
patterns. A matcher of several patterns matches when one of them does; the matcher of domains compares whole names.
-/
import EtonifyCore.Core.Text
import EtonifyCore.Rule.Semantics

namespace EtonifyCore.AdGuard

open Core RuleMatch

abbrev Text := List Char

structure Library where
  /-- `netip.ParseAddr`: none if it is not an address; whether it is the unspecified one -/
  parseAddr : Text → Option Bool
  isUnspecified : Text → Bool
  toLower : Text → Text
  /-- `regexp.Compile`, and `MatchString` of the result -/
  compile : Text → Option (Text → Bool)
  adGuard : Text → Text → Bool

/-! ## Lines -/

/-- `agdguardRuleLine` -/
structure RuleLine where
  ruleLine : Text
  isRawDomain : Bool := false
  isExclude : Bool := false
  isSuffix : Bool := false
  hasStart : Bool := false
  hasEnd : Bool := false
  isRegexp : Bool := false
  isImportant : Bool := false
deriving DecidableEq, Repr

inductive Outcome where
  | skipped
  | accepted (line : RuleLine)
  /-- slice bounds out of range -/
  | panics
deriving DecidableEq, Repr

/-- the loop of `M.IsDomainName`: the last byte, the length of the label, and whether it is not a number so far -/
def isDomainNameFrom (last : Char) (partlen : ℕ) (nonNumeric : Bool) : Text → Bool
  | [] => last ≠ '-' && partlen ≤ 63 && nonNumeric
  | c :: text =>
    if c.isAlpha ∨ c = '_' then isDomainNameFrom c (partlen + 1) true text
    else if c.isDigit then isDomainNameFrom c (partlen + 1) nonNumeric text
    else if c = '-' then last ≠ '.' && isDomainNameFrom c (partlen + 1) true text
    else if c = '.' then
      last ≠ '.' && last ≠ '-' && partlen ≤ 63 && partlen ≠ 0 && isDomainNameFrom c 0 nonNumeric text
    else false

def isDomainName (text : Text) : Bool :=
  text = ['.'] ||
    (text ≠ [] && text.length ≤ 254 && (text.length ≠ 254 || text.getLast? = some '.') && isDomainNameFrom '.' 0 false text)

def parsesUint8 (text : Text) : Bool :=
  text ≠ [] && text.all Char.isDigit && text.foldl (fun n c => 10 * n + (c.toNat - '0'.toNat)) 0 ≤ 255

variable (lib : Library)

/-- `parseAdGuardHostLine`: none is an error, and the empty domain is that of a host line for another address -/
def parseAdGuardHostLine (line : Text) : Option Text :=
  if Text.contains [' '] line then
    match lib.parseAddr (Text.before [' '] line) with
    | none => none
    | some false => some []
    | some true =>
      let domain := Text.after [' '] line
      if isDomainName domain then some domain else none
  else none

def ignoreIPCIDRRegexp (line : Text) : Bool :=
  let line :=
    if "(http?:\\/\\/)".toList.isPrefixOf line then line.drop 12
    else if "(https?:\\/\\/)".toList.isPrefixOf line then line.drop 13
    else if ['^'].isPrefixOf line then line.drop 1
    else line
  parsesUint8 (Text.before ['\\', '.'] line) || parsesUint8 (Text.before ['.'] line)

def modifier (param : Text) : Option Bool :=
  match param.splitOn '=' with
  | [name] => if name = "important".toList then some true else none
  | [name, value] =>
    if name = "important".toList then some true
    else if name = "dnsrewrite".toList ∧ lib.isUnspecified value then some false
    else none
  | _ => none

def modifiers : List Text → Option Bool
  | [] => some false
  | param :: params =>
    match modifier lib param, modifiers params with
    | some important, some important' => some (important || important')
    | _, _ => none

def cutModifiers (line : Text) : Option (Text × Bool) :=
  if ['/'].isPrefixOf line = false ∧ Text.contains ['$'] line then
    (modifiers lib ((Text.after ['$'] line).splitOn ',')).map fun important => (Text.before ['$'] line, important)
  else some (line, false)

/-- the bytes of paths, queries, cosmetic filters and modifiers that are not supported -/
def unsupported : List Char := ['/', '?', '&', '[', ']', '(', ')', '!', '#', '~']

/-- the line without what is before `://`, and whether that was there -/
def cutScheme (line : Text) : Text × Bool :=
  if Text.contains "://".toList line then (Text.after "://".toList line, true) else (line, false)

def checkDomain (line : Text) : Bool :=
  let domainCheck := if ['.'].isPrefixOf line || ['-'].isPrefixOf line then 'r' :: line else line
  isDomainName (domainCheck.map fun c => if c = '*' then 'x' else c)

def parseDomain (flags : RuleLine) (line : Text) : Outcome :=
  let (line, hasScheme) := cutScheme line
  if line.any (· ∈ unsupported) then .skipped
  else if line = [] then .skipped
  else if checkDomain line then .accepted { flags with ruleLine := line, isSuffix := flags.isSuffix || hasScheme }
  else .skipped

def lineFlags (isImportant : Bool) (line : Text) : RuleLine :=
  let (line, isExclude) := Text.cutPrefix ['@', '@'] line
  let line := Text.trimSuffix ['|'] line
  let (line, isSuffix) := Text.cutPrefix ['|', '|'] line
  let (line, hasStart) := if isSuffix then (line, false) else Text.cutPrefix ['|'] line
  let (line, hasEnd) := Text.cutSuffix ['^'] line
  { ruleLine := line, isExclude, isSuffix, hasStart, hasEnd, isImportant }

def parsePattern (flags : RuleLine) : Outcome :=
  let line := flags.ruleLine
  if ['/'].isPrefixOf line && ['/'].isSuffixOf line then
    if line.length < 2 then .panics
    else
      let line := (line.drop 1).take (line.length - 2)
      if ignoreIPCIDRRegexp line then .skipped else .accepted { flags with ruleLine := line, isRegexp := true }
  else parseDomain flags line

def parseLine (line : Text) : Outcome :=
  if line = [] ∨ ['!'].isPrefixOf line ∨ ['#'].isPrefixOf line then .skipped
  else if isDomainName line then .accepted { ruleLine := line, isRawDomain := true }
  else
    match parseAdGuardHostLine lib line with
    | some [] => .skipped
    | some domain => .accepted { ruleLine := domain, isRawDomain := true, hasStart := true, hasEnd := true }
    | none =>
      match cutModifiers lib (Text.trimSuffix ['|'] line) with
      | none => .skipped
      | some (line, isImportant) => parsePattern (lineFlags isImportant line)

/-- `bufio.Scanner`: a line and its end fit in 65536 bytes -/
def maxLine : ℕ := 65535

def splitLines (text : Text) : List Text :=
  let lines := text.splitOn '\n'
  if lines.getLast? = some [] then lines.dropLast else lines

def scanLines (text : Text) : List Text :=
  ((splitLines text).takeWhile fun line => line.length ≤ maxLine).map (Text.trimSuffix ['\r'])

/-! ## Rules -/

structure DefaultOptions where
  domain : Option (List Text) := none
  domainRegex : Option (List Text) := none
  adGuardDomain : Option (List Text) := none
  invert : Bool := false
deriving DecidableEq, Repr

abbrev Options := Rule DefaultOptions

def mapDomain (it : RuleLine) : Text :=
  let line := if it.isSuffix then ['|', '|'] ++ it.ruleLine else if it.hasStart then '|' :: it.ruleLine else it.ruleLine
  if it.hasEnd then line ++ ['^'] else line

section

variable (lines : List RuleLine)

def patterns (isImportant isRegexp isExclude : Bool) : List Text :=
  (lines.filter fun it => it.isImportant = isImportant ∧ it.isRegexp = isRegexp ∧ it.isExclude = isExclude).map mapDomain

def patternRule (isImportant isExclude : Bool) : DefaultOptions where
  adGuardDomain := some (patterns lines isImportant false isExclude)
  domainRegex := some (patterns lines isImportant true isExclude)
  invert := isExclude

def layer (isImportant isExclude : Bool) (mode : LogicalMode) (currentRule : Options) : Options :=
  if patterns lines isImportant false isExclude = [] ∧ patterns lines isImportant true isExclude = [] then currentRule
  else .logical mode false [.default (patternRule lines isImportant isExclude), currentRule]

/-- the rule that `ToOptions` builds from lines that are not all raw domains -/
def patternRules : Options :=
  let currentRule := .default (patternRule lines false false)
  let currentRule := layer lines false true .and currentRule
  let currentRule := layer lines true false .or currentRule
  layer lines true true .and currentRule

end

inductive Err where
  /-- `AdGuard rule-set is empty or all rules are unsupported` -/
  | empty
  /-- slice bounds out of range -/
  | panic
  /-- `ErrInvalid` -/
  | invalid
  /-- `missing conditions` -/
  | missingConditions
  | emptyDomain
  | domainRegex
deriving DecidableEq, Repr

def acceptedLines : List Text → Except Err (List RuleLine)
  | [] => .ok []
  | line :: lines =>
    match parseLine lib line with
    | .panics => .error .panic
    | .skipped => acceptedLines lines
    | .accepted it => (acceptedLines lines).map (it :: ·)

def lineRules (lines : List RuleLine) : Except Err (List Options) :=
  if lines = [] then .error .empty
  else if lines.all (·.isRawDomain) then .ok [.default { domain := some (lines.map (·.ruleLine)) }]
  else .ok [patternRules lines]

def toOptions (text : Text) : Except Err (List Options) := acceptedLines lib (scanLines text) >>= lineRules

/-! ## Back to a text -/

structure Lists where
  importantDomain : List Text := []
  importantDomainRegex : List Text := []
  importantExcludeDomain : List Text := []
  importantExcludeDomainRegex : List Text := []
  domain : List Text := []
  domainRegex : List Text := []
  excludeDomain : List Text := []
  excludeDomainRegex : List Text := []
deriving DecidableEq, Repr

def collect (lists : Lists) : Options → Except Err Lists
  | .default options =>
    let domain := options.adGuardDomain.getD []
    let domainRegex := options.domainRegex.getD []
    if domain = [] ∧ domainRegex = [] then .error .invalid else .ok { lists with domain, domainRegex }
  | .logical mode _ [.default first, rest] =>
    let domain := first.adGuardDomain.getD []
    let domainRegex := first.domainRegex.getD []
    if mode = .and ∧ first.invert = true then
      if domain = [] ∧ domainRegex = [] then .error .invalid
      else if lists.importantExcludeDomain = [] ∧ lists.importantExcludeDomainRegex = [] then
        collect { lists with importantExcludeDomain := domain, importantExcludeDomainRegex := domainRegex } rest
      else collect { lists with excludeDomain := domain, excludeDomainRegex := domainRegex } rest
    else if mode = .or ∧ first.invert = false then
      if domain = [] ∧ domainRegex = [] then .error .invalid
      else collect { lists with importantDomain := domain, importantDomainRegex := domainRegex } rest
    else .error .invalid
  | .logical _ _ _ => .error .invalid

def Lists.lines (lists : Lists) : List Text :=
  lists.importantDomain.map (· ++ "$important".toList) ++
  lists.importantDomainRegex.map (fun line => '/' :: line ++ "/$important".toList) ++
  lists.importantExcludeDomain.map (fun line => '@' :: '@' :: line ++ "$important".toList) ++
  lists.importantExcludeDomainRegex.map (fun line => '@' :: '@' :: '/' :: line ++ "/$important".toList) ++
  lists.domain ++
  lists.domainRegex.map (fun line => '/' :: line ++ ['/']) ++
  lists.excludeDomain.map (fun line => '@' :: '@' :: line) ++
  lists.excludeDomainRegex.map (fun line => '@' :: '@' :: '/' :: line ++ ['/'])

def fromOptions : List Options → Except Err Text
  | [rule] => (collect {} rule).map fun lists => lists.lines.flatMap (· ++ ['\n'])
  | _ => .error .invalid

/-! ## Headless rules -/

/-- the domain of a connection: the sniffed one, or that of its destination -/
def host (query : Query Text) : Text := if query.rest ≠ [] then query.rest else query.destination.fqdn.toList

def domainItem (test : Text → Bool) : RuleItem Text :=
  .other fun query => if host query = [] then false else test (lib.toLower (host query))

def DefaultOptions.isValid (options : DefaultOptions) : Bool :=
  options.domain ≠ none || options.domainRegex ≠ none || options.adGuardDomain ≠ none

mutual

def isValid : Options → Bool
  | .default options => options.isValid
  | .logical _ _ rules => !rules.isEmpty && allValid rules

def allValid : List Options → Bool
  | [] => true
  | rule :: rules => isValid rule && allValid rules

end

def domainTests (options : DefaultOptions) : Except Err (List (Text → Bool)) :=
  let domain := options.domain.getD []
  let domainRegex := options.domainRegex.getD []
  let adGuardDomain := options.adGuardDomain.getD []
  if domain.contains [] then .error .emptyDomain
  else
    match domainRegex.mapM lib.compile with
    | none => .error .domainRegex
    | some matchers => .ok
      ((if domain = [] then [] else [fun name => domain.contains name]) ++
        (if domainRegex = [] then [] else [fun name => matchers.any fun matcher => matcher name]) ++
        (if adGuardDomain = [] then [] else [fun name => adGuardDomain.any fun pattern => lib.adGuard pattern name]))

def domainRule (tests : List (Text → Bool)) (invert : Bool) : DefaultHeadlessRule Text where
  destinationAddressItems := tests.map (domainItem lib)
  invert := invert
  cidrOnly := rfl
  noResponse := by
    have hitems : (tests.map (domainItem lib)).any (·.readsResponse) = false := by
      rw [List.any_map, List.any_eq_false]
      exact fun test _ => Bool.false_ne_true
    simpa [AbstractDefaultRule.readsResponse] using hitems

def newDefaultHeadlessRule (options : DefaultOptions) : Except Err (DefaultHeadlessRule Text) :=
  (domainTests lib options).map fun tests => domainRule lib tests options.invert

mutual

def newHeadlessRule : Options → Except Err (HeadlessRule Text)
  | .default options =>
    if options.isValid then (newDefaultHeadlessRule lib options).map .default else .error .missingConditions
  | .logical mode invert rules =>
    if isValid (.logical mode invert rules) then (newHeadlessRules rules).map (.logical mode invert)
    else .error .missingConditions

def newHeadlessRules : List Options → Except Err (List (HeadlessRule Text))
  | [] => .ok []
  | rule :: rules =>
    match newHeadlessRule rule with
    | .error err => .error err
    | .ok rule => (newHeadlessRules rules).map (rule :: ·)

end

end EtonifyCore.AdGuard
