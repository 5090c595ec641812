/-
The time to live that a response gets, against those of its records.

`applyResponseOptions` takes the smallest one of the records, but zero counts as not known yet, and a response without
answers takes that of its first SOA record. All records then get the same one.
-/
import EtonifyCore.DNSClient.Message

namespace EtonifyCore.DNSClient

open List

def RR.Counted (record : RR) : Prop := record.rrtype ≠ typeOPT

instance (record : RR) : Decidable record.Counted := inferInstanceAs (Decidable (_ ≠ _))

def Msg.records (message : Msg) : List RR := message.answer ++ message.ns ++ message.extra

/-! ## The smallest time to live -/

def keepSmaller (timeToLive : ℕ) (record : RR) : ℕ :=
  if record.rrtype = typeOPT then timeToLive
  else if timeToLive = 0 ∨ 0 < record.ttl ∧ record.ttl < timeToLive then record.ttl
  else timeToLive

variable {timeToLive : ℕ}

theorem keepSmaller_eq_zero {record : RR} :
    keepSmaller timeToLive record = 0 ↔ timeToLive = 0 ∧ (record.Counted → record.ttl = 0) := by
  unfold keepSmaller RR.Counted
  split_ifs with hopt
  · simp [hopt]
  · omega
  · omega

theorem keepSmaller_le (record : RR) (h : timeToLive ≠ 0) :
    keepSmaller timeToLive record ≠ 0 ∧ keepSmaller timeToLive record ≤ timeToLive := by
  unfold keepSmaller
  split_ifs with _ hless <;> omega

theorem keepSmaller_le_ttl (timeToLive : ℕ) {record : RR} (hcounted : record.Counted) (h : record.ttl ≠ 0) :
    keepSmaller timeToLive record ≠ 0 ∧ keepSmaller timeToLive record ≤ record.ttl := by
  unfold keepSmaller
  rw [if_neg hcounted]
  split_ifs <;> omega

variable {records : List RR}

theorem foldl_keepSmaller_le (h : timeToLive ≠ 0) : records.foldl keepSmaller timeToLive ≤ timeToLive := by
  induction records generalizing timeToLive with
  | nil => exact le_rfl
  | cons record records ih =>
    obtain ⟨hne, hle⟩ := keepSmaller_le record h
    calc records.foldl keepSmaller (keepSmaller timeToLive record)
        ≤ keepSmaller timeToLive record := ih hne
      _ ≤ timeToLive := hle

theorem foldl_keepSmaller_eq_zero : records.foldl keepSmaller timeToLive = 0 ↔
    timeToLive = 0 ∧ ∀ record ∈ records, record.Counted → record.ttl = 0 := by
  induction records generalizing timeToLive with
  | nil => simp
  | cons record records ih =>
    rw [foldl_cons, ih, keepSmaller_eq_zero, forall_mem_cons]
    exact and_assoc

theorem foldl_keepSmaller_le_ttl (timeToLive : ℕ) {record : RR} (hmem : record ∈ records)
    (hcounted : record.Counted) (h : record.ttl ≠ 0) : records.foldl keepSmaller timeToLive ≤ record.ttl := by
  induction records generalizing timeToLive with
  | nil => cases hmem
  | cons head records ih =>
    rcases mem_cons.1 hmem with rfl | htail
    · obtain ⟨hne, hle⟩ := keepSmaller_le_ttl timeToLive hcounted h
      calc records.foldl keepSmaller (keepSmaller timeToLive record)
          ≤ keepSmaller timeToLive record := foldl_keepSmaller_le hne
        _ ≤ record.ttl := hle
    · exact ih (keepSmaller timeToLive head) htail

theorem smallest_le_iff (records : List RR) : (∀ record ∈ records, record.Counted → smallestTTL records ≤ record.ttl) ↔
      (∀ record ∈ records, record.Counted → record.ttl ≠ 0) ∨ ∀ record ∈ records, record.Counted → record.ttl = 0 := by
  constructor
  · intro h
    by_contra hmixed
    push Not at hmixed
    obtain ⟨⟨zero, hzero, hcounted, heq⟩, other, hother, hcounted', hne⟩ := hmixed
    have hsmallest := h zero hzero hcounted
    rw [heq, Nat.le_zero] at hsmallest
    exact hne ((foldl_keepSmaller_eq_zero.1 hsmallest).2 other hother hcounted')
  · rintro (hne | hzero) record hmem hcounted
    · exact foldl_keepSmaller_le_ttl 0 hmem hcounted (hne record hmem hcounted)
    · have hsmallest : smallestTTL records = 0 := foldl_keepSmaller_eq_zero.2 ⟨rfl, hzero⟩
      rw [hsmallest]
      exact Nat.zero_le _

/-! ## Responses -/

/-- the time to live and the minimum of the first SOA record, in a response without answers -/
def Msg.negativeSOA (response : Msg) : Option (ℕ × ℕ) :=
  if response.answer = [] then
    response.ns.findSome? fun record =>
      match record.data with
      | .soa minttl => some (record.ttl, minttl)
      | .https _ | .opt _ | .other _ => none
  else none

theorem computeTimeToLive_eq (response : Msg) : computeTimeToLive response = match response.negativeSOA with
    | some (ttl, minttl) => min ttl minttl
    | none => smallestTTL response.records := by
  have hextract : extractNegativeTTL response = (response.ns.findSome? fun record =>
      match record.data with
      | .soa minttl => some (record.ttl, minttl)
      | .https _ | .opt _ | .other _ => none).map fun soa => min soa.1 soa.2 := by
    unfold extractNegativeTTL
    rw [map_findSome?]
    congr 1
    funext record
    rw [Function.comp_apply]
    cases record.data with
    | soa minttl =>
      simp only [Option.map_some, Option.some.injEq]
      split_ifs <;> omega
    | https _ => rfl
    | opt _ => rfl
    | other _ => rfl
  unfold computeTimeToLive Msg.negativeSOA
  split_ifs
  · rw [hextract]
    cases response.ns.findSome? _ <;> rfl
  · rfl

/-- In a response without answers, no record lives shorter than both the time to live and the minimum of the first SOA
record. In others the times to live are all zero, or none of them is. -/
def Msg.Level (response : Msg) : Prop :=
  match response.negativeSOA with
  | some (ttl, minttl) => ∀ record ∈ response.records, record.Counted → ttl ≤ record.ttl ∨ minttl ≤ record.ttl
  | none => (∀ record ∈ response.records, record.Counted → record.ttl ≠ 0) ∨
    ∀ record ∈ response.records, record.Counted → record.ttl = 0

theorem computeTimeToLive_le_iff (response : Msg) :
    (∀ record ∈ response.records, record.Counted → computeTimeToLive response ≤ record.ttl) ↔ response.Level := by
  rw [computeTimeToLive_eq]
  unfold Msg.Level
  cases response.negativeSOA with
  | some soa => simp only [min_le_iff]
  | none => exact smallest_le_iff response.records

/-! ## Options of a query -/

def NotLonger (before after : RR) : Prop := before.Counted → after.ttl ≤ before.ttl

theorem keepSmaller_dropHints (strategy : DomainStrategy) (timeToLive : ℕ) (record : RR) :
    keepSmaller timeToLive (record.dropHints strategy) = keepSmaller timeToLive record := by
  unfold keepSmaller RR.dropHints
  cases record.data <;> rfl

/-- the response without the address hints that the strategy excludes -/
def Msg.dropHints (response : Msg) (strategy : DomainStrategy) : Msg :=
  { response with answer := response.answer.map (.dropHints strategy) }

theorem computeTimeToLive_dropHints (response : Msg) (strategy : DomainStrategy) :
    computeTimeToLive (response.dropHints strategy) = computeTimeToLive response := by
  have hsmallest : smallestTTL (response.dropHints strategy).records = smallestTTL response.records := by
    change List.foldl keepSmaller 0 (response.answer.map _ ++ _ ++ _) = List.foldl keepSmaller 0 (response.answer ++ _ ++ _)
    simp only [foldl_append, foldl_map, keepSmaller_dropHints]
    rfl
  have hsoa : (response.dropHints strategy).negativeSOA = response.negativeSOA := by
    unfold Msg.negativeSOA Msg.dropHints
    simp only [map_eq_nil_iff]
  rw [computeTimeToLive_eq, computeTimeToLive_eq, hsmallest, hsoa]

theorem RR.setTTL_notLonger {record after : RR} (hrrtype : after.rrtype = record.rrtype) :
    NotLonger record (after.setTTL timeToLive) ↔ (record.Counted → timeToLive ≤ record.ttl) := by
  unfold NotLonger RR.setTTL RR.Counted
  rw [hrrtype]
  by_cases hopt : record.rrtype = typeOPT
  · simp [hopt]
  · simp [hopt]

theorem rrtype_dropHints (strategy : DomainStrategy) (record : RR) :
    (record.dropHints strategy).rrtype = record.rrtype := by
  unfold RR.dropHints
  cases record.data <;> rfl

def Section (timeToLive : ℕ) (before after : List RR) : Prop :=
  ∃ f : RR → RR, (∀ record, (f record).rrtype = record.rrtype) ∧
    after = before.map fun record => (f record).setTTL timeToLive

theorem Section.of_setTTL (timeToLive : ℕ) (records : List RR) :
    Section timeToLive records (records.map (.setTTL timeToLive)) := ⟨id, fun _ => rfl, rfl⟩

theorem Section.notLonger_iff {before after : List RR} (h : Section timeToLive before after) :
    List.Forall₂ NotLonger before after ↔ ∀ record ∈ before, record.Counted → timeToLive ≤ record.ttl := by
  obtain ⟨f, hf, rfl⟩ := h
  rw [forall₂_map_right_iff, forall₂_same]
  apply forall₂_congr
  intro record _
  exact RR.setTTL_notLonger (hf record)

theorem applyResponseOptions_sections (question : Question) (response : Msg) {options : DNSQueryOptions}
    (hrewrite : options.rewriteTTL = none) :
    let result := applyResponseOptions question response options
    result.2 = computeTimeToLive response ∧ Section result.2 response.answer result.1.answer ∧
      Section result.2 response.ns result.1.ns ∧ Section result.2 response.extra result.1.extra := by
  unfold applyResponseOptions
  rw [hrewrite]
  split_ifs
  · refine ⟨computeTimeToLive_dropHints response options.strategy, ⟨_, rrtype_dropHints options.strategy, ?_⟩,
      .of_setTTL _ _, .of_setTTL _ _⟩
    exact map_map
  · exact ⟨rfl, .of_setTTL _ _, .of_setTTL _ _, .of_setTTL _ _⟩

/-- **Caching does not extend the life of records**, if and only if the records are level. -/
theorem lifetime_not_extended (question : Question) (response : Msg) (options : DNSQueryOptions)
    (hrewrite : options.rewriteTTL = none) :
    let result := applyResponseOptions question response options
    (List.Forall₂ NotLonger response.answer result.1.answer ∧ List.Forall₂ NotLonger response.ns result.1.ns ∧
      List.Forall₂ NotLonger response.extra result.1.extra ∧
      ∀ record ∈ response.records, record.Counted → result.2 ≤ record.ttl) ↔ response.Level := by
  intro result
  obtain ⟨htime, hanswer, hns, hextra⟩ := applyResponseOptions_sections question response hrewrite
  have hall := computeTimeToLive_le_iff response
  rw [← htime] at hall
  rw [hanswer.notLonger_iff, hns.notLonger_iff, hextra.notLonger_iff, ← hall]
  simp only [Msg.records, mem_append]
  constructor
  · intro h
    exact h.2.2.2
  · intro h
    exact ⟨fun record hmem => h record (.inl (.inl hmem)), fun record hmem => h record (.inl (.inr hmem)),
      fun record hmem => h record (.inr hmem), h⟩

theorem lifetime_not_extended_sample :
    let response : Msg := { id := 0, answer := [⟨"a.", typeA, 1, 300, .other [1]⟩], ns := [⟨"a.", 2, 1, 60, .other [2]⟩] }
    let result := applyResponseOptions ⟨"a.", typeA, 1⟩ response {}
    response.Level ∧ result.2 = 60 ∧ List.Forall₂ NotLonger response.answer result.1.answer := by
  intro response result
  have hlevel : response.Level := .inl (by decide)
  exact ⟨hlevel, rfl, ((lifetime_not_extended ⟨"a.", typeA, 1⟩ response {} rfl).2 hlevel).1⟩

/-- a record that is not to be kept (a time to live of zero) lives as long as the other one -/
theorem zero_lives_longer :
    (applyResponseOptions ⟨"a.", typeA, 1⟩
      { id := 0, answer := [⟨"a.", 5, 1, 0, .other [1]⟩, ⟨"b.", typeA, 1, 300, .other [2]⟩] } {}) =
      ({ id := 0, answer := [⟨"a.", 5, 1, 300, .other [1]⟩, ⟨"b.", typeA, 1, 300, .other [2]⟩] }, 300) ∧
    (applyResponseOptions ⟨"a.", typeA, 1⟩
      { id := 0, rcode := rcodeNameError, ns := [⟨"a.", typeSOA, 1, 900, .soa 900⟩, ⟨"a.", 47, 1, 60, .other [1]⟩] } {}) =
      ({ id := 0, rcode := rcodeNameError, ns := [⟨"a.", typeSOA, 1, 900, .soa 900⟩, ⟨"a.", 47, 1, 900, .other [1]⟩] },
        900) := by
  decide +kernel

end EtonifyCore.DNSClient
