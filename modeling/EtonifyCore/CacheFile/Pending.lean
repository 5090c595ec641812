/-
The accounts of the cache file's write buffer (`pendingWrites`, `experimental/cachefile`).

Model: each section under `pendingAccess` is one operation, so `FakeIPSaveMetadata` is `saveMetadata` and a `flush`. The
address maps, which nothing here reads, the flush timer and its signal are left out; so is the database.
-/
import EtonifyCore.CacheFile.DNSCache
import EtonifyCore.Core.Channel

namespace EtonifyCore.CacheFile

open List Core.Keyed

variable {A M : Type}

structure PendingWrites (A M : Type) where
  dnsCache : List (SaveCacheKey × List UInt8) := []
  rdrc : List (SaveCacheKey × Unit) := []
  fakeIPDomain : List (A × String) := []
  fakeIPMetadata : Option M := none
  count : ℤ := 0
  size : ℤ := 0

inductive PendingOp (A M : Type)
  | queueDNSCache (key : SaveCacheKey) (rawMessage : List UInt8) (expireAt : UInt64)
  | queueRDRC (key : SaveCacheKey)
  | queueFakeIP (address : A) (domain : String)
  | saveMetadata (metadata : M)
  | flush
  | clearDNSCache
  | clearRDRC
  | fakeIPReset

namespace PendingWrites

def enqueueLocked (p : PendingWrites A M) (added : Bool) (sizeDelta : ℤ) : PendingWrites A M :=
  { p with count := if added then p.count + 1 else p.count, size := p.size + sizeDelta }

def discharge (p : PendingWrites A M) (sizes : List ℤ) : PendingWrites A M :=
  sizes.foldl (fun p n => { p with count := p.count - 1, size := p.size - n }) p

theorem discharge_eq (p : PendingWrites A M) (sizes : List ℤ) :
    p.discharge sizes = { p with count := p.count - sizes.length, size := p.size - sizes.sum } := by
  induction sizes generalizing p with
  | nil => simp [discharge]
  | cons n sizes ih =>
    change discharge { p with count := p.count - 1, size := p.size - n } sizes = _
    rw [ih]
    simp only [length_cons, sum_cons, Nat.cast_add, Nat.cast_one, mk.injEq, true_and]
    constructor <;> ring

def putUint64 (n : UInt64) : List UInt8 := (range 8).map fun i => UInt8.ofNat (n.toNat >>> (8 * (7 - i)))

def dnsSize (e : SaveCacheKey × List UInt8) : ℤ := e.1.questionName.utf8ByteSize + e.2.length

def rdrcSize (e : SaveCacheKey × Unit) : ℤ := e.1.questionName.utf8ByteSize

def fakeIPSize (e : A × String) : ℤ := e.2.utf8ByteSize

/-! ## What is queued -/

def entries (p : PendingWrites A M) : ℤ :=
  p.dnsCache.length + p.rdrc.length + p.fakeIPDomain.length + p.fakeIPMetadata.toList.length

def charges (p : PendingWrites A M) : ℤ :=
  (p.dnsCache.map dnsSize).sum + (p.rdrc.map rdrcSize).sum + (p.fakeIPDomain.map fakeIPSize).sum

structure Counted (p : PendingWrites A M) : Prop where
  dns : (p.dnsCache.map (·.1)).Nodup
  rdrc : (p.rdrc.map (·.1)).Nodup
  fakeIP : (p.fakeIPDomain.map (·.1)).Nodup
  count : p.count = p.entries

theorem counted_empty : (({} : PendingWrites A M)).Counted := ⟨nodup_nil, nodup_nil, nodup_nil, rfl⟩

/-! ## Operations -/

variable [DecidableEq A]

def step (p : PendingWrites A M) : PendingOp A M → PendingWrites A M
  | .queueDNSCache key rawMessage expireAt =>
    let value := putUint64 expireAt ++ rawMessage
    let old := get? key p.dnsCache
    enqueueLocked { p with dnsCache := put key value p.dnsCache } old.isNone
      (key.questionName.utf8ByteSize + value.length - (old.getD []).length)
  | .queueRDRC key =>
    if (get? key p.rdrc).isSome then p
    else enqueueLocked { p with rdrc := put key () p.rdrc } true key.questionName.utf8ByteSize
  | .queueFakeIP address domain =>
    let old := get? address p.fakeIPDomain
    enqueueLocked { p with fakeIPDomain := put address domain p.fakeIPDomain } old.isNone
      (domain.utf8ByteSize - (old.getD "").utf8ByteSize)
  | .saveMetadata metadata => enqueueLocked { p with fakeIPMetadata := some metadata } p.fakeIPMetadata.isNone 0
  | .flush => if p.count = 0 then p else {}
  | .clearDNSCache => { p.discharge (p.dnsCache.map dnsSize) with dnsCache := [] }
  | .clearRDRC => { p.discharge (p.rdrc.map rdrcSize) with rdrc := [] }
  | .fakeIPReset =>
    let p := { p.discharge (p.fakeIPDomain.map fakeIPSize) with fakeIPDomain := [] }
    if p.fakeIPMetadata.isSome then { p with fakeIPMetadata := none, count := p.count - 1 } else p

/-- what a write pays again for an entry that it replaces -/
def recharge (p : PendingWrites A M) : PendingOp A M → ℤ
  | .queueDNSCache key _ _ => if (get? key p.dnsCache).isSome then key.questionName.utf8ByteSize else 0
  | _ => 0

variable {p : PendingWrites A M}

theorem Counted.step (h : p.Counted) (op : PendingOp A M) : (p.step op).Counted := by
  have hcount := h.count
  cases op with
  | queueDNSCache key rawMessage expireAt =>
    refine ⟨nodup_put key _ h.dns, h.rdrc, h.fakeIP, ?_⟩
    simp only [PendingWrites.step, enqueueLocked, entries, length_put key _ h.dns] at hcount ⊢
    split_ifs <;> omega
  | queueRDRC key =>
    by_cases hk : (get? key p.rdrc).isSome
    · rw [PendingWrites.step, if_pos hk]
      exact h
    · rw [PendingWrites.step, if_neg hk]
      refine ⟨h.dns, nodup_put key () h.rdrc, h.fakeIP, ?_⟩
      simp only [enqueueLocked, entries, length_put key () h.rdrc] at hcount ⊢
      simp only [Option.not_isSome_iff_eq_none.1 hk, Option.isNone_none, if_true]
      omega
  | queueFakeIP address domain =>
    refine ⟨h.dns, h.rdrc, nodup_put address _ h.fakeIP, ?_⟩
    simp only [PendingWrites.step, enqueueLocked, entries, length_put address _ h.fakeIP] at hcount ⊢
    split_ifs <;> omega
  | saveMetadata metadata =>
    refine ⟨h.dns, h.rdrc, h.fakeIP, ?_⟩
    cases hm : p.fakeIPMetadata <;> simp [PendingWrites.step, enqueueLocked, entries, hm] at hcount ⊢ <;> omega
  | flush =>
    unfold PendingWrites.step
    split_ifs
    · exact h
    · exact ⟨nodup_nil, nodup_nil, nodup_nil, rfl⟩
  | clearDNSCache =>
    refine ⟨nodup_nil, ?_, ?_, ?_⟩ <;> simp only [PendingWrites.step, discharge_eq, entries] at hcount ⊢
    · exact h.rdrc
    · exact h.fakeIP
    · simp only [length_map, length_nil]
      omega
  | clearRDRC =>
    refine ⟨?_, nodup_nil, ?_, ?_⟩ <;> simp only [PendingWrites.step, discharge_eq, entries] at hcount ⊢
    · exact h.dns
    · exact h.fakeIP
    · simp only [length_map, length_nil]
      omega
  | fakeIPReset =>
    cases hm : p.fakeIPMetadata <;> simp only [PendingWrites.step, discharge_eq, entries, hm] at hcount ⊢
    · exact ⟨h.dns, h.rdrc, nodup_nil, by simp [entries] at hcount ⊢; omega⟩
    · exact ⟨h.dns, h.rdrc, nodup_nil, by simp [entries] at hcount ⊢; omega⟩

theorem size_step_iff (h : p.Counted) (hs : p.size = p.charges) (op : PendingOp A M) :
    (p.step op).size = (p.step op).charges ↔ p.recharge op = 0 := by
  cases op with
  | queueDNSCache key rawMessage expireAt =>
    simp only [charges] at hs
    simp only [step, enqueueLocked, charges, sum_put key _ h.dns, recharge, dnsSize]
    generalize key.questionName.utf8ByteSize = name
    cases get? key p.dnsCache <;> simp [hs] <;> omega
  | queueRDRC key =>
    by_cases hk : (get? key p.rdrc).isSome
    · simpa [step, if_pos hk, recharge] using hs
    · rw [step, if_neg hk]
      simp only [charges] at hs
      simp only [enqueueLocked, charges, sum_put key () h.rdrc, recharge, rdrcSize, Option.not_isSome_iff_eq_none.1 hk]
      simp [hs]
      ring
  | queueFakeIP address domain =>
    simp only [charges] at hs
    simp only [step, enqueueLocked, charges, sum_put address _ h.fakeIP, recharge, fakeIPSize]
    cases get? address p.fakeIPDomain <;> simp [hs] <;> ring
  | saveMetadata metadata => simpa [step, enqueueLocked, charges, recharge] using hs
  | flush =>
    simp only [step, recharge, iff_true]
    split_ifs
    · exact hs
    · rfl
  | clearDNSCache | clearRDRC =>
    simp [step, discharge_eq, charges, recharge, hs]
    ring
  | fakeIPReset => cases hm : p.fakeIPMetadata <;> simp [step, discharge_eq, charges, recharge, hs, hm]

/-! ## Runs -/

def run (ops : List (PendingOp A M)) : PendingWrites A M := ops.foldl step {}

def Exact (p : PendingWrites A M) : List (PendingOp A M) → Prop
  | [] => p.count = p.entries ∧ p.size = p.charges
  | op :: ops => (p.count = p.entries ∧ p.size = p.charges) ∧ (p.step op).Exact ops

def WrittenOnce (p : PendingWrites A M) : List (PendingOp A M) → Prop
  | [] => True
  | op :: ops => p.recharge op = 0 ∧ (p.step op).WrittenOnce ops

theorem Counted.foldl (h : p.Counted) (ops : List (PendingOp A M)) : (ops.foldl PendingWrites.step p).Counted := by
  induction ops generalizing p with
  | nil => exact h
  | cons op ops ih => exact ih (h.step op)

theorem Counted.exact_iff (h : p.Counted) (hs : p.size = p.charges) (ops : List (PendingOp A M)) :
    p.Exact ops ↔ p.WrittenOnce ops := by
  induction ops generalizing p with
  | nil => exact iff_of_true ⟨h.count, hs⟩ trivial
  | cons op ops ih =>
    have hop := size_step_iff h hs op
    constructor
    · rintro ⟨-, hrest⟩
      have hsize : (p.step op).size = (p.step op).charges := by
        cases ops with
        | nil => exact hrest.2
        | cons _ _ => exact hrest.1.2
      exact ⟨hop.1 hsize, (ih (h.step op) hsize).1 hrest⟩
    · rintro ⟨hname, hrest⟩
      exact ⟨⟨h.count, hs⟩, (ih (h.step op) (hop.2 hname)).2 hrest⟩

/-- The count is always right. The size is right throughout a run just when no queued DNS entry is written again under a
name that is not empty: the name is charged at each write, and given back once. -/
theorem accounts_exact_iff (ops : List (PendingOp A M)) :
    (run ops).count = (run ops).entries ∧ (({} : PendingWrites A M).Exact ops ↔ ({} : PendingWrites A M).WrittenOnce ops) :=
  ⟨(counted_empty.foldl ops).count, counted_empty.exact_iff rfl ops⟩

/-- `a.` is written twice and then cleared: nothing is queued, and two bytes stay charged. A flush does not take them away. -/
theorem rewritten_name_charged_twice :
    let key : SaveCacheKey := ⟨"udp", "a.", 1⟩
    let p : PendingWrites ℕ ℕ := run [.queueDNSCache key [] 0, .queueDNSCache key [] 0, .clearDNSCache, .flush]
    p.count = 0 ∧ p.entries = 0 ∧ p.charges = 0 ∧ p.size = 2 := by
  decide

end PendingWrites

end EtonifyCore.CacheFile
