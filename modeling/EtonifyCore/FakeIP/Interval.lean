/-
The ranges of the fake-IP store as intervals, and the addresses that are handed out of them.

The position starts at the address after that of the range, goes up, and falls back to the third address, which is not always
inside: a range may be written with any address of it. `Fits`: what two ranges need for all their addresses to lie inside.
-/
import EtonifyCore.FakeIP.Mapping

namespace EtonifyCore.FakeIP

open BitVec

/-! ## Prefixes as intervals -/

section

variable {w : ℕ} (base x : BitVec w) (bits : ℕ)

theorem toNat_hostMask : (allOnes w >>> bits).toNat = 2 ^ (w - bits) - 1 := by
  rw [toNat_ushiftRight, toNat_allOnes, Nat.shiftRight_eq_div_pow]
  rcases le_total bits w with h | h
  · obtain ⟨k, rfl⟩ := Nat.exists_eq_add_of_le h
    rw [Nat.add_sub_cancel_left, pow_add]
    have hb := Nat.two_pow_pos bits
    have hk := Nat.two_pow_pos k
    apply Nat.div_eq_of_lt_le
    · rw [Nat.sub_mul, one_mul, mul_comm]
      omega
    · rw [Nat.sub_add_cancel hk, mul_comm (2 ^ k)]
      exact Nat.sub_lt (Nat.mul_pos hb hk) one_pos
  · rw [Nat.sub_eq_zero_of_le h, pow_zero]
    exact Nat.div_eq_of_lt (by have := Nat.pow_le_pow_right (n := 2) (by decide) h; have := Nat.two_pow_pos w; omega)

theorem toNat_low : (base >>> (w - bits) <<< (w - bits)).toNat = base.toNat / 2 ^ (w - bits) * 2 ^ (w - bits) := by
  rw [toNat_shiftLeft, toNat_ushiftRight, Nat.shiftRight_eq_div_pow, Nat.shiftLeft_eq]
  exact Nat.mod_eq_of_lt ((Nat.div_mul_le_self _ _).trans_lt base.isLt)

theorem toNat_high : (base ||| allOnes w >>> bits).toNat =
    base.toNat / 2 ^ (w - bits) * 2 ^ (w - bits) + (2 ^ (w - bits) - 1) := by
  rw [toNat_or, toNat_hostMask]
  have hmask : 2 ^ (w - bits) - 1 < 2 ^ (w - bits) := Nat.sub_lt (Nat.two_pow_pos _) one_pos
  rw [← Nat.shiftLeft_eq, Nat.shiftLeft_add_eq_or_of_lt hmask]
  apply Nat.eq_of_testBit_eq
  intro i
  simp only [Nat.testBit_or, Nat.testBit_two_pow_sub_one, Nat.testBit_shiftLeft, ← Nat.shiftRight_eq_div_pow, Nat.testBit_shiftRight]
  by_cases hi : i < w - bits
  · simp [hi]
  · simp [hi, Nat.not_lt.1 hi]

theorem shiftRight_eq_iff : x >>> (w - bits) = base >>> (w - bits) ↔
    (base >>> (w - bits) <<< (w - bits)).toNat ≤ x.toNat ∧ x.toNat ≤ (base ||| allOnes w >>> bits).toNat := by
  rw [toNat_low, toNat_high, ← toNat_inj, toNat_ushiftRight, toNat_ushiftRight,
    Nat.shiftRight_eq_div_pow, Nat.shiftRight_eq_div_pow]
  have hpos := Nat.two_pow_pos (w - bits)
  generalize 2 ^ (w - bits) = m at hpos ⊢
  rw [Nat.div_eq_iff hpos]
  omega

end

theorem add_one_eq_iff {w : ℕ} [NeZero w] {bits bits' : BitVec w} :
    (¬bits + 1#w = 0#w ∧ bits + 1#w = bits') ↔ bits'.toNat = bits.toNat + 1 := by
  have h := bits.isLt
  rw [← toNat_inj, ← toNat_inj, toNat_add, toNat_zero, toNat_one (NeZero.pos w)]
  rcases (Nat.succ_le_of_lt h).eq_or_lt with heq | hlt
  · rw [Nat.succ_eq_add_one] at heq
    rw [heq, Nat.mod_self]
    omega
  · rw [Nat.mod_eq_of_lt hlt]
    omega

namespace IP

def value : IP → ℕ
  | v4 bits => bits.toNat
  | v6 bits => bits.toNat

def isIPv6 : IP → Bool
  | v4 _ => false
  | v6 _ => true

theorem eq_of_value {ip ip' : IP} (hfamily : ip.isIPv6 = ip'.isIPv6) (hvalue : ip.value = ip'.value) : ip = ip' := by
  cases ip with
  | v4 bits =>
    cases ip' with
    | v4 bits' => exact congrArg v4 (eq_of_toNat_eq hvalue)
    | v6 bits' => cases hfamily
  | v6 bits =>
    cases ip' with
    | v4 bits' => cases hfamily
    | v6 bits' => exact congrArg v6 (eq_of_toNat_eq hvalue)

end IP

namespace Addr

def value (a : Addr) : ℕ := a.elim 0 IP.value

theorem family_some (ip : IP) : family (some ip) = ip.isIPv6 := by cases ip <;> rfl

theorem next_eq_some {ip ip' : IP} : next (some ip) = some ip' ↔ ip'.isIPv6 = ip.isIPv6 ∧ ip'.value = ip.value + 1 := by
  cases ip with
  | v4 bits =>
    cases ip' with
    | v4 bits' => simp [next, IP.isIPv6, IP.value, ← add_one_eq_iff]
    | v6 bits' => simp [next, IP.isIPv6]
  | v6 bits =>
    cases ip' with
    | v4 bits' => simp [next, IP.isIPv6]
    | v6 bits' => simp [next, IP.isIPv6, IP.value, ← add_one_eq_iff]

theorem exists_next {ip above : IP} (hfamily : above.isIPv6 = ip.isIPv6) (h : ip.value < above.value) :
    ∃ ip', next (some ip) = some ip' ∧ ip'.isIPv6 = ip.isIPv6 ∧ ip'.value = ip.value + 1 := by
  suffices hsome : (next (some ip)).isSome = true by
    obtain ⟨ip', hnext⟩ := Option.isSome_iff_exists.1 hsome
    exact ⟨ip', hnext, next_eq_some.1 hnext⟩
  cases ip with
  | v4 bits =>
    cases above with
    | v4 bits' =>
      simp only [IP.value] at h
      have hlt := bits'.isLt
      have hadd : ¬bits + 1#32 = 0#32 := by bv_omega
      simp [next, hadd]
    | v6 bits' => cases hfamily
  | v6 bits =>
    cases above with
    | v4 bits' => cases hfamily
    | v6 bits' =>
      simp only [IP.value] at h
      have hadd : ¬bits + 1#128 = 0#128 := by bv_omega
      simp [next, hadd]

end Addr

def Range.first (range : Range) : Addr :=
  match range.addr with
  | some (.v4 base) => some (.v4 (base >>> (32 - range.bits) <<< (32 - range.bits)))
  | some (.v6 base) => some (.v6 (base >>> (128 - range.bits) <<< (128 - range.bits)))
  | none => none

/-- a range is the interval of its family from `low` to `high` -/
structure Interval (range : Range) (base low high : IP) : Prop where
  addr : range.addr = some base
  first : range.first = some low
  last : range.last = some high
  low_family : low.isIPv6 = base.isIPv6
  high_family : high.isIPv6 = base.isIPv6
  contains : ∀ ip : IP, range.contains (some ip) = true ↔
    ip.isIPv6 = base.isIPv6 ∧ low.value ≤ ip.value ∧ ip.value ≤ high.value

theorem Range.interval {range : Range} {base : IP} (h : range.addr = some base) :
    ∃ low high, Interval range base low high := by
  obtain ⟨addr, bits⟩ := range
  cases h
  cases base with
  | v4 base =>
    refine ⟨_, _, rfl, rfl, rfl, rfl, rfl, fun ip => ?_⟩
    cases ip with
    | v4 x => simpa [Range.contains, IP.isIPv6, IP.value] using shiftRight_eq_iff base x bits
    | v6 x => simp [Range.contains, IP.isIPv6]
  | v6 base =>
    refine ⟨_, _, rfl, rfl, rfl, rfl, rfl, fun ip => ?_⟩
    cases ip with
    | v4 x => simp [Range.contains, IP.isIPv6]
    | v6 x => simpa [Range.contains, IP.isIPv6, IP.value] using shiftRight_eq_iff base x bits

namespace Interval

variable {range : Range} {base low high : IP}

theorem base_mem (h : Interval range base low high) : low.value ≤ base.value ∧ base.value ≤ high.value := by
  apply And.right
  apply (h.contains base).1
  obtain ⟨addr, bits⟩ := range
  cases h.addr
  cases base <;> simp [Range.contains]

end Interval

/-- the address is in the range, and neither the first nor the last of it -/
def Inside (range : Range) (a : Addr) : Prop :=
  range.contains a = true ∧ a ≠ range.first ∧ a ≠ range.last

theorem isSome_of_contains {range : Range} {a : Addr} (h : range.contains a) : range.addr.isSome := by
  unfold Range.contains at h
  split at h
  case h_3 => cases h
  all_goals
    rename_i heq
    rw [heq]
    rfl

theorem Interval.inside_iff {range : Range} {base low high ip : IP} (h : Interval range base low high) :
    Inside range (some ip) ↔ ip.isIPv6 = base.isIPv6 ∧ low.value < ip.value ∧ ip.value < high.value := by
  unfold Inside
  rw [h.contains, h.first, h.last]
  constructor
  · rintro ⟨⟨hfamily, hlow, hhigh⟩, hfirst, hlast⟩
    refine ⟨hfamily, lt_of_le_of_ne hlow fun heq => hfirst ?_, lt_of_le_of_ne hhigh fun heq => hlast ?_⟩
    · rw [IP.eq_of_value (hfamily.trans h.low_family.symm) heq.symm]
    · rw [IP.eq_of_value (hfamily.trans h.high_family.symm) heq]
  · rintro ⟨hfamily, hlow, hhigh⟩
    refine ⟨⟨hfamily, hlow.le, hhigh.le⟩, ?_, ?_⟩
    · intro heq
      cases heq
      exact hlow.false
    · intro heq
      cases heq
      exact hhigh.false

/-! ## Addresses that are handed out -/

/-- an address of the range, at least `n` after the address of the range and before the last one -/
def Reached (range : Range) (n : ℕ) (a : Addr) : Prop :=
  ∃ ip base low high, a = some ip ∧ Interval range base low high ∧ ip.isIPv6 = base.isIPv6 ∧
    base.value + n ≤ ip.value ∧ ip.value < high.value

section

variable {range : Range} {a : Addr}

theorem Reached.mono {n m : ℕ} (h : Reached range n a) (hle : m ≤ n) : Reached range m a := by
  obtain ⟨ip, base, low, high, ha, hrange, hfamily, hlow, hhigh⟩ := h
  exact ⟨ip, base, low, high, ha, hrange, hfamily, by omega, hhigh⟩

theorem Reached.inside {n : ℕ} (h : Reached range (n + 1) a) : Inside range a := by
  obtain ⟨ip, base, low, high, rfl, hrange, hfamily, hlow, hhigh⟩ := h
  have hbase := hrange.base_mem
  exact hrange.inside_iff.2 ⟨hfamily, by omega, hhigh⟩

theorem Reached.isSome_next (h : Reached range 1 a) : range.addr.next.isSome := by
  obtain ⟨ip, base, low, high, -, hrange, hfamily, hlow, -⟩ := h
  obtain ⟨second, hsecond, -⟩ := Addr.exists_next hfamily (by omega : base.value < ip.value)
  rw [hrange.addr, hsecond]
  rfl

theorem Interval.exists_third {base low high : IP} (h : Interval range base low high)
    (hroom : base.value + 2 < high.value) :
    ∃ third, range.addr.next.next = some third ∧ third.isIPv6 = base.isIPv6 ∧ third.value = base.value + 2 := by
  obtain ⟨second, hsecond, hfamily, hvalue⟩ := Addr.exists_next h.high_family (by omega : base.value < high.value)
  obtain ⟨third, hthird, hfamily', hvalue'⟩ :=
    Addr.exists_next (h.high_family.trans hfamily.symm) (by omega : second.value < high.value)
  rw [h.addr, hsecond, hthird]
  exact ⟨third, rfl, hfamily'.trans hfamily, by omega⟩

theorem nextAddress_handed (hroom : range.addr.value + 2 < range.last.value) (h : Reached range 1 a) :
    Reached range 2 (nextAddress range a) := by
  obtain ⟨ip, base, low, high, rfl, hrange, hfamily, hlow, hhigh⟩ := h
  rw [hrange.addr, hrange.last] at hroom
  obtain ⟨third, hthird, hfamilyThird, hvalueThird⟩ := hrange.exists_third hroom
  change base.value + 2 < high.value at hroom
  obtain ⟨ip', hnext, hfamily', hvalue⟩ := Addr.exists_next (hrange.high_family.trans hfamily.symm) hhigh
  unfold nextAddress
  dsimp only
  split_ifs with hback
  · rw [hthird]
    exact ⟨third, base, low, high, rfl, hrange, hfamilyThird, by omega, by omega⟩
  · rw [hnext] at hback ⊢
    have hne : ip'.value ≠ high.value := by
      intro heq
      apply hback
      left
      rw [hrange.last, IP.eq_of_value (hfamily'.trans (hfamily.trans hrange.high_family.symm)) heq]
    exact ⟨ip', base, low, high, rfl, hrange, hfamily'.trans hfamily, by omega, by omega⟩

theorem reached_second (hroom : range.addr.value + 2 < range.last.value) (h : range.addr.next.isSome) :
    Reached range 1 range.addr.next := by
  obtain ⟨base, hbase⟩ := Option.isSome_iff_exists.1 (isSome_of_next h)
  obtain ⟨low, high, hrange⟩ := Range.interval hbase
  rw [hrange.addr, hrange.last] at hroom
  change base.value + 2 < high.value at hroom
  obtain ⟨second, hsecond⟩ := Option.isSome_iff_exists.1 h
  rw [hsecond]
  rw [hbase] at hsecond
  obtain ⟨hfamily, hvalue⟩ := Addr.next_eq_some.1 hsecond
  exact ⟨second, base, low, high, rfl, hrange, hfamily, by omega, by omega⟩

end

theorem iterate_nextAddress {range : Range} {base low high : IP} (h : Interval range base low high) (n : ℕ)
    (hn : base.value + 1 + n < high.value) : ∃ ip, (nextAddress range)^[n] range.addr.next = some ip ∧
      ip.isIPv6 = base.isIPv6 ∧ ip.value = base.value + 1 + n := by
  induction n with
  | zero =>
    obtain ⟨second, hsecond, hfamily, hvalue⟩ := Addr.exists_next h.high_family (by omega : base.value < high.value)
    rw [Function.iterate_zero_apply, h.addr, hsecond]
    exact ⟨second, rfl, hfamily, hvalue⟩
  | succ n ih =>
    obtain ⟨ip, heq, hfamily, hvalue⟩ := ih (by omega)
    obtain ⟨ip', hnext, hfamily', hvalue'⟩ :=
      Addr.exists_next (h.high_family.trans hfamily.symm) (by omega : ip.value < high.value)
    have hbase := h.base_mem
    have hinside : Inside range (some ip') := h.inside_iff.2 ⟨hfamily'.trans hfamily, by omega, by omega⟩
    rw [Function.iterate_succ_apply', heq]
    refine ⟨ip', ?_, hfamily'.trans hfamily, by omega⟩
    unfold nextAddress
    rw [hnext, if_neg]
    rintro (hlast | hout)
    · exact hinside.2.2 hlast
    · rw [hinside.1] at hout
      cases hout

/-- The third address of the range lies before the last one, unless there is no second address and none is handed out. The
addresses are of the family, or all of them lie inside the other range too, where they are found. -/
def Fits (own other : Range) (isIPv6 : Bool) : Prop :=
  own.addr.next.isSome = true →
    own.addr.value + 2 < own.last.value ∧
      (own.addr.family = isIPv6 ∨ Inside other own.addr.next.next ∧ own.last.value ≤ other.last.value)

namespace Fits

variable {own other : Range} {isIPv6 : Bool} {a : Addr}

theorem found (h : Fits own other isIPv6) (ha : Reached own 2 a) : a.family = isIPv6 ∨ a.family = !isIPv6 ∧ Inside other a := by
  obtain ⟨hroom, hfound⟩ := h (ha.mono one_le_two).isSome_next
  obtain ⟨ip, base, low, high, rfl, hrange, hfamily, hlow, hhigh⟩ := ha
  rw [Addr.family_some, hfamily, ← Addr.family_some, ← hrange.addr]
  rcases hfound with hown | ⟨hthird, hlast⟩
  · exact .inl hown
  · rcases Bool.eq_or_eq_not own.addr.family isIPv6 with hown | hnot
    · exact .inl hown
    refine .inr ⟨hnot, ?_⟩
    rw [hrange.addr, hrange.last] at hroom
    obtain ⟨third, heq, hfamilyThird, hvalue⟩ := hrange.exists_third hroom
    rw [heq] at hthird
    obtain ⟨base', hbase'⟩ : ∃ base', other.addr = some base' := by
      rw [← Option.isSome_iff_exists]
      exact isSome_of_contains hthird.1
    obtain ⟨low', high', hother⟩ := Range.interval hbase'
    obtain ⟨hfamily', hlow', -⟩ := hother.inside_iff.1 hthird
    rw [hrange.last, hother.last] at hlast
    change high.value ≤ high'.value at hlast
    exact hother.inside_iff.2 ⟨hfamily.trans (hfamilyThird.symm.trans hfamily'), by omega, by omega⟩

end Fits

end EtonifyCore.FakeIP
