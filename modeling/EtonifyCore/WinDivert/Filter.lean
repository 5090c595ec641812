/-
WinDivert filters: their programs and what these accept (`common/windivert/filter.go`).

A filter is a list of tests that must all hold and a list of alternatives. `encode` gives every test the numbers of the
instructions that come next; the driver (`run`) starts at instruction 0 and stops at accept or reject.

Model: what a test says of a packet is arbitrary (`truth`). The constructors make such lists, with constant fields that fit
11 bits and tests that fit 5, as the types here say.
-/
import Mathlib.Tactic
import EtonifyCore.Core.Bytes

namespace EtonifyCore.WinDivert

open List Core

abbrev Arg := UInt32 × UInt32 × UInt32 × UInt32

def resultAccept : UInt16 := 0x7FFE

def resultReject : UInt16 := 0x7FFF

structure FilterInst where
  field : Fin 2048
  test : Fin 32
  success : UInt16 := 0
  failure : UInt16 := 0
  neg : Bool := false
  arg : Arg
  deriving DecidableEq

structure Filter where
  insts : List FilterInst := []
  anyInsts : List FilterInst := []
  flags : UInt64 := 0

/-! ## Encoding -/

def putUint32 (n : ℕ) : Bytes := [0, 8, 16, 24].map fun s => UInt8.ofNat (n >>> s)

def encodeInst (inst : FilterInst) : Bytes :=
  let word0 := (inst.field.val &&& 0x7FF) ||| (inst.test.val &&& 0x1F) <<< 11 ||| inst.success.toNat <<< 16
  let word1 := inst.failure.toNat ||| (if inst.neg then 1 <<< 16 else 0)
  putUint32 word0 ++ putUint32 word1 ++ putUint32 inst.arg.1.toNat ++ putUint32 inst.arg.2.1.toNat ++
    putUint32 inst.arg.2.2.1.toNat ++ putUint32 inst.arg.2.2.2.toNat

namespace Filter

def total (f : Filter) : ℕ := f.insts.length + f.anyInsts.length

def allInst (f : Filter) (i : ℕ) (inst : FilterInst) : FilterInst :=
  { inst with
    success := if i = f.total - 1 then resultAccept else UInt16.ofNat (i + 1)
    failure := resultReject }

def anyInst (f : Filter) (i : ℕ) (inst : FilterInst) : FilterInst :=
  { inst with
    success := resultAccept
    failure := if f.insts.length + i = f.total - 1 then resultReject else UInt16.ofNat (f.insts.length + i + 1) }

def program (f : Filter) : List FilterInst := f.insts.mapIdx f.allInst ++ f.anyInsts.mapIdx f.anyInst

def rejectInst : FilterInst where
  field := 0
  test := 0
  success := resultReject
  failure := resultReject
  arg := (0, 0, 0, 0)

def encode (f : Filter) : Except String (Bytes × UInt64) :=
  if f.total = 0 then .ok (encodeInst rejectInst, 0)
  else if f.total > 255 then .error "windivert: filter too long"
  else .ok (f.program.flatMap encodeInst, f.flags)

end Filter

/-! ## The driver -/

def uint32 (b : Bytes) (i : ℕ) : ℕ := byte b i + 256 * byte b (i + 1) + 65536 * byte b (i + 2) + 16777216 * byte b (i + 3)

def decodeInst (b : Bytes) : FilterInst where
  field := ⟨uint32 b 0 % 2048, Nat.mod_lt _ (by decide)⟩
  test := ⟨uint32 b 0 / 2048 % 32, Nat.mod_lt _ (by decide)⟩
  success := UInt16.ofNat (uint32 b 0 / 65536)
  failure := UInt16.ofNat (uint32 b 4 % 65536)
  neg := uint32 b 4 / 65536 % 2 = 1
  arg := (UInt32.ofNat (uint32 b 8), UInt32.ofNat (uint32 b 12), UInt32.ofNat (uint32 b 16), UInt32.ofNat (uint32 b 20))

variable (truth : Fin 2048 → Fin 32 → Arg → Bool)

def FilterInst.holds (inst : FilterInst) : Bool := truth inst.field inst.test inst.arg != inst.neg

/-- from instruction `pc`; `none` behind the program, or without fuel -/
def run (prog : Bytes) (fuel pc : ℕ) : Option Bool :=
  if pc = resultAccept.toNat then some true
  else if pc = resultReject.toNat then some false
  else if prog.length < 24 * (pc + 1) then none
  else
    match fuel with
    | 0 => none
    | fuel + 1 =>
      let inst := decodeInst (prog.drop (24 * pc))
      run prog fuel (if inst.holds truth then inst.success.toNat else inst.failure.toNat)

theorem uint32_put (n : ℕ) (rest : Bytes) : uint32 (putUint32 n ++ rest) 0 = n % 2 ^ 32 := by
  simp [uint32, putUint32, byte, Nat.shiftRight_eq_div_pow]
  omega

theorem uint32_skip (n i : ℕ) (rest : Bytes) : uint32 (putUint32 n ++ rest) (i + 4) = uint32 rest i := rfl

theorem word0_eq (f t s : ℕ) :
    (f &&& 0x7FF) ||| (t &&& 0x1F) <<< 11 ||| s <<< 16 = f % 2048 + 2048 * (t % 32) + 65536 * s := by
  have hf : f &&& 0x7FF = f % 2048 := Nat.and_two_pow_sub_one_eq_mod f 11
  have ht : t &&& 0x1F = t % 32 := Nat.and_two_pow_sub_one_eq_mod t 5
  have hlow : f % 2048 ||| 2 ^ 11 * (t % 32) = 2 ^ 11 * (t % 32) + f % 2048 := by
    rw [Nat.or_comm, Nat.two_pow_add_eq_or_of_lt (by omega)]
  have hhigh := Nat.two_pow_add_eq_or_of_lt (i := 16) (b := 2 ^ 11 * (t % 32) + f % 2048) (by omega) s
  rw [hf, ht, Nat.shiftLeft_eq, Nat.shiftLeft_eq, mul_comm _ (2 ^ 11), mul_comm s, hlow, Nat.or_comm, ← hhigh]
  omega

theorem word1_eq (n : ℕ) (neg : Bool) (h : n < 65536) :
    n ||| (if neg then 1 <<< 16 else 0) = n + if neg then 65536 else 0 := by
  cases neg with
  | false => simp
  | true =>
    have hor := Nat.two_pow_add_eq_or_of_lt (i := 16) (b := n) h 1
    rw [Nat.or_comm] at hor
    simpa [add_comm] using hor.symm

theorem decodeInst_encode (inst : FilterInst) (rest : Bytes) : decodeInst (encodeInst inst ++ rest) = inst := by
  obtain ⟨⟨field, hf⟩, ⟨test, ht⟩, success, failure, neg, a0, a1, a2, a3⟩ := inst
  have hs := success.toNat_lt
  have hfail := failure.toNat_lt
  have hw0 := word0_eq field test success.toNat
  have hw1 := word1_eq failure.toNat neg hfail
  simp only [encodeInst]
  rw [hw0, hw1]
  simp only [decodeInst, append_assoc, uint32_put, uint32_skip, Nat.mod_eq_of_lt a0.toNat_lt, Nat.mod_eq_of_lt a1.toNat_lt,
    Nat.mod_eq_of_lt a2.toNat_lt, Nat.mod_eq_of_lt a3.toNat_lt, UInt32.ofNat_toNat, FilterInst.mk.injEq, and_true, Fin.mk.injEq]
  refine ⟨by omega, by omega, ?_, ?_, ?_⟩
  · refine (congrArg UInt16.ofNat (?_ : _ = success.toNat)).trans UInt16.ofNat_toNat
    omega
  · refine (congrArg UInt16.ofNat (?_ : _ = failure.toNat)).trans UInt16.ofNat_toNat
    split_ifs <;> omega
  · cases neg <;> simp <;> omega

/-! ## Running a program -/

theorem length_encode (insts : List FilterInst) : (insts.flatMap encodeInst).length = 24 * insts.length := by
  induction insts with
  | nil => rfl
  | cons inst insts ih =>
    rw [flatMap_cons, length_append, ih, length_cons]
    simp [encodeInst, putUint32]
    omega

theorem drop_encode (pre : List FilterInst) (inst : FilterInst) (post : List FilterInst) :
    ((pre ++ inst :: post).flatMap encodeInst).drop (24 * pre.length) = encodeInst inst ++ post.flatMap encodeInst := by
  rw [flatMap_append, ← length_encode, drop_left, flatMap_cons]

theorem run_accept (prog : Bytes) (fuel : ℕ) : run truth prog fuel resultAccept.toNat = some true := by
  rw [run.eq_def, if_pos rfl]

theorem run_reject (prog : Bytes) (fuel : ℕ) : run truth prog fuel resultReject.toNat = some false := by
  rw [run.eq_def, if_neg (by decide), if_pos rfl]

theorem run_step {insts pre post : List FilterInst} {inst : FilterInst} {pc : ℕ} (hinsts : insts = pre ++ inst :: post)
    (hpc : pre.length = pc) (hlt : pc < 255) (fuel : ℕ) :
    run truth (insts.flatMap encodeInst) (fuel + 1) pc = run truth (insts.flatMap encodeInst) fuel
      (if inst.holds truth then inst.success.toNat else inst.failure.toNat) := by
  subst hinsts hpc
  have haccept : pre.length ≠ resultAccept.toNat := by simp [resultAccept]; omega
  have hreject : pre.length ≠ resultReject.toNat := by simp [resultReject]; omega
  have hlen : ¬((pre ++ inst :: post).flatMap encodeInst).length < 24 * (pre.length + 1) := by
    rw [length_encode]
    simp
  conv_lhs => rw [run]
  rw [if_neg haccept, if_neg hreject, if_neg hlen]
  simp only [drop_encode, decodeInst_encode]

namespace Filter

variable {f : Filter} {pre rest : List FilterInst} {fuel : ℕ}

theorem run_any (htotal : f.total ≤ 255) (hany : f.anyInsts = pre ++ rest) (hrest : rest ≠ []) (hfuel : rest.length ≤ fuel) :
    run truth (f.program.flatMap encodeInst) fuel (f.insts.length + pre.length) =
      some (rest.any fun inst => inst.holds truth) := by
  induction rest generalizing pre fuel with
  | nil => exact absurd rfl hrest
  | cons r rest ih =>
    obtain ⟨fuel, rfl⟩ : ∃ n, fuel = n + 1 := ⟨fuel - 1, by simp at hfuel; omega⟩
    have hlen : f.total = f.insts.length + (pre.length + (rest.length + 1)) := by
      rw [total, hany, length_append, length_cons]
    have hprogram : f.program = (f.insts.mapIdx f.allInst ++ pre.mapIdx f.anyInst) ++ f.anyInst pre.length r ::
        rest.mapIdx fun i => f.anyInst (i + 1 + pre.length) := by
      rw [program, hany, mapIdx_append, mapIdx_cons, append_assoc, zero_add]
    rw [run_step truth hprogram (by simp) (by omega), any_cons]
    change run truth _ fuel (if r.holds truth then _ else _) = _
    cases r.holds truth with
    | true => exact run_accept truth _ fuel
    | false =>
      rw [if_neg Bool.false_ne_true, Bool.false_or, anyInst]
      cases rest with
      | nil =>
        rw [if_pos (by simp at hlen; omega)]
        exact run_reject truth _ fuel
      | cons r' rest =>
        rw [if_neg (by simp at hlen; omega), UInt16.toNat_ofNat', Nat.mod_eq_of_lt (by omega)]
        have hsplit : f.anyInsts = (pre ++ [r]) ++ r' :: rest := by simp [hany]
        have hnext := ih hsplit (cons_ne_nil r' rest) (Nat.le_of_succ_le_succ hfuel)
        simpa [add_assoc] using hnext

theorem run_all (htotal : f.total ≤ 255) (hall : f.insts = pre ++ rest) (hrest : rest ≠ [] ∨ f.anyInsts ≠ [])
    (hfuel : rest.length + f.anyInsts.length ≤ fuel) :
    run truth (f.program.flatMap encodeInst) fuel pre.length =
      some (rest.all (fun inst => inst.holds truth) &&
        (f.anyInsts.isEmpty || f.anyInsts.any fun inst => inst.holds truth)) := by
  induction rest generalizing pre fuel with
  | nil =>
    have hany : f.anyInsts ≠ [] := hrest.resolve_left (· rfl)
    have hempty : f.anyInsts.isEmpty = false := by simpa using hany
    have hrun := run_any truth htotal (nil_append f.anyInsts).symm hany (show _ ≤ fuel by simpa using hfuel)
    simpa [hall, hempty] using hrun
  | cons r rest ih =>
    obtain ⟨fuel, rfl⟩ : ∃ n, fuel = n + 1 := ⟨fuel - 1, by simp at hfuel; omega⟩
    have hlen : f.total = pre.length + (rest.length + 1) + f.anyInsts.length := by
      rw [total, hall, length_append, length_cons]
    have hprogram : f.program = pre.mapIdx f.allInst ++ f.allInst pre.length r ::
        ((rest.mapIdx fun i => f.allInst (i + 1 + pre.length)) ++ f.anyInsts.mapIdx f.anyInst) := by
      rw [program, hall, mapIdx_append, mapIdx_cons, append_assoc, cons_append, zero_add]
    rw [run_step truth hprogram (by simp) (by omega), all_cons]
    change run truth _ fuel (if r.holds truth then _ else _) = _
    cases r.holds truth with
    | false => exact run_reject truth _ fuel
    | true =>
      rw [if_pos rfl, Bool.true_and, allInst]
      by_cases hlast : rest = [] ∧ f.anyInsts = []
      · obtain ⟨rfl, hany⟩ := hlast
        rw [if_pos (by simp [hany] at hlen; omega)]
        simpa [hany] using run_accept truth _ fuel
      · have hmore : 0 < rest.length + f.anyInsts.length := by
          rcases not_and_or.1 hlast with h | h <;> have := length_pos_iff.2 h <;> omega
        rw [if_neg (by omega), UInt16.toNat_ofNat', Nat.mod_eq_of_lt (by omega)]
        have hsplit : f.insts = (pre ++ [r]) ++ rest := by simp [hall]
        have hnext := ih hsplit (not_and_or.1 hlast) (show _ ≤ fuel by simp at hfuel; omega)
        simpa using hnext

theorem run_rejectInst : run truth (encodeInst rejectInst) 255 0 = some false := by
  have hinsts : [rejectInst] = [] ++ rejectInst :: [] := rfl
  have hstep := run_step truth hinsts length_nil (by decide) 254
  rw [flatMap_singleton] at hstep
  rw [hstep]
  change run truth _ 254 (if rejectInst.holds truth then resultReject.toNat else resultReject.toNat) = _
  rw [ite_self]
  exact run_reject truth _ _

def accepts (f : Filter) (truth : Fin 2048 → Fin 32 → Arg → Bool) : Bool :=
  f.total ≠ 0 && f.insts.all (fun inst => inst.holds truth) &&
    (f.anyInsts.isEmpty || f.anyInsts.any fun inst => inst.holds truth)

/-- The program of a filter ends, and accepts what the filter says; its instructions decode to what was encoded. -/
theorem filter_means (f : Filter) (prog : Bytes) (flags : UInt64) (h : f.encode = .ok (prog, flags)) :
    (∀ truth, run truth prog 255 0 = some (f.accepts truth)) ∧
      ∀ pre inst post, (if f.total = 0 then [rejectInst] else f.program) = pre ++ inst :: post →
        decodeInst (prog.drop (24 * pre.length)) = inst := by
  have hprog : prog = (if f.total = 0 then [rejectInst] else f.program).flatMap encodeInst := by
    unfold encode at h
    split_ifs at h with hzero hlong
    · cases h
      rw [if_pos hzero, flatMap_singleton]
    · cases h
      rw [if_neg hzero]
  refine ⟨fun truth => ?_, fun pre inst post hcode => ?_⟩
  · unfold encode at h
    split_ifs at h with hzero hlong
    · cases h
      rw [run_rejectInst truth, accepts, hzero]
      rfl
    · cases h
      have hsome : f.insts ≠ [] ∨ f.anyInsts ≠ [] := by
        rw [← not_and_or]
        rintro ⟨h1, h2⟩
        simp [total, h1, h2] at hzero
      have hfuel : f.insts.length + f.anyInsts.length ≤ 255 := Nat.le_of_not_lt hlong
      have hrun := run_all truth hfuel (nil_append f.insts).symm hsome hfuel
      rw [length_nil] at hrun
      rw [hrun, accepts]
      simp [hzero]
  · rw [hprog, hcode, drop_encode]
    exact decodeInst_encode inst _

theorem filter_means_alternatives :
    let f : Filter := { insts := [{ field := 1, test := 0, arg := (1, 0, 0, 0) }], anyInsts :=
      [{ field := 22, test := 0, arg := (7, 0xFFFF, 0, 0) }, { field := 22, test := 0, arg := (9, 0xFFFF, 0, 0) }] }
    ∃ prog, f.encode = .ok (prog, 0) ∧ run (fun field _ arg => field = 1 || arg.1 = 9) prog 255 0 = some true := by
  intro f
  refine ⟨_, rfl, ?_⟩
  rw [(filter_means f _ 0 rfl).1]
  decide

end Filter

end EtonifyCore.WinDivert
