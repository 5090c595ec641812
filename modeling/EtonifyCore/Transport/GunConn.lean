/-
The frames of the light gRPC transport (`transport/v2raygrpclite/conn.go`): a zero byte, four bytes that the peer skips, the
byte `0x0A`, the length of the payload as a varint, and the payload.

Model: the reader is the list of the pieces in which the stream comes; a buffered reader hands out a part of one piece at a
time. `WriteBuffer` puts the header in front of the data of its buffer; the bytes are those of `Write`
(`writeBuffer_eq_write`). Left out: the wait for `create`.
-/
import Mathlib.Tactic
import EtonifyCore.Core.Reader

namespace EtonifyCore.GunConn

open List Core.Reader

abbrev Pieces := List (List UInt8)

inductive ReadErr
  | eof
  | unexpectedEOF
  | overflow
  deriving DecidableEq

/-! ## Writing -/

def putUvarint (x : ℕ) : List UInt8 :=
  if x < 128 then [UInt8.ofNat x] else UInt8.ofNat (x % 128 + 128) :: putUvarint (x / 128)

def putUint32 (x : ℕ) : List UInt8 := [24, 16, 8, 0].map fun s => UInt8.ofNat (x >>> s)

def write (b : List UInt8) : List UInt8 :=
  let header := putUvarint b.length
  0x00 :: putUint32 (1 + header.length + b.length) ++ 0x0A :: header ++ b

def writeBuffer (buffer : List UInt8) : List UInt8 :=
  let dataLen := buffer.length
  let varLen := (putUvarint dataLen).length
  let header := [0x00] ++ putUint32 (1 + varLen + dataLen) ++ [0x0A] ++ putUvarint dataLen
  header ++ buffer

theorem writeBuffer_eq_write (b : List UInt8) : writeBuffer b = write b := by
  simp [writeBuffer, write]

/-! ## Reading -/

def readSome (n : ℕ) (pieces : Pieces) : Except ReadErr (List UInt8 × Pieces) :=
  if n = 0 then .ok ([], pieces)
  else
    match pieces with
    | [] => .error .eof
    | p :: ps => .ok (p.take n, if p.length ≤ n then ps else p.drop n :: ps)

/-- `binary.ReadUvarint` with `k` bytes to go; the bits of `x` are below `s` -/
def readUvarint : ℕ → ℕ → ℕ → Pieces → Except ReadErr (ℕ × Pieces)
  | 0, _, _, _ => .error .overflow
  | k + 1, s, x, pieces =>
    match fullFrom 1 pieces with
    | some (b :: _, pieces) =>
      if b < 0x80 then if k = 0 ∧ 1 < b then .error .overflow else .ok (x + b.toNat * 2 ^ s, pieces)
      else readUvarint k (s + 7) (x + b.toNat % 128 * 2 ^ s) pieces
    | _ => .error (if 0 < s then .unexpectedEOF else .eof)

structure Conn where
  reader : Pieces
  readRemaining : ℕ := 0

def Conn.readPayload (c : Conn) (n : ℕ) : Except ReadErr (List UInt8 × Conn) := do
  let (data, reader) ← readSome (min n c.readRemaining) c.reader
  return (data, ⟨reader, c.readRemaining - data.length⟩)

def Conn.read (c : Conn) (n : ℕ) : Except ReadErr (List UInt8 × Conn) :=
  if 0 < c.readRemaining then c.readPayload n
  else
    match fullFrom 6 c.reader with
    | none => .error .eof
    | some (_, reader) => do
      let (dataLen, reader) ← readUvarint 10 0 0 reader
      Conn.readPayload ⟨reader, dataLen⟩ n

/-- reads until one fails: what they return, and the error -/
def Conn.reads (c : Conn) : List ℕ → List UInt8 × Option ReadErr
  | [] => ([], none)
  | n :: sizes =>
    match c.read n with
    | .error err => ([], some err)
    | .ok (data, c) => (data ++ (c.reads sizes).1, (c.reads sizes).2)

/-! ## Pieces -/

def Holds (pieces : Pieces) (bytes : List UInt8) : Prop := pieces.flatten = bytes ∧ ∀ p ∈ pieces, p ≠ []

theorem fullFrom_ne_nil {n : ℕ} {pieces pieces' : Pieces} {xs : List UInt8} (h : ∀ p ∈ pieces, p ≠ [])
    (hfull : fullFrom n pieces = some (xs, pieces')) : ∀ p ∈ pieces', p ≠ [] := by
  induction pieces generalizing n xs with
  | nil =>
    cases n with
    | zero => cases hfull; exact h
    | succ n => cases hfull
  | cons p ps ih =>
    obtain ⟨hp, hps⟩ := forall_mem_cons.1 h
    cases n with
    | zero => cases hfull; exact h
    | succ n =>
      rw [fullFrom] at hfull
      split_ifs at hfull with hle
      · obtain ⟨⟨ys, rest⟩, hrest, heq⟩ := Option.map_eq_some_iff.1 hfull
        cases heq
        exact ih hps hrest
      · cases hfull
        refine forall_mem_cons.2 ⟨?_, hps⟩
        rw [Ne, drop_eq_nil_iff]
        exact hle

theorem fullFrom_append {pieces : Pieces} {a b : List UInt8} (h : Holds pieces (a ++ b)) :
    ∃ pieces', fullFrom a.length pieces = some (a, pieces') ∧ Holds pieces' b := by
  obtain ⟨pieces', hfull, hrest⟩ := fullFrom_eq (show a.length ≤ pieces.flatten.length by simp [h.1])
  rw [h.1, take_left] at hfull
  rw [h.1, drop_left] at hrest
  exact ⟨pieces', hfull, hrest, fullFrom_ne_nil h.2 hfull⟩

theorem readSome_append {n : ℕ} {pieces : Pieces} {a b : List UInt8} (h : Holds pieces (a ++ b)) (hn : n ≤ a.length) :
    ∃ got left pieces', readSome n pieces = .ok (got, pieces') ∧ a = got ++ left ∧ Holds pieces' (left ++ b) ∧
      (0 < n → got ≠ []) := by
  obtain ⟨hflat, hne⟩ := h
  rcases Nat.eq_zero_or_pos n with rfl | hpos
  · exact ⟨[], a, pieces, rfl, rfl, ⟨hflat, hne⟩, nofun⟩
  cases pieces with
  | nil =>
    have hlen := congrArg length hflat
    simp at hlen
    omega
  | cons p ps =>
    obtain ⟨hp, hps⟩ := forall_mem_cons.1 hne
    have hpre : p.take n <+: a := by
      refine prefix_of_prefix_length_le ?_ (prefix_append a b) ((length_take_le n p).trans hn)
      rw [← hflat, flatten_cons]
      exact ( take_prefix n p).trans (prefix_append p _)
    obtain ⟨left, rfl⟩ := hpre
    have hdrop : p.drop n ++ ps.flatten = left ++ b := by
      have hsplit : p.take n ++ (p.drop n ++ ps.flatten) = p.take n ++ (left ++ b) := by
        rw [← append_assoc, take_append_drop, ← append_assoc]
        exact hflat
      exact append_cancel_left hsplit
    refine ⟨p.take n, left, _, by rw [readSome, if_neg hpos.ne'], rfl, ?_, fun _ => ?_⟩
    · split_ifs with hle
      · rw [drop_of_length_le hle] at hdrop
        exact ⟨hdrop, hps⟩
      · refine ⟨hdrop, forall_mem_cons.2 ⟨?_, hps⟩⟩
        rw [Ne, drop_eq_nil_iff]
        exact hle
    · rw [Ne, take_eq_nil_iff]
      simp [hp, hpos.ne']

/-! ## The length -/

theorem readUvarint_put {k s x n : ℕ} {pieces : Pieces} {rest : List UInt8} (hk : 7 * (k + 1) + s = 70)
    (hn : n * 2 ^ s < 2 ^ 64) (h : Holds pieces (putUvarint n ++ rest)) :
    ∃ pieces', readUvarint (k + 1) s x pieces = .ok (x + n * 2 ^ s, pieces') ∧ Holds pieces' rest := by
  induction k generalizing s x n pieces with
  | zero =>
    -- the tenth byte has one bit left
    obtain rfl : s = 63 := by omega
    have hlt : n < 2 := by omega
    rw [putUvarint, if_pos (by omega)] at h
    obtain ⟨pieces', (hfull : fullFrom 1 _ = _), hrest⟩ := fullFrom_append h
    refine ⟨pieces', ?_, hrest⟩
    rw [readUvarint, hfull]
    interval_cases n <;> rfl
  | succ k ih =>
    unfold putUvarint at h
    by_cases hlt : n < 128
    · rw [if_pos hlt] at h
      obtain ⟨pieces', (hfull : fullFrom 1 _ = _), hrest⟩ := fullFrom_append h
      refine ⟨pieces', ?_, hrest⟩
      have hb : (UInt8.ofNat n).toNat = n := by simp; omega
      have hsmall : UInt8.ofNat n < 0x80 := by rw [UInt8.lt_iff_toNat_lt, hb]; exact hlt
      rw [readUvarint, hfull]
      simp only [if_pos hsmall, hb, Nat.succ_ne_zero, false_and, if_false]
    · rw [if_neg hlt] at h
      obtain ⟨pieces', (hfull : fullFrom 1 _ = _), hrest⟩ := fullFrom_append (a := [_]) h
      have hb : (UInt8.ofNat (n % 128 + 128)).toNat = n % 128 + 128 := by simp; omega
      have hbig : ¬UInt8.ofNat (n % 128 + 128) < 0x80 := by rw [UInt8.lt_iff_toNat_lt, hb]; simp
      have hpow : 2 ^ (s + 7) = 128 * 2 ^ s := by rw [pow_add, mul_comm]; rfl
      have hsplit : n * 2 ^ s = n % 128 * 2 ^ s + n / 128 * (128 * 2 ^ s) := by
        rw [← mul_assoc, ← add_mul, mul_comm (n / 128), Nat.mod_add_div]
      obtain ⟨pieces'', hread, hrest⟩ := ih (s := s + 7) (x := x + n % 128 * 2 ^ s) (by omega)
        (by rw [hpow]; omega) hrest
      refine ⟨pieces'', ?_, hrest⟩
      rw [readUvarint, hfull]
      simp only [if_neg hbig, hb, Nat.add_mod_right, Nat.mod_mod]
      rw [hread, hpow, hsplit, add_assoc]

/-! ## The frames -/

/-- the stream still has `cur` of the frame that is being read, and then these payloads -/
structure Conn.Stands (c : Conn) (cur : List UInt8) (payloads : List (List UInt8)) : Prop where
  stream : Holds c.reader (cur ++ payloads.flatMap write)
  remaining : c.readRemaining = cur.length

variable {c : Conn} {cur : List UInt8} {payloads : List (List UInt8)}

theorem Conn.Stands.readPayload (h : c.Stands cur payloads) (n : ℕ) :
    ∃ got left c', c.readPayload n = .ok (got, c') ∧ cur = got ++ left ∧ c'.Stands left payloads ∧
      (0 < n → cur ≠ [] → got ≠ []) := by
  obtain ⟨got, left, reader, hread, rfl, hleft, hgot⟩ := readSome_append h.stream (n := min n cur.length) (by omega)
  refine ⟨got, left, ⟨reader, left.length⟩, ?_, rfl, ⟨hleft, rfl⟩, fun hn hcur => hgot ?_⟩
  · rw [Conn.readPayload, h.remaining, hread]
    simp [bind, Except.bind, pure, Except.pure]
  · have := length_pos_iff.2 hcur
    omega

def toRead (cur : List UInt8) (payloads : List (List UInt8)) : ℕ := (cur ++ payloads.flatten).length + payloads.length

theorem Conn.Stands.read (h : c.Stands cur payloads) (hsmall : ∀ b ∈ payloads, b.length < 2 ^ 63) (n : ℕ) :
    (cur = [] ∧ payloads = [] ∧ c.read n = .error .eof) ∨
      ∃ got c' cur' payloads', c.read n = .ok (got, c') ∧ c'.Stands cur' payloads' ∧ payloads' ⊆ payloads ∧
        cur ++ payloads.flatten = got ++ (cur' ++ payloads'.flatten) ∧
        (0 < n → toRead cur' payloads' < toRead cur payloads) := by
  by_cases hcur : cur = []
  · subst hcur
    have hzero : ¬0 < c.readRemaining := by rw [h.remaining]; exact Nat.lt_irrefl 0
    rw [Conn.read, if_neg hzero]
    cases payloads with
    | nil =>
      have hend : c.reader = [] := by
        refine eq_nil_iff_forall_not_mem.2 fun p hp => h.stream.2 p hp ?_
        exact flatten_eq_nil_iff.1 h.stream.1 p hp
      exact .inl ⟨rfl, rfl, by rw [hend]; rfl⟩
    | cons b payloads =>
      right
      -- six bytes, the length, and then the payload is what is being read
      have hstream : Holds c.reader ((0x00 :: putUint32 (1 + (putUvarint b.length).length + b.length) ++ [0x0A]) ++
          (putUvarint b.length ++ (b ++ payloads.flatMap write))) := by
        have hs := h.stream
        simpa [write] using hs
      obtain ⟨reader, (hskip : fullFrom 6 _ = _), hreader⟩ := fullFrom_append hstream
      have hb := hsmall b mem_cons_self
      obtain ⟨reader', hlen, hreader'⟩ := readUvarint_put (k := 9) (s := 0) (x := 0) rfl (by omega) hreader
      have hstands : Conn.Stands ⟨reader', b.length⟩ b payloads := ⟨hreader', rfl⟩
      obtain ⟨got, left, c', hread, rfl, hleft, -⟩ := hstands.readPayload n
      refine ⟨got, c', left, payloads, ?_, hleft, subset_cons_self _ _, by simp, fun _ => ?_⟩
      · simp only [zero_add, pow_zero, mul_one] at hlen
        rw [hskip]
        simp only [hlen, bind, Except.bind]
        exact hread
      · simp only [toRead, nil_append, flatten_cons, length_append, length_cons]
        omega
  · have hpos : 0 < c.readRemaining := by rw [h.remaining]; exact length_pos_iff.2 hcur
    obtain ⟨got, left, c', hread, rfl, hleft, hgot⟩ := h.readPayload n
    refine .inr ⟨got, c', left, payloads, ?_, hleft, Subset.refl _, append_assoc _ _ _, fun hn => ?_⟩
    · rw [Conn.read, if_pos hpos, hread]
    · have := length_pos_iff.2 (hgot hn hcur)
      simp only [toRead, length_append]
      omega

theorem Conn.Stands.reads (h : c.Stands cur payloads) (hsmall : ∀ b ∈ payloads, b.length < 2 ^ 63) (sizes : List ℕ) :
    (c.reads sizes).1 <+: cur ++ payloads.flatten ∧
      ((c.reads sizes).2 = none ∨ (c.reads sizes).2 = some .eof ∧ (c.reads sizes).1 = cur ++ payloads.flatten) ∧
      ((∀ n ∈ sizes, 0 < n) → toRead cur payloads < sizes.length → (c.reads sizes).2 = some .eof) := by
  induction sizes generalizing c cur payloads with
  | nil => exact ⟨ nil_prefix, .inl rfl, fun _ hlen => absurd hlen (Nat.not_lt_zero _)⟩
  | cons n sizes ih =>
    rcases h.read hsmall n with ⟨rfl, rfl, hread⟩ | ⟨got, c', cur', payloads', hread, hstands, hsub, heq, hless⟩
    · rw [Conn.reads, hread]
      exact ⟨ nil_prefix, .inr ⟨rfl, rfl⟩, fun _ _ => rfl⟩
    · obtain ⟨hpre, herr, hall⟩ := ih hstands fun b hb => hsmall b (hsub hb)
      rw [Conn.reads, hread, heq]
      refine ⟨(prefix_append_right_inj got).2 hpre, ?_, fun hpos hlen => hall (fun m hm => hpos m (mem_cons_of_mem n hm)) ?_⟩
      · rcases herr with herr | ⟨herr, hdata⟩
        · exact .inl herr
        · exact .inr ⟨herr, congrArg (got ++ ·) hdata⟩
      · have := hless (hpos n mem_cons_self)
        rw [length_cons] at hlen
        omega

end EtonifyCore.GunConn
