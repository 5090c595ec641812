/-
The encrypted record layer of VLESS: `CommonConn.Write` and `CommonConn.Read`.

A payload is cut into chunks, each sealed as one record. The nonce goes up before each record; the record that is sealed when
the nonce is at its maximum gives the context of the next key, on both sides.

Premises: opening what was sealed with the same key, nonce and additional data returns it, and a sealed text is 16 bytes
longer (`Cipher.Lawful`). Left out: the mask of the connection below (`xorConn`), tickets, and the text of errors.
-/
import Mathlib.Tactic.NormNum
import EtonifyCore.Core.Bytes
import EtonifyCore.Core.Reader

namespace EtonifyCore.VLESS

open List
open Core

/-- an AEAD with keys of type `K`, and the derivation of its keys -/
structure Cipher (K : Type) where
  sealBytes : K → Bytes → Bytes → Bytes → Bytes
  openBytes : K → Bytes → Bytes → Bytes → Option Bytes
  deriveKey : Bytes → Bytes → Bool → K

structure Cipher.Lawful {K : Type} (cipher : Cipher K) : Prop where
  opens : ∀ key nonce plaintext additionalData,
    cipher.openBytes key nonce (cipher.sealBytes key nonce plaintext additionalData) additionalData = some plaintext
  overhead : ∀ key nonce plaintext additionalData,
    (cipher.sealBytes key nonce plaintext additionalData).length = plaintext.length + 16

/-! ## Nonces -/

def increaseFrom : Bytes → Bytes
  | [] => []
  | b :: bs => if b + 1 ≠ 0 then (b + 1) :: bs else (b + 1) :: increaseFrom bs

def increaseNonce (nonce : Bytes) : Bytes := (increaseFrom nonce.reverse).reverse

def maximumNonce : Bytes := List.replicate 12 0xff

def counter : Bytes → ℕ
  | [] => 0
  | b :: bs => b.toNat + 256 * counter bs

theorem counter_lt (bs : Bytes) : counter bs < 256 ^ bs.length := by
  induction bs with
  | nil => exact Nat.one_pos
  | cons b bs ih =>
    have hb : b.toNat < 256 := b.toNat_lt
    rw [counter, length_cons, Nat.pow_succ]
    omega

theorem counter_increaseFrom (bs : Bytes) : counter (increaseFrom bs) = (counter bs + 1) % 256 ^ bs.length := by
  induction bs with
  | nil => simp [increaseFrom, counter]
  | cons b bs ih =>
    have hb : b.toNat < 256 := b.toNat_lt
    have hbs := counter_lt bs
    have hnext : (b + 1).toNat = (b.toNat + 1) % 256 := by rw [UInt8.toNat_add]; rfl
    have hzero : b + 1 = 0 ↔ b.toNat = 255 := by
      rw [← UInt8.toNat_inj, hnext, UInt8.toNat_zero]
      omega
    unfold increaseFrom
    split_ifs with h
    · -- no carry
      have hsmall : b.toNat + 1 < 256 := by
        have := mt hzero.2 h
        omega
      rw [counter, counter, hnext, Nat.mod_eq_of_lt hsmall, length_cons, Nat.pow_succ, Nat.mod_eq_of_lt (by omega)]
      omega
    · have hlast := hzero.1 (not_not.1 h)
      have hcarry : counter (b :: bs) + 1 = 256 * (counter bs + 1) := by rw [counter, hlast]; omega
      rw [counter, ih, hnext, hlast, hcarry, length_cons, Nat.pow_succ', Nat.mul_mod_mul_left]
      omega

/-- **The nonce is a counter.** Each record raises it by one, and it starts over behind its maximum. -/
theorem nonce_increaseNonce (nonce : Bytes) (hlength : nonce.length = 12) :
    counter (increaseNonce nonce).reverse = (counter nonce.reverse + 1) % 2 ^ 96 := by
  rw [increaseNonce, reverse_reverse, counter_increaseFrom, length_reverse, hlength]
  norm_num

structure AEADState (K : Type) where
  key : K
  nonce : Bytes
deriving DecidableEq, Repr

variable {K : Type} (cipher : Cipher K)

def newAEAD (contextBytes unitedKey : Bytes) (useAES : Bool) : AEADState K :=
  ⟨cipher.deriveKey contextBytes unitedKey useAES, List.replicate 12 0⟩

/-! ## Headers -/

def encodeHeader (length : ℕ) : Bytes := [23, 3, 3] ++ putUint16 length

def decodeHeader (header : Bytes) : Option ℕ :=
  if header.length < 5 then none
  else
    let length := uint16 header 3
    if byte header 0 ≠ 23 ∨ byte header 1 ≠ 3 ∨ byte header 2 ≠ 3 ∨ length < 17 ∨ length > 16384 + 256 then none
    else some length

/-! ## Writing -/

structure WriteConn (K : Type) where
  useAES : Bool
  unitedKey : Bytes
  preWrite : Bytes
  aead : AEADState K
  opening : preWrite ≠ [] → aead.nonce ≠ maximumNonce

/-- one round of the loop of `Write`; `none` is an unexpected length of the sealed record -/
def writeChunk (c : WriteConn K) (chunk : Bytes) : Option (WriteConn K × Bytes) :=
  let header := encodeHeader (chunk.length + 16)
  let nonce := increaseNonce c.aead.nonce
  let sealed := cipher.sealBytes c.aead.key nonce chunk header
  let output := c.preWrite ++ header ++ sealed
  if sealed.length ≠ chunk.length + 16 then none
  else
    let aead :=
      if c.aead.nonce = maximumNonce then newAEAD cipher output c.unitedKey c.useAES else { c.aead with nonce }
    some ({ c with preWrite := [], aead, opening := fun h => absurd rfl h }, output)

def write (c : WriteConn K) (payload : Bytes) : Option (WriteConn K × Bytes) :=
  if _h : payload = [] then some (c, [])
  else
    match writeChunk cipher c (payload.take 8192) with
    | none => none
    | some (c, output) => (write c (payload.drop 8192)).map fun (c, rest) => (c, output ++ rest)
termination_by payload.length
decreasing_by
  rw [List.length_drop]
  have := List.length_pos_iff.2 _h
  omega

def writes (c : WriteConn K) : List Bytes → Option (WriteConn K × Bytes)
  | [] => some (c, [])
  | payload :: payloads =>
    match write cipher c payload with
    | none => none
    | some (c, output) => (writes c payloads).map fun (c, rest) => (c, output ++ rest)

/-! ## Reading -/

structure ReadConn (K : Type) where
  useAES : Bool
  unitedKey : Bytes
  peerAEAD : Option (AEADState K)
  /-- the length of the padding that is still to be read -/
  peerPadding : Option ℕ
  input : Bytes

def readRandom (c : ReadConn K) (conn : Reader UInt8) : Option (AEADState K × ReadConn K × Reader UInt8) :=
  match c.peerAEAD with
  | some aead => some (aead, c, conn)
  | none =>
    (conn.readFull 16).map fun (serverRandom, conn) =>
      let aead := newAEAD cipher serverRandom c.unitedKey c.useAES
      (aead, { c with peerAEAD := some aead }, conn)

def readPadding (aead : AEADState K) (c : ReadConn K) (conn : Reader UInt8) :
    Option (AEADState K × ReadConn K × Reader UInt8) :=
  match c.peerPadding with
  | none => some (aead, c, conn)
  | some length =>
    match conn.readFull length with
    | none => none
    | some (padding, conn) =>
      let aead := { aead with nonce := increaseNonce aead.nonce }
      (cipher.openBytes aead.key aead.nonce padding []).map fun _ =>
        (aead, { c with peerAEAD := some aead, peerPadding := none }, conn)

def readRecord (aead : AEADState K) (c : ReadConn K) (conn : Reader UInt8) : Option (Bytes × AEADState K × Reader UInt8) :=
  match conn.readFull 5 with
  | none => none
  | some (peerHeader, conn) =>
    match decodeHeader peerHeader with
    | none => none
    | some recordLength =>
      match conn.readFull recordLength with
      | none => none
      | some (peerData, conn) =>
        let nonce := increaseNonce aead.nonce
        (cipher.openBytes aead.key nonce peerData peerHeader).map fun plaintext =>
          let next :=
            if aead.nonce = maximumNonce then newAEAD cipher (peerHeader ++ peerData) c.unitedKey c.useAES
            else { aead with nonce }
          (plaintext, next, conn)

/-- `Read` into a buffer of a size; `none` is an error -/
def read (c : ReadConn K) (conn : Reader UInt8) (size : ℕ) : Option (Bytes × ReadConn K × Reader UInt8) :=
  if size = 0 then some ([], c, conn)
  else
    match readRandom cipher c conn with
    | none => none
    | some (aead, c, conn) =>
      match readPadding cipher aead c conn with
      | none => none
      | some (aead, c, conn) =>
        if c.input ≠ [] then some (c.input.take size, { c with input := c.input.drop size }, conn)
        else
          (readRecord cipher aead c conn).map fun (plaintext, aead, conn) =>
            (plaintext.take size, { c with peerAEAD := some aead, input := plaintext.drop size }, conn)

/-- successive reads into buffers of the given sizes, up to the first error: what they return, and the connection -/
def reads (c : ReadConn K) (conn : Reader UInt8) : List ℕ → Bytes × ReadConn K × Bool
  | [] => ([], c, false)
  | size :: sizes =>
    match read cipher c conn size with
    | none => ([], c, true)
    | some (data, c, conn) =>
      let (rest, c, failed) := reads c conn sizes
      (data ++ rest, c, failed)

/-! ## Records -/

def chunks (payload : Bytes) : List Bytes :=
  if _h : payload = [] then [] else payload.take 8192 :: chunks (payload.drop 8192)
termination_by payload.length
decreasing_by
  rw [List.length_drop]
  have := List.length_pos_iff.2 _h
  omega

theorem chunks_nil : chunks [] = [] := by
  rw [chunks]
  rfl

theorem chunks_cons {payload : Bytes} (h : payload ≠ []) :
    chunks payload = payload.take 8192 :: chunks (payload.drop 8192) := by
  rw [chunks, dif_neg h]

theorem chunks_induction {motive : Bytes → Prop} (hnil : motive [])
    (hcons : ∀ payload, payload ≠ [] → motive (payload.drop 8192) → motive payload) (payload : Bytes) : motive payload := by
  induction hlength : payload.length using Nat.strong_induction_on generalizing payload with
  | _ n ih =>
    by_cases h : payload = []
    · rwa [h]
    · refine hcons payload h (ih _ ?_ (payload.drop 8192) rfl)
      rw [length_drop]
      have := length_pos_iff.2 h
      omega

theorem chunks_flatten (payload : Bytes) : (chunks payload).flatten = payload := by
  induction payload using chunks_induction with
  | hnil => rw [chunks_nil, flatten_nil]
  | hcons payload h ih => rw [chunks_cons h, flatten_cons, ih, take_append_drop]

theorem flatten_flatMap_chunks (payloads : List Bytes) : (payloads.flatMap chunks).flatten = payloads.flatten := by
  induction payloads with
  | nil => rfl
  | cons payload payloads ih =>
    rw [flatMap_cons, flatten_append, chunks_flatten, ih, flatten_cons]

def Sealable (chunk : Bytes) : Prop := chunk ≠ [] ∧ chunk.length ≤ 8192

theorem sealable_of_mem_chunks (payload : Bytes) : ∀ chunk ∈ chunks payload, Sealable chunk := by
  induction payload using chunks_induction with
  | hnil =>
    rw [chunks_nil]
    nofun
  | hcons payload h ih =>
    rw [chunks_cons h]
    intro chunk hmem
    rcases mem_cons.1 hmem with rfl | hmem
    · refine ⟨fun hempty => h ?_, length_take_le _ _⟩
      exact (take_eq_nil_iff.1 hempty).resolve_left (by decide)
    · exact ih chunk hmem

section

variable (unitedKey : Bytes) (useAES : Bool)

def recordOf (a : AEADState K) (chunk : Bytes) : Bytes :=
  encodeHeader (chunk.length + 16) ++
    cipher.sealBytes a.key (increaseNonce a.nonce) chunk (encodeHeader (chunk.length + 16))

def nextAEAD (a : AEADState K) (chunk : Bytes) : AEADState K :=
  if a.nonce = maximumNonce then newAEAD cipher (recordOf cipher a chunk) unitedKey useAES
  else { a with nonce := increaseNonce a.nonce }

def aeadAfter (a : AEADState K) (chunks : List Bytes) : AEADState K := chunks.foldl (nextAEAD cipher unitedKey useAES) a

def stream (a : AEADState K) : List Bytes → Bytes
  | [] => []
  | chunk :: chunks => recordOf cipher a chunk ++ stream (nextAEAD cipher unitedKey useAES a chunk) chunks

theorem aeadAfter_append (a : AEADState K) (xs ys : List Bytes) : aeadAfter cipher unitedKey useAES a (xs ++ ys) =
    aeadAfter cipher unitedKey useAES (aeadAfter cipher unitedKey useAES a xs) ys := foldl_append

theorem stream_append (a : AEADState K) (xs ys : List Bytes) : stream cipher unitedKey useAES a (xs ++ ys) =
    stream cipher unitedKey useAES a xs ++
      stream cipher unitedKey useAES (aeadAfter cipher unitedKey useAES a xs) ys := by
  induction xs generalizing a with
  | nil => rfl
  | cons x xs ih =>
    rw [cons_append, stream, ih, stream, append_assoc]
    rfl

end

/-! ## What is written -/

section

variable {cipher} (hcipher : cipher.Lawful)

include hcipher

theorem writeChunk_eq (c : WriteConn K) (chunk : Bytes) :
    ∃ c', writeChunk cipher c chunk = some (c', c.preWrite ++ recordOf cipher c.aead chunk) ∧ c'.preWrite = [] ∧
      c'.aead = nextAEAD cipher c.unitedKey c.useAES c.aead chunk ∧ c'.unitedKey = c.unitedKey ∧ c'.useAES = c.useAES := by
  have hlength := hcipher.overhead c.aead.key (increaseNonce c.aead.nonce) chunk (encodeHeader (chunk.length + 16))
  unfold writeChunk
  rw [if_neg (not_not.2 hlength)]
  refine ⟨_, congrArg some (Prod.ext rfl (append_assoc _ _ _)), rfl, ?_, rfl, rfl⟩
  unfold nextAEAD
  dsimp only
  split_ifs with hmax
  · have hpre : c.preWrite = [] := by_contra fun h => c.opening h hmax
    rw [hpre]
    rfl
  · rfl

theorem write_eq (c : WriteConn K) (payload : Bytes) :
    ∃ c', write cipher c payload = some (c', (if payload = [] then [] else c.preWrite) ++
        stream cipher c.unitedKey c.useAES c.aead (chunks payload)) ∧
      c'.preWrite = (if payload = [] then c.preWrite else []) ∧
      c'.aead = aeadAfter cipher c.unitedKey c.useAES c.aead (chunks payload) ∧
      c'.unitedKey = c.unitedKey ∧ c'.useAES = c.useAES := by
  induction payload using chunks_induction generalizing c with
  | hnil =>
    refine ⟨c, ?_, rfl, ?_, rfl, rfl⟩
    · rw [write, dif_pos rfl, chunks_nil]
      rfl
    · rw [chunks_nil]
      rfl
  | hcons payload h ih =>
    obtain ⟨c₁, hchunk, hpre, haead, hkey, haes⟩ := writeChunk_eq hcipher c (payload.take 8192)
    obtain ⟨c₂, hwrite, hpre₂, haead₂, hkey₂, haes₂⟩ := ih c₁
    rw [hpre, ite_self] at hwrite hpre₂
    rw [hkey, haes, haead] at hwrite haead₂
    refine ⟨c₂, ?_, ?_, ?_, hkey₂.trans hkey, haes₂.trans haes⟩
    · rw [write, dif_neg h, hchunk]
      dsimp only
      rw [hwrite, if_neg h, chunks_cons h, stream, ← append_assoc]
      rfl
    · rw [hpre₂, if_neg h]
    · rw [haead₂, chunks_cons h]
      rfl

theorem writes_eq (c : WriteConn K) (payloads : List Bytes) :
    ∃ c', writes cipher c payloads = some (c', (if payloads.flatten = [] then [] else c.preWrite) ++
        stream cipher c.unitedKey c.useAES c.aead (payloads.flatMap chunks)) ∧
      c'.aead = aeadAfter cipher c.unitedKey c.useAES c.aead (payloads.flatMap chunks) := by
  induction payloads generalizing c with
  | nil => exact ⟨c, rfl, rfl⟩
  | cons payload payloads ih =>
    obtain ⟨c₁, hwrite, hpre, haead, hkey, haes⟩ := write_eq hcipher c payload
    obtain ⟨c₂, hwrites, haead₂⟩ := ih c₁
    rw [hkey, haes, haead, hpre] at hwrites
    rw [hkey, haes, haead] at haead₂
    refine ⟨c₂, ?_, ?_⟩
    · rw [writes, hwrite]
      dsimp only
      rw [hwrites, flatMap_cons, stream_append, flatten_cons]
      by_cases h : payload = []
      · simp [h, chunks_nil, stream, aeadAfter]
      · simp [h]
    · rw [haead₂, flatMap_cons, aeadAfter_append]

end

/-! ## What is read -/

/-- the reader is in step with the records that are still to come -/
structure Synced (c : ReadConn K) (conn : Reader UInt8) (a : AEADState K) (chunks : List Bytes) : Prop where
  aead : c.peerAEAD = some a
  padding : c.peerPadding = none
  rest : conn.contents = stream cipher c.unitedKey c.useAES a chunks

theorem decodeHeader_encodeHeader {length : ℕ} (hmin : 17 ≤ length) (hmax : length ≤ 16384 + 256) :
    decodeHeader (encodeHeader length) = some length := by
  have huint : uint16 (encodeHeader length) 3 = length := by
    change (UInt8.ofNat (length / 256)).toNat * 256 + (UInt8.ofNat length).toNat = _
    rw [putUint16_toNat, Nat.mod_eq_of_lt (by omega)]
  have hlong : ¬ (encodeHeader length).length < 5 := lt_irrefl 5
  unfold decodeHeader
  rw [if_neg hlong]
  rw [huint, if_neg]
  rintro (h | h | h | h | h)
  · exact h rfl
  · exact h rfl
  · exact h rfl
  · omega
  · omega

section

variable {cipher} (hcipher : cipher.Lawful)

include hcipher

variable {c : ReadConn K} {conn : Reader UInt8} {a : AEADState K}

theorem readRecord_eq {chunk rest : Bytes} (hchunk : Sealable chunk)
    (h : conn.contents = recordOf cipher a chunk ++ rest) :
    ∃ conn', readRecord cipher a c conn = some (chunk, nextAEAD cipher c.unitedKey c.useAES a chunk, conn') ∧
      conn'.contents = rest := by
  have hlength := hcipher.overhead a.key (increaseNonce a.nonce) chunk (encodeHeader (chunk.length + 16))
  have hpos := length_pos_iff.2 hchunk.1
  rw [recordOf, append_assoc] at h
  have hheader : (encodeHeader (chunk.length + 16)).length = 5 := rfl
  obtain ⟨conn₁, hread₁, hrest₁⟩ := Reader.readFull_eq (n := 5) (r := conn) (by rw [h, length_append]; omega)
  rw [h, take_left' hheader] at hread₁
  rw [h, drop_left' hheader] at hrest₁
  obtain ⟨conn₂, hread₂, hrest₂⟩ := Reader.readFull_eq (n := chunk.length + 16) (r := conn₁)
    (by rw [hrest₁, length_append]; omega)
  rw [hrest₁, take_left' hlength] at hread₂
  rw [hrest₁, drop_left' hlength] at hrest₂
  refine ⟨conn₂, ?_, hrest₂⟩
  unfold readRecord
  rw [hread₁]
  dsimp only
  rw [decodeHeader_encodeHeader (by omega) (by have := hchunk.2; omega)]
  dsimp only
  rw [hread₂]
  dsimp only
  rw [hcipher.opens]
  rfl

theorem read_synced {chunks : List Bytes} {size : ℕ}
    (hsynced : Synced cipher c conn a chunks) (hchunks : ∀ chunk ∈ chunks, Sealable chunk) (hsize : 0 < size) :
    (c.input ≠ [] ∧ read cipher c conn size = some (c.input.take size, { c with input := c.input.drop size }, conn)) ∨
    (c.input = [] ∧ chunks = [] ∧ read cipher c conn size = none) ∨
    (c.input = [] ∧ ∃ chunk rest conn', chunks = chunk :: rest ∧ read cipher c conn size =
        some (chunk.take size, { c with
          peerAEAD := some (nextAEAD cipher c.unitedKey c.useAES a chunk), input := chunk.drop size }, conn') ∧
      conn'.contents = stream cipher c.unitedKey c.useAES (nextAEAD cipher c.unitedKey c.useAES a chunk) rest) := by
  have hrandom : readRandom cipher c conn = some (a, c, conn) := by rw [readRandom, hsynced.aead]
  have hpadding : readPadding cipher a c conn = some (a, c, conn) := by rw [readPadding, hsynced.padding]
  have hread : read cipher c conn size =
      if c.input ≠ [] then some (c.input.take size, { c with input := c.input.drop size }, conn)
      else (readRecord cipher a c conn).map fun (plaintext, aead, conn) =>
        (plaintext.take size, { c with peerAEAD := some aead, input := plaintext.drop size }, conn) := by
    unfold read
    rw [if_neg (by omega), hrandom]
    dsimp only
    rw [hpadding]
  rw [hread]
  by_cases hinput : c.input = []
  · rw [if_neg (not_not.2 hinput)]
    cases chunks with
    | nil =>
      have hempty : conn.contents.length < 5 := by
        rw [hsynced.rest, stream, length_nil]
        omega
      refine .inr (.inl ⟨hinput, rfl, ?_⟩)
      rw [readRecord, Reader.readFull_none hempty]
      rfl
    | cons chunk rest =>
      obtain ⟨conn', hrecord, hrest⟩ := readRecord_eq hcipher (c := c) (hchunks chunk mem_cons_self) hsynced.rest
      refine .inr (.inr ⟨hinput, chunk, rest, conn', rfl, ?_, hrest⟩)
      rw [hrecord]
      rfl
  · exact .inl ⟨hinput, if_pos hinput⟩

theorem reads_synced {chunks : List Bytes}
    (hsynced : Synced cipher c conn a chunks) (hchunks : ∀ chunk ∈ chunks, Sealable chunk) (sizes : List ℕ) :
    ∃ taken left, chunks = taken ++ left ∧
      (reads cipher c conn sizes).2.1.peerAEAD = some (aeadAfter cipher c.unitedKey c.useAES a taken) ∧
      (reads cipher c conn sizes).1 ++ (reads cipher c conn sizes).2.1.input = c.input ++ taken.flatten ∧
      ((reads cipher c conn sizes).2.2 = true → (reads cipher c conn sizes).2.1.input = [] ∧ left = []) ∧
      ((reads cipher c conn sizes).2.2 = false →
        (sizes.filter (0 < ·)).length ≤ (reads cipher c conn sizes).1.length) := by
  induction sizes generalizing c conn a chunks with
  | nil => exact ⟨[], chunks, rfl, hsynced.aead, by simp [reads], nofun, fun _ => le_rfl⟩
  | cons size sizes ih =>
    rcases Nat.eq_zero_or_pos size with rfl | hsize
    · have hread : read cipher c conn 0 = some ([], c, conn) := by rw [read, if_pos rfl]
      obtain ⟨taken, left, hsplit, haead, hdata, hfailed, hcount⟩ := ih hsynced hchunks
      rw [reads, hread]
      exact ⟨taken, left, hsplit, haead, hdata, hfailed, hcount⟩
    · have hfilter : (size :: sizes).filter (0 < ·) = size :: sizes.filter (0 < ·) := by simp [hsize]
      rcases read_synced hcipher hsynced hchunks hsize with ⟨hinput, hread⟩ | ⟨hinput, rfl, hread⟩ |
        ⟨hinput, chunk, rest, conn', rfl, hread, hrest⟩
      · obtain ⟨taken, left, hsplit, haead, hdata, hfailed, hcount⟩ :=
          ih (c := { c with input := c.input.drop size }) ⟨hsynced.aead, hsynced.padding, hsynced.rest⟩ hchunks
        rw [reads, hread]
        refine ⟨taken, left, hsplit, haead, ?_, hfailed, fun h => ?_⟩
        · rw [append_assoc, hdata, ← append_assoc, take_append_drop]
        · have htaken : 0 < (c.input.take size).length := by
            rw [length_take]
            have := length_pos_iff.2 hinput
            omega
          rw [hfilter, length_cons, length_append]
          have := hcount h
          omega
      · rw [reads, hread]
        exact ⟨[], [], rfl, hsynced.aead, by simp, fun _ => ⟨hinput, rfl⟩, nofun⟩
      · have hchunk := hchunks chunk mem_cons_self
        obtain ⟨taken, left, hsplit, haead, hdata, hfailed, hcount⟩ := ih
          (c := { c with
            peerAEAD := some (nextAEAD cipher c.unitedKey c.useAES a chunk), input := chunk.drop size })
          ⟨rfl, hsynced.padding, hrest⟩ fun chunk hmem => hchunks chunk (mem_cons_of_mem _ hmem)
        rw [reads, hread]
        refine ⟨chunk :: taken, left, by rw [hsplit]; rfl, haead, ?_, hfailed, fun h => ?_⟩
        · rw [append_assoc, hdata, ← append_assoc, take_append_drop, hinput]
          rfl
        · have htaken : 0 < (chunk.take size).length := by
            rw [length_take]
            have := length_pos_iff.2 hchunk.1
            omega
          rw [hfilter, length_cons, length_append]
          have := hcount h
          omega

end

structure Matching (w : WriteConn K) (r : ReadConn K) : Prop where
  aead : r.peerAEAD = some w.aead
  unitedKey : r.unitedKey = w.unitedKey
  useAES : r.useAES = w.useAES
  padding : r.peerPadding = none
  input : r.input = []

/-- **The record layer is a faithful stream**, whatever the pieces of the stream and the sizes of the reads; an error comes
only behind the end, and the reader is always at the key and the nonce of the writer. -/
theorem recordLayer_faithful (hcipher : cipher.Lawful) (w : WriteConn K) (r : ReadConn K) (hmatch : Matching w r)
    (payloads : List Bytes) :
    ∃ w' output, writes cipher w payloads = some (w', output) ∧
      w'.aead = aeadAfter cipher w.unitedKey w.useAES w.aead (payloads.flatMap chunks) ∧
      ∀ conn : Reader UInt8, output = (if payloads.flatten = [] then [] else w.preWrite) ++ conn.contents → ∀ sizes,
        let (data, r', failed) := reads cipher r conn sizes
        data <+: payloads.flatten ∧
          (failed = true ∨ payloads.flatten.length ≤ (sizes.filter (0 < ·)).length → data = payloads.flatten) ∧
          ∃ taken left, payloads.flatMap chunks = taken ++ left ∧ data ++ r'.input = taken.flatten ∧
            r'.peerAEAD = some (aeadAfter cipher w.unitedKey w.useAES w.aead taken) := by
  obtain ⟨w', hwrites, haead⟩ := writes_eq hcipher w payloads
  refine ⟨w', _, hwrites, haead, fun conn hconn sizes => ?_⟩
  have hsealable : ∀ chunk ∈ payloads.flatMap chunks, Sealable chunk := by
    intro chunk hmem
    obtain ⟨payload, -, hchunk⟩ := mem_flatMap.1 hmem
    exact sealable_of_mem_chunks payload chunk hchunk
  have hsynced : Synced cipher r conn w.aead (payloads.flatMap chunks) := by
    refine ⟨hmatch.aead, hmatch.padding, ?_⟩
    rw [hmatch.unitedKey, hmatch.useAES]
    exact (append_cancel_left hconn).symm
  obtain ⟨taken, left, hsplit, hpeer, hdata, hfailed, hcount⟩ := reads_synced hcipher hsynced hsealable sizes
  rw [hmatch.input, nil_append] at hdata
  rw [hmatch.unitedKey, hmatch.useAES] at hpeer
  have htotal : taken.flatten ++ left.flatten = payloads.flatten := by
    rw [← flatten_append, ← hsplit, flatten_flatMap_chunks]
  rcases hreads : reads cipher r conn sizes with ⟨data, r', failed⟩
  rw [hreads] at hpeer hdata hfailed hcount
  have hwhole : data ++ (r'.input ++ left.flatten) = payloads.flatten := by
    rw [← append_assoc, hdata, htotal]
  refine ⟨⟨_, hwhole⟩, fun henough => ?_, taken, left, hsplit, hdata, hpeer⟩
  cases failed with
  | true =>
    obtain ⟨hinput, rfl⟩ := hfailed rfl
    rw [← hwhole, hinput]
    simp
  | false =>
    -- each read that asks for something has returned a byte, so all bytes have been returned
    have hlong : payloads.flatten.length ≤ data.length := (henough.resolve_left nofun).trans (hcount rfl)
    exact List.IsPrefix.eq_of_length_le ⟨_, hwhole⟩ hlong

/-! ### A cipher that only authenticates -/

def tagOf (key nonce additionalData : Bytes) : Bytes := (key ++ nonce ++ additionalData ++ List.replicate 16 0).take 16

def plainCipher : Cipher Bytes where
  sealBytes key nonce plaintext additionalData := plaintext ++ tagOf key nonce additionalData
  openBytes key nonce ciphertext additionalData :=
    let plaintext := ciphertext.take (ciphertext.length - 16)
    if ciphertext = plaintext ++ tagOf key nonce additionalData then some plaintext else none
  deriveKey contextBytes unitedKey _ := (contextBytes ++ unitedKey).take 4

theorem length_tagOf (key nonce additionalData : Bytes) : (tagOf key nonce additionalData).length = 16 := by
  rw [tagOf, length_take, length_append, length_replicate]
  omega

theorem plainCipher_lawful : plainCipher.Lawful where
  opens key nonce plaintext additionalData := by
    have htake : (plaintext ++ tagOf key nonce additionalData).take
        ((plaintext ++ tagOf key nonce additionalData).length - 16) = plaintext := by
      rw [length_append, length_tagOf, Nat.add_sub_cancel, take_left']
      rfl
    dsimp only [plainCipher]
    rw [htake, if_pos rfl]
  overhead key nonce plaintext additionalData := by
    change (plaintext ++ tagOf key nonce additionalData).length = _
    rw [length_append, length_tagOf]

def lastWriter : WriteConn Bytes where
  useAES := true
  unitedKey := [1, 2, 3]
  preWrite := []
  aead := ⟨[9], maximumNonce⟩
  opening h := absurd rfl h

def lastReader : ReadConn Bytes := ⟨true, [1, 2, 3], some ⟨[9], maximumNonce⟩, none, []⟩

theorem recordLayer_sample : ∃ w' output, writes plainCipher lastWriter [[1, 2, 3], [4, 5]] = some (w', output) ∧
    (reads plainCipher lastReader (.source [output]) [2, 2, 0, 7, 1, 1]).1 = [1, 2, 3, 4, 5] := by
  obtain ⟨w', output, hwrites, -, hreads⟩ := recordLayer_faithful _ plainCipher_lawful lastWriter lastReader
    ⟨rfl, rfl, rfl, rfl, rfl⟩ [[1, 2, 3], [4, 5]]
  refine ⟨w', output, hwrites, ?_⟩
  have hcontents : (Reader.source [output]).contents = output := append_nil output
  have hread := hreads (.source [output]) (by rw [hcontents]; rfl) [2, 2, 0, 7, 1, 1]
  exact hread.2.1 (.inr (by decide))

end EtonifyCore.VLESS
