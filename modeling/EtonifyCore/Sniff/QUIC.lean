/-
Sniffing of QUIC client hellos: the frames of a decrypted Initial packet, and `QUICClientHello` over successive packets.

The fragments of all packets so far are stitched by their offsets and put into a record, whose length is the sum of the
lengths of all fragments: a copy counts twice. Premise: packets are decrypted correctly. Left out: the guess of the client.
-/
import Mathlib.Tactic
import EtonifyCore.Core.Reassembly
import EtonifyCore.Sniff.JA3

namespace EtonifyCore.Sniff

open List
open Core Fragment

/-! ## Frames -/

/-- `qtls.ReadUvarint`: the first two bits give the length -/
def readUvarint : Bytes → Option (ℕ × Bytes)
  | [] => none
  | firstByte :: rest =>
    let b1 := firstByte.toNat % 64
    match firstByte.toNat / 64, rest with
    | 0, rest => some (b1, rest)
    | 1, b2 :: rest => some (b2.toNat + b1 * 2 ^ 8, rest)
    | 2, b2 :: b3 :: b4 :: rest => some (b4.toNat + b3.toNat * 2 ^ 8 + b2.toNat * 2 ^ 16 + b1 * 2 ^ 24, rest)
    | 3, b2 :: b3 :: b4 :: b5 :: b6 :: b7 :: b8 :: rest =>
      some (b8.toNat + b7.toNat * 2 ^ 8 + b6.toNat * 2 ^ 16 + b5.toNat * 2 ^ 24 + b4.toNat * 2 ^ 32 + b3.toNat * 2 ^ 40 +
        b2.toNat * 2 ^ 48 + b1 * 2 ^ 56, rest)
    | _, _ => none

def skipUvarints : ℕ → Bytes → Option Bytes
  | 0, rest => some rest
  | n + 1, rest =>
    match readUvarint rest with
    | none => none
    | some (_, rest) => skipUvarints n rest

def readAck (ecn : Bool) (rest : Bytes) : Option Bytes :=
  match skipUvarints 2 rest with
  | none => none
  | some rest =>
    match readUvarint rest with
    | none => none
    | some (ackRangeCount, rest) => skipUvarints (1 + 2 * ackRangeCount + if ecn then 3 else 0) rest

def readCrypto (rest : Bytes) : Option (Fragment UInt8 × Bytes) :=
  match readUvarint rest with
  | none => none
  | some (offset, rest) =>
    match readUvarint rest with
    | none => none
    | some (length, rest) => if length > rest.length then none else some (⟨offset, rest.take length⟩, rest.drop length)

/-- a connection close frame behind its type; the reason may end behind the packet -/
def readConnectionClose (rest : Bytes) : Option Bytes :=
  match skipUvarints 2 rest with
  | none => none
  | some rest => (readUvarint rest).map fun (length, rest) => rest.drop length

def readFrame (frameType : UInt8) (rest : Bytes) : Option (List (Fragment UInt8) × Bytes) :=
  match frameType.toNat with
  | 0x00 => some ([], rest)
  | 0x01 => some ([], rest)
  | 0x02 => (readAck false rest).map fun rest => ([], rest)
  | 0x03 => (readAck true rest).map fun rest => ([], rest)
  | 0x06 => (readCrypto rest).map fun (fragment, rest) => ([fragment], rest)
  | 0x1c => (readConnectionClose rest).map fun rest => ([], rest)
  | _ => none

variable {b rest : Bytes}

theorem readUvarint_length {n : ℕ} (h : readUvarint b = some (n, rest)) : rest.length ≤ b.length := by
  unfold readUvarint at h
  split at h
  · cases h
  · split at h
    · obtain ⟨-, rfl⟩ := Prod.mk.inj (Option.some.inj h)
      simp
    · obtain ⟨-, rfl⟩ := Prod.mk.inj (Option.some.inj h)
      simp only [length_cons]
      omega
    · obtain ⟨-, rfl⟩ := Prod.mk.inj (Option.some.inj h)
      simp only [length_cons]
      omega
    · obtain ⟨-, rfl⟩ := Prod.mk.inj (Option.some.inj h)
      simp only [length_cons]
      omega
    · cases h

theorem skipUvarints_length {n : ℕ} (h : skipUvarints n b = some rest) : rest.length ≤ b.length := by
  induction n generalizing b with
  | zero => rw [Option.some.inj h]
  | succ n ih =>
    rw [skipUvarints] at h
    cases hread : readUvarint b with
    | none =>
      rw [hread] at h
      cases h
    | some read =>
      rw [hread] at h
      exact (ih h).trans (readUvarint_length hread)

theorem readAck_length {ecn : Bool} (h : readAck ecn b = some rest) : rest.length ≤ b.length := by
  unfold readAck at h
  split at h
  · cases h
  · rename_i hskip
    split at h
    · cases h
    · rename_i hread
      exact (skipUvarints_length h).trans ((readUvarint_length hread).trans (skipUvarints_length hskip))

theorem readCrypto_length {fragment : Fragment UInt8} (h : readCrypto b = some (fragment, rest)) :
    rest.length ≤ b.length := by
  unfold readCrypto at h
  split at h
  · cases h
  · rename_i hoffset
    split at h
    · cases h
    · rename_i hlength
      split_ifs at h
      obtain ⟨-, rfl⟩ := Prod.mk.inj (Option.some.inj h)
      have := (readUvarint_length hlength).trans (readUvarint_length hoffset)
      rw [length_drop]
      omega

theorem readConnectionClose_length (h : readConnectionClose b = some rest) : rest.length ≤ b.length := by
  unfold readConnectionClose at h
  split at h
  · cases h
  · rename_i hskip
    obtain ⟨⟨length, left⟩, hread, rfl⟩ := Option.map_eq_some_iff.1 h
    have := (readUvarint_length hread).trans (skipUvarints_length hskip)
    rw [length_drop]
    omega

variable {fragments : List (Fragment UInt8)}

theorem readFrame_length {frameType : UInt8}
    (h : readFrame frameType b = some (fragments, rest)) : rest.length ≤ b.length := by
  unfold readFrame at h
  split at h
  · obtain ⟨-, rfl⟩ := Prod.mk.inj (Option.some.inj h)
    exact le_rfl
  · obtain ⟨-, rfl⟩ := Prod.mk.inj (Option.some.inj h)
    exact le_rfl
  · obtain ⟨left, hread, heq⟩ := Option.map_eq_some_iff.1 h
    obtain ⟨-, rfl⟩ := Prod.mk.inj heq
    exact readAck_length hread
  · obtain ⟨left, hread, heq⟩ := Option.map_eq_some_iff.1 h
    obtain ⟨-, rfl⟩ := Prod.mk.inj heq
    exact readAck_length hread
  · obtain ⟨⟨fragment, left⟩, hread, heq⟩ := Option.map_eq_some_iff.1 h
    obtain ⟨-, rfl⟩ := Prod.mk.inj heq
    exact readCrypto_length hread
  · obtain ⟨left, hread, heq⟩ := Option.map_eq_some_iff.1 h
    obtain ⟨-, rfl⟩ := Prod.mk.inj heq
    exact readConnectionClose_length hread
  · cases h

/-- the crypto fragments of a packet; `none` is an error -/
def readFrames (decrypted : Bytes) : Option (List (Fragment UInt8)) :=
  match decrypted with
  | [] => some []
  | frameType :: rest =>
    match _h : readFrame frameType rest with
    | none => none
    | some (fragments, rest) => (readFrames rest).map (fragments ++ ·)
termination_by decrypted.length
decreasing_by
  have := readFrame_length _h
  simp only [List.length_cons]
  omega

/-! ## Frames as they are sent -/

inductive Uvarint : Bytes → ℕ → Prop
  | one {b1 : UInt8} (h : b1.toNat / 64 = 0) : Uvarint [b1] (b1.toNat % 64)
  | two {b1 b2 : UInt8} (h : b1.toNat / 64 = 1) : Uvarint [b1, b2] (b2.toNat + b1.toNat % 64 * 2 ^ 8)
  | four {b1 b2 b3 b4 : UInt8} (h : b1.toNat / 64 = 2) : Uvarint [b1, b2, b3, b4]
      (b4.toNat + b3.toNat * 2 ^ 8 + b2.toNat * 2 ^ 16 + b1.toNat % 64 * 2 ^ 24)
  | eight {b1 b2 b3 b4 b5 b6 b7 b8 : UInt8} (h : b1.toNat / 64 = 3) : Uvarint [b1, b2, b3, b4, b5, b6, b7, b8]
      (b8.toNat + b7.toNat * 2 ^ 8 + b6.toNat * 2 ^ 16 + b5.toNat * 2 ^ 24 + b4.toNat * 2 ^ 32 + b3.toNat * 2 ^ 40 +
        b2.toNat * 2 ^ 48 + b1.toNat % 64 * 2 ^ 56)

inductive Uvarints : ℕ → Bytes → Prop
  | nil : Uvarints 0 []
  | cons {b bs : Bytes} {number n : ℕ} (h : Uvarint b number) (hs : Uvarints n bs) : Uvarints (n + 1) (b ++ bs)

/-- a padding, ping, ack or crypto frame, with its fragment -/
inductive Encodes : List (Fragment UInt8) → Bytes → Prop
  | padding : Encodes [] [0x00]
  | ping : Encodes [] [0x01]
  | ack {front count ranges : Bytes} {n : ℕ} (hfront : Uvarints 2 front) (hcount : Uvarint count n)
      (hranges : Uvarints (1 + 2 * n) ranges) : Encodes [] (0x02 :: (front ++ (count ++ ranges)))
  | ackECN {front count ranges : Bytes} {n : ℕ} (hfront : Uvarints 2 front) (hcount : Uvarint count n)
      (hranges : Uvarints (1 + 2 * n + 3) ranges) : Encodes [] (0x03 :: (front ++ (count ++ ranges)))
  | crypto {offset length : Bytes} {fragment : Fragment UInt8} (hoffset : Uvarint offset fragment.offset)
      (hlength : Uvarint length fragment.payload.length) :
      Encodes [fragment] (0x06 :: (offset ++ (length ++ fragment.payload)))

inductive Packet : List (Fragment UInt8) → Bytes → Prop
  | nil : Packet [] []
  | cons {fragments fragments' : List (Fragment UInt8)} {b bs : Bytes} (h : Encodes fragments b)
      (hs : Packet fragments' bs) : Packet (fragments ++ fragments') (b ++ bs)

variable {b : Bytes}

theorem readUvarint_append {n : ℕ} (h : Uvarint b n) (rest : Bytes) : readUvarint (b ++ rest) = some (n, rest) := by
  cases h with
  | one h => simp [readUvarint, h]
  | two h => simp [readUvarint, h]
  | four h => simp [readUvarint, h]
  | eight h => simp [readUvarint, h]

theorem skipUvarints_append {n : ℕ} (h : Uvarints n b) (rest : Bytes) : skipUvarints n (b ++ rest) = some rest := by
  induction h with
  | nil => rfl
  | cons h _ ih =>
    rw [skipUvarints, append_assoc, readUvarint_append h]
    exact ih

theorem readFrame_encodes (h : Encodes fragments b) (rest : Bytes) :
    ∃ frameType body, b = frameType :: body ∧ readFrame frameType (body ++ rest) = some (fragments, rest) := by
  cases h with
  | padding => exact ⟨0x00, [], rfl, rfl⟩
  | ping => exact ⟨0x01, [], rfl, rfl⟩
  | ack hfront hcount hranges =>
    refine ⟨0x02, _, rfl, ?_⟩
    change (readAck false _).map _ = _
    rw [readAck, append_assoc, skipUvarints_append hfront]
    dsimp only
    rw [append_assoc, readUvarint_append hcount]
    dsimp only
    rw [if_neg Bool.false_ne_true, Nat.add_zero, skipUvarints_append hranges]
    rfl
  | ackECN hfront hcount hranges =>
    refine ⟨0x03, _, rfl, ?_⟩
    change (readAck true _).map _ = _
    rw [readAck, append_assoc, skipUvarints_append hfront]
    dsimp only
    rw [append_assoc, readUvarint_append hcount]
    dsimp only
    rw [if_pos rfl, skipUvarints_append hranges]
    rfl
  | @crypto offset length fragment hoffset hlength =>
    refine ⟨0x06, _, rfl, ?_⟩
    have hin : ¬ fragment.payload.length > (fragment.payload ++ rest).length := by
      rw [length_append]
      omega
    change (readCrypto _).map _ = _
    rw [readCrypto, append_assoc, readUvarint_append hoffset]
    dsimp only
    rw [append_assoc, readUvarint_append hlength]
    dsimp only
    rw [if_neg hin, take_left, drop_left]
    rfl

theorem readFrames_packet (h : Packet fragments b) : readFrames b = some fragments := by
  induction h with
  | nil => rw [readFrames]
  | @cons fragments fragments' b bs h _ ih =>
    obtain ⟨frameType, body, rfl, hread⟩ := readFrame_encodes h bs
    rw [cons_append, readFrames]
    split
    · rename_i hnone
      rw [hread] at hnone
      cases hnone
    · rename_i hsome
      rw [hread] at hsome
      obtain ⟨rfl, rfl⟩ := Prod.mk.inj (Option.some.inj hsome)
      rw [ih]
      rfl

/-! ## Packets -/

inductive Sniffed where
  | needMoreData
  | failed
  | found (domain : Bytes)
deriving DecidableEq, Repr

/-- the record of all fragments: its length is the sum of theirs -/
def buffer (fragments : List (Fragment UInt8)) : Bytes :=
  record (fragments.map (·.payload.length)).sum (stitchFrom fragments 0)

/-- `QUICClientHello`: what it returns, and `metadata.SniffContext` after it -/
def quicClientHello (context : List (Fragment UInt8)) (decrypted : Bytes) : Sniffed × List (Fragment UInt8) :=
  match readFrames decrypted with
  | none => (.failed, context)
  | some fragments =>
    let fragments := fragments ++ context
    match compute (buffer fragments) with
    | .error _ => (.needMoreData, fragments)
    | .ok fingerprint => (.found fingerprint.serverName, [])

def contextAfter (packets : List Bytes) : List (Fragment UInt8) :=
  packets.foldl (fun context packet => (quicClientHello context packet).2) []

/-- the calls up to the last missing byte ask for more data, and the next one finds the server name -/
def Sniffs (message serverName : Bytes) (packets : List (List (Fragment UInt8) × Bytes)) : Prop :=
  ∀ before packet after, packets = before ++ packet :: after → ¬ Covered message (before.flatMap (·.1)) →
    (Covered message ((before ++ [packet]).flatMap (·.1)) →
      (quicClientHello (contextAfter (before.map (·.2))) packet.2).1 = .found serverName) ∧
    (¬ Covered message ((before ++ [packet]).flatMap (·.1)) →
      (quicClientHello (contextAfter (before.map (·.2))) packet.2).1 = .needMoreData)

/-- the lengths of all fragments up to the last missing one add up to the length of the message -/
def Adds (message : Bytes) (packets : List (List (Fragment UInt8) × Bytes)) : Prop :=
  ∀ before packet after, packets = before ++ packet :: after → ¬ Covered message (before.flatMap (·.1)) →
    Covered message ((before ++ [packet]).flatMap (·.1)) →
      (((before ++ [packet]).flatMap (·.1)).map (·.payload.length)).sum % 65536 = message.length

section

variable {message : Bytes} {hello : ClientHello} (hmessage : compute (record message.length message) = .ok hello)
  (hshort : message.length < 65536) {parts : List Bytes} (hparts : parts.flatten = message)

include hmessage hshort hparts

/-- the fragments of a cut are accepted exactly if they cover the message and their lengths add up to its length -/
theorem compute_buffer (hfragments : ∀ f ∈ fragments, f ∈ cut 0 parts)
    (fingerprint : ClientHello) : compute (buffer fragments) = .ok fingerprint ↔
      Covered message fragments ∧ (fragments.map (·.payload.length)).sum % 65536 = message.length ∧ fingerprint = hello := by
  have hhandshake : parseHandshake message = .ok hello := by
    rw [compute_record, Nat.mod_eq_of_lt hshort, if_neg (lt_irrefl _), take_length] at hmessage
    exact hmessage
  have hbegins : stitchFrom fragments 0 <+: message := by
    have hpart : ∀ f ∈ fragments, f.PartOf message := by
      intro f hf
      have hmem : f ∈ cut ([] : Bytes).length parts := hfragments f hf
      rw [← hparts]
      exact partOf_of_mem_cut hmem
    exact stitchFrom_begins hpart 0
  unfold buffer
  rw [compute_iff hhandshake hshort hbegins, ← hparts, stitch_eq_iff hfragments]

theorem quicClientHello_spec {context seen fragments : List (Fragment UInt8)} {packet : Bytes} (hcontext : context.Perm seen)
    (hpacket : Packet fragments packet) (hcut : ∀ f ∈ seen ++ fragments, f ∈ cut 0 parts) :
    (Covered message (seen ++ fragments) ∧ ((seen ++ fragments).map (·.payload.length)).sum % 65536 = message.length →
      quicClientHello context packet = (.found hello.serverName, [])) ∧
    (¬ (Covered message (seen ++ fragments) ∧ ((seen ++ fragments).map (·.payload.length)).sum % 65536 = message.length) →
      quicClientHello context packet = (.needMoreData, fragments ++ context)) := by
  have hperm : (fragments ++ context).Perm (seen ++ fragments) :=
    (perm_append_comm).trans (hcontext.append_right fragments)
  have hsum : ((fragments ++ context).map (·.payload.length)).sum = ((seen ++ fragments).map (·.payload.length)).sum :=
    (hperm.map _).sum_nat
  have hcovered : Covered message (fragments ++ context) ↔ Covered message (seen ++ fragments) := by
    unfold Covered
    simp only [hperm.mem_iff]
  have hmem : ∀ f ∈ fragments ++ context, f ∈ cut 0 parts := fun f hf => hcut f (hperm.mem_iff.1 hf)
  have hcompute := compute_buffer hmessage hshort hparts hmem
  rw [hcovered, hsum] at hcompute
  unfold quicClientHello
  rw [readFrames_packet hpacket]
  dsimp only
  constructor
  · intro h
    rw [(hcompute hello).2 ⟨h.1, h.2, rfl⟩]
  · intro h
    cases hresult : compute (buffer (fragments ++ context)) with
    | error err => rfl
    | ok fingerprint =>
      obtain ⟨hall, hlength, -⟩ := (hcompute fingerprint).1 hresult
      exact absurd ⟨hall, hlength⟩ h

variable {packets : List (List (Fragment UInt8) × Bytes)} (hpackets : ∀ p ∈ packets, Packet p.1 p.2)
  (hcut : ∀ p ∈ packets, ∀ f ∈ p.1, f ∈ cut 0 parts)

include hpackets hcut

theorem contextAfter_perm (h : ¬ Covered message (packets.flatMap (·.1))) :
    (contextAfter (packets.map (·.2))).Perm (packets.flatMap (·.1)) := by
  induction packets using List.reverseRecOn with
  | nil => exact .refl _
  | append_singleton before packet ih =>
    have hbefore : ¬ Covered message (before.flatMap (·.1)) := by
      intro hall
      apply h
      intro i hi
      obtain ⟨f, hf, hcovers⟩ := hall i hi
      exact ⟨f, by rw [flatMap_append]; exact mem_append_left _ hf, hcovers⟩
    have hperm := ih (fun p hp => hpackets p (mem_append_left _ hp)) (fun p hp => hcut p (mem_append_left _ hp))
      hbefore
    have hall : (before ++ [packet]).flatMap (·.1) = before.flatMap (·.1) ++ packet.1 := by simp
    have hmem : ∀ f ∈ before.flatMap (·.1) ++ packet.1, f ∈ cut 0 parts := by
      intro f hf
      rw [← hall] at hf
      obtain ⟨p, hp, hfp⟩ := mem_flatMap.1 hf
      exact hcut p hp f hfp
    have hstep := (quicClientHello_spec hmessage hshort hparts hperm
      (hpackets packet (mem_append_right _ mem_cons_self)) hmem).2
    rw [hall] at h ⊢
    have hcontext : contextAfter ((before ++ [packet]).map (·.2)) =
        (quicClientHello (contextAfter (before.map (·.2))) packet.2).2 := by
      simp [contextAfter]
    rw [hcontext, hstep fun hboth => h hboth.1]
    exact perm_append_comm.trans (hperm.append_right packet.1)

/-- **A client hello is sniffed from its fragments**, whatever their order and distribution, exactly if the lengths of the
fragments up to the last missing one add up to its length. -/
theorem sniffs_iff : Sniffs message hello.serverName packets ↔ Adds message packets := by
  have hcall {before : List (List (Fragment UInt8) × Bytes)} {packet : List (Fragment UInt8) × Bytes}
      {after : List (List (Fragment UInt8) × Bytes)} (hsplit : packets = before ++ packet :: after)
      (hmissing : ¬ Covered message (before.flatMap (·.1))) := by
    have hbefore : ∀ p ∈ before, p ∈ packets := fun p hp => hsplit ▸ mem_append_left _ hp
    have hpacket : packet ∈ packets := hsplit ▸ mem_append_right _ mem_cons_self
    have hperm := contextAfter_perm hmessage hshort hparts (fun p hp => hpackets p (hbefore p hp))
      (fun p hp => hcut p (hbefore p hp)) hmissing
    have hmem : ∀ f ∈ before.flatMap (·.1) ++ packet.1, f ∈ cut 0 parts := by
      intro f hf
      rcases mem_append.1 hf with hf | hf
      · obtain ⟨p, hp, hfp⟩ := mem_flatMap.1 hf
        exact hcut p (hbefore p hp) f hfp
      · exact hcut packet hpacket f hf
    exact quicClientHello_spec hmessage hshort hparts hperm (hpackets packet hpacket) hmem
  have hall (before : List (List (Fragment UInt8) × Bytes)) (packet : List (Fragment UInt8) × Bytes) :
      (before ++ [packet]).flatMap (·.1) = before.flatMap (·.1) ++ packet.1 := by simp
  constructor
  · intro hsniffs before packet after hsplit hmissing hcovered
    obtain ⟨-, hmore⟩ := hcall hsplit hmissing
    have hfound := (hsniffs before packet after hsplit hmissing).1 hcovered
    rw [hall] at hcovered ⊢
    by_contra hlength
    rw [hmore fun hboth => hlength hboth.2] at hfound
    cases hfound
  · intro hadds before packet after hsplit hmissing
    obtain ⟨hfound, hmore⟩ := hcall hsplit hmissing
    constructor
    · intro hcovered
      have hlength := hadds before packet after hsplit hmissing hcovered
      rw [hall] at hcovered hlength
      rw [hfound ⟨hcovered, hlength⟩]
    · intro hcovered
      rw [hall] at hcovered
      rw [hmore fun hboth => hcovered hboth.1]

end

/-! ## Samples -/

def sampleHello : Bytes :=
  [1, 0, 0, 53, 3, 3] ++ List.replicate 32 0 ++ [0, 0, 2, 19, 1, 1, 0, 0, 10, 0, 0, 0, 6, 0, 4, 0, 0, 1, 97]

def samplePacket (start stop : ℕ) : List (Fragment UInt8) × Bytes :=
  let payload := (sampleHello.take stop).drop start
  ([⟨start, payload⟩], (0x06 :: ([UInt8.ofNat start] ++ ([UInt8.ofNat payload.length] ++ payload))) ++ [0x00])

theorem samplePacket_packet {start stop : ℕ} (hstart : start < 64) :
    Packet (samplePacket start stop).1 (samplePacket start stop).2 := by
  have hone {n : ℕ} (h : n < 64) : Uvarint [UInt8.ofNat n] n := by
    have hbyte : (UInt8.ofNat n).toNat = n := UInt8.toNat_ofNat_of_lt (by change n < 256; omega)
    have hzero : (UInt8.ofNat n).toNat / 64 = 0 := by omega
    have hvarint := Uvarint.one hzero
    rwa [hbyte, Nat.mod_eq_of_lt h] at hvarint
  have hlength : ((sampleHello.take stop).drop start).length < 64 := by
    have hle : ((sampleHello.take stop).drop start).length ≤ sampleHello.length :=
      ((drop_sublist _ _).trans (take_sublist _ _)).length_le
    exact lt_of_le_of_lt hle (by decide)
  have hcrypto : Encodes (samplePacket start stop).1 _ := .crypto (hone hstart) (hone hlength)
  exact .cons hcrypto (.cons .padding .nil)

theorem sniffs_sample :
    let packets := [samplePacket 20 57, samplePacket 0 20]
    let parts := [sampleHello.take 20, sampleHello.drop 20]
    (compute (record sampleHello.length sampleHello) = .ok ⟨771, [97]⟩ ∧ sampleHello.length < 65536 ∧
      parts.flatten = sampleHello ∧ (∀ p ∈ packets, Packet p.1 p.2) ∧ (∀ p ∈ packets, ∀ f ∈ p.1, f ∈ cut 0 parts)) ∧
      Sniffs sampleHello [97] packets := by
  intro packets parts
  have hmessage : compute (record sampleHello.length sampleHello) = .ok ⟨771, [97]⟩ := by decide +kernel
  have hshort : sampleHello.length < 65536 := by decide
  have hparts : parts.flatten = sampleHello := by decide
  have hpackets : ∀ p ∈ packets, Packet p.1 p.2 := by
    intro p hp
    rcases mem_pair.1 hp with rfl | rfl
    · exact samplePacket_packet (by decide)
    · exact samplePacket_packet (by decide)
  have hcut : ∀ p ∈ packets, ∀ f ∈ p.1, f ∈ cut 0 parts := by decide
  refine ⟨⟨hmessage, hshort, hparts, hpackets, hcut⟩, (sniffs_iff hmessage hshort hparts hpackets hcut).2 ?_⟩
  intro before packet after hsplit _ hcovered
  have hfirst : ¬ Covered sampleHello (samplePacket 20 57).1 := by
    unfold Covered Covers
    decide
  match before, hsplit with
  | [], hsplit =>
    obtain ⟨rfl, -⟩ := List.cons.inj hsplit
    exact absurd (by simpa using hcovered) hfirst
  | [_], hsplit =>
    obtain ⟨rfl, hrest⟩ := List.cons.inj hsplit
    obtain ⟨rfl, -⟩ := List.cons.inj hrest
    decide
  | _ :: _ :: before, hsplit =>
    have hlength := congrArg List.length hsplit
    simp [packets] at hlength

/-- the first fragment arrives twice -/
theorem copy_is_not_sniffed :
    let packets := [samplePacket 0 20, samplePacket 0 20, samplePacket 20 57]
    compute (record sampleHello.length sampleHello) = .ok ⟨771, [97]⟩ ∧
      (quicClientHello (contextAfter [(samplePacket 0 20).2, (samplePacket 0 20).2]) (samplePacket 20 57).2).1 =
        .needMoreData ∧ ¬ Sniffs sampleHello [97] packets := by
  intro packets
  have hmore : (quicClientHello (contextAfter [(samplePacket 0 20).2, (samplePacket 0 20).2]) (samplePacket 20 57).2).1 =
      .needMoreData := by decide +kernel
  refine ⟨by decide +kernel, hmore, fun hsniffs => ?_⟩
  have hfound := (hsniffs [samplePacket 0 20, samplePacket 0 20] (samplePacket 20 57) [] rfl ?_).1 ?_
  · exact absurd (hmore.symm.trans hfound) nofun
  · unfold Covered Covers
    decide
  · unfold Covered Covers
    decide

end EtonifyCore.Sniff
