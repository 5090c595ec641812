/-
The parser of client hellos, `ja3.Compute`.

A message that is accepted as one record says its own length, so no other beginning of it is accepted.

Left out: the lists of the fingerprint (cipher suites, extensions, curves, versions, signature algorithms), which only tell
clients apart.
-/
import Mathlib.Data.List.Infix
import Mathlib.Order.Nat
import EtonifyCore.Core.Bytes

namespace EtonifyCore.Sniff

open Core

inductive ParseError where
  | lengthErr (check : ℕ)
  | contentTypeErr
  | versionErr (check : ℕ)
  | handshakeTypeErr
  | sniTypeErr
deriving DecidableEq, Repr

structure ClientHello where
  version : ℕ
  serverName : Bytes
deriving DecidableEq, Repr

def supportedVersion (version : ℕ) : Bool := version &&& 0xFFFC = 0x0300 || version = 0x0304

def parseExtension (exType : ℕ) (sex sni : Bytes) : Except ParseError Bytes :=
  match exType with
  | 0 =>
    if sex.length < 5 then .error (.lengthErr 13)
    else if (sex.drop 5).length ≠ uint16 sex 3 then .error (.lengthErr 14)
    else if byte sex 2 = 0 then .ok (sex.drop 5)
    else .error .sniTypeErr
  | 10 =>
    if sex.length < 2 then .error (.lengthErr 15)
    else if (sex.drop 2).length ≠ uint16 sex 0 then .error (.lengthErr 16)
    else .ok sni
  | 11 =>
    if sex.length < 1 then .error (.lengthErr 17)
    else if (sex.drop 1).length ≠ byte sex 0 then .error (.lengthErr 18)
    else .ok sni
  | 43 =>
    if sex.length < 1 then .error (.lengthErr 19)
    else if (sex.drop 1).length < byte sex 0 then .error (.lengthErr 21)
    else .ok sni
  | 13 =>
    if sex.length < 2 then .error (.lengthErr 20)
    else if (sex.drop 2).length < uint16 sex 0 then .error (.lengthErr 22)
    else .ok sni
  | _ => .ok sni

/-- the loop of `parseExtensions`; the extensions of a record are shorter than 65536 bytes, so that `4+exLen` does not wrap -/
def parseExtensionsFrom (exs sni : Bytes) : Except ParseError Bytes :=
  if _h : exs = [] then .ok sni
  else if exs.length < 4 then .error (.lengthErr 11)
  else
    let exLen := uint16 exs 2
    if exs.length < 4 + exLen then .error (.lengthErr 12)
    else
      match parseExtension (uint16 exs 0) ((exs.drop 4).take exLen) sni with
      | .error err => .error err
      | .ok sni => parseExtensionsFrom (exs.drop (4 + exLen)) sni
termination_by exs.length
decreasing_by
  rw [List.length_drop]
  have := List.length_pos_iff.2 _h
  omega

def parseExtensions (exs : Bytes) : Except ParseError Bytes :=
  if exs.length = 0 then .ok []
  else if exs.length < 2 then .error (.lengthErr 9)
  else if (exs.drop 2).length < uint16 exs 0 then .error (.lengthErr 10)
  else parseExtensionsFrom (exs.drop 2) []

def parseHandshake (hs : Bytes) : Except ParseError ClientHello :=
  if hs.length < 6 + 32 + 1 then .error (.lengthErr 3)
  else if byte hs 0 ≠ 1 then .error .handshakeTypeErr
  else if (hs.drop 4).length ≠ byte hs 1 * 65536 + byte hs 2 * 256 + byte hs 3 then .error (.lengthErr 4)
  else if supportedVersion (uint16 hs 4) = false then .error (.versionErr 2)
  else
    let sessionIDLen := byte hs 38
    if hs.length < 6 + 32 + 1 + sessionIDLen then .error (.lengthErr 5)
    else
      let cs := hs.drop (6 + 32 + 1 + sessionIDLen)
      if cs.length < 2 then .error (.lengthErr 6)
      else
        let csLen := uint16 cs 0
        if cs.length < 2 + csLen + 1 then .error (.lengthErr 7)
        else
          let compressMethodLen := byte cs (2 + csLen)
          if cs.length < 2 + csLen + 1 + compressMethodLen then .error (.lengthErr 8)
          else
            (parseExtensions (cs.drop (2 + csLen + 1 + compressMethodLen))).map fun serverName =>
              { version := uint16 hs 4, serverName }

def compute (segment : Bytes) : Except ParseError ClientHello :=
  if segment.length < 5 then .error (.lengthErr 1)
  else if byte segment 0 ≠ 22 then .error .contentTypeErr
  else if supportedVersion (uint16 segment 1) = false then .error (.versionErr 1)
  else
    let segmentLen := uint16 segment 3
    if (segment.drop 5).length < segmentLen then .error (.lengthErr 2)
    else parseHandshake ((segment.drop 5).take segmentLen)

def record (length : ℕ) (payload : Bytes) : Bytes := [22, 3, 3] ++ putUint16 length ++ payload

theorem compute_record (length : ℕ) (payload : Bytes) : compute (record length payload) =
    if payload.length < length % 65536 then .error (.lengthErr 2) else parseHandshake (payload.take (length % 65536)) := by
  have hlength : uint16 (record length payload) 3 = length % 65536 := putUint16_toNat length
  have hdrop : (record length payload).drop 5 = payload := rfl
  have hlong : ¬ (record length payload).length < 5 := by
    change ¬ payload.length + 1 + 1 + 1 + 1 + 1 < 5
    omega
  have htype : ¬ byte (record length payload) 0 ≠ 22 := fun h => h rfl
  have hversion : ¬ supportedVersion (uint16 (record length payload) 1) = false := by
    have hbytes : uint16 (record length payload) 1 = UInt8.toNat 3 * 256 + UInt8.toNat 3 := rfl
    rw [hbytes]
    decide
  unfold compute
  rw [if_neg hlong, if_neg htype, if_neg hversion]
  dsimp only
  rw [hlength, hdrop]

theorem length_of_parseHandshake {hs : Bytes} {hello : ClientHello} (h : parseHandshake hs = .ok hello) :
    39 ≤ hs.length ∧ hs.length = 4 + (byte hs 1 * 65536 + byte hs 2 * 256 + byte hs 3) := by
  unfold parseHandshake at h
  split_ifs at h with hshort htype hlength
  rw [List.length_drop, ne_eq, not_not] at hlength
  omega

/-- no other beginning of an accepted message is accepted -/
theorem parseHandshake_take {message : Bytes} {hello hello' : ClientHello} {n : ℕ}
    (h : parseHandshake message = .ok hello) (h' : parseHandshake (message.take n) = .ok hello') : message.length ≤ n := by
  obtain ⟨hlong, hlength⟩ := length_of_parseHandshake h
  obtain ⟨hlong', hlength'⟩ := length_of_parseHandshake h'
  have hbyte (i : ℕ) (hi : i < 39) : byte (message.take n) i = byte message i := by
    conv_rhs => rw [← List.take_append_drop n message]
    exact (byte_append (by omega) _).symm
  rw [hbyte 1 (by omega), hbyte 2 (by omega), hbyte 3 (by omega), ← hlength] at hlength'
  rw [List.length_take] at hlength'
  omega

/-- of the records around beginnings of an accepted message, only the one with the whole message and its length is accepted -/
theorem compute_iff {message payload : Bytes} {hello : ClientHello} (hmessage : parseHandshake message = .ok hello)
    (hshort : message.length < 65536) (hpayload : payload <+: message) (length : ℕ) (hello' : ClientHello) :
    compute (record length payload) = .ok hello' ↔
      payload = message ∧ length % 65536 = message.length ∧ hello' = hello := by
  rw [compute_record]
  constructor
  · intro h
    split_ifs at h with hless
    have htake : payload.take (length % 65536) = message.take (length % 65536) := by
      obtain ⟨rest, rfl⟩ := hpayload
      rw [List.take_append_of_le_length (by omega)]
    rw [htake] at h
    have hle := parseHandshake_take hmessage h
    have hpayloadLength := hpayload.length_le
    have hall : payload = message := hpayload.eq_of_length (by omega)
    have hlength : length % 65536 = message.length := by omega
    rw [hlength, List.take_length, hmessage] at h
    exact ⟨hall, hlength, (Except.ok.inj h).symm⟩
  · intro h
    obtain ⟨rfl, hlength, rfl⟩ := h
    rw [hlength, if_neg (lt_irrefl _), List.take_length, hmessage]

end EtonifyCore.Sniff
