/-
Certificate pinning on the client side of TLS (`verifyClientPinnedCertificate`).

The handshake proves possession of the key of the first certificate only. The client accepts a list if the certificate pins
do (`VerifyCertificateSHA256`: the leaf is pinned, or verifies against a pinned certificate of the list), or else if the
public-key pins do (`VerifyPinnedCertificate`).

Result: `pin_authenticates_iff`, an accepted list has an authenticated first certificate, but for one kind of list. Where the
first certificate has the CA flag and the last one has not, the list is read backwards.

Premises: `X509` is the certificate library, with its clock; a parsed certificate keeps the bytes it was parsed from.
-/
import Mathlib.Tactic

namespace EtonifyCore.CertificatePin

/-! ## Certificates -/

abbrev Bytes := List UInt8

structure Certificate (K : Type) where
  raw : Bytes
  isCA : Bool
  publicKey : K
deriving DecidableEq, Repr

structure VerifyOptions (K : Type) where
  roots : List (Certificate K)
  intermediates : List (Certificate K)
  dnsName : String

/-- the library: hash, parser, encoding of public keys, and chain verification as an oracle -/
structure X509 (K : Type) where
  sum256 : Bytes → Bytes
  parseCertificate : Bytes → Except String (Certificate K)
  marshalPKIXPublicKey : K → Except String Bytes
  verify : Certificate K → VerifyOptions K → Except String Unit
  parse_raw : ∀ {raw cert}, parseCertificate raw = .ok cert → cert.raw = raw

inductive PinError where
  | emptyPeerCertificates
  | parsePeerCertificate (i : ℕ) (cause : String)
  | verificationFailed (cause : String)
  | noPinMatches (leafHash : Bytes)
  | missingPeerCertificate
  | parseLeafCertificate (cause : String)
  | marshalPublicKey (cause : String)
  | unrecognized (certificateHash publicKeyHash : Bytes)
deriving DecidableEq, Repr

variable {K : Type} (X : X509 K)

/-! ## The checks -/

def verifyPinnedCertificate (certificateHashes publicKeyHashes rawCerts : List Bytes) : Except PinError Unit :=
  match rawCerts with
  | [] => .error .missingPeerCertificate
  | raw :: _ =>
    if X.sum256 raw ∈ certificateHashes then .ok ()
    else match X.parseCertificate raw with
    | .error cause => .error (.parseLeafCertificate cause)
    | .ok leafCertificate =>
      match X.marshalPKIXPublicKey leafCertificate.publicKey with
      | .error cause => .error (.marshalPublicKey cause)
      | .ok publicKeyBytes =>
        if X.sum256 publicKeyBytes ∈ publicKeyHashes then .ok ()
        else .error (.unrecognized (X.sum256 raw) (X.sum256 publicKeyBytes))

def parseFrom (i : ℕ) : List Bytes → Except PinError (List (Certificate K))
  | [] => .ok []
  | raw :: rawCerts =>
    match X.parseCertificate raw with
    | .error cause => .error (.parsePeerCertificate i cause)
    | .ok cert =>
      match parseFrom (i + 1) rawCerts with
      | .error e => .error e
      | .ok certs => .ok (cert :: certs)

def reversed (certs : List (Certificate K)) : Bool :=
  match certs.head?, certs.getLast? with
  | some first, some last => first.isCA && decide (1 < certs.length) && !last.isCA
  | _, _ => false

def pinned (knownHashes : List Bytes) (cert : Certificate K) : Bool := decide (X.sum256 cert.raw ∈ knownHashes)

/-- the certificates in the order in which they are judged, the leaf first -/
def checkChain (knownHashes : List Bytes) (serverName : String) : List (Certificate K) → Except PinError Unit
  | [] => .error .emptyPeerCertificates
  | leaf :: others =>
    if pinned X knownHashes leaf then .ok ()
    else match others.find? (pinned X knownHashes) with
    | none => .error (.noPinMatches (X.sum256 leaf.raw))
    | some root =>
      match X.verify leaf ⟨[root], others, serverName⟩ with
      | .error cause => .error (.verificationFailed cause)
      | .ok () => .ok ()

def verifyCertificateSHA256 (knownHashes rawCerts : List Bytes) (serverName : String) : Except PinError Unit :=
  if rawCerts = [] then .error .emptyPeerCertificates
  else match parseFrom X 0 rawCerts with
  | .error e => .error e
  | .ok certs => checkChain X knownHashes serverName (if reversed certs then certs.reverse else certs)

def verifyClientPinnedCertificate (certificateHashes publicKeyHashes rawCerts : List Bytes) (serverName : String) :
    Except PinError Unit :=
  if certificateHashes = [] then verifyPinnedCertificate X [] publicKeyHashes rawCerts
  else match verifyCertificateSHA256 X certificateHashes rawCerts serverName with
  | .ok () => .ok ()
  | .error e => if publicKeyHashes = [] then .error e else verifyPinnedCertificate X [] publicKeyHashes rawCerts

/-! ## What the pins are for -/

def KeyPinned (publicKeyHashes : List Bytes) (cert : Certificate K) : Prop :=
  ∃ key, X.marshalPKIXPublicKey cert.publicKey = .ok key ∧ X.sum256 key ∈ publicKeyHashes

/-- a certificate verifies with a pinned certificate of the list as the only root -/
def Anchored (knownHashes : List Bytes) (serverName : String) (certs : List (Certificate K)) (leaf : Certificate K) :
    Prop :=
  ∃ root ∈ certs, pinned X knownHashes root = true ∧
    ∃ intermediates ⊆ certs, X.verify leaf ⟨[root], intermediates, serverName⟩ = .ok ()

/-- the certificate whose key the handshake has proved is trusted by the pins -/
inductive Authenticated (certificateHashes publicKeyHashes : List Bytes) (serverName : String) : List Bytes → Prop
  | pinned {raw rawCerts} : X.sum256 raw ∈ certificateHashes →
      Authenticated certificateHashes publicKeyHashes serverName (raw :: rawCerts)
  | keyPinned {raw rawCerts cert} : X.parseCertificate raw = .ok cert → KeyPinned X publicKeyHashes cert →
      Authenticated certificateHashes publicKeyHashes serverName (raw :: rawCerts)
  | anchored {raw rawCerts cert certs} : parseFrom X 0 (raw :: rawCerts) = .ok (cert :: certs) →
      Anchored X certificateHashes serverName (cert :: certs) cert →
      Authenticated certificateHashes publicKeyHashes serverName (raw :: rawCerts)

/-- the list is read backwards, and its last certificate is trusted while the first one is not -/
def Impersonates (certificateHashes publicKeyHashes : List Bytes) (serverName : String) (rawCerts : List Bytes) : Prop :=
  ∃ first last certs, parseFrom X 0 rawCerts = .ok (first :: certs ++ [last]) ∧
    (first.isCA = true ∧ last.isCA = false) ∧
    (pinned X certificateHashes last = true ∨
      ∃ root, (first :: certs).reverse.find? (pinned X certificateHashes) = some root ∧
        X.verify last ⟨[root], (first :: certs).reverse, serverName⟩ = .ok ()) ∧
    pinned X certificateHashes first = false ∧ ¬KeyPinned X publicKeyHashes first ∧
    ¬Anchored X certificateHashes serverName (first :: certs ++ [last]) first

/-! ## The checks, one by one -/

section Checks

variable {X} {certificateHashes publicKeyHashes rawCerts : List Bytes} {serverName : String}

variable {certs : List (Certificate K)}

theorem parseFrom_cons {i : ℕ} {raw : Bytes} (h : parseFrom X i (raw :: rawCerts) = .ok certs) :
    ∃ cert rest, X.parseCertificate raw = .ok cert ∧ certs = cert :: rest := by
  rw [parseFrom] at h
  split at h
  · cases h
  · rename_i cert hparse
    split at h
    · cases h
    · rename_i rest _
      exact ⟨cert, rest, hparse, (Except.ok.inj h).symm⟩

theorem checkChain_ok_iff {leaf : Certificate K} {others : List (Certificate K)} :
    checkChain X certificateHashes serverName (leaf :: others) = .ok () ↔
      pinned X certificateHashes leaf ∨ ∃ root, others.find? (pinned X certificateHashes) = some root ∧
          X.verify leaf ⟨[root], others, serverName⟩ = .ok () := by
  rw [checkChain]
  by_cases hpin : pinned X certificateHashes leaf
  · simp [hpin]
  rw [if_neg hpin]
  cases others.find? (pinned X certificateHashes) with
  | none => simp [hpin]
  | some root => cases hverify : X.verify leaf ⟨[root], others, serverName⟩ <;> simp [hpin, hverify]

theorem anchored_of_find {leaf root : Certificate K} {others : List (Certificate K)}
    (hfind : others.find? (pinned X certificateHashes) = some root)
    (hverify : X.verify leaf ⟨[root], others, serverName⟩ = .ok ()) :
    Anchored X certificateHashes serverName (leaf :: others) leaf :=
  ⟨root, List.mem_cons_of_mem _ (List.mem_of_find?_eq_some hfind), List.find?_some hfind, others,
    List.subset_cons_self _ _, hverify⟩

theorem reversed_iff : reversed certs ↔
      ∃ first middle last, certs = first :: middle ++ [last] ∧ first.isCA ∧ last.isCA = false := by
  constructor
  · intro h
    rcases certs with - | ⟨first, rest⟩
    · cases h
    rcases List.eq_nil_or_concat rest with rfl | ⟨middle, last, rfl⟩
    · simp [reversed] at h
    · refine ⟨first, middle, last, by simp, ?_⟩
      simpa [reversed, List.getLast?_cons, and_assoc] using h
  · rintro ⟨first, middle, last, rfl, hfirst, hlast⟩
    simp [reversed, List.getLast?_cons, hfirst, hlast]

theorem keyPinned_of_verify (h : verifyPinnedCertificate X [] publicKeyHashes rawCerts = .ok ()) :
    Authenticated X certificateHashes publicKeyHashes serverName rawCerts := by
  unfold verifyPinnedCertificate at h
  split at h
  · cases h
  rw [if_neg (List.not_mem_nil)] at h
  split at h
  · cases h
  rename_i cert hparse
  split at h
  · cases h
  rename_i key hkey
  split_ifs at h with hpin
  exact .keyPinned hparse ⟨key, hkey, hpin⟩

theorem accepts_cases (h : verifyClientPinnedCertificate X certificateHashes publicKeyHashes rawCerts serverName = .ok ()) :
    verifyPinnedCertificate X [] publicKeyHashes rawCerts = .ok () ∨ ∃ certs, parseFrom X 0 rawCerts = .ok certs ∧
        checkChain X certificateHashes serverName (if reversed certs then certs.reverse else certs) = .ok () := by
  rw [verifyClientPinnedCertificate] at h
  by_cases hnone : certificateHashes = []
  · rw [if_pos hnone] at h
    exact .inl h
  rw [if_neg hnone] at h
  split at h
  · rename_i haccept
    right
    rw [verifyCertificateSHA256] at haccept
    split_ifs at haccept
    split at haccept
    · cases haccept
    · exact ⟨_, by assumption, haccept⟩
  · split_ifs at h
    exact .inl h

theorem accepts_of_checkChain (hparse : parseFrom X 0 rawCerts = .ok certs)
    (hchain : checkChain X certificateHashes serverName (if reversed certs then certs.reverse else certs) = .ok ())
    (hpins : certificateHashes ≠ []) (hcerts : certs ≠ []) :
    verifyClientPinnedCertificate X certificateHashes publicKeyHashes rawCerts serverName = .ok () := by
  have hraw : rawCerts ≠ [] := by
    rintro rfl
    exact hcerts (Except.ok.inj hparse).symm
  have haccept : verifyCertificateSHA256 X certificateHashes rawCerts serverName = .ok () := by
    rw [verifyCertificateSHA256, if_neg hraw, hparse]
    exact hchain
  rw [verifyClientPinnedCertificate, if_neg hpins, haccept]

theorem authenticated_of_chain (hparse : parseFrom X 0 rawCerts = .ok certs)
    (hchain : checkChain X certificateHashes serverName certs = .ok ()) :
    Authenticated X certificateHashes publicKeyHashes serverName rawCerts := by
  rcases rawCerts with - | ⟨raw, rawCerts⟩
  · cases Except.ok.inj hparse
    cases hchain
  obtain ⟨cert, rest, hcert, rfl⟩ := parseFrom_cons hparse
  rcases checkChain_ok_iff.1 hchain with hpin | ⟨root, hfind, hverify⟩
  · refine .pinned ?_
    rw [← X.parse_raw hcert]
    exact of_decide_eq_true hpin
  · exact .anchored hparse (anchored_of_find hfind hverify)

theorem not_authenticated_iff {first : Certificate K} (hparse : parseFrom X 0 rawCerts = .ok (first :: certs)) :
    ¬Authenticated X certificateHashes publicKeyHashes serverName rawCerts ↔
      pinned X certificateHashes first = false ∧ ¬KeyPinned X publicKeyHashes first ∧
        ¬Anchored X certificateHashes serverName (first :: certs) first := by
  rcases rawCerts with - | ⟨raw, rawCerts⟩
  · cases hparse
  obtain ⟨cert, rest, hcert, heq⟩ := parseFrom_cons hparse
  obtain ⟨rfl, rfl⟩ := List.cons.inj heq
  constructor
  · intro hnot
    refine ⟨?_, fun hkey => hnot (.keyPinned hcert hkey), fun hanchored => hnot (.anchored hparse hanchored)⟩
    rw [Bool.eq_false_iff]
    intro hpin
    refine hnot (.pinned ?_)
    rw [← X.parse_raw hcert]
    exact of_decide_eq_true hpin
  · rintro ⟨hpin, hkey, hanchored⟩ hauth
    cases hauth with
    | pinned hmem =>
      rw [← X.parse_raw hcert] at hmem
      exact of_decide_eq_false hpin hmem
    | keyPinned hcert' hkey' =>
      obtain rfl := Except.ok.inj (hcert.symm.trans hcert')
      exact hkey hkey'
    | anchored hparse' hanchored' =>
      obtain ⟨rfl, rfl⟩ := List.cons.inj (Except.ok.inj (hparse.symm.trans hparse'))
      exact hanchored hanchored'

end Checks

/-! ## Main result -/

/-- **Pinning authenticates the key of the handshake, exactly if the list is not read backwards to a trusted last
certificate.** -/
theorem pin_authenticates_iff (certificateHashes publicKeyHashes rawCerts : List Bytes) (serverName : String) :
    (verifyClientPinnedCertificate X certificateHashes publicKeyHashes rawCerts serverName = .ok () →
      Authenticated X certificateHashes publicKeyHashes serverName rawCerts) ↔
    ¬Impersonates X certificateHashes publicKeyHashes serverName rawCerts := by
  constructor
  · rintro hsound ⟨first, last, middle, hparse, hflags, htrusted, hfirst⟩
    have hreversed : reversed (first :: middle ++ [last]) = true := reversed_iff.2 ⟨first, middle, last, rfl, hflags⟩
    -- a pin matches, so there are pins
    have hpins : certificateHashes ≠ [] := by
      rintro rfl
      rcases htrusted with hlast | ⟨root, hfind, -⟩
      · exact List.not_mem_nil (of_decide_eq_true hlast)
      · have hroot : pinned X [] root = true := List.find?_some hfind
        exact List.not_mem_nil (of_decide_eq_true hroot)
    have hchain : checkChain X certificateHashes serverName
        (if reversed (first :: middle ++ [last]) then (first :: middle ++ [last]).reverse
          else first :: middle ++ [last]) = .ok () := by
      rw [if_pos hreversed, List.reverse_append]
      exact checkChain_ok_iff.2 htrusted
    exact (not_authenticated_iff hparse).2 hfirst (hsound (accepts_of_checkChain hparse hchain hpins (by simp)))
  · intro hno haccept
    rcases accepts_cases haccept with hkey | ⟨certs, hparse, hchain⟩
    · exact keyPinned_of_verify hkey
    by_cases hreversed : reversed certs = true
    · obtain ⟨first, middle, last, rfl, hflags⟩ := reversed_iff.1 hreversed
      rw [if_pos hreversed, List.reverse_append] at hchain
      by_contra hnot
      exact hno ⟨first, last, middle, hparse, hflags, checkChain_ok_iff.1 hchain, (not_authenticated_iff hparse).1 hnot⟩
    · rw [if_neg hreversed] at hchain
      exact authenticated_of_chain hparse hchain

/-- a library in which a certificate is a flag and a key, a hash is the hashed value, and no chain verifies -/
def X509.sample : X509 Bytes where
  sum256 bytes := bytes
  parseCertificate
    | [] => .error "empty"
    | flag :: key => .ok ⟨flag :: key, flag == 1, key⟩
  marshalPKIXPublicKey key := .ok key
  verify _ _ := .error "unknown authority"
  parse_raw {raw cert} h := by
    cases raw with
    | nil => cases h
    | cons flag key => cases Except.ok.inj h; rfl

/-- A peer that holds only the key of a CA certificate of its own puts it before the pinned leaf `[0, 7]`: the list is
accepted. -/
theorem pin_accepts_foreign_key :
    verifyClientPinnedCertificate X509.sample [[0, 7]] [] [[1, 9], [0, 7]] "example.com" = .ok () ∧
    ¬Authenticated X509.sample [[0, 7]] [] "example.com" [[1, 9], [0, 7]] := by
  refine ⟨by decide, ?_⟩
  rintro (hpin | ⟨-, key, -, hkey⟩ | ⟨-, root, -, -, intermediates, -, hverify⟩)
  · simp [X509.sample] at hpin
  · cases hkey
  · cases hverify

end EtonifyCore.CertificatePin
