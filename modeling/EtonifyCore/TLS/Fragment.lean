/-
Fragmentation of the first packet of a TLS connection: `IndexTLSServerName` and `Conn.Write`.

The packet is cut inside the labels of its server name; the parts become packets, or records, or both. `rand.Intn` panics on
an empty label. The walk over the extensions adds 4 to a 16-bit length, so an extension of 65532 bytes is walked over forever,
and longer ones shift the index of the server name.

Premises: the connection below takes all bytes; `publicsuffix.List.PublicSuffix` is any function. Left out: delays.
-/
import EtonifyCore.Core.Bytes
import EtonifyCore.Core.Text

namespace EtonifyCore.TLS.Fragment

open List
open Core

/-! ## The server name of a client hello -/

structure MyServerName where
  index : ℕ
  length : ℕ
  serverName : Bytes
  extensionsListLengthIndex : ℕ := 0
deriving DecidableEq, Repr

inductive Indexed where
  | nil
  /-- the loop over the extensions does not end -/
  | loops
  | found (name : MyServerName)
deriving DecidableEq, Repr

namespace Indexed

def map (f : MyServerName → MyServerName) : Indexed → Indexed
  | found name => found (f name)
  | result => result

end Indexed

def indexExtensions (currentIndex : ℕ) (exs : Bytes) : Indexed :=
  if _hempty : exs = [] then .nil
  else if exs.length < 4 then .nil
  else
    let exType := uint16 exs 0
    let exLen := uint16 exs 2
    if exs.length < 4 + exLen then .nil
    else
      let sex := (exs.drop 4).take exLen
      if exType = 0 then
        if sex.length < 5 then .nil
        else if byte sex 2 ≠ 0 then .nil
        else .found { index := currentIndex + 4 + 5, length := uint16 sex 3, serverName := sex.drop 5 }
      -- exs = exs[4+exLen:], where the sum has 16 bits
      else if _hshift : (4 + exLen) % 65536 = 0 then .loops
      else indexExtensions (currentIndex + (4 + exLen)) (exs.drop ((4 + exLen) % 65536))
termination_by exs.length
decreasing_by
  rw [List.length_drop]
  have := List.length_pos_iff.2 _hempty
  omega

def indexTLSServerNameFromExtensions (exs : Bytes) : Indexed :=
  if exs.length = 0 then .nil
  else if exs.length < 2 then .nil
  else if (exs.drop 2).length < uint16 exs 0 then .nil
  else indexExtensions 2 (exs.drop 2)

def indexTLSServerNameFromHandshake (handshake : Bytes) : Indexed :=
  if handshake.length < 6 + 32 + 1 then .nil
  else if byte handshake 0 ≠ 1 then .nil
  else if (handshake.drop 4).length ≠ byte handshake 1 * 65536 + byte handshake 2 * 256 + byte handshake 3 then .nil
  else
    let tlsVersion := uint16 handshake 4
    if tlsVersion &&& 0xFFFC ≠ 0x0300 ∧ tlsVersion ≠ 0x0304 then .nil
    else
      let currentIndex := 6 + 32 + 1 + byte handshake 38
      if handshake.length < currentIndex then .nil
      else
        let cipherSuites := handshake.drop currentIndex
        if cipherSuites.length < 2 then .nil
        else
          let csLen := uint16 cipherSuites 0
          if cipherSuites.length < 2 + csLen + 1 then .nil
          else
            let currentIndex := currentIndex + (2 + csLen + 1 + byte cipherSuites (2 + csLen))
            if handshake.length < currentIndex then .nil
            else (indexTLSServerNameFromExtensions (handshake.drop currentIndex)).map fun name =>
              { name with index := name.index + currentIndex, extensionsListLengthIndex := currentIndex }

def indexTLSServerName (payload : Bytes) : Indexed :=
  if payload.length < 5 ∨ byte payload 0 ≠ 22 then .nil
  else if payload.length < 5 + uint16 payload 3 then .nil
  else (indexTLSServerNameFromHandshake (payload.drop 5)).map fun name =>
    { name with index := name.index + 5, extensionsListLengthIndex := name.extensionsListLengthIndex + 5 }

/-! ## Positions -/

def dot : UInt8 := 46

variable (publicSuffix : Bytes → Bytes)

/-- the labels to split, with the length of what is skipped before them -/
def labels (name : Bytes) : ℕ × List Bytes :=
  let splits := name.splitOn dot
  let splits := if publicSuffix name ≠ [] then splits.take (splits.length - name.count dot) else splits
  if splits.length > 1 ∧ splits.head? = some [dot, dot, dot] then (4, splits.drop 1) else (0, splits)

/-- the loop over the labels; `none` is a panic of `rand.Intn` -/
def splitIndexes (draw : ℕ → ℕ) (i currentIndex : ℕ) : List Bytes → Option (List ℕ)
  | [] => some []
  | split :: splits =>
    if split = [] then none
    else
      let next := currentIndex + split.length + if splits = [] then 0 else 1
      (splitIndexes draw (i + 1) next splits).map fun indexes => (currentIndex + draw i % split.length) :: indexes

def slice (b : Bytes) (low high : ℕ) : Option Bytes :=
  if low ≤ high ∧ high ≤ b.length then some ((b.take high).drop low) else none

def payloads (b : Bytes) (start : ℕ) : List ℕ → Option (List Bytes)
  | [] => (slice b start b.length).map ([·])
  | splitAt :: rest =>
    match slice b start splitAt with
    | none => none
    | some payload => (payloads b splitAt rest).map (payload :: ·)

/-! ## Writes -/

def record (b payload : Bytes) : Bytes :=
  b.take 3 ++ putUint16 payload.length ++ payload

inductive Fault where
  | panics
  | hangs
deriving DecidableEq, Repr

structure Conn where
  firstPacketWritten : Bool := false
  splitPacket : Bool
  splitRecord : Bool
  packets : List Bytes := []
deriving DecidableEq, Repr

def parts (c : Conn) (draw : ℕ → ℕ) (b : Bytes) (name : MyServerName) : Option (List Bytes) :=
  let (skipped, splits) := labels publicSuffix name.serverName
  match splitIndexes draw 0 (name.index + skipped) splits with
  | none => none
  | some indexes => payloads b (if c.splitRecord then 5 else 0) indexes

def packetsOf (c : Conn) (b : Bytes) (parts : List Bytes) : List Bytes :=
  let parts := if c.splitRecord then parts.map (record b) else parts
  if c.splitPacket then parts else if c.splitRecord then [parts.flatten] else []

def write (draw : ℕ → ℕ) (c : Conn) (b : Bytes) : Except Fault (Conn × ℕ) :=
  if c.firstPacketWritten = false ∧ b.length > 0 then
    match indexTLSServerName b with
    | .loops => .error .hangs
    | .nil => .ok ({ c with firstPacketWritten := true, packets := c.packets ++ [b] }, b.length)
    | .found name =>
      match parts publicSuffix c draw b name with
      | none => .error .panics
      | some parts =>
        .ok ({ c with firstPacketWritten := true, packets := c.packets ++ packetsOf c b parts }, b.length)
  else .ok ({ c with packets := c.packets ++ [b] }, b.length)

def writes (draw : ℕ → ℕ) (c : Conn) : List Bytes → Except Fault (Conn × List ℕ)
  | [] => .ok (c, [])
  | b :: bs =>
    match write publicSuffix draw c b with
    | .error fault => .error fault
    | .ok (c, n) => (writes draw c bs).map fun (c, ns) => (c, n :: ns)

/-! ## What is meant -/

def IsRecord (b : Bytes) : Prop := 5 ≤ b.length ∧ b.length = 5 + uint16 b 3

/-- records of the type and the version of a record, whose payloads make up its payload -/
def Resplit (b sent : Bytes) : Prop :=
  ∃ records : List Bytes, sent = records.flatten ∧ (∀ r ∈ records, IsRecord r ∧ r.take 3 = b.take 3) ∧
    records.flatMap (·.drop 5) = b.drop 5

/-- all writes return their lengths, and the stream is the one that is written, up to the records of its first packet -/
def Faithful (c : Conn) (bs : List Bytes) (result : Except Fault (Conn × List ℕ)) : Prop :=
  ∃ c', result = .ok (c', bs.map List.length) ∧
    (c.splitRecord = false → c'.packets.flatten = c.packets.flatten ++ bs.flatten) ∧
    (c.splitRecord = true → ∀ first rest, bs.filter (· ≠ []) = first :: rest → IsRecord first →
      ∃ sent, Resplit first sent ∧ c'.packets.flatten = c.packets.flatten ++ sent ++ rest.flatten)

def width : List Bytes → ℕ
  | [] => 0
  | [split] => split.length
  | split :: splits => split.length + 1 + width splits

/-- the index of the server name is found, no label to split is empty, and all positions inside labels are in the packet -/
def Splittable (b : Bytes) : Prop :=
  match indexTLSServerName b with
  | .nil => True
  | .loops => False
  | .found name =>
    (∀ split ∈ (labels publicSuffix name.serverName).2, split ≠ []) ∧
      name.index + (labels publicSuffix name.serverName).1 + width (labels publicSuffix name.serverName).2 ≤ b.length + 1

/-! ## Positions inside labels -/

variable {splits : List Bytes}

theorem width_cons (split : Bytes) (splits : List Bytes) :
    width (split :: splits) = split.length + (if splits = [] then 0 else 1) + width splits := by
  cases splits with
  | nil => rfl
  | cons next splits => rfl

theorem splitIndexes_spec (h : ∀ split ∈ splits, split ≠ []) (draw : ℕ → ℕ) (i currentIndex : ℕ) :
    ∃ indexes, splitIndexes draw i currentIndex splits = some indexes ∧ (currentIndex :: indexes).IsChain (· ≤ ·) ∧
      ∀ splitAt ∈ indexes, splitAt < currentIndex + width splits := by
  induction splits generalizing i currentIndex with
  | nil => exact ⟨[], rfl, .singleton _, nofun⟩
  | cons split splits ih =>
    have hne := h split mem_cons_self
    have hlength := length_pos_iff.2 hne
    have hdraw := Nat.mod_lt (draw i) hlength
    obtain ⟨indexes, hindexes, hchain, hin⟩ := ih (fun split hmem => h split (mem_cons_of_mem _ hmem)) (i + 1)
      (currentIndex + split.length + if splits = [] then 0 else 1)
    refine ⟨(currentIndex + draw i % split.length) :: indexes, ?_, ?_, ?_⟩
    · rw [splitIndexes, if_neg hne]
      dsimp only
      rw [hindexes]
      rfl
    · refine .cons_cons (Nat.le_add_right _ _) ?_
      cases indexes with
      | nil => exact .singleton _
      | cons next indexes =>
        obtain ⟨hle, hrest⟩ := isChain_cons_cons.1 hchain
        refine .cons_cons ?_ hrest
        omega
    · intro splitAt hmem
      rw [width_cons]
      rcases mem_cons.1 hmem with rfl | hmem
      · omega
      · have := hin splitAt hmem
        omega

theorem splitIndexes_none (h : [] ∈ splits) (draw : ℕ → ℕ) (i currentIndex : ℕ) :
    splitIndexes draw i currentIndex splits = none := by
  induction splits generalizing i currentIndex with
  | nil => cases h
  | cons split splits ih =>
    by_cases hempty : split = []
    · rw [splitIndexes, if_pos hempty]
    · have hmem : [] ∈ splits := (mem_cons.1 h).resolve_left fun heq => hempty heq.symm
      rw [splitIndexes, if_neg hempty]
      dsimp only
      rw [ih hmem]
      rfl

theorem splitIndexes_last (h : ∀ split ∈ splits, split ≠ []) (hne : splits ≠ []) :
    ∃ draw : ℕ → ℕ, ∀ i currentIndex, ∃ indexes, splitIndexes draw i currentIndex splits = some indexes ∧
      currentIndex + width splits - 1 ∈ indexes := by
  refine ⟨fun _ => (splits.getLast hne).length - 1, ?_⟩
  induction splits with
  | nil => exact absurd rfl hne
  | cons split splits ih =>
    intro i currentIndex
    have hsplit := h split mem_cons_self
    have hlength := length_pos_iff.2 hsplit
    cases splits with
    | nil =>
      refine ⟨[currentIndex + (split.length - 1) % split.length], ?_, ?_⟩
      · rw [splitIndexes, if_neg hsplit]
        rfl
      · rw [Nat.mod_eq_of_lt (by omega), mem_singleton]
        change currentIndex + split.length - 1 = _
        omega
    | cons next splits =>
      obtain ⟨indexes, hindexes, hmem⟩ := ih (fun split hmem => h split (mem_cons_of_mem _ hmem))
        (cons_ne_nil _ _) (i + 1) (currentIndex + split.length + 1)
      rw [getLast_cons (cons_ne_nil _ _)]
      refine ⟨(currentIndex + (((next :: splits).getLast (cons_ne_nil _ _)).length - 1) % split.length) :: indexes, ?_,
        mem_cons_of_mem _ ?_⟩
      · rw [splitIndexes, if_neg hsplit]
        dsimp only
        rw [if_neg (cons_ne_nil _ _), hindexes]
        rfl
      · rw [width_cons, if_neg (cons_ne_nil _ _)]
        have : currentIndex + (split.length + 1 + width (next :: splits)) - 1 =
            currentIndex + split.length + 1 + width (next :: splits) - 1 := by omega
        rwa [this]

/-! ## Parts -/

variable {b : Bytes}

theorem payloads_some {start : ℕ} {indexes : List ℕ} (hchain : (start :: indexes).IsChain (· ≤ ·))
    (hstart : start ≤ b.length) (hin : ∀ splitAt ∈ indexes, splitAt ≤ b.length) :
    ∃ ps, payloads b start indexes = some ps ∧ ps.flatten = b.drop start := by
  induction indexes generalizing start with
  | nil =>
    refine ⟨[b.drop start], ?_, by simp⟩
    rw [payloads, slice, if_pos ⟨hstart, le_rfl⟩, take_length]
    rfl
  | cons splitAt rest ih =>
    obtain ⟨hle, hrest⟩ := isChain_cons_cons.1 hchain
    have hsplit := hin splitAt mem_cons_self
    obtain ⟨ps, hps, hflatten⟩ := ih hrest hsplit fun next hmem => hin next (mem_cons_of_mem _ hmem)
    refine ⟨(b.take splitAt).drop start :: ps, ?_, ?_⟩
    · rw [payloads, slice, if_pos ⟨hle, hsplit⟩]
      rw [hps]
      rfl
    · calc ((b.take splitAt).drop start :: ps).flatten
          _ = (b.take splitAt).drop start ++ b.drop splitAt := by rw [flatten_cons, hflatten]
          _ = (b.take splitAt ++ b.drop splitAt).drop start := by
            rw [drop_append_of_le_length]
            rw [length_take]
            omega
          _ = b.drop start := by rw [take_append_drop]

theorem payloads_none {start splitAt : ℕ} {indexes : List ℕ} (hmem : splitAt ∈ indexes)
    (hout : b.length < splitAt) : payloads b start indexes = none := by
  induction indexes generalizing start with
  | nil => cases hmem
  | cons first rest ih =>
    rw [payloads]
    rcases mem_cons.1 hmem with rfl | hmem
    · rw [slice, if_neg (by omega)]
    · cases hslice : slice b start first with
      | none => rfl
      | some payload =>
        rw [ih hmem]
        rfl

/-! ## Records -/

theorem isRecord_record {b payload : Bytes} (hb : 3 ≤ b.length) (hpayload : payload.length < 65536) :
    IsRecord (record b payload) ∧ (record b payload).take 3 = b.take 3 ∧ (record b payload).drop 5 = payload := by
  obtain ⟨x, y, z, rest, rfl⟩ : ∃ x y z rest, b = x :: y :: z :: rest := by
    match b, hb with
    | x :: y :: z :: rest, _ => exact ⟨x, y, z, rest, rfl⟩
  have huint : uint16 (record (x :: y :: z :: rest) payload) 3 = payload.length := by
    change (UInt8.ofNat (payload.length / 256)).toNat * 256 + (UInt8.ofNat payload.length).toNat = _
    rw [putUint16_toNat, Nat.mod_eq_of_lt hpayload]
  refine ⟨⟨?_, ?_⟩, rfl, rfl⟩
  · change 5 ≤ payload.length + 1 + 1 + 1 + 1 + 1
    omega
  · rw [huint]
    change payload.length + 1 + 1 + 1 + 1 + 1 = _
    omega

theorem length_le_of_mem_flatten {p b : Bytes} {ps : List Bytes} (h : ps.flatten = b) (hp : p ∈ ps) : p.length ≤ b.length := by
  rw [← h]
  exact (sublist_flatten_of_mem hp).length_le

theorem resplit_of_parts {ps : List Bytes} (hb : IsRecord b) (hps : ps.flatten = b.drop 5) :
    Resplit b (ps.map (record b)).flatten := by
  obtain ⟨hlong, hlength⟩ := hb
  have hshort : (b.drop 5).length < 65536 := by
    rw [length_drop, hlength]
    have := uint16_lt b 3
    omega
  have hrecord {payload : Bytes} (hmem : payload ∈ ps) :=
    isRecord_record (b := b) (by omega) (lt_of_le_of_lt (length_le_of_mem_flatten hps hmem) hshort)
  refine ⟨ps.map (record b), rfl, ?_, ?_⟩
  · intro r hr
    obtain ⟨payload, hpayload, rfl⟩ := mem_map.1 hr
    exact ⟨(hrecord hpayload).1, (hrecord hpayload).2.1⟩
  · rw [← hps, flatMap_map]
    calc ps.flatMap (fun payload => (record b payload).drop 5)
        _ = ps.flatMap id := flatMap_congr fun payload hmem => (hrecord hmem).2.2
        _ = ps.flatten := flatMap_id

theorem resplit_self (hb : IsRecord b) : Resplit b b :=
  ⟨[b], by simp, fun r hr => by rw [mem_singleton.1 hr]; exact ⟨hb, rfl⟩, by simp⟩

/-! ## One write -/

variable {c : Conn}

theorem found_index {name : MyServerName} (h : indexTLSServerName b = .found name) : 5 ≤ name.index ∧ 5 ≤ b.length := by
  unfold indexTLSServerName at h
  split_ifs at h with hshort
  cases hhandshake : indexTLSServerNameFromHandshake (b.drop 5) with
  | nil | loops => rw [hhandshake] at h; cases h
  | found inner =>
    rw [hhandshake] at h
    obtain rfl := (Indexed.found.inj h).symm
    have hlength : ¬ b.length < 5 := fun h => hshort (.inl h)
    exact ⟨Nat.le_add_left _ _, by omega⟩

theorem labels_eq (name : Bytes) :
    labels publicSuffix name = (0, if publicSuffix name ≠ [] then (name.splitOn dot).take 1 else name.splitOn dot) := by
  have htake : (name.splitOn dot).length - name.count dot = 1 := by
    rw [Text.length_splitOn]
    omega
  unfold labels
  dsimp only
  rw [htake]
  apply if_neg
  rintro ⟨-, hhead⟩
  have hmem : [dot, dot, dot] ∈ name.splitOn dot := by
    split_ifs at hhead
    · exact mem_of_mem_take (mem_of_mem_head? hhead)
    · exact mem_of_mem_head? hhead
  exact Text.notMem_of_mem_splitOn hmem mem_cons_self

theorem labels_ne_nil (name : Bytes) : (labels publicSuffix name).2 ≠ [] := by
  have hne := splitOn_ne_nil dot name
  rw [labels_eq]
  split_ifs
  · cases hsplits : name.splitOn dot with
    | nil => exact absurd hsplits hne
    | cons split splits => exact cons_ne_nil _ _
  · exact hne

theorem packetsOf_flatten (hsplit : c.splitPacket ∨ c.splitRecord) (b : Bytes) (ps : List Bytes) :
    (packetsOf c b ps).flatten = (if c.splitRecord then ps.map (record b) else ps).flatten := by
  unfold packetsOf
  cases hpacket : c.splitPacket with
  | true => simp
  | false =>
    have hrecord : c.splitRecord := hsplit.resolve_left (by simp [hpacket])
    simp [hrecord]

theorem write_first (hsplit : c.splitPacket ∨ c.splitRecord) (hfirst : c.firstPacketWritten = false)
    (hb : b ≠ []) (h : Splittable publicSuffix b) (draw : ℕ → ℕ) :
    ∃ packets sent, write publicSuffix draw c b = .ok ({ c with firstPacketWritten := true, packets := packets }, b.length) ∧
      packets.flatten = c.packets.flatten ++ sent ∧ (c.splitRecord = false → sent = b) ∧
      (c.splitRecord → IsRecord b → Resplit b sent) := by
  have hnew : c.firstPacketWritten = false ∧ b.length > 0 := ⟨hfirst, length_pos_iff.2 hb⟩
  unfold write
  rw [if_pos hnew]
  unfold Splittable at h
  cases hindex : indexTLSServerName b with
  | loops => rw [hindex] at h; exact h.elim
  | nil => exact ⟨_, b, rfl, by simp, fun _ => rfl, fun _ => resplit_self⟩
  | found name =>
    rw [hindex] at h
    obtain ⟨hlabels, hwidth⟩ := h
    obtain ⟨hfive, hlong⟩ := found_index hindex
    obtain ⟨indexes, hindexes, hchain, hin⟩ := splitIndexes_spec hlabels draw 0
      (name.index + (labels publicSuffix name.serverName).1)
    have hle : ∀ splitAt ∈ indexes, splitAt ≤ b.length := by
      intro splitAt hmem
      have := hin splitAt hmem
      omega
    have hchain' : ((if c.splitRecord then 5 else 0) :: indexes).IsChain (· ≤ ·) := by
      cases indexes with
      | nil => exact .singleton _
      | cons first rest =>
        obtain ⟨hfirst, hrest⟩ := isChain_cons_cons.1 hchain
        refine .cons_cons ?_ hrest
        split_ifs <;> omega
    obtain ⟨ps, hps, hflatten⟩ := payloads_some hchain' (by split_ifs <;> omega) hle
    have hparts : parts publicSuffix c draw b name = some ps := by
      unfold parts
      dsimp only
      rw [hindexes]
      exact hps
    dsimp only
    rw [hparts]
    refine ⟨_, (if c.splitRecord then ps.map (record b) else ps).flatten, rfl, ?_, ?_, ?_⟩
    · rw [flatten_append, packetsOf_flatten hsplit]
    · intro hrecord
      rw [if_neg (by simp [hrecord])] at hflatten ⊢
      exact hflatten
    · intro hrecord hb
      rw [if_pos hrecord] at hflatten ⊢
      exact resplit_of_parts hb hflatten

theorem write_fails (hfirst : c.firstPacketWritten = false) (hb : b ≠ [])
    (h : ¬ Splittable publicSuffix b) : ∃ draw, ∃ fault, ∀ packets,
      write publicSuffix draw { c with packets := packets } b = .error fault := by
  have hnew : c.firstPacketWritten = false ∧ b.length > 0 := ⟨hfirst, length_pos_iff.2 hb⟩
  unfold Splittable at h
  cases hindex : indexTLSServerName b with
  | nil => rw [hindex] at h; exact absurd trivial h
  | loops =>
    refine ⟨id, .hangs, fun packets => ?_⟩
    unfold write
    rw [if_pos hnew, hindex]
  | found name =>
    rw [hindex] at h
    -- a draw for which there are no parts
    have hpanics : ∃ draw, ∀ packets, parts publicSuffix { c with packets := packets } draw b name = none := by
      by_cases hlabels : ∀ split ∈ (labels publicSuffix name.serverName).2, split ≠ []
      · obtain ⟨draw, hlast⟩ := splitIndexes_last hlabels (labels_ne_nil publicSuffix name.serverName)
        obtain ⟨indexes, hindexes, hmem⟩ := hlast 0 (name.index + (labels publicSuffix name.serverName).1)
        have hwidth : ¬ name.index + (labels publicSuffix name.serverName).1 +
            width (labels publicSuffix name.serverName).2 ≤ b.length + 1 := fun hle => h ⟨hlabels, hle⟩
        refine ⟨draw, fun packets => ?_⟩
        unfold parts
        dsimp only
        rw [hindexes]
        exact payloads_none hmem (by omega)
      · push Not at hlabels
        obtain ⟨split, hmem, rfl⟩ := hlabels
        refine ⟨id, fun packets => ?_⟩
        unfold parts
        dsimp only
        rw [splitIndexes_none hmem]
    obtain ⟨draw, hparts⟩ := hpanics
    refine ⟨draw, .panics, fun packets => ?_⟩
    unfold write
    rw [if_pos hnew, hindex]
    dsimp only
    rw [hparts]

/-! ## The index in one record -/

variable {f : MyServerName → MyServerName} {result : Indexed}

theorem Indexed.map_found {name : MyServerName}
    (h : result.map f = .found name) : ∃ inner, result = .found inner ∧ f inner = name := by
  cases result with
  | nil => cases h
  | loops => cases h
  | found inner => exact ⟨inner, rfl, Indexed.found.inj h⟩

theorem Indexed.map_loops (h : result.map f = .loops) : result = .loops := by
  cases result with
  | nil => cases h
  | loops => rfl
  | found inner => cases h

/-- the walk ends, and a name that is found is in the first bytes -/
structure Indexed.Within (result : Indexed) (n : ℕ) : Prop where
  ends : result ≠ .loops
  bound : ∀ name, result = .found name → name.index + name.serverName.length ≤ n

theorem nil_within (n : ℕ) : Indexed.nil.Within n := ⟨nofun, nofun⟩

theorem Indexed.Within.map {n m : ℕ} (h : result.Within n)
    (hindex : ∀ name, (f name).index = name.index + m) (hname : ∀ name, (f name).serverName = name.serverName) :
    (result.map f).Within (n + m) := by
  refine ⟨fun hloops => h.ends (Indexed.map_loops hloops), fun name hfound => ?_⟩
  obtain ⟨inner, hinner, rfl⟩ := Indexed.map_found hfound
  have := h.bound inner hinner
  rw [hindex, hname]
  omega

theorem indexExtensions_fits (currentIndex : ℕ) (exs : Bytes) (h : exs.length < 65536) :
    (indexExtensions currentIndex exs).Within (currentIndex + exs.length) := by
  induction hlength : exs.length using Nat.strong_induction_on generalizing currentIndex exs with
  | _ n ih =>
    unfold indexExtensions
    dsimp only
    split_ifs with _ hshort hout htype hsex hkind hshift
    · exact nil_within _
    · exact nil_within _
    · exact nil_within _
    · exact nil_within _
    · exact nil_within _
    · refine ⟨nofun, fun name hname => ?_⟩
      obtain rfl := (Indexed.found.inj hname).symm
      have hsexLength : ((exs.drop 4).take (uint16 exs 2)).length = uint16 exs 2 := by
        rw [length_take, length_drop]
        omega
      change currentIndex + 4 + 5 + (((exs.drop 4).take (uint16 exs 2)).drop 5).length ≤ _
      rw [length_drop]
      omega
    · omega
    · have hmod : (4 + uint16 exs 2) % 65536 = 4 + uint16 exs 2 := Nat.mod_eq_of_lt (by omega)
      have hdrop : (exs.drop (4 + uint16 exs 2)).length = exs.length - (4 + uint16 exs 2) := length_drop
      rw [hmod]
      obtain ⟨hends, hbound⟩ := ih _ (by omega) (currentIndex + (4 + uint16 exs 2)) (exs.drop (4 + uint16 exs 2))
        (by omega) rfl
      refine ⟨hends, fun name hname => ?_⟩
      have := hbound name hname
      omega

theorem extensions_within (exs : Bytes) (h : exs.length < 2 + 65536) :
    (indexTLSServerNameFromExtensions exs).Within exs.length := by
  have hdrop : (exs.drop 2).length = exs.length - 2 := length_drop
  unfold indexTLSServerNameFromExtensions
  split_ifs
  · exact nil_within _
  · exact nil_within _
  · exact nil_within _
  · have hwithin := indexExtensions_fits 2 (exs.drop 2) (by omega)
    rwa [show 2 + (exs.drop 2).length = exs.length by omega] at hwithin

theorem handshake_within (handshake : Bytes) (h : handshake.length < 65536) :
    (indexTLSServerNameFromHandshake handshake).Within handshake.length := by
  unfold indexTLSServerNameFromHandshake
  dsimp only
  split_ifs
  all_goals try exact nil_within _
  generalize 6 + 32 + 1 + byte handshake 38 + _ = currentIndex at *
  have hdrop : (handshake.drop currentIndex).length = handshake.length - currentIndex := length_drop
  have hwithin := extensions_within (handshake.drop currentIndex) (by omega)
  rw [show handshake.length = (handshake.drop currentIndex).length + currentIndex by omega]
  exact hwithin.map (fun _ => rfl) fun _ => rfl

theorem indexTLSServerName_within (h : b.length < 5 + 65536) : (indexTLSServerName b).Within b.length := by
  have hdrop : (b.drop 5).length = b.length - 5 := length_drop
  unfold indexTLSServerName
  split_ifs with hshort
  · exact nil_within _
  · exact nil_within _
  · have hwithin := handshake_within (b.drop 5) (by omega)
    have hlength : ¬ b.length < 5 := fun h => hshort (.inl h)
    rw [show b.length = (b.drop 5).length + 5 by omega]
    exact hwithin.map (fun _ => rfl) fun _ => rfl

theorem width_eq (splits : List Bytes) : width splits = ([dot].intercalate splits).length := by
  induction splits with
  | nil => rfl
  | cons split splits ih =>
    cases splits with
    | nil => simp [width, List.intercalate]
    | cons next splits =>
      change split.length + 1 + width (next :: splits) = _
      rw [ih]
      simp [List.intercalate]
      omega

theorem width_labels (name : Bytes) : width (labels publicSuffix name).2 ≤ name.length := by
  rw [labels_eq]
  split_ifs
  · cases hsplits : name.splitOn dot with
    | nil => exact Nat.zero_le _
    | cons split splits => exact Text.length_le_of_mem_splitOn (hsplits ▸ mem_cons_self)
  · rw [width_eq, intercalate_splitOn]

theorem splittable_of_record (hb : IsRecord b) : Splittable publicSuffix b ↔
    ∀ name, indexTLSServerName b = .found name → [] ∉ (labels publicSuffix name.serverName).2 := by
  have hshort : b.length < 5 + 65536 := by
    rw [hb.2]
    have := uint16_lt b 3
    omega
  obtain ⟨hends, hbound⟩ := indexTLSServerName_within hshort
  unfold Splittable
  cases hindex : indexTLSServerName b with
  | nil => simp
  | loops => exact absurd hindex hends
  | found name =>
    have hname := hbound name hindex
    have hwidth := width_labels publicSuffix name.serverName
    have hskipped : (labels publicSuffix name.serverName).1 = 0 := by rw [labels_eq]
    constructor
    · intro h other hother hmem
      obtain rfl := Indexed.found.inj hother
      exact h.1 [] hmem rfl
    · intro h
      refine ⟨fun split hmem hempty => h name rfl (hempty ▸ hmem), ?_⟩
      rw [hskipped]
      omega

/-! ## Sequences of writes -/

theorem writes_after (hfirst : c.firstPacketWritten) (draw : ℕ → ℕ) (bs : List Bytes) :
    writes publicSuffix draw c bs = .ok ({ c with packets := c.packets ++ bs }, bs.map List.length) := by
  induction bs generalizing c with
  | nil => simp [writes]
  | cons b bs ih =>
    have hwrite : write publicSuffix draw c b = .ok ({ c with packets := c.packets ++ [b] }, b.length) := by
      unfold write
      rw [if_neg (by simp [hfirst])]
    rw [writes, hwrite]
    dsimp only
    rw [ih (c := { c with packets := c.packets ++ [b] }) hfirst]
    simp [Except.map]

theorem write_empty (draw : ℕ → ℕ) :
    write publicSuffix draw c [] = .ok ({ c with packets := c.packets ++ [[]] }, 0) := by
  unfold write
  rw [if_neg (by simp)]
  rfl

theorem writes_faithful (hsplit : c.splitPacket ∨ c.splitRecord)
    (hfirst : c.firstPacketWritten = false) {bs : List Bytes}
    (h : ∀ first, bs.find? (· ≠ []) = some first → Splittable publicSuffix first) (draw : ℕ → ℕ) :
    Faithful c bs (writes publicSuffix draw c bs) := by
  induction bs generalizing c with
  | nil => exact ⟨c, rfl, by simp, by simp⟩
  | cons b bs ih =>
    by_cases hb : b = []
    · subst hb
      obtain ⟨c', hc', hplain, hrecords⟩ := ih (c := { c with packets := c.packets ++ [[]] }) hsplit hfirst
        (fun first hfind => h first (by simpa using hfind))
      refine ⟨c', ?_, ?_, ?_⟩
      · rw [writes, write_empty]
        dsimp only
        rw [hc']
        rfl
      · intro hrecord
        simpa using hplain hrecord
      · intro hrecord first rest hfilter hfirst
        simpa using hrecords hrecord first rest (by simpa using hfilter) hfirst
    · obtain ⟨packets, sent, hwrite, hpackets, hplain, hrecords⟩ :=
        write_first publicSuffix hsplit hfirst hb (h b (by simp [hb])) draw
      refine ⟨{ c with firstPacketWritten := true, packets := packets ++ bs }, ?_, ?_, ?_⟩
      · rw [writes, hwrite]
        dsimp only
        rw [writes_after publicSuffix (c := { c with firstPacketWritten := true, packets := packets }) rfl]
        rfl
      · intro hrecord
        simp [hpackets, hplain hrecord]
      · intro hrecord first rest hfilter hfirst
        have hcons : b :: bs.filter (· ≠ []) = first :: rest := by rw [← hfilter, filter_cons_of_pos (by simpa using hb)]
        obtain ⟨rfl, rfl⟩ := List.cons.inj hcons
        refine ⟨sent, hrecords hrecord hfirst, ?_⟩
        rw [flatten_filter_ne_nil]
        simp [hpackets]

theorem writes_fail (hfirst : c.firstPacketWritten = false) {bs : List Bytes} {first : Bytes}
    (hfind : bs.find? (· ≠ []) = some first) (h : ¬ Splittable publicSuffix first) :
    ∃ draw fault, ∀ packets, writes publicSuffix draw { c with packets := packets } bs = .error fault := by
  induction bs with
  | nil => cases hfind
  | cons b bs ih =>
    by_cases hb : b = []
    · subst hb
      obtain ⟨draw, fault, hwrites⟩ := ih (by simpa using hfind)
      refine ⟨draw, fault, fun packets => ?_⟩
      rw [writes, write_empty]
      dsimp only
      rw [hwrites]
      rfl
    · obtain rfl : b = first := by simpa [hb] using hfind
      obtain ⟨draw, fault, hwrite⟩ := write_fails publicSuffix hfirst hb h
      refine ⟨draw, fault, fun packets => ?_⟩
      rw [writes, hwrite]

def newConn (splitPacket splitRecord : Bool) : Conn where
  splitPacket := splitPacket
  splitRecord := splitRecord

/-- **Fragmentation does not change the handshake**, whatever positions are drawn, exactly if the first packet can be split. -/
theorem fragment_iff (splitPacket splitRecord : Bool) (hsplit : splitPacket = true ∨ splitRecord = true) (bs : List Bytes) :
    (∀ draw, Faithful (newConn splitPacket splitRecord) bs (writes publicSuffix draw (newConn splitPacket splitRecord) bs)) ↔
      ∀ first, bs.find? (· ≠ []) = some first → Splittable publicSuffix first := by
  constructor
  · intro hall first hfind
    by_contra hnot
    obtain ⟨draw, fault, hfails⟩ := writes_fail publicSuffix (c := newConn splitPacket splitRecord) rfl hfind hnot
    obtain ⟨c', hok, -⟩ := hall draw
    cases (hfails []).symm.trans hok
  · intro h draw
    exact writes_faithful publicSuffix hsplit rfl h draw

def clientHello (name : Bytes) : Bytes :=
  let n := UInt8.ofNat name.length
  [22, 3, 1, 0, 56 + n, 1, 0, 0, 52 + n, 3, 3] ++ List.replicate 32 0 ++ [0, 0, 2, 19, 1, 1, 0, 0, 9 + n] ++
    [0, 0, 0, 5 + n, 0, 3 + n, 0, 0, n] ++ name

def lastLabel (name : Bytes) : Bytes := (name.splitOn dot).getLastD []

theorem clientHello_splittable : Splittable lastLabel (clientHello [97, 46, 98]) := by
  have hrecord : IsRecord (clientHello [97, 46, 98]) := by unfold IsRecord; decide
  have hindex : indexTLSServerName (clientHello [97, 46, 98]) = .found ⟨61, 3, [97, 46, 98], 50⟩ := by decide +kernel
  refine (splittable_of_record lastLabel hrecord).2 fun name hname => ?_
  obtain rfl := Indexed.found.inj (hindex.symm.trans hname)
  decide

theorem fragment_sample :
    (true = true ∨ true = true) ∧
      ∀ draw, Faithful (newConn true true) [[], clientHello [97, 46, 98], [23, 3, 3, 0, 0]]
        (writes lastLabel draw (newConn true true) [[], clientHello [97, 46, 98], [23, 3, 3, 0, 0]]) := by
  refine ⟨.inl rfl, (fragment_iff lastLabel true true (.inl rfl) _).2 fun first hfirst => ?_⟩
  obtain rfl : clientHello [97, 46, 98] = first := Option.some.inj hfirst
  have hindex : indexTLSServerName (clientHello [97, 46, 98]) = .found ⟨61, 3, [97, 46, 98], 50⟩ := by decide +kernel
  unfold Splittable
  rw [hindex]
  decide

/-- a client hello for `.a` makes every choice of the positions panic -/
theorem leading_dot_panics : IsRecord (clientHello [46, 97]) ∧
    ∀ draw splitPacket splitRecord, write lastLabel draw (newConn splitPacket splitRecord) (clientHello [46, 97]) =
      .error .panics := by
  have hindex : indexTLSServerName (clientHello [46, 97]) = .found ⟨61, 2, [46, 97], 50⟩ := by decide +kernel
  refine ⟨by unfold IsRecord; decide, fun draw splitPacket splitRecord => ?_⟩
  unfold write
  rw [if_pos (by simp [newConn, clientHello]), hindex]
  rfl

end EtonifyCore.TLS.Fragment
