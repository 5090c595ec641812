/-
Nonces of the VLESS encryption: `Client.handshake`, and the records behind it.

An instance of `newAEAD` starts with the nonce 0, which goes up before each use. Records use up all values, the last one being
0 again, and go on with a new instance: `Write` makes it once it has sealed, `Read` only if the record opens.

Model: every instance has a number, and each `Seal` and `Open` is logged with its instance and nonce. The outcomes of what can
fail (randomness, reading, writing, `Open`) are arbitrary. Sealed records have the length that `Write` expects.

Result: `nonce_reuse_iff`. No nonce is sealed with twice; none is opened with twice exactly if nothing is opened with an
instance that has come back to 0.
-/
import EtonifyCore.VLESS.RecordLayer

namespace EtonifyCore.VLESS

open List
open Core

/-! ## Model -/

def zeroNonce : Bytes := List.replicate 12 0

/-- `aeadState`: the number of the instance, and its nonce -/
structure Instance where
  id : ℕ
  nonce : Bytes

/-- the number of instances made, and the uses of each, the last one first -/
structure Log where
  instances : ℕ := 0
  seals : List (ℕ × Bytes) := []
  opens : List (ℕ × Bytes) := []

def Log.newAEAD (l : Log) : Instance × Log := (⟨l.instances, zeroNonce⟩, { l with instances := l.instances + 1 })

/-- the nonce of a use: the given one, or the next one of the instance -/
def Instance.next (a : Instance) : Option Bytes → Instance × Bytes
  | none => ({ a with nonce := increaseNonce a.nonce }, increaseNonce a.nonce)
  | some nonce => (a, nonce)

def Instance.seal (a : Instance) (nonce : Option Bytes) (l : Log) : Instance × Log :=
  let (a, nonce) := a.next nonce
  (a, { l with seals := (a.id, nonce) :: l.seals })

def Instance.open (a : Instance) (nonce : Option Bytes) (l : Log) : Instance × Log :=
  let (a, nonce) := a.next nonce
  (a, { l with opens := (a.id, nonce) :: l.opens })

/-- `CommonConn` -/
structure Conn where
  aead : Instance
  peerAEAD : Option Instance
  peerPadding : Bool

/-- `Client.handshake`, with a ticket or without; `ok` is the outcome of each step that can fail -/
def handshake (ticket : Bool) (ok : ℕ → Bool) : Option Conn × Log :=
  let (nfsAEAD, l) := ({} : Log).newAEAD
  if ticket then
    let (nfsAEAD, l) := nfsAEAD.seal none l
    let (_, l) := nfsAEAD.seal none l
    let (aead, l) := l.newAEAD
    (some ⟨aead, none, false⟩, l)
  else
    let (nfsAEAD, l) := nfsAEAD.seal none l
    -- the keys are made
    if !ok 0 then (none, l)
    else
      let (nfsAEAD, l) := nfsAEAD.seal none l
      let (nfsAEAD, l) := nfsAEAD.seal none l
      let (nfsAEAD, l) := nfsAEAD.seal none l
      -- the hello is written, the key of the peer is read
      if !ok 1 then (none, l)
      else
        let (_, l) := nfsAEAD.open (some maximumNonce) l
        if !ok 2 then (none, l)
        else
          let (aead, l) := l.newAEAD
          let (peerAEAD, l) := l.newAEAD
          if !ok 3 then (none, l)
          else
            let (peerAEAD, l) := peerAEAD.open none l
            -- the ticket opens, the length of the padding is read
            if !ok 4 then (none, l)
            else
              let (peerAEAD, l) := peerAEAD.open none l
              if !ok 5 then (none, l) else (some ⟨aead, some peerAEAD, true⟩, l)

/-- one round of the loop of `Write`, whether the record can be sent or not -/
def Conn.writeChunk (c : Conn) (l : Log) : Conn × Log :=
  let nonceAtMaximum := c.aead.nonce = maximumNonce
  let (aead, l) := c.aead.seal none l
  if nonceAtMaximum then
    let (aead, l) := l.newAEAD
    ({ c with aead }, l)
  else ({ c with aead }, l)

/-- the outcomes in a `Read` -/
structure Outcomes where
  serverRandom : Bool := true
  paddingRead : Bool := true
  paddingOpens : Bool := true
  /-- there is input left from the record before -/
  inputLeft : Bool := false
  recordRead : Bool := true
  opens : Bool := true

/-- the part of `Read` that makes the instance of the peer; `none` is an error -/
def Conn.readRandom (c : Conn) (o : Outcomes) (l : Log) : Option Instance × Log :=
  match c.peerAEAD with
  | some a => (some a, l)
  | none =>
    if o.serverRandom then
      let (a, l) := l.newAEAD
      (some a, l)
    else (none, l)

/-- the part of `Read` behind the padding -/
def Conn.readRecord (c : Conn) (a : Instance) (o : Outcomes) (l : Log) : Conn × Log :=
  if o.inputLeft || !o.recordRead then ({ c with peerAEAD := some a }, l)
  else if a.nonce = maximumNonce then
    let (nextAEAD, l) := l.newAEAD
    let (a, l) := a.open none l
    ({ c with peerAEAD := some (if o.opens then nextAEAD else a) }, l)
  else
    let (a, l) := a.open none l
    ({ c with peerAEAD := some a }, l)

/-- the part of `Read` from the padding on -/
def Conn.readPadding (c : Conn) (a : Instance) (o : Outcomes) (l : Log) : Conn × Log :=
  if c.peerPadding then
    if !o.paddingRead then ({ c with peerAEAD := some a }, l)
    else
      let (a, l) := a.open none l
      if !o.paddingOpens then ({ c with peerAEAD := some a }, l)
      else ({ c with peerPadding := false }).readRecord a o l
  else c.readRecord a o l

def Conn.read (c : Conn) (o : Outcomes) (l : Log) : Conn × Log :=
  match c.readRandom o l with
  | (none, l) => (c, l)
  | (some a, l) => c.readPadding a o l

inductive Op where
  | writeChunk
  | read (o : Outcomes)

def step (s : Conn × Log) : Op → Conn × Log
  | .writeChunk => s.1.writeChunk s.2
  | .read o => s.1.read o s.2

/-- a connection and its records -/
def run (ticket : Bool) (ok : ℕ → Bool) (ops : List Op) : Log :=
  match handshake ticket ok with
  | (none, l) => l
  | (some c, l) => (ops.foldl step (c, l)).2

/-! ## Nonces as numbers -/

def value (nonce : Bytes) : ℕ := counter nonce.reverse

theorem counter_inj {bs cs : Bytes} (hlength : bs.length = cs.length) (h : counter bs = counter cs) : bs = cs := by
  induction bs generalizing cs with
  | nil => exact (length_eq_zero_iff.1 hlength.symm).symm
  | cons b bs ih =>
    cases cs with
    | nil => cases hlength
    | cons c cs =>
      have hb : b.toNat < 256 := b.toNat_lt
      have hc : c.toNat < 256 := c.toNat_lt
      rw [counter, counter] at h
      rw [UInt8.toNat_inj.1 (show b.toNat = c.toNat by omega), ih (Nat.succ.inj hlength) (by omega)]

theorem length_increaseNonce (nonce : Bytes) : (increaseNonce nonce).length = nonce.length := by
  have hfrom : ∀ bs : Bytes, (increaseFrom bs).length = bs.length := by
    intro bs
    induction bs with
    | nil => rfl
    | cons b bs ih => unfold increaseFrom; split_ifs <;> simp [ih]
  rw [increaseNonce, length_reverse, hfrom, length_reverse]

theorem value_maximumNonce : value maximumNonce = 2 ^ 96 - 1 := by decide

theorem eq_maximumNonce {nonce : Bytes} (hlength : nonce.length = 12) (h : value nonce = 2 ^ 96 - 1) : nonce = maximumNonce :=
  reverse_injective (counter_inj (by simp [hlength, maximumNonce]) (h.trans value_maximumNonce.symm))

theorem value_lt {nonce : Bytes} (hlength : nonce.length = 12) (h : nonce ≠ maximumNonce) : value nonce + 1 < 2 ^ 96 := by
  have hlt := counter_lt nonce.reverse
  rw [length_reverse, hlength] at hlt
  have hne : value nonce ≠ 2 ^ 96 - 1 := fun heq => h (eq_maximumNonce hlength heq)
  norm_num at hlt
  rw [value] at hne ⊢
  omega

theorem value_increase {nonce : Bytes} (hlength : nonce.length = 12) (h : nonce ≠ maximumNonce) :
    value (increaseNonce nonce) = value nonce + 1 := by
  rw [value, nonce_increaseNonce _ hlength]
  exact Nat.mod_eq_of_lt (value_lt hlength h)

theorem increase_maximumNonce : increaseNonce maximumNonce = zeroNonce := by decide

/-! ## The uses of an instance -/

/-- the uses are all different, and those of the instance are the nonces up to its own -/
structure Live (uses : List (ℕ × Bytes)) (a : Instance) : Prop where
  nodup : uses.Nodup
  length : a.nonce.length = 12
  used : ∀ u ∈ uses, u.1 = a.id → 1 ≤ value u.2 ∧ value u.2 ≤ value a.nonce
  begun : a.nonce ≠ zeroNonce → (a.id, increaseNonce zeroNonce) ∈ uses

/-- the instance has come back to 0 -/
structure Spent (uses : List (ℕ × Bytes)) (a : Instance) : Prop where
  nodup : uses.Nodup
  nonce : a.nonce = zeroNonce
  last : (a.id, zeroNonce) ∈ uses
  begun : (a.id, increaseNonce zeroNonce) ∈ uses

variable {uses : List (ℕ × Bytes)} {a : Instance}

theorem Live.not_last (h : Live uses a) : (a.id, zeroNonce) ∉ uses := fun hmem => by
  have hpos : 1 ≤ value zeroNonce := (h.used _ hmem rfl).1
  exact absurd hpos (by decide)

/-- a new instance -/
theorem live_new {n : ℕ} (hnodup : uses.Nodup) (hids : ∀ u ∈ uses, u.1 < n) : Live uses ⟨n, zeroNonce⟩ :=
  ⟨hnodup, rfl, fun u hu hid => absurd (hids u hu) (Nat.lt_irrefl _ ∘ (hid ▸ ·)), fun hne => absurd rfl hne⟩

theorem Live.use (h : Live uses a) (hne : a.nonce ≠ maximumNonce) :
    Live ((a.id, increaseNonce a.nonce) :: uses) ⟨a.id, increaseNonce a.nonce⟩ := by
  have hvalue := value_increase h.length hne
  refine ⟨nodup_cons.2 ⟨fun hmem => ?_, h.nodup⟩, (length_increaseNonce _).trans h.length, fun u hu hid => ?_, fun _ => ?_⟩
  · have hle := (h.used _ hmem rfl).2
    dsimp only at hle
    omega
  · dsimp only at hid ⊢
    rcases mem_cons.1 hu with rfl | hu
    · exact ⟨by dsimp only; omega, le_rfl⟩
    · obtain ⟨h1, h2⟩ := h.used u hu hid
      exact ⟨h1, by omega⟩
  · by_cases hzero : a.nonce = zeroNonce
    · rw [hzero]
      exact mem_cons_self
    · exact mem_cons_of_mem _ (h.begun hzero)

/-- the last use of an instance is the one with the nonce 0 -/
theorem Live.last_use (h : Live uses a) (hmax : a.nonce = maximumNonce) :
    Spent ((a.id, increaseNonce a.nonce) :: uses) ⟨a.id, increaseNonce a.nonce⟩ := by
  rw [hmax, increase_maximumNonce]
  exact ⟨nodup_cons.2 ⟨h.not_last, h.nodup⟩, rfl, mem_cons_self, mem_cons_of_mem _ (h.begun (by rw [hmax]; decide))⟩

theorem Spent.reuse (h : Spent uses a) : ¬ ((a.id, increaseNonce a.nonce) :: uses).Nodup := by
  rw [h.nonce, nodup_cons]
  exact fun hno => hno.1 h.begun

/-! ## Sealing -/

structure Sealing (c : Conn) (l : Log) : Prop where
  live : Live l.seals c.aead
  ids : ∀ u ∈ l.seals, u.1 < l.instances
  id : c.aead.id < l.instances

theorem Sealing.writeChunk {c : Conn} {l : Log} (h : Sealing c l) : Sealing (c.writeChunk l).1 (c.writeChunk l).2 := by
  have hids : ∀ u ∈ (c.aead.id, increaseNonce c.aead.nonce) :: l.seals, u.1 < l.instances := by
    intro u hu
    rcases mem_cons.1 hu with rfl | hu
    · exact h.id
    · exact h.ids u hu
  unfold Conn.writeChunk
  dsimp only [Instance.seal, Instance.next, Log.newAEAD]
  by_cases hmax : c.aead.nonce = maximumNonce
  · rw [if_pos hmax]
    exact ⟨live_new (h.live.last_use hmax).nodup hids, fun u hu => (hids u hu).trans (Nat.lt_succ_self _), Nat.lt_succ_self _⟩
  · rw [if_neg hmax]
    exact ⟨h.live.use hmax, hids, h.id⟩

/-! ## Opening -/

/-- the instance has opened with all its nonces -/
def Log.UsedUp (l : Log) (a : Instance) : Prop := (a.id, zeroNonce) ∈ l.opens

/-- a `Read` opens nothing with an instance that is used up -/
def Conn.Fresh (c : Conn) (o : Outcomes) (l : Log) : Prop :=
  match c.readRandom o l with
  | (none, _) => True
  | (some a, l) =>
    if c.peerPadding then
      o.paddingRead = true → ¬ l.UsedUp a ∧
        (o.paddingOpens = true → o.inputLeft = false → o.recordRead = true →
          ¬ (a.open none l).2.UsedUp (a.open none l).1)
    else o.inputLeft = false → o.recordRead = true → ¬ l.UsedUp a

def freshFrom : Conn × Log → List Op → Prop
  | _, [] => True
  | s, op :: ops => (∀ o, op = .read o → s.1.Fresh o s.2) ∧ freshFrom (step s op) ops

/-- no `Read` of the run opens with an instance that is used up -/
def FreshRun (ticket : Bool) (ok : ℕ → Bool) (ops : List Op) : Prop :=
  ∀ c l, handshake ticket ok = (some c, l) → freshFrom (c, l) ops

structure Opening (peer : Option Instance) (l : Log) : Prop where
  nodup : l.opens.Nodup
  ids : ∀ u ∈ l.opens, u.1 < l.instances
  id : ∀ a, peer = some a → a.id < l.instances
  state : ∀ a, peer = some a → Live l.opens a ∨ Spent l.opens a

variable {c : Conn} {l : Log} {o : Outcomes}

theorem Opening.usedUp_iff (h : Opening (some a) l) : l.UsedUp a ↔ Spent l.opens a := by
  refine ⟨fun hused => (h.state a rfl).resolve_left fun hlive => hlive.not_last hused, fun hspent => hspent.last⟩

/-- the log of an instance that opens once more -/
theorem Opening.ids_open (h : Opening (some a) l) : ∀ u ∈ (a.open none l).2.opens, u.1 < l.instances := by
  intro u hu
  rcases mem_cons.1 hu with rfl | hu
  · exact h.id a rfl
  · exact h.ids u hu

theorem Opening.open (h : Opening (some a) l) (hfresh : ¬ l.UsedUp a) : Opening (some (a.open none l).1) (a.open none l).2 := by
  have hlive := (h.state a rfl).resolve_right fun hspent => hfresh hspent.last
  have hid : ∀ a', some (a.open none l).1 = some a' → a'.id < l.instances := by
    rintro _ ⟨⟩
    exact h.id a rfl
  by_cases hmax : a.nonce = maximumNonce
  · have hspent := hlive.last_use hmax
    exact ⟨hspent.nodup, h.ids_open, hid, fun _ heq => .inr (Option.some.inj heq ▸ hspent)⟩
  · have hused := hlive.use hmax
    exact ⟨hused.nodup, h.ids_open, hid, fun _ heq => .inl (Option.some.inj heq ▸ hused)⟩

theorem Opening.reuse (h : Opening (some a) l) (hused : l.UsedUp a) : ¬ (a.open none l).2.opens.Nodup :=
  (h.usedUp_iff.1 hused).reuse

/-- an instance is made -/
theorem Opening.newAEAD {peer : Option Instance} (h : Opening peer l) :
    Opening peer l.newAEAD.2 ∧ Opening (some l.newAEAD.1) l.newAEAD.2 := by
  have hids : ∀ u ∈ l.opens, u.1 < l.instances + 1 := fun u hu => (h.ids u hu).trans (Nat.lt_succ_self _)
  refine ⟨⟨h.nodup, hids, fun a ha => (h.id a ha).trans (Nat.lt_succ_self _), h.state⟩, h.nodup, hids, ?_, ?_⟩
  · rintro _ ⟨⟩
    exact Nat.lt_succ_self _
  · rintro _ ⟨⟩
    exact .inl (live_new h.nodup h.ids)

theorem Opening.readRecord (h : Opening (some a) l) :
    ((o.inputLeft = false → o.recordRead = true → ¬ l.UsedUp a) →
      Opening (c.readRecord a o l).1.peerAEAD (c.readRecord a o l).2) ∧
    (¬ (o.inputLeft = false → o.recordRead = true → ¬ l.UsedUp a) → ¬ (c.readRecord a o l).2.opens.Nodup) := by
  unfold Conn.readRecord
  by_cases hskip : (o.inputLeft || !o.recordRead) = true
  · rw [if_pos hskip]
    refine ⟨fun _ => h, fun hno => absurd (fun hleft hread => ?_) hno⟩
    simp [hleft, hread] at hskip
  · rw [if_neg hskip]
    have hboth : o.inputLeft = false ∧ o.recordRead = true := by simpa using hskip
    simp only [hboth, forall_const, not_not]
    by_cases hmax : a.nonce = maximumNonce
    · rw [if_pos hmax]
      obtain ⟨hold, hnew⟩ := h.newAEAD
      refine ⟨fun hfresh => ?_, fun hused => h.reuse hused⟩
      have hopened := hold.open hfresh
      cases o.opens with
      | false => exact hopened
      | true =>
        refine ⟨hopened.nodup, hopened.ids, fun _ heq => hnew.id _ heq, ?_⟩
        rintro _ ⟨⟩
        exact .inl (live_new hopened.nodup h.ids_open)
    · rw [if_neg hmax]
      exact ⟨fun hfresh => h.open hfresh, fun hused => h.reuse hused⟩

/-- the log of openings only grows -/
theorem opens_suffix (s : Conn × Log) (op : Op) : s.2.opens <:+ (step s op).2.opens := by
  have hrecord : ∀ (c : Conn) (a : Instance) (o : Outcomes) (l : Log), l.opens <:+ (c.readRecord a o l).2.opens := by
    intro c a o l
    unfold Conn.readRecord
    split_ifs <;> first | exact suffix_refl _ | exact suffix_cons _ _
  cases op with
  | writeChunk =>
    dsimp only [step, Conn.writeChunk, Instance.seal, Instance.next, Log.newAEAD]
    split_ifs <;> exact suffix_refl _
  | read o =>
    have hpadding : ∀ (a : Instance) (l : Log), l.opens <:+ (s.1.readPadding a o l).2.opens := by
      intro a l
      unfold Conn.readPadding
      dsimp only [Instance.open, Instance.next]
      split_ifs
      · exact suffix_refl _
      · exact suffix_cons _ _
      · exact (suffix_cons (a.id, increaseNonce a.nonce) l.opens).trans (hrecord _ _ _ ⟨_, _, _⟩)
      · exact hrecord _ _ _ _
    dsimp only [step, Conn.read, Conn.readRandom]
    cases s.1.peerAEAD with
    | some a => exact hpadding a s.2
    | none =>
      cases o.serverRandom with
      | false => exact suffix_refl _
      | true => exact hpadding s.2.newAEAD.1 s.2.newAEAD.2

theorem run_suffix (ops : List Op) (s : Conn × Log) : s.2.opens <:+ (ops.foldl step s).2.opens := by
  induction ops generalizing s with
  | nil => exact suffix_refl _
  | cons op ops ih => exact (opens_suffix s op).trans (ih _)

theorem Opening.readPadding (h : Opening (some a) l) (hrandom : c.readRandom o l' = (some a, l)) :
    (c.Fresh o l' → Opening (c.readPadding a o l).1.peerAEAD (c.readPadding a o l).2) ∧
    (¬ c.Fresh o l' → ¬ (c.readPadding a o l).2.opens.Nodup) := by
  unfold Conn.Fresh
  rw [hrandom]
  unfold Conn.readPadding
  dsimp only
  cases hpadding : c.peerPadding with
  | false =>
    rw [if_neg Bool.false_ne_true, if_neg Bool.false_ne_true]
    exact h.readRecord
  | true =>
    rw [if_pos rfl, if_pos rfl]
    cases hread : o.paddingRead with
    | false => exact ⟨fun _ => h, fun hno => absurd nofun hno⟩
    | true =>
      rw [if_neg (by simp)]
      by_cases hused : l.UsedUp a
      · refine ⟨fun hfresh => absurd hused (hfresh rfl).1, fun _ hnodup => h.reuse hused ?_⟩
        cases hopens : o.paddingOpens with
        | false => simpa [hopens] using hnodup
        | true =>
          rw [hopens, if_neg (by simp)] at hnodup
          have hsuffix := opens_suffix (⟨c.aead, some (a.open none l).1, false⟩, (a.open none l).2) (.read o)
          exact hnodup.sublist hsuffix.sublist
      · have hopened := h.open hused
        cases hopens : o.paddingOpens with
        | false => exact ⟨fun _ => hopened, fun hno => absurd (fun _ => ⟨hused, nofun⟩) hno⟩
        | true =>
          rw [if_neg (by simp)]
          have hrecord := hopened.readRecord (c := { c with peerPadding := false }) (o := o)
          refine ⟨fun hfresh => hrecord.1 ((hfresh rfl).2 rfl), fun hno => hrecord.2 fun hfresh => hno fun _ => ⟨hused, fun _ => hfresh⟩⟩

theorem Opening.read (h : Opening c.peerAEAD l) :
    (c.Fresh o l → Opening (c.read o l).1.peerAEAD (c.read o l).2) ∧ (¬ c.Fresh o l → ¬ (c.read o l).2.opens.Nodup) := by
  unfold Conn.read
  cases hrandom : c.readRandom o l with
  | mk peer l' =>
    unfold Conn.readRandom at hrandom
    cases hpeer : c.peerAEAD with
    | some a =>
      rw [hpeer] at hrandom h
      obtain ⟨rfl, rfl⟩ := Prod.mk.inj hrandom
      exact h.readPadding (by rw [Conn.readRandom, hpeer])
    | none =>
      rw [hpeer] at hrandom
      cases hok : o.serverRandom with
      | false =>
        rw [hok] at hrandom
        obtain ⟨rfl, rfl⟩ := Prod.mk.inj hrandom
        refine ⟨fun _ => h, fun hno => absurd ?_ hno⟩
        simp [Conn.Fresh, Conn.readRandom, hpeer, hok]
      | true =>
        rw [hok] at hrandom
        obtain ⟨rfl, rfl⟩ := Prod.mk.inj hrandom
        exact h.newAEAD.2.readPadding (by rw [Conn.readRandom, hpeer, hok]; rfl)

/-! ## Both sides -/

/-- `Read` seals nothing, and the instance of `Write` stays -/
theorem Sealing.read (h : Sealing c l) (o : Outcomes) : Sealing (c.read o l).1 (c.read o l).2 := by
  have hgrow : ∀ (c' : Conn) (l' : Log), c'.aead = c.aead → l'.seals = l.seals → l.instances ≤ l'.instances → Sealing c' l' := by
    rintro c' l' hc hl hle
    exact ⟨by rw [hc, hl]; exact h.live, fun u hu => (h.ids u (hl ▸ hu)).trans_le hle, by rw [hc]; exact h.id.trans_le hle⟩
  have hrecord : ∀ (p : Bool) (a : Instance) (l' : Log), l'.seals = l.seals → l.instances ≤ l'.instances →
      Sealing ((⟨c.aead, c.peerAEAD, p⟩ : Conn).readRecord a o l').1 ((⟨c.aead, c.peerAEAD, p⟩ : Conn).readRecord a o l').2 := by
    intro p a l' hl hle
    dsimp only [Conn.readRecord, Instance.open, Instance.next, Log.newAEAD]
    split_ifs
    · exact hgrow _ _ rfl hl hle
    all_goals first | exact hgrow _ _ rfl hl hle | exact hgrow _ _ rfl hl (hle.trans (Nat.le_succ _))
  have hpadding : ∀ (a : Instance) (l' : Log), l'.seals = l.seals → l.instances ≤ l'.instances →
      Sealing (c.readPadding a o l').1 (c.readPadding a o l').2 := by
    intro a l' hl hle
    unfold Conn.readPadding
    dsimp only [Instance.open, Instance.next]
    split_ifs
    · exact hgrow _ _ rfl hl hle
    · exact hgrow _ _ rfl hl hle
    · exact hrecord false _ _ hl hle
    · exact hrecord c.peerPadding a l' hl hle
  dsimp only [Conn.read, Conn.readRandom]
  cases c.peerAEAD with
  | some a => exact hpadding a l rfl le_rfl
  | none =>
    cases o.serverRandom with
    | false => exact h
    | true => exact hpadding l.newAEAD.1 l.newAEAD.2 rfl (Nat.le_succ _)

/-- `Write` opens nothing, and the instance of the peer stays -/
theorem Opening.writeChunk (h : Opening c.peerAEAD l) :
    Opening (c.writeChunk l).1.peerAEAD (c.writeChunk l).2 := by
  dsimp only [Conn.writeChunk, Instance.seal, Instance.next, Log.newAEAD]
  split_ifs
  · exact { h.newAEAD.1 with }
  · exact { h with }

theorem step_spec {s : Conn × Log} (hseal : Sealing s.1 s.2) (hopen : Opening s.1.peerAEAD s.2) (op : Op) :
    Sealing (step s op).1 (step s op).2 ∧
    ((∀ o, op = .read o → s.1.Fresh o s.2) → Opening (step s op).1.peerAEAD (step s op).2) ∧
    (¬ (∀ o, op = .read o → s.1.Fresh o s.2) → ¬ (step s op).2.opens.Nodup) := by
  cases op with
  | writeChunk => exact ⟨hseal.writeChunk, fun _ => hopen.writeChunk, fun hno => absurd (fun _ => nofun) hno⟩
  | read o =>
    refine ⟨hseal.read o, fun hfresh => hopen.read.1 (hfresh o rfl), fun hno => hopen.read.2 fun hfresh => hno ?_⟩
    rintro _ ⟨⟩
    exact hfresh

theorem run_seals (ops : List Op) {s : Conn × Log} (hseal : Sealing s.1 s.2) :
    Sealing (ops.foldl step s).1 (ops.foldl step s).2 := by
  induction ops generalizing s with
  | nil => exact hseal
  | cons op ops ih =>
    refine ih ?_
    cases op with
    | writeChunk => exact hseal.writeChunk
    | read o => exact hseal.read o

theorem run_opens (ops : List Op) {s : Conn × Log} (hseal : Sealing s.1 s.2) (hopen : Opening s.1.peerAEAD s.2) :
    (ops.foldl step s).2.opens.Nodup ↔ freshFrom s ops := by
  induction ops generalizing s with
  | nil => exact iff_of_true hopen.nodup trivial
  | cons op ops ih =>
    obtain ⟨hseal', hkept, hreuse⟩ := step_spec hseal hopen op
    rw [foldl_cons, freshFrom]
    by_cases hfresh : ∀ o, op = .read o → s.1.Fresh o s.2
    · rw [ih hseal' (hkept hfresh)]
      exact (and_iff_right hfresh).symm
    · exact iff_of_false (fun hnodup => hreuse hfresh (hnodup.sublist (run_suffix ops _).sublist)) fun h => hfresh h.1

/-! ## The handshake -/

theorem handshake_spec (ticket : Bool) (ok : ℕ → Bool) :
    (handshake ticket ok).2.seals.Nodup ∧ (handshake ticket ok).2.opens.Nodup ∧
    ∀ c, (handshake ticket ok).1 = some c →
      Sealing c (handshake ticket ok).2 ∧ Opening c.peerAEAD (handshake ticket ok).2 := by
  unfold handshake
  generalize ok 0 = ok₀, ok 1 = ok₁, ok 2 = ok₂, ok 3 = ok₃, ok 4 = ok₄, ok 5 = ok₅
  cases ticket with
  | true =>
    simp only [if_true]
    refine ⟨by decide, by decide, ?_⟩
    rintro _ ⟨⟩
    exact ⟨⟨live_new (by decide) (by decide), by decide, by decide⟩, nodup_nil, nofun, nofun, nofun⟩
  | false =>
    simp only [Bool.false_eq_true, if_false]
    cases ok₀ with
    | false =>
      simp only [Bool.not_false, if_true]
      exact ⟨by decide, by decide, nofun⟩
    | true =>
      simp only [Bool.not_true, Bool.false_eq_true, if_false]
      cases ok₁ with
      | false =>
        simp only [Bool.not_false, if_true]
        exact ⟨by decide, by decide, nofun⟩
      | true =>
        simp only [Bool.not_true, Bool.false_eq_true, if_false]
        cases ok₂ with
        | false =>
          simp only [Bool.not_false, if_true]
          exact ⟨by decide, by decide, nofun⟩
        | true =>
          simp only [Bool.not_true, Bool.false_eq_true, if_false]
          cases ok₃ with
          | false =>
            simp only [Bool.not_false, if_true]
            exact ⟨by decide, by decide, nofun⟩
          | true =>
            simp only [Bool.not_true, Bool.false_eq_true, if_false]
            cases ok₄ with
            | false =>
              simp only [Bool.not_false, if_true]
              exact ⟨by decide, by decide, nofun⟩
            | true =>
              simp only [Bool.not_true, Bool.false_eq_true, if_false]
              cases ok₅ with
              | false =>
                simp only [Bool.not_false, if_true]
                exact ⟨by decide, by decide, nofun⟩
              | true =>
                simp only [Bool.not_true, Bool.false_eq_true, if_false]
                refine ⟨by decide, by decide, ?_⟩
                rintro _ ⟨⟩
                refine ⟨⟨live_new (by decide) (by decide), by decide, by decide⟩, by decide, by decide, ?_, ?_⟩
                · rintro _ ⟨⟩
                  decide
                · rintro _ ⟨⟩
                  exact .inl ⟨by decide, by decide, by decide, fun _ => by decide⟩

/-- **Reuse of nonces.** Whatever fails in the handshake and behind it, no instance seals twice with a nonce; none opens twice
with one exactly if no `Read` opens with an instance that is used up. -/
theorem nonce_reuse_iff (ticket : Bool) (ok : ℕ → Bool) (ops : List Op) :
    (run ticket ok ops).seals.Nodup ∧ ((run ticket ok ops).opens.Nodup ↔ FreshRun ticket ok ops) := by
  obtain ⟨hseals, hopens, hconn⟩ := handshake_spec ticket ok
  unfold run FreshRun
  cases hhandshake : handshake ticket ok with
  | mk conn l =>
    rw [hhandshake] at hseals hopens hconn
    cases conn with
    | none => exact ⟨hseals, iff_of_true hopens nofun⟩
    | some c =>
      obtain ⟨hseal, hopen⟩ := hconn c rfl
      refine ⟨(run_seals ops hseal).live.nodup, (run_opens ops hseal hopen).trans ⟨?_, fun h => h c l rfl⟩⟩
      rintro h _ _ ⟨⟩
      exact h

/-! ## A record that does not open -/

/-- the connection after a handshake without a ticket -/
def established : Conn × Log :=
  (⟨⟨1, zeroNonce⟩, some ⟨2, increaseNonce (increaseNonce zeroNonce)⟩, true⟩, (handshake false fun _ => true).2)

/-- so many records that open -/
def received (n : ℕ) : List Op := replicate n (.read {})

/-- the instance counts the records: two nonces are used up by the handshake, one by the padding -/
theorem received_nonce (n : ℕ) (hn : n + 5 ≤ 2 ^ 96) :
    ∃ nonce, ((received (n + 1)).foldl step established).1.peerAEAD = some ⟨2, nonce⟩ ∧
      ((received (n + 1)).foldl step established).1.peerPadding = false ∧ nonce.length = 12 ∧ value nonce = n + 4 := by
  induction n with
  | zero => exact ⟨increaseNonce (increaseNonce (increaseNonce (increaseNonce zeroNonce))), rfl, rfl, rfl, by decide⟩
  | succ n ih =>
    obtain ⟨nonce, hpeer, hpadding, hlength, hvalue⟩ := ih (by omega)
    have hne : nonce ≠ maximumNonce := by
      rintro rfl
      rw [value_maximumNonce] at hvalue
      omega
    have hstep : received (n + 1 + 1) = received (n + 1) ++ [.read {}] := replicate_succ'
    rw [hstep, foldl_append]
    generalize (received (n + 1)).foldl step established = s at hpeer hpadding ⊢
    refine ⟨increaseNonce nonce, ?_, ?_, (length_increaseNonce _).trans hlength, ?_⟩
    · simp [step, Conn.read, Conn.readRandom, hpeer, Conn.readPadding, hpadding, Conn.readRecord, hne, Instance.open, Instance.next]
    · simp [step, Conn.read, Conn.readRandom, hpeer, Conn.readPadding, hpadding, Conn.readRecord, hne, Instance.open, Instance.next]
    · rw [value_increase hlength hne, hvalue]

/-- the record at the maximum does not open, and the next one opens with the nonce 1 again -/
theorem failed_record_reuses :
    ¬ (run false (fun _ => true) (received (2 ^ 96 - 4) ++ [.read { opens := false }, .read {}])).opens.Nodup := by
  obtain ⟨n, hn, hlast⟩ : ∃ n, 2 ^ 96 - 4 = n + 1 ∧ n + 5 = 2 ^ 96 := ⟨2 ^ 96 - 5, by norm_num, by norm_num⟩
  obtain ⟨nonce, hpeer, hpadding, hlength, hvalue⟩ := received_nonce n hlast.le
  obtain rfl : nonce = maximumNonce := eq_maximumNonce hlength (by omega)
  have hbegun : (2, increaseNonce zeroNonce) ∈ ((received (n + 1)).foldl step established).2.opens :=
    (run_suffix _ established).subset (by decide)
  have hrun : run false (fun _ => true) (received (n + 1) ++ [.read { opens := false }, .read {}]) =
      (step (step ((received (n + 1)).foldl step established) (.read { opens := false })) (.read {})).2 := by
    rw [run]
    change (foldl step established _).2 = _
    rw [foldl_append]
    rfl
  rw [hn, hrun]
  generalize (received (n + 1)).foldl step established = s at hpeer hpadding hbegun ⊢
  have hzero : zeroNonce ≠ maximumNonce := by decide
  simp [step, Conn.read, Conn.readRandom, hpeer, Conn.readPadding, hpadding, Conn.readRecord, Instance.open, Instance.next,
    Log.newAEAD, increase_maximumNonce, hzero, hbegun]

end EtonifyCore.VLESS
