/-
The key of a response in the cache file: a name made of the tag, the subnet and the environment, and the name and the type of
the question. The class and a subnet that is not valid are left out, and the tag may itself end in what looks like a subnet or
an environment.

Premises (`PrefixText`): `netip.Prefix.String` gives different valid prefixes different texts, without control characters.
-/
import EtonifyCore.Core.Fields
import EtonifyCore.CacheFile.DNSCache
import EtonifyCore.DNSClient.Client

namespace EtonifyCore.DNSClient

open List
open Core (field Plain Shift fields_eq_iff)
open CacheFile CacheKey

/-! ## Texts -/

structure PrefixText (prefixString : Prefix → String) : Prop where
  injective : ∀ p q, p.isValid = true → q.isValid = true → prefixString p = prefixString q → p = q
  plain : ∀ p, p.isValid = true → '\x00' ∉ (prefixString p).toList ∧ '\x01' ∉ (prefixString p).toList

def value36 (c : Char) : ℕ := if c.toNat < 58 then c.toNat - 48 else c.toNat - 87

theorem value36_digit36 : ∀ d < 36, value36 (digit36 d) = d := by decide

theorem digit36_plain : ∀ d < 36, digit36 d ≠ '\x00' ∧ digit36 d ≠ '\x01' := by decide

theorem formatBase36_toList {n : ℕ} (hn : n ≠ 0) : (formatBase36 n).toList = (Nat.digits 36 n).reverse.map digit36 := by
  rw [formatBase36, if_neg hn, String.toList_ofList]

theorem map_value36 (n : ℕ) : ((Nat.digits 36 n).reverse.map digit36).map value36 = (Nat.digits 36 n).reverse := by
  rw [map_map]
  refine (map_congr_left fun d hd => ?_).trans (map_id _)
  exact value36_digit36 d (Nat.digits_lt_base (by decide) (mem_reverse.1 hd))

theorem formatBase36_inj {n m : ℕ} (hn : n ≠ 0) (hm : m ≠ 0) (h : formatBase36 n = formatBase36 m) : n = m := by
  have hlist := congrArg String.toList h
  rw [formatBase36_toList hn, formatBase36_toList hm] at hlist
  have hdigits : (Nat.digits 36 n).reverse = (Nat.digits 36 m).reverse := by
    rw [← map_value36 n, ← map_value36 m, hlist]
  exact Nat.digits_inj_iff.1 (reverse_injective hdigits)

theorem formatBase36_plain {n : ℕ} (hn : n ≠ 0) :
    '\x00' ∉ (formatBase36 n).toList ∧ '\x01' ∉ (formatBase36 n).toList := by
  rw [formatBase36_toList hn]
  refine ⟨fun hmem => ?_, fun hmem => ?_⟩
  · obtain ⟨d, hd, hchar⟩ := mem_map.1 hmem
    exact (digit36_plain d (Nat.digits_lt_base (by decide) (mem_reverse.1 hd))).1 hchar
  · obtain ⟨d, hd, hchar⟩ := mem_map.1 hmem
    exact (digit36_plain d (Nat.digits_lt_base (by decide) (mem_reverse.1 hd))).2 hchar

/-! ## The name of a key -/

namespace CacheKey

variable (prefixString : Prefix → String) (k : CacheKey)

def subnetText : Option (List Char) :=
  if k.clientSubnet.isValid then some (prefixString k.clientSubnet).toList else none

def environmentText : Option (List Char) := if k.environment = 0 then none else some (formatBase36 k.environment).toList

def saveKey : SaveCacheKey := ⟨k.persistentName prefixString, k.question.name, k.question.qtype⟩

theorem persistentName_toList : (k.persistentName prefixString).toList =
      k.transportTag.toList ++ (field '\x00' (k.subnetText prefixString) ++ field '\x01' k.environmentText) := by
  rw [persistentName, String.toList_append, String.toList_append, append_assoc]
  congr 2
  · rw [subnetText]
    split_ifs
    · rw [String.toList_append]
      rfl
    · rfl
  · rw [environmentText]
    split_ifs
    · rfl
    · rw [String.toList_append]
      rfl

end CacheKey

variable {prefixString : Prefix → String} {k k' : CacheKey}

theorem plain_subnetText (h : PrefixText prefixString) (k : CacheKey) :
    Plain '\x00' '\x01' (k.subnetText prefixString) := by
  intro text htext
  rw [subnetText] at htext
  split_ifs at htext with hvalid
  · obtain rfl := Option.mem_some.1 htext
    exact h.plain _ hvalid
  · cases htext

theorem plain_environmentText (k : CacheKey) : Plain '\x00' '\x01' k.environmentText := by
  intro text htext
  rw [environmentText] at htext
  split_ifs at htext with hzero
  · cases htext
  · obtain rfl := Option.mem_some.1 htext
    exact formatBase36_plain hzero

theorem subnetText_eq_iff (h : PrefixText prefixString) : k.subnetText prefixString = k'.subnetText prefixString ↔
      k.clientSubnet = k'.clientSubnet ∨ k.clientSubnet.isValid = false ∧ k'.clientSubnet.isValid = false := by
  rw [subnetText, subnetText]
  by_cases hvalid : k.clientSubnet.isValid
  · by_cases hvalid' : k'.clientSubnet.isValid
    · rw [if_pos hvalid, if_pos hvalid', Option.some.injEq, String.toList_inj]
      constructor
      · exact fun htext => .inl (h.injective _ _ hvalid hvalid' htext)
      · rintro (heq | ⟨hno, -⟩)
        · rw [heq]
        · rw [hvalid] at hno
          cases hno
    · rw [if_pos hvalid, if_neg hvalid']
      constructor
      · nofun
      · rintro (heq | ⟨hno, -⟩)
        · rw [heq] at hvalid
          exact absurd hvalid hvalid'
        · rw [hvalid] at hno
          cases hno
  · by_cases hvalid' : k'.clientSubnet.isValid
    · rw [if_neg hvalid, if_pos hvalid']
      constructor
      · nofun
      · rintro (heq | ⟨-, hno⟩)
        · rw [heq] at hvalid
          exact absurd hvalid' hvalid
        · rw [hvalid'] at hno
          cases hno
    · rw [if_neg hvalid, if_neg hvalid']
      rw [Bool.not_eq_true] at hvalid hvalid'
      exact ⟨fun _ => .inr ⟨hvalid, hvalid'⟩, fun _ => rfl⟩

theorem environmentText_eq_iff : k.environmentText = k'.environmentText ↔ k.environment = k'.environment := by
  refine ⟨fun h => ?_, fun h => by rw [environmentText, environmentText, h]⟩
  rw [environmentText, environmentText] at h
  split_ifs at h with hzero hzero' hzero'
  · rw [hzero, hzero']
  · exact formatBase36_inj hzero hzero' (String.toList_inj.1 (Option.some.inj h))

/-! ## Confused keys -/

/-- the same tag, environment and subnet, where subnets that are not valid count as the same -/
def SameTexts (k k' : CacheKey) : Prop :=
  k.transportTag = k'.transportTag ∧
    (k.clientSubnet = k'.clientSubnet ∨ k.clientSubnet.isValid = false ∧ k'.clientSubnet.isValid = false) ∧
    k.environment = k'.environment

/-- the tag of the second key is that of the first with its subnet, or its subnet and its environment, behind it; the
second key has none itself -/
def Shifted (prefixString : Prefix → String) (k k' : CacheKey) : Prop :=
  k'.clientSubnet.isValid = false ∧
    (k'.environment = 0 ∧ k'.transportTag.toList =
        k.transportTag.toList ++ (field '\x00' (k.subnetText prefixString) ++ field '\x01' k.environmentText) ∨
      k'.environment = k.environment ∧
        k'.transportTag.toList = k.transportTag.toList ++ field '\x00' (k.subnetText prefixString))

/-- different keys with the same name and type of the question, and texts that look the same -/
def Confused (prefixString : Prefix → String) (k k' : CacheKey) : Prop :=
  k ≠ k' ∧ k.question.name = k'.question.name ∧ k.question.qtype = k'.question.qtype ∧
    (SameTexts k k' ∨ Shifted prefixString k k' ∨ Shifted prefixString k' k)

theorem subnetText_eq_none_iff : k.subnetText prefixString = none ↔ k.clientSubnet.isValid = false := by
  rw [subnetText]
  cases k.clientSubnet.isValid with
  | true => exact ⟨nofun, nofun⟩
  | false => exact ⟨fun _ => rfl, fun _ => rfl⟩

theorem environmentText_eq_none_iff : k.environmentText = none ↔ k.environment = 0 := by
  rw [environmentText]
  split_ifs with hzero
  · exact ⟨fun _ => hzero, fun _ => rfl⟩
  · exact ⟨nofun, fun h => absurd h hzero⟩

theorem shifted_iff : Shifted prefixString k k' ↔
    Shift '\x00' '\x01' k.transportTag.toList (k.subnetText prefixString) k.environmentText
      k'.transportTag.toList (k'.subnetText prefixString) k'.environmentText := by
  rw [Shifted, Shift, subnetText_eq_none_iff, environmentText_eq_none_iff, environmentText_eq_iff]

theorem persistentName_eq_iff (h : PrefixText prefixString) :
    k.persistentName prefixString = k'.persistentName prefixString ↔
      SameTexts k k' ∨ Shifted prefixString k k' ∨ Shifted prefixString k' k := by
  rw [← String.toList_inj, persistentName_toList, persistentName_toList,
    fields_eq_iff (by decide) (plain_subnetText h k) (plain_environmentText k) (plain_subnetText h k')
      (plain_environmentText k'),
    shifted_iff, shifted_iff, SameTexts, String.toList_inj, subnetText_eq_iff h, environmentText_eq_iff]

theorem saveKey_eq_iff (h : PrefixText prefixString) :
    k.saveKey prefixString = k'.saveKey prefixString ↔ k = k' ∨ Confused prefixString k k' := by
  rw [saveKey, saveKey, SaveCacheKey.mk.injEq, persistentName_eq_iff h]
  constructor
  · intro ⟨htexts, hname, htype⟩
    by_cases heq : k = k'
    · exact .inl heq
    · exact .inr ⟨heq, hname, htype, htexts⟩
  · rintro (rfl | ⟨-, hname, htype, htexts⟩)
    · exact ⟨.inl ⟨rfl, .inl rfl, rfl⟩, rfl, rfl⟩
    · exact ⟨htexts, hname, htype⟩

/-! ## The client over the cache file -/

structure Store where
  now : ℕ := 0
  file : DNSCache (CacheKey × Entry) := .empty

inductive StoreOp where
  | storeCache (key : CacheKey) (message : Msg) (timeToLive : ℕ) (checker : Option (Msg → Bool))
  | upkeep (o : Upkeep)
  | tick (time : ℕ)

def storeStep (cl : Client) (accepts : SaveCacheKey → Bool) (s : Store) : StoreOp → Store
  | .storeCache key message timeToLive checker =>
    if timeToLive = 0 then s
    else
      let entry : Entry := { message, expireAt := s.now + timeToLive, checker }
      { s with file := queueDNSCache (key.saveKey cl.prefixString) (key, entry) s.file }
  | .upkeep o => { s with file := upkeep accepts s.file o }
  | .tick time => { s with now := s.now + time }

def storeRun (cl : Client) (accepts : SaveCacheKey → Bool) (ops : List StoreOp) : Store :=
  ops.foldl (storeStep cl accepts) {}

def loadPersistentResponse (cl : Client) (s : Store) (key : CacheKey) : Option (Msg × Bool) :=
  let loaded := loadDNSCache s.file (key.saveKey cl.prefixString)
  cl.loadResponse { now := s.now, cache := fun _ => loaded.map Prod.snd } key

section

variable (cl : Client) (accepts : SaveCacheKey → Bool)

/-- after these operations a response that was saved under `k` is returned for `k'` -/
def Returned (ops : List StoreOp) (k k' : CacheKey) : Prop :=
  (∃ entry, loadDNSCache (storeRun cl accepts ops).file (k'.saveKey cl.prefixString) = some (k, entry)) ∧
    (loadPersistentResponse cl (storeRun cl accepts ops) k').isSome = true

theorem storeRun_filed (ops : List StoreOp) :
    Filed (fun v : CacheKey × Entry => v.1.saveKey cl.prefixString) (storeRun cl accepts ops).file := by
  suffices hfold : ∀ s : Store, Filed (fun v : CacheKey × Entry => v.1.saveKey cl.prefixString) s.file →
      Filed (fun v : CacheKey × Entry => v.1.saveKey cl.prefixString) (ops.foldl (storeStep cl accepts) s).file from
    hfold {} filed_empty
  intro s h
  induction ops generalizing s with
  | nil => exact h
  | cons o ops ih =>
    refine ih _ ?_
    cases o with
    | storeCache key message timeToLive checker =>
      rw [storeStep]
      split_ifs
      · exact h
      · exact h.queue rfl
    | upkeep o => exact h.upkeep o
    | tick time => exact h

theorem returned_of_saveKey_eq {message : Msg}
    (hmessage : (cl.unpack message).isSome) (h : k.saveKey cl.prefixString = k'.saveKey cl.prefixString) :
    Returned cl accepts [.storeCache k message 1 none] k k' := by
  have hload : loadDNSCache (storeRun cl accepts [.storeCache k message 1 none]).file (k'.saveKey cl.prefixString) =
      some (k, { message, expireAt := 1, checker := none }) := by
    rw [← h]
    exact Core.WriteBuffer.load_save _ _ _ _
  refine ⟨⟨_, hload⟩, ?_⟩
  obtain ⟨response, hresponse⟩ := Option.isSome_iff_exists.1 hmessage
  rw [loadPersistentResponse, hload, Client.loadResponse]
  dsimp only [Option.map_some]
  rw [hresponse]
  dsimp only
  -- the response has a second to live
  have hfresh : ¬ 1 < (storeRun cl accepts [.storeCache k message 1 none]).now := by
    change ¬ 1 < 0
    decide
  rw [if_neg hfresh]
  split_ifs
  · rfl
  · rfl

end

/-! ## Main result -/

/-- **The persistent cache confuses exactly these keys.** -/
theorem persistent_key_iff (cl : Client) (accepts : SaveCacheKey → Bool) (htext : PrefixText cl.prefixString)
    (hunpack : ∃ message, (cl.unpack message).isSome = true) (k k' : CacheKey) (hk : k.question.qtype < 65536)
    (hk' : k'.question.qtype < 65536) :
    (∀ ops, Returned cl accepts ops k k' → k = k') ↔ ¬ Confused cl.prefixString k k' := by
  constructor
  · intro honly hconfused
    obtain ⟨message, hmessage⟩ := hunpack
    have hsame := (saveKey_eq_iff htext).2 (.inr hconfused)
    exact hconfused.1 (honly _ (returned_of_saveKey_eq cl accepts hmessage hsame))
  · intro hnot ops hreturned
    obtain ⟨⟨entry, hload⟩, -⟩ := hreturned
    have hsame : k.saveKey cl.prefixString = k'.saveKey cl.prefixString := (storeRun_filed cl accepts ops).load hload hk' hk
    rcases (saveKey_eq_iff htext).1 hsame with heq | hconfused
    · exact heq
    · exact absurd hconfused hnot

def Client.filed : Client where
  tag _ := "local"
  persistent := true
  prefixString p := formatBase36 (Encodable.encode (p.addr.map UInt8.toNat, p.bits) + 1)

theorem prefixText_filed : PrefixText Client.filed.prefixString where
  injective p q _ _ h := by
    have hcode := Nat.succ_injective (formatBase36_inj (Nat.succ_ne_zero _) (Nat.succ_ne_zero _) h)
    obtain ⟨hbytes, hbits⟩ := Prod.mk.inj (Encodable.encode_injective hcode)
    have haddr : p.addr = q.addr := map_injective_iff.2 (fun _ _ => UInt8.toNat_inj.1) hbytes
    cases p
    cases q
    rw [Prefix.mk.injEq]
    exact ⟨haddr, hbits⟩
  plain p _ := formatBase36_plain (Nat.succ_ne_zero _)

def textKey (qclass environment : ℕ) : CacheKey := ⟨⟨"version.bind.", 16, qclass⟩, "local", {}, environment⟩

theorem persistent_key_environments :
    ¬ Confused Client.filed.prefixString (textKey 1 4) (textKey 1 5) ∧
      ∀ ops, Returned Client.filed (fun _ => true) ops (textKey 1 4) (textKey 1 5) → textKey 1 4 = textKey 1 5 := by
  have hnot : ¬ Confused Client.filed.prefixString (textKey 1 4) (textKey 1 5) := by
    rintro ⟨-, -, -, ⟨-, -, henvironment⟩ | ⟨-, ⟨henvironment, -⟩ | ⟨henvironment, -⟩⟩ |
      ⟨-, ⟨henvironment, -⟩ | ⟨henvironment, -⟩⟩⟩
    all_goals exact absurd henvironment (by decide)
  exact ⟨hnot, (persistent_key_iff Client.filed (fun _ => true) prefixText_filed ⟨{ id := 0 }, rfl⟩ (textKey 1 4)
    (textKey 1 5) (by decide) (by decide)).2 hnot⟩

def textMessage : Msg :=
  { id := 7, question := [⟨"version.bind.", 16, 1⟩], answer := [⟨"version.bind.", 16, 1, 60, .other [1, 97]⟩] }

/-- A response for the class IN is returned for the class CH from the file, and is not from the memory. -/
theorem class_confused :
    textKey 1 0 ≠ textKey 3 0 ∧
    loadPersistentResponse Client.filed
      (storeRun Client.filed (fun _ => true) [.storeCache (textKey 1 0) textMessage 60 none]) (textKey 3 0) =
        some (textMessage, false) ∧
    Client.loadResponse { tag := fun _ => "local" }
      (Client.storeCache { tag := fun _ => "local" } {} (textKey 1 0) textMessage 60 none) (textKey 3 0) = none := by
  decide +kernel

end EtonifyCore.DNSClient
