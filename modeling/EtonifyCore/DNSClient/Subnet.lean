/-
The client subnet of a request: the option that is set and removed, and the key of the cache.
-/
import EtonifyCore.DNSClient.Client

namespace EtonifyCore.DNSClient

open List

/-- a valid `netip.Prefix` whose address is not an IPv4 address in IPv6 form -/
structure Prefix.Plain (p : Prefix) : Prop where
  length : p.addr.length = 4 ∨ p.addr.length = 16
  bits : ∃ n, p.bits = some n ∧ n ≤ 8 * p.addr.length
  unmapped : unmap p.addr = p.addr

/-! ## The search -/

variable {options : List EDNS0}

theorem modify_findIdx? {α : Type} {p : α → Bool} {l : List α} {i : ℕ} (h : l.findIdx? p = some i) (f : α → α) :
    ∃ pre x post, l = pre ++ x :: post ∧ p x ∧ (∀ y ∈ pre, p y = false) ∧ l.modify i f = pre ++ f x :: post := by
  induction l generalizing i with
  | nil => cases h
  | cons y l ih =>
    rw [List.findIdx?_cons] at h
    split_ifs at h with hy
    · cases h
      exact ⟨[], y, l, rfl, hy, nofun, rfl⟩
    · obtain ⟨j, hj, rfl⟩ := Option.map_eq_some_iff.1 h
      obtain ⟨pre, x, post, rfl, hx, hpre, hmodify⟩ := ih hj
      refine ⟨y :: pre, x, post, rfl, hx, ?_, ?_⟩
      · rw [forall_mem_cons]
        exact ⟨Bool.eq_false_iff.2 hy, hpre⟩
      · rw [modify_succ_cons, hmodify]
        rfl

theorem modify_last {α : Type} (pre : List α) (x : α) (f : α → α) :
    (pre ++ [x]).modify ((pre ++ [x]).length - 1) f = pre ++ [f x] := by
  rw [length_append, length_singleton, Nat.add_sub_cancel]
  induction pre with
  | nil => rfl
  | cons y pre ih => rw [cons_append, length_cons, modify_succ_cons, ih, cons_append]

theorem replaceSubnet_eq (h : options.any isSubnet) (new : EDNS0) :
    ∃ before old after, options = before ++ old :: after ∧ isSubnet old ∧ (∀ o ∈ before, isSubnet o = false) ∧
      replaceSubnet new options = before ++ new :: after := by
  induction options with
  | nil => cases h
  | cons o options ih =>
    unfold replaceSubnet
    split_ifs with ho
    · exact ⟨[], o, options, rfl, ho, nofun, rfl⟩
    · rw [any_cons, Bool.eq_false_iff.2 ho, Bool.false_or] at h
      obtain ⟨before, old, after, rfl, hold, hbefore, hreplace⟩ := ih h
      refine ⟨o :: before, old, after, rfl, hold, ?_, ?_⟩
      · rw [forall_mem_cons]
        exact ⟨Bool.eq_false_iff.2 ho, hbefore⟩
      · rw [hreplace]
        rfl

def RR.withOptions (record : RR) (options : List EDNS0) : RR := { record with data := .opt options }

def newOPT (option : EDNS0) : RR := ⟨".", typeOPT, 0, 0, .opt [option]⟩

inductive SetsOption (new : EDNS0) : List RR → List RR → Prop where
  | replaced (pre post : List RR) (record : RR) (before after : List EDNS0) (old : EDNS0)
      (hpre : ∀ r ∈ pre, hasSubnet r = false) (hbefore : ∀ o ∈ before, isSubnet o = false) (hold : isSubnet old = true)
      (hdata : record.data = .opt (before ++ old :: after)) :
      SetsOption new (pre ++ record :: post) (pre ++ record.withOptions (before ++ new :: after) :: post)
  | added (pre : List RR) (record : RR) (options : List EDNS0) (hpre : ∀ r ∈ pre, hasSubnet r = false)
      (hoptions : ∀ o ∈ options, isSubnet o = false) (hdata : record.data = .opt options) :
      SetsOption new (pre ++ [record]) (pre ++ [record.withOptions (options ++ [new])])
  | appended (records : List RR) (hrecords : ∀ r ∈ records, hasSubnet r = false)
      (hlast : ∀ r, records.getLast? = some r → isOPT r = false) : SetsOption new records (records ++ [newOPT new])

variable {record : RR}

theorem exists_options_of_isOPT (h : isOPT record) : ∃ options, record.data = .opt options := by
  unfold isOPT at h
  split at h
  · exact ⟨_, ‹_›⟩
  all_goals cases h

theorem exists_options_of_hasSubnet (h : hasSubnet record) :
    ∃ options, record.data = .opt options ∧ options.any isSubnet := by
  unfold hasSubnet at h
  split at h
  · exact ⟨_, ‹_›, h⟩
  all_goals cases h

theorem mapOptions_eq (h : record.data = .opt options)
    (f : List EDNS0 → List EDNS0) : record.mapOptions f = record.withOptions (f options) := by
  unfold RR.mapOptions
  rw [h]
  rfl

theorem hasSubnet_eq (h : record.data = .opt options) : hasSubnet record = options.any isSubnet := by
  unfold hasSubnet
  rw [h]

theorem setClientSubnet_cases (message : Msg) (p : Prefix) : ∃ extra,
    setClientSubnet message p = { message with extra } ∧ SetsOption (subnetOf p) message.extra extra := by
  unfold setClientSubnet
  dsimp only
  cases hfind : message.extra.findIdx? hasSubnet with
  | some i =>
    refine ⟨_, rfl, ?_⟩
    obtain ⟨pre, record, post, hextra, hsubnet, hpre, hmodify⟩ :=
      modify_findIdx? hfind (.mapOptions (replaceSubnet (subnetOf p)))
    obtain ⟨options, hdata, hany⟩ := exists_options_of_hasSubnet hsubnet
    obtain ⟨before, old, after, rfl, hold, hbefore, hreplace⟩ := replaceSubnet_eq hany (subnetOf p)
    rw [hmodify, hextra, mapOptions_eq hdata, hreplace]
    exact .replaced pre post record before after old hpre hbefore hold hdata
  | none =>
    have hnone := List.findIdx?_eq_none_iff.1 hfind
    dsimp only
    split_ifs with hlast
    · refine ⟨_, rfl, ?_⟩
      obtain ⟨record, hrecord, hopt⟩ : ∃ record, message.extra.getLast? = some record ∧ isOPT record := by
        cases hget : message.extra.getLast? with
        | none =>
          rw [hget] at hlast
          cases hlast
        | some record =>
          rw [hget] at hlast
          exact ⟨record, rfl, hlast⟩
      obtain ⟨pre, hpre⟩ := List.getLast?_eq_some_iff.1 hrecord
      obtain ⟨options, hdata⟩ := exists_options_of_isOPT hopt
      rw [hpre] at hnone ⊢
      rw [modify_last, mapOptions_eq hdata]
      refine .added pre record options (fun r hr => hnone r (mem_append_left _ hr)) ?_ hdata
      have hsubnet := hnone record (mem_append_right _ (mem_singleton_self record))
      rw [hasSubnet_eq hdata] at hsubnet
      exact fun o ho => Bool.eq_false_iff.2 fun h => any_eq_false.1 hsubnet o ho h
    · refine ⟨_, rfl, .appended _ hnone fun r hr => ?_⟩
      rw [hr] at hlast
      exact Bool.eq_false_iff.2 hlast

/-! ## The subnet of a message -/

def RR.subnet (record : RR) : Option EDNS0 :=
  match record.data with
  | .opt options => options.find? isSubnet
  | .soa _ | .https _ | .other _ => none

theorem subnetOption_eq (message : Msg) : subnetOption message = message.extra.findSome? RR.subnet := rfl

theorem subnet_of_hasSubnet (h : hasSubnet record = false) : record.subnet = none := by
  unfold hasSubnet at h
  unfold RR.subnet
  cases hdata : record.data with
  | opt options =>
    rw [hdata] at h
    exact List.find?_eq_none.2 (any_eq_false.1 h)
  | soa minttl => rfl
  | https values => rfl
  | other data => rfl

theorem subnet_withOptions (record : RR) {before after : List EDNS0} {new : EDNS0} (hnew : isSubnet new)
    (hbefore : ∀ o ∈ before, isSubnet o = false) : (record.withOptions (before ++ new :: after)).subnet = some new := by
  change (before ++ new :: after).find? isSubnet = some new
  rw [List.find?_append, List.find?_eq_none.2 fun o ho => Bool.eq_false_iff.1 (hbefore o ho), Option.none_or]
  exact List.find?_cons_of_pos hnew

theorem findSome?_subnet {pre : List RR} (hpre : ∀ r ∈ pre, hasSubnet r = false) (record : RR) {post : List RR} {o : EDNS0}
    (h : record.subnet = some o) : (pre ++ record :: post).findSome? RR.subnet = some o := by
  have hnone : pre.findSome? RR.subnet = none :=
    List.findSome?_eq_none_iff.2 fun r hr => subnet_of_hasSubnet (hpre r hr)
  rw [List.findSome?_append, hnone, Option.none_or, List.findSome?_cons, h]

theorem SetsOption.findSome? {new : EDNS0} {records records' : List RR} (h : SetsOption new records records')
    (hnew : isSubnet new) : records'.findSome? RR.subnet = some new := by
  cases h with
  | replaced pre post record before after old hpre hbefore =>
    exact findSome?_subnet hpre _ (subnet_withOptions record hnew hbefore)
  | added pre record options hpre hoptions =>
    exact findSome?_subnet hpre _ (subnet_withOptions record hnew hoptions)
  | appended records hrecords =>
    apply findSome?_subnet hrecords
    exact List.find?_cons_of_pos hnew

theorem clientSubnetFromMessage_set (message : Msg) {p : Prefix} (hp : p.Plain) :
    clientSubnetFromMessage (setClientSubnet message p) = p := by
  obtain ⟨extra, hset, hsets⟩ := setClientSubnet_cases message p
  obtain ⟨n, hbits, hle⟩ := hp.bits
  have hn : n < 256 := by
    rcases hp.length with hlength | hlength <;> omega
  unfold clientSubnetFromMessage
  rw [hset, subnetOption_eq, hsets.findSome? rfl]
  change (if p.addr.length = 4 ∨ p.addr.length = 16 then prefixFrom (unmap p.addr) (p.bits.getD 255 % 256) else {}) = p
  rw [if_pos hp.length, hp.unmapped, hbits, Option.getD_some, Nat.mod_eq_of_lt hn, prefixFrom, if_pos hle, ← hbits]

theorem clientSubnetFromMessage_remove (message : Msg) : clientSubnetFromMessage (removeClientSubnet message) = {} := by
  have hnone : subnetOption (removeClientSubnet message) = none := by
    rw [subnetOption_eq, List.findSome?_eq_none_iff]
    intro record hrecord
    obtain ⟨old, -, rfl⟩ := mem_map.1 hrecord
    unfold RR.mapOptions RR.subnet
    cases hdata : old.data with
    | opt options =>
      rw [List.find?_eq_none]
      intro o ho hsubnet
      have hcode := of_decide_eq_true (mem_filter.1 ho).2
      cases o with
      | subnet family sourceNetmask address => exact hcode rfl
      | other code data => cases hsubnet
    | soa minttl | https values | other data =>
      rw [hdata]
  unfold clientSubnetFromMessage
  rw [hnone]

theorem newCacheKey_subnet (cl : Client) (s : St) (transport : ℕ) (message : Msg) {options : DNSQueryOptions}
    (h : (cl.subnet options).isValid → (cl.subnet options).Plain) :
    (cl.newCacheKey s transport message options).clientSubnet =
      clientSubnetFromMessage (cl.prepareExchangeMessage message options) := by
  unfold Client.newCacheKey Client.prepareExchangeMessage
  split_ifs with _ hvalid
  · exact (clientSubnetFromMessage_remove message).symm
  · exact (clientSubnetFromMessage_set message (h hvalid)).symm
  · rfl

/-! ## OPT records -/

/-- the only OPT record is the last record, or carries a subnet -/
def Msg.OPTLast (message : Msg) : Prop :=
  message.extra.countP isOPT = 1 → (∀ r ∈ message.extra, hasSubnet r = false) →
    ∃ r, message.extra.getLast? = some r ∧ isOPT r = true

theorem isOPT_eq (h : record.data = .opt options) : isOPT record := by
  unfold isOPT
  rw [h]

theorem SetsOption.countP_le_one_iff {new : EDNS0} {message : Msg} {extra : List RR}
    (h : SetsOption new message.extra extra) :
    (message.extra.countP isOPT ≤ 1 → extra.countP isOPT ≤ 1) ↔ message.OPTLast := by
  unfold Msg.OPTLast
  generalize message.extra = records at h ⊢
  cases h with
  | replaced pre post record before after old hpre hbefore hold hdata =>
    have hcount : (pre ++ record.withOptions (before ++ new :: after) :: post).countP isOPT =
        (pre ++ record :: post).countP isOPT := by
      rw [countP_append, countP_append, countP_cons, countP_cons, isOPT_eq hdata]
      rfl
    rw [hcount]
    refine ⟨fun _ _ hnone => ?_, fun _ hle => hle⟩
    have hsubnet := hnone record (mem_append_right _ mem_cons_self)
    rw [hasSubnet_eq hdata, any_append, any_cons, hold, Bool.true_or, Bool.or_true] at hsubnet
    cases hsubnet
  | added pre record options hpre hoptions hdata =>
    have hcount : (pre ++ [record.withOptions (options ++ [new])]).countP isOPT = (pre ++ [record]).countP isOPT := by
      rw [countP_append, countP_append, countP_singleton, countP_singleton, isOPT_eq hdata]
      rfl
    rw [hcount]
    exact ⟨fun _ _ _ => ⟨record, List.getLast?_concat, isOPT_eq hdata⟩, fun _ hle => hle⟩
  | appended _ hrecords hlast =>
    rw [countP_append]
    change (_ → records.countP isOPT + 1 ≤ 1) ↔ _
    constructor
    · intro hle hone
      omega
    · intro hone hle
      by_contra hmore
      obtain ⟨r, hr, hopt⟩ := hone (by omega) hrecords
      rw [hlast r hr] at hopt
      cases hopt

/-- **The client subnet is set, and nothing else changes.** A request with one OPT record keeps one if and only if that is
the last record or carries a subnet already. -/
theorem client_subnet_set (message : Msg) (p : Prefix) (hp : p.Plain) :
    (clientSubnetFromMessage (setClientSubnet message p) = p ∧
      (∃ extra, setClientSubnet message p = { message with extra } ∧ SetsOption (subnetOf p) message.extra extra) ∧
      (message.extra.countP isOPT ≤ 1 → (setClientSubnet message p).extra.countP isOPT ≤ 1) ∧
      (clientSubnetFromMessage (removeClientSubnet message)).isValid = false ∧
      ∀ (cl : Client) s transport options, ((cl.subnet options).isValid = true → (cl.subnet options).Plain) →
        (cl.newCacheKey s transport message options).clientSubnet =
          clientSubnetFromMessage (cl.prepareExchangeMessage message options)) ↔ message.OPTLast := by
  obtain ⟨extra, hset, hsets⟩ := setClientSubnet_cases message p
  constructor
  · intro h
    have hcount := h.2.2.1
    rw [hset] at hcount
    exact hsets.countP_le_one_iff.1 hcount
  · intro hlast
    refine ⟨clientSubnetFromMessage_set message hp, ⟨extra, hset, hsets⟩, ?_, ?_, ?_⟩
    · rw [hset]
      exact hsets.countP_le_one_iff.2 hlast
    · rw [clientSubnetFromMessage_remove]
      rfl
    · intro cl s transport options h
      exact newCacheKey_subnet cl s transport message h

theorem client_subnet_set_sample :
    let p : Prefix := { addr := [192, 0, 2, 0], bits := some 24 }
    let message : Msg := { id := 0, extra := [⟨".", typeOPT, 1232, 0, .opt [.other 10 [1]]⟩] }
    p.Plain ∧ message.OPTLast ∧ clientSubnetFromMessage (setClientSubnet message p) = p ∧
      setClientSubnet message p =
        { id := 0, extra := [⟨".", typeOPT, 1232, 0, .opt [.other 10 [1], .subnet 1 24 [192, 0, 2, 0]]⟩] } := by
  intro p message
  have hp : p.Plain := ⟨.inl rfl, ⟨24, rfl, by decide⟩, rfl⟩
  have hlast : message.OPTLast := fun _ _ => ⟨_, rfl, rfl⟩
  exact ⟨hp, hlast, ((client_subnet_set message p hp).2 hlast).1, by decide +kernel⟩

/-- the OPT record before a TSIG record (type 250) is not found: there are two after that -/
theorem before_tsig_second_opt :
    let p : Prefix := { addr := [192, 0, 2, 0], bits := some 24 }
    let message : Msg := { id := 0, extra := [⟨".", typeOPT, 1232, 0, .opt []⟩, ⟨"key.", 250, 255, 0, .other [1]⟩] }
    message.extra.countP isOPT = 1 ∧ (setClientSubnet message p).extra =
      [⟨".", typeOPT, 1232, 0, .opt []⟩, ⟨"key.", 250, 255, 0, .other [1]⟩,
        ⟨".", typeOPT, 0, 0, .opt [.subnet 1 24 [192, 0, 2, 0]]⟩] ∧
      (setClientSubnet message p).extra.countP isOPT = 2 := by
  decide +kernel

end EtonifyCore.DNSClient
