/-
DNS messages, as the client reads and rewrites them (`client.go`, `extension_edns0_subnet.go`).

Model: a message is its id, its response code and its sections; a record keeps its header and the data that the client looks
into. Copies are not modelled. Left out: the flag bits of the header.
-/
import Mathlib.Tactic

namespace EtonifyCore.DNSClient

/-! ## Messages -/

abbrev Bytes := List UInt8

structure Question where
  name : String
  qtype : ℕ
  qclass : ℕ
deriving DecidableEq, Repr

def typeA : ℕ := 1
def typeSOA : ℕ := 6
def typeAAAA : ℕ := 28
def typeOPT : ℕ := 41
def typeHTTPS : ℕ := 65
def rcodeSuccess : ℕ := 0
def rcodeFormatError : ℕ := 1
def rcodeNameError : ℕ := 3

def edns0SUBNET : ℕ := 8
def edns0PADDING : ℕ := 12

inductive EDNS0 where
  | subnet (family sourceNetmask : ℕ) (address : Bytes)
  | other (code : ℕ) (data : Bytes)
deriving DecidableEq, Repr

def EDNS0.option : EDNS0 → ℕ
  | .subnet .. => edns0SUBNET
  | .other code _ => code

def svcbIPv4Hint : ℕ := 4
def svcbIPv6Hint : ℕ := 6

inductive RData where
  | soa (minttl : ℕ)
  | https (values : List (ℕ × Bytes))
  | opt (options : List EDNS0)
  | other (data : Bytes)
deriving DecidableEq, Repr

structure RR where
  name : String
  rrtype : ℕ
  rclass : ℕ
  ttl : ℕ
  data : RData
deriving DecidableEq, Repr

structure Msg where
  id : ℕ
  rcode : ℕ := rcodeSuccess
  question : List Question := []
  answer : List RR := []
  ns : List RR := []
  extra : List RR := []
deriving DecidableEq, Repr

def fixedResponseStatus (message : Msg) (rcode : ℕ) : Msg := { id := message.id, rcode, question := message.question }

/-! ## Time to live -/

def extractNegativeTTL (response : Msg) : Option ℕ :=
  response.ns.findSome? fun record =>
    match record.data with
    | .soa minttl => some (if record.ttl < minttl then record.ttl else minttl)
    | .https _ | .opt _ | .other _ => none

def smallestTTL (records : List RR) : ℕ :=
  records.foldl (fun timeToLive record =>
    if record.rrtype = typeOPT then timeToLive
    else if timeToLive = 0 ∨ 0 < record.ttl ∧ record.ttl < timeToLive then record.ttl
    else timeToLive) 0

def computeTimeToLive (response : Msg) : ℕ :=
  let smallest := smallestTTL (response.answer ++ response.ns ++ response.extra)
  if response.answer = [] then (extractNegativeTTL response).getD smallest else smallest

def RR.setTTL (timeToLive : ℕ) (record : RR) : RR :=
  if record.rrtype = typeOPT then record else { record with ttl := timeToLive }

def normalizeTTL (response : Msg) (timeToLive : ℕ) : Msg :=
  { response with
    answer := response.answer.map (.setTTL timeToLive)
    ns := response.ns.map (.setTTL timeToLive)
    extra := response.extra.map (.setTTL timeToLive) }

/-! ## Client subnets -/

/-- `netip.Prefix`: the address is empty in the zero value, and without bits the prefix is not valid -/
structure Prefix where
  addr : Bytes := []
  bits : Option ℕ := none
deriving DecidableEq, Repr

def Prefix.isValid (p : Prefix) : Bool := p.bits.isSome

def prefixFrom (addr : Bytes) (bits : ℕ) : Prefix :=
  { addr, bits := if bits ≤ 8 * addr.length then some bits else none }

def unmap (addr : Bytes) : Bytes :=
  if addr.length = 16 ∧ addr.take 12 = List.replicate 10 0 ++ [255, 255] then addr.drop 12 else addr

def isSubnet : EDNS0 → Bool
  | .subnet .. => true
  | .other .. => false

def subnetOption (message : Msg) : Option EDNS0 :=
  message.extra.findSome? fun record =>
    match record.data with
    | .opt options => options.find? isSubnet
    | .soa _ | .https _ | .other _ => none

def clientSubnetFromMessage (message : Msg) : Prefix :=
  match subnetOption message with
  | some (.subnet _ sourceNetmask address) =>
    if address.length = 4 ∨ address.length = 16 then prefixFrom (unmap address) sourceNetmask else {}
  | _ => {}

def RR.mapOptions (f : List EDNS0 → List EDNS0) (record : RR) : RR :=
  match record.data with
  | .opt options => { record with data := .opt (f options) }
  | .soa _ | .https _ | .other _ => record

def removeClientSubnet (message : Msg) : Msg :=
  { message with
    extra := message.extra.map (.mapOptions fun options => options.filter fun option => option.option ≠ edns0SUBNET) }

/-- the subnet option of `setClientSubnet`; a prefix without bits has the mask -1 -/
def subnetOf (clientSubnet : Prefix) : EDNS0 :=
  .subnet (if clientSubnet.addr.length = 4 then 1 else 2) ((clientSubnet.bits.getD 255) % 256) clientSubnet.addr

def replaceSubnet (new : EDNS0) : List EDNS0 → List EDNS0
  | [] => []
  | option :: options => if isSubnet option then new :: options else option :: replaceSubnet new options

def hasSubnet (record : RR) : Bool :=
  match record.data with
  | .opt options => options.any isSubnet
  | .soa _ | .https _ | .other _ => false

def isOPT (record : RR) : Bool :=
  match record.data with
  | .opt _ => true
  | .soa _ | .https _ | .other _ => false

/-- The search of `setClientSubnet` stops at the first subnet option. Without one, it is left with the last record if that
is an OPT record, and with nothing otherwise. -/
def setClientSubnet (message : Msg) (clientSubnet : Prefix) : Msg :=
  let new := subnetOf clientSubnet
  match message.extra.findIdx? hasSubnet with
  | some i => { message with extra := message.extra.modify i (.mapOptions (replaceSubnet new)) }
  | none =>
    if (message.extra.getLast?.map isOPT).getD false then
      { message with extra := message.extra.modify (message.extra.length - 1) (.mapOptions (· ++ [new])) }
    else { message with extra := message.extra ++ [⟨".", typeOPT, 0, 0, .opt [new]⟩] }

/-! ## Options of a query -/

inductive DomainStrategy where
  | asIS
  | preferIPv4
  | preferIPv6
  | ipv4Only
  | ipv6Only
deriving DecidableEq, Repr

structure DNSQueryOptions where
  strategy : DomainStrategy := .asIS
  timeout : ℕ := 0
  disableCache : Bool := false
  disableOptimisticCache : Bool := false
  rewriteTTL : Option ℕ := none
  clientSubnet : Prefix := {}
  removeClientSubnet : Bool := false
deriving DecidableEq, Repr

/-- address hints of the family that the strategy excludes -/
def RR.dropHints (strategy : DomainStrategy) (record : RR) : RR :=
  match record.data with
  | .https values =>
    { record with data := .https (values.filter fun value =>
        if strategy = .ipv4Only then value.1 ≠ svcbIPv6Hint else value.1 ≠ svcbIPv4Hint) }
  | .soa _ | .opt _ | .other _ => record

def applyResponseOptions (question : Question) (response : Msg) (options : DNSQueryOptions) : Msg × ℕ :=
  let response :=
    if question.qtype = typeHTTPS ∧ (options.strategy = .ipv4Only ∨ options.strategy = .ipv6Only) then
      { response with answer := response.answer.map (.dropHints options.strategy) }
    else response
  let timeToLive := options.rewriteTTL.getD (computeTimeToLive response)
  (normalizeTTL response timeToLive, timeToLive)

def stripDNSPadding (response : Msg) : Msg :=
  { response with
    extra := response.extra.map (.mapOptions fun options => options.filter fun option => option.option ≠ edns0PADDING) }

/-! ## EDNS -/

def isEdns0 (message : Msg) : Option RR := message.extra.reverse.find? fun record => record.rrtype = typeOPT

def ednsVersion (opt : RR) : ℕ := opt.ttl / 2 ^ 16 % 2 ^ 8

/-- `OPT.Do` -/
def ednsDo (opt : RR) : Bool := opt.ttl / 2 ^ 15 % 2 = 1

def setEdns0 (message : Msg) (udpSize : ℕ) (dnssecOK : Bool) : Msg :=
  { message with extra := message.extra ++ [⟨".", typeOPT, udpSize, if dnssecOK then 2 ^ 15 else 0, .opt []⟩] }

def matchEDNS (request response : Msg) : Msg :=
  match isEdns0 response with
  | none => response
  | some responseOpt =>
    let stripped := { response with extra := response.extra.filter fun record => record.rrtype ≠ typeOPT }
    match isEdns0 request with
    | none => stripped
    | some requestOpt =>
      if ednsVersion requestOpt < ednsVersion responseOpt then
        setEdns0 stripped responseOpt.rclass (ednsDo responseOpt)
      else response

def finishResponse (request : Msg) (question : Question) (options : DNSQueryOptions) (response : Msg) : Msg :=
  matchEDNS request { (applyResponseOptions question response options).1 with id := request.id }

end EtonifyCore.DNSClient
