/-
Addresses of the fake-IP store, and its storages: in memory, and the cache file.

Model of `netip`: an address is none, IPv4 or IPv6; a range has an address and a number of bits. `domainCache4` and
`domainCache6` are one map with the family (`isIPv6`) as a part of its key.

The cache file keeps new mappings in `pending`. A flush takes them (`startFlush`), writes them in one transaction and in any
order (`commit`), and is over (`endFlush`). The database refuses keys that are empty or longer than 32768 bytes, so no
transaction with such a key is successful; all flushes of the model are. A flush may start with an empty batch.

Left out: other kinds of entries in the cache file, the counters that trigger a flush, and the encoding of metadata.
-/
import EtonifyCore.Core.TwoWay

namespace EtonifyCore.FakeIP

open Core (TwoWay Batch)

/-! ## Addresses -/

inductive IP where
  | v4 (bits : BitVec 32)
  | v6 (bits : BitVec 128)
deriving DecidableEq, Repr

abbrev Addr := Option IP

namespace Addr

def is4 : Addr → Bool
  | some (.v4 _) => true
  | _ => false

def next : Addr → Addr
  | some (.v4 bits) => if bits + 1 = 0 then none else some (.v4 (bits + 1))
  | some (.v6 bits) => if bits + 1 = 0 then none else some (.v6 (bits + 1))
  | none => none

def family (a : Addr) : Bool := !a.is4

end Addr

/-- `netip.Prefix`; the zero value has no address -/
structure Range where
  addr : Addr := none
  bits : ℕ := 0
deriving DecidableEq, Repr

namespace Range

def isValid (range : Range) : Bool := range.addr.isSome

def contains (range : Range) (address : Addr) : Bool :=
  match range.addr, address with
  | some (.v4 base), some (.v4 bits) => bits >>> (32 - range.bits) == base >>> (32 - range.bits)
  | some (.v6 base), some (.v6 bits) => bits >>> (128 - range.bits) == base >>> (128 - range.bits)
  | _, _ => false

def last (range : Range) : Addr :=
  match range.addr with
  | some (.v4 base) => some (.v4 (base ||| (BitVec.allOnes 32 >>> range.bits)))
  | some (.v6 base) => some (.v6 (base ||| (BitVec.allOnes 128 >>> range.bits)))
  | none => none

end Range

def nextAddress (range : Range) (current : Addr) : Addr :=
  let address := current.next
  if address = range.last ∨ range.contains address = false then range.addr.next.next else address

/-! ## Storages -/

/-- `adapter.FakeIPMetadata` -/
structure Metadata where
  inet4Range : Range
  inet6Range : Range
  inet4Current : Addr
  inet6Current : Addr
deriving DecidableEq, Repr

abbrev Mapping := TwoWay Addr Bool String

/-- `adapter.FakeIPStorage`, with what else happens to a storage -/
structure Storage (σ υ : Type) where
  metadata : σ → Option Metadata
  saveMetadata : σ → Metadata → σ
  /-- the last `FakeIPSaveMetadata` has returned -/
  saved : σ → Bool
  storeAsync : σ → Addr → String → σ
  load : σ → Addr → Option String
  loadDomain : σ → String → Bool → Option Addr
  /-- none while it has to wait -/
  reset : σ → Option σ
  upkeep : σ → υ → σ

def memoryStorage : Storage Mapping Empty where
  metadata _ := none
  saveMetadata mapping _ := mapping
  saved _ := true
  storeAsync mapping address domain := mapping.store Addr.family address domain
  load mapping address := mapping.name address
  loadDomain mapping domain isIPv6 := mapping.addr isIPv6 domain
  reset _ := some .empty
  upkeep mapping _ := mapping

/-! ## Cache file -/

/-- `pendingWrites`; a domain that has lost its address has the invalid one -/
structure PendingWrites where
  fakeIP : Batch Addr Bool String := {}
  metadata : Option Metadata := none

structure Disk where
  fakeIP : Mapping := .empty
  metadata : Option Metadata := none

structure CacheFile where
  pending : PendingWrites := {}
  writing : Option PendingWrites := none
  committed : Bool := false
  disk : Disk := {}

inductive Upkeep where
  | startFlush
  | commit (entries : List (Addr × String))
  | endFlush

namespace CacheFile

variable (file : CacheFile)

def load (address : Addr) : Option String :=
  match file.pending.fakeIP.lookup address with
  | some domain => some domain
  | none =>
    match file.writing.bind fun writing => writing.fakeIP.lookup address with
    | some domain => some domain
    | none => (file.disk.fakeIP.name address).filter (· ≠ "")

def loadDomain (domain : String) (isIPv6 : Bool) : Option Addr :=
  let address := match file.pending.fakeIP.addr isIPv6 domain with
    | some address => some address
    | none =>
      match file.writing.bind fun writing => writing.fakeIP.addr isIPv6 domain with
      | some address => some address
      | none => file.disk.fakeIP.addr isIPv6 domain
  address.filter Option.isSome

def queueFakeIP (address : Addr) (domain : String) : CacheFile :=
  let fakeIP := file.pending.fakeIP.queue Addr.family none (file.load address) address domain
  { file with pending := { file.pending with fakeIP } }

def acceptsKeys (address : Addr) (domain : String) : Bool :=
  address.isSome && domain ≠ "" && domain.utf8ByteSize ≤ 32768

def putFakeIP (mapping : Mapping) (address : Addr) (domain : String) : Mapping :=
  mapping.put Addr.family address domain

def startFlush : CacheFile :=
  if file.writing.isNone then { file with pending := {}, writing := some file.pending, committed := false } else file

def commit (entries : List (Addr × String)) : CacheFile :=
  match file.writing with
  | none => file
  | some writing =>
    if file.committed = false ∧ entries.Perm writing.fakeIP.entries ∧ entries.all (fun entry => acceptsKeys entry.1 entry.2)
    then
      let fakeIP := entries.foldl (fun mapping entry => putFakeIP mapping entry.1 entry.2) file.disk.fakeIP
      { file with committed := true, disk := { fakeIP, metadata := writing.metadata.or file.disk.metadata } }
    else file

def endFlush : CacheFile := if file.committed then { file with writing := none, committed := false } else file

def upkeep : Upkeep → CacheFile
  | .startFlush => file.startFlush
  | .commit entries => file.commit entries
  | .endFlush => file.endFlush

/-- `FakeIPReset` waits for the flush that runs -/
def reset : Option CacheFile := if file.writing.isNone then some {} else none

/-- `FakeIPSaveMetadata` sets the metadata and returns after a flush has taken it -/
def saveMetadata (metadata : Metadata) : CacheFile :=
  { file with pending := { file.pending with metadata := some metadata } }

def saved : Bool := file.pending.metadata.isNone && (file.writing.bind (·.metadata)).isNone

end CacheFile

def cacheFileStorage : Storage CacheFile Upkeep where
  metadata file := file.disk.metadata
  saveMetadata := CacheFile.saveMetadata
  saved := CacheFile.saved
  storeAsync := CacheFile.queueFakeIP
  load := CacheFile.load
  loadDomain := CacheFile.loadDomain
  reset := CacheFile.reset
  upkeep := CacheFile.upkeep

end EtonifyCore.FakeIP
