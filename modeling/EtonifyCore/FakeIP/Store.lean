/-
The fake-IP store: it hands out the addresses of its ranges one after the other, and starts again at the end of a range.

When none is left of the last 1024 addresses, `Create` saves the position that lies 1024 ahead. The model stops there
(`creating`) and goes on with `Op.resume`. Another `Create` that has to hand out an address waits; one whose domain has an
address returns at once, and `Reset` does not wait either. Both storages save metadata without an error. `stores` is the log
of what was stored since the start.
-/
import EtonifyCore.FakeIP.Storage

namespace EtonifyCore.FakeIP

def reservedAddressCount : ℕ := 1024

structure Store where
  inet4Range : Range
  inet6Range : Range
  inet4Current : Addr := none
  inet6Current : Addr := none
  reservedCount : ℕ := 0

def advance (range : Range) (current : Addr) : Addr :=
  if current.isSome then nextAddress range current else current

namespace Store

variable (store : Store)

def range (isIPv6 : Bool) : Range := if isIPv6 then store.inet6Range else store.inet4Range

def current (isIPv6 : Bool) : Addr := if isIPv6 then store.inet6Current else store.inet4Current

def metadataAt (n : ℕ) : Metadata where
  inet4Range := store.inet4Range
  inet6Range := store.inet6Range
  inet4Current := (advance store.inet4Range)^[n] store.inet4Current
  inet6Current := (advance store.inet6Range)^[n] store.inet6Current

def move (isIPv6 : Bool) : Store :=
  if isIPv6 then { store with inet6Current := nextAddress store.inet6Range store.inet6Current }
  else { store with inet4Current := nextAddress store.inet4Range store.inet4Current }

end Store

inductive Event where
  | stored (address : Addr) (domain : String)
  | reset
deriving DecidableEq, Repr

structure St (σ : Type) where
  storage : σ
  store : Store
  /-- the domain and the family of a `Create` that waits for its metadata -/
  creating : Option (String × Bool) := none
  stores : List Event := []

inductive Err where
  | missingRange (isIPv6 : Bool)
deriving DecidableEq, Repr

structure Answer where
  domain : String
  isIPv6 : Bool
  result : Except Err Addr

inductive Op (υ : Type) where
  | create (domain : String) (isIPv6 : Bool)
  | resume
  | reset
  | upkeep (u : υ)

section

variable {σ υ : Type} (S : Storage σ υ)

/-- the store when there is no metadata, or that of other ranges -/
def startFresh (inet4Range inet6Range : Range) (storage : σ) : St σ where
  storage := (S.reset storage).getD storage
  store := ⟨inet4Range, inet6Range, inet4Range.addr.next, inet6Range.addr.next, 0⟩

def start (inet4Range inet6Range : Range) (storage : σ) : St σ :=
  match S.metadata storage with
  | some metadata =>
    if metadata.inet4Range = inet4Range ∧ metadata.inet6Range = inet6Range then
      { storage, store := ⟨inet4Range, inet6Range, metadata.inet4Current, metadata.inet6Current, 0⟩ }
    else startFresh S inet4Range inet6Range storage
  | none => startFresh S inet4Range inet6Range storage

def allocate (s : St σ) (domain : String) (isIPv6 : Bool) : St σ × Option Answer :=
  let store := { s.store with reservedCount := s.store.reservedCount - 1 }.move isIPv6
  let address := store.current isIPv6
  ({ storage := S.storeAsync s.storage address domain, store, stores := s.stores ++ [.stored address domain] },
    some ⟨domain, isIPv6, .ok address⟩)

def create (s : St σ) (domain : String) (isIPv6 : Bool) : St σ × Option Answer :=
  match S.loadDomain s.storage domain isIPv6 with
  | some address => (s, some ⟨domain, isIPv6, .ok address⟩)
  | none =>
    if (s.store.current isIPv6).isNone then (s, some ⟨domain, isIPv6, .error (.missingRange isIPv6)⟩)
    else if s.store.reservedCount = 0 then
      let metadata := s.store.metadataAt reservedAddressCount
      ({ s with storage := S.saveMetadata s.storage metadata, creating := some (domain, isIPv6) }, none)
    else allocate S s domain isIPv6

def step (s : St σ) : Op υ → St σ × Option Answer
  | .create domain isIPv6 =>
    match S.loadDomain s.storage domain isIPv6 with
    | some address => (s, some ⟨domain, isIPv6, .ok address⟩)
    | none => if s.creating.isSome then (s, none) else create S s domain isIPv6
  | .resume =>
    match s.creating with
    | none => (s, none)
    | some (domain, isIPv6) =>
      if S.saved s.storage then
        allocate S { s with store := { s.store with reservedCount := reservedAddressCount } } domain isIPv6
      else (s, none)
  | .reset =>
    match S.reset s.storage with
    | some storage => ({ s with storage, stores := s.stores ++ [.reset] }, none)
    | none => (s, none)
  | .upkeep u => ({ s with storage := S.upkeep s.storage u }, none)

def run (s : St σ) (ops : List (Op υ)) : St σ := ops.foldl (fun s op => (step S s op).1) s

end

end EtonifyCore.FakeIP
