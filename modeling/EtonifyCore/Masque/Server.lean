/-
The CONNECT-IP server (`transport/masque/server.go`, `pool.go`): tunnels, the addresses assigned to them, the routes
they advertise, and where a packet goes.

Model: `Server` is what the locks guard; an operation is what one goroutine does under one lock.

Not modelled: the checks of `NewServer`, the packets that arrive from a tunnel (`handlePacket`), the URI template, the
capsules, the HTTP stream. An ICMP error is named by its type; whether a message can be built for it is a parameter. The routes
that `NewTunnelRequest` advertises come with the operation. Packets are what `packetAddresses` reads from them, `none` if
they are not valid: addresses of one family. A family has one pool at most (`NewServer`), so pools go by their family.
-/
import EtonifyCore.Core.Table

namespace EtonifyCore.Masque

open EtonifyCore.Core (Table)

/-! ## Addresses -/

structure Addr where
  six : Bool
  value : ℕ
  deriving DecidableEq, Repr

def Addr.le (a b : Addr) : Bool :=
  if a.six = b.six then a.value ≤ b.value else b.six

structure AddressRange where
  start : Addr
  stop : Addr
  protocol : ℕ
  deriving DecidableEq, Repr

def AddressRange.contains (r : AddressRange) (address : Addr) : Bool :=
  address.six = r.start.six && r.start.le address && address.le r.stop

/-- ICMPv4 and ICMPv6 -/
def isControlProtocol (protocol : ℕ) : Bool := protocol = 1 || protocol = 58

def routesContain (routes : List AddressRange) (address : Addr) (protocol : ℕ) : Bool :=
  routes.any fun route =>
    route.contains address && (route.protocol = 0 || route.protocol = protocol || isControlProtocol protocol)

/-! ## Pools -/

/-- a prefix of the tunnel network with the server's own address in it -/
structure Prefix where
  six : Bool
  address : ℕ
  hostBits : ℕ
  deriving DecidableEq, Repr

namespace Prefix

variable (p : Prefix)

def first : ℕ := p.address / 2 ^ p.hostBits * 2 ^ p.hostBits

/-- `netipx.PrefixLastIP` -/
def last : ℕ := p.first + (2 ^ p.hostBits - 1)

def contains (a : Addr) : Bool := a.six = p.six && a.value / 2 ^ p.hostBits = p.address / 2 ^ p.hostBits

def own : Addr := ⟨p.six, p.address⟩

def usable (value : ℕ) : Bool :=
  if value = p.address || value = p.first then false else p.six || value ≠ p.last

end Prefix

structure Pool where
  next : ℕ
  allocated : List ℕ

/-- the loop of `addressPool.allocate`; it comes back to `start` after as many turns as the prefix has addresses -/
def allocateLoop (p : Prefix) (allocated : List ℕ) (start : ℕ) : ℕ → ℕ → ℕ × Option ℕ
  | 0, next => (next, none)
  | turns + 1, candidate =>
    let next := if candidate = p.last then p.first else candidate + 1
    if candidate ∉ allocated && p.usable candidate then (next, some candidate)
    else if next = start then (next, none)
    else allocateLoop p allocated start turns next

def Pool.allocate (p : Prefix) (pool : Pool) : Pool × Option ℕ :=
  match allocateLoop p pool.allocated pool.next (2 ^ p.hostBits) pool.next with
  | (next, some value) => (⟨next, value :: pool.allocated⟩, some value)
  | (next, none) => (⟨next, pool.allocated⟩, none)

def Pool.release (pool : Pool) (value : ℕ) : Pool :=
  { pool with allocated := pool.allocated.filter (· ≠ value) }

def newAddressPool (p : Prefix) : Pool := ⟨p.first, []⟩

/-! ## The server -/

structure Config where
  prefixes : List Prefix
  unique : (prefixes.map Prefix.six).Nodup

def Config.inetAddress (cfg : Config) (six : Bool) : Option Addr :=
  (cfg.prefixes.find? fun p => p.six = six).map Prefix.own

def Config.inet4Address (cfg : Config) : Option Addr := cfg.inetAddress false

def Config.inet6Address (cfg : Config) : Option Addr := cfg.inetAddress true

inductive Phase
  | allocating (pool : ℕ)
  | registered
  | releasing (todo : List Addr)
  deriving DecidableEq, Repr, Inhabited

structure Session where
  phase : Phase
  addresses : List Addr
  advertisedRoutes : List AddressRange
  peerRoutes : List AddressRange
  deriving Inhabited

def Session.accepts (s : Session) (source : Addr) (protocol : ℕ) : Bool :=
  isControlProtocol protocol || routesContain s.advertisedRoutes source protocol

structure Server where
  /-- the pool of a family -/
  pools : Bool → Pool
  addresses : Addr → Option ℕ
  advertisements : List ℕ
  sessions : Table Session

def init (cfg : Config) : Server where
  pools := fun six => match cfg.prefixes.find? fun p => p.six = six with
    | some p => newAddressPool p
    | none => ⟨0, []⟩
  addresses := fun _ => none
  advertisements := []
  sessions := Table.empty

inductive Op
  | newTunnelRequest
  | allocate (id : ℕ)
  | accept (id : ℕ) (routes : List AddressRange)
  | handleRouteAdvertisement (id : ℕ) (routes : List AddressRange)
  | unregister (id : ℕ)
  | release (id : ℕ)

def assign (addresses : Addr → Option ℕ) (id : ℕ) : List Addr → Addr → Option ℕ
  | [] => addresses
  | a :: l => assign (Function.update addresses a (some id)) id l

def unassign (addresses : Addr → Option ℕ) (id : ℕ) : List Addr → Addr → Option ℕ
  | [] => addresses
  | a :: l => unassign (if addresses a = some id then Function.update addresses a none else addresses) id l

/-- every pool whose prefix contains the address releases it -/
def releaseIn (address : Addr) : List Prefix → (Bool → Pool) → Bool → Pool
  | [], pools => pools
  | p :: l, pools =>
    releaseIn address l
      (if p.contains address then Function.update pools p.six ((pools p.six).release address.value) else pools)

def step (cfg : Config) (srv : Server) : Op → Server
  | .newTunnelRequest => { srv with sessions := srv.sessions.push ⟨.allocating 0, [], [], []⟩ }
  | .allocate id =>
    let s := srv.sessions.get id
    match s.phase with
    | .allocating k =>
      match cfg.prefixes[k]? with
      | none => srv
      | some p =>
        let (pool, value) := (srv.pools p.six).allocate p
        let addresses := match value with
          | some value => s.addresses ++ [⟨p.six, value⟩]
          | none => s.addresses
        { srv with
          pools := Function.update srv.pools p.six pool
          sessions := srv.sessions.set id { s with phase := .allocating (k + 1), addresses := addresses } }
    | _ => srv
  | .accept id routes =>
    let s := srv.sessions.get id
    if s.phase = .allocating cfg.prefixes.length ∧ s.addresses ≠ [] ∧ routes ≠ [] then
      { srv with
        addresses := assign srv.addresses id s.addresses
        sessions := srv.sessions.set id { s with phase := .registered, advertisedRoutes := routes } }
    else srv
  | .handleRouteAdvertisement id routes =>
    let s := srv.sessions.get id
    if s.phase = .registered then
      let others := srv.advertisements.filter (· ≠ id)
      { srv with
        advertisements := if routes = [] then others else others ++ [id]
        sessions := srv.sessions.set id { s with peerRoutes := routes } }
    else srv
  | .unregister id =>
    let s := srv.sessions.get id
    if s.phase = .allocating cfg.prefixes.length ∨ s.phase = .registered then
      { srv with
        addresses := unassign srv.addresses id s.addresses
        advertisements := srv.advertisements.filter (· ≠ id)
        sessions := srv.sessions.set id { s with phase := .releasing s.addresses } }
    else srv
  | .release id =>
    let s := srv.sessions.get id
    match s.phase with
    | .releasing (a :: todo) =>
      { srv with
        pools := releaseIn a cfg.prefixes srv.pools
        sessions := srv.sessions.set id { s with phase := .releasing todo } }
    | _ => srv

def Op.known (srv : Server) : Op → Bool
  | .newTunnelRequest => true
  | .allocate id | .accept id _ | .handleRouteAdvertisement id _ | .unregister id | .release id => id < srv.sessions.size

def run (cfg : Config) (ops : List Op) : Server :=
  ops.foldl (fun srv op => if op.known srv then step cfg srv op else srv) (init cfg)

/-! ## Packets -/

structure Packet where
  source : Addr
  destination : Addr
  protocol : ℕ
  hopLimit : ℕ
  sameFamily : source.six = destination.six
  deriving DecidableEq

def Packet.decrementHopLimit (p : Packet) : Option Packet :=
  if p.hopLimit ≤ 1 then none else some { p with hopLimit := p.hopLimit - 1 }

inductive ICMPError
  | noRoute
  | hopLimitExceeded
  deriving DecidableEq, Repr

def Config.isOwn (cfg : Config) (a : Addr) : Bool := some a = cfg.inet4Address || some a = cfg.inet6Address

def lookup (cfg : Config) (srv : Server) (destination : Addr) (protocol : ℕ) : Option ℕ :=
  match srv.addresses destination with
  | some current => some current
  | none =>
    if cfg.isOwn destination then none
    else srv.advertisements.reverse.find? fun id =>
      routesContain (srv.sessions.get id).peerRoutes destination protocol

def route (cfg : Config) (srv : Server) (source destination : Addr) (protocol : ℕ) : Option ℕ :=
  match lookup cfg srv destination protocol with
  | none => none
  | some target => if (srv.sessions.get target).accepts source protocol then some target else none

/-- `buildICMPError`: whether an error about the packet can be built. `built` is `tun.BuildICMPError`, given the packet, the
error and the address of the server in the packet's family. -/
def buildICMPError (cfg : Config) (built : Packet → ICMPError → Option Addr → Bool) (p : Packet) (error : ICMPError) : Bool :=
  built p error (if p.source.six then cfg.inet6Address else cfg.inet4Address)

/-- the variables of the loop of `WritePacketBuffers`, and what it has written -/
structure Batch where
  replies : List (Packet × ICMPError)
  current : Option (ℕ × List Packet)
  written : List (ℕ × List Packet)

variable (cfg : Config) (built : Packet → ICMPError → Option Addr → Bool) (forwarded : Bool)

def Batch.reply (b : Batch) (p : Packet) (error : ICMPError) : Batch :=
  if buildICMPError cfg built p error then { b with replies := b.replies ++ [(p, error)] } else b

def Batch.write (b : Batch) (srv : Server) : Option Packet → Batch
  | none => b
  | some p =>
    match route cfg srv p.source p.destination p.protocol with
    | none => b.reply cfg built p .noRoute
    | some target =>
      match if forwarded then p.decrementHopLimit else some p with
      | none => b.reply cfg built p .hopLimitExceeded
      | some p' =>
        match b.current with
        | none => { b with current := some (target, [p']) }
        | some (t, batch) =>
          if t = target then { b with current := some (target, batch ++ [p']) }
          else { b with current := some (target, [p']), written := b.written ++ [(t, batch)] }

/-- `Server.WritePacketBuffers`: each packet comes with the server at its lookup; the result is what each queue is given,
and the packets that are answered by an error -/
def writePacketBuffers (packets : List (Server × Option Packet)) : List (ℕ × List Packet) × List (Packet × ICMPError) :=
  let b : Batch := packets.foldl (fun (b : Batch) sp => b.write cfg built forwarded sp.1 sp.2) ⟨[], none, []⟩
  (b.written ++ b.current.toList, b.replies)

/-! ## Batches -/

open List

/-- what becomes of a packet of `WritePacketBuffers`: it is refused with an error, or it goes to a session -/
def forward (srv : Server) (packet : Option Packet) : Option ((Packet × ICMPError) ⊕ (ℕ × Packet)) :=
  packet.map fun p =>
    match route cfg srv p.source p.destination p.protocol with
    | none => .inl (p, .noRoute)
    | some target =>
      match if forwarded then p.decrementHopLimit else some p with
      | none => .inl (p, .hopLimitExceeded)
      | some p' => .inr (target, p')

/-- the packets of the queues, in the order in which they are written -/
def unbatch (queues : List (ℕ × List Packet)) : List (ℕ × Packet) := queues.flatMap fun q => q.2.map fun p => (q.1, p)

/-- the replies to the refused packets: those for which an error is built -/
def repliesTo (outcomes : List ((Packet × ICMPError) ⊕ (ℕ × Packet))) : List (Packet × ICMPError) :=
  (outcomes.filterMap Sum.getLeft?).filter fun r => buildICMPError cfg built r.1 r.2

/-- what has been written and answered -/
structure Batch.Has (b : Batch) (outcomes : List ((Packet × ICMPError) ⊕ (ℕ × Packet))) : Prop where
  sent : unbatch (b.written ++ b.current.toList) = outcomes.filterMap Sum.getRight?
  answered : b.replies = repliesTo cfg built outcomes
  apart : ((b.written ++ b.current.toList).map Prod.fst).IsChain (· ≠ ·)
  first : b.current = none → b.written = []

variable {cfg built} {b : Batch} {outcomes : List ((Packet × ICMPError) ⊕ (ℕ × Packet))}

theorem repliesTo_sent (target : ℕ) (p : Packet) :
    repliesTo cfg built (outcomes ++ [.inr (target, p)]) = repliesTo cfg built outcomes := by
  simp [repliesTo, filterMap_cons]

theorem Batch.Has.reply (h : b.Has cfg built outcomes) (p : Packet) (error : ICMPError) :
    (b.reply cfg built p error).Has cfg built (outcomes ++ [.inl (p, error)]) := by
  obtain ⟨hsent, hanswered, hapart, hfirst⟩ := h
  have hrefused : repliesTo cfg built (outcomes ++ [.inl (p, error)]) =
      b.replies ++ [(p, error)].filter fun r => buildICMPError cfg built r.1 r.2 := by
    simp [repliesTo, hanswered]
  rw [Batch.reply]
  split_ifs with hbuilt
  · exact ⟨by simp [hsent], by simp [hrefused, hbuilt], hapart, hfirst⟩
  · exact ⟨by simp [hsent], by simp [hrefused, hbuilt], hapart, hfirst⟩

theorem Batch.Has.write (h : b.Has cfg built outcomes) (srv : Server) (packet : Option Packet) :
    (b.write cfg built forwarded srv packet).Has cfg built (outcomes ++ (forward cfg forwarded srv packet).toList) := by
  cases packet with
  | none => simpa [Batch.write, forward] using h
  | some p =>
    rw [Batch.write, forward, Option.map_some, Option.toList_some]
    cases route cfg srv p.source p.destination p.protocol with
    | none => exact h.reply p .noRoute
    | some target =>
      dsimp only
      cases if forwarded then p.decrementHopLimit else some p with
      | none => exact h.reply p .hopLimitExceeded
      | some p' =>
        obtain ⟨hsent, hanswered, hapart, hfirst⟩ := h
        have hreplies : b.replies = repliesTo cfg built (outcomes ++ [.inr (target, p')]) := by
          rw [repliesTo_sent, hanswered]
        obtain ⟨replies, _ | ⟨t, batch⟩, written⟩ := b
        · obtain rfl : written = [] := hfirst rfl
          exact ⟨by simpa [unbatch] using hsent, hreplies, by simp, nofun⟩
        · dsimp only at hsent hreplies hapart ⊢
          have hwritten : unbatch written ++ batch.map (fun p => (t, p)) = outcomes.filterMap Sum.getRight? := by
            simpa [unbatch] using hsent
          split_ifs with ht
          · subst ht
            exact ⟨by simp [unbatch, ← hwritten], hreplies, by simpa using hapart, nofun⟩
          · refine ⟨by simp [unbatch, ← hwritten], hreplies, ?_, nofun⟩
            have hlast : ((written ++ [(t, batch)]).map Prod.fst ++ [target]).IsChain (· ≠ ·) := by
              rw [isChain_append]
              exact ⟨hapart, by simp, by simpa using ht⟩
            simpa using hlast

/-- **Batching changes nothing**: every session gets its packets in their order, each batch is for another session than the
one before, and of the other packets those are answered for which an error can be built. -/
theorem writePacketBuffers_eq (packets : List (Server × Option Packet)) :
    let outcomes := packets.filterMap fun sp => forward cfg forwarded sp.1 sp.2
    let queues := (writePacketBuffers cfg built forwarded packets).1
    unbatch queues = outcomes.filterMap Sum.getRight? ∧ (queues.map Prod.fst).IsChain (· ≠ ·) ∧
      (writePacketBuffers cfg built forwarded packets).2 =
        (outcomes.filterMap Sum.getLeft?).filter fun r => buildICMPError cfg built r.1 r.2 := by
  have hrun : (packets.foldl (fun (b : Batch) sp => b.write cfg built forwarded sp.1 sp.2) ⟨[], none, []⟩).Has cfg built
      (packets.filterMap fun sp => forward cfg forwarded sp.1 sp.2) := by
    induction packets using List.reverseRecOn with
    | nil => exact ⟨rfl, rfl, by simp, fun _ => rfl⟩
    | append_singleton packets sp ih =>
      rw [foldl_append, filterMap_append, filterMap_cons, filterMap_nil]
      have hstep := ih.write forwarded sp.1 sp.2
      cases hout : forward cfg forwarded sp.1 sp.2 <;> simpa [hout] using hstep
  exact ⟨hrun.sent, hrun.apart, hrun.answered⟩

end EtonifyCore.Masque
