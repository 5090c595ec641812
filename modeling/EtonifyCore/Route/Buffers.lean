/-
Who releases the buffers of sniff actions: the return statements of `routeConnection` and `routePacketConnection`.

Model: the close of a connection releases the buffers in front of it. The handler of DNS packets (`protocol/dns/handle.go`)
releases the packets it is given one by one and ends at one that does not unpack (`dnsReleases`); `report` is the outcome of
the handshake report before it, `unpacks` is `dns.Msg.Unpack`.

Result: `buffers_disposed_iff`, no buffer is lost exactly if no rule fails while buffers are held, and of the packets that a
DNS handler is given only the last one it comes to may fail to unpack.
-/
import EtonifyCore.Route.Sniff

namespace EtonifyCore.Route

open List
open EtonifyCore.Core (Reader)

def held {α : Type} : Reader α → List (List α)
  | .source _ => []
  | .cached data conn => data :: held conn

theorem held_pushAll {α : Type} (pieces : List (List α)) (conn : Reader α) :
    held (conn.pushAll pieces) = pieces.reverse ++ held conn := by
  induction pieces generalizing conn with
  | nil => rfl
  | cons piece pieces ih =>
    change held ((Reader.cached piece conn).pushAll pieces) = _
    rw [ih, reverse_cons, append_assoc]
    rfl

theorem held_pushBackward {α : Type} (pieces : List (List α)) (conn : Reader α) :
    held (conn.pushBackward pieces) = pieces ++ held conn := by
  induction pieces with
  | nil => rfl
  | cons piece pieces ih => exact congrArg (piece :: ·) ih

namespace Router

variable {E α β : Type} (r : Router E)

/-- the walk ends in a rule that fails while there are buffers, or in one that loses some of them -/
def endsLosing (get : Matched E → List β) (loses : Rule E → List β → Prop) : List (Rule E) → Matched E → Prop
  | [], _ => False
  | rule :: rules, s =>
    match r.ruleStep rule s with
    | .pass s' => endsLosing get loses rules s'
    | .select s' => loses rule (get s')
    | .fatal s' _ => get s' ≠ []

def EndsLosing (get : Matched E → List β) (loses : Rule E → List β → Prop) (m : InboundContext E) (input : Input) : Prop :=
  ∃ m', r.prepareMatchMetadata m = .ok m' ∧ r.endsLosing get loses r.rules { metadata := m', input }

/-- a rule fails while there are buffers -/
def FailsHolding (get : Matched E → List β) : InboundContext E → Input → Prop := r.EndsLosing get fun _ _ => False

/-- the loop of `NewDNSPacketConnection` over its cached packets: a packet is released once it is unpacked, whatever comes of
it, and one that does not unpack ends the loop -/
def dnsReleases (unpacks : Packet → Bool) : List Packet → List Packet
  | [] => []
  | p :: cachedPackets => p :: if unpacks p then dnsReleases unpacks cachedPackets else []

/-- packets are hijacked, and one that does not unpack comes before others: they are handed on in reverse order -/
def LosesDNS (unpacks : Packet → Bool) (report : Bool) (rule : Rule E) (packetBuffers : List Packet) : Prop :=
  isHijackDNS (some rule) = true ∧ report = true ∧ ∃ p ∈ packetBuffers.tail, unpacks p = false

def owned (f : Reader α → List β) (dispatch : Dispatch E α) : List β := (dispatch.conn.map f).getD []

def releasedByOutbound (network : Network) (rule : Option (Rule E)) (buffers : List β) : List β :=
  match r.selectOutbound network rule with
  | .error _ => buffers
  | .ok outbound =>
    match r.resolveOutbound outbound network with
    | .error _ => buffers
    | .ok chain => if r.chainSelected chain network then [] else buffers

def released (network : Network) (result : MatchResult E) (hijacked buffers : List β) : List β :=
  -- `return err` releases nothing
  if result.fatalErr.isSome then []
  else if isHijackDNS result.selectedRule then hijacked
  else r.releasedByOutbound network result.selectedRule buffers

def matchesStream (m : InboundContext E) : Bool := matchesRules m && (r.reserved m.destination.fqdn).isNone

/-- all buffers of a stream are released once, or owned by the connection that is handed on -/
def StreamDisposed (m : InboundContext E) (reads : List StreamRead) : Prop :=
  let result := r.matchRule { m with network := .tcp } (.stream reads)
  let owned := owned held (r.routeConnection m reads)
  if r.matchesStream m then (r.released .tcp result [] result.state.buffers ++ owned).Perm result.state.buffers
  else owned = []

/-- the same for packets; without the handshake report the DNS handler gets nothing, otherwise its loop releases -/
def PacketsDisposed (unpacks : Packet → Bool) (m : InboundContext E) (reads : List PacketRead) (report : Bool) : Prop :=
  let result := r.matchRule { m with network := .udp } (.packets reads)
  let dispatch := r.routePacketConnection m reads
  let owned := if dispatch.isHijack then [] else owned (fun conn => (held conn).flatten) dispatch
  let buffers := result.state.packetBuffers
  let hijacked := if report then dnsReleases unpacks buffers.reverse else buffers
  if matchesRules m then (r.released .udp result hijacked buffers ++ owned).Perm buffers else owned = []

variable {m : InboundContext E}

theorem matchRules_loses (get : Matched E → List β) (loses : Rule E → List β → Prop) (i : ℕ) (rules : List (Rule E))
    (s : Matched E) :
    r.endsLosing get loses rules s ↔
      ((r.matchRules i rules s).fatalErr.isSome ∧ get (r.matchRules i rules s).state ≠ []) ∨
        ∃ rule, (r.matchRules i rules s).selectedRule = some rule ∧ loses rule (get (r.matchRules i rules s).state) := by
  induction rules generalizing i s with
  | nil => simp [endsLosing, matchRules]
  | cons rule rules ih =>
    rw [endsLosing, matchRules]
    cases r.ruleStep rule s with
    | pass s' => exact ih (i + 1) s'
    | select s' => simp
    | fatal s' err => simp

theorem matchRule_loses (get : Matched E → List β) (loses : Rule E → List β → Prop) (input : Input)
    (hnone : get { metadata := m, input } = []) :
    r.EndsLosing get loses m input ↔
      ((r.matchRule m input).fatalErr.isSome ∧ get (r.matchRule m input).state ≠ []) ∨
        ∃ rule, (r.matchRule m input).selectedRule = some rule ∧ loses rule (get (r.matchRule m input).state) := by
  unfold EndsLosing matchRule
  cases r.prepareMatchMetadata m with
  | error err => simp [hnone]
  | ok m' => simpa using r.matchRules_loses get loses 0 r.rules { metadata := m', input }

/-- the loop releases all packets exactly if those before the last one unpack -/
theorem dnsReleases_perm_iff (unpacks : Packet → Bool) (cachedPackets : List Packet) :
    (dnsReleases unpacks cachedPackets).Perm cachedPackets ↔ ∀ p ∈ cachedPackets.dropLast, unpacks p = true := by
  induction cachedPackets with
  | nil => simp [dnsReleases]
  | cons p rest ih =>
    rw [dnsReleases, perm_cons]
    cases rest with
    | nil => simp [dnsReleases]
    | cons q rest =>
      rw [dropLast_cons_cons, forall_mem_cons]
      by_cases hp : unpacks p = true
      · rw [if_pos hp, ih]
        exact (and_iff_right hp).symm
      · rw [if_neg hp]
        exact iff_of_false (fun h => by simpa using h.length_eq) fun h => hp h.1

theorem dispatchOutbound_disposes (network : Network) (rule : Option (Rule E)) {conn : Reader α} {buffers : List β}
    (nat : Option (RuleMatch.Socksaddr × RuleMatch.Socksaddr)) (f : Reader α → List β) (h : (f conn).Perm buffers) :
    (r.releasedByOutbound network rule buffers ++
      owned f (r.dispatchOutbound network rule conn nat m)).Perm buffers := by
  have hall : (buffers ++ []).Perm buffers := by rw [append_nil]
  unfold releasedByOutbound dispatchOutbound
  cases r.selectOutbound network rule with
  | error err => exact hall
  | ok outbound =>
    dsimp only
    cases r.resolveOutbound outbound network with
    | error err => exact hall
    | ok chain =>
      dsimp only
      split
      · exact h
      · exact hall

theorem matchRules_fatal (i : ℕ) (rules : List (Rule E)) (s : Matched E) (err : String)
    (h : (r.matchRules i rules s).fatalErr = some err) : (r.matchRules i rules s).selectedRule = none := by
  induction rules generalizing i s with
  | nil => rfl
  | cons rule rules ih =>
    rw [matchRules] at h ⊢
    cases hstep : r.ruleStep rule s with
    | pass s' =>
      rw [hstep] at h
      exact ih (i + 1) s' h
    | select s' =>
      rw [hstep] at h
      cases h
    | fatal s' err => rfl

theorem matchRule_fatal (m : InboundContext E) (input : Input) (err : String)
    (h : (r.matchRule m input).fatalErr = some err) : (r.matchRule m input).selectedRule = none := by
  unfold matchRule at h ⊢
  cases hprepare : r.prepareMatchMetadata m with
  | error err => rfl
  | ok m' =>
    rw [hprepare] at h
    exact r.matchRules_fatal 0 r.rules _ err h

theorem owned_detour {injectable : Injectable → Bool} {network : Network} {conn : Reader α} {f : Reader α → List β}
    (h : f conn = []) : owned f (r.detour injectable network m conn) = [] := by
  unfold owned
  cases hconn : (r.detour injectable network m conn).conn with
  | none => rfl
  | some c =>
    rw [r.detour_conn hconn]
    exact h

theorem streamDisposed_iff (reads : List StreamRead) : r.StreamDisposed m reads ↔
    ¬ (r.matchesStream m ∧ r.FailsHolding (·.buffers) { m with network := .tcp } (.stream reads)) := by
  have hfails := r.matchRule_loses (m := { m with network := .tcp }) (·.buffers) (fun _ _ => False) (.stream reads) rfl
  simp only [and_false, exists_false, or_false] at hfails
  rw [FailsHolding, hfails]
  unfold StreamDisposed routeConnection
  dsimp only
  by_cases hdetour : m.inboundDetour = ""
  swap
  · have hno : r.matchesStream m = false := by simp [matchesStream, matchesRules, hdetour]
    rw [if_pos hdetour, hno]
    simpa using r.owned_detour rfl
  rw [if_neg (not_not.2 hdetour)]
  cases hreserved : r.reserved m.destination.fqdn with
  | some err =>
    have hno : r.matchesStream m = false := by simp [matchesStream, hreserved]
    simp [hno, owned, Dispatch.conn]
  | none =>
    by_cases htun : m.inboundType = "tun" ∧ m.sniffed.protocol = "dns"
    · have hno : r.matchesStream m = false := by simp [matchesStream, matchesRules_false (.inr htun)]
      rw [hno]
      simp [htun, owned, Dispatch.conn, streamConn, held]
    have hyes : r.matchesStream m := by simp [matchesStream, (matchesRules_iff m).2 ⟨hdetour, htun⟩, hreserved]
    rw [hyes, if_pos rfl, if_neg htun]
    generalize r.matchRule { m with network := .tcp } (.stream reads) = result
    cases hfatal : result.fatalErr with
    | some err => simp [released, hfatal, owned, Dispatch.conn]
    | none =>
      have hperm : (held (Reader.pushAll result.state.buffers (Input.streamConn result.state.input))).Perm
          result.state.buffers := by
        rw [held_pushAll]
        cases result.state.input <;> simp [Input.streamConn, streamConn, held, reverse_perm]
      rw [released, hfatal]
      cases isHijackDNS result.selectedRule with
      | true => simpa [owned, Dispatch.conn] using hperm
      | false => simpa using r.dispatchOutbound_disposes .tcp result.selectedRule none held hperm

theorem packetsDisposed_iff (unpacks : Packet → Bool) (reads : List PacketRead) (report : Bool) :
    r.PacketsDisposed unpacks m reads report ↔ ¬ (matchesRules m ∧
      r.EndsLosing (·.packetBuffers) (LosesDNS unpacks report) { m with network := .udp } (.packets reads)) := by
  rw [matchRule_loses _ _ _ _ rfl]
  unfold PacketsDisposed routePacketConnection
  dsimp only
  by_cases hdetour : m.inboundDetour = ""
  swap
  · rw [if_pos hdetour, matchesRules_false (.inl hdetour), r.owned_detour rfl]
    simp
  rw [if_neg (not_not.2 hdetour)]
  by_cases htun : m.inboundType = "tun" ∧ m.sniffed.protocol = "dns"
  · simp [matchesRules_false (.inr htun), htun, owned, Dispatch.conn, newDNSPacketConnection, packetConn, held]
  rw [(matchesRules_iff m).2 ⟨hdetour, htun⟩, if_pos rfl, if_neg htun]
  have hselected := r.matchRule_fatal { m with network := .udp } (.packets reads)
  generalize r.matchRule { m with network := .udp } (.packets reads) = result at hselected ⊢
  cases hfatal : result.fatalErr with
  | some err =>
    have hnone : result.selectedRule = none := hselected err hfatal
    simp [released, hfatal, hnone, owned, Dispatch.conn, Dispatch.isHijack]
  | none =>
    have hsource : held (Input.packetConn result.state.input) = [] := by cases result.state.input <;> rfl
    rw [released, hfatal]
    cases hhijack : isHijackDNS result.selectedRule with
    | true =>
      obtain ⟨rule, hrule⟩ : ∃ rule, result.selectedRule = some rule := by
        cases hrule : result.selectedRule with
        | none => simp [isHijackDNS, hrule] at hhijack
        | some rule => exact ⟨rule, rfl⟩
      rw [hrule] at hhijack
      cases report with
      | false => simp [Dispatch.isHijack, hrule, LosesDNS]
      | true =>
        have hall := dnsReleases_perm_iff unpacks result.state.packetBuffers.reverse
        rw [dropLast_reverse] at hall
        have hperm : (dnsReleases unpacks result.state.packetBuffers.reverse).Perm result.state.packetBuffers ↔
            ∀ p ∈ result.state.packetBuffers.tail, unpacks p = true := by
          rw [← (reverse_perm result.state.packetBuffers).congr_right, hall]
          simp only [mem_reverse]
        simp [Dispatch.isHijack, hrule, LosesDNS, hhijack, hperm]
    | false =>
      have hkept : ¬ ∃ rule, result.selectedRule = some rule ∧ LosesDNS unpacks report rule result.state.packetBuffers := by
        rintro ⟨rule, hrule, hloses, -⟩
        rw [hrule, hloses] at hhijack
        cases hhijack
      have hperm : (held (Reader.pushBackward (result.state.packetBuffers.map fun p => [p])
          (Input.packetConn result.state.input))).flatten.Perm result.state.packetBuffers := by
        rw [held_pushBackward, hsource]
        simp [← flatMap_def]
      simpa [dispatchOutbound_isHijack, hkept] using r.dispatchOutbound_disposes .udp result.selectedRule _ _ hperm

/-- **No buffer is lost**, whatever the reads, exactly if no rule fails while buffers are held, and no packet is hijacked that
does not unpack while there are packets behind it. -/
theorem buffers_disposed_iff (r : Router E) (m : InboundContext E) :
    (∀ reads, r.StreamDisposed m reads ↔
      ¬ (r.matchesStream m = true ∧ r.FailsHolding (·.buffers) { m with network := .tcp } (.stream reads))) ∧
    ∀ unpacks reads report, r.PacketsDisposed unpacks m reads report ↔ ¬ (matchesRules m = true ∧
      r.EndsLosing (·.packetBuffers) (LosesDNS unpacks report) { m with network := .udp } (.packets reads)) :=
  ⟨r.streamDisposed_iff, r.packetsDisposed_iff⟩

def sniffThenResolveRules : List (Rule Unit) :=
  [{ matchOn := fun _ => true
     action := .sniff { snifferNames := ["tls"], streamSniffers := [fun _ s => (some (.other "unknown protocol"), s)] } },
   { matchOn := fun _ => true, action := .resolve {} }]

/-- the buffer of a stream whose destination is not resolved -/
theorem resolve_loses_buffer :
    ¬ (sample sniffThenResolveRules).StreamDisposed { destination := { fqdn := "example.org", port := 443 }, rest := () }
      [.read [1] none] := by
  rw [streamDisposed_iff, not_not]
  exact ⟨rfl, _, rfl, nofun⟩

end Router

end EtonifyCore.Route
