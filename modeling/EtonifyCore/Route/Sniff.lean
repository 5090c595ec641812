/-
What is read from a connection after it was sniffed: it must be the inbound bytes, or packets, in their order.

- `stream_delivers_iff`, `hijacked_delivers_iff`: what arrives is put together in the reverse order of the sniffing.
- `sniffing_transparent`: with one sniff action that reads data the order is right, and with two of them it is wrong, unless
  what they have read happens to read the same both ways.
- `sniffing_reordered`: two sniffers of the source on a stream in two segments.

Fake-IP flows are read through one more connection; the results are about the one below it.
-/
import EtonifyCore.Route.Router

namespace EtonifyCore.Route

open List
open EtonifyCore.Core (Reader)
open Input

variable {E : Type}

/-! ## Pieces in reverse order -/

section

variable {α : Type}

theorem flatten_filter_ne_nil (pieces : List (List α)) : (pieces.filter (!·.isEmpty)).flatten = pieces.flatten := by
  induction pieces with
  | nil => rfl
  | cons piece pieces ih => cases piece with
    | nil => exact ih
    | cons a piece => rw [filter_cons_of_pos (by rfl), flatten_cons, ih, flatten_cons]

theorem flatten_reverse_eq {pieces : List (List α)} (h : pieces.countP (!·.isEmpty) ≤ 1) :
    pieces.reverse.flatten = pieces.flatten := by
  rw [← flatten_filter_ne_nil pieces, ← flatten_filter_ne_nil pieces.reverse, filter_reverse]
  rw [countP_eq_length_filter] at h
  generalize pieces.filter (!·.isEmpty) = pieces at h
  obtain hnone | ⟨piece, hone⟩ : pieces = [] ∨ ∃ piece, pieces = [piece] := by
    rcases Nat.le_one_iff_eq_zero_or_eq_one.1 h with h | h
    · exact .inl (length_eq_zero_iff.1 h)
    · exact .inr (length_eq_one_iff.1 h)
  · rw [hnone]
    rfl
  · rw [hone]
    rfl

theorem countP_le_one {pieces : List (List α)} (hnodup : pieces.flatten.Nodup)
    (h : pieces.reverse.flatten = pieces.flatten) : pieces.countP (!·.isEmpty) ≤ 1 := by
  rw [← flatten_filter_ne_nil pieces] at hnodup h
  rw [← flatten_filter_ne_nil pieces.reverse, filter_reverse] at h
  rw [countP_eq_length_filter]
  have hne : ∀ piece ∈ pieces.filter (!·.isEmpty), piece ≠ [] := fun piece hmem => by
    simpa using (mem_filter.1 hmem).2
  generalize pieces.filter (!·.isEmpty) = pieces at hnodup h hne
  by_contra hmany
  -- both ways begin with the same element: it is in the first and in the last piece
  obtain ⟨first, rest, last, rfl⟩ : ∃ first rest last, pieces = first :: (rest ++ [last]) := by
    rcases pieces with _ | ⟨first, _ | ⟨second, more⟩⟩
    · simp at hmany
    · simp at hmany
    · exact ⟨first, _, _, by rw [dropLast_append_getLast (cons_ne_nil second more)]⟩
  obtain ⟨a, first, rfl⟩ := exists_cons_of_ne_nil (hne first mem_cons_self)
  obtain ⟨b, last, rfl⟩ := exists_cons_of_ne_nil (hne last (by simp))
  have hab : b = a := by simpa using congrArg head? h
  have hdisjoint := (pairwise_cons.1 (nodup_flatten.1 hnodup).2).1 (b :: last) (by simp)
  exact hdisjoint mem_cons_self (by rw [hab]; exact mem_cons_self)

theorem flatten_singletons (xs : List α) : (xs.map fun x => [x]).flatten = xs := by
  induction xs with
  | nil => rfl
  | cons x xs ih => rw [map_cons, flatten_cons, ih, singleton_append]

theorem length_le_one {xs : List α} (hnodup : xs.Nodup) (h : xs.reverse = xs) : xs.length ≤ 1 := by
  have hpieces : (xs.map fun x => [x]).countP (!·.isEmpty) = xs.length := by
    rw [countP_map]
    exact countP_eq_length.2 fun _ _ => rfl
  rw [← hpieces]
  refine countP_le_one ((flatten_singletons xs).symm ▸ hnodup) ?_
  rw [← map_reverse, h]

end

/-! ## What sniffing takes -/

/-- a part of the walk takes `pieces` and `packets` from the inbound connection and buffers them -/
structure Collects (s s' : Matched E) (pieces : List Bytes) (packets : List (List Packet)) : Prop where
  bytes : s.input.bytes = pieces.flatten ++ s'.input.bytes
  buffers : s'.buffers.reverse.flatten = pieces.reverse.flatten ++ s.buffers.reverse.flatten
  pending : s.input.pending = packets.flatten ++ s'.input.pending
  packetBuffers : s'.packetBuffers = s.packetBuffers ++ packets.flatten

namespace Collects

variable {s s' s'' : Matched E} {pieces pieces' : List Bytes} {packets packets' : List (List Packet)}

theorem of_eq (hinput : s'.input = s.input) (hbuffers : s'.buffers = s.buffers)
    (hpackets : s'.packetBuffers = s.packetBuffers) : Collects s s' [[]] [[]] := by
  refine ⟨?_, ?_, ?_, ?_⟩
  · rw [hinput]; rfl
  · rw [hbuffers]; rfl
  · rw [hinput]; rfl
  · rw [hpackets]; simp

theorem refl (s : Matched E) : Collects s s [] [] := ⟨rfl, rfl, rfl, by simp⟩

theorem trans (h : Collects s s' pieces packets) (h' : Collects s' s'' pieces' packets') :
    Collects s s'' (pieces ++ pieces') (packets ++ packets') where
  bytes := by rw [h.bytes, h'.bytes, flatten_append, append_assoc]
  buffers := by rw [h'.buffers, h.buffers, reverse_append, flatten_append, append_assoc]
  pending := by rw [h.pending, h'.pending, flatten_append, append_assoc]
  packetBuffers := by rw [h'.packetBuffers, h.packetBuffers, flatten_append, append_assoc]

end Collects

theorem peekStream_bytes (buffers : List Bytes) (sniffers : List Sniffer) (reads : List StreamRead) (first : Bool)
    (err : SniffError) (buffer : Bytes) (s : Sniffed) : (peekStream buffers sniffers reads first err buffer s).buffer ++
        (stream (peekStream buffers sniffers reads first err buffer s).rest).bytes =
      buffer ++ (stream reads).bytes := by
  induction reads generalizing first err buffer s with
  | nil => rfl
  | cons read rest ih =>
    cases read with
    | noDeadline message => rfl
    | read data e =>
      have hdata : buffer ++ (stream (.read data e :: rest)).bytes = (buffer ++ data) ++ (stream rest).bytes := by
        rw [append_assoc]; rfl
      rw [hdata]
      cases e with
      | some message => rfl
      | none =>
        rw [peekStream]
        split_ifs
        · exact ih false _ _ _
        · rfl

namespace Router

variable (r : Router E)

theorem sniffReads_pending (a : RuleActionSniff) (reads : List PacketRead) (read : List Packet) (m : InboundContext E) :
    (r.sniffReads a reads read m).packets ++ (packets (r.sniffReads a reads read m).rest).pending =
      read ++ (packets reads).pending := by
  induction reads generalizing read m with
  | nil => rfl
  | cons event rest ih =>
    cases event with
    | timeout message => rfl
    | failed message => rfl
    | canceled message => rfl
    | packet p =>
      have hpacket : read ++ (packets (.packet p :: rest)).pending = (read ++ [p]) ++ (packets rest).pending := by
        rw [append_assoc]; rfl
      rw [hpacket, sniffReads]
      split_ifs
      · exact ih _ _
      · rfl

/-- the sniff action runs on a stream and `PeekStream` reads some data -/
def readsData (a : RuleActionSniff) (s : Matched E) : Bool :=
  !(skipSniff s.metadata || s.metadata.sniffed.protocol ≠ "") &&
    match s.input with
    | .stream reads =>
      !((a.streamSniffers.isEmpty && !a.packetSniffers.isEmpty) || sniffFailed a s.metadata) &&
        !(peekStream s.buffers (r.streamSniffers a) reads true [] [] s.metadata.sniffed).buffer.isEmpty
    | .packets _ => false

theorem actionSniff_collects (a : RuleActionSniff) (s : Matched E) :
    ∃ piece packets, Collects s (r.actionSniff a s).1 [piece] [packets] ∧ (!piece.isEmpty) = r.readsData a s := by
  have hskip : r.readsData a s = false →
      ∃ piece packets, Collects s s [piece] [packets] ∧ (!piece.isEmpty) = r.readsData a s :=
    fun hidle => ⟨[], [], .of_eq rfl rfl rfl, hidle.symm⟩
  rw [actionSniff]
  split
  · rename_i hskipped
    exact hskip (by rw [readsData, hskipped]; rfl)
  rename_i hruns
  rw [Bool.not_eq_true] at hruns
  have hreads : r.readsData a s = (match s.input with
      | .stream reads =>
        !((a.streamSniffers.isEmpty && !a.packetSniffers.isEmpty) || sniffFailed a s.metadata) &&
          !(peekStream s.buffers (r.streamSniffers a) reads true [] [] s.metadata.sniffed).buffer.isEmpty
      | .packets _ => false) := by
    rw [readsData, hruns]
    rfl
  cases hinput : s.input with
  | stream reads =>
    rw [hinput] at hreads
    dsimp only at hreads ⊢
    split
    · rename_i hskipped
      exact hskip (by rw [hreads, hskipped]; rfl)
    rename_i hpeeks
    rw [Bool.not_eq_true] at hpeeks
    rw [hpeeks] at hreads
    set peeked := peekStream s.buffers (r.streamSniffers a) reads true [] [] s.metadata.sniffed
    have hbytes : peeked.buffer ++ (stream peeked.rest).bytes = (stream reads).bytes :=
      peekStream_bytes _ _ reads true [] [] _
    refine ⟨peeked.buffer, [], ⟨?_, ?_, ?_, ?_⟩, hreads.symm⟩
    · rw [hinput, ← hbytes, flatten_singleton]
    · by_cases hempty : peeked.buffer.isEmpty
      · rw [if_pos hempty, isEmpty_iff.1 hempty]; rfl
      · rw [if_neg hempty, reverse_append, flatten_append]
    · rw [hinput]; rfl
    · simp
  | packets reads =>
    rw [hinput] at hreads
    dsimp only at hreads ⊢
    split
    · exact hskip hreads
    rcases r.sniffBuffered a s.packetBuffers s.metadata with ⟨_ | err, m⟩
    · have hpending := r.sniffReads_pending a reads [] m
      rw [nil_append] at hpending
      have hcollects : ∀ m' : InboundContext E, Collects s
          { s with
            metadata := m'
            input := .packets (r.sniffReads a reads [] m).rest
            packetBuffers := s.packetBuffers ++ (r.sniffReads a reads [] m).packets }
          [[]] [(r.sniffReads a reads [] m).packets] := by
        intro m'
        refine ⟨?_, rfl, ?_, ?_⟩
        · rw [hinput]; rfl
        · rw [hinput, ← hpending, flatten_singleton]
        · rw [flatten_singleton]
      dsimp only
      split
      · exact ⟨_, _, hcollects _, hreads.symm⟩
      · exact ⟨_, _, hcollects _, hreads.symm⟩
    · exact ⟨[], [], .of_eq hinput.symm rfl rfl, hreads.symm⟩

/-! ## What one rule and the walk take -/

def actionReads (action : RuleAction) (s : Matched E) : Bool :=
  match action with
  | .sniff a => r.readsData a s
  | _ => false

/-- the rule is a sniff action that matches and reads data from the stream -/
def ruleReads (rule : Rule E) (s : Matched E) : Bool :=
  rule.matchOn s.metadata.view &&
    r.actionReads rule.action { s with metadata := r.applyAction rule.action s.metadata }

def Step.Collected (s : Matched E) (reads : Bool) : Step E → Prop
  | .pass s' => ∃ piece packets, Collects s s' [piece] [packets] ∧ (!piece.isEmpty) = reads
  | .select s' => Collects s s' [] []
  | .fatal _ _ => True

theorem actionStep_collected (action : RuleAction) (s : Matched E) :
    (r.actionStep action s).Collected s (r.actionReads action s) := by
  have hpass : Step.Collected s false (.pass s) := ⟨[], [], .of_eq rfl rfl rfl, rfl⟩
  cases action with
  | sniff a =>
    obtain ⟨piece, packets, hcollects, hreads⟩ := r.actionSniff_collects a s
    rw [actionStep]
    rcases hsniff : r.actionSniff a s with ⟨s', _ | err⟩
    · rw [hsniff] at hcollects
      exact ⟨piece, packets, hcollects, hreads⟩
    · trivial
  | resolve a =>
    rw [actionStep]
    cases r.actionResolve a s.metadata with
    | ok m => exact ⟨[], [], .of_eq rfl rfl rfl, rfl⟩
    | error err => trivial
  | bypass outbound options =>
    change Step.Collected s false (r.actionStep (.bypass outbound options) s)
    rw [actionStep]
    split_ifs
    · exact hpass
    · exact Collects.refl s
  | route outbound options => exact Collects.refl s
  | reject method noDrop => exact Collects.refl s
  | hijackDNS => exact Collects.refl s
  | routeOptions options => exact hpass
  | direct => exact hpass

theorem ruleStep_collected (rule : Rule E) (s : Matched E) : (r.ruleStep rule s).Collected s (r.ruleReads rule s) := by
  rw [ruleStep, ruleReads]
  by_cases hmatch : rule.matchOn s.metadata.view
  · rw [if_pos hmatch, hmatch, Bool.true_and]
    -- the options change the metadata only, which `Collects` does not mention
    have h := r.actionStep_collected rule.action { s with metadata := r.applyAction rule.action s.metadata }
    cases hstep : r.actionStep rule.action { s with metadata := r.applyAction rule.action s.metadata } with
    | pass s' =>
      rw [hstep] at h
      obtain ⟨piece, packets, hcollects, hreads⟩ := h
      exact ⟨piece, packets, { hcollects with }, hreads⟩
    | select s' =>
      rw [hstep] at h
      exact { h with }
    | fatal s' err => trivial
  · rw [if_neg hmatch, Bool.eq_false_of_not_eq_true hmatch]
    exact ⟨[], [], .of_eq rfl rfl rfl, rfl⟩

/-- how the rules cut the inbound data: for each rule that is passed, what it leaves less of it -/
def taken {α : Type} (data : Input → List α) : List (Rule E) → Matched E → List (List α)
  | [], _ => []
  | rule :: rules, s =>
    match r.ruleStep rule s with
    | .pass s' => (data s.input).take ((data s.input).length - (data s'.input).length) :: taken data rules s'
    | .select _ => []
    | .fatal _ _ => []

/-- the number of sniff actions among the rules that read data from the stream -/
def sniffings : List (Rule E) → Matched E → ℕ
  | [], _ => 0
  | rule :: rules, s =>
    match r.ruleStep rule s with
    | .pass s' => sniffings rules s' + if r.ruleReads rule s then 1 else 0
    | .select _ => 0
    | .fatal _ _ => 0

variable {α : Type}

theorem take_of_append {xs piece rest : List α} (h : xs = piece ++ rest) :
    xs.take (xs.length - rest.length) = piece := by
  subst h
  rw [length_append, Nat.add_sub_cancel, take_left]

theorem matchRules_collects (i : ℕ) (rules : List (Rule E)) (s : Matched E)
    (hok : (r.matchRules i rules s).fatalErr = none) :
    Collects s (r.matchRules i rules s).state (r.taken bytes rules s) (r.taken pending rules s) ∧
      (r.taken bytes rules s).countP (!·.isEmpty) = r.sniffings rules s := by
  induction rules generalizing i s with
  | nil => exact ⟨.refl s, rfl⟩
  | cons rule rules ih =>
    have hstep := r.ruleStep_collected rule s
    rw [matchRules] at hok ⊢
    rw [taken, taken, sniffings]
    generalize r.ruleStep rule s = step at hok hstep ⊢
    cases step with
    | pass s' =>
      obtain ⟨piece, packets, hcollects, hreads⟩ := hstep
      have hpiece := take_of_append (hcollects.bytes.trans (by rw [flatten_singleton]))
      have hpackets := take_of_append (hcollects.pending.trans (by rw [flatten_singleton]))
      obtain ⟨hrest, hcount⟩ := ih (i + 1) s' hok
      dsimp only
      rw [hpiece, hpackets, countP_cons, hcount, hreads]
      exact ⟨hcollects.trans hrest, rfl⟩
    | select s' => exact ⟨hstep, rfl⟩
    | fatal s' err => cases hok

/-! ## What the handler reads -/

def streamPieces (m : InboundContext E) (reads : List StreamRead) : List Bytes :=
  match r.prepareMatchMetadata { m with network := .tcp } with
  | .ok m => r.taken Input.bytes r.rules { metadata := m, input := .stream reads }
  | .error _ => []

def packetPieces (m : InboundContext E) (reads : List PacketRead) : List Packet :=
  match r.prepareMatchMetadata { m with network := .udp } with
  | .ok m => (r.taken Input.pending r.rules { metadata := m, input := .packets reads }).flatten
  | .error _ => []

variable {m : InboundContext E}

/-- the number of sniff actions that read data from the stream -/
def streamSniffings (m : InboundContext E) (reads : List StreamRead) : ℕ :=
  match r.prepareMatchMetadata { m with network := .tcp } with
  | .ok m => r.sniffings r.rules { metadata := m, input := .stream reads }
  | .error _ => 0

theorem matchRule_collects {input : Input} (hok : (r.matchRule m input).fatalErr = none) :
    ∃ m', r.prepareMatchMetadata m = .ok m' ∧ Collects { metadata := m', input } (r.matchRule m input).state
        (r.taken bytes r.rules { metadata := m', input })
        (r.taken pending r.rules { metadata := m', input }) ∧
      (r.taken bytes r.rules { metadata := m', input }).countP (!·.isEmpty) =
        r.sniffings r.rules { metadata := m', input } := by
  rw [matchRule] at hok ⊢
  cases hprepare : r.prepareMatchMetadata m with
  | error err =>
    rw [hprepare] at hok
    cases hok
  | ok m' =>
    rw [hprepare] at hok
    exact ⟨m', rfl, r.matchRules_collects 0 r.rules _ hok⟩

theorem contents_streamConn (input : Input) : (Input.streamConn input).contents = input.bytes := by
  cases input <;> rfl

theorem contents_packetConn (input : Input) : (Input.packetConn input).contents = input.pending := by
  cases input <;> rfl

theorem contents_stream {reads : List StreamRead} (hok : (r.matchRule { m with network := .tcp } (.stream reads)).fatalErr = none) :
    let state := (r.matchRule { m with network := .tcp } (.stream reads)).state
    ((Input.streamConn state.input).pushAll state.buffers).contents =
        (r.streamPieces m reads).reverse.flatten ++ state.input.bytes ∧
      (streamConn reads).contents = (r.streamPieces m reads).flatten ++ state.input.bytes ∧
      (r.streamPieces m reads).countP (!·.isEmpty) = r.streamSniffings m reads := by
  obtain ⟨m', hprepare, hcollects, hcount⟩ := r.matchRule_collects hok
  have hpieces : r.streamPieces m reads = r.taken bytes r.rules { metadata := m', input := .stream reads } := by
    rw [streamPieces, hprepare]
  have hbuffers := hcollects.buffers
  rw [reverse_nil, flatten_nil, append_nil] at hbuffers
  rw [hpieces]
  refine ⟨?_, hcollects.bytes, ?_⟩
  swap
  · rw [streamSniffings, hprepare]
    exact hcount
  rw [Reader.contents_pushAll, contents_streamConn, hbuffers]

variable {reads : List PacketRead}

theorem packets_buffered (hok : (r.matchRule { m with network := .udp } (.packets reads)).fatalErr = none) :
    let state := (r.matchRule { m with network := .udp } (.packets reads)).state
    state.packetBuffers = r.packetPieces m reads ∧
      (packetConn reads).contents = r.packetPieces m reads ++ (Input.packetConn state.input).contents := by
  obtain ⟨m', hprepare, hcollects, -⟩ := r.matchRule_collects hok
  have hpieces : r.packetPieces m reads =
      (r.taken pending r.rules { metadata := m', input := .packets reads }).flatten := by
    rw [packetPieces, hprepare]
  rw [hpieces]
  refine ⟨hcollects.packetBuffers, ?_⟩
  rw [contents_packetConn]
  exact hcollects.pending

def Dispatch.conn {α : Type} : Dispatch E α → Option (Reader α)
  | .inject _ conn _ => some conn
  | .hijackDNS conn _ => some conn
  | .outbound _ conn _ _ => some conn
  | .failed _ => none

def Dispatch.isHijack {α : Type} : Dispatch E α → Bool
  | .hijackDNS .. => true
  | .inject .. | .outbound .. | .failed _ => false

theorem detour_conn {injectable : Injectable → Bool} {network : Network}
    {conn c : Reader α} (h : (r.detour injectable network m conn).conn = some c) : c = conn := by
  rw [detour] at h
  split at h
  · cases h
  split at h
  · cases h
  split at h
  · exact (Option.some.inj h).symm
  · cases h

theorem dispatchOutbound_conn {network : Network} {rule : Option (Rule E)}
    {nat : Option (RuleMatch.Socksaddr × RuleMatch.Socksaddr)} {conn c : Reader α}
    (h : (r.dispatchOutbound network rule conn nat m).conn = some c) : c = conn := by
  rw [dispatchOutbound] at h
  split at h
  · cases h
  split at h
  · cases h
  split at h
  · exact (Option.some.inj h).symm
  · cases h

theorem dispatchOutbound_isHijack (network : Network) (rule : Option (Rule E)) (m : InboundContext E)
    (nat : Option (RuleMatch.Socksaddr × RuleMatch.Socksaddr)) (conn : Reader α) :
    (r.dispatchOutbound network rule conn nat m).isHijack = false := by
  rw [dispatchOutbound]
  split
  · rfl
  split
  · rfl
  split <;> rfl

theorem matchesRules_iff (m : InboundContext E) :
    matchesRules m ↔ m.inboundDetour = "" ∧ ¬(m.inboundType = "tun" ∧ m.sniffed.protocol = "dns") := by
  rw [not_and_or]
  simp [matchesRules]

theorem matchesRules_false
    (h : m.inboundDetour ≠ "" ∨ (m.inboundType = "tun" ∧ m.sniffed.protocol = "dns")) : matchesRules m = false := by
  rw [Bool.eq_false_iff, Ne, matchesRules_iff]
  rintro ⟨hdetour, htun⟩
  exact h.elim (fun hne => hne hdetour) htun

theorem routeConnection_conn {reads : List StreamRead} {conn : Reader UInt8}
    (h : (r.routeConnection m reads).conn = some conn) :
    (matchesRules m = false ∧ conn = streamConn reads) ∨ (matchesRules m ∧
        let result := r.matchRule { m with network := .tcp } (.stream reads)
        result.fatalErr = none ∧ conn = (Input.streamConn result.state.input).pushAll result.state.buffers) := by
  rw [routeConnection] at h
  by_cases hdetour : m.inboundDetour = ""
  · rw [if_neg (not_not.2 hdetour)] at h
    cases hreserved : r.reserved m.destination.fqdn with
    | some err => rw [hreserved] at h; cases h
    | none =>
      rw [hreserved] at h
      by_cases htun : m.inboundType = "tun" ∧ m.sniffed.protocol = "dns"
      · rw [if_pos htun] at h
        exact .inl ⟨matchesRules_false (.inr htun), (Option.some.inj h).symm⟩
      · dsimp only at h
        rw [if_neg htun] at h
        refine .inr ⟨(matchesRules_iff m).2 ⟨hdetour, htun⟩, ?_⟩
        generalize r.matchRule { m with network := .tcp } (.stream reads) = result at h ⊢
        cases hok : result.fatalErr with
        | some err => rw [hok] at h; cases h
        | none =>
          rw [hok] at h
          refine ⟨hok, ?_⟩
          dsimp only at h
          split at h
          · exact (Option.some.inj h).symm
          · exact r.dispatchOutbound_conn h
  · rw [if_pos hdetour] at h
    exact .inl ⟨matchesRules_false (.inl hdetour), r.detour_conn h⟩

variable {conn : Reader Packet}

theorem routePacketConnection_conn (h : (r.routePacketConnection m reads).conn = some conn) :
    (matchesRules m = false ∧ conn.contents = (packetConn reads).contents) ∨ (matchesRules m ∧
        let result := r.matchRule { m with network := .udp } (.packets reads)
        result.fatalErr = none ∧ ((r.routePacketConnection m reads).isHijack →
            conn = newDNSPacketConnection (Input.packetConn result.state.input) result.state.packetBuffers) ∧
          ((r.routePacketConnection m reads).isHijack = false →
            conn = (Input.packetConn result.state.input).pushBackward
              (result.state.packetBuffers.map fun p => [p]))) := by
  rw [routePacketConnection] at h ⊢
  by_cases hdetour : m.inboundDetour = ""
  · rw [if_neg (not_not.2 hdetour)] at h ⊢
    by_cases htun : m.inboundType = "tun" ∧ m.sniffed.protocol = "dns"
    · rw [if_pos htun] at h
      refine .inl ⟨matchesRules_false (.inr htun), ?_⟩
      rw [← Option.some.inj h]
      rfl
    · rw [if_neg htun] at h ⊢
      refine .inr ⟨(matchesRules_iff m).2 ⟨hdetour, htun⟩, ?_⟩
      generalize r.matchRule { m with network := .udp } (.packets reads) = result at h ⊢
      dsimp only at h ⊢
      cases hok : result.fatalErr with
      | some err => rw [hok] at h; cases h
      | none =>
        rw [hok] at h
        by_cases hhijack : isHijackDNS result.selectedRule
        · rw [if_pos hhijack] at h ⊢
          exact ⟨rfl, fun _ => (Option.some.inj h).symm, fun hno => by cases hno⟩
        · rw [if_neg hhijack] at h ⊢
          rw [dispatchOutbound_isHijack]
          exact ⟨rfl, fun hno => (by cases hno), fun _ => r.dispatchOutbound_conn h⟩
  · rw [if_pos hdetour] at h
    refine .inl ⟨matchesRules_false (.inl hdetour), ?_⟩
    rw [r.detour_conn h]

def SniffedOnce (m : InboundContext E) (reads : List StreamRead) : Prop :=
  matchesRules m = true → r.streamSniffings m reads ≤ 1

def AtMostOnePacket (m : InboundContext E) (reads : List PacketRead) : Prop :=
  matchesRules m = true → (r.packetPieces m reads).length ≤ 1

/-- what a rule's handler of a stream reads: the pieces that sniffing has cut off, the last one first -/
theorem stream_delivers_iff {reads : List StreamRead} {conn : Reader UInt8}
    (h : (r.routeConnection m reads).conn = some conn) :
    conn.Delivers (streamConn reads).contents ↔
      (matchesRules m = true → (r.streamPieces m reads).reverse.flatten = (r.streamPieces m reads).flatten) := by
  rw [Reader.delivers_iff]
  rcases r.routeConnection_conn h with ⟨hrules, rfl⟩ | ⟨hrules, hok, rfl⟩
  · simp [hrules]
  · obtain ⟨hconn, hinbound, -⟩ := r.contents_stream hok
    rw [hconn, hinbound, append_left_inj]
    exact ⟨fun heq _ => heq, fun himp => himp hrules⟩

theorem stream_delivers {reads : List StreamRead} {conn : Reader UInt8} (h : (r.routeConnection m reads).conn = some conn)
    (honce : r.SniffedOnce m reads) : conn.Delivers (streamConn reads).contents := by
  rcases r.routeConnection_conn h with ⟨hrules, -⟩ | ⟨-, hok, -⟩
  · exact (r.stream_delivers_iff h).2 fun hyes => by rw [hrules] at hyes; cases hyes
  · refine (r.stream_delivers_iff h).2 fun hrules => flatten_reverse_eq ?_
    rw [(r.contents_stream hok).2.2]
    exact honce hrules

theorem sniffedOnce_of_delivers {reads : List StreamRead} {conn : Reader UInt8}
    (h : (r.routeConnection m reads).conn = some conn) (hnodup : (streamConn reads).contents.Nodup)
    (hdelivers : conn.Delivers (streamConn reads).contents) : r.SniffedOnce m reads := by
  intro hrules
  rcases r.routeConnection_conn h with ⟨hno, -⟩ | ⟨-, hok, -⟩
  · rw [hrules] at hno
    cases hno
  · obtain ⟨-, hinbound, hcount⟩ := r.contents_stream hok
    rw [hinbound] at hnodup
    rw [← hcount]
    exact countP_le_one hnodup.of_append_left ((r.stream_delivers_iff h).1 hdelivers hrules)

theorem hijacked_delivers_iff
    (h : (r.routePacketConnection m reads).conn = some conn) (hhijack : (r.routePacketConnection m reads).isHijack) :
    conn.Delivers (packetConn reads).contents ↔
      (matchesRules m = true → (r.packetPieces m reads).reverse = r.packetPieces m reads) := by
  rw [Reader.delivers_iff]
  rcases r.routePacketConnection_conn h with ⟨hrules, hconn⟩ | ⟨hrules, hok, hconn, -⟩
  · simp [hrules, hconn]
  · obtain ⟨hbuffers, hinbound⟩ := r.packets_buffered hok
    rw [hconn hhijack, hbuffers, hinbound, newDNSPacketConnection, Reader.contents, append_left_inj]
    exact ⟨fun heq _ => heq, fun himp => himp hrules⟩

theorem hijacked_delivers (h : (r.routePacketConnection m reads).conn = some conn)
    (hhijack : (r.routePacketConnection m reads).isHijack) (hone : r.AtMostOnePacket m reads) :
    conn.Delivers (packetConn reads).contents := by
  refine (r.hijacked_delivers_iff h hhijack).2 fun hrules => ?_
  rcases Nat.le_one_iff_eq_zero_or_eq_one.1 (hone hrules) with hlength | hlength
  · rw [length_eq_zero_iff.1 hlength]
    rfl
  · obtain ⟨packet, hpacket⟩ := length_eq_one_iff.1 hlength
    rw [hpacket]
    rfl

theorem atMostOnePacket_of_delivers (h : (r.routePacketConnection m reads).conn = some conn)
    (hhijack : (r.routePacketConnection m reads).isHijack) (hnodup : (packetConn reads).contents.Nodup)
    (hdelivers : conn.Delivers (packetConn reads).contents) : r.AtMostOnePacket m reads := by
  intro hrules
  rcases r.routePacketConnection_conn h with ⟨hno, -⟩ | ⟨-, hok, -⟩
  · rw [hrules] at hno
    cases hno
  · rw [(r.packets_buffered hok).2] at hnodup
    exact length_le_one hnodup.of_append_left ((r.hijacked_delivers_iff h hhijack).1 hdelivers hrules)

theorem outbound_delivers (h : (r.routePacketConnection m reads).conn = some conn)
    (hhijack : (r.routePacketConnection m reads).isHijack = false) : conn.Delivers (packetConn reads).contents := by
  rw [Reader.delivers_iff]
  rcases r.routePacketConnection_conn h with ⟨-, hconn⟩ | ⟨-, hok, -, hconn⟩
  · exact hconn
  · obtain ⟨hbuffers, hinbound⟩ := r.packets_buffered hok
    rw [hconn hhijack, hbuffers, hinbound, Reader.contents_pushBackward, flatten_singletons]

/-- **When sniffing is transparent.** A stream is read in its order if at most one sniff action has read data from it, and
packets for the DNS hijacker if sniffing has read at most one; where no byte or packet comes twice, only then. All other
packet connections are read in their order. -/
theorem sniffing_transparent (r : Router E) (m : InboundContext E) (stream : List StreamRead) (packets : List PacketRead) :
    (∀ conn, (r.routeConnection m stream).conn = some conn →
      (r.SniffedOnce m stream → conn.Delivers (streamConn stream).contents) ∧
        ((streamConn stream).contents.Nodup →
          (conn.Delivers (streamConn stream).contents ↔ r.SniffedOnce m stream))) ∧
    (∀ conn, (r.routePacketConnection m packets).conn = some conn →
      (((r.routePacketConnection m packets).isHijack = true → r.AtMostOnePacket m packets) →
          conn.Delivers (packetConn packets).contents) ∧
        ((packetConn packets).contents.Nodup →
          (conn.Delivers (packetConn packets).contents ↔
            ((r.routePacketConnection m packets).isHijack = true → r.AtMostOnePacket m packets)))) := by
  refine ⟨fun conn h => ⟨r.stream_delivers h, fun hnodup =>
    ⟨r.sniffedOnce_of_delivers h hnodup, r.stream_delivers h⟩⟩, fun conn h => ?_⟩
  cases hhijack : (r.routePacketConnection m packets).isHijack with
  | true =>
    refine ⟨fun hone => r.hijacked_delivers h hhijack (hone rfl), fun hnodup => ⟨fun hdelivers _ => ?_, fun hone => ?_⟩⟩
    · exact r.atMostOnePacket_of_delivers h hhijack hnodup hdelivers
    · exact r.hijacked_delivers h hhijack (hone rfl)
  | false =>
    have hdelivers := r.outbound_delivers h hhijack
    exact ⟨fun _ => hdelivers, fun _ => ⟨nofun, fun _ => hdelivers⟩⟩

/-! ## Two sniffers of the source -/

/-- a field of `n` bytes, which must be as `ok` says; `os.ErrInvalid` otherwise -/
def field (n : ℕ) (ok : Bytes → Bool) (next : Bytes → Option Cause) (data : Bytes) : Option Cause :=
  if data.length < n then some .needMoreData
  else if ok (data.take n) then next (data.drop n) else some (.other "invalid argument")

def rdp : Sniffer := fun data s =>
  let fields := field 1 (· == [0x03]) <| field 1 (· == [0x00]) <| field 2 (· == [0, 19]) <| field 1 (· == [14]) <|
    field 1 (· == [0xE0]) <| field 5 (fun _ => true) <| field 1 (· == [0x01]) <| field 1 (fun _ => true) <|
      field 1 (· == [8]) fun _ => none
  match fields data with
  | none => (none, { s with protocol := "rdp" })
  | some err => (some err, s)

def sshPrefix : Bytes := [83, 83, 72, 45, 50, 46, 48, 45]

/-- `ReadLine` of a reader with a buffer of 4096 bytes -/
def readLine (data : Bytes) : Bytes :=
  let line := (data.take 4096).takeWhile (· ≠ 10)
  if line.length < data.length ∧ line.getLast? = some 13 then line.dropLast else line

def ssh : Sniffer := fun data s =>
  let start := data.take 8
  if start ≠ sshPrefix.take start.length then (some (.other "invalid argument"), s)
  else if start.length < 8 then (some .needMoreData, s)
  else (none, { s with
    protocol := "ssh"
    client := String.ofList (((readLine data).drop 8).map fun b => Char.ofNat b.toNat) })

def twoSniffRules : List (Rule Unit) :=
  [("rdp", rdp), ("ssh", ssh)].map fun (name, sniffer) =>
    { matchOn := fun _ => true, action := .sniff { snifferNames := [name], streamSniffers := [sniffer] } }

/-- A stream in two segments that neither RDP nor SSH begins with: each sniff action takes one, and the outbound reads the
second one first. -/
theorem sniffing_reordered :
    ∃ conn, ((sample twoSniffRules).routeConnection { destination := { port := 443 }, rest := () }
      [.read [1] none, .read [2] none]).conn = some conn ∧ conn.contents = [2, 1] ∧ ¬conn.Delivers [1, 2] := by
  refine ⟨_, rfl, rfl, ?_⟩
  rw [Reader.delivers_iff]
  decide

end Router

end EtonifyCore.Route
