/-
The multiplexer answers every query once, as long as IDs do not meet.

`complete` looks at the ID of a message only: a message of one connection answers a query of another one that has the same ID
(`foreign_answer`). So does the writer when it takes its query back: a query that has got the same ID meanwhile is lost.
-/
import EtonifyCore.Transport.Multiplexer

namespace EtonifyCore.Multiplexer

open Core (Table)
open Core.Table Reader Runner St

/-! ## Tokens -/

def Query.counts (query : Query) (c : ℕ) : ℕ := if query.call = c then 1 else 0

/-- a runner that has registered its query has nothing more in its hand, until it takes the query back -/
def RunnerPhase.holds (call c : ℕ) : RunnerPhase → ℕ
  | .dispatching | .singleDialing | .singleWriting | .singleReading | .acquiring _ | .registering .. | .refused _
  | .released => if call = c then 1 else 0
  | .taken _ _ (some (_, query)) _ | .retrying _ query _ => query.counts c
  | .taken _ _ none _ | .writing .. | .writeFailed .. | .returned => 0

def Runner.holds (c : ℕ) (runner : Runner) : ℕ := runner.phase.holds runner.call c

def After.holds (c : ℕ) : After → ℕ
  | .took _ query | .settled query => query.counts c
  | _ => 0

def Pending.holds (c : ℕ) (pending : Pending) : ℕ :=
  (if pending.registered then pending.query.counts c else 0) + pending.context.holds c + pending.connection.holds c

def ReaderPhase.holds (c : ℕ) : ReaderPhase → ℕ
  | .took _ query _ | .settled query _ => query.counts c
  | _ => 0

def Reader.holds (c : ℕ) (reader : Reader) : ℕ := reader.phase.holds c

def St.answers (s : St) (c : ℕ) : ℕ := s.callbacks.countP (·.1 = c)

def St.tokens (s : St) (c : ℕ) : ℕ :=
  s.runners.total (Runner.holds c) + s.pendings.total (Pending.holds c) + s.readers.total (Reader.holds c) + s.answers c

/-! ## Invariant -/

def St.Registered (s : St) (id : UInt16) (p : ℕ) : Prop :=
  p < s.pendings.size ∧ (s.pendings.get p).registered = true ∧ (s.pendings.get p).queryId = id

def St.Taken (s : St) (p : ℕ) : Prop := p < s.pendings.size ∧ (s.pendings.get p).registered = false

/-- what is in the map under the ID of a writer is its own query -/
def RunnerInv (s : St) (runner : Runner) : Prop :=
  match runner.phase with
  | .writing _ _ id | .writeFailed _ _ id _ => ∀ p, s.Registered id p → (s.pendings.get p).query.call = runner.call
  | .taken _ _ (some (p, query)) _ => s.Taken p ∧ query.call = runner.call
  | .retrying _ query _ => query.call = runner.call
  | _ => True

/-- what is in the map under the ID of a message is on the connection that it came from -/
def ReaderInv (s : St) (reader : Reader) : Prop :=
  match reader.phase with
  | .received message => ∀ p, s.Registered message.id p → (s.pendings.get p).query.conn = reader.conn
  | .took p query _ => s.Taken p ∧ query.conn = reader.conn
  | .settled query _ => query.conn = reader.conn
  | _ => True

def AfterInv (s : St) : After → Prop
  | .took p _ => s.Taken p
  | _ => True

def After.waits : After → Bool
  | .armed | .started => true
  | _ => false

/-- `hand` is what a step has in its hand -/
structure Inv (s : St) (hand : ℕ → ℕ) : Prop where
  tokens : ∀ c, s.tokens c + hand c = if c < s.calls.size then 1 else 0
  unique : ∀ id p p', s.Registered id p → s.Registered id p' → p = p'
  waits : ∀ id p, s.Registered id p → (s.pendings.get p).context.waits = true ∧ (s.pendings.get p).connection.waits = true
  runner : ∀ r < s.runners.size, RunnerInv s (s.runners.get r)
  reader : ∀ k < s.readers.size, ReaderInv s (s.readers.get k)
  context : ∀ p < s.pendings.size, AfterInv s (s.pendings.get p).context
  connection : ∀ p < s.pendings.size, AfterInv s (s.pendings.get p).connection

variable {s s' : St} {hand hand' : ℕ → ℕ} {c k p r : ℕ} {id : UInt16}

structure Shrinks (s s' : St) : Prop where
  registered : ∀ id p, s'.Registered id p → s.Registered id p
  taken : ∀ p, s.Taken p → s'.Taken p
  query : ∀ p, (s'.pendings.get p).query = (s.pendings.get p).query

theorem Shrinks.of_eq (h : s'.pendings = s.pendings) : Shrinks s s' := by
  refine ⟨fun id p hp => ?_, fun p hp => ?_, fun p => by rw [h]⟩
  · unfold St.Registered at hp ⊢
    rwa [h] at hp
  · unfold St.Taken at hp ⊢
    rwa [h]

variable {runner : Runner}

/-- a runner writes under an ID, or has not taken its query back after the write has failed -/
def Runner.Writes (runner : Runner) (id : UInt16) : Prop :=
  (∃ conn created, runner.phase = .writing conn created id) ∨ ∃ conn created err, runner.phase = .writeFailed conn created id err

theorem RunnerInv.of_map (h : RunnerInv s runner) (hmap : ∀ id, runner.Writes id → ∀ p, s'.Registered id p →
      s.Registered id p ∧ (s'.pendings.get p).query = (s.pendings.get p).query)
    (htaken : ∀ p, s.Taken p → s'.Taken p) : RunnerInv s' runner := by
  unfold RunnerInv at h ⊢
  generalize hphase : runner.phase = phase at h ⊢
  cases phase with
  | writing =>
    intro p hp
    obtain ⟨hreg, hquery⟩ := hmap _ (.inl ⟨_, _, hphase⟩) p hp
    rw [hquery]
    exact h p hreg
  | writeFailed =>
    intro p hp
    obtain ⟨hreg, hquery⟩ := hmap _ (.inr ⟨_, _, _, hphase⟩) p hp
    rw [hquery]
    exact h p hreg
  | taken _ _ pending _ =>
    cases pending with
    | none => trivial
    | some pending => exact ⟨htaken _ h.1, h.2⟩
  | retrying _ query _ => exact h
  | _ => trivial

theorem RunnerInv.mono (h : RunnerInv s runner) (hs : Shrinks s s') : RunnerInv s' runner :=
  h.of_map (fun id _ p hp => ⟨hs.registered id p hp, hs.query p⟩) hs.taken

variable {reader : Reader}

theorem ReaderInv.of_map (h : ReaderInv s reader)
    (hmap : ∀ message, reader.phase = .received message → ∀ p, s'.Registered message.id p →
      s.Registered message.id p ∧ (s'.pendings.get p).query = (s.pendings.get p).query)
    (htaken : ∀ p, s.Taken p → s'.Taken p) : ReaderInv s' reader := by
  unfold ReaderInv at h ⊢
  generalize hphase : reader.phase = phase at h ⊢
  cases phase with
  | received message =>
    intro p hp
    obtain ⟨hreg, hquery⟩ := hmap message hphase p hp
    rw [hquery]
    exact h p hreg
  | took p query message => exact ⟨htaken p h.1, h.2⟩
  | settled query message => exact h
  | _ => trivial

theorem ReaderInv.mono (h : ReaderInv s reader) (hs : Shrinks s s') : ReaderInv s' reader :=
  h.of_map (fun _ _ p hp => ⟨hs.registered _ p hp, hs.query p⟩) hs.taken

variable {after : After}

theorem AfterInv.mono (h : AfterInv s after) (hs : Shrinks s s') : AfterInv s' after := by
  cases after with
  | took p query => exact hs.taken p h
  | _ => trivial

theorem Inv.keep (h : Inv s hand) (hpendings : s'.pendings = s.pendings)
    (htokens : ∀ c, s'.tokens c + hand' c = if c < s'.calls.size then 1 else 0)
    (hrunner : ∀ r < s'.runners.size, RunnerInv s (s'.runners.get r))
    (hreader : ∀ k < s'.readers.size, ReaderInv s (s'.readers.get k)) : Inv s' hand' := by
  have hs : Shrinks s s' := .of_eq hpendings
  refine ⟨htokens, fun id p p' hp hp' => ?_, fun id p hp => ?_, fun r hr => (hrunner r hr).mono hs,
    fun k hk => (hreader k hk).mono hs, fun p hp => ?_, fun p hp => ?_⟩
  · exact h.unique id p p' (hs.registered id p hp) (hs.registered id p' hp')
  · rw [hpendings]
    exact h.waits id p (hs.registered id p hp)
  · rw [hpendings] at hp ⊢
    exact (h.context p hp).mono hs
  · rw [hpendings] at hp ⊢
    exact (h.connection p hp).mono hs

theorem Inv.of_eq (h : Inv s hand) (hcalls : s'.calls.size = s.calls.size) (hrunners : s'.runners = s.runners)
    (hpendings : s'.pendings = s.pendings) (hreaders : s'.readers = s.readers) (hcallbacks : s'.callbacks = s.callbacks) :
    Inv s' hand := by
  refine h.keep hpendings (fun c => ?_) (hrunners ▸ h.runner) (hreaders ▸ h.reader)
  rw [St.tokens, St.answers, hrunners, hpendings, hreaders, hcallbacks, hcalls]
  exact h.tokens c

theorem Inv.account (h : Inv s hand) (hcalls : s'.calls = s.calls) (hsum : s'.tokens c + hand' c = s.tokens c + hand c) :
    s'.tokens c + hand' c = if c < s'.calls.size then 1 else 0 := by
  rw [hsum, hcalls]
  exact h.tokens c

theorem Inv.setRunner (h : Inv s hand) (hr : r < s.runners.size) (hrunner : RunnerInv s runner)
    (hsum : ∀ c, hand' c + runner.holds c = hand c + (s.runners.get r).holds c) : Inv (s.setRunner r runner) hand' := by
  refine h.keep rfl (fun c => ?_) (fun r' hr' => ?_) h.reader
  · have htotal := total_set s.runners (Runner.holds c) runner hr
    have hc := hsum c
    refine h.account rfl ?_
    simp only [St.tokens, St.answers, St.setRunner]
    omega
  · exact get_set_cases _ (P := RunnerInv s) (fun _ => hrunner) (fun _ => h.runner r' hr')

theorem Inv.setReader (h : Inv s hand) (hk : k < s.readers.size) {phase : ReaderPhase}
    (hreader : ReaderInv s { s.readers.get k with phase })
    (hsum : ∀ c, hand' c + phase.holds c = hand c + (s.readers.get k).holds c) : Inv (s.setReader k phase) hand' := by
  refine h.keep rfl (fun c => ?_) h.runner fun k' hk' => ?_
  · have htotal := total_set s.readers (Reader.holds c) { s.readers.get k with phase } hk
    have hc : hand' c + Reader.holds c { s.readers.get k with phase } = hand c + (s.readers.get k).holds c := hsum c
    refine h.account rfl ?_
    simp only [St.tokens, St.answers, St.setReader] at htotal hc ⊢
    omega
  · exact get_set_cases _ (P := ReaderInv s) (fun _ => hreader) (fun _ => h.reader k' hk')

variable {pending : Pending}

theorem shrinks_setPending (hquery : pending.query = (s.pendings.get p).query)
    (hid : pending.queryId = (s.pendings.get p).queryId)
    (hregistered : pending.registered → (s.pendings.get p).registered) : Shrinks s (s.setPending p pending) := by
  refine ⟨fun id p' hp' => ?_, fun p' hp' => ?_, fun p' => ?_⟩
  · refine ⟨hp'.1, ?_⟩
    revert hp'
    intro ⟨_, hreg⟩
    revert hreg
    exact get_set_cases _ (P := fun (k : Pending) => k.registered ∧ k.queryId = id → _)
      (fun heq hreg => by subst heq; exact ⟨hregistered hreg.1, hid ▸ hreg.2⟩) (fun _ hreg => hreg)
  · refine ⟨hp'.1, ?_⟩
    refine get_set_cases _ (P := fun (k : Pending) => k.registered = false) (fun heq => ?_) (fun _ => hp'.2)
    subst heq
    cases hb : pending.registered with
    | false => rfl
    | true => exact hp'.2.symm.trans (hregistered hb) |>.symm
  · exact apply_get_set _ Pending.query hquery p'

theorem Inv.setPending (h : Inv s hand) (hp : p < s.pendings.size)
    (hquery : pending.query = (s.pendings.get p).query) (hid : pending.queryId = (s.pendings.get p).queryId)
    (hregistered : pending.registered → (s.pendings.get p).registered)
    (hwaits : pending.registered → pending.context.waits ∧ pending.connection.waits)
    (hcontext : AfterInv s pending.context) (hconnection : AfterInv s pending.connection)
    (hsum : ∀ c, hand' c + pending.holds c = hand c + (s.pendings.get p).holds c) : Inv (s.setPending p pending) hand' := by
  have hs : Shrinks s (s.setPending p pending) := shrinks_setPending hquery hid hregistered
  refine ⟨fun c => ?_, fun id p₁ p₂ h₁ h₂ => ?_, fun id p' hp' => ?_, fun r hr => (h.runner r hr).mono hs,
    fun k hk => (h.reader k hk).mono hs, fun p' hp' => ?_, fun p' hp' => ?_⟩
  · have htotal := total_set s.pendings (Pending.holds c) pending hp
    have hc := hsum c
    refine h.account rfl ?_
    simp only [St.tokens, St.answers, St.setPending]
    omega
  · exact h.unique id p₁ p₂ (hs.registered id p₁ h₁) (hs.registered id p₂ h₂)
  · have hold := h.waits id p' (hs.registered id p' hp')
    obtain ⟨-, hreg, -⟩ := hp'
    revert hreg
    exact get_set_cases _ (P := fun (k : Pending) => k.registered → k.context.waits ∧
      k.connection.waits) (fun _ => hwaits) (fun _ _ => hold)
  · exact get_set_cases _ (P := fun (k : Pending) => AfterInv _ k.context) (fun _ => hcontext.mono hs)
      (fun _ => (h.context p' hp').mono hs)
  · exact get_set_cases _ (P := fun (k : Pending) => AfterInv _ k.connection) (fun _ => hconnection.mono hs)
      (fun _ => (h.connection p' hp').mono hs)

theorem Inv.callback (h : Inv s hand) {result : Except Err Msg}
    (hsum : ∀ c', hand' c' + (if c = c' then 1 else 0) = hand c') : Inv (s.callback c result) hand' := by
  refine h.keep rfl (fun c' => ?_) h.runner h.reader
  have hlog : (s.callback c result).answers c' = s.answers c' + if c = c' then 1 else 0 := by
    simp [St.answers, St.callback, List.countP_append, List.countP_singleton]
  have htokens := h.tokens c'
  have hc := hsum c'
  change s.runners.total (Runner.holds c') + s.pendings.total (Pending.holds c') + s.readers.total (Reader.holds c') +
    (s.callback c result).answers c' + hand' c' = if c' < s.calls.size then 1 else 0
  rw [St.tokens] at htokens
  omega

/-! ## Taking a query -/

theorem registered_of_query (h : s.query id = some p) : s.Registered id p := by
  have hmem := List.mem_of_find?_eq_some h
  have hfound := List.find?_some h
  rw [Bool.and_eq_true, beq_iff_eq] at hfound
  exact ⟨List.mem_range.1 hmem, hfound⟩

theorem not_registered_of_query (h : s.query id = none) : ¬ s.Registered id p := by
  intro ⟨hp, hreg, hid⟩
  have hnot := List.find?_eq_none.1 h p (List.mem_range.2 hp)
  rw [hreg, hid] at hnot
  simp at hnot

inductive Takes (s : St) (id : UInt16) : Prop
  | none (htake : s.take id = (s, none)) (hid : ∀ p, ¬ s.Registered id p)
  | some (p : ℕ) (hp : s.Registered id p) (htake : s.take id =
      (s.setPending p { s.pendings.get p with registered := false }, some (p, (s.pendings.get p).query)))

theorem takes (s : St) (id : UInt16) : Takes s id := by
  cases h : s.query id with
  | none => exact .none (by rw [take, h]) fun _ => not_registered_of_query h
  | some p => exact .some p (registered_of_query h) (by rw [take, h])

theorem Inv.unregister (h : Inv s 0) (hp : s.Registered id p) :
    Inv (s.setPending p { s.pendings.get p with registered := false }) (s.pendings.get p).query.counts := by
  refine h.setPending hp.1 rfl rfl nofun nofun (h.context p hp.1) (h.connection p hp.1) fun c => ?_
  simp only [Pending.holds, hp.2.1, Pi.zero_apply, if_true, Bool.false_eq_true, if_false]
  omega

theorem taken_unregister (hp : s.Registered id p) :
    (s.setPending p { s.pendings.get p with registered := false }).Taken p := by
  refine ⟨hp.1, ?_⟩
  change ((s.pendings.set p _).get p).registered = false
  rw [get_set_self]

theorem waits_stop : (St.After.stop after).holds c = after.holds c := by
  cases after <;> rfl

theorem Inv.stop (h : Inv s hand) (hp : s.Taken p) : Inv (s.stop p) hand := by
  have hstop : ∀ {after : After}, AfterInv s after → AfterInv s (St.After.stop after) := by
    intro after ha
    cases after <;> exact ha
  refine h.setPending hp.1 rfl rfl (by exact id) (fun hreg => ?_) (hstop (h.context p hp.1))
    (hstop (h.connection p hp.1)) fun c => ?_
  · rw [hp.2] at hreg
    cases hreg
  · simp only [Pending.holds, waits_stop]

theorem Inv.poolStep (h : Inv s hand) (op : ConnPool.Op) : Inv (s.poolStep op) hand := h.of_eq rfl rfl rfl rfl rfl

theorem Inv.closeIdle (h : Inv s hand) : Inv s.closeIdle hand := by
  unfold St.closeIdle
  split
  · exact h
  · exact h.poolStep _

theorem Inv.behind_closeIdle {f : St → St} (h : Inv (f s) hand) (hpool : ∀ op, Inv (f (s.poolStep op)) hand) :
    Inv (f s.closeIdle) hand := by
  unfold St.closeIdle
  split
  · exact h
  · exact hpool _

@[simp] theorem runners_closeIdle : s.closeIdle.runners = s.runners := by
  unfold closeIdle
  split <;> rfl

/-! ## Runners -/

theorem Inv.setPhase (h : Inv s hand) (hr : r < s.runners.size) {phase : RunnerPhase}
    (hrunner : RunnerInv s { s.runners.get r with phase })
    (hsum : ∀ c, hand' c + phase.holds (s.runners.get r).call c = hand c + (s.runners.get r).holds c) :
    Inv (s.setPhase r phase) hand' := h.setRunner hr hrunner hsum

theorem acquire_inv (h : Inv s 0) (hr : r < s.runners.size)
    (hsum : ∀ c, (s.runners.get r).holds c = if (s.runners.get r).call = c then 1 else 0) : Inv (s.acquire r) 0 := by
  refine (h.poolStep .acquire).setPhase hr trivial fun c => ?_
  rw [Pi.zero_apply, Nat.zero_add, Nat.zero_add]
  exact (hsum c).symm

theorem Runner.holds_of_phase {phase : RunnerPhase} (h : runner.phase = phase) (c : ℕ) :
    runner.holds c = phase.holds runner.call c := by rw [Runner.holds, h]

theorem Inv.finish (h : Inv s 0) (hr : r < s.runners.size) {result : Except Err Msg}
    (hsum : ∀ c, (s.runners.get r).holds c = if (s.runners.get r).call = c then 1 else 0) :
    Inv ((s.callback (s.runners.get r).call result).setPhase r .returned) 0 := by
  have hreturned : Inv (s.setPhase r .returned) (fun c => if (s.runners.get r).call = c then 1 else 0) :=
    h.setPhase hr trivial fun c => by
      rw [hsum c, Pi.zero_apply, Nat.zero_add]
      rfl
  exact (hreturned.callback (c := (s.runners.get r).call) fun c' => by rw [Pi.zero_apply, Nat.zero_add]).of_eq
    rfl rfl rfl rfl rfl

theorem Inv.pushReader (h : Inv s hand) (conn : ℕ) : Inv { s with readers := s.readers.push { conn } } hand := by
  refine h.keep rfl (fun c => ?_) h.runner fun k hk => ?_
  · have htotal := total_push s.readers (Reader.holds c) { conn }
    have hzero : Reader.holds c { conn } = 0 := rfl
    have htokens := h.tokens c
    simp only [St.tokens, St.answers] at htokens ⊢
    omega
  · exact get_push_cases _ (P := ReaderInv s) hk (fun _ => trivial) (fun hlt => h.reader k hlt)

theorem acquired_inv {a : ℕ} (h : Inv s 0) (hr : r < s.runners.size) (hphase : (s.runners.get r).phase = .acquiring a) :
    Inv (s.acquired r a) 0 := by
  have hholds := holds_of_phase hphase
  unfold acquired
  split
  case h_1 conn created _ =>
    have hset : Inv (s.setPhase r (.registering a conn created)) 0 := h.setPhase hr trivial fun c => by rw [hholds]; rfl
    dsimp only
    split
    · exact hset.pushReader conn
    · exact hset
  case h_2 => exact h.finish hr hholds
  case h_3 => exact h

/-! ## Conditions -/

/-- the first ID after the counter that is free -/
def St.Next (s : St) (id : UInt16) : Prop :=
  ∃ d, id = (· + 1)^[d + 1] s.queryId ∧ (∀ p, ¬ s.Registered id p) ∧
    ∀ j < d, ∃ p, s.Registered ((· + 1)^[j + 1] s.queryId) p

/-- a step does not make IDs meet: the ID of a message that comes in is free, or that of a query on the same connection; the
ID that a query gets is not one under which a writer still writes, nor that of a message that was not looked at yet -/
def Apart (s : St) : Op → Prop
  | .runner r => (∃ a conn created, (s.runners.get r).phase = .registering a conn created) → ∀ id, s.Next id →
      (∀ r' < s.runners.size, ¬ (s.runners.get r').Writes id) ∧
      ∀ k < s.readers.size, ∀ message, (s.readers.get k).phase = .received message → message.id ≠ id
  | .read k (.ok (some message)) =>
      ∀ p, s.Registered message.id p → (s.pendings.get p).query.conn = (s.readers.get k).conn
  | _ => True

theorem next_of_probeId {start id₀ : UInt16} {rounds : ℕ} (h : s.probeId start rounds id₀ = some id) :
    ∃ d, id = (· + 1)^[d + 1] id₀ ∧ (∀ p, ¬ s.Registered id p) ∧
      ∀ j < d, ∃ p, s.Registered ((· + 1)^[j + 1] id₀) p := by
  -- an ID of the loop is free and the loop ends, or it is in the map and the loop goes on from it
  induction rounds generalizing id₀ with
  | zero => cases h
  | succ rounds ih =>
    rw [probeId] at h
    cases hquery : s.query (id₀ + 1) with
    | none =>
      rw [hquery, if_pos Option.isNone_none] at h
      cases h
      exact ⟨0, rfl, fun p => not_registered_of_query hquery, nofun⟩
    | some p =>
      rw [hquery, if_neg (by simp)] at h
      split at h
      · cases h
      obtain ⟨d, hid, hfree, hbefore⟩ := ih h
      refine ⟨d + 1, hid, hfree, fun j hj => ?_⟩
      cases j with
      | zero => exact ⟨p, registered_of_query hquery⟩
      | succ j => exact hbefore j (Nat.lt_of_succ_lt_succ hj)

theorem next_of_nextId (h : s.nextId = some id) : s.Next id := next_of_probeId h

/-! ## Registering -/

section Push

variable {pending : Pending}

def St.pushPending (s : St) (pending : Pending) : St :=
  { s with queryId := pending.queryId, pendings := s.pendings.push pending }

theorem get_pushPending (hp : p < s.pendings.size) : (s.pushPending pending).pendings.get p = s.pendings.get p :=
  get_push _ _ hp

theorem Registered.of_push (h : (s.pushPending pending).Registered id p) :
    p = s.pendings.size ∧ pending.queryId = id ∨ s.Registered id p := by
  obtain ⟨hp, hreg⟩ := h
  rcases Nat.lt_succ_iff_lt_or_eq.1 hp with hlt | heq
  · rw [get_pushPending hlt] at hreg
    exact .inr ⟨hlt, hreg⟩
  · subst heq
    change ((s.pendings.push pending).get _).registered ∧ ((s.pendings.push pending).get _).queryId = id at hreg
    rw [get_push_size] at hreg
    exact .inl ⟨rfl, hreg.2⟩

theorem Registered.of_push_of_ne (h : (s.pushPending pending).Registered id p) (hid : pending.queryId ≠ id) :
    s.Registered id p ∧ ((s.pushPending pending).pendings.get p).query = (s.pendings.get p).query := by
  rcases Registered.of_push h with ⟨-, heq⟩ | hold
  · exact absurd heq hid
  · exact ⟨hold, by rw [get_pushPending hold.1]⟩

theorem taken_push (h : s.Taken p) : (s.pushPending pending).Taken p := by
  refine ⟨Nat.lt_succ_of_lt h.1, ?_⟩
  rw [get_pushPending h.1]
  exact h.2

theorem RunnerInv.push (h : RunnerInv s runner) (hid : ¬ runner.Writes pending.queryId) :
    RunnerInv (s.pushPending pending) runner :=
  h.of_map (fun _ hw _ hp => Registered.of_push_of_ne hp fun heq => hid (heq ▸ hw)) fun _ => taken_push

theorem ReaderInv.push (h : ReaderInv s reader)
    (hid : ∀ message, reader.phase = .received message → message.id ≠ pending.queryId) :
    ReaderInv (s.pushPending pending) reader :=
  h.of_map (fun message hm _ hp => Registered.of_push_of_ne hp (hid message hm).symm) fun _ => taken_push

theorem AfterInv.push (h : AfterInv s after) : AfterInv (s.pushPending pending) after := by
  cases after with
  | took p query => exact taken_push h
  | _ => trivial

theorem Inv.pushPending {query : Query} (h : Inv s query.counts) (hfree : ∀ p, ¬ s.Registered id p)
    (hwrites : ∀ r < s.runners.size, ¬ (s.runners.get r).Writes id)
    (hreceived : ∀ k < s.readers.size, ∀ message, (s.readers.get k).phase = .received message → message.id ≠ id) :
    Inv (s.pushPending { query, queryId := id, registered := true }) 0 := by
  refine ⟨fun c => ?_, fun id' p p' hp hp' => ?_, fun id' p hp => ?_, fun r hr => (h.runner r hr).push (hwrites r hr),
    fun k hk => (h.reader k hk).push (hreceived k hk), fun p hp => ?_, fun p hp => ?_⟩
  · have htotal := total_push s.pendings (Pending.holds c) { query, queryId := id, registered := true }
    have hnew : Pending.holds c { query, queryId := id, registered := true } = query.counts c := rfl
    have htokens := h.tokens c
    rw [St.tokens] at htokens
    change s.runners.total (Runner.holds c) + (s.pendings.push _).total (Pending.holds c) +
      s.readers.total (Reader.holds c) + s.answers c + 0 = if c < s.calls.size then 1 else 0
    omega
  · rcases Registered.of_push hp with ⟨hnew, hid⟩ | hold <;> rcases Registered.of_push hp' with ⟨hnew', hid'⟩ | hold'
    · rw [hnew, hnew']
    · change id = id' at hid
      exact absurd (hid ▸ hold') (hfree p')
    · change id = id' at hid'
      exact absurd (hid' ▸ hold) (hfree p)
    · exact h.unique id' p p' hold hold'
  · rcases Registered.of_push hp with ⟨hnew, -⟩ | hold
    · subst hnew
      change ((s.pendings.push _).get _).context.waits ∧ ((s.pendings.push _).get _).connection.waits
      rw [get_push_size]
      exact ⟨rfl, rfl⟩
    · rw [get_pushPending hold.1]
      exact h.waits id' p hold
  · exact get_push_cases _ (P := fun (k : Pending) => AfterInv _ k.context) hp (fun _ => trivial)
      (fun hlt => (h.context p hlt).push)
  · exact get_push_cases _ (P := fun (k : Pending) => AfterInv _ k.connection) hp (fun _ => trivial)
      (fun hlt => (h.connection p hlt).push)

end Push

variable {opts : Options}

variable {created : Bool}

theorem register_inv {a conn : ℕ} (h : Inv s 0) (hr : r < s.runners.size)
    (hphase : (s.runners.get r).phase = .registering a conn created)
    (hapart : ∀ id, s.Next id → (∀ r' < s.runners.size, ¬ (s.runners.get r').Writes id) ∧
      ∀ k < s.readers.size, ∀ message, (s.readers.get k).phase = .received message → message.id ≠ id) :
    Inv (s.register opts r a conn created) 0 := by
  have hholds := holds_of_phase hphase
  unfold register
  split
  case h_1 => exact h.setPhase hr trivial fun c => by rw [hholds]; rfl
  case h_2 id hnext =>
    obtain ⟨d, -, hfree, -⟩ := next_of_nextId hnext
    obtain ⟨hwrites, hreceived⟩ := hapart id (next_of_nextId hnext)
    dsimp only
    have hcall : (s.pendingQuery opts r a conn created).call = (s.runners.get r).call := rfl
    generalize s.pendingQuery opts r a conn created = query at hcall ⊢
    -- the runner gives its token to the query, which comes into the map; then the runner writes
    have hgiven : Inv (s.setPhase r .returned) query.counts := h.setPhase hr trivial fun c => by
      rw [hholds, Query.counts, hcall]
      exact Nat.add_comm _ _
    have hpushed : Inv ((s.setPhase r .returned).pushPending { query, queryId := id, registered := true }) 0 := by
      refine hgiven.pushPending hfree (fun r' hr' => ?_) hreceived
      refine get_set_cases _ (P := fun (k : Runner) => ¬ k.Writes id) (fun _ => ?_) (fun _ => hwrites r' hr')
      rintro (⟨_, _, heq⟩ | ⟨_, _, _, heq⟩) <;> cases heq
    have hget : ((s.setPhase r .returned).pushPending { query, queryId := id, registered := true }).runners.get r =
        { s.runners.get r with phase := .returned } := get_set_self _ _ _
    have hwriting : Inv (((s.setPhase r .returned).pushPending { query, queryId := id, registered := true }).setPhase r
        (.writing conn created id)) 0 := by
      refine hpushed.setPhase hr (fun p hp => ?_) (fun c => by rw [hget]; rfl)
      rcases Registered.of_push hp with ⟨hnew, -⟩ | hold
      · subst hnew
        rw [hget]
        change ((s.pendings.push _).get s.pendings.size).query.call = (s.runners.get r).call
        rw [get_push_size]
        exact hcall
      · exact absurd hold (hfree p)
    simpa only [setPhase, setRunner, pushPending, get_set_self, set_set] using hwriting

/-! ## Steps of a runner -/

theorem dispatch_inv (h : Inv s 0) (hr : r < s.runners.size)
    (hphase : (s.runners.get r).phase = .dispatching) : Inv (s.dispatch opts r) 0 := by
  have hholds := holds_of_phase hphase
  unfold dispatch
  split
  · exact h.setPhase hr trivial fun c => by rw [hholds]; rfl
  · exact acquire_inv h hr hholds

theorem writeFailed_inv {conn err : ℕ} (h : Inv s 0) (hr : r < s.runners.size)
    (hphase : (s.runners.get r).phase = .writeFailed conn created id err) :
    Inv ((s.take id).1.setPhase r (.taken conn created (s.take id).2 err)) 0 := by
  have hholds := holds_of_phase hphase
  have hown := h.runner r hr
  rw [RunnerInv, hphase] at hown
  cases takes s id with
  | none htake _ =>
    rw [htake]
    exact h.setPhase hr trivial fun c => by rw [hholds]; rfl
  | some p hp htake =>
    rw [htake]
    refine (h.unregister hp).setPhase hr ⟨taken_unregister hp, hown p hp⟩ fun c => ?_
    change 0 + (s.pendings.get p).query.counts c = (s.pendings.get p).query.counts c + (s.runners.get r).holds c
    rw [hholds]
    exact Nat.add_comm _ _

theorem Query.counts_of_call {query : Query} (h : query.call = c) (c' : ℕ) : query.counts c' = if c = c' then 1 else 0 := by
  rw [Query.counts, h]

theorem retry_inv {err : ℕ} {query : Query} (h : Inv s 0) (hr : r < s.runners.size)
    (hphase : (s.runners.get r).phase = .retrying created query err) : Inv (s.retry r created err) 0 := by
  have hown := h.runner r hr
  rw [RunnerInv, hphase] at hown
  have hholds : ∀ c, (s.runners.get r).holds c = if (s.runners.get r).call = c then 1 else 0 := fun c => by
    rw [holds_of_phase hphase]
    exact Query.counts_of_call hown c
  unfold retry
  dsimp only
  split
  · have hset : Inv (s.setRunner r { s.runners.get r with firstAttempt := false }) 0 := by
      refine h.setRunner hr ?_ fun c => rfl
      rw [RunnerInv]
      dsimp only
      rw [hphase]
      exact hown
    have hget : (s.setRunner r { s.runners.get r with firstAttempt := false }).runners.get r =
        { s.runners.get r with firstAttempt := false } := get_set_self _ _ _
    refine acquire_inv hset hr fun c => ?_
    rw [hget]
    exact hholds c
  · exact h.finish hr hholds

theorem runnerStep_inv (h : Inv s 0) (hr : r < s.runners.size) (hapart : Apart s (.runner r)) :
    Inv (s.runnerStep opts r) 0 := by
  unfold runnerStep
  split
  case h_1 hphase => exact dispatch_inv h hr hphase
  case h_2 a hphase => exact acquired_inv h hr hphase
  case h_3 a conn created hphase => exact register_inv h hr hphase (hapart ⟨a, conn, created, hphase⟩)
  case h_4 a hphase =>
    exact (h.poolStep _).setPhase hr trivial fun c => by
      change 0 + _ = 0 + (s.runners.get r).holds c
      rw [holds_of_phase hphase]
      rfl
  case h_5 hphase =>
    have hholds := holds_of_phase hphase
    have hfinish : Inv ((s.closeIdle.callback (s.closeIdle.runners.get r).call (.error .noQueryId)).setPhase r
        .returned) 0 := h.closeIdle.finish (by rwa [runners_closeIdle]) (by rw [runners_closeIdle]; exact hholds)
    rwa [runners_closeIdle] at hfinish
  case h_6 conn created queryId err hphase => exact writeFailed_inv h hr hphase
  case h_7 conn created err hphase =>
    exact (h.poolStep _).setPhase hr trivial fun c => by
      change 0 + _ = 0 + (s.runners.get r).holds c
      rw [holds_of_phase hphase]
      rfl
  case h_8 conn created p query err hphase =>
    have hown := h.runner r hr
    rw [RunnerInv, hphase] at hown
    exact ((h.stop hown.1).poolStep _).setPhase hr hown.2 fun c => by
      change 0 + _ = 0 + (s.runners.get r).holds c
      rw [holds_of_phase hphase]
      rfl
  case h_9 created query err hphase => exact retry_inv h hr hphase
  all_goals exact h

theorem failSingle_inv {err : Err} (h : Inv s 0) (hr : r < s.runners.size)
    (hholds : ∀ c, (s.runners.get r).holds c = if (s.runners.get r).call = c then 1 else 0) : Inv (s.failSingle r err) 0 :=
  h.finish hr hholds

theorem returnedStep_inv {event : Event} (h : Inv s 0) (hr : r < s.runners.size) : Inv (s.returnedStep r event) 0 := by
  unfold returnedStep
  dsimp only
  split
  case h_1 hphase => exact h.setPhase hr trivial fun c => by rw [holds_of_phase hphase]; rfl
  case h_2 hphase => exact h.finish hr (holds_of_phase hphase)
  case h_3 hphase => exact h.setPhase hr trivial fun c => by rw [holds_of_phase hphase]; rfl
  case h_4 hphase => exact failSingle_inv h hr (holds_of_phase hphase)
  case h_5 hphase => exact failSingle_inv h hr (holds_of_phase hphase)
  case h_6 hphase => exact h.finish hr (holds_of_phase hphase)
  case h_7 hphase => exact h.setPhase hr trivial fun c => by rw [holds_of_phase hphase]; rfl
  case h_8 conn created queryId err hphase =>
    have hown := h.runner r hr
    rw [RunnerInv, hphase] at hown
    exact h.setPhase hr hown fun c => by rw [holds_of_phase hphase]; rfl
  case h_9 => exact h

/-! ## Steps of the functions -/

section

variable (h : Inv s hand) (hp : p < s.pendings.size)
include h hp

section

variable (hafter : AfterInv s after) (hwaits : (s.pendings.get p).registered = true → after.waits = true)
include hafter hwaits

theorem Inv.setContext
    (hsum : ∀ c, hand' c + after.holds c = hand c + (s.pendings.get p).context.holds c) : Inv (s.setContext p after) hand' := by
  refine h.setPending hp rfl rfl (by exact id) (fun hreg => ⟨hwaits hreg, ?_⟩) hafter (h.connection p hp) fun c => ?_
  · exact (h.waits _ p ⟨hp, hreg, rfl⟩).2
  · have hc := hsum c
    simp only [Pending.holds]
    omega

theorem Inv.setConnection (hsum : ∀ c, hand' c + after.holds c = hand c + (s.pendings.get p).connection.holds c) :
    Inv (s.setConnection p after) hand' := by
  refine h.setPending hp rfl rfl (by exact id) (fun hreg => ⟨?_, hwaits hreg⟩) (h.context p hp) hafter fun c => ?_
  · exact (h.waits _ p ⟨hp, hreg, rfl⟩).1
  · have hc := hsum c
    simp only [Pending.holds]
    omega

end

theorem Inv.taken_of_context
    (hwaits : (s.pendings.get p).context.waits = false) : (s.pendings.get p).registered = false := by
  cases hreg : (s.pendings.get p).registered with
  | false => rfl
  | true => rw [(h.waits _ p ⟨hp, hreg, rfl⟩).1] at hwaits; cases hwaits

theorem Inv.taken_of_connection
    (hwaits : (s.pendings.get p).connection.waits = false) : (s.pendings.get p).registered = false := by
  cases hreg : (s.pendings.get p).registered with
  | false => rfl
  | true => rw [(h.waits _ p ⟨hp, hreg, rfl⟩).2] at hwaits; cases hwaits

end

theorem registered_unregister {p' : ℕ} (h : Inv s hand) (hp : p < s.pendings.size)
    (hp' : s.Registered (s.pendings.get p).queryId p') :
    ((s.setPending p' { s.pendings.get p' with registered := false }).pendings.get p).registered = false := by
  refine get_set_cases _ (P := fun (k : Pending) => k.registered = false) (fun _ => rfl) (fun hne => ?_)
  cases hreg : (s.pendings.get p).registered with
  | false => rfl
  | true => exact absurd (h.unique _ p p' ⟨hp, hreg, rfl⟩ hp') hne

theorem apply_setPending {β : Type} (f : Pending → β) {p' : ℕ} (h : p' = p → f pending = f (s.pendings.get p)) :
    f ((s.setPending p' pending).pendings.get p) = f (s.pendings.get p) :=
  get_set_cases _ (P := fun k => f k = f (s.pendings.get p)) (fun heq => h heq.symm) (fun _ => rfl)

section

variable (h : Inv s 0) (hp : p < s.pendings.size)
include h hp

theorem startContextStep_inv : Inv (s.startContextStep p) 0 := by
  unfold startContextStep
  split
  case isTrue hdue => exact h.setContext hp trivial (fun _ => rfl) fun c => by rw [hdue.1]; rfl
  case isFalse => exact h

theorem startConnectionStep_inv : Inv (s.startConnectionStep p) 0 := by
  unfold startConnectionStep
  split
  case isTrue hdue => exact h.setConnection hp trivial (fun _ => rfl) fun c => by rw [hdue.1]; rfl
  case isFalse => exact h

theorem contextTake_inv (hstarted : (s.pendings.get p).context = .started) :
    Inv ((s.take (s.pendings.get p).queryId).1.setContext p (tookOr (s.take (s.pendings.get p).queryId).2)) 0 := by
  cases takes s (s.pendings.get p).queryId with
  | none htake hid =>
    rw [htake]
    exact h.setContext hp trivial (fun hreg => absurd ⟨hp, hreg, rfl⟩ (hid p)) fun c => by rw [hstarted]; rfl
  | some p' hp' htake =>
    rw [htake]
    refine (h.unregister hp').setContext hp (taken_unregister hp') (fun hreg => ?_) fun c => ?_
    · rw [registered_unregister h hp hp'] at hreg
      cases hreg
    · rw [apply_setPending Pending.context (by intro heq; rw [heq]), hstarted]
      exact Nat.add_comm _ _

theorem connectionTake_inv (hstarted : (s.pendings.get p).connection = .started) :
    Inv ((s.take (s.pendings.get p).queryId).1.setConnection p (tookOr (s.take (s.pendings.get p).queryId).2)) 0 := by
  cases takes s (s.pendings.get p).queryId with
  | none htake hid =>
    rw [htake]
    exact h.setConnection hp trivial (fun hreg => absurd ⟨hp, hreg, rfl⟩ (hid p)) fun c => by rw [hstarted]; rfl
  | some p' hp' htake =>
    rw [htake]
    refine (h.unregister hp').setConnection hp (taken_unregister hp') (fun hreg => ?_) fun c => ?_
    · rw [registered_unregister h hp hp'] at hreg
      cases hreg
    · rw [apply_setPending Pending.connection (by intro heq; rw [heq]), hstarted]
      exact Nat.add_comm _ _

end

theorem registered_stop {p' : ℕ} : ((s.stop p').pendings.get p).registered = (s.pendings.get p).registered :=
  apply_setPending Pending.registered fun heq => by rw [heq]

theorem contextStep_inv (h : Inv s 0) (hp : p < s.pendings.size) : Inv (s.contextStep p) 0 := by
  unfold contextStep
  split
  case h_1 hstarted => exact contextTake_inv h hp hstarted
  case h_2 p' query htook =>
    have htaken := h.context p hp
    rw [htook] at htaken
    have hcontext : ((s.stop p').pendings.get p).context = .took p' query :=
      (apply_setPending Pending.context fun heq => by subst heq; dsimp only; rw [htook]; rfl).trans htook
    refine ((h.stop htaken).poolStep _).setContext hp trivial (fun hreg => ?_) fun c => ?_
    · have hreg' : ((s.stop p').pendings.get p).registered := hreg
      rw [registered_stop, h.taken_of_context hp (by rw [htook]; rfl)] at hreg'
      cases hreg'
    · change 0 + query.counts c = 0 + ((s.stop p').pendings.get p).context.holds c
      rw [hcontext]
      rfl
  case h_3 query hsettled =>
    have hended : Inv (s.setContext p .ended) query.counts := by
      refine h.setContext hp trivial (fun hreg => ?_) fun c => ?_
      · rw [h.taken_of_context hp (by rw [hsettled]; rfl)] at hreg
        cases hreg
      · rw [hsettled]
        exact Nat.add_comm _ _
    have hcalled : Inv ((s.setContext p .ended).callback query.call
        (.error (.context ((s.contextErr p).getD .canceled)))) 0 :=
      hended.callback fun c => Nat.zero_add _
    exact Inv.behind_closeIdle (f := fun s => s.setContext p .ended) hcalled fun _ => hcalled.poolStep _
  all_goals exact h

theorem Inv.pushRunner (h : Inv s hand) (hrunner : ∀ s, RunnerInv s runner)
    (hsum : ∀ c, hand' c + runner.holds c = hand c) : Inv { s with runners := s.runners.push runner } hand' := by
  refine h.keep rfl (fun c => ?_) (fun r hr => ?_) h.reader
  · have htotal := total_push s.runners (Runner.holds c) runner
    have htokens := h.tokens c
    have hc := hsum c
    simp only [St.tokens, St.answers] at htokens ⊢
    omega
  · exact get_push_cases _ (P := RunnerInv s) hr (fun _ => hrunner s) (fun hlt => h.runner r hlt)

theorem connectionStep_inv (h : Inv s 0) (hp : p < s.pendings.size) : Inv (s.connectionStep p) 0 := by
  unfold connectionStep
  split
  case h_1 hstarted => exact connectionTake_inv h hp hstarted
  case h_2 p' query htook =>
    have htaken := h.connection p hp
    rw [htook] at htaken
    have hconnection : ((s.stop p').pendings.get p).connection = .took p' query :=
      (apply_setPending Pending.connection fun heq => by subst heq; dsimp only; rw [htook]; rfl).trans htook
    refine (h.stop htaken).setConnection hp trivial (fun hreg => ?_) fun c => ?_
    · rw [registered_stop, h.taken_of_connection hp (by rw [htook]; rfl)] at hreg
      cases hreg
    · rw [hconnection]
      rfl
  case h_3 query hsettled =>
    have hended : Inv (s.setConnection p .ended) query.counts := by
      refine h.setConnection hp trivial (fun hreg => ?_) fun c => ?_
      · rw [h.taken_of_connection hp (by rw [hsettled]; rfl)] at hreg
        cases hreg
      · rw [hsettled]
        exact Nat.add_comm _ _
    dsimp only
    split
    · exact hended.pushRunner (fun _ => trivial) fun c => Nat.zero_add _
    · exact hended.callback fun c => Nat.zero_add _
  all_goals exact h

/-! ## Steps of a reader -/

theorem readStep_inv {result : Except ℕ (Option Msg)} (h : Inv s 0) (hk : k < s.readers.size)
    (hapart : Apart s (.read k result)) : Inv (s.readStep k result) 0 := by
  unfold readStep
  dsimp only
  split
  case h_1 hphase =>
    have hholds : ∀ c, (s.readers.get k).holds c = 0 := fun c => by rw [Reader.holds, hphase]; rfl
    cases result with
    | error err => exact h.setReader hk trivial fun c => by rw [hholds]; rfl
    | ok message =>
      have hepoch : ∀ readEpoch, Inv { s with readEpoch } 0 := fun readEpoch => h.of_eq rfl rfl rfl rfl rfl
      cases message with
      | none => exact hepoch _
      | some message =>
        have hset : ∀ readEpoch, Inv ({ s with readEpoch }.setReader k (.received message)) 0 := fun readEpoch =>
          (hepoch readEpoch).setReader hk hapart fun c => by
            change 0 + 0 = 0 + (s.readers.get k).holds c
            rw [hholds]
        exact hset _
  case h_2 => exact h

theorem readerStep_inv (h : Inv s 0) (hk : k < s.readers.size) : Inv (s.readerStep k) 0 := by
  have hown := h.reader k hk
  unfold readerStep
  dsimp only
  split
  case h_1 message hphase =>
    have hholds : ∀ c, (s.readers.get k).holds c = 0 := fun c => by rw [Reader.holds, hphase]; rfl
    rw [ReaderInv, hphase] at hown
    cases takes s message.id with
    | none htake _ =>
      rw [htake]
      exact h.setReader hk trivial fun c => by rw [hholds]; rfl
    | some p hp htake =>
      rw [htake]
      refine (h.unregister hp).setReader hk ⟨taken_unregister hp, hown p hp⟩ fun c => ?_
      change 0 + (s.pendings.get p).query.counts c = (s.pendings.get p).query.counts c + (s.readers.get k).holds c
      rw [hholds]
      exact Nat.add_comm _ _
  case h_2 p query message hphase =>
    rw [ReaderInv, hphase] at hown
    refine ((h.stop hown.1).poolStep _).setReader hk hown.2 fun c => ?_
    change 0 + query.counts c = 0 + (s.readers.get k).holds c
    rw [Reader.holds, hphase]
    rfl
  case h_3 query message hphase =>
    have hdone : Inv (s.setReader k .reading) query.counts := h.setReader hk trivial fun c => by
      rw [Reader.holds, hphase]
      exact Nat.add_comm _ _
    have hcalled : ∀ result, Inv ((s.setReader k .reading).callback query.call result) 0 := fun result =>
      hdone.callback fun c => Nat.zero_add _
    exact Inv.behind_closeIdle (f := fun s => s.setReader k .reading) (hcalled _) fun _ => (hcalled _).poolStep _
  case h_4 err hphase =>
    exact (h.poolStep _).setReader hk trivial fun c => by
      change 0 + 0 = 0 + (s.readers.get k).holds c
      rw [Reader.holds, hphase]
      rfl
  case h_5 => exact h
  case h_6 => exact h

/-! ## Runs -/

theorem exchangeAsync_inv (h : Inv s 0) (messageId : UInt16) : Inv (step opts s (.exchangeAsync messageId)) 0 := by
  refine h.keep rfl (fun c => ?_) (fun r hr => ?_) h.reader
  · have htotal := total_push s.runners (Runner.holds c) { call := s.calls.size, retryReadError := true }
    have hnew : Runner.holds c { call := s.calls.size, retryReadError := true } = if s.calls.size = c then 1 else 0 := rfl
    have htokens := h.tokens c
    rw [tokens, Pi.zero_apply] at htokens
    change (s.runners.push _).total (Runner.holds c) + s.pendings.total (Pending.holds c) +
      s.readers.total (Reader.holds c) + s.answers c + 0 = if c < s.calls.size + 1 then 1 else 0
    rw [htotal, hnew]
    split_ifs at htokens ⊢ <;> omega
  · exact get_push_cases _ (P := RunnerInv s) hr (fun _ => trivial) (fun hlt => h.runner r hlt)

theorem guarded_inv {b : Prop} [Decidable b] (h : Inv s 0) (hs' : b → Inv s' 0) : Inv (if b then s' else s) 0 := by
  split
  case isTrue hb => exact hs' hb
  case isFalse => exact h

theorem step_inv (h : Inv s 0) (op : Op) (hapart : Apart s op) : Inv (step opts s op) 0 := by
  cases op with
  | exchangeAsync messageId => exact exchangeAsync_inv h messageId
  | runner r => exact guarded_inv h fun hr => runnerStep_inv h hr hapart
  | returned r event => exact guarded_inv h fun hr => returnedStep_inv h hr
  | startContext p => exact guarded_inv h fun hp => startContextStep_inv h hp
  | context p => exact guarded_inv h fun hp => contextStep_inv h hp
  | startConnection p => exact guarded_inv h fun hp => startConnectionStep_inv h hp
  | connection p => exact guarded_inv h fun hp => connectionStep_inv h hp
  | read k result => exact guarded_inv h fun hk => readStep_inv h hk hapart
  | reader k => exact guarded_inv h fun hk => readerStep_inv h hk
  | expire c err => exact guarded_inv h fun _ => h.of_eq rfl rfl rfl rfl rfl
  | pool op => exact h.poolStep op
  | reuse supported | setKeepIdle keep => exact h.of_eq rfl rfl rfl rfl rfl

theorem inv_init : Inv {} 0 := by
  refine ⟨fun c => rfl, ?_, ?_, nofun, nofun, nofun, nofun⟩
  · intro id p p' hp
    exact absurd hp.1 (Nat.not_lt_zero p)
  · intro id p hp
    exact absurd hp.1 (Nat.not_lt_zero p)

def RunApart (opts : Options) : St → List Op → Prop
  | _, [] => True
  | s, op :: ops => Apart s op ∧ RunApart opts (step opts s op) ops

theorem foldl_inv {ops : List Op} (h : Inv s 0) (hapart : RunApart opts s ops) : Inv (ops.foldl (step opts) s) 0 := by
  induction ops generalizing s with
  | nil => exact h
  | cons op ops ih => exact ih (step_inv h op hapart.1) hapart.2

theorem run_inv {ops : List Op} (hapart : RunApart opts {} ops) : Inv (run opts ops) 0 := foldl_inv inv_init hapart

/-! ## Answers -/

def St.Working (s : St) (c : ℕ) : Prop :=
  (∃ r < s.runners.size, 0 < (s.runners.get r).holds c) ∨ (∃ k < s.readers.size, 0 < (s.readers.get k).holds c) ∨
    ∃ p < s.pendings.size, 0 < (s.pendings.get p).context.holds c + (s.pendings.get p).connection.holds c

def St.Waiting (s : St) (c p : ℕ) : Prop :=
  p < s.pendings.size ∧ (s.pendings.get p).registered = true ∧ (s.pendings.get p).query.call = c

/-- no function of a query is about to run, or running -/
def St.Quiet (s : St) (p : ℕ) : Prop :=
  ((s.pendings.get p).context = .armed → s.contextErr p = none) ∧ (s.pendings.get p).context ≠ .started ∧
    ((s.pendings.get p).connection = .armed → s.connErr p = none) ∧ (s.pendings.get p).connection ≠ .started

def St.Over (s : St) (c : ℕ) : Prop :=
  (s.calls.get c).context.isSome = true ∨ ∀ p, s.Waiting c p → (s.connErr p).isSome = true

structure Answers (s : St) : Prop where
  atMostOnce : ∀ c, s.answers c ≤ 1
  exactlyOnce : ∀ c < s.calls.size, s.Over c → ¬ s.Working c → (∀ p, s.Waiting c p → s.Quiet p) → s.answers c = 1
  /-- the query that a reader has taken for its message is on the reader's connection -/
  sameConn : ∀ k < s.readers.size, ∀ query message, (∃ p, (s.readers.get k).phase = .took p query message) ∨
    (s.readers.get k).phase = .settled query message → query.conn = (s.readers.get k).conn

theorem Inv.not_over (h : Inv s hand) (hwaiting : s.Waiting c p) (hquiet : s.Quiet p) :
    (s.calls.get c).context = none ∧ s.connErr p = none := by
  obtain ⟨hp, hreg, hcall⟩ := hwaiting
  obtain ⟨harmed, hstarted, harmed', hstarted'⟩ := hquiet
  obtain ⟨hcontext, hconnection⟩ := h.waits _ p ⟨hp, hreg, rfl⟩
  constructor
  · have hnone : s.contextErr p = none := by
      cases hafter : (s.pendings.get p).context with
      | armed => exact harmed hafter
      | started => exact absurd hafter hstarted
      | _ => rw [hafter] at hcontext; cases hcontext
    rw [contextErr, hcall] at hnone
    exact hnone
  · cases hafter : (s.pendings.get p).connection with
    | armed => exact harmed' hafter
    | started => exact absurd hafter hstarted'
    | _ => rw [hafter] at hconnection; cases hconnection

theorem Inv.answers_le (h : Inv s hand) (c : ℕ) : s.answers c ≤ 1 := by
  have htokens := h.tokens c
  rw [St.tokens] at htokens
  split_ifs at htokens <;> omega

theorem ReaderInv.sameConn (h : ReaderInv s reader) {query : Query} {message : Msg}
    (hphase : (∃ p, reader.phase = .took p query message) ∨ reader.phase = .settled query message) :
    query.conn = reader.conn := by
  rw [ReaderInv] at h
  rcases hphase with ⟨p, htook⟩ | hsettled
  · rw [htook] at h
    exact h.2
  · rw [hsettled] at h
    exact h

end EtonifyCore.Multiplexer
