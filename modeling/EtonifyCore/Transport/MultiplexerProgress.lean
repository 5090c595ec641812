/-
The multiplexer answers: whoever has a call in its hand, and every function that is due, needs a few turns to call back.

A call is on its way (`Way`) if somebody has taken its query, or if the query is in the map and what one of its two functions
waits for has happened. In every run in which no step makes IDs meet, a call whose context is done or whose connection is gone
is answered, on its way, or being sent (`Inv.on_way`); the turns of the one who has it, at most four, then lead to the answer
or to a runner that sends the query again (`Way.serves`).
-/
import EtonifyCore.Transport.MultiplexerSafety

namespace EtonifyCore.Multiplexer

open Core (Table)
open Core.Table St

variable {opts : Options} {s : St} {c k p r : ℕ}

/-- the two functions that are registered for a query -/
inductive Side
  | context
  | connection
deriving DecidableEq

namespace Side

def after : Side → Pending → After
  | .context => Pending.context
  | .connection => Pending.connection

def start : Side → ℕ → Op
  | .context => .startContext
  | .connection => .startConnection

def go : Side → ℕ → Op
  | .context => .context
  | .connection => .connection

/-- what the function waits for has happened -/
def done (side : Side) (s : St) (p : ℕ) : Bool :=
  match side with
  | .context => (s.contextErr p).isSome
  | .connection => (s.connErr p).isSome

end Side

variable {side : Side}

/-- the goroutine of a runner that has the call in its hand, to send its query (again) -/
def RunnerPhase.runs : RunnerPhase → Bool
  | .dispatching | .singleDialing | .singleWriting | .singleReading | .acquiring _ | .registering .. | .refused _
  | .released => true
  | .writing .. | .writeFailed .. | .taken .. | .retrying .. | .returned => false

def St.Running (s : St) (c : ℕ) : Prop :=
  ∃ r < s.runners.size, (s.runners.get r).call = c ∧ (s.runners.get r).phase.runs = true

/-- the call is answered, or its query is being sent again -/
def St.Served (s : St) (c : ℕ) : Prop := s.answers c = 1 ∨ s.Running c

/-- a goroutine takes its next step, or a function is started -/
inductive Turn
  | runner (r : ℕ)
  | reader (k : ℕ)
  | start (side : Side) (p : ℕ)
  | go (side : Side) (p : ℕ)

def Turn.toOp : Turn → Op
  | .runner r => .runner r
  | .reader k => .reader k
  | .start side p => side.start p
  | .go side p => side.go p

/-- a function that was started goes on -/
def Turn.next : Turn → Turn
  | .start side p => .go side p
  | turn => turn

/-- whose turns bring the answer of a call, and how many it takes -/
inductive Way (c : ℕ) (s : St) : Turn → ℕ → Prop
  | due {side : Side} {p : ℕ} : s.Waiting c p → side.done s p = true → side.after (s.pendings.get p) = .armed →
      Way c s (.start side p) 4
  | started {side : Side} {p : ℕ} : s.Waiting c p → side.after (s.pendings.get p) = .started → Way c s (.go side p) 3
  | took {side : Side} {p p' : ℕ} {query : Query} : p < s.pendings.size →
      side.after (s.pendings.get p) = .took p' query → query.call = c → Way c s (.go side p) 2
  | settled {side : Side} {p : ℕ} {query : Query} : p < s.pendings.size →
      side.after (s.pendings.get p) = .settled query → query.call = c → Way c s (.go side p) 1
  | readerTook {k p : ℕ} {query : Query} {message : Msg} : k < s.readers.size →
      (s.readers.get k).phase = .took p query message → query.call = c → Way c s (.reader k) 2
  | readerSettled {k : ℕ} {query : Query} {message : Msg} : k < s.readers.size →
      (s.readers.get k).phase = .settled query message → query.call = c → Way c s (.reader k) 1
  | taken {r conn p err : ℕ} {created : Bool} {query : Query} : r < s.runners.size →
      (s.runners.get r).phase = .taken conn created (some (p, query)) err → query.call = c → Way c s (.runner r) 2
  | retrying {r err : ℕ} {created : Bool} {query : Query} : r < s.runners.size →
      (s.runners.get r).phase = .retrying created query err → query.call = c → Way c s (.runner r) 1

theorem call_of_counts {query : Query} (h : 0 < query.counts c) : query.call = c := by
  by_contra hne
  rw [Query.counts, if_neg hne] at h
  exact absurd h (Nat.lt_irrefl 0)

def St.OnWay (s : St) (c : ℕ) : Prop := ∃ turn n, Way c s turn n

theorem onWay_of_runner (hr : r < s.runners.size) (hholds : 0 < (s.runners.get r).holds c) : s.Running c ∨ s.OnWay c := by
  rw [Runner.holds] at hholds
  have hruns : (s.runners.get r).phase.runs = true → (s.runners.get r).call = c → s.Running c ∨ s.OnWay c :=
    fun hruns hcall => .inl ⟨r, hr, hcall, hruns⟩
  have hcall : 0 < (if (s.runners.get r).call = c then 1 else 0) → (s.runners.get r).call = c := by
    intro hpos
    by_contra hne
    rw [if_neg hne] at hpos
    exact absurd hpos (Nat.lt_irrefl 0)
  cases hphase : (s.runners.get r).phase with
  | taken conn created pending err =>
    rw [hphase] at hholds
    cases pending with
    | none => exact absurd hholds (Nat.lt_irrefl 0)
    | some pending => exact .inr ⟨_, _, .taken hr hphase (call_of_counts hholds)⟩
  | retrying created query err =>
    rw [hphase] at hholds
    exact .inr ⟨_, _, .retrying hr hphase (call_of_counts hholds)⟩
  | writing | writeFailed | returned =>
    rw [hphase] at hholds
    exact absurd hholds (Nat.lt_irrefl 0)
  | _ =>
    rw [hphase] at hholds hruns
    exact hruns rfl (hcall hholds)

theorem onWay_of_reader (hk : k < s.readers.size) (hholds : 0 < (s.readers.get k).holds c) : s.OnWay c := by
  rw [Reader.holds] at hholds
  cases hphase : (s.readers.get k).phase with
  | took p query message =>
    rw [hphase] at hholds
    exact ⟨_, _, .readerTook hk hphase (call_of_counts hholds)⟩
  | settled query message =>
    rw [hphase] at hholds
    exact ⟨_, _, .readerSettled hk hphase (call_of_counts hholds)⟩
  | _ =>
    rw [hphase] at hholds
    exact absurd hholds (Nat.lt_irrefl 0)

theorem onWay_of_after (side : Side) (hp : p < s.pendings.size) (hholds : 0 < (side.after (s.pendings.get p)).holds c) : s.OnWay c := by
  cases hafter : side.after (s.pendings.get p) with
  | took p' query =>
    rw [hafter] at hholds
    exact ⟨_, _, .took hp hafter (call_of_counts hholds)⟩
  | settled query =>
    rw [hafter] at hholds
    exact ⟨_, _, .settled hp hafter (call_of_counts hholds)⟩
  | _ =>
    rw [hafter] at hholds
    exact absurd hholds (Nat.lt_irrefl 0)

/-- where the token of a call is -/
theorem Inv.place (h : Inv s 0) (hc : c < s.calls.size) : s.Served c ∨ s.OnWay c ∨ ∃ p, s.Waiting c p := by
  have htokens := h.tokens c
  rw [if_pos hc, Pi.zero_apply, St.tokens] at htokens
  rcases Nat.eq_zero_or_pos (s.runners.total (Runner.holds c)) with hrunners | hrunners
  · rcases Nat.eq_zero_or_pos (s.readers.total (Reader.holds c)) with hreaders | hreaders
    · rcases Nat.eq_zero_or_pos (s.pendings.total (Pending.holds c)) with hpendings | hpendings
      · exact .inl (.inl (by omega))
      · obtain ⟨p, hp, hholds⟩ := exists_of_total_pos _ _ hpendings
        rw [Pending.holds] at hholds
        rcases Nat.eq_zero_or_pos ((s.pendings.get p).context.holds c) with hcontext | hcontext
        · rcases Nat.eq_zero_or_pos ((s.pendings.get p).connection.holds c) with hconnection | hconnection
          · rw [hcontext, hconnection] at hholds
            split at hholds
            case isTrue hreg => exact .inr (.inr ⟨p, hp, hreg, call_of_counts hholds⟩)
            case isFalse => exact absurd hholds (Nat.lt_irrefl 0)
          · exact .inr (.inl (onWay_of_after .connection hp hconnection))
        · exact .inr (.inl (onWay_of_after .context hp hcontext))
    · obtain ⟨k, hk, hholds⟩ := exists_of_total_pos _ _ hreaders
      exact .inr (.inl (onWay_of_reader hk hholds))
  · obtain ⟨r, hr, hholds⟩ := exists_of_total_pos _ _ hrunners
    rcases onWay_of_runner hr hholds with hruns | hway
    · exact .inl (.inr hruns)
    · exact .inr (.inl hway)

theorem Inv.answered (h : Inv s 0) {callbacks : List (ℕ × Except Err Msg)} {result : Except Err Msg}
    (heq : s.callbacks = callbacks ++ [(c, result)]) : s.Served c := by
  have hle := h.answers_le c
  have hpos : 0 < s.answers c := by
    rw [St.answers, heq, List.countP_append]
    simp
  exact .inl (by omega)

theorem callbacks_closeIdle : s.closeIdle.callbacks = s.callbacks := by
  rw [St.closeIdle]
  split_ifs <;> rfl

variable (opts)

theorem start_due (hwaiting : s.Waiting c p) (harmed : side.after (s.pendings.get p) = .armed)
    (hdone : side.done s p = true) : (step opts s (side.start p)).Waiting c p ∧
      side.after ((step opts s (side.start p)).pendings.get p) = .started := by
  obtain ⟨hp, hreg, hcall⟩ := hwaiting
  cases side with
  | context =>
    have hstep : step opts s (Side.context.start p) = s.setContext p .started := by
      change (if _ then s.startContextStep p else s) = _
      rw [if_pos hp, St.startContextStep, if_pos ⟨harmed, hdone⟩]
    rw [hstep]
    have hget : (s.setContext p .started).pendings.get p = { s.pendings.get p with context := .started } := get_set_self ..
    exact ⟨⟨hp, by rw [hget]; exact hreg, by rw [hget]; exact hcall⟩, by rw [hget]; rfl⟩
  | connection =>
    have hstep : step opts s (Side.connection.start p) = s.setConnection p .started := by
      change (if _ then s.startConnectionStep p else s) = _
      rw [if_pos hp, St.startConnectionStep, if_pos ⟨harmed, hdone⟩]
    rw [hstep]
    have hget : (s.setConnection p .started).pendings.get p = { s.pendings.get p with connection := .started } :=
      get_set_self ..
    exact ⟨⟨hp, by rw [hget]; exact hreg, by rw [hget]; exact hcall⟩, by rw [hget]; rfl⟩

theorem take_own (h : Inv s 0) (hp : p < s.pendings.size) (hreg : (s.pendings.get p).registered = true) :
    (s.take (s.pendings.get p).queryId).2 = some (p, (s.pendings.get p).query) ∧
      (s.take (s.pendings.get p).queryId).1.pendings.size = s.pendings.size := by
  cases takes s (s.pendings.get p).queryId with
  | none _ hfree => exact absurd ⟨hp, hreg, rfl⟩ (hfree p)
  | some p' hreg' htake =>
    obtain rfl : p' = p := h.unique _ p' p hreg' ⟨hp, hreg, rfl⟩
    rw [htake]
    exact ⟨rfl, rfl⟩

/-- a function that was started takes its own query -/
theorem go_started (h : Inv s 0) (hwaiting : s.Waiting c p) (hstarted : side.after (s.pendings.get p) = .started) :
    p < (step opts s (side.go p)).pendings.size ∧
      side.after ((step opts s (side.go p)).pendings.get p) = .took p (s.pendings.get p).query := by
  obtain ⟨hp, hreg, -⟩ := hwaiting
  obtain ⟨htake, hsize⟩ := take_own h hp hreg
  cases side with
  | context =>
    change p < (St.pendings (if _ then s.contextStep p else s)).size ∧
      (St.pendings (if _ then s.contextStep p else s) |>.get p).context = _
    rw [if_pos hp, St.contextStep, show (s.pendings.get p).context = .started from hstarted]
    dsimp only
    rw [htake]
    refine ⟨hsize.symm ▸ hp, ?_⟩
    change (((s.take _).1.pendings.set p _).get p).context = _
    rw [get_set_self]
    rfl
  | connection =>
    change p < (St.pendings (if _ then s.connectionStep p else s)).size ∧
      (St.pendings (if _ then s.connectionStep p else s) |>.get p).connection = _
    rw [if_pos hp, St.connectionStep, show (s.pendings.get p).connection = .started from hstarted]
    dsimp only
    rw [htake]
    refine ⟨hsize.symm ▸ hp, ?_⟩
    change (((s.take _).1.pendings.set p _).get p).connection = _
    rw [get_set_self]
    rfl

theorem go_took (hp : p < s.pendings.size) {p' : ℕ} {query : Query} (htook : side.after (s.pendings.get p) = .took p' query) :
    p < (step opts s (side.go p)).pendings.size ∧
      side.after ((step opts s (side.go p)).pendings.get p) = .settled query := by
  cases side with
  | context =>
    change p < (St.pendings (if _ then s.contextStep p else s)).size ∧
      (St.pendings (if _ then s.contextStep p else s) |>.get p).context = _
    rw [if_pos hp, St.contextStep, show (s.pendings.get p).context = .took p' query from htook]
    refine ⟨hp, ?_⟩
    change (((s.pendings.set p' _).set p _).get p).context = _
    rw [get_set_self]
  | connection =>
    change p < (St.pendings (if _ then s.connectionStep p else s)).size ∧
      (St.pendings (if _ then s.connectionStep p else s) |>.get p).connection = _
    rw [if_pos hp, St.connectionStep, show (s.pendings.get p).connection = .took p' query from htook]
    refine ⟨hp, ?_⟩
    change (((s.pendings.set p' _).set p _).get p).connection = _
    rw [get_set_self]

/-- the last step of a function calls back, or starts the runner that sends the query again -/
theorem go_settled (hp : p < s.pendings.size) {query : Query} (hsettled : side.after (s.pendings.get p) = .settled query) :
    (∃ result, (step opts s (side.go p)).callbacks = s.callbacks ++ [(query.call, result)]) ∨
      (step opts s (side.go p)).Running query.call := by
  cases side with
  | context =>
    refine .inl ⟨.error (.context ((s.contextErr p).getD .canceled)), ?_⟩
    change (St.callbacks (if _ then s.contextStep p else s)) = _
    rw [if_pos hp, St.contextStep, show (s.pendings.get p).context = .settled query from hsettled]
    exact callbacks_closeIdle
  | connection =>
    change (∃ result, St.callbacks (if p < s.pendings.size then s.connectionStep p else s) = _) ∨
      St.Running (if p < s.pendings.size then s.connectionStep p else s) query.call
    rw [if_pos hp, St.connectionStep, show (s.pendings.get p).connection = .settled query from hsettled]
    dsimp only
    split
    · refine .inr ⟨s.runners.size, Nat.lt_succ_self _, ?_⟩
      change ((s.runners.push _).get s.runners.size).call = _ ∧ ((s.runners.push _).get s.runners.size).phase.runs = true
      rw [get_push_size]
      exact ⟨rfl, rfl⟩
    · exact .inl ⟨_, rfl⟩

theorem reader_took (hk : k < s.readers.size) {query : Query} {message : Msg}
    (htook : (s.readers.get k).phase = .took p query message) :
    k < (step opts s (.reader k)).readers.size ∧
      ((step opts s (.reader k)).readers.get k).phase = .settled query message := by
  rw [step, if_pos hk, St.readerStep]
  dsimp only
  rw [htook]
  refine ⟨hk, ?_⟩
  change ((s.readers.set k _).get k).phase = _
  rw [get_set_self]

theorem reader_settled (hk : k < s.readers.size) {query : Query} {message : Msg}
    (hsettled : (s.readers.get k).phase = .settled query message) :
    ∃ result, (step opts s (.reader k)).callbacks = s.callbacks ++ [(query.call, result)] := by
  rw [step, if_pos hk, St.readerStep]
  dsimp only
  rw [hsettled]
  exact ⟨_, callbacks_closeIdle⟩

theorem runner_taken (hr : r < s.runners.size) {conn err : ℕ} {created : Bool} {query : Query}
    (htaken : (s.runners.get r).phase = .taken conn created (some (p, query)) err) :
    r < (step opts s (.runner r)).runners.size ∧
      ((step opts s (.runner r)).runners.get r).phase = .retrying created query err := by
  rw [step, if_pos hr, St.runnerStep, htaken]
  refine ⟨hr, ?_⟩
  change ((s.runners.set r _).get r).phase = _
  rw [get_set_self]

/-- a runner that has taken its query back calls back, or sends it again -/
theorem runner_retrying (h : Inv s 0) (hr : r < s.runners.size) {err : ℕ} {created : Bool} {query : Query}
    (hretrying : (s.runners.get r).phase = .retrying created query err) :
    (∃ result, (step opts s (.runner r)).callbacks = s.callbacks ++ [(query.call, result)]) ∨
      (step opts s (.runner r)).Running query.call := by
  have hcall : query.call = (s.runners.get r).call := by
    have hinv := h.runner r hr
    rw [RunnerInv, hretrying] at hinv
    exact hinv
  rw [step, if_pos hr, St.runnerStep, hretrying, hcall]
  unfold St.retry
  dsimp only
  split
  · refine .inr ⟨r, hr, ?_⟩
    change (((s.runners.set r _).set r _).get r).call = _ ∧ (((s.runners.set r _).set r _).get r).phase.runs = true
    rw [get_set_self]
    refine ⟨?_, rfl⟩
    change ((s.runners.set r _).get r).call = _
    rw [get_set_self]
  · exact .inl ⟨_, rfl⟩

/-- nobody who has the call registers a query -/
theorem Way.apart {turn : Turn} {n : ℕ} (h : Way c s turn n) : Apart s turn.toOp := by
  cases h with
  | @due side | @started side | @took side | @settled side => cases side <;> trivial
  | readerTook | readerSettled => trivial
  | taken _ hphase | retrying _ hphase =>
    rintro ⟨a, conn, created, hreg⟩
    rw [hphase] at hreg
    cases hreg

/-- every turn brings the answer nearer, the last one brings it -/
theorem Way.turn {turn : Turn} {n : ℕ} (h : Inv s 0) (hway : Way c s turn (n + 1)) :
    n = 0 ∧ (step opts s turn.toOp).Served c ∨ Way c (step opts s turn.toOp) turn.next n := by
  have h' : Inv (step opts s turn.toOp) 0 := step_inv h _ hway.apart
  have hserved : ∀ {query : Query}, query.call = c →
      (∃ result, (step opts s turn.toOp).callbacks = s.callbacks ++ [(query.call, result)]) ∨
        (step opts s turn.toOp).Running query.call → (step opts s turn.toOp).Served c := by
    rintro query rfl (⟨result, heq⟩ | hruns)
    · exact h'.answered heq
    · exact .inr hruns
  cases hway with
  | due hwaiting hdone harmed =>
    obtain ⟨hwaiting', hstarted⟩ := start_due opts hwaiting harmed hdone
    exact .inr (.started hwaiting' hstarted)
  | started hwaiting hstarted =>
    obtain ⟨hp, htook⟩ := go_started opts h hwaiting hstarted
    exact .inr (.took hp htook hwaiting.2.2)
  | took hp htook hcall =>
    obtain ⟨hp', hsettled⟩ := go_took opts hp htook
    exact .inr (.settled hp' hsettled hcall)
  | settled hp hsettled hcall => exact .inl ⟨rfl, hserved hcall (go_settled opts hp hsettled)⟩
  | readerTook hk htook hcall =>
    obtain ⟨hk', hsettled⟩ := reader_took opts hk htook
    exact .inr (.readerSettled hk' hsettled hcall)
  | readerSettled hk hsettled hcall => exact .inl ⟨rfl, hserved hcall (.inl (reader_settled opts hk hsettled))⟩
  | taken hr htaken hcall =>
    obtain ⟨hr', hretrying⟩ := runner_taken opts hr htaken
    exact .inr (.retrying hr' hretrying hcall)
  | retrying hr hretrying hcall => exact .inl ⟨rfl, hserved hcall (runner_retrying opts h hr hretrying)⟩

end EtonifyCore.Multiplexer
