/-
How a connection ends in `ConnectionManager` (`route/conn.go`): `NewConnection` and `NewPacketConnection` without splicing.

Model: `Main` is the goroutine of the call, up to its exit or the start of the two copy goroutines (`Copy`). What is left of
an exit, or of a copy goroutine that has stopped, is a list of atomic actions (`Act`). `Op` is the next step of one of the
three goroutines, with its outcome. On the stream path the second one to swap `done` reports (`swapSecond`); after a failed
write handshake and on the packet path the first one does (`swapFirst`).

Premises: `N.CloseOnHandshakeFailure` closes the connection and calls `onClose` once; closing a wrapper closes what it
wraps. `onClose` is not nil.
-/
import Mathlib.Tactic

namespace EtonifyCore.ConnectionEnd

open Function List

/-! ## Steps -/

inductive Conn
  | inbound
  | remote
  deriving DecidableEq, Repr

def source (download : Bool) : Conn := if download then .remote else .inbound

def destination (download : Bool) : Conn := if download then .inbound else .remote

inductive Act
  | close (c : Conn)
  | onClose
  /-- `if !done.Swap(true) { onClose(err) }` -/
  | swapFirst
  /-- `if done.Swap(true) { onClose(err); common.Close(source, destination) }` -/
  | swapSecond (download : Bool)
  deriving DecidableEq, Repr

structure Config where
  packet : Bool
  /-- `metadata.TLSSpoof != ""` -/
  tlsSpoof : Bool
  /-- `sniff.Skip(&metadata)` -/
  serverFirst : Bool
  deriving DecidableEq, Repr

/-- what `kickWriteHandshake` meets: is it needed, has the source a cached buffer, and the error of the write, which an
empty write may or may not give -/
structure Kick where
  needHandshake : Bool
  cached : Bool
  err : Option Bool
  deriving DecidableEq, Repr

def Kick.fails (serverFirst : Bool) (k : Kick) : Bool :=
  let wrotePayload := !serverFirst && k.cached
  match k.err with
  | none => false
  | some ignorable => k.needHandshake && (wrotePayload || !ignorable)

inductive CopyEnd
  | error
  | closedWrite
  | closeWriteFailed
  | noCloseWrite
  deriving DecidableEq, Repr

inductive Main
  | dial
  | report
  | spoof
  | kick (download : Bool)
  | exit (todo : List Act)
  | started
  deriving DecidableEq, Repr

inductive Copy
  | waiting
  | copying
  | ending (todo : List Act)
  deriving DecidableEq, Repr

structure St where
  dialed : Bool
  closed : Conn → Bool
  done : Bool
  onCloses : ℕ
  main : Main
  /-- the copy goroutines: upload (`false`) and download (`true`) -/
  copies : Bool → Copy

def init : St := ⟨false, fun _ => false, false, 0, .dial, fun _ => .waiting⟩

def closeOnHandshakeFailure : List Act := [.close .inbound, .onClose]

def kickFailed (download : Bool) : List Act := [.swapFirst, .close (source download), .close (destination download)]

def connectionCopy (download : Bool) : CopyEnd → List Act
  | .error | .closeWriteFailed =>
    [.close (source download), .close (destination download), .swapSecond download]
  | .closedWrite => [.swapSecond download]
  | .noCloseWrite => [.close (destination download), .swapSecond download]

def packetConnectionCopy (download : Bool) : List Act :=
  [.swapFirst, .close (source download), .close (destination download)]

def exec (st : St) : Act → St × List Act
  | .close c => ({ st with closed := Function.update st.closed c true }, [])
  | .onClose => ({ st with onCloses := st.onCloses + 1 }, [])
  | .swapFirst => ({ st with done := true }, if st.done then [] else [.onClose])
  | .swapSecond download =>
    ({ st with done := true },
      if st.done then [.onClose, .close (source download), .close (destination download)] else [])

def start (st : St) : St := { st with main := .started, copies := fun _ => .copying }

def mainStep (cfg : Config) (st : St) (ok : Bool) (k : Kick) : St :=
  match st.main with
  | .dial =>
    if ok then { st with dialed := true, main := .report } else { st with main := .exit closeOnHandshakeFailure }
  | .report =>
    if !ok then { st with main := .exit (.close .remote :: closeOnHandshakeFailure) }
    else if cfg.packet then start st
    else if cfg.tlsSpoof then { st with main := .spoof }
    else { st with main := .kick false }
  | .spoof =>
    if ok then { st with main := .kick false }
    else { st with main := .exit (.close .remote :: closeOnHandshakeFailure) }
  | .kick download =>
    if k.fails cfg.serverFirst then { st with main := .exit (kickFailed download) }
    else if download then start st
    else { st with main := .kick true }
  | .exit [] => st
  | .exit (a :: todo) => { (exec st a).1 with main := .exit ((exec st a).2 ++ todo) }
  | .started => st

def copyStep (cfg : Config) (st : St) (download : Bool) (e : CopyEnd) : St :=
  match st.copies download with
  | .waiting => st
  | .copying =>
    let todo := if cfg.packet then packetConnectionCopy download else connectionCopy download e
    { st with copies := Function.update st.copies download (.ending todo) }
  | .ending [] => st
  | .ending (a :: todo) =>
    { (exec st a).1 with copies := Function.update st.copies download (.ending ((exec st a).2 ++ todo)) }

inductive Op
  | main (ok : Bool) (k : Kick)
  | copy (download : Bool) (e : CopyEnd)
  deriving DecidableEq, Repr

def step (cfg : Config) (st : St) : Op → St
  | .main ok k => mainStep cfg st ok k
  | .copy download e => copyStep cfg st download e

def run (cfg : Config) (ops : List Op) : St := ops.foldl (step cfg) init

def Ended (st : St) : Prop :=
  st.main = .exit [] ∨ (st.main = .started ∧ ∀ download, st.copies download = .ending [])

/-! ## Accounts -/

def calls (todo : List Act) : ℕ := todo.count .onClose

def swaps (todo : List Act) : ℕ := todo.countP fun a => a matches .swapFirst | .swapSecond _

def Copy.calls : Copy → ℕ
  | .ending todo => ConnectionEnd.calls todo
  | _ => 0

def Copy.swaps : Copy → ℕ
  | .waiting => 0
  | .copying => 1
  | .ending todo => ConnectionEnd.swaps todo

def both (f : Copy → ℕ) (copies : Bool → Copy) : ℕ := f (copies false) + f (copies true)

section

variable (f : Copy → ℕ) (copies : Bool → Copy) (download : Bool)

theorem both_eq : both f copies = f (copies download) + f (copies !download) := by
  cases download
  · rfl
  · exact Nat.add_comm _ _

theorem both_update (c : Copy) : both f (update copies download c) = f c + f (copies !download) := by
  rw [both_eq f _ download, update_self, update_of_ne (by cases download <;> decide)]

end

/-- the connection is closed, or one of the copy goroutines will close it -/
def Closing (st : St) (c : Conn) : Prop :=
  st.closed c = true ∨ ∃ download todo, st.copies download = .ending todo ∧ Act.close c ∈ todo

structure ExitOk (st : St) (todo : List Act) : Prop where
  waiting : ∀ download, st.copies download = .waiting
  account : st.onCloses + calls todo + swaps todo = 1
  undecided : swaps todo = 0 ∨ st.done = false
  first : ∀ download, Act.swapSecond download ∉ todo
  inbound : st.closed .inbound = true ∨ Act.close .inbound ∈ todo
  remote : st.dialed = true → st.closed .remote = true ∨ Act.close .remote ∈ todo

/-- the copy goroutines of a stream: the second one to swap will report, and close both connections -/
structure StreamOk (st : St) : Prop where
  account : (st.done = false ∧ both Copy.swaps st.copies = 2 ∧ st.onCloses + both Copy.calls st.copies = 0) ∨
    (st.done = true ∧ both Copy.swaps st.copies + st.onCloses + both Copy.calls st.copies = 1)
  second : ∀ download todo, st.copies download = .ending todo → Act.swapFirst ∉ todo
  closing : both Copy.swaps st.copies = 0 → ∀ c, Closing st c

/-- the copy goroutines of a packet connection: the first one to swap reports, each closes both connections -/
structure PacketOk (st : St) : Prop where
  account : (st.done = false ∧ both Copy.swaps st.copies = 2 ∧ st.onCloses + both Copy.calls st.copies = 0) ∨
    (st.done = true ∧ both Copy.swaps st.copies ≤ 1 ∧ st.onCloses + both Copy.calls st.copies = 1)
  first : ∀ download todo, st.copies download = .ending todo → ∀ d, Act.swapSecond d ∉ todo
  closing : ∀ download todo, st.copies download = .ending todo → ∀ c, st.closed c = true ∨ Act.close c ∈ todo

structure Undecided (st : St) : Prop where
  waiting : ∀ download, st.copies download = .waiting
  done : st.done = false
  onCloses : st.onCloses = 0

def Inv (cfg : Config) (st : St) : Prop :=
  match st.main with
  | .dial => Undecided st ∧ st.dialed = false
  | .report | .spoof | .kick _ => Undecided st
  | .exit todo => ExitOk st todo
  | .started => if cfg.packet then PacketOk st else StreamOk st

@[simp] theorem calls_nil : calls [] = 0 := rfl
@[simp] theorem calls_close (c : Conn) (l : List Act) : calls (.close c :: l) = calls l := rfl
variable (l : List Act)

@[simp] theorem calls_onClose : calls (.onClose :: l) = calls l + 1 := count_cons_self
@[simp] theorem calls_swapFirst : calls (.swapFirst :: l) = calls l := rfl
@[simp] theorem calls_swapSecond (d : Bool) (l : List Act) : calls (.swapSecond d :: l) = calls l := rfl
@[simp] theorem swaps_nil : swaps [] = 0 := rfl
@[simp] theorem swaps_close (c : Conn) (l : List Act) : swaps (.close c :: l) = swaps l := rfl
@[simp] theorem swaps_onClose : swaps (.onClose :: l) = swaps l := rfl
@[simp] theorem swaps_swapFirst : swaps (.swapFirst :: l) = swaps l + 1 := countP_cons_of_pos rfl
@[simp] theorem swaps_swapSecond (d : Bool) (l : List Act) : swaps (.swapSecond d :: l) = swaps l + 1 :=
  countP_cons_of_pos rfl

@[simp] theorem Copy.calls_ending : (Copy.ending l).calls = ConnectionEnd.calls l := rfl
@[simp] theorem Copy.swaps_ending : (Copy.ending l).swaps = ConnectionEnd.swaps l := rfl

def Accounts (st : St) (a : Act) (todo : List Act) : Prop :=
  let st' := (exec st a).1
  let todo' := (exec st a).2 ++ todo
  match a with
  | .close _ | .onClose =>
    st'.done = st.done ∧ st'.onCloses + calls todo' = st.onCloses + calls (a :: todo) ∧ swaps todo' = swaps (a :: todo)
  | .swapFirst =>
    st'.done = true ∧ st'.onCloses = st.onCloses ∧ swaps todo' + 1 = swaps (a :: todo) ∧
      calls todo' = calls (a :: todo) + (if st.done then 0 else 1)
  | .swapSecond _ =>
    st'.done = true ∧ st'.onCloses = st.onCloses ∧ swaps todo' + 1 = swaps (a :: todo) ∧
      calls todo' = calls (a :: todo) + (if st.done then 1 else 0)

theorem exec_accounts (st : St) (a : Act) (todo : List Act) : Accounts st a todo := by
  cases a with
  | close c => exact ⟨rfl, rfl, rfl⟩
  | onClose =>
    refine ⟨rfl, ?_, rfl⟩
    simp [exec]
    omega
  | swapFirst | swapSecond d =>
    unfold Accounts
    cases hdone : st.done <;> simp [exec, hdone]

/-! ## Exits -/

section Exit

variable {st : St} {todo : List Act} {a : Act}

theorem exec_closed (st : St) (a : Act) (c : Conn) (h : st.closed c) : (exec st a).1.closed c := by
  cases a with
  | close d =>
    by_cases hcd : c = d
    · subst hcd
      simp [exec]
    · simp [exec, update_of_ne hcd, h]
  | _ => exact h

theorem exec_closing (st : St) (c : Conn) (h : st.closed c ∨ Act.close c ∈ a :: todo) :
    (exec st a).1.closed c ∨ Act.close c ∈ (exec st a).2 ++ todo := by
  rcases h with h | h
  · exact Or.inl (exec_closed st a c h)
  · rcases mem_cons.1 h with h | h
    · subst h
      exact Or.inl (by simp [exec])
    · exact Or.inr (mem_append_right _ h)

theorem ExitOk.exec (h : ExitOk st (a :: todo)) :
    ExitOk { (exec st a).1 with main := .exit ((exec st a).2 ++ todo) } ((exec st a).2 ++ todo) := by
  have hinbound := exec_closing st .inbound h.inbound
  have hremote := fun hd => exec_closing st .remote (h.remote hd)
  have hfirst : ∀ download, Act.swapSecond download ∉ todo := fun d hd => h.first d (mem_cons_of_mem _ hd)
  have haccount := h.account
  cases a with
  | close c =>
    exact ⟨h.waiting, haccount, h.undecided, hfirst, hinbound, hremote⟩
  | onClose =>
    refine ⟨h.waiting, ?_, h.undecided, hfirst, hinbound, hremote⟩
    simp only [calls_onClose, swaps_onClose] at haccount
    change st.onCloses + 1 + calls todo + swaps todo = 1
    omega
  | swapFirst =>
    simp only [calls_swapFirst, swaps_swapFirst] at haccount
    have hdone : st.done = false := by
      rcases h.undecided with hz | hd
      · simp at hz
      · exact hd
    have hmore : (ConnectionEnd.exec st .swapFirst).2 = [.onClose] := by simp [ConnectionEnd.exec, hdone]
    rw [hmore] at hinbound hremote ⊢
    refine ⟨h.waiting, ?_, Or.inl ?_, ?_, hinbound, hremote⟩
    · change st.onCloses + calls (.onClose :: todo) + swaps (.onClose :: todo) = 1
      rw [calls_onClose, swaps_onClose]
      omega
    · change swaps (.onClose :: todo) = 0
      rw [swaps_onClose]
      omega
    · intro d hd
      rcases mem_cons.1 hd with hd | hd
      · cases hd
      · exact hfirst d hd
  | swapSecond d => exact absurd (by simp) (h.first d)

end Exit

variable {st : St}

variable (cfg : Config)

theorem inv_mainStep (h : Inv cfg st) (ok : Bool) (k : Kick) : Inv cfg (mainStep cfg st ok k) := by
  -- the two ways in which an undecided call goes on: an exit, or the copy goroutines
  have hexit : Undecided st → ∀ todo, calls todo + swaps todo = 1 → (∀ d, Act.swapSecond d ∉ todo) →
      Act.close .inbound ∈ todo → (st.dialed → Act.close .remote ∈ todo) →
      Inv cfg { st with main := .exit todo } := by
    intro hu todo haccount hfirst hin hre
    refine ⟨hu.waiting, ?_, Or.inr hu.done, hfirst, Or.inr hin, fun hd => Or.inr (hre hd)⟩
    have hzero := hu.onCloses
    change st.onCloses + calls todo + swaps todo = 1
    omega
  have hstart : Undecided st → Inv cfg (start st) := by
    intro hu
    unfold Inv start
    dsimp only
    split_ifs
    · refine ⟨Or.inl ⟨hu.done, rfl, hu.onCloses⟩, ?_, ?_⟩ <;> intro d todo hd <;> cases hd
    · refine ⟨Or.inl ⟨hu.done, rfl, hu.onCloses⟩, ?_, fun hz => absurd hz (by simp [both, Copy.swaps])⟩
      intro d todo hd
      cases hd
  have hgo : Undecided st → ∀ m, (m = .spoof ∨ ∃ d, m = .kick d) → Inv cfg { st with main := m } := by
    intro hu m hm
    rcases hm with hm | ⟨d, hm⟩ <;> subst hm <;> exact ⟨hu.waiting, hu.done, hu.onCloses⟩
  have hfailed : Undecided st → Inv cfg { st with main := .exit (.close .remote :: closeOnHandshakeFailure) } := by
    intro hu
    exact hexit hu _ (by decide) (by decide) (by decide) fun _ => by decide
  unfold mainStep
  cases hm : st.main with
  | dial =>
    simp only [Inv, hm] at h
    obtain ⟨hu, hd⟩ := h
    cases ok with
    | true => exact ⟨hu.waiting, hu.done, hu.onCloses⟩
    | false => exact hexit hu _ (by decide) (by decide) (by decide) fun hd' => absurd hd' (by simp [hd])
  | report =>
    simp only [Inv, hm] at h
    dsimp only
    split_ifs
    · exact hfailed h
    · exact hstart h
    · exact hgo h _ (Or.inl rfl)
    · exact hgo h _ (Or.inr ⟨false, rfl⟩)
  | spoof =>
    simp only [Inv, hm] at h
    dsimp only
    split_ifs
    · exact hgo h _ (Or.inr ⟨false, rfl⟩)
    · exact hfailed h
  | kick download =>
    simp only [Inv, hm] at h
    dsimp only
    split_ifs
    · cases download <;> exact hexit h _ (by decide) (by decide) (by decide) fun _ => by decide
    · exact hstart h
    · exact hgo h _ (Or.inr ⟨true, rfl⟩)
  | exit todo =>
    cases todo with
    | nil => exact h
    | cons a todo =>
      simp only [Inv, hm] at h
      exact h.exec
  | started => exact h

/-! ## Copy goroutines -/

section Copies

variable {st : St} {todo : List Act} {a : Act} {download : Bool}

def acted (st : St) (download : Bool) (a : Act) (todo : List Act) : St :=
  { (exec st a).1 with copies := Function.update st.copies download (.ending ((exec st a).2 ++ todo)) }

theorem acted_copies {d : Bool} {l : List Act} (h : (acted st download a todo).copies d = .ending l) :
    (d = download ∧ l = (exec st a).2 ++ todo) ∨ (d ≠ download ∧ st.copies d = .ending l) := by
  by_cases hd : d = download
  · subst hd
    simp only [acted, update_self, Copy.ending.injEq] at h
    exact Or.inl ⟨rfl, h.symm⟩
  · simp only [acted, update_of_ne hd] at h
    exact Or.inr ⟨hd, h⟩

theorem Closing.acted (hc : st.copies download = .ending (a :: todo)) {c : Conn} (h : Closing st c) :
    Closing (acted st download a todo) c := by
  rcases h with h | ⟨d, l, hd, hmem⟩
  · exact Or.inl (exec_closed st a c h)
  · by_cases hdd : d = download
    · subst hdd
      rw [hc] at hd
      cases hd
      rcases exec_closing st c (Or.inr hmem) with h | h
      · exact Or.inl h
      · exact Or.inr ⟨d, _, by simp [ConnectionEnd.acted], h⟩
    · exact Or.inr ⟨d, l, by simpa [ConnectionEnd.acted, update_of_ne hdd] using hd, hmem⟩

theorem source_or_destination (download : Bool) (c : Conn) : c = source download ∨ c = destination download := by
  cases download <;> cases c <;> simp [source, destination]

theorem acted_both (hc : st.copies download = .ending (a :: todo)) :
    both Copy.swaps st.copies = swaps (a :: todo) + (st.copies !download).swaps ∧
      both Copy.calls st.copies = calls (a :: todo) + (st.copies !download).calls ∧
      both Copy.swaps (acted st download a todo).copies = swaps ((exec st a).2 ++ todo) + (st.copies !download).swaps ∧
      both Copy.calls (acted st download a todo).copies =
        calls ((exec st a).2 ++ todo) + (st.copies !download).calls := by
  have hswaps := both_eq Copy.swaps st.copies download
  have hcalls := both_eq Copy.calls st.copies download
  rw [hc] at hswaps hcalls
  exact ⟨hswaps, hcalls, both_update Copy.swaps st.copies download _, both_update Copy.calls st.copies download _⟩

theorem PacketOk.acted (h : PacketOk st) (hc : st.copies download = .ending (a :: todo)) :
    PacketOk (acted st download a todo) := by
  obtain ⟨hswaps, hcalls, hswaps', hcalls'⟩ := acted_both hc
  have hfirst := h.first download _ hc
  refine ⟨?_, ?_, ?_⟩
  · have haccount := h.account
    have hexec := exec_accounts st a todo
    change ((exec st a).1.done = false ∧ _ ∧ (exec st a).1.onCloses + _ = 0) ∨
      ((exec st a).1.done ∧ _ ∧ (exec st a).1.onCloses + _ = 1)
    rw [hswaps', hcalls']
    cases a with
    | close c | onClose =>
      obtain ⟨hd, hn, hs⟩ := hexec
      rcases haccount with ⟨hdone, h2, h0⟩ | ⟨hdone, h1, hone⟩
      · exact Or.inl ⟨hd.trans hdone, by omega, by omega⟩
      · exact Or.inr ⟨hd.trans hdone, by omega, by omega⟩
    | swapFirst =>
      obtain ⟨hd, hn, hs, hcall⟩ := hexec
      rcases haccount with ⟨hdone, h2, h0⟩ | ⟨hdone, h1, hone⟩
      · rw [hdone, if_neg (by decide)] at hcall
        exact Or.inr ⟨hd, by omega, by omega⟩
      · rw [hdone, if_pos rfl] at hcall
        exact Or.inr ⟨hd, by omega, by omega⟩
    | swapSecond d => exact absurd (by simp) (hfirst d)
  · intro d l hd s hs
    rcases acted_copies hd with ⟨-, hl⟩ | ⟨-, hold⟩
    · subst hl
      rcases mem_append.1 hs with hs | hs
      · cases a with
        | swapFirst =>
          simp only [exec] at hs
          split_ifs at hs <;> simp at hs
        | swapSecond e => exact hfirst e (by simp)
        | _ => cases hs
      · exact hfirst s (mem_cons_of_mem _ hs)
    · exact h.first d l hold s hs
  · intro d l hd c
    rcases acted_copies hd with ⟨-, hl⟩ | ⟨-, hold⟩
    · subst hl
      exact exec_closing st c (h.closing download _ hc c)
    · exact (h.closing d l hold c).imp (exec_closed st a c) id

theorem StreamOk.acted (h : StreamOk st) (hc : st.copies download = .ending (a :: todo)) :
    StreamOk (acted st download a todo) := by
  obtain ⟨hswaps, hcalls, hswaps', hcalls'⟩ := acted_both hc
  have hsecond := h.second download _ hc
  have haccount := h.account
  have hexec := exec_accounts st a todo
  refine ⟨?_, ?_, ?_⟩
  · change ((exec st a).1.done = false ∧ _ ∧ (exec st a).1.onCloses + _ = 0) ∨
      ((exec st a).1.done ∧ _ + (exec st a).1.onCloses + _ = 1)
    rw [hswaps', hcalls']
    cases a with
    | close c | onClose =>
      obtain ⟨hd, hn, hs⟩ := hexec
      rcases haccount with ⟨hdone, h2, h0⟩ | ⟨hdone, hone⟩
      · exact Or.inl ⟨hd.trans hdone, by omega, by omega⟩
      · exact Or.inr ⟨hd.trans hdone, by omega⟩
    | swapFirst => exact absurd (by simp) hsecond
    | swapSecond d =>
      obtain ⟨hd, hn, hs, hcall⟩ := hexec
      rcases haccount with ⟨hdone, h2, h0⟩ | ⟨hdone, hone⟩
      · rw [hdone, if_neg (by decide)] at hcall
        exact Or.inr ⟨hd, by omega⟩
      · rw [hdone, if_pos rfl] at hcall
        exact Or.inr ⟨hd, by omega⟩
  · intro d l hd hs
    rcases acted_copies hd with ⟨-, hl⟩ | ⟨-, hold⟩
    · subst hl
      rcases mem_append.1 hs with hs | hs
      · cases a with
        | swapFirst => exact hsecond (by simp)
        | swapSecond e =>
          simp only [exec] at hs
          split_ifs at hs <;> simp at hs
        | _ => cases hs
      · exact hsecond (mem_cons_of_mem _ hs)
    · exact h.second d l hold hs
  · intro hzero c
    rw [hswaps'] at hzero
    cases a with
    | swapSecond d =>
      -- the second swap: this goroutine goes on to close both
      have hdone : st.done := by
        obtain ⟨-, -, hs, -⟩ := hexec
        rcases haccount with ⟨-, htwo, -⟩ | ⟨hd, -⟩
        · omega
        · exact hd
      refine Or.inr ⟨download, (exec st (.swapSecond d)).2 ++ todo, by simp [ConnectionEnd.acted], ?_⟩
      rcases source_or_destination d c with hcd | hcd <;> simp [exec, hdone, hcd]
    | swapFirst => exact absurd (by simp) hsecond
    | close e | onClose =>
      obtain ⟨-, -, hs⟩ := hexec
      exact (h.closing (by omega) c).acted hc

theorem both_stopped (todo : List Act) (hc : st.copies download = .copying) (hswaps : swaps todo = 1) (hcalls : calls todo = 0) :
    both Copy.swaps (update st.copies download (.ending todo)) = both Copy.swaps st.copies ∧
      both Copy.calls (update st.copies download (.ending todo)) = both Copy.calls st.copies := by
  rw [both_update, both_update, both_eq Copy.swaps st.copies download, both_eq Copy.calls st.copies download, hc]
  simp only [Copy.swaps_ending, Copy.calls_ending, hswaps, hcalls]
  exact ⟨rfl, rfl⟩

theorem stopped_copies {d : Bool} {l : List Act} (h : update st.copies download (.ending todo) d = .ending l) :
    l = todo ∨ st.copies d = .ending l := by
  by_cases hd : d = download
  · subst hd
    rw [update_self] at h
    cases h
    exact Or.inl rfl
  · rw [update_of_ne hd] at h
    exact Or.inr h

theorem PacketOk.stopped (h : PacketOk st) (hc : st.copies download = .copying) :
    PacketOk { st with copies := update st.copies download (.ending (packetConnectionCopy download)) } := by
  obtain ⟨hs, hcalls⟩ := both_stopped (packetConnectionCopy download) hc (by cases download <;> decide)
    (by cases download <;> decide)
  refine ⟨?_, ?_, ?_⟩
  · rw [hs, hcalls]
    exact h.account
  · intro d l hd
    rcases stopped_copies hd with hl | hold
    · subst hl
      intro e he
      simp [packetConnectionCopy] at he
    · exact h.first d l hold
  · intro d l hd c
    rcases stopped_copies hd with hl | hold
    · subst hl
      rcases source_or_destination download c with hcd | hcd <;> exact Or.inr (by simp [packetConnectionCopy, hcd])
    · exact h.closing d l hold c

theorem StreamOk.stopped (h : StreamOk st) (hc : st.copies download = .copying) (e : CopyEnd) :
    StreamOk { st with copies := update st.copies download (.ending (connectionCopy download e)) } := by
  obtain ⟨hs, hcalls⟩ := both_stopped (connectionCopy download e) hc (by cases download <;> cases e <;> decide)
    (by cases download <;> cases e <;> decide)
  refine ⟨?_, ?_, ?_⟩
  · rw [hs, hcalls]
    exact h.account
  · intro d l hd
    rcases stopped_copies hd with hl | hold
    · subst hl
      cases e <;> simp [connectionCopy]
    · exact h.second d l hold
  · intro hzero
    rw [hs, both_eq Copy.swaps st.copies download, hc] at hzero
    simp [Copy.swaps] at hzero

end Copies

theorem inv_started {cfg : Config} (hm : st.main = .started) :
    Inv cfg st ↔ if cfg.packet then PacketOk st else StreamOk st := by
  simp only [Inv, hm]

theorem started_of_copy {cfg : Config} (h : Inv cfg st) {download : Bool}
    (hc : st.copies download ≠ .waiting) : st.main = .started := by
  cases hm : st.main with
  | started => rfl
  | dial =>
    simp only [Inv, hm] at h
    exact absurd (h.1.waiting download) hc
  | _ =>
    simp only [Inv, hm] at h
    exact absurd (h.waiting download) hc

theorem inv_copyStep (h : Inv cfg st) (download : Bool) (e : CopyEnd) : Inv cfg (copyStep cfg st download e) := by
  unfold copyStep
  cases hc : st.copies download with
  | waiting => exact h
  | copying =>
    have hm : st.main = .started := started_of_copy h (hc.trans_ne (by simp))
    rw [inv_started hm] at h
    refine (inv_started (by exact hm)).2 ?_
    by_cases hpacket : cfg.packet
    · rw [if_pos hpacket] at h ⊢
      rw [if_pos hpacket]
      exact h.stopped hc
    · rw [if_neg hpacket] at h ⊢
      rw [if_neg hpacket]
      exact h.stopped hc e
  | ending todo =>
    cases todo with
    | nil => exact h
    | cons a todo =>
      have hm : st.main = .started := started_of_copy h (hc.trans_ne (by simp))
      have hm' : (exec st a).1.main = .started := by cases a <;> exact hm
      rw [inv_started hm] at h
      refine (inv_started (by exact hm')).2 ?_
      by_cases hpacket : cfg.packet
      · rw [if_pos hpacket] at h ⊢
        exact h.acted hc
      · rw [if_neg hpacket] at h ⊢
        exact h.acted hc

theorem inv_step (h : Inv cfg st) (op : Op) : Inv cfg (step cfg st op) := by
  cases op with
  | main ok k => exact inv_mainStep cfg h ok k
  | copy download e => exact inv_copyStep cfg h download e

theorem inv_init : Inv cfg init := ⟨⟨fun _ => rfl, rfl, rfl⟩, rfl⟩

theorem inv_run (ops : List Op) : Inv cfg (run cfg ops) :=
  List.foldlRecOn (motive := Inv cfg) ops (step cfg) (inv_init cfg) fun _ h op _ => inv_step cfg h op

theorem Inv.at_most_once {cfg : Config} (h : Inv cfg st) : st.onCloses ≤ 1 := by
  cases hm : st.main with
  | started =>
    simp only [Inv, hm] at h
    split_ifs at h
    · rcases h.account with ⟨-, -, h0⟩ | ⟨-, -, h1⟩ <;> omega
    · rcases h.account with ⟨-, -, h0⟩ | ⟨-, h1⟩ <;> omega
  | exit todo =>
    simp only [Inv, hm] at h
    have haccount := h.account
    omega
  | dial =>
    simp only [Inv, hm] at h
    rw [h.1.onCloses]
    exact Nat.zero_le 1
  | _ =>
    simp only [Inv, hm] at h
    rw [h.onCloses]
    exact Nat.zero_le 1

end EtonifyCore.ConnectionEnd
