/-
The outbounds, endpoints and DNS servers of a configuration, from its check to their start in dependency order.

Model (`option/options.go`, `box.go`, `adapter/outbound/manager.go`, `adapter/endpoint/manager.go`,
`dns/transport_manager.go`): the check of the tags (an empty one stands for the index), `Create` of the three managers, the
stage `Initialize`, where the fallback objects "direct" and "local" are added, and the stage `Start`, an instance each of
`DependencyStart.startAll`. A fallback that cannot be created ends the start and is left out.
-/
import EtonifyCore.Lifecycle.DependencyStart

namespace EtonifyCore.StartManagers

open List
open Core.Dependencies DependencyStart

/-! ## The configuration -/

structure Options where
  type : String
  tag : String
  dependencies : List String
  isLifecycle : Bool
  deriving DecidableEq, Repr

structure Config where
  outbounds : List Options
  endpoints : List Options
  servers : List Options
  final : String
  dnsFinal : String
  deriving Repr

def tagOf (i : ℕ) (tag : String) : String := if tag = "" then toString i else tag

def tags (options : List Options) : List String := options.mapIdx fun i o => tagOf i o.tag

def objects (kind : Kind) (options : List Options) : List Object :=
  options.mapIdx fun i o => ⟨kind, o.type, tagOf i o.tag, o.dependencies, o.isLifecycle⟩

@[simp] theorem map_tag_objects (kind : Kind) (options : List Options) :
    (objects kind options).map (·.tag) = tags options := by
  apply ext_getElem
  · simp [objects, tags]
  · intro i _ _
    simp [objects, tags]

def checkTags (seen : List String) : List String → Except String (List String)
  | [] => .ok seen
  | tag :: rest =>
    if tag ∈ seen then .error ("duplicate outbound/endpoint tag: " ++ tag) else checkTags (tag :: seen) rest

def checkOutbounds (outbounds endpoints : List Options) : Except String Unit := do
  let seen ← checkTags [] (tags outbounds)
  let _ ← checkTags seen (tags endpoints)
  return ()

/-! ## The managers -/

structure Manager where
  defaultTag : String
  objects : List Object
  byTag : String → Option Object
  default : Option Object
  fakeIP : Option Object

def newManager (defaultTag : String) : Manager := ⟨defaultTag, [], fun _ => none, none, none⟩

section

variable (m : Manager) (o : Object)

def Manager.add : Manager :=
  { m with objects := m.objects ++ [o], byTag := fun tag => if tag = o.tag then some o else m.byTag tag }

def Manager.takesDefault : Bool :=
  o.tag == m.defaultTag || (m.defaultTag == "" && m.default.isNone)

def createEndpoint : Except String Manager :=
  if (m.byTag o.tag).isSome then .error ("duplicate endpoint tag: " ++ o.tag) else .ok (m.add o)

def createOutbound : Except String Manager :=
  if o.tag = "" then .error "invalid argument"
  else if (m.byTag o.tag).isSome then .error ("duplicate outbound tag: " ++ o.tag)
  else if m.takesDefault o then .ok { m.add o with default := some o }
  else .ok (m.add o)

/-- the end of `Create`: there is at most one fakeip server -/
def registerFakeIP : Except String Manager :=
  if o.type = "fakeip" then
    if m.fakeIP.isSome then .error "multiple fakeip server are not supported" else .ok { m with fakeIP := some o }
  else .ok m

def createTransport : Except String Manager :=
  if o.tag = "" then .error "invalid argument"
  else if (m.byTag o.tag).isSome then .error ("duplicate DNS server tag: " ++ o.tag)
  else if m.takesDefault o then
    if o.type = "fakeip" then .error "default server cannot be fakeip"
    else registerFakeIP { m.add o with default := some o } o
  else registerFakeIP (m.add o) o

end

def fallbackOutbound : Object := ⟨.outbound, "direct", "direct", [], true⟩

def fallbackTransport : Object := ⟨.transport, "local", "local", [], true⟩

/-- `Manager.Start` at the stage `Initialize`: the default outbound may be an endpoint, or has to be added -/
def initializeOutbounds (m endpoints : Manager) : Except String Manager :=
  match m.default with
  | some _ => .ok m
  | none =>
    if m.defaultTag ≠ "" then
      match endpoints.byTag m.defaultTag with
      | none => .error ("default outbound not found: " ++ m.defaultTag)
      | some e => .ok { m with default := some e }
    else .ok { m.add fallbackOutbound with default := some fallbackOutbound }

def initializeTransports (m : Manager) : Except String Manager :=
  match m.default with
  | some _ => .ok m
  | none =>
    if m.defaultTag ≠ "" then .error ("default DNS server not found: " ++ m.defaultTag)
    else .ok { m.add fallbackTransport with default := some fallbackTransport }

def Config.members (c : Config) : Except String (List Object) := do
  let endpoints ← (objects .endpoint c.endpoints).foldlM createEndpoint (newManager "")
  let outbounds ← (objects .outbound c.outbounds).foldlM createOutbound (newManager c.final)
  let m ← initializeOutbounds outbounds endpoints
  return m.objects ++ endpoints.objects

def Config.transports (c : Config) : Except String Manager := do
  let m ← (objects .transport c.servers).foldlM createTransport (newManager c.dnsFinal)
  initializeTransports m

def startOutbounds (starts : Object → Option String) (outbounds : List Object) : Outcome × List Object :=
  startAll (fun tag => outbounds.find? fun o => o.tag = tag) starts outbounds (outbounds.length + 1) []

/-- unlike `startOutbounds` it looks a tag up in the table of the manager -/
def startTransports (starts : Object → Option String) (m : Manager) : Outcome × List Object :=
  startAll m.byTag starts m.objects (m.objects.length + 1) []

/-! ## The check of the tags -/

theorem checkTags_ok {seen rest seen' : List String} (h : checkTags seen rest = .ok seen') :
    rest.Nodup ∧ (∀ tag ∈ rest, tag ∉ seen) ∧ ∀ tag, tag ∈ seen' ↔ tag ∈ rest ∨ tag ∈ seen := by
  induction rest generalizing seen with
  | nil =>
    cases h
    simp
  | cons t rest ih =>
    unfold checkTags at h
    split_ifs at h with hseen
    obtain ⟨h1, h2, h3⟩ := ih h
    refine ⟨nodup_cons.2 ⟨fun ht => h2 t ht (by simp), h1⟩, ?_, ?_⟩
    · intro tag htag
      rcases mem_cons.1 htag with htag | htag
      · rw [htag]
        exact hseen
      · exact fun hs => h2 tag htag (mem_cons_of_mem _ hs)
    · intro tag
      rw [h3 tag, mem_cons, mem_cons]
      tauto

theorem bind_ok {α β : Type} {x : Except String α} {f : α → Except String β} {b : β} (h : (x >>= f) = .ok b) :
    ∃ a, x = .ok a ∧ f a = .ok b := by
  cases x with
  | error e => cases h
  | ok a => exact ⟨a, rfl, h⟩

theorem nodup_of_check {outbounds endpoints : List Options} (h : checkOutbounds outbounds endpoints = .ok ()) :
    (tags outbounds ++ tags endpoints).Nodup := by
  obtain ⟨seen, ho, h⟩ := bind_ok h
  obtain ⟨seen', he, -⟩ := bind_ok h
  obtain ⟨ho1, -, ho3⟩ := checkTags_ok ho
  obtain ⟨he1, he2, -⟩ := checkTags_ok he
  refine nodup_append.2 ⟨ho1, he1, ?_⟩
  intro a ha b hb hab
  subst hab
  exact he2 a hb ((ho3 a).2 (Or.inl ha))

/-! ## What `Create` keeps -/

/-- while there is no default object and none is asked for by its tag, there is no object at all -/
def FirstIsDefault (m : Manager) : Prop := m.default = none → m.defaultTag = "" → m.objects = []

structure Tidy (m : Manager) : Prop where
  finds : Finds m.byTag m.objects
  nodup : (m.objects.map (·.tag)).Nodup

variable {m m' : Manager}

theorem foldlM_create {create : Manager → Object → Except String Manager} {P : Manager → Prop}
    (hstep : ∀ m o m', P m → create m o = .ok m' → P m' ∧ m'.objects = m.objects ++ [o] ∧ m'.defaultTag = m.defaultTag)
    {os : List Object} (hm : P m) (h : os.foldlM create m = .ok m') :
    P m' ∧ m'.objects = m.objects ++ os ∧ m'.defaultTag = m.defaultTag := by
  induction os generalizing m with
  | nil =>
    cases h
    exact ⟨hm, (append_nil _).symm, rfl⟩
  | cons o os ih =>
    rw [foldlM_cons] at h
    obtain ⟨m1, h1, h2⟩ := bind_ok h
    obtain ⟨hp1, ho1, ht1⟩ := hstep m o m1 hm h1
    obtain ⟨hp, ho, ht⟩ := ih hp1 h2
    exact ⟨hp, by rw [ho, ho1, append_assoc, singleton_append], ht.trans ht1⟩

variable {o : Object}

theorem add_tidy {m : Manager} (h : Tidy m) (hnew : (m.byTag o.tag).isSome = false) : Tidy (m.add o) := by
  have hnone : m.byTag o.tag = none := by simpa using hnew
  refine ⟨⟨?_, ?_⟩, ?_⟩
  · intro tag x hx
    simp only [Manager.add] at hx ⊢
    split_ifs at hx with htag
    · cases hx
      exact ⟨by simp, htag.symm⟩
    · obtain ⟨hmem, hxt⟩ := h.finds.some tag x hx
      exact ⟨mem_append_left _ hmem, hxt⟩
  · intro tag hx
    simp only [Manager.add] at hx ⊢
    split_ifs at hx with htag
    have hnot := h.finds.none tag hx
    simp only [map_append, map_singleton, mem_append, mem_singleton, not_or]
    exact ⟨hnot, htag⟩
  · have hnot := h.finds.none o.tag hnone
    simpa [Manager.add] using List.Nodup.concat hnot h.nodup

theorem createEndpoint_objects (h : createEndpoint m o = .ok m') :
    m'.objects = m.objects ++ [o] ∧ m'.defaultTag = m.defaultTag := by
  unfold createEndpoint at h
  split_ifs at h
  cases h
  exact ⟨rfl, rfl⟩

theorem firstIsDefault_add {m : Manager} (hnot : ¬ m.takesDefault o = true) : FirstIsDefault (m.add o) := by
  intro hdefault htag
  have hd : m.default = none := hdefault
  have ht : m.defaultTag = "" := htag
  exact absurd (by simp [Manager.takesDefault, hd, ht]) hnot

theorem createOutbound_step (h : createOutbound m o = .ok m') :
    FirstIsDefault m' ∧ m'.objects = m.objects ++ [o] ∧ m'.defaultTag = m.defaultTag := by
  unfold createOutbound at h
  split_ifs at h with _ _ htakes
  · cases h
    exact ⟨fun hd => absurd hd (by simp), rfl, rfl⟩
  · cases h
    exact ⟨firstIsDefault_add htakes, rfl, rfl⟩

theorem registerFakeIP_keeps (htidy : Tidy m) (hfirst : FirstIsDefault m) (h : registerFakeIP m o = .ok m') :
    (Tidy m' ∧ FirstIsDefault m') ∧ m'.objects = m.objects ∧ m'.defaultTag = m.defaultTag := by
  unfold registerFakeIP at h
  split_ifs at h <;> cases h <;> exact ⟨⟨⟨htidy.finds, htidy.nodup⟩, hfirst⟩, rfl, rfl⟩

theorem createTransport_step (hm : Tidy m) (h : createTransport m o = .ok m') :
    (Tidy m' ∧ FirstIsDefault m') ∧ m'.objects = m.objects ++ [o] ∧ m'.defaultTag = m.defaultTag := by
  unfold createTransport at h
  split_ifs at h with _ hloaded htakes
  · have htidy : Tidy (m.add o) := add_tidy hm (by simpa using hloaded)
    have htidy' : Tidy { m.add o with default := some o } := ⟨htidy.finds, htidy.nodup⟩
    exact registerFakeIP_keeps htidy' (fun hnone => absurd hnone (by simp)) h
  · exact registerFakeIP_keeps (add_tidy hm (by simpa using hloaded)) (firstIsDefault_add htakes) h

/-! ## What is started -/

/-- **The objects that are started** are those of the configuration; the fallback is added when there is no outbound
and no tag for the default one -/
theorem outbounds_eq {c : Config} {members : List Object} (h : c.members = .ok members) :
    members = objects .outbound c.outbounds ++
      (if c.outbounds = [] ∧ c.final = "" then [fallbackOutbound] else []) ++ objects .endpoint c.endpoints := by
  obtain ⟨endpoints, he, h⟩ := bind_ok h
  obtain ⟨m, hm, h⟩ := bind_ok h
  obtain ⟨m', hinit, h⟩ := bind_ok h
  have heo : endpoints.objects = objects .endpoint c.endpoints := by
    have hrun := foldlM_create (P := fun _ => True) (fun _ _ _ _ hc => ⟨trivial, createEndpoint_objects hc⟩) trivial he
    exact hrun.2.1
  obtain ⟨hfirst, hmo, hmt⟩ := foldlM_create (P := FirstIsDefault) (fun _ _ _ _ hc => createOutbound_step hc)
    (fun _ _ => rfl) hm
  have hobjects : m.objects = objects .outbound c.outbounds := hmo
  have htag : m.defaultTag = c.final := hmt
  cases h
  rw [heo]
  congr 1
  unfold initializeOutbounds at hinit
  cases hdefault : m.default with
  | some d =>
    -- there is an outbound, or there would be no default one
    have hnonempty : ¬ (c.outbounds = [] ∧ c.final = "") := by
      intro hnone
      rw [hnone.1] at hm
      cases hm
      cases hdefault
    rw [hdefault] at hinit
    cases hinit
    rw [if_neg hnonempty, append_nil, hobjects]
  | none =>
    rw [hdefault] at hinit
    dsimp only at hinit
    by_cases hfinal : m.defaultTag = ""
    · have hempty : c.outbounds = [] := by
        have h := hfirst hdefault hfinal
        rw [hobjects] at h
        simpa [objects] using h
      rw [if_neg (not_not.2 hfinal)] at hinit
      cases hinit
      rw [if_pos ⟨hempty, htag ▸ hfinal⟩, ← hobjects]
      rfl
    · rw [if_pos hfinal] at hinit
      rw [if_neg (fun h => hfinal (htag.trans h.2)), append_nil, ← hobjects]
      cases hlook : endpoints.byTag m.defaultTag with
      | none =>
        rw [hlook] at hinit
        cases hinit
      | some e =>
        rw [hlook] at hinit
        cases hinit
        rfl

/-- **The servers that are started** agree with the table they are looked up in, and no tag is used twice -/
theorem transports_tidy {c : Config} {m : Manager} (h : c.transports = .ok m) : Tidy m := by
  obtain ⟨m', hm, hinit⟩ := bind_ok h
  have hnew : Tidy (newManager c.dnsFinal) := by
    refine ⟨⟨nofun, ?_⟩, nodup_nil⟩
    · intro tag _
      simp [newManager]
  obtain ⟨⟨htidy, hfirst⟩, -, -⟩ := foldlM_create (P := fun m => Tidy m ∧ FirstIsDefault m)
    (fun _ _ _ hp hc => createTransport_step hp.1 hc) ⟨hnew, fun _ _ => rfl⟩ hm
  unfold initializeTransports at hinit
  cases hdefault : m'.default with
  | some d =>
    rw [hdefault] at hinit
    cases hinit
    exact htidy
  | none =>
    rw [hdefault] at hinit
    split_ifs at hinit with hfinal
    cases hinit
    -- "local" is the only server, so that its tag is new
    have hempty : m'.objects = [] := hfirst hdefault (not_not.1 hfinal)
    have hfree : (m'.byTag fallbackTransport.tag).isSome = false := by
      cases hlook : m'.byTag fallbackTransport.tag with
      | none => rfl
      | some o =>
        have hmem := (htidy.finds.some _ o hlook).1
        rw [hempty] at hmem
        cases hmem
    have hadded := add_tidy htidy hfree
    exact ⟨hadded.finds, hadded.nodup⟩

theorem finds_find (members : List Object) : Finds (fun tag => members.find? fun o => o.tag = tag) members := by
  refine ⟨?_, ?_⟩
  · intro tag o ho
    have htag := List.find?_some ho
    exact ⟨mem_of_find?_eq_some ho, by simpa using htag⟩
  · intro tag hnone hmem
    obtain ⟨o, ho, hotag⟩ := mem_map.1 hmem
    have h := List.find?_eq_none.1 hnone o ho
    simp [hotag] at h

/-! ## The start -/

/-- the fallback outbound takes the tag of an endpoint: there is no outbound, no tag for the default one, and an
endpoint is called "direct" -/
def Clash (c : Config) : Prop := c.outbounds = [] ∧ c.final = "" ∧ "direct" ∈ tags c.endpoints

theorem nodup_iff_no_clash {c : Config} {members : List Object}
    (hchecked : checkOutbounds c.outbounds c.endpoints = .ok ()) (h : c.members = .ok members) :
    (members.map (·.tag)).Nodup ↔ ¬ Clash c := by
  have hnodup := nodup_of_check hchecked
  rw [outbounds_eq h]
  by_cases hfallback : c.outbounds = [] ∧ c.final = ""
  · rw [if_pos hfallback, hfallback.1]
    rw [hfallback.1] at hnodup
    have hmap : ((objects .outbound [] ++ [fallbackOutbound] ++ objects .endpoint c.endpoints).map (·.tag)) =
        "direct" :: tags c.endpoints := by
      simp [objects, fallbackOutbound, ← map_tag_objects .endpoint]
    rw [hmap, nodup_cons]
    unfold Clash
    tauto
  · rw [if_neg hfallback, append_nil, map_append, map_tag_objects, map_tag_objects]
    unfold Clash
    tauto

/-- **Dependency-ordered start** is correct, whatever the single starts answer, exactly when the fallback "direct" does not
take an endpoint's tag or some object cannot be brought up anyway. -/
theorem dependency_ordered_start (c : Config) (hchecked : checkOutbounds c.outbounds c.endpoints = .ok ()) :
    (∀ members, c.members = .ok members →
      ((∀ starts, Correct members starts (startOutbounds starts members)) ↔
        (Clash c → ∃ o ∈ members, ¬ Startable members o.tag))) ∧
    (∀ m, c.transports = .ok m → ∀ starts, Correct m.objects starts (startTransports starts m)) := by
  constructor
  · intro members h
    have hiff := correct_iff (finds_find members)
    rw [nodup_iff_no_clash hchecked h] at hiff
    rw [imp_iff_not_or]
    exact hiff
  · intro m h
    have htidy := transports_tidy h
    exact (correct_iff htidy.finds).2 (Or.inl htidy.nodup)

def sampleConfig : Config where
  outbounds := [⟨"vless", "proxy", ["hop"], true⟩, ⟨"socks", "hop", [], false⟩]
  endpoints := [⟨"wireguard", "direct", ["proxy"], true⟩]
  servers := [⟨"https", "remote", ["local"], true⟩, ⟨"local", "local", [], true⟩]
  final := ""
  dnsFinal := ""

theorem dependency_ordered_start_sample :
    checkOutbounds sampleConfig.outbounds sampleConfig.endpoints = .ok () ∧
      (∃ members, sampleConfig.members = .ok members ∧
        ∀ starts, Correct members starts (startOutbounds starts members)) ∧
      ∃ m, sampleConfig.transports = .ok m ∧ ∀ starts, Correct m.objects starts (startTransports starts m) := by
  have h := dependency_ordered_start sampleConfig rfl
  refine ⟨rfl, ⟨_, rfl, (h.1 _ rfl).2 ?_⟩, ⟨_, rfl, h.2 _ rfl⟩⟩
  intro hclash
  exact absurd hclash.1 (by decide)

def clashConfig : Config where
  outbounds := []
  endpoints := [⟨"wireguard", "direct", [], true⟩]
  servers := []
  final := ""
  dnsFinal := ""

/-- the fallback is started under the endpoint's tag; the endpoint never is, and the search for what stands in the way
calls a method of nil -/
theorem endpoint_direct_panics :
    checkOutbounds clashConfig.outbounds clashConfig.endpoints = .ok () ∧
      ∃ members, clashConfig.members = .ok members ∧
        startOutbounds (fun _ => none) members = (.panic, [fallbackOutbound]) ∧
        ¬ ∀ starts, Correct members starts (startOutbounds starts members) := by
  refine ⟨rfl, _, rfl, by decide +kernel, ?_⟩
  intro h
  exact (h fun _ => none).ends.2 (by decide +kernel)

end EtonifyCore.StartManagers
