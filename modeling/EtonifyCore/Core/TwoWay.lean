/-
Two-way maps with a write buffer.

An address has a name, and in each family a name has an address. `store` gives an address to a name and takes it from the
name that had it. `Inverse`: both directions agree.

A batch has the names of the addresses, and a mark (`tomb`) at the names that have lost theirs. Only the names are written, one
address after the other and in any order (`put`): a name that has lost its address is deleted when the address is written for
its new name, unless it has got another address meanwhile. `Fits`: how a batch of stores stands to what is below it.
-/
import Mathlib.Tactic

namespace EtonifyCore.Core

open List

structure TwoWay (A F D : Type*) where
  name : A → Option D
  addr : F → D → Option A

/-- addresses with their new names, and the new addresses of names -/
structure Batch (A F D : Type*) where
  entries : List (A × D) := []
  addr : F → D → Option A := fun _ _ => none

theorem update_update_apply {F D A : Type*} [DecidableEq F] [DecidableEq D] (g : F → D → A) (f f' : F) (d d' : D) (a : A) :
    Function.update g f (Function.update (g f) d a) f' d' = if f' = f ∧ d' = d then a else g f' d' := by
  by_cases hf : f' = f
  · subst hf
    by_cases hd : d' = d
    · subst hd
      simp
    · simp [hd]
  · simp [hf]

namespace TwoWay

variable {A F D : Type*}

@[ext] theorem ext {m m' : TwoWay A F D} (hname : ∀ a, m.name a = m'.name a) (haddr : ∀ f d, m.addr f d = m'.addr f d) :
    m = m' := by
  cases m
  cases m'
  congr
  · exact funext hname
  · exact funext fun f => funext (haddr f)

def empty : TwoWay A F D := ⟨fun _ => none, fun _ _ => none⟩

variable (family : A → F)

structure Inverse (m : TwoWay A F D) : Prop where
  addr : ∀ a d, m.name a = some d → m.addr (family a) d = some a
  name : ∀ f d a, m.addr f d = some a → family a = f ∧ m.name a = some d

theorem inverse_empty {family : A → F} : Inverse family (empty : TwoWay A F D) := ⟨nofun, nofun⟩

variable [DecidableEq F] [DecidableEq D]

def setAddr (m : TwoWay A F D) (f : F) (d : D) (a : Option A) : TwoWay A F D :=
  { m with addr := Function.update m.addr f (Function.update (m.addr f) d a) }

theorem addr_setAddr (m : TwoWay A F D) (f f' : F) (d d' : D) (a : Option A) :
    (m.setAddr f d a).addr f' d' = if f' = f ∧ d' = d then a else m.addr f' d' := update_update_apply ..

variable [DecidableEq A]

def setName (m : TwoWay A F D) (a : A) (d : D) : TwoWay A F D := { m with name := Function.update m.name a (some d) }

/-- the name that the address had has no address any more -/
def store (m : TwoWay A F D) (a : A) (d : D) : TwoWay A F D :=
  let m := match m.name a with
    | some old => m.setAddr (family a) old none
    | none => m
  (m.setName a d).setAddr (family a) d (some a)

/-- the same, but the name that the address had keeps another address -/
def put (m : TwoWay A F D) (a : A) (d : D) : TwoWay A F D :=
  let m := match m.name a with
    | some old => if m.addr (family a) old = some a then m.setAddr (family a) old none else m
    | none => m
  (m.setName a d).setAddr (family a) d (some a)

variable {family} {m : TwoWay A F D} {a : A} {d : D}

theorem name_store (a' : A) : (m.store family a d).name a' = if a' = a then some d else m.name a' := by
  unfold store
  cases m.name a <;> simp [setName, setAddr, Function.update_apply]

theorem addr_store (f : F) (d' : D) : (m.store family a d).addr f d' =
    if f = family a ∧ d' = d then some a else if f = family a ∧ m.name a = some d' then none else m.addr f d' := by
  unfold store
  cases m.name a with
  | none => simp [addr_setAddr, setName]
  | some old =>
    rw [addr_setAddr]
    congr 1
    change (m.setAddr (family a) old none).addr f d' = _
    rw [addr_setAddr]
    simp only [Option.some.injEq, eq_comm]

theorem name_put (a' : A) : (m.put family a d).name a' = if a' = a then some d else m.name a' := by
  unfold put
  cases m.name a with
  | none => simp [setName, setAddr, Function.update_apply]
  | some old =>
    dsimp only
    split_ifs <;> simp_all [setName, setAddr]

theorem addr_put (f : F) (d' : D) : (m.put family a d).addr f d' = if f = family a ∧ d' = d then some a
    else if f = family a ∧ m.name a = some d' ∧ m.addr f d' = some a then none else m.addr f d' := by
  unfold put
  rw [addr_setAddr]
  congr 1
  cases m.name a with
  | none => simp [setName]
  | some old =>
    dsimp only
    by_cases hold : m.addr (family a) old = some a
    · rw [if_pos hold]
      change (m.setAddr (family a) old none).addr f d' = _
      rw [addr_setAddr]
      by_cases heq : f = family a ∧ d' = old
      · obtain ⟨rfl, rfl⟩ := heq
        rw [if_pos ⟨rfl, rfl⟩, if_pos ⟨rfl, rfl, hold⟩]
      · rw [if_neg heq, if_neg]
        rintro ⟨hf, hd, -⟩
        exact heq ⟨hf, (Option.some.inj hd).symm⟩
    · rw [if_neg hold]
      change m.addr f d' = _
      rw [if_neg]
      rintro ⟨rfl, hd, haddr⟩
      rw [Option.some.inj hd] at hold
      exact hold haddr

theorem Inverse.store (h : Inverse family m) (hd : m.addr (family a) d = none) : Inverse family (m.store family a d) := by
  constructor
  · intro a' n hn
    rw [name_store] at hn
    rw [addr_store]
    split_ifs at hn with ha
    · subst ha
      rw [if_pos ⟨rfl, (Option.some.inj hn).symm⟩]
    · have hold := h.addr a' n hn
      rw [if_neg, if_neg, hold]
      · rintro ⟨hf, hname⟩
        have := h.addr a n hname
        rw [← hf, hold] at this
        exact ha (Option.some.inj this)
      · rintro ⟨hf, rfl⟩
        rw [hf, hd] at hold
        cases hold
  · intro f n a' hn
    rw [addr_store] at hn
    rw [name_store]
    split_ifs at hn with hnew hlost
    · obtain ⟨rfl, rfl⟩ := hnew
      obtain rfl := Option.some.inj hn
      exact ⟨rfl, if_pos rfl⟩
    · obtain ⟨hf, hname⟩ := h.name f n a' hn
      refine ⟨hf, ?_⟩
      rw [if_neg, hname]
      rintro rfl
      exact hlost ⟨hf.symm, hname⟩

end TwoWay

namespace Batch

variable {A F D : Type*} [DecidableEq A] (family : A → F) (tomb : A)

def lookup (b : Batch A F D) (a : A) : Option D := b.entries.lookup a

/-- what is seen of a map below a batch -/
def overlay (b : Batch A F D) (m : TwoWay A F D) : TwoWay A F D where
  name a := (b.lookup a).or (m.name a)
  addr f d := match b.addr f d with
    | some a => if a = tomb then none else some a
    | none => m.addr f d

variable {family tomb} {b : Batch A F D} {m : TwoWay A F D} {a : A} {d : D} {old : Option D}

theorem lookup_filter_ne {entries : List (A × D)} {a' : A} (h : a' ≠ a) :
    (entries.filter (·.1 ≠ a)).lookup a' = entries.lookup a' := by
  induction entries with
  | nil => rfl
  | cons entry entries ih =>
    by_cases ha : entry.1 = a
    · have hne : (a' == entry.1) = false := by
        rw [ha]
        simpa using h
      rw [filter_cons_of_neg (by simp [ha]), ih, lookup_cons, hne]
    · rw [filter_cons_of_pos (by simp [ha]), lookup_cons, lookup_cons, ih]

theorem lookup_of_mem (hkeys : (b.entries.map Prod.fst).Nodup) {entry : A × D} (h : entry ∈ b.entries) :
    b.lookup entry.1 = some entry.2 := by
  unfold lookup
  generalize b.entries = entries at hkeys h
  induction entries with
  | nil => cases h
  | cons first entries ih =>
    rw [map_cons, nodup_cons] at hkeys
    rw [lookup_cons]
    rcases mem_cons.1 h with rfl | hmem
    · simp
    · have hne : (entry.1 == first.1) = false := by
        rw [beq_eq_false_iff_ne]
        intro heq
        exact hkeys.1 (heq ▸ mem_map_of_mem hmem)
      rw [hne]
      exact ih hkeys.2 hmem

theorem mem_of_lookup (h : b.lookup a = some d) : (a, d) ∈ b.entries := by
  obtain ⟨before, after, heq, -⟩ := lookup_eq_some_iff.1 h
  rw [heq]
  simp

theorem addr_overlay (f : F) (d : D) : (b.overlay tomb m).addr f d = match b.addr f d with
    | some a => if a = tomb then none else some a
    | none => m.addr f d := rfl

theorem addr_overlay_of_some {f : F} (h : b.addr f d = some a) (ha : a ≠ tomb) :
    (b.overlay tomb m).addr f d = some a := by
  rw [addr_overlay, h]
  exact if_neg ha

theorem overlay_overlay : b.overlay tomb (b.overlay tomb m) = b.overlay tomb m := by
  apply TwoWay.ext
  · intro a
    change (b.lookup a).or ((b.lookup a).or (m.name a)) = (b.lookup a).or (m.name a)
    cases b.lookup a <;> rfl
  · intro f d
    simp only [addr_overlay]
    cases b.addr f d <;> rfl

variable (family tomb) in
structure Fits (m : TwoWay A F D) (b : Batch A F D) : Prop where
  keys : (b.entries.map Prod.fst).Nodup
  entry : ∀ a d, b.lookup a = some d → a ≠ tomb ∧ b.addr (family a) d = some a
  addr : ∀ f d a, b.addr f d = some a → a ≠ tomb → family a = f ∧ b.lookup a = some d
  /-- the name that an address of the batch has below is in the batch as well -/
  evicted : ∀ a d, m.name a = some d → b.lookup a ≠ none → b.addr (family a) d ≠ none
  /-- and the address that a marked name has below is in the batch -/
  buried : ∀ f d a, b.addr f d = some tomb → m.addr f d = some a → b.lookup a ≠ none

theorem fits_empty : Fits family tomb m {} := ⟨nodup_nil, nofun, nofun, fun _ _ _ h => absurd rfl h, nofun⟩

def written (b : Batch A F D) (m : TwoWay A F D) (done : List A) : TwoWay A F D where
  name a := if a ∈ done then b.lookup a else m.name a
  addr f d := ((b.addr f d).filter (· ∈ done)).or ((m.addr f d).filter (· ∉ done))

theorem written_nil : b.written m [] = m := by
  apply TwoWay.ext
  · intro a
    simp [written]
  · intro f d
    cases hb : b.addr f d <;> cases hm : m.addr f d <;> simp [written, hb, hm, Option.filter]

theorem filter_cons_done {done : List A} {x : Option A} (h : x ≠ some a) :
    x.filter (· ∈ a :: done) = x.filter (· ∈ done) ∧ x.filter (· ∉ a :: done) = x.filter (· ∉ done) := by
  cases x with
  | none => exact ⟨rfl, rfl⟩
  | some a' =>
    have hne : a' ≠ a := fun heq => h (congrArg some heq)
    simp [Option.filter, hne]

variable [DecidableEq F] [DecidableEq D]

def setAddr (b : Batch A F D) (f : F) (d : D) (a : A) : Batch A F D :=
  { b with addr := Function.update b.addr f (Function.update (b.addr f) d (some a)) }

omit [DecidableEq A] in
theorem addr_setAddr (b : Batch A F D) (f f' : F) (d d' : D) (a : A) :
    (b.setAddr f d a).addr f' d' = if f' = f ∧ d' = d then some a else b.addr f' d' := update_update_apply ..

variable (family tomb) in
/-- `old` is the name that the address had, as it is seen -/
def queue (b : Batch A F D) (old : Option D) (a : A) (d : D) : Batch A F D :=
  let b := match old with
    | some old => b.setAddr (family a) old tomb
    | none => b
  { b with entries := (a, d) :: b.entries.filter (·.1 ≠ a) }.setAddr (family a) d a

theorem lookup_queue (a' : A) : (b.queue family tomb old a d).lookup a' = if a' = a then some d else b.lookup a' := by
  have hentries : (b.queue family tomb old a d).entries = (a, d) :: b.entries.filter (·.1 ≠ a) := by
    cases old <;> rfl
  unfold lookup
  rw [hentries, lookup_cons]
  by_cases ha : a' = a
  · subst ha
    simp
  · rw [if_neg ha, show (a' == a) = false by simpa using ha]
    exact lookup_filter_ne ha

theorem addr_queue (f : F) (d' : D) : (b.queue family tomb old a d).addr f d' =
    if f = family a ∧ d' = d then some a else if f = family a ∧ old = some d' then some tomb else b.addr f d' := by
  unfold queue
  rw [addr_setAddr]
  cases old with
  | none => simp
  | some old =>
    congr 1
    rw [addr_setAddr]
    simp only [Option.some.injEq, eq_comm]

theorem overlay_queue (ha : a ≠ tomb) :
    (b.queue family tomb ((b.overlay tomb m).name a) a d).overlay tomb m = (b.overlay tomb m).store family a d := by
  apply TwoWay.ext
  · intro a'
    rw [TwoWay.name_store]
    change ((b.queue _ _ _ a d).lookup a').or (m.name a') = _
    rw [lookup_queue]
    split_ifs
    · rfl
    · rfl
  · intro f d'
    rw [TwoWay.addr_store, addr_overlay, addr_queue]
    split_ifs
    · exact if_neg ha
    · exact if_pos rfl
    · rfl

theorem Fits.queue (h : Fits family tomb m b) (hm : m.Inverse family) (hview : (b.overlay tomb m).Inverse family)
    (ha : a ≠ tomb) (hd : (b.overlay tomb m).addr (family a) d = none) :
    Fits family tomb m (b.queue family tomb ((b.overlay tomb m).name a) a d) := by
  constructor
  case keys =>
    have hentries : (b.queue family tomb ((b.overlay tomb m).name a) a d).entries =
        (a, d) :: b.entries.filter (·.1 ≠ a) := by
      unfold Batch.queue
      cases (b.overlay tomb m).name a <;> rfl
    rw [hentries, map_cons, nodup_cons]
    refine ⟨fun hmem => ?_, h.keys.sublist (filter_sublist.map _)⟩
    obtain ⟨entry, hentry, heq⟩ := mem_map.1 hmem
    exact of_decide_eq_true (mem_filter.1 hentry).2 heq
  case entry =>
    intro a' n hn
    rw [lookup_queue] at hn
    rw [addr_queue]
    split_ifs at hn with heq
    · subst heq
      exact ⟨ha, if_pos ⟨rfl, (Option.some.inj hn).symm⟩⟩
    · obtain ⟨hne, haddr⟩ := h.entry a' n hn
      have hseen : (b.overlay tomb m).addr (family a') n = some a' := addr_overlay_of_some haddr hne
      refine ⟨hne, ?_⟩
      rw [if_neg, if_neg, haddr]
      · rintro ⟨hf, hold⟩
        have := hview.addr a n hold
        rw [← hf, hseen] at this
        exact heq (Option.some.inj this)
      · rintro ⟨hf, rfl⟩
        rw [hf, hd] at hseen
        cases hseen
  case addr =>
    intro f n a' hn hne
    rw [addr_queue] at hn
    rw [lookup_queue]
    split_ifs at hn with hnew hlost
    · obtain ⟨rfl, rfl⟩ := hnew
      obtain rfl := Option.some.inj hn
      exact ⟨rfl, if_pos rfl⟩
    · exact absurd (Option.some.inj hn).symm hne
    · obtain ⟨hf, hlookup⟩ := h.addr f n a' hn hne
      refine ⟨hf, ?_⟩
      rw [if_neg, hlookup]
      rintro rfl
      refine hlost ⟨hf.symm, ?_⟩
      change (b.lookup a').or _ = some n
      rw [hlookup]
      rfl
  case evicted =>
    intro a' n hn hlookup
    rw [lookup_queue] at hlookup
    rw [addr_queue]
    split_ifs with hnew hlost
    · exact nofun
    · exact nofun
    · split_ifs at hlookup with heq
      · subst heq
        by_cases hold : b.lookup a' = none
        · refine absurd ⟨rfl, ?_⟩ hlost
          change (b.lookup a').or _ = some n
          rw [hold, hn]
          rfl
        · exact h.evicted a' n hn hold
      · exact h.evicted a' n hn hlookup
  case buried =>
    intro f n a' hn haddr
    rw [addr_queue] at hn
    rw [lookup_queue]
    split_ifs with heq
    · exact nofun
    · split_ifs at hn with hnew hlost
      · exact absurd (Option.some.inj hn) ha
      · -- the name is seen at `a`, so that what it has below is covered
        intro hnone
        obtain ⟨hf, hname⟩ := hm.name f n a' haddr
        have hseen : (b.overlay tomb m).name a' = some n := by
          change (b.lookup a').or _ = some n
          rw [hnone, hname]
          rfl
        have h1 := hview.addr a' n hseen
        have h2 := hview.addr a n hlost.2
        rw [hf, hlost.1, h2] at h1
        exact heq (Option.some.inj h1).symm
      · exact h.buried f n a' hn haddr

/-! ## Writing a batch -/

theorem put_written (h : Fits family tomb m b) (hm : m.Inverse family) {done : List A} (ha : a ∉ done)
    (hd : b.lookup a = some d) : (b.written m done).put family a d = b.written m (a :: done) := by
  obtain ⟨hne, hown⟩ := h.entry a d hd
  -- only the new name has the address in the batch, only the old one below
  have hbatch : ∀ f n, ¬ (f = family a ∧ n = d) → b.addr f n ≠ some a := by
    intro f n hn haddr
    obtain ⟨hf, hlookup⟩ := h.addr f n a haddr hne
    rw [hd] at hlookup
    exact hn ⟨hf.symm, (Option.some.inj hlookup).symm⟩
  have hbelow : ∀ f n, ¬ (f = family a ∧ m.name a = some n) → m.addr f n ≠ some a := by
    intro f n hn haddr
    obtain ⟨hf, hname⟩ := hm.name f n a haddr
    exact hn ⟨hf.symm, hname⟩
  have hname : (b.written m done).name a = m.name a := if_neg ha
  apply TwoWay.ext
  · intro a'
    rw [TwoWay.name_put]
    by_cases heq : a' = a
    · subst heq
      rw [if_pos rfl]
      exact (hd.symm.trans (if_pos mem_cons_self).symm)
    · rw [if_neg heq]
      change (if a' ∈ done then _ else _) = if a' ∈ a :: done then _ else _
      simp [heq]
  · intro f n
    rw [TwoWay.addr_put, hname]
    change _ = ((b.addr f n).filter (· ∈ a :: done)).or ((m.addr f n).filter (· ∉ a :: done))
    by_cases hnew : f = family a ∧ n = d
    · obtain ⟨rfl, rfl⟩ := hnew
      rw [if_pos ⟨rfl, rfl⟩, hown]
      simp [Option.filter]
    rw [if_neg hnew, (filter_cons_done (hbatch f n hnew)).1]
    by_cases hold : f = family a ∧ m.name a = some n
    · -- the old name: it is deleted, unless it was written before with another address
      obtain ⟨rfl, hn⟩ := hold
      have hbelow' : (m.addr (family a) n).filter (· ∉ a :: done) = none := by
        rw [hm.addr a n hn]
        simp [Option.filter]
      have haddr : (b.written m done).addr (family a) n = ((b.addr (family a) n).filter (· ∈ done)).or (some a) := by
        have hkept : (m.addr (family a) n).filter (· ∉ done) = some a := by
          rw [hm.addr a n hn]
          simp [Option.filter, ha]
        rw [← hkept]
        rfl
      rw [hbelow', haddr]
      cases hfilter : (b.addr (family a) n).filter (· ∈ done) with
      | none =>
        rw [if_pos ⟨rfl, hn, rfl⟩]
        rfl
      | some x =>
        have hx : x ≠ a := by
          rintro rfl
          have := (Option.filter_eq_some_iff.1 hfilter).2
          exact ha (of_decide_eq_true this)
        rw [if_neg]
        · rfl
        · rintro ⟨-, -, heq⟩
          exact hx (Option.some.inj heq)
    · rw [if_neg fun hthree => hold ⟨hthree.1, hthree.2.1⟩, (filter_cons_done (hbelow f n hold)).2]
      rfl

theorem foldl_put_written (h : Fits family tomb m b) (hm : m.Inverse family) :
    ∀ (entries : List (A × D)) (done : List A), (∀ entry ∈ entries, b.lookup entry.1 = some entry.2) →
      (entries.map Prod.fst).Nodup → (∀ entry ∈ entries, entry.1 ∉ done) →
      entries.foldl (fun m entry => m.put family entry.1 entry.2) (b.written m done) =
        b.written m ((entries.map Prod.fst).reverse ++ done) := by
  intro entries
  induction entries with
  | nil => intro done _ _ _; rfl
  | cons entry entries ih =>
    intro done hlookup hnodup hdone
    rw [map_cons, nodup_cons] at hnodup
    rw [foldl_cons, put_written h hm (hdone entry mem_cons_self) (hlookup entry mem_cons_self),
      ih (entry.1 :: done) (fun e he => hlookup e (mem_cons_of_mem _ he)) hnodup.2]
    · simp
    · intro e he hmem
      rcases mem_cons.1 hmem with heq | hold
      · exact hnodup.1 (heq ▸ mem_map_of_mem he)
      · exact hdone e (mem_cons_of_mem _ he) hold

/-- **A batch is written in any order.** What is below is then what was seen. -/
theorem foldl_put (h : Fits family tomb m b) (hm : m.Inverse family) {entries : List (A × D)}
    (hperm : entries.Perm b.entries) :
    entries.foldl (fun m entry => m.put family entry.1 entry.2) m = b.overlay tomb m := by
  have hlookup : ∀ entry ∈ entries, b.lookup entry.1 = some entry.2 := fun entry hentry =>
    lookup_of_mem h.keys (hperm.mem_iff.1 hentry)
  have hnodup : (entries.map Prod.fst).Nodup := (hperm.map Prod.fst).nodup_iff.2 h.keys
  have hfold := foldl_put_written h hm entries [] hlookup hnodup fun _ _ => not_mem_nil
  rw [written_nil, append_nil] at hfold
  rw [hfold]
  have hmem : ∀ a, a ∈ (entries.map Prod.fst).reverse ↔ b.lookup a ≠ none := by
    intro a
    rw [mem_reverse, (hperm.map Prod.fst).mem_iff]
    constructor
    · intro ha
      obtain ⟨entry, hentry, rfl⟩ := mem_map.1 ha
      rw [lookup_of_mem h.keys hentry]
      exact nofun
    · intro ha
      obtain ⟨d, hd⟩ := Option.ne_none_iff_exists'.1 ha
      exact mem_map_of_mem (mem_of_lookup hd)
  generalize (entries.map Prod.fst).reverse = done at hmem
  apply TwoWay.ext
  · intro a
    change (if a ∈ done then _ else _) = (b.lookup a).or (m.name a)
    by_cases ha : a ∈ done
    · rw [if_pos ha]
      obtain ⟨d, hd⟩ := Option.ne_none_iff_exists'.1 ((hmem a).1 ha)
      rw [hd]
      rfl
    · rw [if_neg ha, not_not.1 fun hne => ha ((hmem a).2 hne)]
      rfl
  · intro f d
    rw [addr_overlay]
    change ((b.addr f d).filter (· ∈ done)).or ((m.addr f d).filter (· ∉ done)) = _
    cases hb : b.addr f d with
    | some a =>
      by_cases ha : a = tomb
      · -- the name has lost its address, and what it had below is written for another name
        subst ha
        have hgone : a ∉ done := fun hmem' => by
          obtain ⟨n, hn⟩ := Option.ne_none_iff_exists'.1 ((hmem a).1 hmem')
          exact (h.entry a n hn).1 rfl
        have hbelow : (m.addr f d).filter (· ∉ done) = none := by
          cases hm' : m.addr f d with
          | none => rfl
          | some a' => simp [Option.filter, (hmem a').2 (h.buried f d a' hb hm')]
        rw [hbelow]
        simp [Option.filter, hgone]
      · have hdone : a ∈ done := (hmem a).2 (by rw [(h.addr f d a hb ha).2]; exact nofun)
        simp [Option.filter, hdone, ha]
    | none =>
      cases hm' : m.addr f d with
      | none => rfl
      | some a =>
        have hkept : a ∉ done := fun hmem' => by
          obtain ⟨hf, hname⟩ := hm.name f d a hm'
          exact h.evicted a d hname ((hmem a).1 hmem') (hf ▸ hb)
        simp [Option.filter, hkept]

end Batch

end EtonifyCore.Core
