/-
Bounds of a mapped rule-set (`common/srs/mmap.go`): what `ReadMmap` slices out of the file.

The number of blobs times 24 may wrap. Then the table of blobs is shorter than the check of an index allows, and the slice of
an entry is out of range if the rules ask for it (`wrapped_count_panics`). All other slices are in range
(`readMmap_in_bounds_iff`).

Model: a file is its bytes, on a little-endian machine. `requests` reads the rules section as `readRule` does, and gives the
blobs that it asks for, in their order. Parameters: `other` is how many bytes an item takes that asks for no blob (strings,
ports, prefixes), or that it cannot be read; `builds` is whether a matcher or an IP set can be built from a blob. Left out:
the errors of the rules behind the last request, and the use of the arrays.
-/
import Mathlib.Tactic

namespace EtonifyCore.RuleSet

/-! ## Model -/

abbrev Bytes := List UInt8

/-- a mapped file -/
structure File where
  length : ℕ
  byte : ℕ → UInt8
  length_lt : length < 2 ^ 63

namespace File

variable (f : File)

/-- `NativeEndian.Uint64` -/
def word (i : ℕ) : ℕ := ((List.range 8).map fun k => (f.byte (i + k)).toNat * 256 ^ k).sum

def bytes (offset length : ℕ) : Bytes := (List.range length).map fun k => f.byte (offset + k)

/-- the magic bytes and the format version are right -/
def signed : Bool := f.bytes 0 8 == [0x53, 0x52, 0x53, 0x4D, 1, 0, 0, 0]

def rulesLength : ℕ := f.word 16

def blobTableOffset : ℕ := f.word 24

def blobCount : ℕ := f.word 32

end File

structure Section where
  offset : ℕ
  length : ℕ
deriving DecidableEq

inductive Read (α : Type) where
  | ok (a : α)
  | error
  | panic
deriving DecidableEq

def Read.bind {α β : Type} : Read α → (α → Read β) → Read β
  | .ok a, k => k a
  | .error, _ => .error
  | .panic, _ => .panic

instance : Monad Read where
  pure := .ok
  bind := .bind

def Section.drop (s : Section) (i : ℕ) : Read Section :=
  if i ≤ s.length then .ok ⟨s.offset + i, s.length - i⟩ else .panic

def Section.uint64 (f : File) (s : Section) (i : ℕ) : Read ℕ :=
  if i + 8 ≤ s.length then .ok (f.word (s.offset + i)) else .panic

def mmapSection (f : File) (offset length : ℕ) : Read Section :=
  if offset % 8 ≠ 0 ∨ offset > f.length ∨ length > f.length - offset then .error
  else
    let stop := (offset + length) % 2 ^ 64
    if offset ≤ stop ∧ stop ≤ f.length then .ok ⟨offset, stop - offset⟩ else .panic

def alignMmapOffset (offset : ℕ) : ℕ := (offset + 7) % 2 ^ 64 / 8 * 8

/-- `mmapArray` for elements of `size` bytes: the array must lie in the section -/
def mmapArray (size : ℕ) (s : Section) (count : ℕ) : Read Section :=
  let length := alignMmapOffset (count * size % 2 ^ 64)
  if count > s.length / size then .error
  else if length > s.length then .error
  else if s.length < count * size then .panic
  else s.drop length

def mmapBlobEntrySize : ℕ := 24

inductive Kind where
  | succinct
  | ipSet

def Kind.code : Kind → ℕ
  | .succinct => 1
  | .ipSet => 2

def blob (f : File) (blobTable : Section) (blobCount : ℕ) (kind : Kind) (index : ℕ) : Read Section :=
  if index ≥ blobCount then .error
  else do
    let entry ← blobTable.drop (index * mmapBlobEntrySize % 2 ^ 64)
    if (← entry.uint64 f 0) ≠ kind.code then .error
    else mmapSection f (← entry.uint64 f 8) (← entry.uint64 f 16)

/-- the arrays of a blob, one behind the other, with the sizes of their elements; the counts stand in front -/
def arrays (f : File) (b : Section) : ℕ → List ℕ → Section → Read Section
  | _, [], cursor => .ok cursor
  | i, size :: sizes, cursor => do
    let count ← b.uint64 f i
    arrays f b (i + 8) sizes (← mmapArray size cursor count)

def Kind.sizes : Kind → List ℕ
  | .succinct => [8, 8, 1, 4, 4]
  | .ipSet => [8, 32]

def readBlob (f : File) (blobTable : Section) (blobCount : ℕ) (kind : Kind) (index : ℕ) : Read Section := do
  let b ← blob f blobTable blobCount kind index
  let head := 8 * kind.sizes.length
  if b.length < head then .error
  else arrays f b 0 kind.sizes (← b.drop head)

/-! ## The rules -/

/-- `ReadUvarint` from byte `i` on, with what the bytes before give -/
def readUvarint (i x : ℕ) : Bytes → Option (ℕ × Bytes)
  | [] => none
  | b :: rest =>
    if i = 10 then none
    else if b < 0x80 then if i = 9 ∧ b > 1 then none else some (x + b.toNat * 128 ^ i, rest)
    else readUvarint (i + 1) (x + (b.toNat - 128) * 128 ^ i) rest

theorem readUvarint_length {i x value : ℕ} {bytes rest : Bytes} (h : readUvarint i x bytes = some (value, rest)) :
    rest.length < bytes.length := by
  induction bytes generalizing i x with
  | nil => cases h
  | cons b bytes ih =>
    rw [readUvarint] at h
    split_ifs at h
    · cases h
      exact Nat.lt_succ_self _
    · exact (ih h).trans (Nat.lt_succ_self _)

/-- the items of a rule that ask for a blob -/
inductive Item where
  | domain
  | sourceIPCIDR
  | ipCIDR
  | adGuardDomain

def Item.kind : Item → Kind
  | .domain | .adGuardDomain => .succinct
  | .sourceIPCIDR | .ipCIDR => .ipSet

def Item.ofType (itemType : UInt8) : Option Item :=
  if itemType = 2 then some .domain
  else if itemType = 5 then some .sourceIPCIDR
  else if itemType = 6 then some .ipCIDR
  else if itemType = 16 then some .adGuardDomain
  else none

def ruleItemFinal : UInt8 := 0xFF

def maxLogicalRuleDepth : ℕ := 100

section

variable (other : UInt8 → Bytes → Option ℕ)

/-- `readRule`, `readDefaultRule` and `readLogicalRule`: `inside` a default rule or between rules, with the numbers of rules
that are still to be read of the logical rules around, the innermost first -/
def readRules (inside : Bool) (levels : List ℕ) (bytes : Bytes) : List (Item × ℕ) :=
  match inside, levels, bytes with
  | true, _, [] => []
  | true, around, itemType :: rest =>
    match Item.ofType itemType with
    | some item =>
      match h : readUvarint 0 0 rest with
      | none => []
      | some (index, rest') =>
        have := readUvarint_length h
        (item, index) :: readRules true around rest'
    | none =>
      if itemType = ruleItemFinal then
        match rest with
        | [] => []
        | _invert :: rest => readRules false around rest
      else
        match other itemType rest with
        | none => []
        | some n => readRules true around (rest.drop n)
  | false, [], _ => []
  | false, [0], _ => []
  | false, 0 :: _ :: _, [] => []
  | false, 0 :: count :: around, _invert :: rest => readRules false (count :: around) rest
  | false, (_ + 1) :: _, [] => []
  | false, (count + 1) :: around, ruleType :: rest =>
    if around.length > maxLogicalRuleDepth then []
    else if ruleType = 0 then readRules true (count :: around) rest
    else if ruleType = 1 then
      match rest with
      | [] => []
      | mode :: rest =>
        if mode ≤ 1 then
          match h : readUvarint 0 0 rest with
          | none => []
          | some (length, rest') =>
            have := readUvarint_length h
            readRules false (length :: count :: around) rest'
        else []
    else []
termination_by bytes.length
decreasing_by all_goals (simp only [List.length_cons, List.length_drop]; omega)

/-- the blobs that the rules ask for -/
def requests (rules : Bytes) : List (Item × ℕ) :=
  match readUvarint 0 0 rules with
  | none => []
  | some (length, rest) => readRules other false [length] rest

end

section

variable (other : UInt8 → Bytes → Option ℕ) (builds : Item → ℕ → Bool)

def readItems (f : File) (blobTable : Section) : List (Item × ℕ) → Read Unit
  | [] => .ok ()
  | (item, index) :: items => do
    let _ ← readBlob f blobTable f.blobCount item.kind index
    if builds item index then readItems f blobTable items else .error

def readMmap (f : File) : Read Unit :=
  if f.length < 40 ∨ f.signed = false then .error
  else do
    let rules ← mmapSection f 40 f.rulesLength
    let blobTable ← mmapSection f f.blobTableOffset (f.blobCount * mmapBlobEntrySize % 2 ^ 64)
    readItems builds f blobTable (requests other (f.bytes rules.offset rules.length))

end

/-! ## Slices -/

variable {f : File} {s b blobTable : Section} {α β : Type}

@[simp] theorem ok_bind (a : α) (k : α → Read β) : (Read.ok a >>= k) = k a := rfl

@[simp] theorem error_bind (k : α → Read β) : (Read.error >>= k) = .error := rfl

@[simp] theorem panic_bind (k : α → Read β) : (Read.panic >>= k) = .panic := rfl

theorem bind_ne_panic {x : Read α} {k : α → Read β} (hx : x ≠ .panic) (hk : ∀ a, x = .ok a → k a ≠ .panic) :
    (x >>= k) ≠ .panic := by
  cases x with
  | ok a => exact hk a rfl
  | error => exact nofun
  | panic => exact absurd rfl hx

theorem mmapSection_eq (f : File) (offset length : ℕ) : mmapSection f offset length = .error ∨
    mmapSection f offset length = .ok ⟨offset, length⟩ ∧ offset + length ≤ f.length := by
  unfold mmapSection
  split_ifs
  · exact .inl rfl
  · have hlt := f.length_lt
    have hstop : (offset + length) % 2 ^ 64 = offset + length := Nat.mod_eq_of_lt (by omega)
    rw [hstop, if_pos (by omega), Nat.add_sub_cancel_left]
    exact .inr ⟨rfl, by omega⟩

theorem mmapSection_ne_panic (f : File) (offset length : ℕ) : mmapSection f offset length ≠ .panic := by
  rcases mmapSection_eq f offset length with h | ⟨h, -⟩ <;> rw [h] <;> exact nofun

theorem mmapArray_ne_panic (size : ℕ) (s : Section) (count : ℕ) : mmapArray size s count ≠ .panic := by
  unfold mmapArray Section.drop
  dsimp only
  split_ifs with hcount _ hin hdrop
  · exact nofun
  · exact nofun
  · have hle := Nat.div_mul_le_self s.length size
    have hmul := Nat.mul_le_mul_right size (Nat.le_of_not_lt hcount)
    omega
  · exact nofun
  · omega

theorem arrays_ne_panic (sizes : List ℕ) (i : ℕ) (cursor : Section) (h : i + 8 * sizes.length ≤ b.length) :
    arrays f b i sizes cursor ≠ .panic := by
  induction sizes generalizing i cursor with
  | nil => exact nofun
  | cons size sizes ih =>
    rw [List.length_cons] at h
    refine bind_ne_panic ?_ fun count _ => bind_ne_panic (mmapArray_ne_panic _ _ _) fun rest _ => ih _ rest (by omega)
    rw [Section.uint64, if_pos (by omega)]
    exact nofun

/-- the entry of a blob is in the table, as far as `blob` reads it -/
def EntryIn (f : File) (blobTable : Section) (kind : Kind) (index : ℕ) : Prop :=
  let place := index * mmapBlobEntrySize % 2 ^ 64
  place + 8 ≤ blobTable.length ∧
    (f.word (blobTable.offset + place) = kind.code → place + mmapBlobEntrySize ≤ blobTable.length)

theorem uint64_eq (f : File) (s : Section) (i : ℕ) :
    s.uint64 f i = .ok (f.word (s.offset + i)) ∧ i + 8 ≤ s.length ∨ s.uint64 f i = .panic ∧ ¬i + 8 ≤ s.length := by
  rw [Section.uint64]
  split_ifs with h
  · exact .inl ⟨rfl, h⟩
  · exact .inr ⟨rfl, h⟩

theorem blob_ne_panic_iff (blobCount : ℕ) (kind : Kind) (index : ℕ) :
    blob f blobTable blobCount kind index ≠ .panic ↔ (index < blobCount → EntryIn f blobTable kind index) := by
  rw [blob, EntryIn]
  by_cases hindex : index ≥ blobCount
  · rw [if_pos hindex]
    exact iff_of_true nofun fun hlt => absurd hlt (Nat.not_lt_of_le hindex)
  rw [if_neg hindex, forall_prop_of_true (Nat.lt_of_not_le hindex), mmapBlobEntrySize]
  generalize index * 24 % 2 ^ 64 = place
  by_cases hplace : place ≤ blobTable.length
  swap
  · rw [Section.drop, if_neg hplace, panic_bind]
    exact iff_of_false (fun h => h rfl) fun h => hplace ((Nat.le_add_right _ _).trans h.1)
  rw [Section.drop, if_pos hplace, ok_bind]
  rcases uint64_eq f ⟨blobTable.offset + place, blobTable.length - place⟩ 0 with ⟨hcode, hin⟩ | ⟨hcode, hout⟩
  swap
  · rw [hcode, panic_bind]
    exact iff_of_false (fun h => h rfl) fun h => hout (by dsimp only; omega)
  rw [hcode, ok_bind, Nat.add_zero]
  dsimp only at hin
  by_cases hkind : f.word (blobTable.offset + place) = kind.code
  swap
  · rw [if_pos hkind]
    exact iff_of_true nofun ⟨by omega, fun h => absurd h hkind⟩
  rw [if_neg (not_not.2 hkind), forall_prop_of_true hkind]
  rcases uint64_eq f ⟨blobTable.offset + place, blobTable.length - place⟩ 8 with ⟨hoffset, -⟩ | ⟨hoffset, hout⟩
  swap
  · rw [hoffset, panic_bind]
    exact iff_of_false (fun h => h rfl) fun h => hout (by dsimp only; omega)
  rcases uint64_eq f ⟨blobTable.offset + place, blobTable.length - place⟩ 16 with ⟨hlength, hlast⟩ | ⟨hlength, hout⟩
  swap
  · rw [hoffset, ok_bind, hlength, panic_bind]
    exact iff_of_false (fun h => h rfl) fun h => hout (by dsimp only; omega)
  rw [hoffset, ok_bind, hlength, ok_bind]
  dsimp only at hlast
  exact iff_of_true (mmapSection_ne_panic f _ _) ⟨by omega, by omega⟩

theorem readBlob_ne_panic_iff (blobCount : ℕ) (kind : Kind) (index : ℕ) :
    readBlob f blobTable blobCount kind index ≠ .panic ↔ (index < blobCount → EntryIn f blobTable kind index) := by
  rw [← blob_ne_panic_iff]
  constructor
  · intro h hblob
    refine h ?_
    rw [readBlob, hblob]
    rfl
  · refine fun h => bind_ne_panic h fun b _ => ?_
    dsimp only
    split_ifs
    · exact nofun
    · refine bind_ne_panic ?_ fun cursor _ => arrays_ne_panic _ _ _ (by omega)
      rw [Section.drop, if_pos (by omega)]
      exact nofun

/-! ## Requests -/

variable {other : UInt8 → Bytes → Option ℕ} {builds : Item → ℕ → Bool}

/-- an entry that is read, with all requests before it answered, is in the table -/
def EntriesIn (builds : Item → ℕ → Bool) (f : File) (blobTable : Section) (items : List (Item × ℕ)) : Prop :=
  ∀ before item index behind, items = before ++ (item, index) :: behind → readItems builds f blobTable before = .ok () →
    index < f.blobCount → EntryIn f blobTable item.kind index

theorem readItems_cons {item : Item} {index : ℕ} {items : List (Item × ℕ)} {cursor : Section}
    (hblob : readBlob f blobTable f.blobCount item.kind index = .ok cursor) :
    readItems builds f blobTable ((item, index) :: items) =
      if builds item index then readItems builds f blobTable items else .error := by
  rw [readItems, hblob]
  rfl

theorem readItems_ne_panic_iff (items : List (Item × ℕ)) :
    readItems builds f blobTable items ≠ .panic ↔ EntriesIn builds f blobTable items := by
  induction items with
  | nil =>
    refine iff_of_true nofun fun before item index behind heq => ?_
    cases before <;> cases heq
  | cons request items ih =>
    obtain ⟨item, index⟩ := request
    constructor
    · rintro h (_ | ⟨_, before⟩) item' index' behind heq hbefore
      · cases heq
        refine (readBlob_ne_panic_iff _ _ _).1 fun hpanic => h ?_
        rw [readItems, hpanic]
        rfl
      · cases heq
        -- the first blob was read, and the others follow
        cases hblob : readBlob f blobTable f.blobCount item.kind index with
        | ok cursor =>
          rw [readItems_cons hblob] at h hbefore
          split_ifs at h hbefore with hbuilds
          exact ih.1 h before item' index' behind rfl hbefore
        | error | panic =>
          rw [readItems, hblob] at hbefore
          cases hbefore
    · intro h
      refine bind_ne_panic ((readBlob_ne_panic_iff _ _ _).2 (h [] item index items rfl rfl)) fun cursor hblob => ?_
      split_ifs with hbuilds
      · refine ih.2 fun before item' index' behind heq hbefore => ?_
        refine h ((item, index) :: before) item' index' behind (by rw [heq]; rfl) ?_
        rw [readItems_cons hblob, if_pos hbuilds]
        exact hbefore
      · exact nofun

theorem entryIn_of_fits {kind : Kind} {index : ℕ} (hfits : f.blobCount * mmapBlobEntrySize < 2 ^ 64)
    (hlength : blobTable.length = f.blobCount * mmapBlobEntrySize) (hindex : index < f.blobCount) :
    EntryIn f blobTable kind index := by
  simp only [EntryIn, mmapBlobEntrySize] at *
  rw [Nat.mod_eq_of_lt (by omega)]
  omega

/-! ## Main result -/

/-- the file is not read as far as its rules -/
def Refused (f : File) : Prop :=
  f.length < 40 ∨ f.signed = false ∨ mmapSection f 40 f.rulesLength = .error ∨
    mmapSection f f.blobTableOffset (f.blobCount * mmapBlobEntrySize % 2 ^ 64) = .error

theorem readMmap_of_not_refused (h : ¬Refused f) :
    readMmap other builds f = readItems builds f ⟨f.blobTableOffset, f.blobCount * mmapBlobEntrySize % 2 ^ 64⟩
      (requests other (f.bytes 40 f.rulesLength)) := by
  simp only [Refused, not_or] at h
  obtain ⟨hlength, hsigned, hrules, htable⟩ := h
  have hrules' := ((mmapSection_eq f 40 f.rulesLength).resolve_left hrules).1
  have htable' := ((mmapSection_eq f f.blobTableOffset _).resolve_left htable).1
  rw [readMmap, if_neg (not_or.2 ⟨hlength, hsigned⟩), hrules', ok_bind, htable', ok_bind]

theorem readMmap_of_refused (h : Refused f) : readMmap other builds f = .error := by
  rw [readMmap]
  split_ifs with hhead
  · rfl
  rcases h with h | h | h | h
  · exact absurd (.inl h) hhead
  · exact absurd (.inr h) hhead
  · rw [h, error_bind]
  · rcases mmapSection_eq f 40 f.rulesLength with hrules | ⟨hrules, -⟩
    · rw [hrules, error_bind]
    · rw [hrules, ok_bind, h, error_bind]

/-- **Slices are in range** if and only if the file is refused before its rules are read, or every entry that the rules ask
for is in the table of blobs. This is so whenever the size of the table does not wrap. -/
theorem readMmap_in_bounds_iff (other : UInt8 → Bytes → Option ℕ) (builds : Item → ℕ → Bool) (f : File) :
    (readMmap other builds f ≠ .panic ↔ Refused f ∨
      EntriesIn builds f ⟨f.blobTableOffset, f.blobCount * mmapBlobEntrySize % 2 ^ 64⟩
        (requests other (f.bytes 40 f.rulesLength))) ∧
    (f.blobCount * mmapBlobEntrySize < 2 ^ 64 → readMmap other builds f ≠ .panic) := by
  by_cases hrefused : Refused f
  · have hne : readMmap other builds f ≠ .panic := by
      rw [readMmap_of_refused hrefused]
      exact nofun
    exact ⟨iff_of_true hne (.inl hrefused), fun _ => hne⟩
  rw [readMmap_of_not_refused hrefused, readItems_ne_panic_iff]
  refine ⟨⟨.inr, fun h => h.resolve_left hrefused⟩, fun hfits before item index behind _ _ hindex => ?_⟩
  exact entryIn_of_fits hfits (Nat.mod_eq_of_lt hfits) hindex

/-- a header, one rule with an IP set and four bytes of padding; `2 ^ 61` blobs, so that the size of the table wraps to 0 -/
def wrappedBytes : Bytes :=
  [0x53, 0x52, 0x53, 0x4D, 1, 0, 0, 0, 3, 0, 0, 0, 0, 0, 0, 0, 4, 0, 0, 0, 0, 0, 0, 0, 48, 0, 0, 0, 0, 0, 0, 0,
    0, 0, 0, 0, 0, 0, 0, 0x20, 1, 0, 6, 0, 0, 0, 0, 0]

def wrappedFile : File where
  length := 48
  byte i := wrappedBytes.getD i 0
  length_lt := by decide

/-- The rule of the file asks for blob 0, whose entry is behind the end of the table. -/
theorem wrapped_count_panics : readMmap (fun _ _ => none) (fun _ _ => true) wrappedFile = .panic := by
  have hcount : wrappedFile.blobCount = 2 ^ 61 := by decide +kernel
  have hrules : mmapSection wrappedFile 40 wrappedFile.rulesLength = .ok ⟨40, 4⟩ := by decide +kernel
  have htable : mmapSection wrappedFile wrappedFile.blobTableOffset (2 ^ 61 * mmapBlobEntrySize % 2 ^ 64) = .ok ⟨48, 0⟩ := by
    decide +kernel
  have hbytes : wrappedFile.bytes 40 4 = [1, 0, 6, 0] := by decide +kernel
  have hrequests : requests (fun _ _ => none) [1, 0, 6, 0] = [(.ipCIDR, 0)] := by
    have hlength : readUvarint 0 0 [1, 0, 6, 0] = some (1, [0, 6, 0]) := by decide +kernel
    have hindex : readUvarint 0 0 [0] = some (0, []) := by decide +kernel
    rw [requests, hlength]
    simp [readRules, Item.ofType, maxLogicalRuleDepth]
    split
    · rename_i hread
      cases hread.symm.trans hindex
    · rename_i hread
      cases hread.symm.trans hindex
      rw [readRules]
  have hblob : readBlob wrappedFile ⟨48, 0⟩ (2 ^ 61) .ipSet 0 = .panic := by decide +kernel
  have hhead : ¬(wrappedFile.length < 40 ∨ wrappedFile.signed = false) := by decide +kernel
  rw [readMmap, if_neg hhead, hrules, ok_bind, hcount, htable, ok_bind, hbytes, hrequests, readItems, hcount]
  exact congrArg (· >>= _) hblob

end EtonifyCore.RuleSet
