/-
The DNS responses of the cache file: a write buffer over a database with a bucket for each transport name.

`accepts` says which entries the database takes; one that it refuses makes the whole transaction fail. `Filed.load`: a loaded
value was queued under the same key, through any number of flushes, failed or not.
-/
import EtonifyCore.Core.WriteBuffer

namespace EtonifyCore.CacheFile

open Function
open Core (WriteBuffer)

structure SaveCacheKey where
  transportName : String
  questionName : String
  qType : ℕ
deriving DecidableEq, Repr

def SaveCacheKey.keyBytes (k : SaveCacheKey) : List UInt8 :=
  UInt8.ofNat (k.qType / 256) :: UInt8.ofNat k.qType :: k.questionName.toByteArray.data.toList

variable {V : Type*}

abbrev Buckets (V : Type*) := String → List UInt8 → Option V

def putCacheEntry (accepts : SaveCacheKey → Bool) (disk : Buckets V) (k : SaveCacheKey) (v : V) : Option (Buckets V) :=
  if accepts k then
    some (Function.update disk k.transportName (Function.update (disk k.transportName) k.keyBytes (some v)))
  else none

def getCacheEntry (disk : Buckets V) (k : SaveCacheKey) : Option V := disk k.transportName k.keyBytes

abbrev DNSCache (V : Type*) := WriteBuffer SaveCacheKey V (Buckets V)

def DNSCache.empty : DNSCache V := { disk := fun _ _ => none }

def queueDNSCache (k : SaveCacheKey) (v : V) (file : DNSCache V) : DNSCache V := file.save k v

def loadDNSCache (file : DNSCache V) (k : SaveCacheKey) : Option V := file.load getCacheEntry k

inductive Upkeep where
  | startFlush
  | commit (keys : List SaveCacheKey)
  | endFlush
  /-- `ClearDNSCache` empties the buffer, and then deletes the bucket -/
  | clearPending
  | deleteBucket
  | cleanup (transportName : String) (keyBytes : List UInt8)

def upkeep (accepts : SaveCacheKey → Bool) (file : DNSCache V) : Upkeep → DNSCache V
  | .startFlush => file.startFlush
  | .commit keys => file.commit (putCacheEntry accepts) keys
  | .endFlush => file.endFlush
  | .clearPending => if file.writing.isNone then { file with pending := [] } else file
  | .deleteBucket => { file with disk := fun _ _ => none }
  | .cleanup transportName keyBytes =>
    let bucket := Function.update (file.disk transportName) keyBytes none
    { file with disk := Function.update file.disk transportName bucket }

/-! ## Where a loaded value comes from -/

section

variable (key : V → SaveCacheKey)

def Placed (disk : Buckets V) : Prop :=
  ∀ transportName keyBytes v, disk transportName keyBytes = some v →
    (key v).transportName = transportName ∧ (key v).keyBytes = keyBytes

def Filed (file : DNSCache V) : Prop := file.Holds (fun k v => key v = k) (Placed key)

variable {key} {file : DNSCache V} {accepts : SaveCacheKey → Bool}

theorem filed_empty : Filed key DNSCache.empty := ⟨nofun, nofun, nofun⟩

theorem Placed.update {disk : Buckets V} (h : Placed key disk) {transportName : String} {keyBytes : List UInt8}
    {entry : Option V} (hentry : ∀ v ∈ entry, (key v).transportName = transportName ∧ (key v).keyBytes = keyBytes) :
    Placed key (update disk transportName (update (disk transportName) keyBytes entry)) := by
  intro transportName' keyBytes' v hv
  by_cases hname : transportName' = transportName
  · subst hname
    rw [update_self] at hv
    by_cases hbytes : keyBytes' = keyBytes
    · subst hbytes
      rw [update_self] at hv
      exact hentry v hv
    · rw [update_of_ne hbytes] at hv
      exact h _ _ v hv
  · rw [update_of_ne hname] at hv
    exact h _ _ v hv

theorem putCacheEntry_placed (disk : Buckets V) (k : SaveCacheKey) (v : V) (disk' : Buckets V) (h : Placed key disk)
    (hk : key v = k) (hput : putCacheEntry accepts disk k v = some disk') : Placed key disk' := by
  rw [putCacheEntry] at hput
  split_ifs at hput
  obtain rfl := Option.some.inj hput
  refine h.update fun v' hv' => ?_
  obtain rfl := Option.mem_some.1 hv'
  rw [hk]
  exact ⟨rfl, rfl⟩

theorem Filed.queue (h : Filed key file) {k : SaveCacheKey} {v : V} (hk : key v = k) :
    Filed key (queueDNSCache k v file) := WriteBuffer.Holds.save h hk

theorem Filed.upkeep (h : Filed key file) (o : Upkeep) : Filed key (upkeep accepts file o) := by
  cases o with
  | startFlush => exact WriteBuffer.Holds.startFlush h
  | commit keys => exact WriteBuffer.Holds.commit h putCacheEntry_placed keys
  | endFlush => exact WriteBuffer.Holds.endFlush h
  | clearPending =>
    rw [CacheFile.upkeep]
    split_ifs
    · exact ⟨nofun, h.writing, h.disk⟩
    · exact h
  | deleteBucket => exact ⟨h.pending, h.writing, nofun⟩
  | cleanup transportName keyBytes => exact ⟨h.pending, h.writing, Placed.update h.disk fun v hno => by cases hno⟩

theorem keyBytes_inj {k k' : SaveCacheKey} (hk : k.qType < 65536) (hk' : k'.qType < 65536)
    (h : k.keyBytes = k'.keyBytes) : k.qType = k'.qType ∧ k.questionName = k'.questionName := by
  obtain ⟨hhigh, hrest⟩ := List.cons.inj h
  obtain ⟨hlow, hname⟩ := List.cons.inj hrest
  have hhigh' := congrArg UInt8.toNat hhigh
  have hlow' := congrArg UInt8.toNat hlow
  simp only [UInt8.toNat_ofNat'] at hhigh' hlow'
  refine ⟨by omega, ?_⟩
  rw [← String.toByteArray_inj]
  exact ByteArray.ext (Array.toList_inj.1 hname)

theorem Filed.load (h : Filed key file) {k : SaveCacheKey} {v : V} (hload : loadDNSCache file k = some v)
    (hk : k.qType < 65536) (hv : (key v).qType < 65536) : key v = k := by
  rcases WriteBuffer.Holds.load h hload with hbuffered | hdisk
  · exact hbuffered
  · obtain ⟨hname, hbytes⟩ := h.disk _ _ v hdisk
    obtain ⟨htype, hquestion⟩ := keyBytes_inj hv hk hbytes
    cases hkey : key v
    cases k
    rw [hkey] at hname htype hquestion
    dsimp only at hname htype hquestion
    rw [hname, htype, hquestion]

end

end EtonifyCore.CacheFile
