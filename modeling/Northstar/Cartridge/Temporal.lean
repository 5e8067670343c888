import Northstar.Cartridge.Format
import Northstar.Lib.HashMap
import Northstar.Lib.Pieces
import Mathlib.Data.Int.Order.Basic

/-!
# Temporal — the changes of an entity in chunks of time

`src/cartridges/temporal.zig`: `TimeChunk`, `RetentionPolicy.shouldRetain`, `TemporalIndex.addChange` and
`queryBetween`.  A chunk begins with the time at which it is made, and its bounds only widen.

The clock of the machine is behind 1970.  The counters of a chunk and of the index are naturals.  Whether the
sampling of an old change keeps it is a hash of its id, compared with a floating point rate; here it is any
function of the two.
-/

namespace Northstar.Cartridge

open Bytes

/-- `@intCast` to `i64` and the sum of two `i64`. -/
def i64 (n : Int) : Except CartridgeError Int := if -2 ^ 63 ≤ n ∧ n < 2 ^ 63 then .ok n else .error .panic

inductive StateChangeType
  | attributeUpdate
  | attributeDelete
  | relationshipAdd
  | relationshipRemove
  | entityMigration
  | entityCreated
  | entityDeleted
  | batchOperation
  deriving Repr, DecidableEq

structure DeltaTimestamp where
  base : UInt64
  delta : Int64
  deriving Repr, DecidableEq

namespace DeltaTimestamp

/-- The time that is meant. -/
def instant (dt : DeltaTimestamp) : Int := dt.base.toNat + dt.delta.toInt

def value (dt : DeltaTimestamp) : Except CartridgeError Int := do
  let base ← i64 dt.base.toNat
  i64 (base + dt.delta.toInt)

/-- The time is computed without an overflow. -/
def Fits (dt : DeltaTimestamp) : Prop := dt.value = .ok dt.instant

def size : Nat := 8 + 8

end DeltaTimestamp

structure StateChange where
  id : Bytes
  txnId : UInt64
  timestamp : DeltaTimestamp
  entityNamespace : Bytes
  entityLocalId : Bytes
  changeType : StateChangeType
  key : Bytes
  oldValue : Option Bytes
  newValue : Option Bytes
  metadata : Bytes
  deriving Repr, DecidableEq

def StateChange.serializedSize (self : StateChange) : Nat :=
  let optional : Option Bytes → Nat := fun v => v.elim 1 fun bytes => 2 + bytes.length
  2 + self.id.length + 8 + DeltaTimestamp.size + (2 + self.entityNamespace.length) + (2 + self.entityLocalId.length)
    + 1 + (2 + self.key.length) + optional self.oldValue + optional self.newValue + (4 + self.metadata.length)

structure TimeChunk where
  entityNamespace : Bytes
  entityLocalId : Bytes
  startTimestamp : DeltaTimestamp
  endTimestamp : DeltaTimestamp
  changeCount : Nat
  changes : List StateChange
  compressed : Bool
  deriving Repr, DecidableEq

abbrev Clock := Fin (2 ^ 63)

namespace TimeChunk

def init (now : Clock) (entityNamespace entityLocalId : Bytes) : TimeChunk where
  entityNamespace := entityNamespace
  entityLocalId := entityLocalId
  startTimestamp := ⟨UInt64.ofNat now.val, 0⟩
  endTimestamp := ⟨UInt64.ofNat now.val, 0⟩
  changeCount := 0
  changes := []
  compressed := false

def addChange (self : TimeChunk) (change : StateChange) : Except CartridgeError TimeChunk := do
  let changeTime ← change.timestamp.value
  let currentStart ← self.startTimestamp.value
  let currentEnd ← self.endTimestamp.value
  return { self with
    changes := self.changes ++ [change]
    changeCount := self.changeCount + 1
    startTimestamp := if changeTime < currentStart then change.timestamp else self.startTimestamp
    endTimestamp := if changeTime > currentEnd then change.timestamp else self.endTimestamp }

def byteSize (self : TimeChunk) : Nat := (self.changes.map StateChange.serializedSize).sum

/-- "Check if chunk is full (> 1000 changes or > 1MB)". -/
def isFull (self : TimeChunk) : Bool := self.changeCount ≥ 1000 || self.byteSize ≥ 1024 * 1024

end TimeChunk

structure RetentionPolicy (ρ : Type) where
  maxAgeSeconds : UInt64
  maxChangesPerEntity : UInt64
  samplingRate : ρ
  samplingAgeThreshold : UInt64

/-- The rate of the source is 0.1. -/
def RetentionPolicy.default {ρ : Type} (samplingRate : ρ) : RetentionPolicy ρ where
  maxAgeSeconds := 90 * 24 * 3600
  maxChangesPerEntity := 100000
  samplingRate := samplingRate
  samplingAgeThreshold := 30 * 24 * 3600

section Index

variable {ρ : Type} (sample : ρ → Bytes → Bool)

def RetentionPolicy.shouldRetain (policy : RetentionPolicy ρ) (change : StateChange) (currentTime : Int) :
    Except CartridgeError Bool := do
  let value ← change.timestamp.value
  let changeAge ← i64 (currentTime - value)
  let tooOld ← if policy.maxAgeSeconds > 0 then (i64 policy.maxAgeSeconds.toNat).map fun limit => decide (changeAge > limit)
    else .ok false
  if tooOld then .ok false
  else do
    let threshold ← i64 policy.samplingAgeThreshold.toNat
    if changeAge > threshold then .ok (sample policy.samplingRate change.id) else .ok true

structure TemporalIndex (ρ : Type) where
  entityChunks : AList fun _ : Bytes => List TimeChunk
  timeIndex : AList fun _ : Int => List Bytes
  totalChanges : Nat
  retentionPolicy : RetentionPolicy ρ

/-- The policy is the default one, or one that the owner of the index sets. -/
def TemporalIndex.init (retentionPolicy : RetentionPolicy ρ) : TemporalIndex ρ where
  entityChunks := ∅
  timeIndex := ∅
  totalChanges := 0
  retentionPolicy := retentionPolicy

/-- `"{s}:{s}"`. -/
def entityKey (entityNamespace entityLocalId : Bytes) : Bytes := entityNamespace ++ (58 :: entityLocalId)

/-- A change, with what the clock says when its age is computed and when a chunk is made. -/
structure Addition where
  change : StateChange
  currentTime : Int
  now : Clock

/-- The chunk that takes a change, and those before it. -/
def openChunk (fresh : TimeChunk) (chunks : List TimeChunk) : List TimeChunk × TimeChunk :=
  match chunks.getLast? with
  | none => ([], fresh)
  | some last => if last.isFull then (chunks, fresh) else (chunks.dropLast, last)

namespace TemporalIndex

/-- `@intCast` of the time to `u64` comes last. -/
def addChange (self : TemporalIndex ρ) (call : Addition) : Except CartridgeError (TemporalIndex ρ) := do
  let change := call.change
  let retain ← self.retentionPolicy.shouldRetain sample change call.currentTime
  if !retain then .ok self
  else do
    let entityKey := entityKey change.entityNamespace change.entityLocalId
    let fresh := TimeChunk.init call.now change.entityNamespace change.entityLocalId
    let opened := openChunk fresh ((self.entityChunks.lookup entityKey).getD [])
    let chunk ← opened.2.addChange change
    let ts ← change.timestamp.value
    if ts < 0 then .error .panic
    else .ok { self with
      entityChunks := self.entityChunks.insert entityKey (opened.1 ++ [chunk])
      totalChanges := self.totalChanges + 1
      timeIndex := self.timeIndex.insert ts ((self.timeIndex.lookup ts).getD [] ++ [change.id]) }

/-- "Collect changes within range". -/
def collect (startTime endTime : Int) : List StateChange → Except CartridgeError (List StateChange)
  | [] => .ok []
  | change :: changes => do
    let changeTime ← change.timestamp.value
    let rest ← collect startTime endTime changes
    .ok (if changeTime ≥ startTime ∧ changeTime ≤ endTime then change :: rest else rest)

def collectChunk (startTime endTime : Int) (chunk : TimeChunk) : Except CartridgeError (List StateChange) := do
  let chunkStart ← chunk.startTimestamp.value
  let chunkEnd ← chunk.endTimestamp.value
  -- "Skip if chunk doesn't overlap with time range"
  if chunkEnd < startTime ∨ chunkStart > endTime then .ok [] else collect startTime endTime chunk.changes

def queryBetween (self : TemporalIndex ρ) (entityNamespace entityLocalId : Bytes) (startTime endTime : Int) :
    Except CartridgeError (List StateChange) :=
  match self.entityChunks.lookup (entityKey entityNamespace entityLocalId) with
  | none => .ok []
  | some chunks => do
    let parts ← chunks.mapM (collectChunk startTime endTime)
    .ok parts.flatten

end TemporalIndex

end Index

open Zones

variable {dt : DeltaTimestamp} {change : StateChange} {chunk : TimeChunk}

theorem i64_of_fits {n : Int} (h : -2 ^ 63 ≤ n ∧ n < 2 ^ 63) : i64 n = .ok n := if_pos h

theorem eq_of_i64_ok {n m : Int} (h : i64 n = .ok m) : m = n := by
  unfold i64 at h
  split at h
  · exact (Except.ok.inj h).symm
  · cases h

theorem DeltaTimestamp.fits_of_value {v : Int} (h : dt.value = .ok v) : dt.Fits := by
  have heq : v = dt.instant := by
    obtain ⟨base, hbase, hsum⟩ := Except.bind_eq_ok_iff.mp h
    rw [eq_of_i64_ok hbase] at hsum
    exact eq_of_i64_ok hsum
  show dt.value = .ok dt.instant
  rw [← heq]
  exact h

def StateChange.time (change : StateChange) : Int := change.timestamp.instant

def StateChange.entity (change : StateChange) : Bytes := entityKey change.entityNamespace change.entityLocalId

def TimeChunk.first (chunk : TimeChunk) : Int := chunk.startTimestamp.instant
def TimeChunk.last (chunk : TimeChunk) : Int := chunk.endTimestamp.instant

/-- Every time can be computed, and those of the changes lie between the bounds. -/
structure Bounded (chunk : TimeChunk) : Prop where
  first : chunk.startTimestamp.Fits
  last : chunk.endTimestamp.Fits
  fits : ∀ change ∈ chunk.changes, change.timestamp.Fits
  bounds : Bounds StateChange.time TimeChunk.first TimeChunk.last TimeChunk.changes chunk

theorem bounded_init (now : Clock) (entityNamespace entityLocalId : Bytes) :
    Bounded (TimeChunk.init now entityNamespace entityLocalId) := by
  have hnow := now.isLt
  have hbase : (UInt64.ofNat now.val).toNat = now.val := by
    rw [UInt64.toNat_ofNat', Nat.mod_eq_of_lt (by omega)]
  have hfits : DeltaTimestamp.Fits ⟨UInt64.ofNat now.val, 0⟩ := by
    unfold DeltaTimestamp.Fits DeltaTimestamp.value DeltaTimestamp.instant
    dsimp only
    rw [hbase, i64_of_fits (by omega), Except.ok_bind, show (0 : Int64).toInt = 0 by decide, i64_of_fits (by omega)]
  exact ⟨hfits, hfits, fun _ hc => absurd hc List.not_mem_nil, fun _ hc => absurd hc List.not_mem_nil⟩

theorem bounded_addChange (h : Bounded chunk) (hfits : change.timestamp.Fits) :
    ∃ chunk', chunk.addChange change = .ok chunk' ∧ chunk'.changes = chunk.changes ++ [change] ∧ Bounded chunk' := by
  have hvalue : change.timestamp.value = .ok change.time := hfits
  have hfirst : chunk.startTimestamp.value = .ok chunk.first := h.first
  have hlast : chunk.endTimestamp.value = .ok chunk.last := h.last
  unfold TimeChunk.addChange
  rw [hvalue, Except.ok_bind, hfirst, Except.ok_bind, hlast, Except.ok_bind]
  refine ⟨_, rfl, rfl, ?_, ?_, ?_, ?_⟩
  · show (if change.time < chunk.first then change.timestamp else chunk.startTimestamp).Fits
    split
    · exact hfits
    · exact h.first
  · show (if change.time > chunk.last then change.timestamp else chunk.endTimestamp).Fits
    split
    · exact hfits
    · exact h.last
  · intro c hc
    rcases List.mem_append.mp hc with hc | hc
    · exact h.fits c hc
    · rw [List.mem_singleton.mp hc]
      exact hfits
  · have hlow : (if change.time < chunk.first then change.timestamp else chunk.startTimestamp).instant
        = min change.time chunk.first := by
      split
      next hlt => exact (min_eq_left (Int.le_of_lt hlt)).symm
      next hge => exact (min_eq_right (Int.not_lt.mp hge)).symm
    have hhigh : (if change.time > chunk.last then change.timestamp else chunk.endTimestamp).instant
        = max change.time chunk.last := by
      split
      next hgt => exact (max_eq_left (Int.le_of_lt hgt)).symm
      next hle => exact (max_eq_right (Int.not_lt.mp hle)).symm
    intro c hc
    show (if change.time < chunk.first then change.timestamp else chunk.startTimestamp).instant ≤ c.time ∧
      c.time ≤ (if change.time > chunk.last then change.timestamp else chunk.endTimestamp).instant
    rw [hlow, hhigh]
    rcases List.mem_append.mp hc with hc | hc
    · have hbounds := h.bounds c hc
      exact ⟨le_trans (min_le_right ..) hbounds.1, le_trans hbounds.2 (le_max_right ..)⟩
    · rw [List.mem_singleton.mp hc]
      exact ⟨min_le_left .., le_max_left ..⟩

variable {chunks : List TimeChunk}

theorem openChunk_spec {fresh : TimeChunk} (hfresh : Bounded fresh)
    (hempty : fresh.changes = []) (hchunks : ∀ chunk ∈ chunks, Bounded chunk) :
    (∀ chunk ∈ (openChunk fresh chunks).1, Bounded chunk) ∧ Bounded (openChunk fresh chunks).2 ∧
      (openChunk fresh chunks).1.flatMap TimeChunk.changes ++ (openChunk fresh chunks).2.changes
        = chunks.flatMap TimeChunk.changes := by
  unfold openChunk
  cases hlast : chunks.getLast? with
  | none =>
    rw [List.getLast?_eq_none_iff.mp hlast]
    refine ⟨fun _ hc => absurd hc List.not_mem_nil, hfresh, ?_⟩
    rw [hempty]
    rfl
  | some last =>
    have hsplit : chunks.dropLast ++ [last] = chunks := List.dropLast_append_getLast? last hlast
    dsimp only
    split
    · refine ⟨hchunks, hfresh, ?_⟩
      rw [hempty, List.append_nil]
    · refine ⟨fun chunk hc => hchunks chunk (List.dropLast_subset _ hc), hchunks last (List.mem_of_getLast? hlast), ?_⟩
      conv_rhs => rw [← hsplit]
      rw [List.flatMap_append, List.flatMap_singleton]

namespace TemporalIndex

variable {ρ : Type} {sample : ρ → Bytes → Bool} {index index' : TemporalIndex ρ} {added : List StateChange}
  {call : Addition} {startTime endTime : Int}

def chunksOf (index : TemporalIndex ρ) (key : Bytes) : List TimeChunk := (index.entityChunks.lookup key).getD []

variable {policy : RetentionPolicy ρ} {timeIndex : AList fun _ : Int => List Bytes}

theorem chunksOf_insert_same {key : Bytes} {total : Nat} :
    chunksOf ⟨index.entityChunks.insert key chunks, timeIndex, total, policy⟩ key = chunks := by
  unfold chunksOf
  rw [AList.lookup_insert]
  rfl

theorem chunksOf_insert_other {key other : Bytes} (h : key ≠ other)
    {total : Nat} :
    chunksOf ⟨index.entityChunks.insert key chunks, timeIndex, total, policy⟩ other = index.chunksOf other := by
  unfold chunksOf
  rw [AList.lookup_insert_ne h.symm]

/-- The chunks of a key hold the changes of its entity, in the order in which they were added. -/
structure Holds (index : TemporalIndex ρ) (added : List StateChange) : Prop where
  contents : ∀ key, (index.chunksOf key).flatMap TimeChunk.changes = added.filter fun change => change.entity = key
  bounded : ∀ key, ∀ chunk ∈ index.chunksOf key, Bounded chunk

theorem holds_init (policy : RetentionPolicy ρ) : (init policy).Holds [] :=
  ⟨fun _ => rfl, fun _ _ hc => absurd hc List.not_mem_nil⟩

theorem fits_of_retain {currentTime : Int} {keep : Bool}
    (h : policy.shouldRetain sample change currentTime = .ok keep) : change.timestamp.Fits := by
  obtain ⟨value, hvalue, -⟩ := Except.bind_eq_ok_iff.mp h
  exact DeltaTimestamp.fits_of_value hvalue

theorem addChange_dropped (h : index.retentionPolicy.shouldRetain sample call.change call.currentTime = .ok false) :
    index.addChange sample call = .ok index := by
  unfold addChange
  dsimp only
  rw [h]
  rfl

theorem addChange_kept (hholds : index.Holds added)
    (h : index.retentionPolicy.shouldRetain sample call.change call.currentTime = .ok true)
    (hpositive : 0 ≤ call.change.time) : ∃ index', index.addChange sample call = .ok index' ∧
      index'.Holds (added ++ [call.change]) ∧ index'.retentionPolicy = index.retentionPolicy := by
  have hfits := fits_of_retain h
  have hvalue : call.change.timestamp.value = .ok call.change.time := hfits
  obtain ⟨hbefore, hopened, hchanges⟩ := openChunk_spec
    (bounded_init call.now call.change.entityNamespace call.change.entityLocalId) rfl
    (hholds.bounded call.change.entity)
  obtain ⟨chunk, hchunk, hadded, hbounded⟩ := bounded_addChange hopened hfits
  unfold chunksOf StateChange.entity at hchunk
  unfold addChange
  dsimp only
  rw [h, Except.ok_bind, hchunk, Except.ok_bind, hvalue, Except.ok_bind, if_neg (Int.not_lt.mpr hpositive)]
  refine ⟨_, rfl, ?_, rfl⟩
  change Holds ⟨index.entityChunks.insert call.change.entity ((openChunk (TimeChunk.init call.now
    call.change.entityNamespace call.change.entityLocalId) (index.chunksOf call.change.entity)).1 ++ [chunk]), _, _, _⟩ _
  constructor
  · intro key
    rw [List.filter_append, ← hholds.contents key]
    by_cases hkey : call.change.entity = key
    · subst hkey
      rw [chunksOf_insert_same, List.flatMap_append, List.flatMap_singleton, hadded, ← List.append_assoc, hchanges,
        List.filter_singleton, decide_eq_true rfl, cond_true]
    · rw [chunksOf_insert_other hkey, List.filter_singleton, decide_eq_false hkey, cond_false, List.append_nil]
  · intro key chunk' hc
    by_cases hkey : call.change.entity = key
    · subst hkey
      rw [chunksOf_insert_same] at hc
      rcases List.mem_append.mp hc with hc | hc
      · exact hbefore chunk' hc
      · rw [List.mem_singleton.mp hc]
        exact hbounded
    · rw [chunksOf_insert_other hkey] at hc
      exact hholds.bounded key chunk' hc

/-- The time of a change is a key of the time index, which has no room for one before 1970. -/
theorem addChange_negative (hholds : index.Holds added)
    (h : index.retentionPolicy.shouldRetain sample call.change call.currentTime = .ok true)
    (hnegative : call.change.time < 0) : index.addChange sample call = .error .panic := by
  have hfits := fits_of_retain h
  have hvalue : call.change.timestamp.value = .ok call.change.time := hfits
  obtain ⟨-, hopened, -⟩ := openChunk_spec
    (bounded_init call.now call.change.entityNamespace call.change.entityLocalId) rfl
    (hholds.bounded call.change.entity)
  obtain ⟨chunk, hchunk, -, -⟩ := bounded_addChange hopened hfits
  unfold chunksOf StateChange.entity at hchunk
  unfold addChange
  dsimp only
  rw [h, Except.ok_bind, hchunk, Except.ok_bind, hvalue, Except.ok_bind, if_pos hnegative]
  rfl

theorem collect_eq {changes : List StateChange} (hfits : ∀ change ∈ changes, change.timestamp.Fits) :
    collect startTime endTime changes
      = .ok (changes.filter fun change => startTime ≤ change.time ∧ change.time ≤ endTime) := by
  induction changes with
  | nil => rfl
  | cons change changes ih =>
    have hvalue : change.timestamp.value = .ok change.time := hfits change (List.mem_cons_self ..)
    unfold collect
    rw [hvalue, Except.ok_bind, ih fun c hc => hfits c (List.mem_cons_of_mem _ hc), Except.ok_bind, List.filter_cons]
    simp only [decide_eq_true_eq, ge_iff_le]

theorem collectChunk_eq (h : Bounded chunk) : collectChunk startTime endTime chunk
    = .ok (select StateChange.time TimeChunk.first TimeChunk.last TimeChunk.changes startTime endTime chunk) := by
  have hfirst : chunk.startTimestamp.value = .ok chunk.first := h.first
  have hlast : chunk.endTimestamp.value = .ok chunk.last := h.last
  unfold collectChunk select
  rw [hfirst, Except.ok_bind, hlast, Except.ok_bind]
  by_cases hskip : chunk.last < startTime ∨ endTime < chunk.first
  · rw [if_pos hskip, if_pos hskip]
  · rw [if_neg hskip, if_neg hskip, collect_eq h.fits]

theorem queryBetween_eq (h : index.Holds added) (entityNamespace entityLocalId : Bytes) :
    index.queryBetween entityNamespace entityLocalId startTime endTime
      = .ok (added.filter fun change => change.entity = entityKey entityNamespace entityLocalId ∧
          startTime ≤ change.time ∧ change.time ≤ endTime) := by
  have hcontents := h.contents (entityKey entityNamespace entityLocalId)
  have hbounded := h.bounded (entityKey entityNamespace entityLocalId)
  have hfilter : (added.filter fun change => change.entity = entityKey entityNamespace entityLocalId ∧
      startTime ≤ change.time ∧ change.time ≤ endTime) = ((added.filter fun change => change.entity =
        entityKey entityNamespace entityLocalId).filter fun change => startTime ≤ change.time ∧ change.time ≤ endTime) := by
    rw [List.filter_filter]
    apply List.filter_congr
    intro c _
    rw [← Bool.decide_and]
    exact decide_eq_decide.mpr and_comm
  rw [hfilter, ← hcontents, ← flatMap_select fun chunk hc => (hbounded chunk hc).bounds]
  unfold chunksOf at hbounded ⊢
  unfold queryBetween
  cases hlookup : index.entityChunks.lookup (entityKey entityNamespace entityLocalId) with
  | none => rfl
  | some chunks =>
    rw [hlookup] at hbounded
    have hcollect : chunks.mapM (collectChunk startTime endTime) = .ok (chunks.map fun chunk =>
        select StateChange.time TimeChunk.first TimeChunk.last TimeChunk.changes startTime endTime chunk) :=
      Except.mapM_eq_ok_map fun chunk hc => collectChunk_eq (hbounded chunk hc)
    dsimp only
    rw [hcollect, Except.ok_bind]
    rfl

variable {calls : List Addition}

def run (sample : ρ → Bytes → Bool) (index : TemporalIndex ρ) (calls : List Addition) :
    Except CartridgeError (TemporalIndex ρ) :=
  calls.foldlM (fun index call => index.addChange sample call) index

/-- The changes that the retention rule keeps. -/
def kept (sample : ρ → Bytes → Bool) (policy : RetentionPolicy ρ) (calls : List Addition) : List StateChange :=
  (calls.filter fun call => (policy.shouldRetain sample call.change call.currentTime).toOption.getD false).map
    Addition.change

theorem kept_cons_true (h : policy.shouldRetain sample call.change call.currentTime = .ok true) :
    kept sample policy (call :: calls) = call.change :: kept sample policy calls := by
  unfold kept
  rw [List.filter_cons, h]
  rfl

theorem kept_cons_false (h : policy.shouldRetain sample call.change call.currentTime = .ok false) :
    kept sample policy (call :: calls) = kept sample policy calls := by
  unfold kept
  rw [List.filter_cons, h]
  rfl

/-- The rule says of every change whether it is kept, without an overflow. -/
def Decided (sample : ρ → Bytes → Bool) (policy : RetentionPolicy ρ) (calls : List Addition) : Prop :=
  ∀ call ∈ calls, ∃ keep, policy.shouldRetain sample call.change call.currentTime = .ok keep

theorem run_holds (hdecided : Decided sample index.retentionPolicy calls) (hholds : index.Holds added)
    (htimes : ∀ change ∈ kept sample index.retentionPolicy calls, 0 ≤ change.time) :
    ∃ index', run sample index calls = .ok index' ∧
      index'.Holds (added ++ kept sample index.retentionPolicy calls) := by
  induction calls generalizing index added with
  | nil => exact ⟨index, rfl, (List.append_nil added).symm ▸ hholds⟩
  | cons call calls ih =>
    have hrest : Decided sample index.retentionPolicy calls := fun c hc => hdecided c (List.mem_cons_of_mem _ hc)
    obtain ⟨keep, hkeep⟩ := hdecided call (List.mem_cons_self ..)
    unfold run
    rw [List.foldlM_cons]
    cases keep with
    | false =>
      rw [kept_cons_false hkeep] at htimes ⊢
      rw [addChange_dropped hkeep, Except.ok_bind]
      exact ih hrest hholds htimes
    | true =>
      rw [kept_cons_true hkeep] at htimes ⊢
      obtain ⟨index', hstep, hholds', hpolicy⟩ := addChange_kept hholds hkeep (htimes _ (List.mem_cons_self ..))
      rw [← hpolicy] at hrest htimes ⊢
      rw [hstep, Except.ok_bind, List.append_cons]
      exact ih hrest hholds' fun change hc => htimes change (List.mem_cons_of_mem _ hc)

theorem times_of_run (hdecided : Decided sample index.retentionPolicy calls) (hholds : index.Holds added)
    (hrun : run sample index calls = .ok index') :
    ∀ change ∈ kept sample index.retentionPolicy calls, 0 ≤ change.time := by
  induction calls generalizing index added with
  | nil => exact fun _ hc => absurd hc List.not_mem_nil
  | cons call calls ih =>
    have hrest : Decided sample index.retentionPolicy calls := fun c hc => hdecided c (List.mem_cons_of_mem _ hc)
    obtain ⟨keep, hkeep⟩ := hdecided call (List.mem_cons_self ..)
    unfold run at hrun
    rw [List.foldlM_cons] at hrun
    cases keep with
    | false =>
      rw [kept_cons_false hkeep]
      rw [addChange_dropped hkeep, Except.ok_bind] at hrun
      exact ih hrest hholds hrun
    | true =>
      rw [kept_cons_true hkeep]
      by_cases htime : 0 ≤ call.change.time
      · obtain ⟨next, hstep, hholds', hpolicy⟩ := addChange_kept hholds hkeep htime
        rw [hstep, Except.ok_bind] at hrun
        rw [← hpolicy] at hrest ⊢
        intro change hc
        rcases List.mem_cons.mp hc with hc | hc
        · rw [hc]
          exact htime
        · exact ih hrest hholds' hrun change hc
      · rw [addChange_negative hholds hkeep (Int.not_le.mp htime)] at hrun
        cases hrun

/-- Every query for an entity finds the changes of the entity whose times lie in the range, each of them once and in
    the order in which they were added. -/
def Exact (index : TemporalIndex ρ) (added : List StateChange) : Prop :=
  ∀ entityNamespace entityLocalId : Bytes, 58 ∉ entityNamespace → 58 ∉ entityLocalId →
    ∀ startTime endTime, startTime ≤ endTime →
      index.queryBetween entityNamespace entityLocalId startTime endTime
        = .ok (added.filter fun change => change.entityNamespace = entityNamespace ∧
            change.entityLocalId = entityLocalId ∧ startTime ≤ change.time ∧ change.time ≤ endTime)

theorem entityKey_inj {ns id ns' id' : Bytes} (hns : 58 ∉ ns) (hns' : 58 ∉ ns') :
    entityKey ns id = entityKey ns' id' ↔ ns = ns' ∧ id = id' := by
  constructor
  · intro h
    induction ns generalizing ns' with
    | nil =>
      cases ns' with
      | nil => exact ⟨rfl, (List.cons.inj h).2⟩
      | cons b ns' =>
        have hhead : (58 : UInt8) = b := (List.cons.inj h).1
        apply absurd _ hns'
        rw [hhead]
        exact List.mem_cons_self ..
    | cons a ns ih =>
      cases ns' with
      | nil =>
        have hhead : a = (58 : UInt8) := (List.cons.inj h).1
        apply absurd _ hns
        rw [hhead]
        exact List.mem_cons_self ..
      | cons b ns' =>
        have hhead : a = b := (List.cons.inj h).1
        have htail : entityKey ns id = entityKey ns' id' := (List.cons.inj h).2
        have hrest := ih (fun hc => hns (List.mem_cons_of_mem _ hc)) (fun hc => hns' (List.mem_cons_of_mem _ hc)) htail
        exact ⟨by rw [hhead, hrest.1], hrest.2⟩
  · rintro ⟨rfl, rfl⟩
    rfl

theorem exact_of_holds (h : index.Holds added) (hcolon : ∀ change ∈ added, 58 ∉ change.entityNamespace) :
    index.Exact added := by
  intro ns id hns _ startTime endTime _
  rw [queryBetween_eq h]
  apply congrArg
  apply List.filter_congr
  intro change hc
  apply decide_eq_decide.mpr
  rw [StateChange.entity, entityKey_inj (hcolon change hc) hns, and_assoc]

/-- A sequence of additions succeeds and every query is exact, if and only if no change that is kept lies before
    1970. -/
theorem queryBetween_exact_iff (sample : ρ → Bytes → Bool) (policy : RetentionPolicy ρ) (calls : List Addition)
    (hdecided : Decided sample policy calls)
    (hcolon : ∀ call ∈ calls, 58 ∉ call.change.entityNamespace ∧ 58 ∉ call.change.entityLocalId) :
    (∃ index, run sample (init policy) calls = .ok index ∧ index.Exact (kept sample policy calls)) ↔
      ∀ change ∈ kept sample policy calls, 0 ≤ change.time := by
  have hinit : Decided sample (init policy).retentionPolicy calls := hdecided
  constructor
  · rintro ⟨index, hrun, -⟩
    have htimes := times_of_run hinit (holds_init policy) hrun
    exact htimes
  · intro htimes
    obtain ⟨index, hrun, hholds⟩ := run_holds hinit (holds_init policy) htimes
    refine ⟨index, hrun, exact_of_holds hholds ?_⟩
    intro change hc
    obtain ⟨call, hcall, rfl⟩ := List.mem_map.mp hc
    exact (hcolon call (List.mem_of_mem_filter hcall)).1

/-- A change to the file `a`, at a number of seconds after a time in 2023. -/
def edit (delta : Int64) : StateChange where
  id := [99]
  txnId := 1
  timestamp := ⟨1700000000, delta⟩
  entityNamespace := [102]
  entityLocalId := [97]
  changeType := .attributeUpdate
  key := [107]
  oldValue := none
  newValue := some [118]
  metadata := []

/-- The later change is added first. -/
theorem queryBetween_exact_file : ∃ index,
    run (fun _ _ => false) (init (.default ())) [⟨edit 60, 1700000100, 1700000100⟩, ⟨edit 0, 1700000100, 1700000100⟩]
        = .ok index ∧ index.Exact [edit 60, edit 0] :=
  (queryBetween_exact_iff (fun _ _ => false) (.default ())
    [⟨edit 60, 1700000100, 1700000100⟩, ⟨edit 0, 1700000100, 1700000100⟩]
    (fun call hcall => ⟨true, by
      rcases List.mem_pair.mp hcall with rfl | rfl
      · decide +kernel
      · decide +kernel⟩)
    (fun call hcall => by
      rcases List.mem_pair.mp hcall with rfl | rfl
      · decide +kernel
      · decide +kernel)).mpr (by decide +kernel)

/-- A change one second before 1970, under a policy without a limit. -/
theorem addChange_early_panics :
    kept (fun _ _ => true) ⟨0, 0, (), 4000000000⟩ [⟨{ edit (-1) with timestamp := ⟨0, -1⟩ }, 1700000100, 1700000100⟩]
        = [{ edit (-1) with timestamp := ⟨0, -1⟩ }] ∧
      run (fun _ _ => true) (init ⟨0, 0, (), 4000000000⟩)
        [⟨{ edit (-1) with timestamp := ⟨0, -1⟩ }, 1700000100, 1700000100⟩] = .error .panic := by
  constructor
  · decide +kernel
  · have hpanic : addChange (fun _ _ => true) (init ⟨0, 0, (), 4000000000⟩)
        ⟨{ edit (-1) with timestamp := ⟨0, -1⟩ }, 1700000100, 1700000100⟩ = .error .panic :=
      addChange_negative (holds_init _) (by decide +kernel) (by decide +kernel)
    unfold run
    rw [List.foldlM_cons, hpanic]
    rfl

end TemporalIndex

end Northstar.Cartridge
