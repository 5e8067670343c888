import Northstar.Error
import Northstar.Lib.HashMap
import Northstar.Lib.Reader
import Northstar.Lib.Runs

/-!
# Btree.Delta — the uncommitted changes of a transaction

`delta.rs`: a hash map from a key to the last mutation of it, with the bytes it takes and the number of its
keys counted beside it.  Its image has the mutations in the order of their keys.
-/

namespace Northstar.Delta

open Bytes Reader

def maxKeySize : Nat := 255
def maxValueSize : Nat := 16777215
def maxOperationsPerTxn : Nat := 100000
def maxDeltaSize : Nat := 16777216
def mutationOverhead : Nat := 32

def mutationTypePut : UInt8 := 1
def mutationTypeDelete : UInt8 := 2

inductive MutationEntry where
  | put (key value : Bytes) (lsn : UInt64) (size : Nat)
  | delete (key : Bytes) (lsn : UInt64) (size : Nat)
  deriving Repr, DecidableEq

namespace MutationEntry

def key : MutationEntry → Bytes
  | put key _ _ _ => key
  | delete key _ _ => key

def size : MutationEntry → Nat
  | put _ _ _ size => size
  | delete _ _ size => size

/-- The value a put leaves; a delete leaves none. -/
def content : MutationEntry → Option Bytes
  | put _ value _ _ => some value
  | delete _ _ _ => none

def resetLsn : MutationEntry → MutationEntry
  | put key value _ size => put key value 0 size
  | delete key _ size => delete key 0 size

@[simp] theorem size_resetLsn (e : MutationEntry) : e.resetLsn.size = e.size := by
  cases e <;> rfl

end MutationEntry

abbrev KeyEntry := Sigma fun _ : Bytes => MutationEntry

structure DeltaLayer where
  mutations : AList fun _ : Bytes => MutationEntry
  size : Nat
  operationCount : Nat

namespace DeltaLayer

def new : DeltaLayer := ⟨∅, 0, 0⟩

def get (d : DeltaLayer) (key : Bytes) : Option MutationEntry := d.mutations.lookup key

def len (d : DeltaLayer) : Nat := d.mutations.entries.length

/-- The last write wins: the entry of the key is replaced, and only a new key is counted. -/
def record (d : DeltaLayer) (key : Bytes) (entry : MutationEntry) : DeltaLayer :=
  match d.mutations.lookup key with
  | some old =>
    { mutations := d.mutations.insert key entry
      size := d.size - old.size + entry.size
      operationCount := d.operationCount }
  | none =>
    { mutations := d.mutations.insert key entry
      size := d.size + entry.size
      operationCount := d.operationCount + 1 }

def recordPut (d : DeltaLayer) (key value : Bytes) (lsn : UInt64) : Except Error DeltaLayer :=
  if key.length > maxKeySize then .error (.sizeLimit (.keyTooLarge key.length maxKeySize))
  else if value.length > maxValueSize then .error (.sizeLimit (.valueTooLarge value.length maxValueSize))
  else if d.operationCount ≥ maxOperationsPerTxn then
    .error (.validation (.tooManyOperations (.ofNat d.operationCount) (.ofNat maxOperationsPerTxn)))
  else
    let mutationSize := key.length + value.length + mutationOverhead
    if d.size + mutationSize > maxDeltaSize then
      .error (.sizeLimit (.bufferTooSmall (d.size + mutationSize) maxDeltaSize))
    else .ok (d.record key (.put key value lsn mutationSize))

-- There is no check of `maxDeltaSize` here.
def recordDelete (d : DeltaLayer) (key : Bytes) (lsn : UInt64) : Except Error DeltaLayer :=
  if key.length > maxKeySize then .error (.sizeLimit (.keyTooLarge key.length maxKeySize))
  else if d.operationCount ≥ maxOperationsPerTxn then
    .error (.validation (.tooManyOperations (.ofNat d.operationCount) (.ofNat maxOperationsPerTxn)))
  else .ok (d.record key (.delete key lsn (key.length + mutationOverhead)))

def clear (_ : DeltaLayer) : DeltaLayer := new

end DeltaLayer

def MutationEntry.bytes (key : Bytes) : MutationEntry → Bytes
  | put _ value _ _ =>
    [mutationTypePut] ++ ([.ofNat key.length] ++ (key ++ (u32 (.ofNat value.length) ++ value)))
  | delete _ _ _ => [mutationTypeDelete] ++ ([.ofNat key.length] ++ (key ++ u32 0))

variable {d : DeltaLayer} {key : Bytes}

namespace DeltaLayer

def sorted (d : DeltaLayer) : List KeyEntry := d.mutations.entries.mergeSort fun a b => a.1 ≤ b.1

def serialize (d : DeltaLayer) : Bytes :=
  u32 (.ofNat d.mutations.entries.length) ++ (d.sorted.map fun e => e.2.bytes e.1).flatten

def eof : Error := .io .incompleteKey

def readMutation : Reader Error KeyEntry := do
  let mutationType ← readU8 eof
  let keyLen ← readU8 eof
  let key ← readExact eof keyLen.toNat
  let valueLen ← readU32 eof
  if mutationType = mutationTypePut then do
    let value ← readExact eof valueLen.toNat
    return ⟨key, .put key value 0 (keyLen.toNat + valueLen.toNat + mutationOverhead)⟩
  else if mutationType = mutationTypeDelete then
    if valueLen ≠ 0 then Reader.lift (.error (.validation .deleteHasValue))
    else return ⟨key, .delete key 0 (keyLen.toNat + mutationOverhead)⟩
  else Reader.lift (.error (.validation (.invalidOperationType mutationType)))

/-- A key that comes twice is counted twice. -/
def absorb (d : DeltaLayer) (e : KeyEntry) : DeltaLayer :=
  ⟨d.mutations.insert e.1 e.2, d.size + e.2.size, d.operationCount + 1⟩

def readMutations : Nat → DeltaLayer → Reader Error DeltaLayer
  | 0, d => pure d
  | count + 1, d => do
    let e ← readMutation
    readMutations count (d.absorb e)

def deserialize (data : Bytes) : Except Error DeltaLayer :=
  ((do let opCount ← readU32 eof; readMutations opCount.toNat new : Reader Error DeltaLayer) data).map Prod.fst

/-- An entry as the calls build it. -/
structure Fits (e : KeyEntry) : Prop where
  own : e.2.key = e.1
  key : e.1.length ≤ maxKeySize
  value : (e.2.content.getD []).length ≤ maxValueSize
  size : e.2.size = e.1.length + (e.2.content.getD []).length + mutationOverhead

structure Tallied (d : DeltaLayer) : Prop where
  fits : ∀ e ∈ d.mutations.entries, Fits e
  size : d.size = HashMap.total (fun _ => MutationEntry.size) d.mutations
  count : d.operationCount = d.mutations.entries.length
  few : d.operationCount ≤ maxOperationsPerTxn

theorem tallied_new : Tallied new where
  fits _ h := nomatch h
  size := rfl
  count := rfl
  few := Nat.zero_le _

/-- The bytes of the entry that a mutation of the key replaces. -/
def replaced (d : DeltaLayer) (key : Bytes) : Nat := (d.get key).elim 0 MutationEntry.size

theorem Tallied.size_record (h : d.Tallied) (key : Bytes) (entry : MutationEntry) :
    (d.record key entry).size + d.replaced key = d.size + entry.size := by
  unfold record replaced get
  cases hold : d.mutations.lookup key with
  | none => rfl
  | some old =>
    have hle : old.size ≤ d.size := by
      rw [h.size]
      exact @HashMap.le_total _ _ _ _ _ _ (fun _ => MutationEntry.size) hold
    show d.size - old.size + entry.size + old.size = d.size + entry.size
    omega

theorem Tallied.record (h : d.Tallied) {entry : MutationEntry}
    (hfits : Fits ⟨key, entry⟩) (hfew : d.operationCount < maxOperationsPerTxn) : (d.record key entry).Tallied := by
  have hentries : ∀ e ∈ (d.mutations.insert key entry).entries, Fits e := by
    intro e he
    rcases HashMap.mem_insert he with rfl | he
    · exact hfits
    · exact h.fits e he
  unfold DeltaLayer.record
  cases hold : d.mutations.lookup key with
  | none =>
    refine ⟨hentries, ?_, ?_, hfew⟩
    · show d.size + entry.size = HashMap.total _ (d.mutations.insert key entry)
      rw [HashMap.total_insert_new hold, h.size, Nat.add_comm]
    · show d.operationCount + 1 = (d.mutations.insert key entry).entries.length
      rw [HashMap.length_insert_new hold, h.count]
  | some old =>
    refine ⟨hentries, ?_, ?_, h.few⟩
    · have herase := @HashMap.total_erase _ _ _ _ _ _ (fun _ => MutationEntry.size) hold
      show d.size - old.size + entry.size = HashMap.total _ (d.mutations.insert key entry)
      rw [HashMap.total_insert, h.size]
      omega
    · show d.operationCount = (d.mutations.insert key entry).entries.length
      rw [HashMap.length_insert, HashMap.length_erase hold, h.count]

end DeltaLayer

inductive DeltaCall where
  | recordPut (key value : Bytes) (lsn : UInt64)
  | recordDelete (key : Bytes) (lsn : UInt64)
  | clear
  deriving Repr, DecidableEq

namespace DeltaLayer

def call (d : DeltaLayer) : DeltaCall → Except Error DeltaLayer
  | .recordPut key value lsn => d.recordPut key value lsn
  | .recordDelete key lsn => d.recordDelete key lsn
  | .clear => .ok d.clear

variable {t : DeltaLayer}

variable {value : Bytes} {calls : List DeltaCall}

theorem recordPut_eq_ok {lsn : UInt64} (h : d.recordPut key value lsn = .ok t) :
    key.length ≤ maxKeySize ∧ value.length ≤ maxValueSize ∧ d.operationCount < maxOperationsPerTxn ∧
      d.size + (key.length + value.length + mutationOverhead) ≤ maxDeltaSize ∧
      t = d.record key (.put key value lsn (key.length + value.length + mutationOverhead)) := by
  unfold recordPut at h
  by_cases hkey : key.length > maxKeySize
  · rw [if_pos hkey] at h
    cases h
  rw [if_neg hkey] at h
  by_cases hvalue : value.length > maxValueSize
  · rw [if_pos hvalue] at h
    cases h
  rw [if_neg hvalue] at h
  by_cases hcount : d.operationCount ≥ maxOperationsPerTxn
  · rw [if_pos hcount] at h
    cases h
  rw [if_neg hcount] at h
  dsimp only at h
  by_cases hsize : d.size + (key.length + value.length + mutationOverhead) > maxDeltaSize
  · rw [if_pos hsize] at h
    cases h
  rw [if_neg hsize] at h
  cases h
  exact ⟨Nat.not_lt.mp hkey, Nat.not_lt.mp hvalue, Nat.not_le.mp hcount, Nat.not_lt.mp hsize, rfl⟩

theorem recordDelete_eq_ok {lsn : UInt64} (h : d.recordDelete key lsn = .ok t) :
    key.length ≤ maxKeySize ∧ d.operationCount < maxOperationsPerTxn ∧
      t = d.record key (.delete key lsn (key.length + mutationOverhead)) := by
  unfold recordDelete at h
  by_cases hkey : key.length > maxKeySize
  · rw [if_pos hkey] at h
    cases h
  rw [if_neg hkey] at h
  by_cases hcount : d.operationCount ≥ maxOperationsPerTxn
  · rw [if_pos hcount] at h
    cases h
  rw [if_neg hcount] at h
  cases h
  exact ⟨Nat.not_lt.mp hkey, Nat.not_le.mp hcount, rfl⟩

theorem recordPut_of_fits (lsn : UInt64) (hkey : key.length ≤ maxKeySize)
    (hvalue : value.length ≤ maxValueSize) (hcount : d.operationCount < maxOperationsPerTxn)
    (hsize : d.size + (key.length + value.length + mutationOverhead) ≤ maxDeltaSize) :
    d.recordPut key value lsn =
      .ok (d.record key (.put key value lsn (key.length + value.length + mutationOverhead))) := by
  unfold recordPut
  rw [if_neg (Nat.not_lt.mpr hkey), if_neg (Nat.not_lt.mpr hvalue), if_neg (Nat.not_le.mpr hcount)]
  exact if_neg (Nat.not_lt.mpr hsize)

theorem recordDelete_of_fits {d : DeltaLayer} {key : Bytes} (lsn : UInt64) (hkey : key.length ≤ maxKeySize)
    (hcount : d.operationCount < maxOperationsPerTxn) :
    d.recordDelete key lsn = .ok (d.record key (.delete key lsn (key.length + mutationOverhead))) := by
  unfold recordDelete
  rw [if_neg (Nat.not_lt.mpr hkey), if_neg (Nat.not_le.mpr hcount)]

variable {c : DeltaCall}

theorem Tallied.call (h : d.Tallied) (hcall : d.call c = .ok t) : t.Tallied := by
  cases c with
  | recordPut key value lsn =>
    obtain ⟨hkey, hvalue, hfew, -, rfl⟩ := recordPut_eq_ok hcall
    exact h.record ⟨rfl, hkey, hvalue, rfl⟩ hfew
  | recordDelete key lsn =>
    obtain ⟨hkey, hfew, rfl⟩ := recordDelete_eq_ok hcall
    exact h.record ⟨rfl, hkey, Nat.zero_le _, rfl⟩ hfew
  | clear =>
    cases hcall
    exact tallied_new

/-- The layer that a list of successful calls builds. -/
def build (calls : List DeltaCall) : Except Error DeltaLayer := calls.foldlM call new

theorem tallied_foldlM (h : d.Tallied) (hcalls : calls.foldlM call d = .ok t) : t.Tallied := by
  induction calls generalizing d with
  | nil =>
    cases hcalls
    exact h
  | cons c calls ih =>
    rw [List.foldlM_cons] at hcalls
    obtain ⟨r, hr, hrest⟩ := Except.bind_eq_ok_iff.mp hcalls
    exact ih (h.call hr) hrest

theorem tallied_build (h : build calls = .ok d) : d.Tallied :=
  tallied_foldlM tallied_new h

def resetEntry (e : KeyEntry) : KeyEntry := ⟨e.1, e.2.resetLsn⟩

theorem Fits.reads {e : KeyEntry} (h : Fits e) : Reads readMutation (e.2.bytes e.1) (resetEntry e) := by
  obtain ⟨key, entry⟩ := e
  have hkey : (UInt8.ofNat key.length).toNat = key.length :=
    UInt8.toNat_ofNat_of_lt' (Nat.lt_of_le_of_lt h.key (by decide))
  cases entry with
  | put own value lsn size =>
    obtain rfl : own = key := h.own
    have hvalue : (UInt32.ofNat value.length).toNat = value.length :=
      UInt32.toNat_ofNat_of_lt' (Nat.lt_of_le_of_lt h.value (by decide))
    have hsize : size = own.length + value.length + mutationOverhead := h.size
    unfold readMutation
    apply (reads_u8 eof mutationTypePut).bind
    apply (reads_u8 eof (.ofNat own.length)).bind
    rw [hkey]
    apply (reads_exact eof own).bind
    apply (reads_u32 eof (.ofNat value.length)).bind
    rw [if_pos rfl, hvalue, resetEntry, MutationEntry.resetLsn, hsize]
    exact (reads_exact eof value).map _
  | delete own lsn size =>
    obtain rfl : own = key := h.own
    have hsize : size = own.length + mutationOverhead := h.size
    unfold readMutation
    apply (reads_u8 eof mutationTypeDelete).bind
    apply (reads_u8 eof (.ofNat own.length)).bind
    rw [hkey]
    apply (reads_exact eof own).bind
    apply (reads_u32 eof 0).bind_lift
    rw [if_neg (by decide), if_pos rfl, if_neg (by decide), resetEntry, MutationEntry.resetLsn, hsize]
    exact Reads.pure _

theorem reads_readMutations {es : List KeyEntry} (h : ∀ e ∈ es, Fits e) (d : DeltaLayer) :
    Reads (readMutations es.length d) (es.map fun e => e.2.bytes e.1).flatten
      ((es.map resetEntry).foldl absorb d) := by
  induction es generalizing d with
  | nil => exact Reads.pure d
  | cons e es ih =>
    apply (h e (List.mem_cons_self ..)).reads.bind
    exact ih (fun e' he' => h e' (List.mem_cons_of_mem _ he')) _

section absorb

variable {es : List KeyEntry}

theorem size_foldl_absorb (d : DeltaLayer) : (es.foldl absorb d).size = d.size + (es.map fun e => e.2.size).sum := by
  induction es generalizing d with
  | nil => rfl
  | cons e es ih =>
    rw [List.foldl_cons, ih, List.map_cons, List.sum_cons, ← Nat.add_assoc]
    rfl

theorem operationCount_foldl_absorb (d : DeltaLayer) :
    (es.foldl absorb d).operationCount = d.operationCount + es.length := by
  induction es generalizing d with
  | nil => rfl
  | cons e es ih =>
    rw [List.foldl_cons, ih, List.length_cons, Nat.add_comm es.length, ← Nat.add_assoc]
    rfl

theorem entries_foldl_absorb {d : DeltaLayer} (hnodup : es.NodupKeys) (hnew : ∀ e ∈ es, e.1 ∉ d.mutations) :
    (es.foldl absorb d).mutations.entries.Perm (es ++ d.mutations.entries) := by
  induction es generalizing d with
  | nil => exact List.Perm.refl _
  | cons e es ih =>
    rw [List.nodupKeys_cons] at hnodup
    have hinsert : (d.absorb e).mutations.entries = e :: d.mutations.entries :=
      AList.entries_insert_of_notMem (hnew e (List.mem_cons_self ..))
    have hrest := @ih (d.absorb e) hnodup.2 (by
      intro e' he' hmem
      rcases (AList.mem_insert _).mp hmem with heq | hmem
      · apply hnodup.1
        rw [← heq]
        exact List.mem_map_of_mem he'
      · exact hnew e' (List.mem_cons_of_mem _ he') hmem)
    rw [hinsert] at hrest
    exact hrest.trans List.perm_middle

end absorb

theorem perm_sorted (d : DeltaLayer) : d.sorted.Perm d.mutations.entries := List.mergeSort_perm _ _

theorem lookup_map_resetLsn (es : List KeyEntry) (key : Bytes) :
    (es.map resetEntry).dlookup key = (es.dlookup key).map MutationEntry.resetLsn := by
  induction es with
  | nil => rfl
  | cons e es ih =>
    obtain ⟨k, entry⟩ := e
    by_cases heq : key = k
    · subst heq
      rw [List.map_cons, List.dlookup_cons_eq es]
      exact List.dlookup_cons_eq _ _ _
    · rw [List.map_cons, List.dlookup_cons_ne _ _ heq, List.dlookup_cons_ne _ _ heq]
      exact ih

theorem Tallied.deserialize_serialize (h : d.Tallied) :
    ∃ t, deserialize d.serialize = .ok t ∧ (∀ key, t.get key = (d.get key).map MutationEntry.resetLsn) ∧
      t.len = d.len ∧ t.size = d.size ∧ t.operationCount = d.operationCount := by
  have hfits : ∀ e ∈ d.sorted, Fits e := fun e he => h.fits e (d.perm_sorted.mem_iff.mp he)
  have hlen : d.sorted.length = d.mutations.entries.length := d.perm_sorted.length_eq
  have hcount : (UInt32.ofNat d.mutations.entries.length).toNat = d.sorted.length := by
    rw [hlen]
    apply UInt32.toNat_ofNat_of_lt'
    rw [← h.count]
    exact Nat.lt_of_le_of_lt h.few (by decide)
  have hreads : Reads (do let opCount ← readU32 eof; readMutations opCount.toNat new) d.serialize
      ((d.sorted.map resetEntry).foldl absorb new) := by
    apply (reads_u32 eof (.ofNat d.mutations.entries.length)).bind
    rw [hcount]
    exact reads_readMutations hfits new
  -- what is read is put into the map key by key, and no key comes twice
  have hkeys : (d.sorted.map resetEntry).NodupKeys := by
    have hmap : (d.sorted.map resetEntry).keys = d.sorted.keys := by
      unfold List.keys
      rw [List.map_map]
      rfl
    unfold List.NodupKeys
    rw [hmap]
    exact (List.perm_nodupKeys d.perm_sorted).mpr d.mutations.nodupKeys
  have hentries := @entries_foldl_absorb _ new hkeys fun e _ => AList.notMem_empty e.1
  rw [show new.mutations.entries = [] from rfl, List.append_nil] at hentries
  refine ⟨(d.sorted.map resetEntry).foldl absorb new, ?_, ?_, ?_, ?_, ?_⟩
  · have hrun := hreads []
    rw [List.append_nil] at hrun
    unfold deserialize
    rw [hrun]
    rfl
  · intro key
    show List.dlookup key _ = (d.mutations.entries.dlookup key).map _
    rw [List.perm_dlookup key (AList.nodupKeys _) hentries, lookup_map_resetLsn,
      List.perm_dlookup key ((List.perm_nodupKeys d.perm_sorted).mpr d.mutations.nodupKeys) d.perm_sorted]
  · show List.length _ = d.mutations.entries.length
    rw [hentries.length_eq, List.length_map, hlen]
  · rw [size_foldl_absorb, List.map_map, h.size]
    have hsum := (d.perm_sorted.map fun e => e.2.size).sum_nat
    have hsame : (fun e : KeyEntry => e.2.size) ∘ resetEntry = fun e => e.2.size := by
      funext e
      exact e.2.size_resetLsn
    rw [hsame]
    exact (Nat.zero_add _).trans hsum
  · rw [operationCount_foldl_absorb, List.length_map, hlen, h.count]
    exact Nat.zero_add _

/-- The keys with what their mutations leave, in order. -/
def contents (d : DeltaLayer) : List (Bytes × Option Bytes) := d.sorted.map fun e => (e.1, e.2.content)

def contentBytes : Bytes × Option Bytes → Bytes
  | (key, some value) =>
    [mutationTypePut] ++ ([.ofNat key.length] ++ (key ++ (u32 (.ofNat value.length) ++ value)))
  | (key, none) => [mutationTypeDelete] ++ ([.ofNat key.length] ++ (key ++ u32 0))

theorem serialize_eq (d : DeltaLayer) :
    d.serialize = u32 (.ofNat d.contents.length) ++ (d.contents.map contentBytes).flatten := by
  have hbytes : (fun e : KeyEntry => e.2.bytes e.1) = contentBytes ∘ fun e => (e.1, e.2.content) := by
    funext e
    obtain ⟨key, entry⟩ := e
    cases entry <;> rfl
  unfold serialize contents
  rw [List.length_map, List.map_map, d.perm_sorted.length_eq, hbytes]

theorem pairwise_sorted (d : DeltaLayer) : d.sorted.Pairwise fun a b => a.1 < b.1 := by
  have hle : d.sorted.Pairwise fun a b => a.1 ≤ b.1 := by
    have hsort := @List.pairwise_mergeSort KeyEntry (fun a b => decide (a.1 ≤ b.1))
      (fun a b c hab hbc => decide_eq_true (le_trans (of_decide_eq_true hab) (of_decide_eq_true hbc)))
      (fun a b => by
        rcases le_total a.1 b.1 with h | h
        · simp [h]
        · simp [h])
      d.mutations.entries
    exact hsort.imp of_decide_eq_true
  have hne : d.sorted.Pairwise fun a b => a.1 ≠ b.1 :=
    List.nodupKeys_iff_pairwise.mp ((List.perm_nodupKeys d.perm_sorted).mpr d.mutations.nodupKeys)
  exact (hle.and hne).imp fun h => lt_of_le_of_ne h.1 h.2

theorem pairwise_contents (d : DeltaLayer) : d.contents.Pairwise fun a b => a.1 < b.1 :=
  List.pairwise_map.mpr d.pairwise_sorted

theorem mem_contents {content : Option Bytes} :
    (key, content) ∈ d.contents ↔ (d.get key).map MutationEntry.content = some content := by
  unfold contents
  rw [List.mem_map, Option.map_eq_some_iff]
  constructor
  · rintro ⟨⟨k, entry⟩, hmem, heq⟩
    cases heq
    exact ⟨entry, AList.mem_lookup_iff.mpr (d.perm_sorted.mem_iff.mp hmem), rfl⟩
  · rintro ⟨entry, hget, rfl⟩
    exact ⟨⟨key, entry⟩, d.perm_sorted.mem_iff.mpr (AList.mem_lookup_iff.mp hget), rfl⟩

theorem serialize_congr
    (h : ∀ key, (d.get key).map MutationEntry.content = (t.get key).map MutationEntry.content) :
    d.serialize = t.serialize := by
  have hnodup : ∀ d : DeltaLayer, d.contents.Nodup :=
    fun d => d.pairwise_contents.imp fun hlt heq => absurd (congrArg Prod.fst heq) (ne_of_lt hlt)
  have hperm : d.contents.Perm t.contents := by
    apply (List.perm_ext_iff_of_nodup (hnodup d) (hnodup t)).mpr
    rintro ⟨key, content⟩
    rw [mem_contents, mem_contents, h key]
  have heq : d.contents = t.contents :=
    hperm.eq_of_pairwise (fun a b _ _ hab hba => absurd hba (not_lt_of_gt hab)) d.pairwise_contents
      t.pairwise_contents
  rw [serialize_eq, serialize_eq, heq]

/-- A layer comes back from its image with its LSNs reset, and every order of calls that leaves the same content
gives the same image. -/
theorem delta_round_trip {calls : List DeltaCall} {d : DeltaLayer} (h : build calls = .ok d) :
    (∃ t, deserialize d.serialize = .ok t ∧ (∀ key, t.get key = (d.get key).map MutationEntry.resetLsn) ∧
      t.len = d.len ∧ t.size = d.size ∧ t.operationCount = d.operationCount) ∧
    ∀ others t, build others = .ok t →
      (∀ key, (d.get key).map MutationEntry.content = (t.get key).map MutationEntry.content) →
      t.serialize = d.serialize :=
  ⟨(tallied_build h).deserialize_serialize, fun _ _ _ hsame => (serialize_congr hsame).symm⟩

theorem delta_round_trip_two_keys :
    ∃ d, build [.recordPut [2] [7] 5, .recordDelete [] 6] = .ok d ∧ ∃ t, deserialize d.serialize = .ok t ∧ t.len = d.len := by
  refine ⟨_, rfl, ?_⟩
  obtain ⟨t, hok, -, hlen, -⟩ :=
    (delta_round_trip (show build [.recordPut [2] [7] 5, .recordDelete [] 6] = .ok _ from rfl)).1
  exact ⟨t, hok, hlen⟩

open Runs

/-- A call that fails leaves the layer as it is. -/
def step (d : DeltaLayer) (c : DeltaCall) : Option DeltaLayer := some ((d.call c).toOption.getD d)

/-- A delete that the layer takes finds room for its entry beside those that stay. -/
def DeleteFits (d : DeltaLayer) : DeltaCall → Prop
  | .recordDelete key _ => key.length ≤ maxKeySize → d.operationCount < maxOperationsPerTxn →
      d.size + (key.length + mutationOverhead) ≤ maxDeltaSize + d.replaced key
  | _ => True

theorem Tallied.step {d t : DeltaLayer} (h : d.Tallied) {c : DeltaCall} (hstep : d.step c = some t) : t.Tallied := by
  cases hstep
  cases hcall : d.call c with
  | error e => exact h
  | ok t => exact h.call hcall

theorem Tallied.size_le_iff (h : d.Tallied) (hsize : d.size ≤ maxDeltaSize)
    (hstep : d.step c = some t) : t.size ≤ maxDeltaSize ↔ d.DeleteFits c := by
  cases hstep
  cases c with
  | recordPut key value lsn =>
    -- a put checks the room it takes, a delete does not
    apply iff_of_true _ trivial
    show ((d.recordPut key value lsn).toOption.getD d).size ≤ _
    cases hcall : d.recordPut key value lsn with
    | error e => exact hsize
    | ok t =>
      obtain ⟨-, -, -, hroom, rfl⟩ := recordPut_eq_ok hcall
      have hrecord := h.size_record key (.put key value lsn (key.length + value.length + mutationOverhead))
      have hnew : (MutationEntry.put key value lsn (key.length + value.length + mutationOverhead)).size =
        key.length + value.length + mutationOverhead := rfl
      show (d.record _ _).size ≤ _
      omega
  | recordDelete key lsn =>
    show ((d.recordDelete key lsn).toOption.getD d).size ≤ _ ↔ (_ → _ → _)
    by_cases hkey : key.length ≤ maxKeySize
    · by_cases hcount : d.operationCount < maxOperationsPerTxn
      · have hrecord := h.size_record key (.delete key lsn (key.length + mutationOverhead))
        have hnew : (MutationEntry.delete key lsn (key.length + mutationOverhead)).size =
          key.length + mutationOverhead := rfl
        rw [recordDelete_of_fits lsn hkey hcount]
        show (d.record _ _).size ≤ _ ↔ _
        constructor
        · intro hle _ _
          omega
        · intro hfits
          have hroom := hfits hkey hcount
          omega
      · have hcall : (d.recordDelete key lsn).toOption = none := by
          unfold recordDelete
          rw [if_neg (Nat.not_lt.mpr hkey), if_pos (Nat.not_lt.mp hcount)]
          rfl
        rw [hcall]
        exact iff_of_true hsize fun _ hlt => absurd hlt hcount
    · have hcall : (d.recordDelete key lsn).toOption = none := by
        unfold recordDelete
        rw [if_pos (Nat.not_le.mp hkey)]
        rfl
      rw [hcall]
      exact iff_of_true hsize fun hle => absurd hle hkey
  | clear => exact iff_of_true (Nat.zero_le _) trivial

theorem tallied_run (h : run step new calls = some d) : d.Tallied :=
  invariant_of_forall (fun _ _ _ hs hstep => hs.step hstep) tallied_new h

structure WithinLimits (d : DeltaLayer) : Prop where
  size : d.size = (d.mutations.entries.map fun e => e.2.size).sum
  count : d.operationCount = d.mutations.keys.toFinset.card
  bounded : d.size ≤ maxDeltaSize

theorem Tallied.withinLimits_iff (h : d.Tallied) : d.WithinLimits ↔ d.size ≤ maxDeltaSize := by
  constructor
  · exact fun hlimits => hlimits.bounded
  · intro hle
    refine ⟨h.size, ?_, hle⟩
    rw [List.toFinset_card_of_nodup d.mutations.keys_nodup, h.count]
    exact (List.length_map _).symm

/-- Every layer on the way is within its limits exactly when every delete finds room. -/
theorem delta_limits_iff (calls : List DeltaCall) :
    (∀ before d, before <+: calls → run step new before = some d → d.WithinLimits) ↔
      Meets step DeleteFits new calls := by
  obtain ⟨t, hrun⟩ := exists_run (fun d call => ⟨_, rfl⟩) new calls
  have hiff := meets_iff (I := Tallied) (P := fun d => d.size ≤ maxDeltaSize) (F := fun _ _ => True)
    (C := DeleteFits) (fun _ _ _ hs _ hstep => hs.step hstep)
    (fun _ _ _ hs hsize _ hstep => hs.size_le_iff hsize hstep) tallied_new (Nat.zero_le _) meets_true hrun
  rw [hiff]
  constructor
  · exact fun h before d hbefore hd => (h before d hbefore hd).bounded
  · exact fun h before d hbefore hd => (tallied_run hd).withinLimits_iff.mpr (h before d hbefore hd)

theorem run_put_delete (h : value.length = 16777184) :
    ∃ d, run step new [.recordPut [] value 0, .recordDelete [1] 0] = some d ∧ d.size = maxDeltaSize + 33 := by
  have hput : new.recordPut [] value 0 = .ok (new.record [] (.put [] value 0 (0 + value.length + 32))) := by
    apply recordPut_of_fits 0 (by decide) _ (by decide) _
    · rw [h]
      decide
    · rw [h]
      decide
  have hdelete := @recordDelete_of_fits (new.record [] (.put [] value 0 (0 + value.length + 32))) [1] 0 (by decide)
    (show 0 + 1 < maxOperationsPerTxn by decide)
  refine ⟨(new.record [] (.put [] value 0 (0 + value.length + 32))).record [1] (.delete [1] 0 33), ?_, ?_⟩
  · apply run_cons.mpr
    refine ⟨new.record [] (.put [] value 0 (0 + value.length + 32)), ?_, ?_⟩
    · show some ((new.recordPut [] value 0).toOption.getD new) = _
      rw [hput]
      rfl
    · apply run_cons.mpr
      refine ⟨_, ?_, rfl⟩
      show some ((DeltaLayer.recordDelete _ [1] 0).toOption.getD _) = _
      rw [hdelete]
      rfl
  · show 0 + (0 + value.length + 32) + 33 = _
    rw [h]
    rfl

/-- A put that fills the layer to its last byte, and a delete of another key. -/
theorem delete_exceeds_limit :
    ∃ d, run step new [.recordPut [] (List.replicate 16777184 0) 0, .recordDelete [1] 0] = some d ∧
      d.size = maxDeltaSize + 33 :=
  run_put_delete List.length_replicate

end DeltaLayer

end Northstar.Delta
