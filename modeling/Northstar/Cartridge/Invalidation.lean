import Northstar.Cartridge.Format
import Mathlib.Data.List.Infix

/-!
# Invalidation — the decisions of a policy, before and after storage

`InvalidationPolicy.shouldInvalidate` of `src/cartridges/format.zig`.  A pattern that checks the type of a mutation
and names none is stored like one that names any, so what matched nothing matches everything after a read.
-/

namespace Northstar.Cartridge

open Bytes Reader

inductive Mutation
  | put (key value : Bytes)
  | delete (key : Bytes)
  deriving Repr, DecidableEq

def Mutation.getKey : Mutation → Bytes
  | put key _ => key
  | delete key => key

structure CommitRecord where
  txnId : UInt64
  rootPageId : UInt64
  mutations : List Mutation
  checksum : UInt32
  deriving Repr, DecidableEq

/-- The `switch` on the type that a pattern names. -/
def InvalidationMutationType.matches : InvalidationMutationType → Mutation → Bool
  | .put, .put .. => true
  | .delete, .delete _ => true
  | .any, _ => true
  | _, _ => false

/-- The type is checked: no type is no match. -/
def InvalidationPattern.takes (self : InvalidationPattern) (mutation : Mutation) : Bool :=
  if !self.checkMutationType then true
  else
    match self.mutationType with
    | some mt => mt.matches mutation
    | none => false

def InvalidationPattern.hits (self : InvalidationPattern) (mutation : Mutation) : Bool :=
  self.keyPrefix.isPrefixOf mutation.getKey && self.takes mutation

namespace InvalidationPolicy

def init : InvalidationPolicy := ⟨86400, 100, 10000, []⟩

/-- The subtraction of the transaction ids overflows where the cartridge is ahead. -/
def shouldInvalidate (policy : InvalidationPolicy) (commitRecord : CommitRecord)
    (currentTxnId cartridgeTxnId : UInt64) : Except CartridgeError Bool :=
  if currentTxnId < cartridgeTxnId then .error .panic
  else if currentTxnId - cartridgeTxnId ≥ policy.maxNewTxns then .ok true
  else .ok (policy.patterns.any fun pattern => commitRecord.mutations.any pattern.hits)

/-- What `init` and `addPattern` make, with the limits that a caller sets. -/
inductive Built : InvalidationPolicy → Prop
  | init : Built init
  | addPattern {policy policy' : InvalidationPolicy} {pattern : InvalidationPattern} (h : Built policy)
      (hlength : pattern.keyPrefix.length ≤ 65535) (hadd : policy.addPattern pattern = .ok policy') : Built policy'
  | limits {policy : InvalidationPolicy} (h : Built policy) (maxAgeSeconds minNewTxns maxNewTxns : UInt64) :
      Built { policy with
        maxAgeSeconds := maxAgeSeconds
        minNewTxns := minNewTxns
        maxNewTxns := maxNewTxns }

/-- No more patterns than there is room for, and none with a prefix that is too long. -/
structure Storable (policy : InvalidationPolicy) : Prop where
  count : policy.patterns.length ≤ maxPatterns
  lengths : ∀ pattern ∈ policy.patterns, pattern.keyPrefix.length ≤ 65535

theorem Built.storable {policy : InvalidationPolicy} (h : Built policy) : policy.Storable := by
  induction h with
  | init => exact ⟨by decide, fun _ hp => absurd hp List.not_mem_nil⟩
  | limits _ _ _ _ ih => exact ⟨ih.count, ih.lengths⟩
  | addPattern _ hlength hadd ih =>
    unfold InvalidationPolicy.addPattern at hadd
    split at hadd
    · cases hadd
    next hroom =>
      cases hadd
      constructor
      · show (_ ++ [_]).length ≤ maxPatterns
        rw [List.length_append, List.length_singleton]
        omega
      · intro p hp
        rcases List.mem_append.mp hp with hp | hp
        · exact ih.lengths p hp
        · rw [List.mem_singleton.mp hp]
          exact hlength

end InvalidationPolicy

namespace InvalidationPattern

variable {p : InvalidationPattern}

/-- The bytes of a pattern whose prefix is not too long. -/
def encode (p : InvalidationPattern) : Bytes :=
  le 2 p.keyPrefix.length ++ (p.keyPrefix ++ ([if p.checkMutationType then 0x01 else 0] ++
    if p.checkMutationType then [mutationTypeByte p.mutationType] else []))

/-- What a stored pattern becomes. -/
def decoded (p : InvalidationPattern) : InvalidationPattern where
  keyPrefix := p.keyPrefix
  checkMutationType := p.checkMutationType
  mutationType := if p.checkMutationType then some (p.mutationType.getD .any) else none

theorem serialize_eq (h : p.keyPrefix.length ≤ 65535) : p.serialize = .ok p.encode := by
  unfold serialize intCast
  rw [if_pos (by omega), Except.ok_bind]
  rfl

theorem length_encode (p : InvalidationPattern) : p.encode.length = p.serializedSize := by
  unfold encode serializedSize
  simp only [List.length_append, length_le, List.length_singleton]
  split
  · rw [List.length_singleton]
    omega
  · rw [List.length_nil]
    omega

theorem reads_length (h : p.keyPrefix.length ≤ 65535) :
    Reads readInt16 (le 2 p.keyPrefix.length) (UInt16.ofNat p.keyPrefix.length) := by
  have hread := reads_u16 CartridgeError.endOfStream (UInt16.ofNat p.keyPrefix.length)
  unfold u16 at hread
  rwa [UInt16.toNat_ofNat', Nat.mod_eq_of_lt (by omega)] at hread

theorem reads_decoded (h : p.keyPrefix.length ≤ 65535) : Reads deserialize p.encode p.decoded := by
  unfold deserialize encode
  apply (reads_length h).bind
  rw [UInt16.toNat_ofNat', Nat.mod_eq_of_lt (by omega)]
  apply (reads_exact _ p.keyPrefix).bind
  cases hcheck : p.checkMutationType with
  | false =>
    apply (reads_u8 _ 0).bind
    show Reads _ [] _
    unfold decoded
    rw [hcheck]
    exact Reads.pure _
  | true =>
    apply (reads_u8 _ 1).bind
    apply (reads_u8 _ (mutationTypeByte p.mutationType)).bind_lift
    unfold decoded
    rw [hcheck]
    rcases hmt : p.mutationType with _ | mt
    · exact Reads.pure _
    · cases mt with
      | put => exact Reads.pure _
      | delete => exact Reads.pure _
      | any => exact Reads.pure _

/-- It checks the type and names none. -/
def Blank (p : InvalidationPattern) : Prop := p.checkMutationType = true ∧ p.mutationType = none

instance : DecidablePred Blank := fun _ => inferInstanceAs (Decidable (_ ∧ _))

variable {mutation : Mutation}

theorem hits_iff : p.hits mutation = true ↔ p.keyPrefix <+: mutation.getKey ∧ p.takes mutation = true := by
  unfold hits
  rw [Bool.and_eq_true, List.isPrefixOf_iff_prefix]

theorem takes_decoded_of_blank (h : p.Blank) : p.decoded.takes mutation = true := by
  unfold takes decoded
  rw [h.1, h.2]
  rfl

theorem takes_decoded_of_not_blank (h : ¬ p.Blank) : p.decoded.takes mutation = p.takes mutation := by
  unfold takes decoded
  cases hcheck : p.checkMutationType with
  | false => rfl
  | true =>
    rcases hmt : p.mutationType with _ | mt
    · exact absurd ⟨hcheck, hmt⟩ h
    · rfl

theorem takes_put (p : InvalidationPattern) (k v k' v' : Bytes) : p.takes (.put k v) = p.takes (.put k' v') := by
  unfold takes
  rcases p.mutationType with _ | mt
  · rfl
  · cases mt with
    | put => rfl
    | delete => rfl
    | any => rfl

theorem takes_delete (p : InvalidationPattern) (k k' : Bytes) : p.takes (.delete k) = p.takes (.delete k') := by
  unfold takes
  rcases p.mutationType with _ | mt
  · rfl
  · cases mt with
    | put => rfl
    | delete => rfl
    | any => rfl

theorem hits_put_of_longer {key k v : Bytes} (h : p.hits (.put key []) = true) (hkey : key <+: k) :
    p.hits (.put k v) = true := by
  rw [hits_iff] at h ⊢
  exact ⟨h.1.trans hkey, (takes_put p k v key []).trans h.2⟩

theorem hits_delete_of_longer {key k : Bytes} (h : p.hits (.delete key) = true) (hkey : key <+: k) :
    p.hits (.delete k) = true := by
  rw [hits_iff] at h ⊢
  exact ⟨h.1.trans hkey, (takes_delete p k key).trans h.2⟩

end InvalidationPattern

namespace InvalidationPolicy

open InvalidationPattern

variable {policy : InvalidationPolicy}

def encode (policy : InvalidationPolicy) : Bytes :=
  u64 policy.maxAgeSeconds ++ (u64 policy.minNewTxns ++ (u64 policy.maxNewTxns ++
    (u32 (.ofNat policy.patterns.length) ++ (policy.patterns.map InvalidationPattern.encode).flatten)))

def decoded (policy : InvalidationPolicy) : InvalidationPolicy :=
  { policy with patterns := policy.patterns.map InvalidationPattern.decoded }

theorem serialize_eq (h : policy.Storable) : policy.serialize = .ok policy.encode := by
  unfold serialize
  rw [Except.mapM_eq_ok_map fun p hp => InvalidationPattern.serialize_eq (h.lengths p hp), Except.ok_bind]
  rfl

theorem length_encode (policy : InvalidationPolicy) : policy.encode.length = policy.serializedSize := by
  unfold encode serializedSize
  simp only [List.length_append, length_u64, length_u32, List.length_flatten, List.map_map]
  rw [show List.length ∘ InvalidationPattern.encode = InvalidationPattern.serializedSize from
    funext InvalidationPattern.length_encode]
  omega

theorem reads_decoded (h : policy.Storable) : Reads deserialize policy.encode policy.decoded := by
  have hcount := h.count
  unfold maxPatterns at hcount
  have hword : (UInt32.ofNat policy.patterns.length).toNat = policy.patterns.length := by
    rw [UInt32.toNat_ofNat', Nat.mod_eq_of_lt (by omega)]
  unfold deserialize encode
  apply (reads_u64 _ _).bind
  apply (reads_u64 _ _).bind
  apply (reads_u64 _ _).bind
  apply (reads_u32 _ _).bind
  rw [hword, if_neg (Nat.not_lt.mpr h.count)]
  have hmany := Reads.many_map fun p hp => InvalidationPattern.reads_decoded (h.lengths p hp)
  exact hmany.map fun patterns => { policy with patterns := patterns }

/-- Serialized, the policy has the bytes that were announced; read back, it decides as before. -/
def Survives (policy : InvalidationPolicy) : Prop :=
  ∃ bytes stored, policy.serialize = .ok bytes ∧ bytes.length = policy.serializedSize ∧
    Reads deserialize bytes stored ∧
    ∀ (commitRecord : CommitRecord) (currentTxnId cartridgeTxnId : UInt64), cartridgeTxnId ≤ currentTxnId →
      stored.shouldInvalidate commitRecord currentTxnId cartridgeTxnId
        = policy.shouldInvalidate commitRecord currentTxnId cartridgeTxnId

/-- Every commit invalidates, or what a pattern without a type would take under its prefix after a read is taken
by others already. -/
def Covered (policy : InvalidationPolicy) : Prop :=
  policy.maxNewTxns = 0 ∨ ∀ p ∈ policy.patterns, p.Blank →
    (∃ q ∈ policy.patterns, q.hits (.put p.keyPrefix []) = true) ∧
      ∃ q ∈ policy.patterns, q.hits (.delete p.keyPrefix) = true

instance : Decidable policy.Covered := inferInstanceAs (Decidable (_ ∨ _))

/-- Some pattern hits some mutation of the commit. -/
def Hit (policy : InvalidationPolicy) (mutations : List Mutation) : Prop :=
  ∃ p ∈ policy.patterns, ∃ mutation ∈ mutations, p.hits mutation = true

variable {mutations : List Mutation}

theorem any_hits_iff :
    (policy.patterns.any fun pattern => mutations.any pattern.hits) = true ↔ policy.Hit mutations := by
  unfold Hit
  simp only [List.any_eq_true]

/-- A stored policy hits what the policy does, and whatever has the prefix of a blank pattern. -/
theorem hit_decoded_iff : policy.decoded.Hit mutations ↔
    policy.Hit mutations ∨ ∃ p ∈ policy.patterns, p.Blank ∧ ∃ mutation ∈ mutations, p.keyPrefix <+: mutation.getKey := by
  constructor
  · rintro ⟨p', hp', mutation, hmutation, hhits⟩
    obtain ⟨p, hp, rfl⟩ := List.mem_map.mp hp'
    rw [hits_iff] at hhits
    by_cases hblank : p.Blank
    · exact .inr ⟨p, hp, hblank, mutation, hmutation, hhits.1⟩
    · left
      refine ⟨p, hp, mutation, hmutation, hits_iff.mpr ⟨hhits.1, ?_⟩⟩
      rw [← takes_decoded_of_not_blank hblank]
      exact hhits.2
  · rintro (⟨p, hp, mutation, hmutation, hhits⟩ | ⟨p, hp, hblank, mutation, hmutation, hkey⟩)
    · rw [hits_iff] at hhits
      refine ⟨p.decoded, List.mem_map.mpr ⟨p, hp, rfl⟩, mutation, hmutation, hits_iff.mpr ⟨hhits.1, ?_⟩⟩
      by_cases hblank : p.Blank
      · exact takes_decoded_of_blank hblank
      · rw [takes_decoded_of_not_blank hblank]
        exact hhits.2
    · exact ⟨p.decoded, List.mem_map.mpr ⟨p, hp, rfl⟩, mutation, hmutation,
        hits_iff.mpr ⟨hkey, takes_decoded_of_blank hblank⟩⟩

theorem hit_decoded_of_covered (hcovered : ∀ p ∈ policy.patterns, p.Blank →
      (∃ q ∈ policy.patterns, q.hits (.put p.keyPrefix []) = true) ∧
        ∃ q ∈ policy.patterns, q.hits (.delete p.keyPrefix) = true) :
    policy.decoded.Hit mutations ↔ policy.Hit mutations := by
  rw [hit_decoded_iff, or_iff_left_iff_imp]
  rintro ⟨p, hp, hblank, mutation, hmutation, hkey⟩
  obtain ⟨⟨q, hq, hput⟩, q', hq', hdelete⟩ := hcovered p hp hblank
  cases mutation with
  | put k v => exact ⟨q, hq, _, hmutation, hits_put_of_longer hput hkey⟩
  | delete k => exact ⟨q', hq', _, hmutation, hits_delete_of_longer hdelete hkey⟩

theorem shouldInvalidate_eq {commitRecord : CommitRecord} {currentTxnId cartridgeTxnId : UInt64}
    (hle : cartridgeTxnId ≤ currentTxnId) :
    policy.shouldInvalidate commitRecord currentTxnId cartridgeTxnId
      = .ok (currentTxnId - cartridgeTxnId ≥ policy.maxNewTxns ||
          policy.patterns.any fun pattern => commitRecord.mutations.any pattern.hits) := by
  unfold shouldInvalidate
  rw [if_neg (UInt64.not_lt.mpr hle)]
  by_cases hmany : currentTxnId - cartridgeTxnId ≥ policy.maxNewTxns
  · rw [if_pos hmany, decide_eq_true hmany, Bool.true_or]
  · rw [if_neg hmany, decide_eq_false hmany, Bool.false_or]

theorem hit_of_same {mutation : Mutation} (hmax : policy.maxNewTxns ≠ 0)
    (hsame : ∀ (commitRecord : CommitRecord) (currentTxnId cartridgeTxnId : UInt64), cartridgeTxnId ≤ currentTxnId →
      policy.decoded.shouldInvalidate commitRecord currentTxnId cartridgeTxnId
        = policy.shouldInvalidate commitRecord currentTxnId cartridgeTxnId)
    (hstored : policy.decoded.Hit [mutation]) : policy.Hit [mutation] := by
  have hdecision := hsame ⟨0, 0, [mutation], 0⟩ 0 0 (UInt64.le_refl 0)
  rw [shouldInvalidate_eq (UInt64.le_refl 0), shouldInvalidate_eq (UInt64.le_refl 0)] at hdecision
  have hfew : decide ((0 : UInt64) - 0 ≥ policy.maxNewTxns) = false := by
    apply decide_eq_false
    intro hle
    exact hmax (UInt64.le_zero_iff.mp hle)
  have hequal := Except.ok.inj hdecision
  rw [show policy.decoded.maxNewTxns = policy.maxNewTxns from rfl, hfew, Bool.false_or, Bool.false_or] at hequal
  rw [← any_hits_iff, ← hequal, any_hits_iff]
  exact hstored

theorem survives_iff (h : policy.Storable) : policy.Survives ↔ policy.Covered := by
  constructor
  · rintro ⟨bytes, stored, hbytes, -, hreads, hsame⟩
    rw [serialize_eq h] at hbytes
    cases hbytes
    have hstored : stored = policy.decoded := by
      have hother := (hreads []).symm.trans (reads_decoded h [])
      exact (Prod.mk.inj (Except.ok.inj hother)).1
    rw [hstored] at hsame
    by_cases hmax : policy.maxNewTxns = 0
    · exact .inl hmax
    · right
      intro p hp hblank
      have hput : policy.Hit [.put p.keyPrefix []] := hit_of_same hmax hsame
        (hit_decoded_iff.mpr (.inr ⟨p, hp, hblank, _, List.mem_singleton_self _, List.prefix_refl _⟩))
      have hdelete : policy.Hit [.delete p.keyPrefix] := hit_of_same hmax hsame
        (hit_decoded_iff.mpr (.inr ⟨p, hp, hblank, _, List.mem_singleton_self _, List.prefix_refl _⟩))
      unfold Hit at hput hdelete
      simp only [List.mem_singleton, exists_eq_left] at hput hdelete
      exact ⟨hput, hdelete⟩
  · intro hcovered
    refine ⟨policy.encode, policy.decoded, serialize_eq h, length_encode policy, reads_decoded h, ?_⟩
    intro commitRecord currentTxnId cartridgeTxnId hle
    rw [shouldInvalidate_eq hle, shouldInvalidate_eq hle]
    show Except.ok (decide (_ ≥ policy.maxNewTxns) || _) = _
    rcases hcovered with hmax | hcovered
    · rw [hmax, decide_eq_true (UInt64.zero_le), Bool.true_or, Bool.true_or]
    · have hequal : (policy.decoded.patterns.any fun pattern => commitRecord.mutations.any pattern.hits)
          = policy.patterns.any fun pattern => commitRecord.mutations.any pattern.hits := by
        rw [Bool.eq_iff_iff, any_hits_iff, any_hits_iff]
        exact hit_decoded_of_covered hcovered
      rw [hequal]

/-- Storage keeps the decisions of a policy exactly where no pattern checks a type without naming one, or where
that makes no difference. -/
theorem policy_survives_iff {policy : InvalidationPolicy} (h : policy.Built) : policy.Survives ↔ policy.Covered :=
  survives_iff h.storable

/-- The policy of the tests: puts under `user:`. -/
theorem policy_survives_puts :
    Survives { InvalidationPolicy.init with patterns := [⟨ascii "user:", true, some .put⟩] } := by
  have hadd : InvalidationPolicy.init.addPattern ⟨ascii "user:", true, some .put⟩
      = .ok { InvalidationPolicy.init with patterns := [⟨ascii "user:", true, some .put⟩] } := rfl
  exact (policy_survives_iff (Built.addPattern Built.init (by decide +kernel) hadd)).mpr (by decide +kernel)

/-- The same prefix with the check and no type. -/
theorem policy_changes :
    ∃ policy, InvalidationPolicy.init.addPattern ⟨ascii "user:", true, none⟩ = .ok policy ∧ ¬ policy.Survives := by
  have hadd : InvalidationPolicy.init.addPattern ⟨ascii "user:", true, none⟩
      = .ok { InvalidationPolicy.init with patterns := [⟨ascii "user:", true, none⟩] } := rfl
  refine ⟨_, hadd, ?_⟩
  rw [survives_iff]
  · decide +kernel
  · exact (Built.addPattern Built.init (by decide +kernel) hadd).storable

end InvalidationPolicy

end Northstar.Cartridge
