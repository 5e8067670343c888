import Northstar.Zig.Claims

/-!
# Owners — one agent for a task

The keys that `claimTask` and `completeTask` write are described by a map from tasks to agents: a claim adds
a task to it, and a completion takes it out.  Reads see the last write of the transaction, so that the map
goes on from call to call and from transaction to transaction.
-/

namespace Northstar.Zig

open Bytes EStateM

theorem bufPrint_of_le {size : Nat} {text : Bytes} (h : text.length ≤ size) : bufPrint size text = .ok text :=
  if_pos h

theorem parseDigits_append (negative : Bool) (xs ys : Bytes) (acc : Nat) :
    parseDigits negative acc (xs ++ ys) = (parseDigits negative acc xs).bind fun n =>
      parseDigits negative n ys := by
  induction xs generalizing acc with
  | nil => rfl
  | cons c cs ih =>
    rw [List.cons_append, parseDigits, parseDigits]
    repeat' split
    · exact ih _
    · rfl
    · rfl
    · exact ih _
    · rfl

theorem parseDigits_digit {acc d : Nat} (hd : d < 10) (h : acc * 10 + d < 2 ^ 32) :
    parseDigits false acc [Decimal.digit d] = .ok (acc * 10 + d) := by
  have hvalue : (Decimal.digit d).toNat - 48 = d := by
    rw [Decimal.toNat_digit hd]
    omega
  have hdigit : 48 ≤ (Decimal.digit d).toNat ∧ (Decimal.digit d).toNat ≤ 57 := by
    rw [Decimal.toNat_digit hd]
    omega
  have hunderscore : Decimal.digit d ≠ 95 := by
    intro heq
    rw [heq] at hdigit
    exact absurd hdigit.2 (by decide)
  unfold parseDigits
  rw [if_neg hunderscore, if_pos hdigit, if_neg (fun h => Bool.false_ne_true h.1), hvalue,
    if_neg (Nat.not_le_of_lt h)]
  rfl

theorem parseDigits_format {n : Nat} (h : n < 2 ^ 32) : parseDigits false 0 (Decimal.format n) = .ok n := by
  induction n using Nat.strong_induction_on with
  | _ n ih =>
    rw [Decimal.format_eq]
    split
    next hlt =>
      rw [parseDigits_digit hlt (by omega)]
      congr 1
      omega
    next hge =>
      rw [parseDigits_append, ih (n / 10) (by omega) (by omega)]
      show parseDigits false (n / 10) _ = _
      rw [parseDigits_digit (Nat.mod_lt _ (by decide)) (by omega)]
      congr 1
      omega

theorem parseInt_format {n : Nat} (h : n < 2 ^ 32) : parseInt (Decimal.format n) = .ok n := by
  have hparse := parseDigits_format h
  have hdigits : ∀ b ∈ Decimal.format n, Decimal.IsDigit b := fun b hb => Decimal.isDigit_of_mem_format hb
  have hnil := Decimal.format_ne_nil n
  generalize Decimal.format n = text at hparse hdigits hnil
  have hunsigned : parseUnsigned false text = .ok n := by
    unfold parseUnsigned
    rw [if_neg, hparse]
    rintro (hempty | hfirst | hlast)
    · exact hnil hempty
    · exact absurd (hdigits 95 (List.mem_of_head? hfirst)).2 (by decide)
    · exact absurd (hdigits 95 (List.mem_of_getLast? hlast)).2 (by decide)
  unfold parseInt
  split
  · exact absurd (hdigits 43 (List.mem_cons_self ..)).1 (by decide)
  · exact absurd (hdigits 45 (List.mem_cons_self ..)).1 (by decide)
  · exact hunsigned

theorem UInt64.length_format (x : UInt64) : (Decimal.format x.toNat).length ≤ 20 :=
  Decimal.length_format_le (by decide) (Nat.lt_of_lt_of_le x.toNat_lt (by decide))

theorem Int64.length_formatInt (x : Int64) : (Decimal.formatInt x.toInt).length ≤ 32 := by
  have hle : x.toInt.natAbs < 10 ^ 20 := by
    have hupper := x.toInt_lt
    have hlower := x.le_toInt
    omega
  have hlength := Decimal.length_format_le (by decide) hle
  unfold Decimal.formatInt
  split
  · rw [List.length_cons]
    omega
  · omega

theorem claimKey_inj {t t' a a' : UInt64} (h : claimKey t a = claimKey t' a') : t = t' ∧ a = a' := by
  have hsep : ¬ Decimal.IsDigit 58 := fun hdigit => absurd hdigit.2 (by decide)
  rcases Decimal.append_cons_inj (Decimal.notMem_format hsep _) (Decimal.notMem_format hsep _)
    (List.append_cancel_left h) with ⟨ht, ha⟩
  exact ⟨UInt64.toNat.inj (Decimal.format_injective ht), UInt64.toNat.inj (Decimal.format_injective ha)⟩

theorem claimedKey_inj {t t' : UInt64} (h : claimedKey t = claimedKey t') : t = t' :=
  UInt64.toNat.inj (Decimal.format_injective (List.append_cancel_left h))

theorem agentKey_inj {a a' : UInt64} (h : agentKey a = agentKey a') : a = a' :=
  UInt64.toNat.inj (Decimal.format_injective (List.append_cancel_right (List.append_cancel_left h)))

theorem claimKey_ne_claimedKey (t a t' : UInt64) : claimKey t a ≠ claimedKey t' := by
  simp [claimKey, claimedKey]

theorem claimKey_ne_agentKey (t a a' : UInt64) : claimKey t a ≠ agentKey a' := by
  simp [claimKey, agentKey]

theorem claimedKey_ne_agentKey (t a : UInt64) : claimedKey t ≠ agentKey a := by
  simp [claimedKey, agentKey]

theorem claimKey_ne_completedKey (t a t' : UInt64) : claimKey t a ≠ completedKey t' := by
  simp [claimKey, completedKey]

theorem claimedKey_ne_completedKey (t t' : UInt64) : claimedKey t ≠ completedKey t' := by
  simp [claimedKey, completedKey]

theorem agentKey_ne_completedKey (a t : UInt64) : agentKey a ≠ completedKey t := by
  simp [agentKey, completedKey]

namespace WriteTxn

/-- The mutations and the write set tell the same of every key. -/
def Tracks (txn : WriteTxn) : Prop := ∀ key, txn.getPendingMutation key = txn.writes key

theorem getPendingMutation_append (txn : WriteTxn) (mutation : Mutation) (writes : Model.Writes)
    (key : Bytes) :
    getPendingMutation { txn with mutations := txn.mutations ++ [mutation], writes := writes } key =
      if mutation.getKey = key then
        some (match mutation with
          | .put _ value => some value
          | .delete _ => none)
      else txn.getPendingMutation key := by
  unfold getPendingMutation
  rw [List.reverse_append, List.reverse_singleton, List.singleton_append]
  by_cases h : mutation.getKey = key
  · rw [List.find?_cons_of_pos (by simpa using h), if_pos h]
    rfl
  · rw [List.find?_cons_of_neg (by simpa using h), if_neg h]

theorem Tracks.put {txn : WriteTxn} (h : txn.Tracks) (key value : Bytes) : (txn.put key value).Tracks := by
  intro other
  show getPendingMutation { txn with mutations := _, writes := _ } other = _
  rw [getPendingMutation_append]
  show (if key = other then some (some value) else txn.getPendingMutation other) =
    Function.update txn.writes key (some (some value)) other
  rw [Function.update_apply]
  by_cases heq : key = other
  · rw [if_pos heq, if_pos heq.symm]
  · rw [if_neg heq, if_neg (Ne.symm heq)]
    exact h other

theorem Tracks.del {txn : WriteTxn} (h : txn.Tracks) (key : Bytes) : (txn.del key).Tracks := by
  intro other
  show getPendingMutation { txn with mutations := _, writes := _ } other = _
  rw [getPendingMutation_append]
  show (if key = other then some none else txn.getPendingMutation other) =
    Function.update txn.writes key (some none) other
  rw [Function.update_apply]
  by_cases heq : key = other
  · rw [if_pos heq, if_pos heq.symm]
  · rw [if_neg heq, if_neg (Ne.symm heq)]
    exact h other

end WriteTxn

/-- The transaction of a database in memory reads this map. -/
structure Sees (db : Db) (txn : WriteTxn) (M : SnapshotState) : Prop where
  memory : db.file = none
  tracks : txn.Tracks
  base : ∃ base, db.model.history db.model.currentTxnId = some base ∧ M = Model.applyWrites base txn.writes

namespace Sees

variable {db : Db} {txn : WriteTxn} {M : SnapshotState}

theorem get_eq (h : Sees db txn M) (fuel : Nat) (key : Bytes) : txn.get db fuel key = .ok (M key) := by
  rcases h.base with ⟨base, hbase, rfl⟩
  have hread : db.model.beginRead db.model.currentTxnId = .ok base := by
    unfold Model.beginRead
    rw [hbase]
  unfold WriteTxn.get Model.applyWrites
  rw [h.tracks key, h.memory, hread]
  cases txn.writes key <;> rfl

theorem run_read (h : Sees db txn M) (fuel : Nat) (key : Bytes) :
    (TxnM.read db fuel key).run txn = .ok (M key) txn := by
  unfold TxnM.read EStateM.run
  dsimp only
  rw [h.get_eq]

theorem put (h : Sees db txn M) (key value : Bytes) :
    Sees db (txn.put key value) (Function.update M key (some value)) := by
  rcases h.base with ⟨base, hbase, rfl⟩
  refine ⟨h.memory, h.tracks.put key value, base, hbase, ?_⟩
  funext other
  show _ = Model.applyWrites base (Function.update txn.writes key (some (some value))) other
  unfold Model.applyWrites
  rw [Function.update_apply, Function.update_apply]
  split <;> rfl

theorem del (h : Sees db txn M) (key : Bytes) : Sees db (txn.del key) (Function.update M key none) := by
  rcases h.base with ⟨base, hbase, rfl⟩
  refine ⟨h.memory, h.tracks.del key, base, hbase, ?_⟩
  funext other
  show _ = Model.applyWrites base (Function.update txn.writes key (some none)) other
  unfold Model.applyWrites
  rw [Function.update_apply, Function.update_apply]
  split <;> rfl

end Sees

/-- The number of tasks an agent holds. -/
noncomputable def held (owner : UInt64 → Option UInt64) (agentId : UInt64) : Nat :=
  Set.ncard {taskId | owner taskId = some agentId}

/-- The keys tell which agent holds which task. -/
structure Owners (M : SnapshotState) (owner : UInt64 → Option UInt64) : Prop where
  claim : ∀ taskId agentId, M (claimKey taskId agentId) ≠ none ↔ owner taskId = some agentId
  claimed : ∀ taskId, M (claimedKey taskId) =
    (owner taskId).map fun agentId => Decimal.format agentId.toNat
  active : ∀ agentId value, M (agentKey agentId) = some value →
    value = Decimal.format (held owner agentId) ∧ held owner agentId < 2 ^ 32
  idle : ∀ agentId, M (agentKey agentId) = none → held owner agentId = 0

section Held

variable {owner : UInt64 → Option UInt64} {taskId agentId : UInt64}

theorem finite_tasks (tasks : Set UInt64) : tasks.Finite := by
  have hfinite : Finite UInt64 := Finite.of_injective UInt64.toFin fun _ _ h => UInt64.toFin_inj.mp h
  exact tasks.toFinite

theorem held_claim (hfree : owner taskId = none) :
    held (Function.update owner taskId (some agentId)) agentId = held owner agentId + 1 := by
  have hset : {t | Function.update owner taskId (some agentId) t = some agentId} =
      insert taskId {t | owner t = some agentId} := by
    ext t
    simp only [Set.mem_ofPred_eq, Set.mem_insert_iff, Function.update_apply]
    by_cases heq : t = taskId <;> simp [heq]
  unfold held
  rw [hset, Set.ncard_insert_of_notMem _ (finite_tasks _)]
  show ¬ owner taskId = some agentId
  rw [hfree]
  exact nofun

theorem held_complete (howner : owner taskId = some agentId) :
    held (Function.update owner taskId none) agentId + 1 = held owner agentId := by
  have hset : {t | Function.update owner taskId none t = some agentId} =
      {t | owner t = some agentId} \ {taskId} := by
    ext t
    simp only [Set.mem_ofPred_eq, Set.mem_sdiff, Set.mem_singleton_iff, Function.update_apply]
    by_cases heq : t = taskId <;> simp [heq]
  unfold held
  rw [hset]
  exact Set.ncard_sdiff_singleton_add_one howner (finite_tasks _)

theorem held_update_ne {other : UInt64} {value : Option UInt64} (hvalue : value ≠ some other)
    (howner : owner taskId ≠ some other) :
    held (Function.update owner taskId value) other = held owner other := by
  unfold held
  congr 1
  ext t
  simp only [Set.mem_ofPred_eq, Function.update_apply]
  by_cases heq : t = taskId
  · simp [heq, hvalue, howner]
  · simp [heq]

end Held

namespace Owners

variable {M : SnapshotState} {owner : UInt64 → Option UInt64} {taskId agentId : UInt64}

theorem getD_active (h : Owners M owner) (agentId : UInt64) :
    (M (agentKey agentId)).getD [48] = Decimal.format (held owner agentId) ∧
      held owner agentId < 2 ^ 32 := by
  cases hactive : M (agentKey agentId) with
  | some value => exact h.active agentId value hactive
  | none =>
    rw [h.idle agentId hactive]
    exact ⟨rfl, by decide⟩

theorem put_completedKey (h : Owners M owner) (taskId : UInt64) (value : Bytes) :
    Owners (Function.update M (completedKey taskId) (some value)) owner where
  claim t a := by
    rw [Function.update_of_ne (claimKey_ne_completedKey _ _ _)]
    exact h.claim t a
  claimed t := by
    rw [Function.update_of_ne (claimedKey_ne_completedKey _ _)]
    exact h.claimed t
  active a v hv := by
    rw [Function.update_of_ne (agentKey_ne_completedKey _ _)] at hv
    exact h.active a v hv
  idle a hnone := by
    rw [Function.update_of_ne (agentKey_ne_completedKey _ _)] at hnone
    exact h.idle a hnone

/-- The keys of one task and one agent are written, and no other agent gets the task or gives it away. -/
theorem assign (h : Owners M owner) {next : Option UInt64} {claim : Option Bytes}
    (hothers : ∀ a, a ≠ agentId → next ≠ some a ∧ owner taskId ≠ some a) (hclaim : claim ≠ none ↔ next = some agentId)
    (hlt : held (Function.update owner taskId next) agentId < 2 ^ 32) :
    Owners (Function.update (Function.update (Function.update M (claimKey taskId agentId) claim)
        (claimedKey taskId) (next.map fun agentId => Decimal.format agentId.toNat))
        (agentKey agentId) (some (Decimal.format (held (Function.update owner taskId next) agentId))))
      (Function.update owner taskId next) where
  claim t a := by
    rw [Function.update_of_ne (claimKey_ne_agentKey _ _ _),
      Function.update_of_ne (claimKey_ne_claimedKey _ _ _)]
    by_cases hsame : claimKey t a = claimKey taskId agentId
    · rcases claimKey_inj hsame with ⟨rfl, rfl⟩
      rw [Function.update_self, Function.update_self]
      exact hclaim
    · rw [Function.update_of_ne hsame, h.claim]
      by_cases ht : t = taskId
      · subst ht
        have ha : a ≠ agentId := fun heq => hsame (congrArg (claimKey t) heq)
        rw [Function.update_self]
        exact iff_of_false (hothers a ha).2 (hothers a ha).1
      · rw [Function.update_of_ne ht]
  claimed t := by
    rw [Function.update_of_ne (claimedKey_ne_agentKey _ _)]
    by_cases ht : t = taskId
    · rw [ht, Function.update_self, Function.update_self]
    · rw [Function.update_of_ne fun heq => ht (claimedKey_inj heq),
        Function.update_of_ne (claimKey_ne_claimedKey _ _ _).symm, Function.update_of_ne ht]
      exact h.claimed t
  active a v hv := by
    by_cases ha : a = agentId
    · subst ha
      rw [Function.update_self] at hv
      cases hv
      exact ⟨rfl, hlt⟩
    · rw [Function.update_of_ne fun heq => ha (agentKey_inj heq),
        Function.update_of_ne (claimedKey_ne_agentKey _ _).symm,
        Function.update_of_ne (claimKey_ne_agentKey _ _ _).symm] at hv
      rw [held_update_ne (hothers a ha).1 (hothers a ha).2]
      exact h.active a v hv
  idle a hnone := by
    by_cases ha : a = agentId
    · subst ha
      rw [Function.update_self] at hnone
      cases hnone
    · rw [Function.update_of_ne fun heq => ha (agentKey_inj heq),
        Function.update_of_ne (claimedKey_ne_agentKey _ _).symm,
        Function.update_of_ne (claimKey_ne_agentKey _ _ _).symm] at hnone
      rw [held_update_ne (hothers a ha).1 (hothers a ha).2]
      exact h.idle a hnone

theorem claimTask (h : Owners M owner) (hfree : owner taskId = none) (value : Bytes)
    (hlt : held owner agentId + 1 < 2 ^ 32) :
    Owners (Function.update (Function.update (Function.update M (claimKey taskId agentId) (some value))
        (claimedKey taskId) (some (Decimal.format agentId.toNat)))
        (agentKey agentId) (some (Decimal.format (held owner agentId + 1))))
      (Function.update owner taskId (some agentId)) := by
  rw [← held_claim hfree] at hlt ⊢
  apply h.assign _ (iff_of_true (Option.some_ne_none value) rfl) hlt
  exact fun a ha => ⟨fun heq => ha (Option.some.inj heq).symm, by rw [hfree]; exact nofun⟩

theorem completeTask (h : Owners M owner) (howner : owner taskId = some agentId) (value : Bytes) :
    Owners (Function.update (Function.update (Function.update (Function.update M (completedKey taskId)
        (some value)) (claimKey taskId agentId) none) (claimedKey taskId) none)
        (agentKey agentId) (some (Decimal.format (held owner agentId - 1))))
      (Function.update owner taskId none) := by
  have hcount := held_complete howner
  have hlt := (h.getD_active agentId).2
  rw [← hcount, Nat.add_sub_cancel]
  have hothers : ∀ a, a ≠ agentId → none ≠ some a ∧ owner taskId ≠ some a := fun a ha =>
    ⟨(Option.some_ne_none a).symm, by rw [howner]; exact fun heq => ha (Option.some.inj heq).symm⟩
  exact (h.put_completedKey taskId value).assign hothers
    (iff_of_false (not_not.mpr rfl) (Option.some_ne_none agentId).symm) (by omega)

end Owners

namespace Sees

variable {db : Db} {txn : WriteTxn} {M : SnapshotState} {owner : UInt64 → Option UInt64}
  {taskId agentId : UInt64}

theorem run_bufPrint {size : Nat} {text : Bytes} (h : text.length ≤ size) (txn : WriteTxn) :
    (EStateM.lift (bufPrint size text) : TxnM Bytes).run txn = .ok text txn := by
  rw [bufPrint_of_le h, run_lift_ok]

theorem length_claimKey (taskId agentId : UInt64) : (claimKey taskId agentId).length ≤ 64 := by
  have htask := UInt64.length_format taskId
  have hagent := UInt64.length_format agentId
  simp only [claimKey, List.length_append, List.length_cons, List.length_nil]
  omega

theorem length_claimedKey (taskId : UInt64) : (claimedKey taskId).length ≤ 32 := by
  have htask := UInt64.length_format taskId
  simp only [claimedKey, List.length_append, List.length_cons, List.length_nil]
  omega

theorem length_taskKey (taskId : UInt64) : (taskKey taskId).length ≤ 32 := by
  have htask := UInt64.length_format taskId
  simp only [taskKey, List.length_append, List.length_cons, List.length_nil]
  omega

theorem length_completedKey (taskId : UInt64) : (completedKey taskId).length ≤ 32 := by
  have htask := UInt64.length_format taskId
  simp only [completedKey, List.length_append, List.length_cons, List.length_nil]
  omega

/-- 19 digits fit between `agent:` and `:active`. -/
theorem length_agentKey (h : agentId.toNat < 10 ^ 19) : (agentKey agentId).length ≤ 32 := by
  have hagent := Decimal.length_format_le (by decide) h
  simp only [agentKey, List.length_append, List.length_cons, List.length_nil]
  omega

theorem length_active {n : Nat} (h : n < 2 ^ 32) : (Decimal.format n).length ≤ 16 :=
  Decimal.length_format_le (by decide) (by omega)

theorem run_createClaim (h : Sees db txn M) (howners : Owners M owner) (hagent : agentId.toNat < 10 ^ 19)
    (hfree : owner taskId = none) (fuel : Nat) (claimTimestamp : Int64) :
    (∃ txn', (TxnM.createClaim db fuel (claimKey taskId agentId) (claimedKey taskId) agentId
        claimTimestamp).run txn = .error .panic txn') ∨
    ∃ txn' M', (TxnM.createClaim db fuel (claimKey taskId agentId) (claimedKey taskId) agentId
        claimTimestamp).run txn = .ok () txn' ∧ Sees db txn' M' ∧
      Owners M' (Function.update owner taskId (some agentId)) := by
  have hclaim := h.put (claimKey taskId agentId) (Decimal.formatInt claimTimestamp.toInt)
  have hclaimed := hclaim.put (claimedKey taskId) (Decimal.format agentId.toNat)
  have hread := hclaimed.run_read fuel (agentKey agentId)
  rw [Function.update_of_ne (claimedKey_ne_agentKey _ _).symm,
    Function.update_of_ne (claimKey_ne_agentKey _ _ _).symm] at hread
  have hactive := howners.getD_active agentId
  unfold TxnM.createClaim TxnM.put
  rw [run_bind_of_ok (run_bufPrint (Int64.length_formatInt _) _),
    run_bind_of_ok (run_modify ..),
    run_bind_of_ok (run_bufPrint ((UInt64.length_format _).trans (by decide)) _),
    run_bind_of_ok (run_modify ..),
    run_bind_of_ok (run_bufPrint (length_agentKey hagent) _),
    run_bind_of_ok hread, hactive.1, parseInt_format hactive.2,
    run_bind_of_ok (run_lift_ok _ _)]
  by_cases hlt : held owner agentId + 1 < 2 ^ 32
  · right
    refine ⟨_, _, ?_, hclaimed.put (agentKey agentId) (Decimal.format (held owner agentId + 1)),
      howners.claimTask hfree _ hlt⟩
    unfold TxnM.increment
    rw [if_pos hlt, run_bind_of_ok (run_lift_ok _ _),
      run_bind_of_ok (run_bufPrint (length_active hlt) _)]
    rfl
  · left
    unfold TxnM.increment
    rw [if_neg hlt, run_bind_of_error (run_lift_error _ _)]
    exact ⟨_, rfl⟩

theorem run_claimTask (h : Sees db txn M) (howners : Owners M owner) (hagent : agentId.toNat < 10 ^ 19)
    (taskId : UInt64) (fuel : Nat) (claimTimestamp : Int64) :
    (∃ txn', (TxnM.claimTask db fuel taskId agentId claimTimestamp).run txn = .error .panic txn') ∨
    ∃ claimed txn' M' owner', (TxnM.claimTask db fuel taskId agentId claimTimestamp).run txn =
      .ok claimed txn' ∧ Sees db txn' M' ∧ Owners M' owner' := by
  have hsame : ∃ claimed txn' M' owner', (EStateM.Result.ok false txn : EStateM.Result ClaimError _ _) =
      .ok claimed txn' ∧ Sees db txn' M' ∧ Owners M' owner' := ⟨false, txn, M, owner, rfl, h, howners⟩
  unfold TxnM.claimTask
  rw [run_bind_of_ok (run_bufPrint (length_claimKey taskId agentId) _),
    run_bind_of_ok (h.run_read fuel _)]
  split
  · exact .inr hsame
  · rw [run_bind_of_ok (run_bufPrint (length_taskKey taskId) _),
      run_bind_of_ok (h.run_read fuel _)]
    split
    · exact .inr hsame
    · rw [run_bind_of_ok (run_bufPrint (length_claimedKey taskId) _),
        run_bind_of_ok (h.run_read fuel _)]
      split
      · exact .inr hsame
      next hclaimed =>
        have hfree : owner taskId = none := by
          rw [howners.claimed] at hclaimed
          exact Option.map_eq_none_iff.mp (not_not.mp hclaimed)
        rcases h.run_createClaim howners hagent hfree fuel claimTimestamp with
          ⟨txn', hrun⟩ | ⟨txn', M', hrun, hsees, hnew⟩
        · left
          rw [run_bind_of_error hrun]
          exact ⟨txn', rfl⟩
        · right
          rw [run_bind_of_ok hrun]
          exact ⟨true, txn', M', _, rfl, hsees, hnew⟩

theorem run_completeClaim (h : Sees db txn M) (howners : Owners M owner)
    (hagent : agentId.toNat < 10 ^ 19) (howner : owner taskId = some agentId) (fuel : Nat)
    (completionTimestamp : Int64) :
    ∃ txn' M', (TxnM.completeClaim db fuel (claimKey taskId agentId) taskId agentId
        completionTimestamp).run txn = .ok () txn' ∧ Sees db txn' M' ∧
      Owners M' (Function.update owner taskId none) := by
  have hcompleted := h.put (completedKey taskId) (Decimal.formatInt completionTimestamp.toInt)
  have hclaim := hcompleted.del (claimKey taskId agentId)
  have hclaimed := hclaim.del (claimedKey taskId)
  have hread := hclaimed.run_read fuel (agentKey agentId)
  rw [Function.update_of_ne (claimedKey_ne_agentKey _ _).symm,
    Function.update_of_ne (claimKey_ne_agentKey _ _ _).symm,
    Function.update_of_ne (agentKey_ne_completedKey _ _)] at hread
  -- the agent holds a task, so that its count is there and is not 0
  have hpos : 0 < held owner agentId := by
    have hcount := held_complete howner
    omega
  have hactive : ∃ value, M (agentKey agentId) = some value := by
    apply Option.ne_none_iff_exists'.mp
    intro hnone
    have hzero := howners.idle agentId hnone
    omega
  rcases hactive with ⟨value, hvalue⟩
  rcases howners.active agentId value hvalue with ⟨rfl, hlt⟩
  rw [hvalue] at hread
  refine ⟨_, _, ?_, hclaimed.put (agentKey agentId) (Decimal.format (held owner agentId - 1)),
    howners.completeTask howner _⟩
  unfold TxnM.completeClaim TxnM.put TxnM.del
  rw [run_bind_of_ok (run_bufPrint (length_completedKey taskId) _),
    run_bind_of_ok (run_bufPrint (Int64.length_formatInt _) _),
    run_bind_of_ok (run_modify ..),
    run_bind_of_ok (run_modify ..),
    run_bind_of_ok (run_bufPrint (length_claimedKey taskId) _),
    run_bind_of_ok (run_modify ..),
    run_bind_of_ok (run_bufPrint (length_agentKey hagent) _),
    run_bind_of_ok hread]
  dsimp only
  unfold TxnM.decrementActive
  rw [parseInt_format hlt, run_bind_of_ok (run_lift_ok _ _), if_pos hpos,
    run_bind_of_ok (run_bufPrint (length_active (by omega)) _)]
  rfl

theorem run_completeTask (h : Sees db txn M) (howners : Owners M owner)
    (hagent : agentId.toNat < 10 ^ 19) (taskId : UInt64) (fuel : Nat) (completionTimestamp : Int64) :
    ∃ completed txn' M' owner', (TxnM.completeTask db fuel taskId agentId completionTimestamp).run txn =
      .ok completed txn' ∧ Sees db txn' M' ∧ Owners M' owner' := by
  unfold TxnM.completeTask
  rw [run_bind_of_ok (run_bufPrint (length_claimKey taskId agentId) _),
    run_bind_of_ok (h.run_read fuel _)]
  split
  · exact ⟨false, txn, M, owner, rfl, h, howners⟩
  next hclaim =>
    have howner := (howners.claim taskId agentId).mp hclaim
    rcases h.run_completeClaim howners hagent howner fuel completionTimestamp with
      ⟨txn', M', hrun, hsees, hnew⟩
    rw [run_bind_of_ok hrun]
    exact ⟨true, txn', M', _, rfl, hsees, hnew⟩

end Sees

/-- No key of a claim is there. -/
structure Unclaimed (M : SnapshotState) : Prop where
  claim : ∀ taskId agentId, M (claimKey taskId agentId) = none
  claimed : ∀ taskId, M (claimedKey taskId) = none
  active : ∀ agentId, M (agentKey agentId) = none

/-- A task has at most one claim, the index has the agent of the claim, and the count of an agent is the
number of its claims. -/
structure Exclusive (M : SnapshotState) : Prop where
  unique : ∀ taskId agentId other, M (claimKey taskId agentId) ≠ none → M (claimKey taskId other) ≠ none →
    agentId = other
  indexed : ∀ taskId, M (claimedKey taskId) ≠ none ↔ ∃ agentId, M (claimKey taskId agentId) ≠ none
  agent : ∀ taskId agentId, M (claimKey taskId agentId) ≠ none →
    M (claimedKey taskId) = some (Decimal.format agentId.toNat)
  counted : ∀ agentId value, M (agentKey agentId) = some value →
    value = Decimal.format (Set.ncard {taskId | M (claimKey taskId agentId) ≠ none})

theorem Owners.exclusive {M : SnapshotState} {owner : UInt64 → Option UInt64} (h : Owners M owner) :
    Exclusive M where
  unique taskId agentId other hclaim hother := by
    rw [h.claim] at hclaim hother
    exact Option.some.inj (hclaim.symm.trans hother)
  indexed taskId := by
    rw [h.claimed]
    simp only [h.claim]
    cases owner taskId with
    | none => simp
    | some agentId => simp
  agent taskId agentId hclaim := by
    rw [h.claimed, (h.claim taskId agentId).mp hclaim]
    rfl
  counted agentId value hvalue := by
    have hset : {taskId | M (claimKey taskId agentId) ≠ none} = {taskId | owner taskId = some agentId} := by
      ext taskId
      exact h.claim taskId agentId
    rw [hset]
    exact (h.active agentId value hvalue).1

theorem Unclaimed.owners {M : SnapshotState} (h : Unclaimed M) : Owners M fun _ => none where
  claim taskId agentId := by
    rw [h.claim]
    exact ⟨fun hne => absurd rfl hne, nofun⟩
  claimed taskId := h.claimed taskId
  active agentId value hvalue := by
    rw [h.active] at hvalue
    cases hvalue
  idle agentId _ := by
    have hempty : {taskId : UInt64 | (none : Option UInt64) = some agentId} = ∅ := by
      ext taskId
      simp
    unfold held
    rw [hempty, Set.ncard_empty]

namespace Session

/-- The session reads this map. -/
def Holds (s : Session) (M : SnapshotState) : Prop :=
  match s.txn with
  | some txn => Sees s.db txn M
  | none => s.db.file = none ∧ s.db.model.history s.db.model.currentTxnId = some M

variable {M : SnapshotState}

theorem Holds.lookup_eq {s : Session} (h : s.Holds M) (fuel : Nat) (key : Bytes) :
    s.lookup fuel key = .ok (M key) := by
  unfold Holds at h
  unfold lookup
  cases htxn : s.txn with
  | some txn =>
    rw [htxn] at h
    exact h.get_eq fuel key
  | none =>
    rw [htxn] at h
    unfold Db.beginReadLatest ReadTxn.get Model.beginRead
    dsimp only
    rw [h.1, h.2]
    rfl

def SessionEvent.AgentFits : SessionEvent → Prop
  | .claimTask _ agentId _ | .completeTask _ agentId _ => agentId.toNat < 10 ^ 19
  | _ => True

instance : DecidablePred SessionEvent.AgentFits
  | .claimTask _ _ _ | .completeTask _ _ _ => Nat.decLt _ _
  | .begin | .commit => .isTrue trivial

variable {owner : UInt64 → Option UInt64}

theorem step_holds {fuel : Nat} {s s' : Session} {e : SessionEvent}
    (h : s.Holds M) (howners : Owners M owner)
    (hagent : SessionEvent.AgentFits e) (hstep : s.step fuel e = some s') :
    ∃ M' owner', s'.Holds M' ∧ Owners M' owner' := by
  cases e with
  | begin =>
    unfold Session.step at hstep
    unfold Holds at h
    split at h
    next txn htxn =>
      rw [htxn] at hstep
      cases hstep
    next htxn =>
      rw [htxn] at hstep
      dsimp only at hstep
      by_cases hbusy : s.db.writerActive = true
      · rw [Db.run_beginWrite_busy hbusy] at hstep
        cases hstep
      · rw [Db.run_beginWrite_free (by simpa using hbusy)] at hstep
        cases hstep
        exact ⟨M, owner, ⟨h.1, fun _ => rfl, M, h.2, rfl⟩, howners⟩
  | commit =>
    unfold Session.step at hstep
    unfold Holds at h
    split at h
    next txn htxn =>
      rw [htxn] at hstep
      rcases h.base with ⟨base, hbase, rfl⟩
      dsimp only [Option.bind_some] at hstep
      rw [WriteTxn.run_commit_memory h.memory hbase] at hstep
      cases hstep
      exact ⟨_, owner, ⟨h.memory, Function.update_self ..⟩, howners⟩
    next htxn =>
      rw [htxn] at hstep
      cases hstep
  | claimTask taskId agentId claimTimestamp =>
    unfold Session.step at hstep
    unfold Holds at h
    split at h
    next txn htxn =>
      rw [htxn] at hstep
      dsimp only [Option.bind_some] at hstep
      rcases h.run_claimTask howners hagent taskId fuel claimTimestamp with
        ⟨txn', hrun⟩ | ⟨claimed, txn', M', owner', hrun, hsees, hnew⟩
      · rw [hrun] at hstep
        cases hstep
      · rw [hrun] at hstep
        cases hstep
        exact ⟨M', owner', hsees, hnew⟩
    next htxn =>
      rw [htxn] at hstep
      cases hstep
  | completeTask taskId agentId completionTimestamp =>
    unfold Session.step at hstep
    unfold Holds at h
    split at h
    next txn htxn =>
      rw [htxn] at hstep
      dsimp only [Option.bind_some] at hstep
      rcases h.run_completeTask howners hagent taskId fuel completionTimestamp with
        ⟨completed, txn', M', owner', hrun, hsees, hnew⟩
      rw [hrun] at hstep
      cases hstep
      exact ⟨M', owner', hsees, hnew⟩
    next htxn =>
      rw [htxn] at hstep
      cases hstep

theorem run_holds {fuel : Nat} {s s' : Session} {events : List SessionEvent}
    (h : s.Holds M) (howners : Owners M owner)
    (hagents : ∀ e ∈ events, SessionEvent.AgentFits e) (hrun : s.run fuel events = some s') :
    ∃ M' owner', s'.Holds M' ∧ Owners M' owner' := by
  induction events generalizing s M owner with
  | nil =>
    cases hrun
    exact ⟨M, owner, h, howners⟩
  | cons e es ih =>
    unfold Session.run at hrun
    rcases Option.bind_eq_some_iff.mp hrun with ⟨reached, hstep, hrest⟩
    rcases step_holds h howners (hagents e (List.mem_cons_self ..)) hstep with ⟨M', owner', hholds, hnew⟩
    exact ih hholds hnew (fun e' he' => hagents e' (List.mem_cons_of_mem _ he')) hrest

/-- **Claims are exclusive.**  After every call of a session. -/
theorem claims_exclusive (fuel : Nat) (db : Db) (base : SnapshotState) (hmemory : db.file = none)
    (hbase : db.model.history db.model.currentTxnId = some base) (hunclaimed : Unclaimed base)
    (events : List SessionEvent) (hagents : ∀ e ∈ events, SessionEvent.AgentFits e) (s : Session)
    (hrun : run fuel ⟨db, none⟩ events = some s) :
    ∃ M, (∀ key, s.lookup fuel key = .ok (M key)) ∧ Exclusive M := by
  have hstart : Holds ⟨db, none⟩ base := ⟨hmemory, hbase⟩
  rcases run_holds hstart hunclaimed.owners hagents hrun with ⟨M, owner, hholds, howners⟩
  exact ⟨M, hholds.lookup_eq fuel, howners.exclusive⟩

def oneTask : Db where
  model := ⟨1, Function.update Model.init.history 1 (some (Function.update (fun _ => none) (taskKey 42)
    (some [97])))⟩
  file := none
  nextTxnId := 2
  writerActive := false

/-- The task goes from agent 1 to agent 2. -/
def handOver : List SessionEvent :=
  [.begin, .claimTask 42 1 12346, .claimTask 42 2 12347, .commit, .begin, .completeTask 42 1 12350,
    .claimTask 42 2 12351]

theorem claims_exclusive_one_task : ∃ s, run 0 ⟨oneTask, none⟩ handOver = some s ∧
      ∃ M, (∀ key, s.lookup 0 key = .ok (M key)) ∧ Exclusive M := by
  have hunclaimed : Unclaimed (Function.update (fun _ => none) (taskKey 42) (some [97])) :=
    ⟨fun _ _ => Function.update_of_ne (by simp [claimKey, taskKey]) ..,
      fun _ => Function.update_of_ne (by simp [claimedKey, taskKey]) ..,
      fun _ => Function.update_of_ne (by simp [agentKey, taskKey]) ..⟩
  have hrun : ∃ s, run 0 ⟨oneTask, none⟩ handOver = some s := ⟨_, rfl⟩
  rcases hrun with ⟨s, hrun⟩
  exact ⟨s, hrun, claims_exclusive 0 oneTask _ rfl rfl hunclaimed handOver (by decide) s hrun⟩

end Session

end Northstar.Zig
