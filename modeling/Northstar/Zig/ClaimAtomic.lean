import Northstar.Zig.Owners

/-!
# ClaimAtomic — all updates of a claim, or none

`claimTask` puts two keys before it formats the key of the agent's count and parses what is stored there;
`completeTask` has put one key and deleted two.  A failure after that leaves them in the transaction.
-/

namespace Northstar.Zig

open Bytes EStateM

variable {key text : Bytes} {n : Nat}

namespace WriteTxn

variable {other : Bytes}

theorem get_append_of_ne {txn : WriteTxn} {mutation : Mutation} {writes : Model.Writes}
    (hkey : mutation.getKey ≠ other) (hwrites : writes other = txn.writes other) (db : Db) (fuel : Nat) :
    get { txn with mutations := txn.mutations ++ [mutation], writes := writes } db fuel other =
      txn.get db fuel other := by
  unfold get
  rw [getPendingMutation_append, if_neg hkey]
  dsimp only
  rw [hwrites]

theorem get_put_of_ne (h : key ≠ other) (txn : WriteTxn) (value : Bytes) (db : Db)
    (fuel : Nat) : (txn.put key value).get db fuel other = txn.get db fuel other := by
  apply get_append_of_ne
  · exact h
  · exact Function.update_of_ne h.symm _ _

theorem get_del_of_ne (h : key ≠ other) (txn : WriteTxn) (db : Db) (fuel : Nat) :
    (txn.del key).get db fuel other = txn.get db fuel other := by
  apply get_append_of_ne
  · exact h
  · exact Function.update_of_ne h.symm _ _

/-- The count of an agent's active tasks; nothing stored stands for 0. -/
def Counts (txn : WriteTxn) (db : Db) (fuel : Nat) (agentId : UInt64) (n : Nat) : Prop :=
  ∃ text, txn.get db fuel (agentKey agentId) = .ok text ∧ parseInt (text.getD [48]) = .ok n

structure Claimable (txn : WriteTxn) (db : Db) (fuel : Nat) (taskId agentId : UInt64) : Prop where
  unclaimed : txn.get db fuel (claimKey taskId agentId) = .ok none
  task : ∃ value, txn.get db fuel (taskKey taskId) = .ok (some value)
  unindexed : txn.get db fuel (claimedKey taskId) = .ok none

theorem run_read (txn : WriteTxn) {db : Db} {fuel : Nat} {value : Option Bytes}
    (h : txn.get db fuel key = .ok value) : (TxnM.read db fuel key).run txn = .ok value txn := by
  unfold TxnM.read EStateM.run
  dsimp only
  rw [h]

theorem run_read_error (txn : WriteTxn) {db : Db} {fuel : Nat} {e : PagerError}
    (h : txn.get db fuel key = .error e) : (TxnM.read db fuel key).run txn = .error (.db e) txn := by
  unfold TxnM.read EStateM.run
  dsimp only
  rw [h]

end WriteTxn

theorem run_bufPrint_error {size : Nat} (h : ¬ text.length ≤ size) (txn : WriteTxn) :
    (EStateM.lift (bufPrint size text) : TxnM Bytes).run txn = .error .noSpaceLeft txn := by
  unfold bufPrint
  rw [if_neg h, run_lift_error]

theorem length_agentKey_le_iff (agentId : UInt64) :
    (agentKey agentId).length ≤ 32 ↔ agentId.toNat < 10 ^ 19 := by
  rw [← Decimal.length_format_le_iff (by decide)]
  simp only [agentKey, List.length_append, List.length_cons, List.length_nil]
  omega

theorem parseDigits_lt {negative : Bool} {acc : Nat} (hacc : acc < 2 ^ 32)
    (h : parseDigits negative acc text = .ok n) : n < 2 ^ 32 := by
  induction text generalizing acc with
  | nil =>
    cases h
    exact hacc
  | cons c cs ih =>
    unfold parseDigits at h
    by_cases hunderscore : c = 95
    · rw [if_pos hunderscore] at h
      exact ih hacc h
    · rw [if_neg hunderscore] at h
      by_cases hdigit : 48 ≤ c.toNat ∧ c.toNat ≤ 57
      · rw [if_pos hdigit] at h
        by_cases hnegative : negative = true ∧ c ≠ 48
        · rw [if_pos hnegative] at h
          cases h
        · rw [if_neg hnegative] at h
          by_cases hlarge : acc * 10 + (c.toNat - 48) ≥ 2 ^ 32
          · rw [if_pos hlarge] at h
            cases h
          · rw [if_neg hlarge] at h
            exact ih (Nat.not_le.mp hlarge) h
      · rw [if_neg hdigit] at h
        cases h

theorem parseUnsigned_lt {negative : Bool}
    (h : parseUnsigned negative text = .ok n) : n < 2 ^ 32 := by
  unfold parseUnsigned at h
  split at h
  · cases h
  · exact parseDigits_lt (by decide) h

theorem parseInt_lt (h : parseInt text = .ok n) : n < 2 ^ 32 := by
  unfold parseInt at h
  split at h
  · exact parseUnsigned_lt h
  · exact parseUnsigned_lt h
  · exact parseUnsigned_lt h

def claimUpdates (taskId agentId : UInt64) (claimTimestamp : Int64) (n : Nat) : List Mutation :=
  [.put (claimKey taskId agentId) (Decimal.formatInt claimTimestamp.toInt),
    .put (claimedKey taskId) (Decimal.format agentId.toNat),
    .put (agentKey agentId) (Decimal.format (n + 1))]

def completionUpdates (taskId agentId : UInt64) (completionTimestamp : Int64) (n : Nat) : List Mutation :=
  [.put (completedKey taskId) (Decimal.formatInt completionTimestamp.toInt),
    .delete (claimKey taskId agentId), .delete (claimedKey taskId)] ++
    if n > 0 then [.put (agentKey agentId) (Decimal.format (n - 1))] else []

/-- A call that returns true has made all its updates, any other call none. -/
def Atomic (txn : WriteTxn) (Updates : List Mutation → Prop) :
    EStateM.Result ClaimError WriteTxn Bool → Prop
  | .ok true txn' => ∃ updates, Updates updates ∧ txn'.mutations = txn.mutations ++ updates
  | .ok false txn' => txn'.mutations = txn.mutations
  | .error _ txn' => txn'.mutations = txn.mutations

section Calls

variable {db : Db} {fuel : Nat} {txn : WriteTxn} {taskId agentId : UInt64} {timestamp : Int64}

/-- The count of the agent can be read and goes up by one. -/
def CanClaim (txn : WriteTxn) (db : Db) (fuel : Nat) (agentId : UInt64) : Prop :=
  agentId.toNat < 10 ^ 19 ∧ ∃ n, txn.Counts db fuel agentId n ∧ n + 1 < 2 ^ 32

theorem Counts.unique {text : Option Bytes} {m : Except ClaimError Nat}
    (h : txn.Counts db fuel agentId n) (htext : txn.get db fuel (agentKey agentId) = .ok text)
    (hparse : parseInt (text.getD [48]) = m) : m = .ok n := by
  rcases h with ⟨text', htext', hparse'⟩
  rw [htext] at htext'
  cases htext'
  rw [← hparse, hparse']

theorem run_createClaim_cases (db : Db) (fuel : Nat) (txn : WriteTxn) (taskId agentId : UInt64)
    (timestamp : Int64) :
    (∃ n txn', (TxnM.createClaim db fuel (claimKey taskId agentId) (claimedKey taskId) agentId
        timestamp).run txn = .ok () txn' ∧ CanClaim txn db fuel agentId ∧
      txn.Counts db fuel agentId n ∧
      txn'.mutations = txn.mutations ++ claimUpdates taskId agentId timestamp n) ∨
    (∃ e txn', (TxnM.createClaim db fuel (claimKey taskId agentId) (claimedKey taskId) agentId
        timestamp).run txn = .error e txn' ∧ ¬ CanClaim txn db fuel agentId ∧
      txn'.mutations ≠ txn.mutations) := by
  let claimed := (txn.put (claimKey taskId agentId) (Decimal.formatInt timestamp.toInt)).put
    (claimedKey taskId) (Decimal.format agentId.toNat)
  have hgrown : claimed.mutations ≠ txn.mutations := by
    intro heq
    have hlength := congrArg List.length heq
    simp [claimed, WriteTxn.put] at hlength
  have hget : claimed.get db fuel (agentKey agentId) = txn.get db fuel (agentKey agentId) := by
    rw [WriteTxn.get_put_of_ne (claimedKey_ne_agentKey _ _),
      WriteTxn.get_put_of_ne (claimKey_ne_agentKey _ _ _)]
  unfold TxnM.createClaim TxnM.put
  rw [run_bind_of_ok (Sees.run_bufPrint (Int64.length_formatInt _) _),
    run_bind_of_ok (run_modify ..),
    run_bind_of_ok (Sees.run_bufPrint ((UInt64.length_format _).trans (by decide)) _),
    run_bind_of_ok (run_modify ..)]
  by_cases hagent : agentId.toNat < 10 ^ 19
  · rw [run_bind_of_ok (Sees.run_bufPrint (Sees.length_agentKey hagent) _)]
    cases hstored : txn.get db fuel (agentKey agentId) with
    | error e =>
      right
      rw [run_bind_of_error (claimed.run_read_error (hget.trans hstored))]
      refine ⟨_, claimed, rfl, ?_, hgrown⟩
      rintro ⟨_, n, ⟨text, htext, _⟩, _⟩
      rw [hstored] at htext
      cases htext
    | ok text =>
      rw [run_bind_of_ok (claimed.run_read (hget.trans hstored))]
      cases hparse : parseInt (text.getD [48]) with
      | error e =>
        right
        rw [run_bind_of_error (run_lift_error _ _)]
        refine ⟨_, claimed, rfl, ?_, hgrown⟩
        rintro ⟨_, n, hcounts, _⟩
        cases Counts.unique hcounts hstored hparse
      | ok n =>
        rw [run_bind_of_ok (run_lift_ok _ _)]
        unfold TxnM.increment
        by_cases hlt : n + 1 < 2 ^ 32
        · left
          rw [if_pos hlt, run_bind_of_ok (run_lift_ok _ _),
            run_bind_of_ok (Sees.run_bufPrint (Sees.length_active hlt) _)]
          refine ⟨n, claimed.put (agentKey agentId) (Decimal.format (n + 1)), rfl,
            ⟨hagent, n, ⟨text, hstored, hparse⟩, hlt⟩, ⟨text, hstored, hparse⟩, ?_⟩
          show ((txn.mutations ++ _) ++ _) ++ _ = _
          rw [List.append_assoc, List.append_assoc]
          rfl
        · right
          rw [if_neg hlt, run_bind_of_error (run_lift_error _ _)]
          refine ⟨_, claimed, rfl, ?_, hgrown⟩
          rintro ⟨_, m, hcounts, hm⟩
          cases Counts.unique hcounts hstored hparse
          exact hlt hm
  · right
    rw [run_bind_of_error (run_bufPrint_error
      (fun hle => hagent ((length_agentKey_le_iff agentId).mp hle)) _)]
    exact ⟨_, claimed, rfl, fun hcan => hagent hcan.1, hgrown⟩

theorem run_claimTask_of_claimable (h : txn.Claimable db fuel taskId agentId) :
    (TxnM.claimTask db fuel taskId agentId timestamp).run txn =
      (do
        TxnM.createClaim db fuel (claimKey taskId agentId) (claimedKey taskId) agentId timestamp
        return true : TxnM Bool).run txn := by
  rcases h.task with ⟨value, htask⟩
  unfold TxnM.claimTask
  rw [run_bind_of_ok (Sees.run_bufPrint (Sees.length_claimKey taskId agentId) _),
    run_bind_of_ok (txn.run_read h.unclaimed), if_neg (not_not.mpr rfl),
    run_bind_of_ok (Sees.run_bufPrint (Sees.length_taskKey taskId) _),
    run_bind_of_ok (txn.run_read htask), if_neg (Option.some_ne_none value),
    run_bind_of_ok (Sees.run_bufPrint (Sees.length_claimedKey taskId) _),
    run_bind_of_ok (txn.run_read h.unindexed), if_neg (not_not.mpr rfl)]

/-- A call that refuses, or fails, before the first update. -/
def Refused (txn : WriteTxn) (result : EStateM.Result ClaimError WriteTxn Bool) : Prop :=
  result = .ok false txn ∨ ∃ e, result = .error e txn

theorem Refused.atomic {result : EStateM.Result ClaimError WriteTxn Bool} (h : Refused txn result)
    (Updates : List Mutation → Prop) : Atomic txn Updates result := by
  rcases h with rfl | ⟨e, rfl⟩
  · exact rfl
  · exact rfl

theorem refused_read {f : Option Bytes → TxnM Bool}
    (h : ∀ value, txn.get db fuel key = .ok value → Refused txn ((f value).run txn)) :
    Refused txn ((TxnM.read db fuel key >>= f).run txn) := by
  cases hget : txn.get db fuel key with
  | error e =>
    rw [run_bind_of_error (txn.run_read_error hget)]
    exact .inr ⟨_, rfl⟩
  | ok value =>
    rw [run_bind_of_ok (txn.run_read hget)]
    exact h value hget

theorem run_claimTask_of_not_claimable (h : ¬ txn.Claimable db fuel taskId agentId) :
    Refused txn ((TxnM.claimTask db fuel taskId agentId timestamp).run txn) := by
  unfold TxnM.claimTask
  rw [run_bind_of_ok (Sees.run_bufPrint (Sees.length_claimKey taskId agentId) _)]
  apply refused_read
  intro claim hclaim
  split
  · exact .inl rfl
  next hunclaimed =>
    rw [run_bind_of_ok (Sees.run_bufPrint (Sees.length_taskKey taskId) _)]
    apply refused_read
    intro task htask
    split
    · exact .inl rfl
    next hfound =>
      rw [run_bind_of_ok (Sees.run_bufPrint (Sees.length_claimedKey taskId) _)]
      apply refused_read
      intro claimed hclaimed
      split
      · exact .inl rfl
      next hunindexed =>
        rw [not_not.mp hunclaimed] at hclaim
        rw [not_not.mp hunindexed] at hclaimed
        rcases Option.ne_none_iff_exists'.mp hfound with ⟨value, rfl⟩
        exact absurd ⟨hclaim, ⟨value, htask⟩, hclaimed⟩ h

theorem claimTask_atomic_iff (db : Db) (fuel : Nat) (txn : WriteTxn) (taskId agentId : UInt64)
    (timestamp : Int64) :
    Atomic txn (fun updates => ∃ n, txn.Counts db fuel agentId n ∧
        updates = claimUpdates taskId agentId timestamp n)
      ((TxnM.claimTask db fuel taskId agentId timestamp).run txn) ↔
      (txn.Claimable db fuel taskId agentId → CanClaim txn db fuel agentId) := by
  by_cases hclaimable : txn.Claimable db fuel taskId agentId
  · rw [run_claimTask_of_claimable hclaimable]
    rcases run_createClaim_cases db fuel txn taskId agentId timestamp with
      ⟨n, txn', hrun, hcan, hcounts, hupdates⟩ | ⟨e, txn', hrun, hcannot, hgrown⟩
    · rw [run_bind_of_ok hrun]
      exact iff_of_true ⟨_, ⟨n, hcounts, rfl⟩, hupdates⟩ fun _ => hcan
    · rw [run_bind_of_error hrun]
      exact iff_of_false hgrown fun hcan => hcannot (hcan hclaimable)
  · exact iff_of_true ((run_claimTask_of_not_claimable hclaimable).atomic _)
      fun h => absurd h hclaimable

def CanComplete (txn : WriteTxn) (db : Db) (fuel : Nat) (agentId : UInt64) : Prop :=
  agentId.toNat < 10 ^ 19 ∧ ∃ n, txn.Counts db fuel agentId n

theorem run_decrementActive (txn : WriteTxn) (key : Bytes) (h : parseInt text = .ok n) :
    ∃ txn', (TxnM.decrementActive key text).run txn = .ok () txn' ∧ txn'.mutations =
      txn.mutations ++ if n > 0 then [.put key (Decimal.format (n - 1))] else [] := by
  have hlt := parseInt_lt h
  unfold TxnM.decrementActive
  rw [h, run_bind_of_ok (run_lift_ok _ _)]
  by_cases hpos : n > 0
  · rw [if_pos hpos, run_bind_of_ok (Sees.run_bufPrint (Sees.length_active (by omega)) _),
      if_pos hpos]
    exact ⟨_, rfl, rfl⟩
  · rw [if_neg hpos, if_neg hpos, List.append_nil]
    exact ⟨_, rfl, rfl⟩

theorem run_completeClaim_cases (db : Db) (fuel : Nat) (txn : WriteTxn) (taskId agentId : UInt64)
    (timestamp : Int64) :
    (∃ n txn', (TxnM.completeClaim db fuel (claimKey taskId agentId) taskId agentId timestamp).run txn =
        .ok () txn' ∧ CanComplete txn db fuel agentId ∧ txn.Counts db fuel agentId n ∧
      txn'.mutations = txn.mutations ++ completionUpdates taskId agentId timestamp n) ∨
    (∃ e txn', (TxnM.completeClaim db fuel (claimKey taskId agentId) taskId agentId timestamp).run txn =
        .error e txn' ∧ ¬ CanComplete txn db fuel agentId ∧ txn'.mutations ≠ txn.mutations) := by
  let cleared := ((txn.put (completedKey taskId) (Decimal.formatInt timestamp.toInt)).del
    (claimKey taskId agentId)).del (claimedKey taskId)
  have hgrown : cleared.mutations ≠ txn.mutations := by
    intro heq
    have hlength := congrArg List.length heq
    simp [cleared, WriteTxn.put, WriteTxn.del] at hlength
  have hget : cleared.get db fuel (agentKey agentId) = txn.get db fuel (agentKey agentId) := by
    rw [WriteTxn.get_del_of_ne (claimedKey_ne_agentKey _ _),
      WriteTxn.get_del_of_ne (claimKey_ne_agentKey _ _ _),
      WriteTxn.get_put_of_ne (agentKey_ne_completedKey _ _).symm]
  unfold TxnM.completeClaim TxnM.put TxnM.del
  rw [run_bind_of_ok (Sees.run_bufPrint (Sees.length_completedKey taskId) _),
    run_bind_of_ok (Sees.run_bufPrint (Int64.length_formatInt _) _),
    run_bind_of_ok (run_modify ..),
    run_bind_of_ok (run_modify ..),
    run_bind_of_ok (Sees.run_bufPrint (Sees.length_claimedKey taskId) _),
    run_bind_of_ok (run_modify ..)]
  by_cases hagent : agentId.toNat < 10 ^ 19
  · rw [run_bind_of_ok (Sees.run_bufPrint (Sees.length_agentKey hagent) _)]
    cases hstored : txn.get db fuel (agentKey agentId) with
    | error e =>
      right
      rw [run_bind_of_error (cleared.run_read_error (hget.trans hstored))]
      refine ⟨_, cleared, rfl, ?_, hgrown⟩
      rintro ⟨_, n, text, htext, _⟩
      rw [hstored] at htext
      cases htext
    | ok text =>
      rw [run_bind_of_ok (cleared.run_read (hget.trans hstored))]
      cases text with
      | none =>
        left
        have hcounts : txn.Counts db fuel agentId 0 := ⟨none, hstored, by decide⟩
        refine ⟨0, cleared, rfl, ⟨hagent, 0, hcounts⟩, hcounts, ?_⟩
        show ((txn.mutations ++ _) ++ _) ++ _ = _
        rw [List.append_assoc, List.append_assoc]
        rfl
      | some text =>
        dsimp only
        cases hparse : parseInt text with
        | error e =>
          right
          unfold TxnM.decrementActive
          rw [hparse, run_bind_of_error (run_lift_error _ _)]
          refine ⟨_, cleared, rfl, ?_, hgrown⟩
          rintro ⟨_, n, hcounts⟩
          cases Counts.unique hcounts hstored hparse
        | ok n =>
          left
          have hcounts : txn.Counts db fuel agentId n := ⟨some text, hstored, hparse⟩
          rcases run_decrementActive cleared (agentKey agentId) hparse with ⟨txn', hrun, hmutations⟩
          refine ⟨n, txn', hrun, ⟨hagent, n, hcounts⟩, hcounts, ?_⟩
          rw [hmutations]
          show (((txn.mutations ++ _) ++ _) ++ _) ++ _ = _
          rw [List.append_assoc, List.append_assoc, List.append_assoc]
          rfl
  · right
    rw [run_bind_of_error (run_bufPrint_error
      (fun hle => hagent ((length_agentKey_le_iff agentId).mp hle)) _)]
    exact ⟨_, cleared, rfl, fun hcan => hagent hcan.1, hgrown⟩

theorem completeTask_atomic_iff (db : Db) (fuel : Nat) (txn : WriteTxn) (taskId agentId : UInt64)
    (timestamp : Int64) :
    Atomic txn (fun updates => ∃ n, txn.Counts db fuel agentId n ∧
        updates = completionUpdates taskId agentId timestamp n)
      ((TxnM.completeTask db fuel taskId agentId timestamp).run txn) ↔
      ((∃ value, txn.get db fuel (claimKey taskId agentId) = .ok (some value)) →
        CanComplete txn db fuel agentId) := by
  unfold TxnM.completeTask
  rw [run_bind_of_ok (Sees.run_bufPrint (Sees.length_claimKey taskId agentId) _)]
  by_cases hclaim : ∃ value, txn.get db fuel (claimKey taskId agentId) = .ok (some value)
  · rcases hclaim with ⟨value, hvalue⟩
    rw [run_bind_of_ok (txn.run_read hvalue), if_neg (Option.some_ne_none value)]
    rcases run_completeClaim_cases db fuel txn taskId agentId timestamp with
      ⟨n, txn', hrun, hcan, hcounts, hupdates⟩ | ⟨e, txn', hrun, hcannot, hgrown⟩
    · rw [run_bind_of_ok hrun]
      exact iff_of_true ⟨_, ⟨n, hcounts, rfl⟩, hupdates⟩ fun _ => hcan
    · rw [run_bind_of_error hrun]
      exact iff_of_false hgrown fun hcan => hcannot (hcan ⟨value, hvalue⟩)
  · refine iff_of_true (Refused.atomic ?_ _) fun h => absurd h hclaim
    apply refused_read
    intro claim hget
    split
    · exact .inl rfl
    next hfound =>
      rcases Option.ne_none_iff_exists'.mp hfound with ⟨value, rfl⟩
      exact absurd ⟨value, hget⟩ hclaim

end Calls

/-- **Atomicity of claims and completions.**  All updates or none, for every state, exactly when a call that
goes on to its updates finds a count that it can read and write back. -/
theorem claims_atomic_iff (db : Db) (fuel : Nat) (txn : WriteTxn) (taskId agentId : UInt64)
    (timestamp : Int64) :
    (Atomic txn (fun updates => ∃ n, txn.Counts db fuel agentId n ∧
        updates = claimUpdates taskId agentId timestamp n)
      ((TxnM.claimTask db fuel taskId agentId timestamp).run txn) ↔
      (txn.Claimable db fuel taskId agentId →
        agentId.toNat < 10 ^ 19 ∧ ∃ n, txn.Counts db fuel agentId n ∧ n + 1 < 2 ^ 32)) ∧
    (Atomic txn (fun updates => ∃ n, txn.Counts db fuel agentId n ∧
        updates = completionUpdates taskId agentId timestamp n)
      ((TxnM.completeTask db fuel taskId agentId timestamp).run txn) ↔
      ((∃ value, txn.get db fuel (claimKey taskId agentId) = .ok (some value)) →
        agentId.toNat < 10 ^ 19 ∧ ∃ n, txn.Counts db fuel agentId n)) :=
  ⟨claimTask_atomic_iff db fuel txn taskId agentId timestamp,
    completeTask_atomic_iff db fuel txn taskId agentId timestamp⟩

/-- The first transaction on the database with task 42. -/
def freshTxn : WriteTxn := ⟨2, [], fun _ => none⟩

def largeAgent : UInt64 := 10000000000000000000

/-- The agent claims the task: the call fails with two keys put. -/
theorem claim_of_large_agent_not_atomic :
    ¬ Atomic freshTxn (fun updates => ∃ n, freshTxn.Counts Session.oneTask 0 largeAgent n ∧
        updates = claimUpdates 42 largeAgent 12346 n)
      ((TxnM.claimTask Session.oneTask 0 42 largeAgent 12346).run freshTxn) := by
  intro h
  have hsees : Sees Session.oneTask freshTxn
      (Function.update (fun _ => none) (taskKey 42) (some [97])) := ⟨rfl, fun _ => rfl, _, rfl, rfl⟩
  have hclaimable : freshTxn.Claimable Session.oneTask 0 42 largeAgent := by
    refine ⟨?_, ⟨[97], ?_⟩, ?_⟩
    · rw [hsees.get_eq, Function.update_of_ne (by simp [claimKey, taskKey])]
    · rw [hsees.get_eq, Function.update_self]
    · rw [hsees.get_eq, Function.update_of_ne (by simp [claimedKey, taskKey])]
  exact absurd ((claimTask_atomic_iff ..).mp h hclaimable).1 (by decide)

end Northstar.Zig
