import Northstar.Lib.Decimal
import Northstar.Zig.Db
import Mathlib.Data.Set.Card

/-!
# Claims — tasks and the agents that hold them

`WriteTxn.get`, `claimTask` and `completeTask` of `db.zig`.  Who holds which task is a map from tasks to
agents; the keys `claim:{task}:{agent}`, `claimed:{task}` and `agent:{agent}:active` are three readings of
it.
-/

namespace Northstar.Zig

open Bytes

/-- The last mutation of the key; `some none` is a key that is deleted. -/
def WriteTxn.getPendingMutation (txn : WriteTxn) (key : Bytes) : Option (Option Bytes) :=
  (txn.mutations.reverse.find? (·.getKey = key)).map fun
    | .put _ value => some value
    | .delete _ => none

namespace Pager

/-- The loop of `getBtreeValue`. -/
def findValueFrom (p : Pager) (key : Bytes) (bufferLen : Nat) : Nat → Nat → Except PagerError (Option Bytes)
  | 0, _ => .error .running
  | fuel + 1, pageId => do
    match ← p.descend key pageId with
    | (_, some child) => p.findValueFrom key bufferLen fuel child
    | (page, none) =>
      match ← getValueFromBtreeLeaf page key with
      | none => return none
      | some value => if value.length > bufferLen then .error .bufferTooSmall else return some value

def getBtreeValue (p : Pager) (fuel : Nat) (key : Bytes) (bufferLen : Nat) : Except PagerError (Option Bytes) :=
  if p.getRootPageId = 0 then .ok none else p.findValueFrom key bufferLen fuel p.getRootPageId

end Pager

def WriteTxn.get (txn : WriteTxn) (db : Db) (fuel : Nat) (key : Bytes) : Except PagerError (Option Bytes) :=
  match txn.getPendingMutation key with
  | some value => .ok value
  | none =>
    match db.file with
    | some file => orElse (file.pager.getBtreeValue fuel key 1024) none
    | none =>
      match txn.writes key with
      | some value => .ok value
      | none =>
        match db.model.beginRead db.model.currentTxnId with
        | .ok snapshot => .ok (snapshot key)
        | .error _ => .ok none

inductive ClaimError where
  | db (e : PagerError)
  | noSpaceLeft
  | invalidCharacter
  | overflow
  | panic
  deriving Repr, DecidableEq

/-- `std.fmt.bufPrint` into a buffer of `size` bytes. -/
def bufPrint (size : Nat) (text : Bytes) : Except ClaimError Bytes :=
  if text.length ≤ size then .ok text else .error .noSpaceLeft

/-- The digits of `std.fmt.parseInt(u32, _, 10)`; of a negative number only 0 fits. -/
def parseDigits (negative : Bool) : Nat → Bytes → Except ClaimError Nat
  | acc, [] => .ok acc
  | acc, c :: cs =>
    if c = 95 then parseDigits negative acc cs
    else if 48 ≤ c.toNat ∧ c.toNat ≤ 57 then
      if negative ∧ c ≠ 48 then .error .overflow
      else if acc * 10 + (c.toNat - 48) ≥ 2 ^ 32 then .error .overflow
      else parseDigits negative (acc * 10 + (c.toNat - 48)) cs
    else .error .invalidCharacter

def parseUnsigned (negative : Bool) (text : Bytes) : Except ClaimError Nat :=
  if text = [] ∨ text.head? = some 95 ∨ text.getLast? = some 95 then .error .invalidCharacter
  else parseDigits negative 0 text

def parseInt (text : Bytes) : Except ClaimError Nat :=
  match text with
  | 43 :: rest => parseUnsigned false rest
  | 45 :: rest => parseUnsigned true rest
  | text => parseUnsigned false text

/-- `claim:{task}:{agent}`. -/
def claimKey (taskId agentId : UInt64) : Bytes :=
  [99, 108, 97, 105, 109, 58] ++ (Decimal.format taskId.toNat ++ 58 :: Decimal.format agentId.toNat)

/-- `task:{task}`. -/
def taskKey (taskId : UInt64) : Bytes := [116, 97, 115, 107, 58] ++ Decimal.format taskId.toNat

/-- `claimed:{task}`. -/
def claimedKey (taskId : UInt64) : Bytes :=
  [99, 108, 97, 105, 109, 101, 100, 58] ++ Decimal.format taskId.toNat

/-- `completed:{task}`. -/
def completedKey (taskId : UInt64) : Bytes :=
  [99, 111, 109, 112, 108, 101, 116, 101, 100, 58] ++ Decimal.format taskId.toNat

/-- `agent:{agent}:active`. -/
def agentKey (agentId : UInt64) : Bytes :=
  [97, 103, 101, 110, 116, 58] ++ (Decimal.format agentId.toNat ++ [58, 97, 99, 116, 105, 118, 101])

/-- A call on an open transaction.  An error keeps what has been put before. -/
abbrev TxnM := EStateM ClaimError WriteTxn

namespace TxnM

def read (db : Db) (fuel : Nat) (key : Bytes) : TxnM (Option Bytes) := fun txn =>
  match txn.get db fuel key with
  | .ok value => .ok value txn
  | .error e => .error (.db e) txn

def put (key value : Bytes) : TxnM Unit := modify (·.put key value)

def del (key : Bytes) : TxnM Unit := modify (·.del key)

/-- `current_active + 1` for a `u32`. -/
def increment (n : Nat) : Except ClaimError Nat := if n + 1 < 2 ^ 32 then .ok (n + 1) else .error .panic

/-- "Task exists and is unclaimed, create the claim". -/
def createClaim (db : Db) (fuel : Nat) (claimKey claimedKey : Bytes) (agentId : UInt64)
    (claimTimestamp : Int64) : TxnM Unit := do
  let claimValue ← EStateM.lift (bufPrint 32 (Decimal.formatInt claimTimestamp.toInt))
  put claimKey claimValue
  let claimedIndexValue ← EStateM.lift (bufPrint 32 (Decimal.format agentId.toNat))
  put claimedKey claimedIndexValue
  let agentKey ← EStateM.lift (bufPrint 32 (agentKey agentId))
  let currentActiveStr ← read db fuel agentKey
  let currentActive ← EStateM.lift (parseInt (currentActiveStr.getD [48]))
  let newActive ← EStateM.lift (increment currentActive)
  let newActiveValue ← EStateM.lift (bufPrint 16 (Decimal.format newActive))
  put agentKey newActiveValue

def claimTask (db : Db) (fuel : Nat) (taskId agentId : UInt64) (claimTimestamp : Int64) : TxnM Bool := do
  let claimKey ← EStateM.lift (bufPrint 64 (claimKey taskId agentId))
  let claim ← read db fuel claimKey
  if claim ≠ none then return false
  else
    let taskKey ← EStateM.lift (bufPrint 32 (taskKey taskId))
    let task ← read db fuel taskKey
    if task = none then return false
    else
      let claimedKey ← EStateM.lift (bufPrint 32 (claimedKey taskId))
      let claimed ← read db fuel claimedKey
      if claimed ≠ none then return false
      else
        createClaim db fuel claimKey claimedKey agentId claimTimestamp
        return true

/-- "Decrement agent's active task count". -/
def decrementActive (agentKey : Bytes) (currentActiveStr : Bytes) : TxnM Unit := do
  let currentActive ← EStateM.lift (parseInt currentActiveStr)
  if currentActive > 0 then
    let newActiveValue ← EStateM.lift (bufPrint 16 (Decimal.format (currentActive - 1)))
    put agentKey newActiveValue
  else return ()

/-- "Claim exists, proceed with completion". -/
def completeClaim (db : Db) (fuel : Nat) (claimKey : Bytes) (taskId agentId : UInt64)
    (completionTimestamp : Int64) : TxnM Unit := do
  let completedKey ← EStateM.lift (bufPrint 32 (completedKey taskId))
  let completedValue ← EStateM.lift (bufPrint 32 (Decimal.formatInt completionTimestamp.toInt))
  put completedKey completedValue
  del claimKey
  let claimedKey ← EStateM.lift (bufPrint 32 (claimedKey taskId))
  del claimedKey
  let agentKey ← EStateM.lift (bufPrint 32 (agentKey agentId))
  let active ← read db fuel agentKey
  match active with
  | some currentActiveStr => decrementActive agentKey currentActiveStr
  | none => return ()

def completeTask (db : Db) (fuel : Nat) (taskId agentId : UInt64) (completionTimestamp : Int64) :
    TxnM Bool := do
  let claimKey ← EStateM.lift (bufPrint 64 (claimKey taskId agentId))
  let claim ← read db fuel claimKey
  if claim = none then return false
  else
    completeClaim db fuel claimKey taskId agentId completionTimestamp
    return true

end TxnM

/-- A database in memory, with the transaction that is open. -/
structure Session where
  db : Db
  txn : Option WriteTxn

inductive SessionEvent where
  | begin
  | claimTask (taskId agentId : UInt64) (claimTimestamp : Int64)
  | completeTask (taskId agentId : UInt64) (completionTimestamp : Int64)
  | commit
  deriving Repr, DecidableEq

namespace Session

def afterCall (db : Db) : EStateM.Result ClaimError WriteTxn Bool → Option Session
  | .ok _ txn => some ⟨db, some txn⟩
  | .error .panic _ => none
  | .error _ txn => some ⟨db, some txn⟩

def step (fuel : Nat) (s : Session) : SessionEvent → Option Session
  | .begin =>
    match s.txn with
    | some _ => none
    | none =>
      match Db.beginWrite.run s.db with
      | .ok txn db => some ⟨db, some txn⟩
      | .error _ _ => none
  | .claimTask taskId agentId claimTimestamp =>
    s.txn.bind fun txn => afterCall s.db ((TxnM.claimTask s.db fuel taskId agentId claimTimestamp).run txn)
  | .completeTask taskId agentId completionTimestamp =>
    s.txn.bind fun txn =>
      afterCall s.db ((TxnM.completeTask s.db fuel taskId agentId completionTimestamp).run txn)
  | .commit =>
    s.txn.bind fun txn =>
      match (txn.commit fuel).run s.db with
      | .ok _ db => some ⟨db, none⟩
      | .error _ db => some ⟨db, none⟩

def run (fuel : Nat) : Session → List SessionEvent → Option Session
  | s, [] => some s
  | s, e :: es => (s.step fuel e).bind fun s => run fuel s es

/-- What a key has, in the open transaction, or for a new reader. -/
def lookup (s : Session) (fuel : Nat) (key : Bytes) : Except PagerError (Option Bytes) :=
  match s.txn with
  | some txn => txn.get s.db fuel key
  | none => do
    let reader ← s.db.beginReadLatest
    reader.get s.db fuel key

end Session

end Northstar.Zig
