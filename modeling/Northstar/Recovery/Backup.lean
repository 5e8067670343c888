import Northstar.Error
import Northstar.Lib.Decimal
import Mathlib.Data.List.Nodup
import Mathlib.Data.List.Sort

/-!
# Backup — the backup manager

Full and incremental backups with the LSNs they cover, the retention policy that every backup ends with, and
the chain that an incremental restore reads.  What a call reads from outside (the clock, the LSN of the WAL,
the outcome of its file operations, the new id) is its argument.
-/

namespace Northstar.Recovery

open Bytes

abbrev Uuid := Nat
abbrev Lsn := UInt64

/-- `Uuid::to_string`: 32 hexadecimal digits in groups of 8, 4, 4, 4 and 12. -/
def uuidText (id : Uuid) : String :=
  let digits := Nat.toDigits 16 id
  let digits := List.replicate (32 - digits.length) '0' ++ digits
  let group (start len : Nat) := String.ofList ((digits.drop start).take len)
  String.intercalate "-" [group 0 8, group 8 4, group 12 4, group 16 4, group 20 12]

/-- `chrono::DateTime<Utc>`, in nanoseconds. -/
abbrev Timestamp := Int

inductive BackupType where
  | full
  | incremental
  | differential
  | snapshot
  deriving DecidableEq, Repr

inductive BackupStatus where
  | pending
  | inProgress
  | completed
  | failed
  | cancelled
  deriving DecidableEq, Repr

structure Backup where
  id : Uuid
  backupType : BackupType
  status : BackupStatus
  startLsn : Lsn
  endLsn : Lsn
  createdAt : Timestamp
  completedAt : Option Timestamp
  previousBackupId : Option Uuid
  sizeBytes : UInt64
  checksum : Bytes
  deriving DecidableEq, Repr

/-- What one call reads: the id that `Uuid::new_v4` gives, the LSN of the WAL at its start and after the copy,
the clock, also when the retention policy looks at a backup, and the error of removing a backup's file. -/
structure Call where
  id : Uuid
  startLsn : Lsn
  endLsn : Lsn
  createdAt : Timestamp
  completedAt : Timestamp
  now : Uuid → Timestamp
  removal : Uuid → Option Error

def Backup.new (c : Call) (backupType : BackupType) (startLsn : Lsn) (previousBackupId : Option Uuid) : Backup where
  id := c.id
  backupType := backupType
  status := .pending
  startLsn := startLsn
  endLsn := startLsn
  createdAt := c.createdAt
  completedAt := none
  previousBackupId := previousBackupId
  sizeBytes := 0
  checksum := []

def Backup.markInProgress (b : Backup) : Backup := { b with status := .inProgress }

def Backup.markCompleted (c : Call) (b : Backup) (endLsn : Lsn) (sizeBytes : UInt64) (checksum : Bytes) : Backup :=
  { b with
    status := .completed
    endLsn := endLsn
    sizeBytes := sizeBytes
    checksum := checksum
    completedAt := some c.completedAt }

def Backup.isValid (b : Backup) : Bool := b.status == .completed && !b.checksum.isEmpty

structure RetentionPolicy where
  maxCount : Nat
  maxAgeDays : UInt64
  deriving DecidableEq, Repr

/-- `TimeDelta::num_days`, which truncates. -/
def numDays (nanoseconds : Int) : Int := nanoseconds.tdiv (24 * 60 * 60 * 10 ^ 9)

def RetentionPolicy.shouldRetain (policy : RetentionPolicy) (now : Timestamp) (b : Backup) : Bool :=
  -- `max_age_days as i64` keeps the bits
  numDays (now - b.createdAt) < policy.maxAgeDays.toBitVec.toInt

/-- `HashMap<Uuid, Backup>`, in the order of its iteration. -/
structure Backups where
  values : List Backup
  nodup : (values.map Backup.id).Nodup

namespace Backups

variable {m : Backups} {b : Backup} {id : Uuid}

def empty : Backups := ⟨[], List.nodup_nil⟩

def keys (m : Backups) : List Uuid := m.values.map Backup.id

def get (m : Backups) (id : Uuid) : Option Backup := m.values.find? (·.id == id)

theorem nodup_filter (m : Backups) (p : Backup → Bool) : ((m.values.filter p).map Backup.id).Nodup :=
  m.nodup.sublist (List.filter_sublist.map Backup.id)

def remove (m : Backups) (id : Uuid) : Backups := ⟨m.values.filter (·.id != id), m.nodup_filter _⟩

def insert (m : Backups) (b : Backup) : Backups where
  values := m.values.filter (·.id != b.id) ++ [b]
  nodup := by
    rw [List.map_append]
    apply List.Nodup.append (m.nodup_filter _) (List.nodup_singleton _)
    intro id hid hb
    obtain ⟨a, ha, rfl⟩ := List.mem_map.mp hid
    have hne := (List.mem_filter.mp ha).2
    rw [List.mem_singleton.mp hb] at hne
    exact absurd hne (by simp)

theorem get_eq_some : m.get id = some b ↔ b ∈ m.values ∧ b.id = id := by
  constructor
  · intro h
    exact ⟨List.mem_of_find?_eq_some h, by simpa using List.find?_some h⟩
  · rintro ⟨hb, rfl⟩
    have hsome : (m.get b.id).isSome := List.find?_isSome.mpr ⟨b, hb, by simp⟩
    obtain ⟨a, ha⟩ := Option.isSome_iff_exists.mp hsome
    have hid : a.id = b.id := by simpa using List.find?_some ha
    rw [ha, List.inj_on_of_nodup_map m.nodup (List.mem_of_find?_eq_some ha) hb hid]

theorem get_eq_none : m.get id = none ↔ id ∉ m.keys := by
  simp [get, keys, List.find?_eq_none]

end Backups

/-- `Iterator::max_by_key`: the last of the elements with the greatest key. -/
def maxByKey {α : Type} (key : α → Int) (l : List α) : Option α :=
  l.foldl (fun best x =>
    match best with
    | none => some x
    | some y => if key x < key y then some y else some x) none

/-- `{:x}` of a digest. -/
def lowerHex {n : Nat} (digest : Vector UInt8 n) : Bytes :=
  let digit (d : Nat) : UInt8 := if d < 10 then UInt8.ofNat (48 + d) else UInt8.ofNat (87 + d)
  digest.toList.flatMap fun b => [digit (b.toNat / 16), digit (b.toNat % 16)]

structure BackupManager where
  config : RetentionPolicy
  backups : Backups
  wal : Bool

namespace BackupManager

def new (config : RetentionPolicy) : BackupManager where
  config := config
  backups := Backups.empty
  wal := false

def setWal (m : BackupManager) : BackupManager := { m with wal := true }

def currentLsn (m : BackupManager) (walLsn : Lsn) : Lsn := if m.wal then walLsn else 0

def latestCompletedBackup (m : BackupManager) : Option Backup :=
  maxByKey Backup.createdAt (m.backups.values.filter Backup.isValid)

def deleteBackup (m : BackupManager) (c : Call) (id : Uuid) : Except Error Unit × BackupManager :=
  match m.backups.get id with
  | none => (.error (.io (.fileNotFound (uuidText id))), m)
  | some _ =>
    match c.removal id with
    | some e => (.error e, m)
    | none => (.ok (), { m with backups := m.backups.remove id })

def retainStep (c : Call) (s : BackupManager × Nat) (id : Uuid) : BackupManager × Nat :=
  match s.1.backups.get id with
  | none => s
  | some b =>
    let s :=
      if s.1.config.shouldRetain (c.now id) b then (s.1, s.2 + 1)
      else ((s.1.deleteBackup c id).2, s.2)
    -- the loop goes on also when there are `max_count` backups
    if s.2 ≥ s.1.config.maxCount then s else s

def applyRetentionPolicy (m : BackupManager) (c : Call) : BackupManager :=
  let createdAt (id : Uuid) : Timestamp := ((m.backups.get id).map Backup.createdAt).getD (c.now id)
  let backupIds := m.backups.keys.insertionSort fun a b => createdAt a ≤ createdAt b
  (backupIds.foldl (retainStep c) (m, 0)).1

section

-- `Sha256::digest`
variable (sha256 : Bytes → Vector UInt8 32)

/-- The copy of the database file, whose bytes are `db`. -/
def performFullBackup (m : BackupManager) (c : Call) (db : Except Error Bytes) :
    Except Error (Lsn × UInt64 × Bytes) :=
  match db with
  | .error e => .error e
  | .ok data => .ok (m.currentLsn c.endLsn, UInt64.ofNat data.length, lowerHex (sha256 data))

def createFullBackup (m : BackupManager) (c : Call) (db : Except Error Bytes) :
    Except Error Uuid × BackupManager :=
  let backup := (Backup.new c .full (m.currentLsn c.startLsn) none).markInProgress
  match m.performFullBackup sha256 c db with
  | .error e => (.error e, m)
  | .ok (endLsn, sizeBytes, checksum) =>
    let backup := backup.markCompleted c endLsn sizeBytes checksum
    let m := m.applyRetentionPolicy c
    (.ok backup.id, { m with backups := m.backups.insert backup })

/-- `written` is the outcome of creating and writing the file. -/
def performIncrementalBackup (m : BackupManager) (c : Call) (base : Backup) (written : Except Error Unit) :
    Except Error (Lsn × UInt64 × Bytes) :=
  if m.wal then
    let startLsn := base.endLsn
    let endLsn := m.currentLsn c.endLsn
    match written with
    | .error e => .error e
    | .ok () =>
      .ok (endLsn, 0, lowerHex (sha256 (Decimal.format startLsn.toNat ++ 58 :: Decimal.format endLsn.toNat)))
  else .error (.io (.internalError "WAL not configured for incremental backup"))

def createIncrementalBackup (m : BackupManager) (c : Call) (written : Except Error Unit) :
    Except Error Uuid × BackupManager :=
  match m.latestCompletedBackup with
  | none => (.error (.io (.internalError "No base backup found for incremental")), m)
  | some base =>
    let backup := (Backup.new c .incremental (m.currentLsn c.startLsn) (some base.id)).markInProgress
    match m.performIncrementalBackup sha256 c base written with
    | .error e => (.error e, m)
    | .ok (endLsn, sizeBytes, checksum) =>
      let backup := backup.markCompleted c endLsn sizeBytes checksum
      let m := m.applyRetentionPolicy c
      (.ok backup.id, { m with backups := m.backups.insert backup })

end

/-- The loop along `previous_backup_id`, with the chain so far; `none` when the fuel ends first. -/
def chainLoop (m : BackupManager) : Nat → Option Uuid → List Backup → Option (List Backup)
  | _, none, chain => some chain
  | 0, some _, _ => none
  | fuel + 1, some id, chain =>
    match m.backups.get id with
    | some backup => chainLoop m fuel backup.previousBackupId (chain ++ [backup])
    | none => some chain

def getBackupChain (m : BackupManager) (fuel : Nat) (id : Uuid) : Option (List Backup) :=
  (m.chainLoop fuel (some id) []).map List.reverse

end BackupManager

end Northstar.Recovery
