import Northstar.Recovery.BackupChain
import Mathlib.Data.Set.Function

/-!
# BackupFiles — the files of the backups and their checksums

`recovery/backup.rs` with the file system.  A full backup is hashed as it is copied; an incremental one is a JSON
text, and the checksum is that of its two LSNs.  The name of a file has the kind of the backup and the second of
the call, and a file with that name is overwritten.
-/

namespace Northstar.Recovery

open Bytes Runs

def asciiBytes (text : String) : Bytes := text.toList.map fun c => UInt8.ofNat c.toNat

def BackupType.text : BackupType → String
  | full => "full"
  | incremental => "incremental"
  | differential => "differential"
  | snapshot => "snapshot"

/-- The name in the backup directory: `{type}__{timestamp}.backup`. -/
def backupPath (timestampText : Timestamp → Bytes) (backupType : BackupType) (time : Timestamp) : Bytes :=
  asciiBytes backupType.text ++ asciiBytes "__" ++ timestampText time ++ asciiBytes ".backup"

/-- The object that `serde_json` writes, its keys in alphabetical order. -/
def incrementalText (base : Uuid) (startLsn endLsn : Lsn) : Bytes :=
  asciiBytes "\x7b\"base_backup_id\":\"" ++ asciiBytes (uuidText base) ++ asciiBytes "\",\"end_lsn\":" ++
    Decimal.format endLsn.toNat ++ asciiBytes ",\"records\":[],\"start_lsn\":" ++ Decimal.format startLsn.toNat ++
    asciiBytes "\x7d"

/-- What became of writing a file: it was not created, it was left with some bytes, or it was written. -/
inductive Attempt (α : Type) where
  | failed (e : Error)
  | torn (left : Bytes) (e : Error)
  | done (a : α)

def Attempt.result {α : Type} : Attempt α → Except Error α
  | failed e | torn _ e => .error e
  | done a => .ok a

def Attempt.left {α : Type} (text : α → Bytes) : Attempt α → Option Bytes
  | failed _ => none
  | torn left _ => some left
  | done a => some (text a)

/-- The manager, the `path` of each backup, the backup directory, and, for each backup, the bytes that its call
wrote. -/
structure BackupFiles where
  manager : BackupManager
  paths : Uuid → Bytes
  files : Bytes → Option Bytes
  written : Uuid → Bytes

namespace BackupFiles

def new (config : RetentionPolicy) (files : Bytes → Option Bytes) : BackupFiles where
  manager := BackupManager.new config
  paths := fun _ => []
  files := files
  written := fun _ => []

def setFile (s : BackupFiles) (path : Bytes) (content : Option Bytes) : BackupFiles :=
  { s with files := Function.update s.files path content }

/-- A file that was created has what was left in it. -/
def write (s : BackupFiles) (path : Bytes) (left : Option Bytes) : BackupFiles :=
  if left.isSome then s.setFile path left else s

/-- A file that is not there is not removed, so that cannot fail. -/
def deleteBackup (s : BackupFiles) (c : Call) (id : Uuid) : Except Error Unit × BackupFiles :=
  let path := s.paths id
  let c := if (s.files path).isSome then c else { c with removal := fun _ => none }
  let (result, manager) := s.manager.deleteBackup c id
  (result, { s with
    manager := manager
    files := if result.isOk then Function.update s.files path none else s.files })

def retainStep (c : Call) (s : BackupFiles × Nat) (id : Uuid) : BackupFiles × Nat :=
  match s.1.manager.backups.get id with
  | none => s
  | some b =>
    let s :=
      if s.1.manager.config.shouldRetain (c.now id) b then (s.1, s.2 + 1)
      else ((s.1.deleteBackup c id).2, s.2)
    -- the loop goes on also when there are `max_count` backups
    if s.2 ≥ s.1.manager.config.maxCount then s else s

def applyRetentionPolicy (s : BackupFiles) (c : Call) : BackupFiles :=
  let createdAt (id : Uuid) : Timestamp := ((s.manager.backups.get id).map Backup.createdAt).getD (c.now id)
  let backupIds := s.manager.backups.keys.insertionSort fun a b => createdAt a ≤ createdAt b
  (backupIds.foldl (retainStep c) (s, 0)).1

def insert (s : BackupFiles) (b : Backup) (path written : Bytes) : BackupFiles :=
  { s with
    manager := { s.manager with backups := s.manager.backups.insert b }
    paths := Function.update s.paths b.id path
    written := Function.update s.written b.id written }

section

-- `Sha256::digest`, and `Utc::now().format("%Y%m%d_%H%M%S")`
variable (sha256 : Bytes → Vector UInt8 32) (timestampText : Timestamp → Bytes)

def createFullBackup (s : BackupFiles) (c : Call) (time : Timestamp) (copy : Attempt Bytes) :
    Except Error Uuid × BackupFiles :=
  let path := backupPath timestampText .full time
  let backup := (Backup.new c .full (s.manager.currentLsn c.startLsn) none).markInProgress
  let copied := s.write path (copy.left id)
  match copy.result with
  | .error e => (.error e, copied)
  | .ok data =>
    let checksum := lowerHex (sha256 data)
    let backup := backup.markCompleted c (s.manager.currentLsn c.endLsn) (UInt64.ofNat data.length) checksum
    (.ok backup.id, (copied.applyRetentionPolicy c).insert backup path data)

def createIncrementalBackup (s : BackupFiles) (c : Call) (time : Timestamp) (attempt : Attempt Unit) :
    Except Error Uuid × BackupFiles :=
  match s.manager.latestCompletedBackup with
  | none => (.error (.io (.internalError "No base backup found for incremental")), s)
  | some base =>
    let path := backupPath timestampText .incremental time
    let backup := (Backup.new c .incremental (s.manager.currentLsn c.startLsn) (some base.id)).markInProgress
    if s.manager.wal then
      let startLsn := base.endLsn
      let endLsn := s.manager.currentLsn c.endLsn
      let text := incrementalText base.id startLsn endLsn
      let tried := s.write path (attempt.left fun _ => text)
      match attempt.result with
      | .error e => (.error e, tried)
      | .ok () =>
        let checksum := lowerHex (sha256 (Decimal.format startLsn.toNat ++ 58 :: Decimal.format endLsn.toNat))
        let backup := backup.markCompleted c endLsn 0 checksum
        (.ok backup.id, (tried.applyRetentionPolicy c).insert backup path text)
    else (.error (.io (.internalError "WAL not configured for incremental backup")), s)

def verifyBackup (s : BackupFiles) (id : Uuid) : Except Error Bool :=
  match s.manager.backups.get id with
  | none => .error (.io (.fileNotFound (uuidText id)))
  | some backup =>
    match s.files (s.paths id) with
    | none => .ok false
    | some data => .ok (lowerHex (sha256 data) == backup.checksum)

/-- The calls, with the time at which a name is made; `rehash` is another iteration order of the map, and
`changeFile` is what another program does to a file. -/
inductive Event where
  | rehash (values : List Backup)
  | setWal
  | changeFile (path : Bytes) (content : Option Bytes)
  | createFullBackup (c : Call) (time : Timestamp) (copy : Attempt Bytes)
  | createIncrementalBackup (c : Call) (time : Timestamp) (attempt : Attempt Unit)

/-- A new id is one that the map does not have. -/
def step (s : BackupFiles) : Event → Option BackupFiles
  | .rehash values =>
    if h : values.Perm s.manager.backups.values then
      some { s with manager := { s.manager with
        backups := ⟨values, (h.map Backup.id).nodup_iff.mpr s.manager.backups.nodup⟩ } }
    else none
  | .setWal => some { s with manager := s.manager.setWal }
  | .changeFile path content => some (s.setFile path content)
  | .createFullBackup c time copy =>
    if c.id ∈ s.manager.backups.keys then none
    else some (s.createFullBackup sha256 timestampText c time copy).2
  | .createIncrementalBackup c time attempt =>
    if c.id ∈ s.manager.backups.keys then none
    else some (s.createIncrementalBackup sha256 timestampText c time attempt).2

def contents (s : BackupFiles) : Set Bytes :=
  fun data => (∃ path, s.files path = some data) ∨ ∃ b ∈ s.manager.backups.values, s.written b.id = data

/-- Every backup is verified exactly when its file has the bytes its call wrote, and no two have one file. -/
structure Verified (s : BackupFiles) : Prop where
  verifies : ∀ b ∈ s.manager.backups.values,
    s.verifyBackup sha256 b.id = .ok true ↔ s.files (s.paths b.id) = some (s.written b.id)
  apart : ∀ b ∈ s.manager.backups.values, ∀ b' ∈ s.manager.backups.values, s.paths b.id = s.paths b'.id → b = b'

/-- No backup of the manager has the name of a new full backup, and no incremental backup is created. -/
def Safe (s : BackupFiles) : Event → Prop
  | .createFullBackup _ time copy =>
    copy.result.isOk → ∀ b ∈ s.manager.backups.values, s.paths b.id ≠ backupPath timestampText .full time
  | .createIncrementalBackup _ _ attempt =>
    ¬ (s.manager.latestCompletedBackup.isSome ∧ s.manager.wal ∧ attempt.result.isOk)
  | _ => True

end

variable {sha256 : Bytes → Vector UInt8 32} {timestampText : Timestamp → Bytes} {s s' : BackupFiles} {b : Backup}
  {c : Call}

structure Shrinks (s s' : BackupFiles) : Prop where
  paths : s'.paths = s.paths
  written : s'.written = s.written
  values : ∀ b ∈ s'.manager.backups.values, b ∈ s.manager.backups.values

theorem Shrinks.refl (s : BackupFiles) : s.Shrinks s := ⟨rfl, rfl, fun _ hb => hb⟩

theorem Shrinks.trans {s'' : BackupFiles} (h : s.Shrinks s') (h' : s'.Shrinks s'') : s.Shrinks s'' :=
  ⟨h'.paths.trans h.paths, h'.written.trans h.written, fun b hb => h.values b (h'.values b hb)⟩

theorem shrinks_write (s : BackupFiles) (path : Bytes) (left : Option Bytes) : s.Shrinks (s.write path left) := by
  unfold write
  split <;> exact ⟨rfl, rfl, fun _ hb => hb⟩

theorem values_deleteBackup {m : BackupManager} {id : Uuid} :
    ∀ b ∈ (m.deleteBackup c id).2.backups.values, b ∈ m.backups.values := by
  intro b hb
  unfold BackupManager.deleteBackup at hb
  split at hb
  next => exact hb
  next =>
    split at hb
    next => exact hb
    next => exact (List.mem_filter.mp hb).1

theorem shrinks_deleteBackup (s : BackupFiles) (c : Call) (id : Uuid) : s.Shrinks (s.deleteBackup c id).2 :=
  ⟨rfl, rfl, values_deleteBackup⟩

theorem shrinks_retainStep (c : Call) (s : BackupFiles × Nat) (id : Uuid) : s.1.Shrinks (retainStep c s id).1 := by
  unfold retainStep
  split
  next => exact Shrinks.refl _
  next b _ =>
    dsimp only
    rw [ite_self]
    split
    · exact Shrinks.refl _
    · exact shrinks_deleteBackup ..

theorem shrinks_applyRetentionPolicy (s : BackupFiles) (c : Call) : s.Shrinks (s.applyRetentionPolicy c) := by
  have hfold : ∀ (ids : List Uuid) (p : BackupFiles × Nat), p.1.Shrinks (ids.foldl (retainStep c) p).1 := by
    intro ids
    induction ids with
    | nil => exact fun p => Shrinks.refl _
    | cons id ids ih => exact fun p => (shrinks_retainStep c p id).trans (ih _)
  exact hfold _ (s, 0)

theorem createFullBackup_spec (s : BackupFiles) (c : Call) (time : Timestamp) (copy : Attempt Bytes) :
    s.Shrinks (s.createFullBackup sha256 timestampText c time copy).2 ∨
      ∃ s₁ b data, copy.result.isOk ∧ s.Shrinks s₁ ∧ b.id = c.id ∧ b.checksum = lowerHex (sha256 data) ∧
        (s.createFullBackup sha256 timestampText c time copy).2 =
          s₁.insert b (backupPath timestampText .full time) data := by
  have hcopied := shrinks_write s (backupPath timestampText .full time) (copy.left id)
  unfold createFullBackup
  cases copy with
  | failed e => exact .inl hcopied
  | torn left e => exact .inl hcopied
  | done data => exact .inr ⟨_, _, data, rfl, hcopied.trans (shrinks_applyRetentionPolicy _ c), rfl, rfl, rfl⟩

theorem createIncrementalBackup_spec (s : BackupFiles) (c : Call) (time : Timestamp) (attempt : Attempt Unit)
    (h : ¬ (s.manager.latestCompletedBackup.isSome ∧ s.manager.wal ∧ attempt.result.isOk)) :
    s.Shrinks (s.createIncrementalBackup sha256 timestampText c time attempt).2 := by
  unfold createIncrementalBackup
  cases hlatest : s.manager.latestCompletedBackup with
  | none => exact Shrinks.refl s
  | some base =>
    dsimp only
    by_cases hwal : s.manager.wal
    · rw [if_pos hwal]
      cases attempt with
      | failed e =>
        dsimp only [Attempt.result]
        exact shrinks_write ..
      | torn left e =>
        dsimp only [Attempt.result]
        exact shrinks_write ..
      | done =>
        rw [hlatest] at h
        exact absurd ⟨rfl, hwal, rfl⟩ h
    · rw [if_neg hwal]
      exact Shrinks.refl s

/-- Every checksum is that of the bytes the call wrote, and no two backups have one path. -/
structure Sound (sha256 : Bytes → Vector UInt8 32) (s : BackupFiles) : Prop where
  checksum : ∀ b ∈ s.manager.backups.values, b.checksum = lowerHex (sha256 (s.written b.id))
  apart : ∀ b ∈ s.manager.backups.values, ∀ b' ∈ s.manager.backups.values, s.paths b.id = s.paths b'.id → b = b'

theorem sound_new (config : RetentionPolicy) (files : Bytes → Option Bytes) : (new config files).Sound sha256 :=
  ⟨fun _ hb => (nomatch hb), fun _ hb => (nomatch hb)⟩

theorem Sound.shrinks (h : s.Sound sha256) (hshrinks : s.Shrinks s') : s'.Sound sha256 := by
  constructor
  · intro b hb
    rw [hshrinks.written]
    exact h.checksum b (hshrinks.values b hb)
  · intro b hb b' hb' heq
    rw [hshrinks.paths] at heq
    exact h.apart b (hshrinks.values b hb) b' (hshrinks.values b' hb') heq

theorem mem_insert {path data : Bytes} {a : Backup} (h : a ∈ (s.insert b path data).manager.backups.values) :
    (a ∈ s.manager.backups.values ∧ a.id ≠ b.id) ∨ a = b := by
  rcases List.mem_append.mp h with ha | ha
  · have ha := List.mem_filter.mp ha
    exact .inl ⟨ha.1, by simpa using ha.2⟩
  · exact .inr (List.mem_singleton.mp ha)

theorem Sound.insert {path data : Bytes} (h : s.Sound sha256) (hchecksum : b.checksum = lowerHex (sha256 data))
    (hpath : ∀ a ∈ s.manager.backups.values, s.paths a.id ≠ path) : (s.insert b path data).Sound sha256 := by
  have hpaths : ∀ id, (s.insert b path data).paths id = if id = b.id then path else s.paths id :=
    fun id => Function.update_apply ..
  constructor
  · intro a ha
    show a.checksum = lowerHex (sha256 (Function.update s.written b.id data a.id))
    rw [Function.update_apply]
    rcases mem_insert ha with ⟨ha, hne⟩ | rfl
    · rw [if_neg hne]
      exact h.checksum a ha
    · rw [if_pos rfl]
      exact hchecksum
  · intro a ha a' ha' heq
    rw [hpaths, hpaths] at heq
    rcases mem_insert ha with ⟨hold, hne⟩ | hnew
    · rw [if_neg hne] at heq
      rcases mem_insert ha' with ⟨hold', hne'⟩ | hnew'
      · rw [if_neg hne'] at heq
        exact h.apart a hold a' hold' heq
      · rw [if_pos (congrArg Backup.id hnew')] at heq
        exact absurd heq (hpath a hold)
    · rw [if_pos (congrArg Backup.id hnew)] at heq
      rcases mem_insert ha' with ⟨hold', hne'⟩ | hnew'
      · rw [if_neg hne'] at heq
        exact absurd heq.symm (hpath a' hold')
      · rw [hnew, hnew']

theorem sound_step {e : Event} (h : s.Sound sha256) (hsafe : s.Safe timestampText e)
    (hstep : s.step sha256 timestampText e = some s') : s'.Sound sha256 := by
  cases e with
  | rehash values =>
    change (if h : values.Perm s.manager.backups.values then _ else none) = some s' at hstep
    split at hstep
    next hperm =>
      cases hstep
      exact h.shrinks ⟨rfl, rfl, fun b hb => hperm.mem_iff.mp hb⟩
    next => cases hstep
  | setWal =>
    cases hstep
    exact h.shrinks ⟨rfl, rfl, fun _ hb => hb⟩
  | changeFile path content =>
    cases hstep
    exact h.shrinks ⟨rfl, rfl, fun _ hb => hb⟩
  | createFullBackup c time copy =>
    change (if c.id ∈ s.manager.backups.keys then none else _) = some s' at hstep
    split at hstep
    next => cases hstep
    next =>
      cases hstep
      rcases createFullBackup_spec s c time copy with hshrinks | ⟨s₁, b, data, hok, hshrinks, -, hchecksum, heq⟩
      · exact h.shrinks hshrinks
      · rw [heq]
        apply (h.shrinks hshrinks).insert hchecksum
        intro a ha
        rw [hshrinks.paths]
        exact hsafe hok a (hshrinks.values a ha)
  | createIncrementalBackup c time attempt =>
    change (if c.id ∈ s.manager.backups.keys then none else _) = some s' at hstep
    split at hstep
    next => cases hstep
    next =>
      cases hstep
      exact h.shrinks (createIncrementalBackup_spec s c time attempt hsafe)

def hexDigit (d : Nat) : UInt8 := if d < 10 then UInt8.ofNat (48 + d) else UInt8.ofNat (87 + d)

theorem hexDigit_injOn : ∀ a < 16, ∀ b < 16, hexDigit a = hexDigit b → a = b := by decide

theorem flatMap_hex_injective {l l' : Bytes}
    (h : l.flatMap (fun b => [hexDigit (b.toNat / 16), hexDigit (b.toNat % 16)]) =
      l'.flatMap fun b => [hexDigit (b.toNat / 16), hexDigit (b.toNat % 16)]) : l = l' := by
  induction l generalizing l' with
  | nil =>
    cases l' with
    | nil => rfl
    | cons b' l' => cases h
  | cons b l ih =>
    cases l' with
    | nil => cases h
    | cons b' l' =>
      rw [List.flatMap_cons, List.flatMap_cons] at h
      have hparts := List.append_inj h rfl
      have hdigits := List.cons.inj hparts.1
      have hb := b.toNat_lt
      have hb' := b'.toNat_lt
      have hhigh := hexDigit_injOn _ (by omega) _ (by omega) hdigits.1
      have hlow := hexDigit_injOn _ (by omega) _ (by omega) (List.cons.inj hdigits.2).1
      have heq : b = b' := UInt8.toNat_inj.mp (by omega)
      rw [heq, ih hparts.2]

theorem lowerHex_injective {n : Nat} : Function.Injective (lowerHex (n := n)) := by
  intro x y h
  exact Vector.toList_inj.mp (flatMap_hex_injective h)

/-- Where no two contents have one digest, a checksum of what was written tells whether the file still has it. -/
theorem Sound.verified (h : s.Sound sha256) (hinj : Set.InjOn sha256 s.contents) : s.Verified sha256 := by
  refine ⟨?_, h.apart⟩
  intro b hb
  unfold verifyBackup
  rw [Backups.get_eq_some.mpr ⟨hb, rfl⟩]
  dsimp only
  cases hfile : s.files (s.paths b.id) with
  | none => exact iff_of_false (fun heq => nomatch heq) (fun heq => nomatch heq)
  | some data =>
    dsimp only
    rw [h.checksum b hb]
    constructor
    · intro hverified
      have heq := lowerHex_injective (eq_of_beq (Except.ok.inj hverified))
      exact congrArg some (hinj (.inl ⟨_, hfile⟩) (.inr ⟨b, hb, rfl⟩) heq)
    · intro heq
      rw [Option.some.inj heq, beq_self_eq_true]

/-- In a run whose full backups get names of their own and that creates no incremental backup, every backup is
verified exactly when its file has the bytes its call wrote. -/
theorem backups_verified (sha256 : Bytes → Vector UInt8 32) (timestampText : Timestamp → Bytes)
    (config : RetentionPolicy) (files : Bytes → Option Bytes) (es : List Event)
    (hsafe : Meets (step sha256 timestampText) (Safe timestampText) (new config files) es)
    (hrun : run (step sha256 timestampText) (new config files) es = some s)
    (hinj : Set.InjOn sha256 s.contents) : s.Verified sha256 :=
  (invariant (fun _ _ _ => sound_step) (sound_new config files) hsafe hrun).verified hinj

/-- The digests of the byte 1, of the file of the incremental backup below, of the empty text and of `7:9`. -/
def fileDigest (text : Bytes) : Vector UInt8 32 :=
  if text = [1] then
    #v[0x4b, 0xf5, 0x12, 0x2f, 0x34, 0x45, 0x54, 0xc5, 0x3b, 0xde, 0x2e, 0xbb, 0x8c, 0xd2, 0xb7, 0xe3,
      0xd1, 0x60, 0x0a, 0xd6, 0x31, 0xc3, 0x85, 0xa5, 0xd7, 0xcc, 0xe2, 0x3c, 0x77, 0x85, 0x45, 0x9a]
  else if text.head? = some 123 then
    #v[0xab, 0x31, 0x79, 0xdd, 0x9e, 0x0d, 0x35, 0x3f, 0x83, 0xe3, 0x73, 0x58, 0xe4, 0x93, 0x5d, 0x9c,
      0x5b, 0x80, 0xd8, 0x6c, 0xcc, 0x6e, 0xc8, 0xdc, 0x31, 0x69, 0xb4, 0xbd, 0x78, 0xcc, 0x9b, 0x68]
  else
    sampleDigest text

def firstSeconds (time : Timestamp) : Bytes :=
  if time < 10 ^ 9 then asciiBytes "19700101_000000" else asciiBytes "19700101_000001"

def twoFull (time : Timestamp) : List Event :=
  [.createFullBackup (sampleCall 1 0 0 0) 0 (.done []), .createFullBackup (sampleCall 2 0 0 time) time (.done [1])]

def emptyStore : BackupFiles := new samplePolicy fun _ => none

def firstFull : BackupFiles := (emptyStore.createFullBackup fileDigest firstSeconds (sampleCall 1 0 0 0) 0 (.done [])).2

def secondFull (time : Timestamp) : BackupFiles :=
  (firstFull.createFullBackup fileDigest firstSeconds (sampleCall 2 0 0 time) time (.done [1])).2

theorem secondFull_spec {time : Timestamp} (h : time = 0 ∨ time = 10 ^ 9) :
    run (step fileDigest firstSeconds) emptyStore (twoFull time) = some (secondFull time) ∧
      (secondFull time).files = Function.update (Function.update (fun _ => none) (backupPath firstSeconds .full 0) (some []))
        (backupPath firstSeconds .full time) (some [1]) ∧
      (secondFull time).written = Function.update (Function.update (fun _ => []) 1 []) 2 [1] ∧
      (secondFull time).paths = Function.update (Function.update (fun _ => []) 1 (backupPath firstSeconds .full 0)) 2
        (backupPath firstSeconds .full time) ∧
      (secondFull time).manager.backups.keys = [1, 2] := by
  rcases h with rfl | rfl <;> exact ⟨rfl, rfl, rfl, rfl, rfl⟩

theorem injOn_of_two {path path' x y : Bytes}
    (hfiles : s.files = Function.update (Function.update (fun _ => none) path (some x)) path' (some y))
    (hwritten : s.written = Function.update (Function.update (fun _ => []) 1 x) 2 y)
    (hkeys : s.manager.backups.keys = [1, 2]) (hne : fileDigest x ≠ fileDigest y) :
    Set.InjOn fileDigest s.contents := by
  have hcontents : ∀ data ∈ s.contents, data = x ∨ data = y := by
    rintro data (⟨path, hfile⟩ | ⟨b, hb, hdata⟩)
    · rw [hfiles, Function.update_apply, Function.update_apply] at hfile
      split at hfile
      · exact .inr (Option.some.inj hfile).symm
      · split at hfile
        · exact .inl (Option.some.inj hfile).symm
        · cases hfile
    · have hid : b.id ∈ s.manager.backups.keys := List.mem_map_of_mem hb
      rw [hkeys] at hid
      rw [hwritten] at hdata
      rcases List.mem_pair.mp hid with hid | hid
      · rw [hid] at hdata
        exact .inl hdata.symm
      · rw [hid] at hdata
        exact .inr hdata.symm
  intro data hdata data' hdata' heq
  rcases hcontents data hdata with hx | hy <;> rcases hcontents data' hdata' with hx' | hy'
  · rw [hx, hx']
  · rw [hx, hy'] at heq
    exact absurd heq hne
  · rw [hy, hx'] at heq
    exact absurd heq.symm hne
  · rw [hy, hy']

theorem injOn_secondFull {time : Timestamp} (h : time = 0 ∨ time = 10 ^ 9) :
    Set.InjOn fileDigest (secondFull time).contents :=
  have hspec := secondFull_spec h
  injOn_of_two hspec.2.1 hspec.2.2.1 hspec.2.2.2.2 (by decide)

theorem backups_verified_later : ∃ s, run (step fileDigest firstSeconds) emptyStore (twoFull (10 ^ 9)) = some s ∧
    s.Verified fileDigest := by
  have htime : (10 ^ 9 : Timestamp) = 0 ∨ (10 ^ 9 : Timestamp) = 10 ^ 9 := .inr rfl
  refine ⟨secondFull (10 ^ 9), (secondFull_spec htime).1, ?_⟩
  apply backups_verified fileDigest firstSeconds samplePolicy (fun _ => none) (twoFull (10 ^ 9)) _
    (secondFull_spec htime).1 (injOn_secondFull htime)
  refine ⟨fun _ b hb => (nomatch hb), ?_⟩
  intro s hs
  have hs : some firstFull = some s := hs
  cases hs
  refine ⟨?_, fun _ _ => trivial⟩
  intro _ b hb
  rw [List.mem_singleton.mp (show b ∈ [_] from hb)]
  decide

theorem apart_fails : ¬ (secondFull 0).Verified fileDigest := by
  intro h
  rcases secondFull_spec (.inl rfl) with ⟨-, -, -, hpaths, hkeys⟩
  have hfirst : 1 ∈ (secondFull 0).manager.backups.keys := by rw [hkeys]; decide
  have hsecond : 2 ∈ (secondFull 0).manager.backups.keys := by rw [hkeys]; decide
  rcases List.mem_map.mp hfirst with ⟨b, hb, hid⟩
  rcases List.mem_map.mp hsecond with ⟨b', hb', hid'⟩
  have heq : b = b' := h.apart b hb b' hb' (by rw [hpaths, hid, hid']; rfl)
  rw [heq, hid'] at hid
  cases hid

def fullWithWal : BackupFiles :=
  (({ emptyStore with manager := emptyStore.manager.setWal } : BackupFiles).createFullBackup fileDigest firstSeconds
    (sampleCall 1 7 7 0) 0 (.done [])).2

def thenIncremental : BackupFiles :=
  (fullWithWal.createIncrementalBackup fileDigest firstSeconds (sampleCall 2 7 9 (10 ^ 9)) (10 ^ 9) (.done ())).2

def oneIncremental : List Event :=
  [.setWal, .createFullBackup (sampleCall 1 7 7 0) 0 (.done []),
    .createIncrementalBackup (sampleCall 2 7 9 (10 ^ 9)) (10 ^ 9) (.done ())]

theorem thenIncremental_spec :
    run (step fileDigest firstSeconds) emptyStore oneIncremental = some thenIncremental ∧
      thenIncremental.files = Function.update (Function.update (fun _ => none) (backupPath firstSeconds .full 0) (some []))
        (backupPath firstSeconds .incremental (10 ^ 9)) (some (incrementalText 1 7 9)) ∧
      thenIncremental.written = Function.update (Function.update (fun _ => []) 1 []) 2 (incrementalText 1 7 9) ∧
      thenIncremental.manager.backups.keys = [1, 2] := ⟨rfl, rfl, rfl, rfl⟩

theorem digest_incrementalText : fileDigest [] ≠ fileDigest (incrementalText 1 7 9) ∧
    fileDigest (incrementalText 1 7 9) ≠ fileDigest (Decimal.format 7 ++ 58 :: Decimal.format 9) := by
  decide +kernel

theorem get_incremental : ∃ b, thenIncremental.manager.backups.get 2 = some b ∧
    b.checksum = lowerHex (fileDigest (Decimal.format 7 ++ 58 :: Decimal.format 9)) ∧
    thenIncremental.paths 2 = backupPath firstSeconds .incremental (10 ^ 9) := ⟨_, rfl, rfl, rfl⟩

theorem verifies_fails : ¬ thenIncremental.Verified fileDigest := by
  intro h
  rcases thenIncremental_spec with ⟨-, hfiles, hwritten, -⟩
  rcases get_incremental with ⟨b, hget, hchecksum, hpath⟩
  rcases Backups.get_eq_some.mp hget with ⟨hb, hid⟩
  have hfile : thenIncremental.files (thenIncremental.paths 2) = some (incrementalText 1 7 9) := by
    rw [hfiles, hpath, Function.update_self]
  have hverified := (h.verifies b hb).mpr (by rw [hid, hfile, hwritten]; rfl)
  unfold verifyBackup at hverified
  rw [hid, hget] at hverified
  dsimp only at hverified
  rw [hfile] at hverified
  dsimp only at hverified
  rw [hchecksum] at hverified
  exact digest_incrementalText.2 (lowerHex_injective (eq_of_beq (Except.ok.inj hverified)))

/-- An incremental backup is never verified, and two full backups of one second share a file. -/
theorem verification_fails :
    (∃ s, run (step fileDigest firstSeconds) emptyStore oneIncremental = some s ∧
      Set.InjOn fileDigest s.contents ∧ ¬ s.Verified fileDigest) ∧
    ∃ s, run (step fileDigest firstSeconds) emptyStore (twoFull 0) = some s ∧
      Set.InjOn fileDigest s.contents ∧ ¬ s.Verified fileDigest :=
  ⟨⟨_, thenIncremental_spec.1, injOn_of_two thenIncremental_spec.2.1 thenIncremental_spec.2.2.1
      thenIncremental_spec.2.2.2 digest_incrementalText.1, verifies_fails⟩,
    _, (secondFull_spec (.inl rfl)).1, injOn_secondFull (.inl rfl), apart_fails⟩

end BackupFiles

end Northstar.Recovery
