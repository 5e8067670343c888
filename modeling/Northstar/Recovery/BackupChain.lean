import Northstar.Lib.Links
import Northstar.Lib.Runs
import Northstar.Recovery.Backup

/-!
# BackupChain — the chains of the incremental backups

The retention policy leaves the backups that are young enough or whose file cannot be removed, whether or not
another backup builds on them, and an incremental backup starts at the LSN of its call.  The chains are
complete as long as every backup that stays keeps its predecessor and nothing is logged between a backup and
the incremental one after it.
-/

namespace Northstar.Recovery

open Backlinks Runs

variable {m m' : BackupManager} {c : Call} {b : Backup} {sha256 : Bytes → Vector UInt8 32}

/-- The backup is young enough, or its file cannot be removed. -/
def Kept (policy : RetentionPolicy) (c : Call) (b : Backup) : Bool :=
  policy.shouldRetain (c.now b.id) b || (c.removal b.id).isSome

variable {id : Uuid}

theorem Backups.filter_of_get_none {p : Backup → Bool} {backups : Backups}
    (h : backups.get id = none) : backups.values.filter (fun b => b.id != id || p b) = backups.values := by
  apply List.filter_eq_self.mpr
  intro b hb
  have hid : b.id ≠ id := by
    rintro rfl
    exact Backups.get_eq_none.mp h (List.mem_map_of_mem hb)
  rw [bne_iff_ne.mpr hid, Bool.true_or]

theorem Backups.filter_of_get_some {p : Backup → Bool} {backups : Backups}
    (h : backups.get id = some b) : backups.values.filter (fun b => b.id != id || p b) =
      if p b then backups.values else backups.values.filter (·.id != id) := by
  have honly : ∀ a ∈ backups.values, a.id = id → a = b := by
    intro a ha hid
    have hget := Backups.get_eq_some.mpr ⟨ha, hid⟩
    rw [h] at hget
    cases hget
    rfl
  by_cases hp : p b
  · rw [if_pos hp]
    apply List.filter_eq_self.mpr
    intro a ha
    by_cases hid : a.id = id
    · rw [honly a ha hid, hp, Bool.or_true]
    · rw [bne_iff_ne.mpr hid, Bool.true_or]
  · rw [if_neg hp]
    apply List.filter_congr
    intro a ha
    by_cases hid : a.id = id
    · rw [honly a ha hid, Bool.eq_false_iff.mpr hp, Bool.or_false]
    · rw [bne_iff_ne.mpr hid, Bool.true_or]

theorem retainStep_spec (c : Call) (s : BackupManager × Nat) (id : Uuid) :
    (BackupManager.retainStep c s id).1.config = s.1.config ∧
      (BackupManager.retainStep c s id).1.wal = s.1.wal ∧
      (BackupManager.retainStep c s id).1.backups.values =
        s.1.backups.values.filter fun b => b.id != id || Kept s.1.config c b := by
  unfold BackupManager.retainStep
  cases hget : s.1.backups.get id with
  | none => exact ⟨rfl, rfl, (Backups.filter_of_get_none hget).symm⟩
  | some b =>
    have hid : b.id = id := (Backups.get_eq_some.mp hget).2
    rw [Backups.filter_of_get_some hget]
    dsimp only
    rw [ite_self]
    by_cases hretain : s.1.config.shouldRetain (c.now id) b
    · have hkept : Kept s.1.config c b := by
        unfold Kept
        rw [hid, hretain, Bool.true_or]
      rw [if_pos hretain, if_pos hkept]
      exact ⟨rfl, rfl, rfl⟩
    · have hkept : Kept s.1.config c b = (c.removal id).isSome := by
        unfold Kept
        rw [hid, Bool.eq_false_iff.mpr hretain, Bool.false_or]
      rw [if_neg hretain, hkept]
      unfold BackupManager.deleteBackup
      rw [hget]
      cases c.removal id with
      | some e => exact ⟨rfl, rfl, rfl⟩
      | none => exact ⟨rfl, rfl, rfl⟩

theorem foldl_retainStep (c : Call) (ids : List Uuid) (s : BackupManager × Nat) :
    (ids.foldl (BackupManager.retainStep c) s).1.config = s.1.config ∧
      (ids.foldl (BackupManager.retainStep c) s).1.wal = s.1.wal ∧
      (ids.foldl (BackupManager.retainStep c) s).1.backups.values =
        s.1.backups.values.filter fun b => b.id ∉ ids || Kept s.1.config c b := by
  induction ids generalizing s with
  | nil =>
    refine ⟨rfl, rfl, (List.filter_eq_self.mpr ?_).symm⟩
    intro b _
    simp
  | cons id ids ih =>
    obtain ⟨hconfig, hwal, hvalues⟩ := retainStep_spec c s id
    obtain ⟨hconfig', hwal', hvalues'⟩ := ih (BackupManager.retainStep c s id)
    rw [List.foldl_cons]
    refine ⟨hconfig'.trans hconfig, hwal'.trans hwal, ?_⟩
    rw [hvalues', hvalues, hconfig, List.filter_filter]
    apply List.filter_congr
    intro b _
    by_cases hid : b.id = id <;> by_cases hkept : Kept s.1.config c b <;> simp [hid, hkept]

theorem applyRetentionPolicy_spec (m : BackupManager) (c : Call) :
    (m.applyRetentionPolicy c).config = m.config ∧ (m.applyRetentionPolicy c).wal = m.wal ∧
      (m.applyRetentionPolicy c).backups.values = m.backups.values.filter (Kept m.config c) := by
  unfold BackupManager.applyRetentionPolicy
  obtain ⟨hconfig, hwal, hvalues⟩ := foldl_retainStep c
    (m.backups.keys.insertionSort fun a b => ((m.backups.get a).map Backup.createdAt).getD (c.now a) ≤
      ((m.backups.get b).map Backup.createdAt).getD (c.now b)) (m, 0)
  refine ⟨hconfig, hwal, hvalues.trans ?_⟩
  apply List.filter_congr
  intro b hb
  have hmem : b.id ∈ m.backups.keys := List.mem_map_of_mem hb
  simp [hmem]

namespace BackupManager

def Follows (earlier later : Backup) : Prop :=
  later.previousBackupId = some earlier.id ∧ later.startLsn = earlier.endLsn

def predecessor (m : BackupManager) (b : Backup) : Option Backup := b.previousBackupId.bind m.backups.get

/-- The chain of the backup is read to its end, starts with a full backup and covers every LSN from there. -/
def Restorable (m : BackupManager) (id : Uuid) : Prop :=
  ∃ fuel chain, m.getBackupChain fuel id = some chain ∧ Covers (·.backupType = .full) Follows chain

abbrev Chained (m : BackupManager) : Backup → Prop :=
  Grounded m.predecessor (·.backupType = .full) Follows

/-- A full backup names no other one, and an incremental backup names one. -/
def WellKinded (m : BackupManager) : Prop :=
  ∀ b ∈ m.backups.values, (b.backupType = .full ∧ b.previousBackupId = none) ∨
    (b.backupType = .incremental ∧ b.previousBackupId.isSome)

/-- Every incremental backup can be restored. -/
def AllRestorable (m : BackupManager) : Prop :=
  ∀ b ∈ m.backups.values, b.backupType = .incremental → m.Restorable b.id

theorem chainLoop_of_walk {fuel : Nat} {id : Option Uuid} {chain older : List Backup}
    (h : walk m.predecessor fuel (id.bind m.backups.get) = some older) :
    m.chainLoop (fuel + 1) id chain = some (chain ++ older) := by
  induction fuel generalizing id chain older with
  | zero =>
    cases id with
    | none =>
      cases h
      rw [List.append_nil]
      rfl
    | some id =>
      unfold chainLoop
      rw [Option.bind_some] at h
      cases hget : m.backups.get id with
      | none =>
        rw [hget] at h
        cases h
        rw [List.append_nil]
      | some b =>
        rw [hget] at h
        cases h
  | succ fuel ih =>
    cases id with
    | none =>
      cases h
      rw [List.append_nil]
      rfl
    | some id =>
      unfold chainLoop
      rw [Option.bind_some] at h
      cases hget : m.backups.get id with
      | none =>
        rw [hget] at h
        cases h
        rw [List.append_nil]
      | some b =>
        rw [hget] at h
        obtain ⟨rest, hrest, rfl⟩ := Option.map_eq_some_iff.mp h
        show m.chainLoop (fuel + 1) b.previousBackupId (chain ++ [b]) = some (chain ++ b :: rest)
        rw [ih hrest, List.append_assoc, List.singleton_append]

theorem walk_of_chainLoop {fuel : Nat} {id : Option Uuid} {chain out : List Backup}
    (h : m.chainLoop fuel id chain = some out) :
    ∃ older, walk m.predecessor fuel (id.bind m.backups.get) = some older ∧ out = chain ++ older := by
  induction fuel generalizing id chain with
  | zero =>
    cases id with
    | none =>
      cases h
      exact ⟨[], rfl, (List.append_nil _).symm⟩
    | some id => cases h
  | succ fuel ih =>
    cases id with
    | none =>
      cases h
      exact ⟨[], rfl, (List.append_nil _).symm⟩
    | some id =>
      unfold chainLoop at h
      rw [Option.bind_some]
      cases hget : m.backups.get id with
      | none =>
        rw [hget] at h
        cases h
        exact ⟨[], rfl, (List.append_nil _).symm⟩
      | some b =>
        rw [hget] at h
        obtain ⟨rest, hrest, rfl⟩ := ih h
        refine ⟨b :: rest, ?_, by rw [List.append_assoc, List.singleton_append]⟩
        show (walk m.predecessor fuel (m.predecessor b)).map (b :: ·) = some (b :: rest)
        rw [show walk m.predecessor fuel (m.predecessor b) = some rest from hrest]
        rfl

theorem restorable_iff (hb : b ∈ m.backups.values) : m.Restorable b.id ↔ m.Chained b := by
  have hget : (some b.id).bind m.backups.get = some b := Backups.get_eq_some.mpr ⟨hb, rfl⟩
  apply Iff.trans _ grounded_iff.symm
  constructor
  · rintro ⟨fuel, chain, hchain, hcovers⟩
    obtain ⟨out, hout, rfl⟩ := Option.map_eq_some_iff.mp hchain
    obtain ⟨older, holder, hout⟩ := walk_of_chainLoop hout
    rw [hget] at holder
    rw [hout] at hcovers
    exact ⟨fuel, older, holder, hcovers⟩
  · rintro ⟨fuel, older, holder, hcovers⟩
    rw [← hget] at holder
    refine ⟨fuel + 1, older.reverse, ?_, hcovers⟩
    unfold getBackupChain
    rw [chainLoop_of_walk holder, List.nil_append]
    rfl

theorem chained_of_full (hfull : b.backupType = .full) (hprevious : b.previousBackupId = none) : m.Chained b := by
  have hnext : m.predecessor b = none := by
    unfold predecessor
    rw [hprevious]
    rfl
  exact Grounded.root hnext hfull

theorem WellKinded.predecessor_eq (h : m.WellKinded) (hb : b ∈ m.backups.values)
    (hchained : m.Chained b) (hprevious : b.previousBackupId = some id) :
    ∃ base ∈ m.backups.values, m.predecessor b = some base ∧ base.id = id ∧ Follows base b ∧ m.Chained base := by
  have hincremental : ¬ b.backupType = .full := by
    intro hfull
    rcases h b hb with hb | hb
    · rw [hb.2] at hprevious
      cases hprevious
    · rw [hfull] at hb
      cases hb.1
  obtain ⟨base, hnext, hfollows, hbase⟩ := hchained.next_of_not_root hincremental
  have hnext' := hnext
  unfold predecessor at hnext'
  rw [hprevious, Option.bind_some, Backups.get_eq_some] at hnext'
  exact ⟨base, hnext'.1, hnext, hnext'.2, hfollows, hbase⟩

theorem WellKinded.allRestorable_iff (h : m.WellKinded) :
    m.AllRestorable ↔ ∀ b ∈ m.backups.values, m.Chained b := by
  constructor
  · intro hall b hb
    rcases h b hb with ⟨hfull, hprevious⟩ | ⟨hincremental, -⟩
    · exact chained_of_full hfull hprevious
    · exact (restorable_iff hb).mp (hall b hb hincremental)
  · exact fun hall b hb _ => (restorable_iff hb).mpr (hall b hb)

/-- The retention policy leaves no backup without the one it builds on. -/
def KeepsBases (m : BackupManager) (c : Call) : Prop :=
  ∀ b ∈ m.backups.values, Kept m.config c b →
    ∀ base ∈ m.backups.values, b.previousBackupId = some base.id → Kept m.config c base

/-- The backup builds on one that stays, from the LSN where that one ends. -/
def Linked (m : BackupManager) (c : Call) (b : Backup) : Prop :=
  ∀ base ∈ m.backups.values, b.previousBackupId = some base.id → Kept m.config c base ∧ b.startLsn = base.endLsn

structure Adds (m : BackupManager) (c : Call) (b : Backup) (m' : BackupManager) : Prop where
  fresh : c.id ∉ m.backups.keys
  id_eq : b.id = c.id
  kind : (b.backupType = .full ∧ b.previousBackupId = none) ∨
    (b.backupType = .incremental ∧ ∃ base ∈ m.backups.values, b.previousBackupId = some base.id)
  values_eq : m'.backups.values = m.backups.values.filter (Kept m.config c) ++ [b]

namespace Adds

variable {a : Backup}

theorem mem_iff (h : Adds m c b m') :
    a ∈ m'.backups.values ↔ (a ∈ m.backups.values ∧ Kept m.config c a) ∨ a = b := by
  rw [h.values_eq, List.mem_append, List.mem_filter, List.mem_singleton]

theorem mem_new (h : Adds m c b m') : b ∈ m'.backups.values := h.mem_iff.mpr (Or.inr rfl)

theorem wellKinded (h : Adds m c b m') (hm : m.WellKinded) : m'.WellKinded := by
  intro a ha
  rcases h.mem_iff.mp ha with ha | rfl
  · exact hm a ha.1
  · rcases h.kind with hfull | ⟨hincremental, base, -, hprevious⟩
    · exact Or.inl hfull
    · exact Or.inr ⟨hincremental, hprevious ▸ rfl⟩

theorem get_old (h : Adds m c b m') {base : Backup} (hbase : base ∈ m.backups.values) :
    m'.backups.get base.id = if Kept m.config c base then some base else none := by
  by_cases hkept : Kept m.config c base
  · rw [if_pos hkept]
    exact Backups.get_eq_some.mpr ⟨h.mem_iff.mpr (Or.inl ⟨hbase, hkept⟩), rfl⟩
  · rw [if_neg hkept]
    apply Backups.get_eq_none.mpr
    intro hid
    obtain ⟨a, ha, hid⟩ := List.mem_map.mp hid
    rcases h.mem_iff.mp ha with ⟨ha, hkept'⟩ | rfl
    · rw [List.inj_on_of_nodup_map m.backups.nodup ha hbase hid] at hkept'
      exact hkept hkept'
    · apply h.fresh
      rw [← h.id_eq, hid]
      exact List.mem_map_of_mem hbase

theorem predecessor_old (h : Adds m c b m') {base : Backup} (hbase : base ∈ m.backups.values)
    (hprevious : a.previousBackupId = some base.id) :
    m'.predecessor a = if Kept m.config c base then some base else none := by
  unfold predecessor
  rw [hprevious]
  exact h.get_old hbase

/-- The backups of the manager keep their chains when the policy leaves what they build on. -/
theorem chained_old (h : Adds m c b m') (hm : m.WellKinded) (hall : ∀ a ∈ m.backups.values, m.Chained a)
    (hkeeps : m.KeepsBases c) (ha : a ∈ m.backups.values) (hkept : Kept m.config c a) : m'.Chained a := by
  apply (hall a ha).congr (P := fun a => a ∈ m.backups.values ∧ Kept m.config c a) _ _ ⟨ha, hkept⟩
  · rintro a base ⟨ha, hkept⟩ hnext
    cases hprevious : a.previousBackupId with
    | none =>
      unfold predecessor at hnext
      rw [hprevious] at hnext
      cases hnext
    | some id =>
      obtain ⟨base', hbase, hnext', rfl, -, -⟩ := hm.predecessor_eq ha (hall a ha) hprevious
      rw [hnext] at hnext'
      cases hnext'
      exact ⟨hbase, hkeeps a ha hkept base hbase hprevious⟩
  · rintro a ⟨ha, hkept⟩
    cases hprevious : a.previousBackupId with
    | none =>
      unfold predecessor
      rw [hprevious]
      rfl
    | some id =>
      obtain ⟨base, hbase, hnext, rfl, -, -⟩ := hm.predecessor_eq ha (hall a ha) hprevious
      rw [h.predecessor_old hbase hprevious, if_pos (hkeeps a ha hkept base hbase hprevious), hnext]

/-- All chains are complete after the call exactly when the policy leaves every backup that another one builds
on and the new backup starts where its base ends. -/
theorem chained_iff (h : Adds m c b m') (hm : m.WellKinded) (hall : ∀ a ∈ m.backups.values, m.Chained a) :
    (∀ a ∈ m'.backups.values, m'.Chained a) ↔ m.KeepsBases c ∧ m.Linked c b := by
  constructor
  · intro hall'
    have hpredecessor : ∀ a ∈ m'.backups.values, ∀ base ∈ m.backups.values, a.previousBackupId = some base.id →
        Kept m.config c base ∧ Follows base a := by
      intro a ha base hbase hprevious
      obtain ⟨base', -, hnext, -, hfollows, -⟩ := (h.wellKinded hm).predecessor_eq ha (hall' a ha) hprevious
      rw [h.predecessor_old hbase hprevious] at hnext
      by_cases hkept : Kept m.config c base
      · rw [if_pos hkept] at hnext
        cases hnext
        exact ⟨hkept, hfollows⟩
      · rw [if_neg hkept] at hnext
        cases hnext
    constructor
    · intro a ha hkept base hbase hprevious
      exact (hpredecessor a (h.mem_iff.mpr (Or.inl ⟨ha, hkept⟩)) base hbase hprevious).1
    · intro base hbase hprevious
      have hnew := hpredecessor b h.mem_new base hbase hprevious
      exact ⟨hnew.1, hnew.2.2⟩
  · rintro ⟨hkeeps, hlinked⟩ a ha
    rcases h.mem_iff.mp ha with ⟨ha, hkept⟩ | rfl
    · exact h.chained_old hm hall hkeeps ha hkept
    · rcases h.kind with hfull | ⟨-, base, hbase, hprevious⟩
      · exact chained_of_full hfull.1 hfull.2
      · have hlink := hlinked base hbase hprevious
        have hnext : m'.predecessor a = some base := by
          rw [h.predecessor_old hbase hprevious, if_pos hlink.1]
        exact Grounded.link hnext ⟨hprevious, hlink.2⟩ (h.chained_old hm hall hkeeps hbase hlink.1)

end Adds

end BackupManager

inductive Event where
  | rehash (values : List Backup)
  | setWal
  | createFullBackup (c : Call) (db : Except Error Bytes)
  | createIncrementalBackup (c : Call) (written : Except Error Unit)

/-- A call of the manager, or another iteration order of its map.  A new id is one that the map does not have. -/
def step (sha256 : Bytes → Vector UInt8 32) (m : BackupManager) : Event → Option BackupManager
  | .rehash values =>
    if h : values.Perm m.backups.values then
      some { m with backups := ⟨values, (h.map Backup.id).nodup_iff.mpr m.backups.nodup⟩ }
    else none
  | .setWal => some m.setWal
  | .createFullBackup c db => if c.id ∈ m.backups.keys then none else some (m.createFullBackup sha256 c db).2
  | .createIncrementalBackup c written =>
    if c.id ∈ m.backups.keys then none else some (m.createIncrementalBackup sha256 c written).2

/-- A backup that succeeds deletes none that another one builds on, and if it is incremental its base stays and
ends at the LSN of the call. -/
def Safe (m : BackupManager) : Event → Prop
  | .rehash _ => True
  | .setWal => True
  | .createFullBackup c db => db.isOk → m.KeepsBases c
  | .createIncrementalBackup c written =>
    m.wal → written.isOk → ∀ base, m.latestCompletedBackup = some base →
      m.KeepsBases c ∧ Kept m.config c base ∧ m.currentLsn c.startLsn = base.endLsn

theorem mem_of_maxByKey {α : Type} {key : α → Int} {l : List α} {x : α} (h : maxByKey key l = some x) : x ∈ l := by
  -- each step keeps the best element or takes the next one
  have hfold : ∀ (f : Option α → α → Option α), (∀ best y, f best y = best ∨ f best y = some y) →
      ∀ (l : List α) (best : Option α), l.foldl f best = some x → best = some x ∨ x ∈ l := by
    intro f hf l
    induction l with
    | nil => exact fun best h => Or.inl h
    | cons y l ih =>
      intro best h
      rcases ih _ h with hbest | hmem
      · rcases hf best y with heq | heq
        · exact Or.inl (heq.symm.trans hbest)
        · rw [heq] at hbest
          cases hbest
          exact Or.inr (List.mem_cons_self ..)
      · exact Or.inr (List.mem_cons_of_mem _ hmem)
  have hmem := fun hf => hfold _ hf l none h
  refine (hmem fun best y => ?_).elim (fun hnone => absurd hnone.symm (Option.some_ne_none x)) id
  cases best with
  | none => exact Or.inr rfl
  | some w =>
    dsimp only
    split
    · exact Or.inl rfl
    · exact Or.inr rfl

theorem mem_of_latestCompletedBackup (h : m.latestCompletedBackup = some b) : b ∈ m.backups.values :=
  (List.mem_filter.mp (mem_of_maxByKey h)).1

theorem adds_insert (hfresh : c.id ∉ m.backups.keys) (hid : b.id = c.id)
    (hkind : (b.backupType = .full ∧ b.previousBackupId = none) ∨
      (b.backupType = .incremental ∧ ∃ base ∈ m.backups.values, b.previousBackupId = some base.id)) :
    m.Adds c b { m.applyRetentionPolicy c with backups := (m.applyRetentionPolicy c).backups.insert b } where
  fresh := hfresh
  id_eq := hid
  kind := hkind
  values_eq := by
    show (m.applyRetentionPolicy c).backups.values.filter (·.id != b.id) ++ [b] = _
    rw [(applyRetentionPolicy_spec m c).2.2]
    congr 1
    apply List.filter_eq_self.mpr
    intro a ha
    apply bne_iff_ne.mpr
    rw [hid]
    intro heq
    apply hfresh
    rw [← heq]
    exact List.mem_map_of_mem (List.mem_filter.mp ha).1

theorem createFullBackup_spec (hfresh : c.id ∉ m.backups.keys) (db : Except Error Bytes) :
    ((m.createFullBackup sha256 c db).2 = m ∧ ¬ db.isOk) ∨
      (db.isOk ∧ ∃ b, m.Adds c b (m.createFullBackup sha256 c db).2 ∧ b.previousBackupId = none) := by
  cases db with
  | error e => exact Or.inl ⟨rfl, Bool.false_ne_true⟩
  | ok data => exact Or.inr ⟨rfl, _, adds_insert hfresh rfl (Or.inl ⟨rfl, rfl⟩), rfl⟩

theorem createIncrementalBackup_spec (hfresh : c.id ∉ m.backups.keys) (written : Except Error Unit) :
    ((m.createIncrementalBackup sha256 c written).2 = m ∧
        (m.wal → written.isOk → m.latestCompletedBackup = none)) ∨
      (m.wal ∧ written.isOk ∧ ∃ base b, m.latestCompletedBackup = some base ∧
        m.Adds c b (m.createIncrementalBackup sha256 c written).2 ∧
        b.previousBackupId = some base.id ∧ b.startLsn = m.currentLsn c.startLsn) := by
  unfold BackupManager.createIncrementalBackup
  cases hbase : m.latestCompletedBackup with
  | none => exact Or.inl ⟨rfl, fun _ _ => rfl⟩
  | some base =>
    dsimp only
    unfold BackupManager.performIncrementalBackup
    by_cases hwal : m.wal
    · rw [if_pos hwal]
      cases written with
      | error e => exact Or.inl ⟨rfl, fun _ hok => absurd hok Bool.false_ne_true⟩
      | ok done =>
        have hmem := mem_of_latestCompletedBackup hbase
        exact Or.inr ⟨hwal, rfl, base, _, rfl, adds_insert hfresh rfl (Or.inr ⟨rfl, base, hmem, rfl⟩), rfl, rfl⟩
    · rw [if_neg hwal]
      exact Or.inl ⟨rfl, fun hwal' => absurd hwal' hwal⟩

theorem step_cases {e : Event} (h : step sha256 m e = some m') :
    ((∀ b, b ∈ m'.backups.values ↔ b ∈ m.backups.values) ∧ Safe m e) ∨
      ∃ c b, m.Adds c b m' ∧ (Safe m e ↔ m.KeepsBases c ∧ m.Linked c b) := by
  cases e with
  | rehash values =>
    change (if h : values.Perm m.backups.values then _ else none) = some m' at h
    split at h
    next hperm =>
      cases h
      exact Or.inl ⟨fun b => hperm.mem_iff, trivial⟩
    next => cases h
  | setWal =>
    cases h
    exact Or.inl ⟨fun b => Iff.rfl, trivial⟩
  | createFullBackup c db =>
    change (if c.id ∈ m.backups.keys then none else some (m.createFullBackup sha256 c db).2) = some m' at h
    split at h
    next => cases h
    next hfresh =>
      cases h
      rcases createFullBackup_spec hfresh db with ⟨hsame, hfails⟩ | ⟨hok, b, hadds, hprevious⟩
      · rw [hsame]
        exact Or.inl ⟨fun b => Iff.rfl, fun hok => absurd hok hfails⟩
      · refine Or.inr ⟨c, b, hadds, ?_⟩
        have hlinked : m.Linked c b := by
          intro base _ hbase
          rw [hprevious] at hbase
          cases hbase
        exact ⟨fun hsafe => ⟨hsafe hok, hlinked⟩, fun hsafe _ => hsafe.1⟩
  | createIncrementalBackup c written =>
    change (if c.id ∈ m.backups.keys then none else some (m.createIncrementalBackup sha256 c written).2) =
      some m' at h
    split at h
    next => cases h
    next hfresh =>
      cases h
      rcases createIncrementalBackup_spec hfresh written with
        ⟨hsame, hfails⟩ | ⟨hwal, hok, base, b, hbase, hadds, hprevious, hstart⟩
      · rw [hsame]
        refine Or.inl ⟨fun b => Iff.rfl, ?_⟩
        intro hwal hok base hbase
        rw [hfails hwal hok] at hbase
        cases hbase
      · refine Or.inr ⟨c, b, hadds, ?_⟩
        constructor
        · intro hsafe
          obtain ⟨hkeeps, hkept, hend⟩ := hsafe hwal hok base hbase
          refine ⟨hkeeps, ?_⟩
          intro other hother hother'
          rw [hprevious] at hother'
          rw [← List.inj_on_of_nodup_map m.backups.nodup (mem_of_latestCompletedBackup hbase) hother
            (Option.some.inj hother')]
          exact ⟨hkept, hstart.trans hend⟩
        · rintro ⟨hkeeps, hlinked⟩ _ _ base' hbase'
          rw [hbase] at hbase'
          cases hbase'
          have hlink := hlinked base (mem_of_latestCompletedBackup hbase) hprevious
          exact ⟨hkeeps, hlink.1, hstart.symm.trans hlink.2⟩

theorem chained_congr (h : ∀ b, b ∈ m'.backups.values ↔ b ∈ m.backups.values) : m'.Chained b ↔ m.Chained b := by
  have hget : m'.backups.get = m.backups.get := by
    funext id
    apply Option.ext
    intro b
    rw [Backups.get_eq_some, Backups.get_eq_some, h]
  have hpredecessor : m'.predecessor = m.predecessor := by
    funext b
    unfold BackupManager.predecessor
    rw [hget]
  unfold BackupManager.Chained
  rw [hpredecessor]

theorem wellKinded_step {e : Event} (hm : m.WellKinded) (h : step sha256 m e = some m') : m'.WellKinded := by
  rcases step_cases h with ⟨hsame, -⟩ | ⟨c, b, hadds, -⟩
  · exact fun b hb => hm b ((hsame b).mp hb)
  · exact hadds.wellKinded hm

theorem allRestorable_step {e : Event} (hm : m.WellKinded) (hall : m.AllRestorable)
    (h : step sha256 m e = some m') : m'.AllRestorable ↔ Safe m e := by
  rw [(wellKinded_step hm h).allRestorable_iff]
  rw [hm.allRestorable_iff] at hall
  rcases step_cases h with ⟨hsame, hsafe⟩ | ⟨c, b, hadds, hsafe⟩
  · exact ⟨fun _ => hsafe, fun _ b hb => (chained_congr hsame).mpr (hall b ((hsame b).mp hb))⟩
  · rw [hsafe]
    exact hadds.chained_iff hm hall

/-- Every incremental backup of every state on the way can be restored from its chain exactly when no call
deletes a backup that another one builds on and every incremental backup starts where its base ends. -/
theorem backups_restorable (sha256 : Bytes → Vector UInt8 32) (config : RetentionPolicy) (es : List Event)
    (m : BackupManager) (hrun : run (step sha256) (.new config) es = some m) :
    Meets (step sha256) Safe (.new config) es ↔
      ∀ before r, before <+: es → run (step sha256) (.new config) before = some r → r.AllRestorable := by
  apply meets_iff (I := BackupManager.WellKinded) (F := fun _ _ => True)
  · exact fun s e t hs _ h => wellKinded_step hs h
  · exact fun s e t hs hall _ h => allRestorable_step hs hall h
  · exact fun b hb => nomatch hb
  · exact fun b hb => nomatch hb
  · exact meets_true
  · exact hrun

/-- The digests of the empty text and of `7:9`. -/
def sampleDigest (text : Bytes) : Vector UInt8 32 :=
  if text = [] then
    #v[0xe3, 0xb0, 0xc4, 0x42, 0x98, 0xfc, 0x1c, 0x14, 0x9a, 0xfb, 0xf4, 0xc8, 0x99, 0x6f, 0xb9, 0x24,
      0x27, 0xae, 0x41, 0xe4, 0x64, 0x9b, 0x93, 0x4c, 0xa4, 0x95, 0x99, 0x1b, 0x78, 0x52, 0xb8, 0x55]
  else
    #v[0xce, 0xdd, 0xe4, 0xde, 0x2c, 0xcb, 0xc3, 0xf0, 0x29, 0x31, 0x99, 0x87, 0x56, 0xe1, 0xe6, 0xbf,
      0x04, 0x48, 0x1a, 0xca, 0xa9, 0xca, 0x94, 0x47, 0x83, 0xbc, 0x29, 0xb4, 0xc5, 0x69, 0x9f, 0x8a]

def sampleCall (id : Uuid) (startLsn endLsn : Lsn) (time : Timestamp) : Call where
  id := id
  startLsn := startLsn
  endLsn := endLsn
  createdAt := time
  completedAt := time
  now := fun _ => time
  removal := fun _ => none

/-- A full backup that ends at LSN 7, and an incremental one from `startLsn` to 9 at the given time. -/
def sampleEvents (startLsn : Lsn) (time : Timestamp) : List Event :=
  [.setWal, .createFullBackup (sampleCall 1 7 7 0) (.ok []),
    .createIncrementalBackup (sampleCall 2 startLsn 9 time) (.ok ())]

def samplePolicy : RetentionPolicy where
  maxCount := 10
  maxAgeDays := 7

def sampleManager : BackupManager :=
  ((BackupManager.new samplePolicy).setWal.createFullBackup sampleDigest (sampleCall 1 7 7 0) (.ok [])).2

theorem backups_restorable_at_once :
    ∃ m, run (step sampleDigest) (.new samplePolicy) (sampleEvents 7 1000) = some m ∧ m.AllRestorable := by
  refine ⟨_, rfl, ?_⟩
  apply (backups_restorable sampleDigest samplePolicy (sampleEvents 7 1000) _ rfl).mp _ _ _ List.prefix_rfl rfl
  refine ⟨trivial, ?_⟩
  intro m hm
  cases hm
  constructor
  · intro _ b hb
    exact absurd hb List.not_mem_nil
  intro m hm
  cases hm
  refine ⟨?_, fun _ _ => trivial⟩
  intro _ _ base hbase
  cases hbase
  refine ⟨?_, rfl, rfl⟩
  intro b hb _ other _ hprevious
  rw [List.mem_singleton.mp hb] at hprevious
  cases hprevious

/-- The chain has a gap when the WAL goes on before the incremental backup, and after eight days it has lost
the full backup. -/
theorem restorable_fails :
    (∃ m, run (step sampleDigest) (.new samplePolicy) (sampleEvents 8 1000) = some m ∧ ¬ m.AllRestorable) ∧
      ∃ m, run (step sampleDigest) (.new samplePolicy) (sampleEvents 7 (8 * 24 * 60 * 60 * 10 ^ 9)) = some m ∧
        ¬ m.AllRestorable := by
  have hfull : ∀ b ∈ sampleManager.backups.values, b.backupType = .full ∧ b.previousBackupId = none := by
    intro b hb
    rw [List.mem_singleton.mp hb]
    exact ⟨rfl, rfl⟩
  have hkinded : sampleManager.WellKinded := fun b hb => Or.inl (hfull b hb)
  have hall : sampleManager.AllRestorable :=
    hkinded.allRestorable_iff.mpr fun b hb => BackupManager.chained_of_full (hfull b hb).1 (hfull b hb).2
  have hfails : ∀ startLsn time,
      ¬ Safe sampleManager (.createIncrementalBackup (sampleCall 2 startLsn 9 time) (.ok ())) →
      ∃ m, run (step sampleDigest) (.new samplePolicy) (sampleEvents startLsn time) = some m ∧
        ¬ m.AllRestorable := by
    intro startLsn time hsafe
    have hstep : step sampleDigest sampleManager (.createIncrementalBackup (sampleCall 2 startLsn 9 time) (.ok ())) =
      some (sampleManager.createIncrementalBackup sampleDigest (sampleCall 2 startLsn 9 time) (.ok ())).2 := rfl
    exact ⟨_, rfl, fun hrestorable => hsafe ((allRestorable_step hkinded hall hstep).mp hrestorable)⟩
  constructor
  · apply hfails
    intro hsafe
    exact absurd (hsafe rfl rfl _ rfl).2.2 (by decide)
  · apply hfails
    intro hsafe
    exact absurd (hsafe rfl rfl _ rfl).2.1 (by decide)

end Northstar.Recovery
