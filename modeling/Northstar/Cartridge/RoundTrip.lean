import Mathlib.Data.List.Induction
import Northstar.Cartridge.TaskFile

/-!
# RoundTrip — tasks through a cartridge file

A task is written with its type before the length of its key and read with the length of the key before its
type.  The two agree where the type and the four bytes of the length commute, as an empty type does.  The
claim of the last task is read only when its claimant has two bytes at least.
-/

namespace Northstar.Cartridge

open Bytes

namespace CartridgeTaskEntry

variable {task : CartridgeTaskEntry}

/-- The type and the length of the key are the same bytes in both orders. -/
def Commutes (task : CartridgeTaskEntry) : Prop :=
  task.taskType ++ le 4 task.key.length = le 4 task.key.length ++ task.taskType

instance (task : CartridgeTaskEntry) : Decidable task.Commutes := inferInstanceAs (Decidable (_ = _))

/-- What the file has room for: no claim fields without a claim, and a time exactly with a claimant that is
not empty and whose length the sum of the passes can hold. -/
def ClaimKept (task : CartridgeTaskEntry) : Prop :=
  match task.claimed, task.claimedBy, task.claimTime with
  | false, none, none => True
  | true, none, none => True
  | true, some claimant, some _ => 0 < claimant.length ∧ claimant.length + 10 < 2 ^ 16
  | _, _, _ => False

instance (task : CartridgeTaskEntry) : Decidable task.ClaimKept := by
  unfold ClaimKept
  split <;> infer_instance

def Plain (task : CartridgeTaskEntry) : Prop := task.Commutes ∧ task.ClaimKept

instance (task : CartridgeTaskEntry) : Decidable task.Plain := inferInstanceAs (Decidable (_ ∧ _))

theorem claimKept_cases (h : task.ClaimKept) :
    (task.claimed = false ∧ task.claimedBy = none ∧ task.claimTime = none) ∨
    (task.claimed = true ∧ task.claimedBy = none ∧ task.claimTime = none) ∨
    ∃ claimant time, task.claimed = true ∧ task.claimedBy = some claimant ∧ task.claimTime = some time ∧
      0 < claimant.length ∧ claimant.length + 10 < 2 ^ 16 := by
  rcases task with ⟨key, taskType, priority, _ | _, _ | claimant, _ | time⟩
  · exact .inl ⟨rfl, rfl, rfl⟩
  · exact absurd h id
  · exact absurd h id
  · exact absurd h id
  · exact .inr (.inl ⟨rfl, rfl, rfl⟩)
  · exact absurd h id
  · exact absurd h id
  · exact .inr (.inr ⟨claimant, time, rfl, rfl, rfl, h.1, h.2⟩)

theorem claimant_length_of_kept (h : task.ClaimKept) : task.claimant.length + 10 < 2 ^ 16 := by
  unfold claimant
  rcases claimKept_cases h with ⟨-, hby, -⟩ | ⟨-, hby, -⟩ | ⟨claimant, time, -, hby, -, -, hlen⟩
  · rw [hby]
    decide
  · rw [hby]
    decide
  · rw [hby]
    exact hlen

theorem eight_le_dataSize (task : CartridgeTaskEntry) : 8 ≤ task.dataSize := by
  unfold dataSize
  omega

section Fields

variable (task : CartridgeTaskEntry) (pre post : Bytes)

theorem flags_at : (pre ++ (task.bytes ++ post)).getD pre.length 0 = task.flags := by
  rw [List.getD_append_right _ _ _ _ (Nat.le_refl _), Nat.sub_self]
  rfl

theorem priority_at : (pre ++ (task.bytes ++ post)).getD (pre.length + 1) 0 = task.priority := by
  rw [List.getD_append_right _ _ _ _ (Nat.le_add_right ..), Nat.add_sub_cancel_left]
  rfl

theorem typeLen_at (h : task.taskType.length < 2 ^ 16) :
    toNat (window (pre ++ (task.bytes ++ post)) (pre.length + 2) 2) = task.taskType.length := by
  have hsplit : pre ++ (task.bytes ++ post) = (pre ++ [task.flags, task.priority]) ++
      (le 2 task.taskType.length ++ (task.taskType ++ (le 4 task.key.length ++ (task.key ++
        (task.claimBytes ++ post))))) := by
    simp only [bytes, List.append_assoc, List.cons_append, List.nil_append]
  rw [hsplit, window_append_middle (by simp) (length_le ..), toNat_le_of_lt (by omega)]

/-- Where the readers expect the length of the key and the type, there are the type and the length. -/
theorem middle_at : window (pre ++ (task.bytes ++ post)) (pre.length + 4) (4 + task.taskType.length) =
    task.taskType ++ le 4 task.key.length := by
  have hsplit : pre ++ (task.bytes ++ post) = (pre ++ ([task.flags, task.priority] ++
      le 2 task.taskType.length)) ++ ((task.taskType ++ le 4 task.key.length) ++ (task.key ++
        (task.claimBytes ++ post))) := by
    simp only [bytes, List.append_assoc, List.cons_append, List.nil_append]
  rw [hsplit]
  apply window_append_middle
  · simp
  · rw [List.length_append, length_le, Nat.add_comm]

theorem key_at : window (pre ++ (task.bytes ++ post)) (pre.length + 8 + task.taskType.length)
    task.key.length = task.key := by
  have hsplit : pre ++ (task.bytes ++ post) = (pre ++ ([task.flags, task.priority] ++
      (le 2 task.taskType.length ++ (task.taskType ++ le 4 task.key.length)))) ++ (task.key ++
        (task.claimBytes ++ post)) := by
    simp only [bytes, List.append_assoc, List.cons_append, List.nil_append]
  rw [hsplit]
  apply window_append_middle _ rfl
  simp only [List.length_append, List.length_cons, List.length_nil, length_le]
  omega

theorem claim_at (off len : Nat) : window (pre ++ (task.bytes ++ post))
    (pre.length + 8 + task.taskType.length + task.key.length + off) len =
      window (task.claimBytes ++ post) off len := by
  have hsplit : pre ++ (task.bytes ++ post) = (pre ++ ([task.flags, task.priority] ++
      (le 2 task.taskType.length ++ (task.taskType ++ (le 4 task.key.length ++ task.key))))) ++
        (task.claimBytes ++ post) := by
    simp only [bytes, List.append_assoc, List.cons_append, List.nil_append]
  have hlength : (pre ++ ([task.flags, task.priority] ++ (le 2 task.taskType.length ++ (task.taskType ++
      (le 4 task.key.length ++ task.key))))).length =
        pre.length + 8 + task.taskType.length + task.key.length := by
    simp only [List.length_append, List.length_cons, List.length_nil, length_le]
    omega
  rw [hsplit, window_append_right (by omega), hlength, Nat.add_sub_cancel_left]

theorem length_at : (pre ++ (task.bytes ++ post)).length =
    pre.length + 8 + task.taskType.length + task.key.length + (task.claimBytes.length + post.length) := by
  rw [List.length_append, List.length_append, length_bytes, length_claimBytes, dataSize]
  omega

end Fields

section InStep

variable {pre post : Bytes}

theorem fields_at (hfits : task.taskType.length < 2 ^ 16) (hkey : task.key.length < 2 ^ 32)
    (hcommutes : task.Commutes) :
    toNat (window (pre ++ (task.bytes ++ post)) (pre.length + 4) 4) = task.key.length ∧
      window (pre ++ (task.bytes ++ post)) (pre.length + 8) task.taskType.length = task.taskType := by
  have hmiddle := task.middle_at pre post
  rw [hcommutes, window_split] at hmiddle
  obtain ⟨hlen, htype⟩ := List.append_inj hmiddle (by
    rw [length_window_of_le (by rw [length_at]; omega), length_le])
  rw [hlen, toNat_le_of_lt (by omega)]
  exact ⟨rfl, htype⟩

theorem scanEntry_bytes (hfits : task.Fits) (hcommutes : task.Commutes) :
    scanEntry (pre ++ (task.bytes ++ post)) pre.length =
      if task.claimed ∧ 2 ^ 16 ≤ task.claimant.length + 10 then .error .panic
      else .ok (some ⟨pre.length, task.taskType, task.key, pre.length + task.bytes.length⟩) := by
  obtain ⟨hkeyLen, htype⟩ := @fields_at task pre post hfits.1 hfits.2.1 hcommutes
  have hlength := task.length_at pre post
  unfold scanEntry
  rw [if_neg (by omega), flags_at, task.typeLen_at pre post hfits.1, hkeyLen]
  dsimp only
  rw [if_neg (by omega), htype, key_at, length_bytes, dataSize]
  by_cases hclaimed : task.claimed
  · have hclaimBytes := task.length_claimBytes
    rw [if_pos hclaimed] at hclaimBytes
    have hclaimant : toNat (window (pre ++ (task.bytes ++ post))
        (pre.length + 8 + task.taskType.length + task.key.length) 2) = task.claimant.length := by
      have hread := task.claim_at pre post 0 2
      rw [Nat.add_zero, claimBytes, if_pos hclaimed, List.append_assoc, window_head (length_le ..)] at hread
      rw [hread, toNat_le_of_lt (by have := hfits.2.2 hclaimed; omega)]
    have hflag : task.flags &&& 0x01 ≠ 0 ∧
        pre.length + 8 + task.taskType.length + task.key.length + 10 ≤ (pre ++ (task.bytes ++ post)).length := by
      constructor
      · rw [flags, if_pos hclaimed]
        decide
      · omega
    rw [if_pos hflag, hclaimant, if_pos hclaimed]
    by_cases hlarge : 2 ^ 16 ≤ task.claimant.length + 10
    · rw [if_pos (by omega), if_pos ⟨hclaimed, hlarge⟩]
    · rw [if_neg (by omega), if_neg (fun hno => hlarge hno.2)]
      congr 3
      omega
  · have hflag : ¬ (task.flags &&& 0x01 ≠ 0 ∧
        pre.length + 8 + task.taskType.length + task.key.length + 10 ≤
          (pre ++ (task.bytes ++ post)).length) := by
      rw [flags, if_neg hclaimed]
      exact fun hno => hno.1 rfl
    rw [if_neg hflag, if_neg hclaimed, if_neg (fun hno => hclaimed hno.1)]
    congr 3
    omega

theorem readTaskAt_bytes (hfits : task.Fits) (hplain : task.Plain)
    (henough : task.claimed → 12 ≤ task.claimBytes.length + post.length) :
    readTaskAt (pre ++ (task.bytes ++ post)) pre.length = .ok task := by
  obtain ⟨hkeyLen, htype⟩ := @fields_at task pre post hfits.1 hfits.2.1 hplain.1
  have hlength := task.length_at pre post
  unfold readTaskAt
  rw [if_neg (by omega), flags_at, priority_at, task.typeLen_at pre post hfits.1, hkeyLen]
  dsimp only
  rw [if_neg (by omega), htype, key_at]
  rcases claimKept_cases hplain.2 with ⟨hclaimed, hby, htime⟩ | ⟨hclaimed, hby, htime⟩ |
    ⟨claimant, time, hclaimed, hby, htime, hpos, -⟩
  · have hflag : ¬ (task.flags &&& 0x01 ≠ 0 ∧
        pre.length + 8 + task.taskType.length + task.key.length + 12 ≤
          (pre ++ (task.bytes ++ post)).length) := by
      rw [flags, if_neg (by rw [hclaimed]; decide)]
      exact fun hno => hno.1 rfl
    rw [if_neg hflag, ← hclaimed, ← hby, ← htime]
  all_goals
    have hflag : task.flags &&& 0x01 ≠ 0 ∧
        pre.length + 8 + task.taskType.length + task.key.length + 12 ≤ (pre ++ (task.bytes ++ post)).length := by
      constructor
      · rw [flags, if_pos hclaimed]
        decide
      · have := henough hclaimed
        omega
    have hclaimBytes : task.claimBytes = le 2 task.claimant.length ++ (task.claimant ++
        u64 (task.claimTime.getD 0)) := if_pos hclaimed
    have hclaimant : toNat (window (pre ++ (task.bytes ++ post))
        (pre.length + 8 + task.taskType.length + task.key.length) 2) = task.claimant.length := by
      have hread := task.claim_at pre post 0 2
      rw [Nat.add_zero, hclaimBytes, List.append_assoc, window_head (length_le ..)] at hread
      rw [hread, toNat_le_of_lt (by have := hfits.2.2 hclaimed; omega)]
    rw [if_pos hflag, hclaimant]
  · have hempty : task.claimant = [] := by
      rw [claimant, hby]
      rfl
    rw [hempty, if_neg (by simp), ← hclaimed, ← hby, ← htime]
  · have hsame : task.claimant = claimant := by
      rw [CartridgeTaskEntry.claimant, hby]
      rfl
    have hread := task.claim_at pre post 2 claimant.length
    have hreadTime := task.claim_at pre post (2 + claimant.length) 8
    rw [hclaimBytes, hsame, htime] at hread hreadTime
    rw [List.append_assoc, List.append_assoc, window_append_middle (length_le ..) rfl] at hread
    rw [← List.append_assoc (le 2 _), List.append_assoc,
      window_append_middle (by rw [List.length_append, length_le]) (length_u64 _)] at hreadTime
    have hclaimLength := congrArg List.length hclaimBytes
    rw [List.length_append, List.length_append, length_le, length_u64, hsame] at hclaimLength
    rw [hsame, if_pos ⟨hpos, by omega⟩, hread, Nat.add_assoc _ 2, hreadTime, readU64_u64, ← hclaimed, ← hby,
      Option.getD_some, ← htime]

end InStep

end CartridgeTaskEntry

section DataSection

variable {tasks : List CartridgeTaskEntry} {rest : Bytes}

/-- The entries of tasks that are read in step. -/
def scannedFrom : Nat → List CartridgeTaskEntry → List ScannedEntry
  | _, [] => []
  | offset, task :: tasks =>
    ⟨offset, task.taskType, task.key, offset + task.bytes.length⟩ ::
      scannedFrom (offset + task.bytes.length) tasks

theorem dataBytes_cons (task : CartridgeTaskEntry) (tasks : List CartridgeTaskEntry) :
    dataBytes (task :: tasks) = task.bytes ++ dataBytes tasks := List.flatMap_cons

theorem dataBytes_append (tasks tasks' : List CartridgeTaskEntry) :
    dataBytes (tasks ++ tasks') = dataBytes tasks ++ dataBytes tasks' := List.flatMap_append

theorem length_le_dataBytes (tasks : List CartridgeTaskEntry) : 8 * tasks.length ≤ (dataBytes tasks).length := by
  induction tasks with
  | nil => exact Nat.zero_le _
  | cons task tasks ih =>
    have hsize := task.eight_le_dataSize
    rw [dataBytes_cons, List.length_append, List.length_cons, CartridgeTaskEntry.length_bytes]
    omega

theorem scanEntries_bytes (hfits : ∀ task ∈ tasks, task.Fits) (hplain : ∀ task ∈ tasks, task.Plain)
    (pre rest : Bytes) (fuel : Nat) :
    scanEntries (pre ++ (dataBytes tasks ++ rest)) (tasks.length + fuel) pre.length = (do
      let more ← scanEntries (pre ++ (dataBytes tasks ++ rest)) fuel (pre.length + (dataBytes tasks).length)
      return scannedFrom pre.length tasks ++ more) := by
  induction tasks generalizing pre with
  | nil =>
    rw [List.length_nil, Nat.zero_add]
    exact (bind_pure _).symm
  | cons task tasks ih =>
    have htask := hplain task (List.mem_cons_self ..)
    have hentry := @CartridgeTaskEntry.scanEntry_bytes task pre (dataBytes tasks ++ rest)
      (hfits task (List.mem_cons_self ..)) htask.1
    have hclaimant := CartridgeTaskEntry.claimant_length_of_kept htask.2
    rw [if_neg (by omega)] at hentry
    have hsplit : pre ++ (dataBytes (task :: tasks) ++ rest) =
        pre ++ (task.bytes ++ (dataBytes tasks ++ rest)) := by
      rw [dataBytes_cons, List.append_assoc]
    have hinside : pre.length < (pre ++ (dataBytes (task :: tasks) ++ rest)).length := by
      rw [hsplit, task.length_at]
      omega
    have htail := ih (fun task' ht => hfits task' (List.mem_cons_of_mem _ ht))
      (fun task' ht => hplain task' (List.mem_cons_of_mem _ ht)) (pre ++ task.bytes)
    have hsame : (pre ++ task.bytes) ++ (dataBytes tasks ++ rest) =
        pre ++ (dataBytes (task :: tasks) ++ rest) := by
      rw [hsplit, List.append_assoc]
    rw [hsame, List.length_append] at htail
    rw [List.length_cons, Nat.add_right_comm, scanEntries, if_pos hinside]
    rw [← hsplit] at hentry
    rw [hentry, Except.ok_bind]
    dsimp only
    rw [htail, dataBytes_cons, List.length_append, ← Nat.add_assoc, bind_assoc]
    rfl

def ReadsAs (data : Bytes) (e : ScannedEntry) (task : CartridgeTaskEntry) : Prop :=
  e.typeStr = task.taskType ∧ e.keyStr = task.key ∧ readTaskAt data e.start = .ok task

/-- Every claim, the last one too, is followed by enough bytes. -/
def Enough (tasks : List CartridgeTaskEntry) (rest : Bytes) : Prop :=
  2 ≤ rest.length ∨ ∀ task ∈ tasks.getLast?, task.claimed → 2 ≤ task.claimant.length

theorem Enough.tail {task next : CartridgeTaskEntry} (h : Enough (task :: next :: tasks) rest) :
    Enough (next :: tasks) rest := by
  unfold Enough at *
  rwa [List.getLast?_cons_cons] at h

theorem Enough.head {task : CartridgeTaskEntry} (h : Enough (task :: tasks) rest) (hclaimed : task.claimed) :
    12 ≤ task.claimBytes.length + (dataBytes tasks ++ rest).length := by
  rw [task.length_claimBytes, if_pos hclaimed, List.length_append]
  cases tasks with
  | nil =>
    rcases h with hrest | hlast
    · omega
    · have := hlast task rfl hclaimed
      omega
  | cons next tasks =>
    have hlength := length_le_dataBytes (next :: tasks)
    rw [List.length_cons] at hlength
    omega

theorem readsAs_scannedFrom (hfits : ∀ task ∈ tasks, task.Fits) (hplain : ∀ task ∈ tasks, task.Plain)
    (henough : Enough tasks rest) (pre : Bytes) :
    List.Forall₂ (ReadsAs (pre ++ (dataBytes tasks ++ rest))) (scannedFrom pre.length tasks) tasks := by
  induction tasks generalizing pre with
  | nil => exact List.Forall₂.nil
  | cons task tasks ih =>
    have hread := @CartridgeTaskEntry.readTaskAt_bytes task pre (dataBytes tasks ++ rest)
      (hfits task (List.mem_cons_self ..)) (hplain task (List.mem_cons_self ..)) henough.head
    have hsplit : pre ++ (dataBytes (task :: tasks) ++ rest) =
        pre ++ (task.bytes ++ (dataBytes tasks ++ rest)) := by
      rw [dataBytes_cons, List.append_assoc]
    rw [← hsplit] at hread
    apply List.Forall₂.cons ⟨rfl, rfl, hread⟩
    cases tasks with
    | nil => exact List.Forall₂.nil
    | cons next tasks =>
      have htail := ih (fun task' ht => hfits task' (List.mem_cons_of_mem _ ht))
        (fun task' ht => hplain task' (List.mem_cons_of_mem _ ht)) henough.tail (pre ++ task.bytes)
      rw [List.append_assoc, ← hsplit, List.length_append] at htail
      exact htail

end DataSection

def lastTask (key : Bytes) (tasks : List CartridgeTaskEntry) : Option CartridgeTaskEntry :=
  (tasks.filter (·.key = key)).getLast?

def tasksOfType (t : Bytes) (tasks : List CartridgeTaskEntry) : List CartridgeTaskEntry :=
  tasks.filter (·.taskType = t)

section Answers

variable {tasks : List CartridgeTaskEntry} {data : Bytes} {scanned : List ScannedEntry}

theorem readsAs_ofType (h : List.Forall₂ (ReadsAs data) scanned tasks) (t : Bytes) :
    List.Forall₂ (ReadsAs data) (ofType t scanned) (tasksOfType t tasks) := by
  apply List.rel_filter _ h
  intro e task hread
  show decide (e.typeStr = t) = true ↔ decide (task.taskType = t) = true
  rw [hread.1]

theorem readsAs_lastWithKey (h : List.Forall₂ (ReadsAs data) scanned tasks) (key : Bytes) :
    Option.Rel (ReadsAs data) (lastWithKey key scanned) (lastTask key tasks) := by
  have hfilter : List.Forall₂ (ReadsAs data) (scanned.filter (·.keyStr = key)) (tasks.filter (·.key = key)) := by
    apply List.rel_filter _ h
    intro e task hread
    show decide (e.keyStr = key) = true ↔ decide (task.key = key) = true
    rw [hread.2.1]
  have hreverse := List.forall₂_reverse_iff.mpr hfilter
  unfold lastWithKey lastTask
  rw [← List.head?_reverse, ← List.head?_reverse]
  generalize (scanned.filter _).reverse = es at hreverse ⊢
  generalize (tasks.filter _).reverse = ts at hreverse ⊢
  cases hreverse with
  | nil => exact Option.Rel.none
  | cons hhead _ => exact Option.Rel.some hhead

theorem mapM_readTaskAt (h : List.Forall₂ (ReadsAs data) scanned tasks) :
    (scanned.mapM fun e => readTaskAt data e.start) = .ok tasks := by
  rw [Except.mapM_eq_ok_iff]
  exact h.imp fun _ _ hread => hread.2.2

end Answers

namespace PendingTasksCartridge

/-- The cartridge answers every key with the last task that has it, and every type with its tasks in order. -/
def Answers (c : PendingTasksCartridge) (tasks : List CartridgeTaskEntry) : Prop :=
  (∀ key, c.getTask key = .ok (lastTask key tasks)) ∧ ∀ t, c.getTasksByType t = .ok (tasksOfType t tasks)

end PendingTasksCartridge

open PendingTasksCartridge

/-- A cartridge that the tasks were added to is written, and what is opened answers with the tasks. -/
def RoundTrips (tasks : List CartridgeTaskEntry) : Prop :=
  ∀ sourceTxnId timestamp c entries, build sourceTxnId timestamp tasks = .ok c → c.Iterates entries →
    ∃ file c', c.writeToFile entries = .ok file ∧ openFile file = .ok c' ∧ c'.Answers tasks

/-- The counts of types and tasks fit their fields, every task is plain, and the claim of the last one is long
enough. -/
structure Kept (tasks : List CartridgeTaskEntry) : Prop where
  room : ∀ sourceTxnId timestamp c, build sourceTxnId timestamp tasks = .ok c → c.Room
  plain : ∀ task ∈ tasks, task.Plain
  last : ∀ task ∈ tasks.getLast?, task.claimed → 2 ≤ task.claimant.length

/-- Keys and types of at most 65535 bytes. -/
def Short (tasks : List CartridgeTaskEntry) : Prop :=
  ∀ task ∈ tasks, task.key.length ≤ 65535 ∧ task.taskType.length ≤ 65535

instance (tasks : List CartridgeTaskEntry) : Decidable (Short tasks) :=
  inferInstanceAs (Decidable (∀ _ ∈ _, _ ∧ _))

variable {tasks : List CartridgeTaskEntry}

theorem fits_of_plain (hshort : Short tasks)
    (hplain : ∀ task ∈ tasks, task.Plain) : ∀ task ∈ tasks, task.Fits := by
  intro task htask
  have hlengths := hshort task htask
  have hclaimant := CartridgeTaskEntry.claimant_length_of_kept (hplain task htask).2
  exact ⟨by omega, by omega, fun _ => by omega⟩

theorem roundTrips_of_kept (hshort : Short tasks) (h : Kept tasks) : RoundTrips tasks := by
  intro sourceTxnId timestamp c entries hbuild hiter
  have hbuilt : c.Built tasks := by
    obtain ⟨c', hbuild', hbuilt⟩ := built_build sourceTxnId timestamp tasks
    rw [hbuild] at hbuild'
    cases hbuild'
    exact hbuilt
  have hfits := fits_of_plain hshort h.plain
  have hwrite := (hbuilt.writeToFile_eq_ok hiter).mpr ⟨⟨h.room _ _ _ hbuild, hfits⟩, rfl⟩
  have hcount := length_le_dataBytes tasks
  obtain ⟨fuel, hfuel⟩ := Nat.exists_eq_add_of_le (show tasks.length ≤ (dataBytes tasks).length by omega)
  have hscan : scanEntries (dataBytes c.tasks) (dataBytes c.tasks).length 0 = .ok (scannedFrom 0 tasks) := by
    have hstep := scanEntries_bytes hfits h.plain [] [] fuel
    rw [List.append_nil, List.nil_append, List.length_nil, Nat.zero_add, ← hfuel] at hstep
    have hend : scanEntries (dataBytes tasks) fuel (dataBytes tasks).length = .ok [] := by
      cases fuel with
      | zero => rfl
      | succ fuel => rw [scanEntries, if_neg (Nat.lt_irrefl _)]
    rw [hbuilt.tasks_eq, hstep, hend, Except.ok_bind, List.append_nil]
    rfl
  have hreads := @readsAs_scannedFrom tasks [] hfits h.plain (.inr h.last) []
  rw [List.append_nil, List.nil_append, List.length_nil] at hreads
  refine ⟨_, c.opened entries (scannedFrom 0 tasks), hwrite, ?_, ?_, ?_⟩
  · rw [hbuilt.openFile hiter hwrite, hscan]
    rfl
  · intro key
    rw [getTask_opened hscan, hbuilt.tasks_eq]
    have hlast := readsAs_lastWithKey hreads key
    generalize lastWithKey key (scannedFrom 0 tasks) = e at hlast ⊢
    generalize lastTask key tasks = task at hlast ⊢
    cases hlast with
    | none => rfl
    | some hread =>
      show (readTaskAt _ _ >>= fun task => pure (some task)) = _
      rw [hread.2.2]
      rfl
  · intro t
    rw [hbuilt.getTasksByType_opened hiter hscan, hbuilt.tasks_eq]
    by_cases ht : ∃ task ∈ tasks, task.taskType = t
    · rw [if_pos ht]
      exact mapM_readTaskAt (readsAs_ofType hreads t)
    · have hnone : tasksOfType t tasks = [] := by
        apply List.filter_eq_nil_iff.mpr
        intro task htask htype
        exact ht ⟨task, htask, by simpa using htype⟩
      rw [if_neg ht, hnone]

variable {offset : Nat} {task : CartridgeTaskEntry} {data : Bytes}

theorem readTaskAt_eq_ok (h : readTaskAt data offset = .ok task) :
    offset + 8 + task.taskType.length + task.key.length ≤ data.length ∧
    toNat (window data (offset + 2) 2) = task.taskType.length ∧
    toNat (window data (offset + 4) 4) = task.key.length ∧
    window data (offset + 8) task.taskType.length = task.taskType ∧
    ((task.claimed = false ∧ task.claimedBy = none ∧ task.claimTime = none) ∨
      (task.claimed = true ∧ offset + 8 + task.taskType.length + task.key.length + 12 ≤ data.length ∧
        ((task.claimedBy = none ∧ task.claimTime = none) ∨
          ∃ claimant time, task.claimedBy = some claimant ∧ task.claimTime = some time ∧ 0 < claimant.length ∧
            offset + 8 + task.taskType.length + task.key.length + 2 + claimant.length + 8 ≤ data.length))) := by
  unfold readTaskAt at h
  by_cases hheader : offset + 8 > data.length
  · rw [if_pos hheader] at h
    cases h
  rw [if_neg hheader] at h
  dsimp only at h
  generalize htypeLen : toNat (window data (offset + 2) 2) = typeLen at h
  generalize hkeyLen : toNat (window data (offset + 4) 4) = keyLen at h
  by_cases hroom : offset + 8 + typeLen + keyLen > data.length
  · rw [if_pos hroom] at h
    cases h
  rw [if_neg hroom] at h
  have htype : (window data (offset + 8) typeLen).length = typeLen := length_window_of_le (by omega)
  have hkey : (window data (offset + 8 + typeLen) keyLen).length = keyLen := length_window_of_le (by omega)
  split at h
  next hflag =>
    generalize hclaimantLen : toNat (window data (offset + 8 + typeLen + keyLen) 2) = claimantLen at h
    split at h
    next hclaimant =>
      have hlength : (window data (offset + 8 + typeLen + keyLen + 2) claimantLen).length = claimantLen :=
        length_window_of_le (by omega)
      cases h
      dsimp only
      rw [htype, hkey]
      refine ⟨by omega, rfl, rfl, rfl, .inr ⟨rfl, hflag.2, .inr ⟨_, _, rfl, rfl, ?_, ?_⟩⟩⟩
      · rw [hlength]
        exact hclaimant.1
      · rw [hlength]
        exact hclaimant.2
    next =>
      cases h
      dsimp only
      rw [htype, hkey]
      exact ⟨by omega, rfl, rfl, rfl, .inr ⟨rfl, hflag.2, .inl ⟨rfl, rfl⟩⟩⟩
  next =>
    cases h
    dsimp only
    rw [htype, hkey]
    exact ⟨by omega, rfl, rfl, rfl, .inl ⟨rfl, rfl, rfl⟩⟩

/-- A task at the end of the data that is read at its place or behind it is read at its place, and in step. -/
theorem plain_of_readTaskAt {pre : Bytes} (hfits : task.Fits)
    (hread : readTaskAt (pre ++ task.bytes) offset = .ok task) (hbehind : pre.length ≤ offset)
    (hscan : ∀ err, scanEntry (pre ++ task.bytes) pre.length ≠ .error err) :
    task.Plain ∧ (task.claimed → 2 ≤ task.claimant.length) := by
  obtain ⟨hroom, -, hkeyLen, htype, hclaim⟩ := readTaskAt_eq_ok hread
  have hlength := task.length_at pre []
  have hclaimBytes := task.length_claimBytes
  rw [List.append_nil, List.length_nil, Nat.add_zero] at hlength
  have hsame : offset = pre.length := by
    rcases hclaim with ⟨hclaimed, -, -⟩ | ⟨hclaimed, hend, ⟨hby, -⟩ | ⟨claimant, time, hby, -, -, hend'⟩⟩
    · rw [hclaimed, if_neg Bool.false_ne_true] at hclaimBytes
      omega
    · have hempty : task.claimant.length = 0 := by
        rw [CartridgeTaskEntry.claimant, hby]
        rfl
      rw [if_pos hclaimed] at hclaimBytes
      omega
    · have hlen : task.claimant.length = claimant.length := by
        rw [CartridgeTaskEntry.claimant, hby]
        rfl
      rw [if_pos hclaimed] at hclaimBytes
      omega
  subst hsame
  have hcommutes : task.Commutes := by
    have hmiddle := task.middle_at pre []
    rw [List.append_nil, window_split, Nat.add_assoc, htype] at hmiddle
    have hfour : (window (pre ++ task.bytes) (pre.length + 4) 4).length = 4 := length_window_of_le (by omega)
    have hword := le_toNat (window (pre ++ task.bytes) (pre.length + 4) 4)
    rw [hfour, hkeyLen] at hword
    rw [← hword] at hmiddle
    exact hmiddle.symm
  have hscanned := @CartridgeTaskEntry.scanEntry_bytes task pre [] hfits hcommutes
  rw [List.append_nil] at hscanned
  have hsum : ¬ (task.claimed ∧ 2 ^ 16 ≤ task.claimant.length + 10) := by
    intro hlarge
    rw [if_pos hlarge] at hscanned
    exact hscan _ hscanned
  refine ⟨⟨hcommutes, ?_⟩, ?_⟩
  · unfold CartridgeTaskEntry.ClaimKept
    rcases hclaim with ⟨hclaimed, hby, htime⟩ | ⟨hclaimed, -, ⟨hby, htime⟩ | ⟨claimant, time, hby, htime, hpos, -⟩⟩
    · rw [hclaimed, hby, htime]
      trivial
    · rw [hclaimed, hby, htime]
      trivial
    · rw [CartridgeTaskEntry.claimant, hby, Option.getD_some] at hsum
      have hsmall : ¬ 2 ^ 16 ≤ claimant.length + 10 := fun hlarge => hsum ⟨hclaimed, hlarge⟩
      rw [hclaimed, hby, htime]
      exact ⟨hpos, Nat.lt_of_not_le hsmall⟩
  · intro hclaimed
    rw [if_pos hclaimed] at hclaimBytes
    rcases hclaim with ⟨hno, -, -⟩ | ⟨-, hend, -⟩
    · rw [hclaimed] at hno
      cases hno
    · omega

theorem scanEntry_start {e : ScannedEntry}
    (h : scanEntry data offset = .ok (some e)) : e.start = offset ∧ offset ≤ e.stop := by
  unfold scanEntry at h
  dsimp only at h
  split at h
  · cases h
  split at h
  · cases h
  split at h
  · split at h
    · cases h
    · cases h
      exact ⟨rfl, by dsimp only; omega⟩
  · cases h
    exact ⟨rfl, by dsimp only; omega⟩

theorem scanEntries_start {fuel : Nat} {scanned : List ScannedEntry}
    (h : scanEntries data fuel offset = .ok scanned) : ∀ e ∈ scanned, offset ≤ e.start := by
  induction fuel generalizing offset scanned with
  | zero =>
    cases h
    exact fun e he => absurd he List.not_mem_nil
  | succ fuel ih =>
    unfold scanEntries at h
    by_cases hinside : offset < data.length
    · rw [if_pos hinside] at h
      rcases Except.bind_eq_ok_iff.mp h with ⟨_ | first, hfirst, h⟩
      · cases h
        exact fun e he => absurd he List.not_mem_nil
      · rcases Except.bind_eq_ok_iff.mp h with ⟨more, hmore, h⟩
        cases h
        obtain ⟨hstart, hstop⟩ := scanEntry_start hfirst
        intro e he
        rcases List.mem_cons.mp he with rfl | he
        · exact Nat.le_of_eq hstart.symm
        · exact hstop.trans (ih hmore e he)
    · rw [if_neg hinside] at h
      cases h
      exact fun e he => absurd he List.not_mem_nil

theorem scanEntry_ne_error {fuel : Nat} {scanned : List ScannedEntry}
    (h : scanEntries data fuel offset = .ok scanned) (hne : scanned ≠ []) :
    ∀ err, scanEntry data offset ≠ .error err := by
  intro err herr
  cases fuel with
  | zero =>
    cases h
    exact hne rfl
  | succ fuel =>
    unfold scanEntries at h
    by_cases hinside : offset < data.length
    · rw [if_pos hinside, herr] at h
      cases h
    · rw [if_neg hinside] at h
      cases h
      exact hne rfl

theorem fits_of_roundTrips (h : RoundTrips tasks)
    {sourceTxnId timestamp : UInt64} {c : PendingTasksCartridge}
    (hbuild : build sourceTxnId timestamp tasks = .ok c) : c.Room ∧ ∀ task ∈ tasks, task.Fits := by
  obtain ⟨c', hbuild', hbuilt⟩ := built_build sourceTxnId timestamp tasks
  rw [hbuild] at hbuild'
  cases hbuild'
  obtain ⟨file, c', hwrite, -, -⟩ := h sourceTxnId timestamp c _ hbuild (List.Perm.refl _)
  exact ((hbuilt.writeToFile_eq_ok (List.Perm.refl _)).mp hwrite).1

theorem kept_concat {before : List CartridgeTaskEntry} (hbefore : Kept before)
    (h : RoundTrips (before ++ [task])) : Kept (before ++ [task]) := by
  obtain ⟨c, hbuild, hbuilt⟩ := built_build 0 0 (before ++ [task])
  have hiter : c.Iterates (c.typeIndex.entries.map (·.2)) := List.Perm.refl _
  obtain ⟨file, c', hwrite, hopen, -, htypes⟩ := h 0 0 c _ hbuild hiter
  have hfits := (fits_of_roundTrips h hbuild).2
  rw [hbuilt.openFile hiter hwrite] at hopen
  rcases Except.bind_eq_ok_iff.mp hopen with ⟨scanned, hscan, hopened⟩
  cases hopened
  have hanswer := htypes task.taskType
  rw [hbuilt.getTasksByType_opened hiter hscan,
    if_pos ⟨task, List.mem_append_right _ (List.mem_singleton_self _), rfl⟩] at hanswer
  rw [hbuilt.tasks_eq, dataBytes_append] at hscan hanswer
  have hone : dataBytes [task] = task.bytes := by
    rw [dataBytes_cons]
    exact List.append_nil _
  rw [hone] at hscan hanswer
  -- the pass goes in step up to the last task
  have hfitsBefore : ∀ t ∈ before, t.Fits := fun t ht => hfits t (List.mem_append_left _ ht)
  have hcount := length_le_dataBytes before
  obtain ⟨fuel, hfuel⟩ := Nat.exists_eq_add_of_le
    (show before.length ≤ (dataBytes before ++ task.bytes).length by rw [List.length_append]; omega)
  have hstep := scanEntries_bytes hfitsBefore hbefore.plain [] task.bytes fuel
  rw [List.nil_append, List.length_nil, Nat.zero_add, ← hfuel, hscan] at hstep
  rcases Except.bind_eq_ok_iff.mp hstep.symm with ⟨more, hmore, hsame⟩
  have hsame := Except.ok.inj hsame
  subst hsame
  have hreads := @readsAs_scannedFrom _ task.bytes hfitsBefore hbefore.plain
    (.inl (by rw [task.length_bytes]; have := task.eight_le_dataSize; omega)) []
  rw [List.nil_append, List.length_nil] at hreads
  have hreadsType := readsAs_ofType hreads task.taskType
  -- so the last task is among the entries behind the others
  have hlast : ∃ e ∈ more, readTaskAt (dataBytes before ++ task.bytes) e.start = .ok task := by
    have hall := Except.mapM_eq_ok_iff.mp hanswer
    have hexpected : tasksOfType task.taskType (before ++ [task]) =
        tasksOfType task.taskType before ++ [task] := by
      unfold tasksOfType
      rw [List.filter_append, List.filter_cons_of_pos (by simp)]
      rfl
    have hactual : ofType task.taskType (scannedFrom 0 before ++ more) =
        ofType task.taskType (scannedFrom 0 before) ++ ofType task.taskType more := List.filter_append ..
    rw [hexpected, hactual] at hall
    have hdrop := List.forall₂_drop_append _ _ _ hall
    rw [← hreadsType.length_eq, List.drop_left] at hdrop
    rcases List.forall₂_cons_right_iff.mp hdrop with ⟨e, rest, hread, -, hmem⟩
    refine ⟨e, ?_, hread⟩
    have he : e ∈ ofType task.taskType more := by
      rw [hmem]
      exact List.mem_cons_self ..
    exact List.mem_of_mem_filter he
  obtain ⟨e, he, hread⟩ := hlast
  have hplain := plain_of_readTaskAt (hfits task (List.mem_append_right _ (List.mem_singleton_self _))) hread
    (scanEntries_start hmore e he) (scanEntry_ne_error hmore (List.ne_nil_of_mem he))
  exact
    { room := fun _ _ _ hbuild => (fits_of_roundTrips h hbuild).1
      plain := by
        intro t ht
        rcases List.mem_append.mp ht with ht | ht
        · exact hbefore.plain t ht
        · rw [List.mem_singleton.mp ht]
          exact hplain.1
      last := by
        intro t ht
        rw [List.getLast?_concat] at ht
        cases ht
        exact hplain.2 }

theorem kept_of_roundTrips (h : ∀ before, before <+: tasks → RoundTrips before) : Kept tasks := by
  induction tasks using List.reverseRecOn with
  | nil =>
    exact
      { room := fun _ _ _ hbuild => (fits_of_roundTrips (h [] List.prefix_rfl) hbuild).1
        plain := fun task htask => absurd htask List.not_mem_nil
        last := fun task htask => nomatch htask }
  | append_singleton before task ih =>
    have hbefore := ih fun before' hfront => h before' (hfront.trans (List.prefix_append ..))
    exact kept_concat hbefore (h _ List.prefix_rfl)

def processingTask : CartridgeTaskEntry where
  key := ascii "task:001"
  taskType := ascii "processing"
  priority := 10
  claimed := false
  claimedBy := none
  claimTime := none

/-- Three tasks of two types; the type of the last one has the bytes of the length of its key. -/
def threeTasks : List CartridgeTaskEntry :=
  [{ processingTask with taskType := [] },
    { processingTask with
      key := ascii "task:002"
      taskType := [] },
    { processingTask with
      key := ascii "task:003"
      taskType := [8, 0, 0, 0]
      claimed := true
      claimedBy := some (ascii "agent-42")
      claimTime := some 7 }]

end Northstar.Cartridge
