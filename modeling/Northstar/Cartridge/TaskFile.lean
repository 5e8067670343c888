import Northstar.Cartridge.PendingTasks

/-!
# TaskFile — what `open` takes from a written file

The sections of a file are read back where the header has them.  So an opened cartridge answers from the
entries that the passes go through in the data section, and from the names in the index.
-/

namespace Northstar.Cartridge

open Bytes

theorem intCast_eq_ok {width n m : Nat} : intCast width n = .ok m ↔ n < 256 ^ width ∧ m = n := by
  unfold intCast
  by_cases hfits : n < 256 ^ width
  · rw [if_pos hfits]
    exact ⟨fun h => ⟨hfits, (Except.ok.inj h).symm⟩, fun h => congrArg _ h.2.symm⟩
  · rw [if_neg hfits]
    exact ⟨(nomatch ·), fun h => absurd h.1 hfits⟩

theorem fixedBuffer_eq {size : Nat} {written : Bytes} (h : written.length = size) :
    fixedBuffer size written = .ok written := by
  unfold fixedBuffer
  rw [if_pos (Nat.le_of_eq h), h, Nat.sub_self, List.replicate_zero, List.append_nil]

variable {file b : Bytes}

theorem pread_eq {bytes : Bytes} {offset : Nat} (h : window file offset bytes.length = bytes) :
    pread file offset bytes.length = bytes := by
  unfold pread
  rw [h, Nat.sub_self, List.replicate_zero, List.append_nil]

theorem checkedSub_add (a b : Nat) : checkedSub (a + b) a = .ok b := by
  unfold checkedSub
  rw [if_pos (Nat.le_add_right ..), Nat.add_sub_cancel_left]

namespace CartridgeTaskEntry

/-- The lengths that `writeDataSection` can cast. -/
def Fits (task : CartridgeTaskEntry) : Prop :=
  task.taskType.length < 2 ^ 16 ∧ task.key.length < 2 ^ 32 ∧ (task.claimed → task.claimant.length < 2 ^ 16)

instance (task : CartridgeTaskEntry) : Decidable task.Fits := inferInstanceAs (Decidable (_ ∧ _ ∧ (_ → _)))

def claimBytes (task : CartridgeTaskEntry) : Bytes :=
  if task.claimed then le 2 task.claimant.length ++ (task.claimant ++ u64 (task.claimTime.getD 0)) else []

def bytes (task : CartridgeTaskEntry) : Bytes :=
  [task.flags] ++ ([task.priority] ++ (le 2 task.taskType.length ++ (task.taskType ++
    (le 4 task.key.length ++ (task.key ++ task.claimBytes)))))

variable {task : CartridgeTaskEntry}

theorem length_claimBytes (task : CartridgeTaskEntry) :
    task.claimBytes.length = if task.claimed then 2 + task.claimant.length + 8 else 0 := by
  unfold claimBytes
  split
  · rw [List.length_append, List.length_append, length_le, length_u64, Nat.add_assoc]
  · rfl

theorem length_bytes (task : CartridgeTaskEntry) : task.bytes.length = task.dataSize := by
  unfold bytes dataSize
  simp only [List.length_append, List.length_cons, List.length_nil, length_le, length_claimBytes]
  omega

theorem writeClaim_eq_ok :
    task.writeClaim = .ok b ↔ (task.claimed → task.claimant.length < 2 ^ 16) ∧ b = task.claimBytes := by
  unfold writeClaim claimBytes
  by_cases hclaimed : task.claimed
  · rw [if_pos hclaimed, if_pos hclaimed, Except.bind_eq_ok_iff]
    constructor
    · rintro ⟨len, hlen, h⟩
      obtain ⟨hfits, rfl⟩ := intCast_eq_ok.mp hlen
      exact ⟨fun _ => hfits, (Except.ok.inj h).symm⟩
    · rintro ⟨hfits, rfl⟩
      exact ⟨_, intCast_eq_ok.mpr ⟨hfits hclaimed, rfl⟩, rfl⟩
  · rw [if_neg hclaimed, if_neg hclaimed]
    exact ⟨fun h => ⟨fun hno => absurd hno hclaimed, (Except.ok.inj h).symm⟩, fun h => congrArg _ h.2.symm⟩

theorem write_eq_ok : task.write = .ok b ↔ task.Fits ∧ b = task.bytes := by
  unfold write Fits bytes
  constructor
  · intro h
    rcases Except.bind_eq_ok_iff.mp h with ⟨typeLen, htype, h⟩
    rcases Except.bind_eq_ok_iff.mp h with ⟨keyLen, hkey, h⟩
    rcases Except.bind_eq_ok_iff.mp h with ⟨claim, hclaim, h⟩
    obtain ⟨htypeFits, rfl⟩ := intCast_eq_ok.mp htype
    obtain ⟨hkeyFits, rfl⟩ := intCast_eq_ok.mp hkey
    obtain ⟨hclaimFits, rfl⟩ := writeClaim_eq_ok.mp hclaim
    exact ⟨⟨htypeFits, hkeyFits, hclaimFits⟩, (Except.ok.inj h).symm⟩
  · rintro ⟨⟨htype, hkey, hclaim⟩, rfl⟩
    rw [intCast_eq_ok.mpr ⟨htype, rfl⟩, Except.ok_bind, intCast_eq_ok.mpr ⟨hkey, rfl⟩, Except.ok_bind,
      writeClaim_eq_ok.mpr ⟨hclaim, rfl⟩]
    rfl

end CartridgeTaskEntry

def dataBytes (tasks : List CartridgeTaskEntry) : Bytes := tasks.flatMap CartridgeTaskEntry.bytes

theorem length_dataBytes (tasks : List CartridgeTaskEntry) :
    (dataBytes tasks).length = calculateDataSize tasks := by
  unfold dataBytes calculateDataSize
  rw [List.length_flatMap]
  simp only [CartridgeTaskEntry.length_bytes]

theorem writeDataSection_eq_ok {tasks : List CartridgeTaskEntry} :
    writeDataSection tasks = .ok b ↔ (∀ task ∈ tasks, task.Fits) ∧ b = dataBytes tasks := by
  unfold writeDataSection dataBytes
  rw [List.flatMap_def]
  constructor
  · intro h
    rcases Except.bind_eq_ok_iff.mp h with ⟨entries, hentries, h⟩
    have hfits : ∀ task ∈ tasks, task.Fits := by
      intro task htask
      rcases Except.forall_ok_of_mapM hentries task htask with ⟨b, hb⟩
      exact (CartridgeTaskEntry.write_eq_ok.mp hb).1
    rw [Except.mapM_eq_ok_map fun task htask => CartridgeTaskEntry.write_eq_ok.mpr ⟨hfits task htask, rfl⟩]
      at hentries
    cases hentries
    exact ⟨hfits, (Except.ok.inj h).symm⟩
  · rintro ⟨hfits, rfl⟩
    rw [Except.mapM_eq_ok_map fun task htask => CartridgeTaskEntry.write_eq_ok.mpr ⟨hfits task htask, rfl⟩]
    rfl

namespace CartridgeTypeEntry

def Fits (entry : CartridgeTypeEntry) : Prop := entry.taskType.length < 2 ^ 16 ∧ entry.tasks.length < 2 ^ 32

def bytes (entry : CartridgeTypeEntry) : Bytes :=
  le 2 entry.taskType.length ++ (entry.taskType ++ (le 4 entry.tasks.length ++ (u64 0 ++ (u64 0 ++ u32 0))))

/-- What the index section has of a type: the name. -/
def named (taskType : Bytes) : CartridgeTypeEntry := ⟨taskType, [], 0, 0⟩

variable {entry : CartridgeTypeEntry}

theorem length_bytes (entry : CartridgeTypeEntry) : entry.bytes.length = entry.indexSize := by
  unfold bytes indexSize
  simp only [List.length_append, length_le, length_u64, length_u32]
  omega

theorem write_eq_ok : entry.write = .ok b ↔ entry.Fits ∧ b = entry.bytes := by
  unfold write Fits bytes
  constructor
  · intro h
    rcases Except.bind_eq_ok_iff.mp h with ⟨typeLen, htype, h⟩
    rcases Except.bind_eq_ok_iff.mp h with ⟨count, hcount, h⟩
    obtain ⟨htypeFits, rfl⟩ := intCast_eq_ok.mp htype
    obtain ⟨hcountFits, rfl⟩ := intCast_eq_ok.mp hcount
    exact ⟨⟨htypeFits, hcountFits⟩, (Except.ok.inj h).symm⟩
  · rintro ⟨⟨htype, hcount⟩, rfl⟩
    rw [intCast_eq_ok.mpr ⟨htype, rfl⟩, Except.ok_bind, intCast_eq_ok.mpr ⟨hcount, rfl⟩]
    rfl

theorem reads_bytes (h : entry.Fits) : CartridgeTypeEntry.read.Reads entry.bytes (named entry.taskType) := by
  have htype : (UInt16.ofNat entry.taskType.length).toNat = entry.taskType.length := by
    rw [UInt16.toNat_ofNat', Nat.mod_eq_of_lt h.1]
  have hcount : (UInt32.ofNat entry.tasks.length).toNat = entry.tasks.length := by
    rw [UInt32.toNat_ofNat', Nat.mod_eq_of_lt h.2]
  have hsame : entry.bytes = u16 (.ofNat entry.taskType.length) ++ (entry.taskType ++
      (u32 (.ofNat entry.tasks.length) ++ (u64 0 ++ (u64 0 ++ u32 0)))) := by
    unfold bytes u16 u32
    rw [htype, hcount]
  rw [hsame]
  unfold CartridgeTypeEntry.read
  apply (Reader.reads_u16 _ _).bind
  rw [htype]
  apply (Reader.reads_exact _ _).bind
  apply (Reader.reads_u32 _ _).bind
  apply (Reader.reads_u64 _ _).bind
  apply (Reader.reads_u64 _ _).bind
  exact (Reader.reads_u32 _ _).bind_lift (Reader.Reads.pure _)

end CartridgeTypeEntry

def indexBytes (entries : List CartridgeTypeEntry) : Bytes :=
  le 4 entries.length ++ (entries.map CartridgeTypeEntry.bytes).flatten

theorem length_indexBytes (entries : List CartridgeTypeEntry) :
    (indexBytes entries).length = calculateIndexSize entries := by
  unfold indexBytes calculateIndexSize
  rw [List.length_append, length_le, List.length_flatten, List.map_map]
  congr 2
  exact List.map_congr_left fun entry _ => entry.length_bytes

variable {entries : List CartridgeTypeEntry}

theorem writeIndexSection_eq_ok :
    writeIndexSection entries = .ok b ↔
      entries.length < 2 ^ 32 ∧ (∀ entry ∈ entries, entry.Fits) ∧ b = indexBytes entries := by
  unfold writeIndexSection indexBytes
  constructor
  · intro h
    rcases Except.bind_eq_ok_iff.mp h with ⟨count, hcount, h⟩
    rcases Except.bind_eq_ok_iff.mp h with ⟨written, hwritten, h⟩
    obtain ⟨hcountFits, rfl⟩ := intCast_eq_ok.mp hcount
    have hfits : ∀ entry ∈ entries, entry.Fits := by
      intro entry hentry
      rcases Except.forall_ok_of_mapM hwritten entry hentry with ⟨b, hb⟩
      exact (CartridgeTypeEntry.write_eq_ok.mp hb).1
    rw [Except.mapM_eq_ok_map fun entry hentry => CartridgeTypeEntry.write_eq_ok.mpr ⟨hfits entry hentry, rfl⟩]
      at hwritten
    cases hwritten
    exact ⟨hcountFits, hfits, (Except.ok.inj h).symm⟩
  · rintro ⟨hcount, hfits, rfl⟩
    rw [intCast_eq_ok.mpr ⟨hcount, rfl⟩, Except.ok_bind,
      Except.mapM_eq_ok_map fun entry hentry => CartridgeTypeEntry.write_eq_ok.mpr ⟨hfits entry hentry, rfl⟩]
    rfl

def loadedIndex (entries : List CartridgeTypeEntry) : TypeIndex :=
  entries.foldl (fun index entry => index.insert entry.taskType (.named entry.taskType)) ∅

theorem reads_indexBytes (hcount : entries.length < 2 ^ 32)
    (hfits : ∀ entry ∈ entries, entry.Fits) :
    readIndexSection.Reads (indexBytes entries) (loadedIndex entries) := by
  have hlength : (UInt32.ofNat entries.length).toNat = entries.length := by
    rw [UInt32.toNat_ofNat', Nat.mod_eq_of_lt hcount]
  have hsame : indexBytes entries =
      u32 (.ofNat entries.length) ++ (entries.map CartridgeTypeEntry.bytes).flatten := by
    unfold indexBytes u32
    rw [hlength]
  rw [hsame]
  unfold readIndexSection
  apply (Reader.reads_u32 _ _).bind
  rw [hlength]
  have hmany := Reader.Reads.many_map (g := fun entry => CartridgeTypeEntry.named entry.taskType)
    fun entry hentry => CartridgeTypeEntry.reads_bytes (hfits entry hentry)
  have hmap := hmany.map fun entries : List CartridgeTypeEntry =>
    entries.foldl (fun index entry => index.insert entry.taskType entry) (∅ : TypeIndex)
  rw [List.foldl_map] at hmap
  exact hmap

def taskPattern (mutationType : InvalidationMutationType) : InvalidationPattern where
  keyPrefix := ascii "task:"
  checkMutationType := true
  mutationType := some mutationType

def taskMetadata : CartridgeMetadata :=
  { CartridgeMetadata.init (ascii "pending_tasks_by_type_v1") with
    invalidationPolicy := ⟨3600, 10, 1000, [taskPattern .put, taskPattern .delete]⟩ }

def taskMetadataBytes : Bytes := taskMetadata.serialize.toOption.getD []

theorem serialize_taskMetadata : taskMetadata.serialize = .ok taskMetadataBytes := rfl

theorem length_taskMetadataBytes : taskMetadataBytes.length = taskMetadata.serializedSize := by
  decide +kernel

theorem deserialize_taskMetadataBytes :
    CartridgeMetadata.deserialize taskMetadataBytes = .ok (taskMetadata, []) := by
  decide +kernel

namespace PendingTasksCartridge

structure Built (tasks : List CartridgeTaskEntry) (c : PendingTasksCartridge) : Prop where
  tasks_eq : c.tasks = tasks
  magic : c.header.magic = cartridgeMagic
  version : c.header.version = cartridgeVersion
  cartridgeType : c.header.cartridgeType = .pendingTasksByType
  entryCount : c.header.entryCount = tasks.length
  metadata : c.metadata = taskMetadata
  named : ∀ e ∈ c.typeIndex.entries, e.2.taskType = e.1
  types : ∀ t, t ∈ c.typeIndex ↔ ∃ task ∈ tasks, task.taskType = t

def build (sourceTxnId timestamp : UInt64) (tasks : List CartridgeTaskEntry) :
    Except CartridgeError PendingTasksCartridge := do
  let c ← init sourceTxnId timestamp
  return tasks.foldl addTask c

variable {c : PendingTasksCartridge} {tasks : List CartridgeTaskEntry}

theorem Built.addTask (h : c.Built tasks) (task : CartridgeTaskEntry) :
    (c.addTask task).Built (tasks ++ [task]) where
  tasks_eq := by
    show c.tasks ++ [task] = _
    rw [h.tasks_eq]
  magic := h.magic
  version := h.version
  cartridgeType := h.cartridgeType
  entryCount := by
    show c.header.entryCount + 1 = _
    rw [h.entryCount, List.length_append, List.length_singleton]
  metadata := h.metadata
  named := by
    intro e he
    have he : e ∈ (c.typeIndex.insert task.taskType _).entries := he
    rw [AList.entries_insert] at he
    rcases List.mem_cons.mp he with rfl | he
    · show ((c.typeIndex.lookup task.taskType).getD ⟨task.taskType, [], 0, 0⟩).taskType = task.taskType
      cases hlookup : c.typeIndex.lookup task.taskType with
      | none => rfl
      | some entry => exact h.named ⟨task.taskType, entry⟩ (AList.mem_lookup_iff.mp hlookup)
    · exact h.named e ((List.kerase_sublist ..).subset he)
  types := by
    intro t
    show t ∈ c.typeIndex.insert task.taskType _ ↔ _
    rw [AList.mem_insert, h.types]
    constructor
    · rintro (rfl | ⟨task', htask', rfl⟩)
      · exact ⟨task, List.mem_append_right _ (List.mem_singleton_self _), rfl⟩
      · exact ⟨task', List.mem_append_left _ htask', rfl⟩
    · rintro ⟨task', htask', rfl⟩
      rcases List.mem_append.mp htask' with htask' | htask'
      · exact .inr ⟨task', htask', rfl⟩
      · rw [List.mem_singleton.mp htask']
        exact .inl rfl

theorem built_foldl (h : c.Built tasks) (added : List CartridgeTaskEntry) :
    (added.foldl PendingTasksCartridge.addTask c).Built (tasks ++ added) := by
  induction added generalizing c tasks with
  | nil => rwa [List.append_nil]
  | cons task added ih =>
    have hadded := ih (h.addTask task)
    rwa [List.append_assoc] at hadded

theorem built_build (sourceTxnId timestamp : UInt64) (tasks : List CartridgeTaskEntry) :
    ∃ c, build sourceTxnId timestamp tasks = .ok c ∧ c.Built tasks := by
  refine ⟨_, rfl, ?_⟩
  apply @built_foldl _ []
  exact
    { tasks_eq := rfl
      magic := rfl
      version := rfl
      cartridgeType := rfl
      entryCount := rfl
      metadata := rfl
      named := by intro e he; cases he
      types := by
        intro t
        constructor
        · exact fun hno => absurd hno (AList.notMem_empty t)
        · rintro ⟨task, htask, -⟩
          cases htask }

/-- The entries of the type index, as `StringHashMap` happens to iterate them. -/
def Iterates (c : PendingTasksCartridge) (entries : List CartridgeTypeEntry) : Prop :=
  entries.Perm (c.typeIndex.entries.map (·.2))

/-- The counts of the index and the size of the file fit their fields. -/
def Room (c : PendingTasksCartridge) : Prop :=
  c.typeIndex.entries.length < 2 ^ 32 ∧ (∀ e ∈ c.typeIndex.entries, e.2.tasks.length < 2 ^ 32) ∧
    c.totalSize (c.typeIndex.entries.map (·.2)) < 2 ^ 64

instance (c : PendingTasksCartridge) : Decidable c.Room := inferInstanceAs (Decidable (_ ∧ _ ∧ _))

def finalHeader (c : PendingTasksCartridge) (entries : List CartridgeTypeEntry) : CartridgeHeader :=
  { c.header with
    indexOffset := CartridgeHeader.size
    dataOffset := CartridgeHeader.size + calculateIndexSize entries
    metadataOffset := CartridgeHeader.size + calculateIndexSize entries + calculateDataSize c.tasks
    checksum := Zig.crc32c (c.header.serialize ++ (indexBytes entries ++ (dataBytes c.tasks ++
      taskMetadataBytes))) }

def fileBytes (c : PendingTasksCartridge) (entries : List CartridgeTypeEntry) : Bytes :=
  (c.finalHeader entries).serialize ++ (indexBytes entries ++ (dataBytes c.tasks ++ taskMetadataBytes))

theorem Iterates.totalSize (h : c.Iterates entries) :
    c.totalSize entries = c.totalSize (c.typeIndex.entries.map (·.2)) := by
  have hsum : (entries.map CartridgeTypeEntry.indexSize).sum =
      ((c.typeIndex.entries.map (·.2)).map CartridgeTypeEntry.indexSize).sum :=
    (List.Perm.map _ h).sum_nat
  unfold PendingTasksCartridge.totalSize calculateIndexSize
  rw [hsum]

theorem Iterates.length (h : c.Iterates entries) : entries.length = c.typeIndex.entries.length := by
  rw [List.Perm.length_eq h, List.length_map]

theorem Iterates.mem (h : c.Iterates entries) {entry : CartridgeTypeEntry} :
    entry ∈ entries ↔ ∃ e ∈ c.typeIndex.entries, e.2 = entry := by
  rw [List.Perm.mem_iff h, List.mem_map]

theorem Built.entries_fit (h : c.Built tasks) (hiter : c.Iterates entries)
    (hcounts : ∀ e ∈ c.typeIndex.entries, e.2.tasks.length < 2 ^ 32) (hfits : ∀ task ∈ tasks, task.Fits) :
    ∀ entry ∈ entries, entry.Fits := by
  intro entry hentry
  rcases hiter.mem.mp hentry with ⟨e, he, rfl⟩
  refine ⟨?_, hcounts e he⟩
  have hkey : e.1 ∈ c.typeIndex := AList.mem_keys.mpr (List.mem_keys_of_mem he)
  rcases (h.types e.1).mp hkey with ⟨task, htask, htype⟩
  rw [h.named e he, ← htype]
  exact (hfits task htask).1

theorem Built.writeToFile_eq_ok (h : c.Built tasks)
    (hiter : c.Iterates entries) : c.writeToFile entries = .ok file ↔
      (c.Room ∧ ∀ task ∈ tasks, task.Fits) ∧ file = c.fileBytes entries := by
  have hheader := fixedBuffer_eq c.header.length_serialize
  have hfinal := fixedBuffer_eq (c.finalHeader entries).length_serialize
  have hindexBuf := fixedBuffer_eq (length_indexBytes entries)
  have hdataBuf := fixedBuffer_eq (length_dataBytes c.tasks)
  have hmetadataBuf := fixedBuffer_eq length_taskMetadataBytes
  unfold writeToFile
  rw [h.metadata, hheader, Except.ok_bind, hiter.totalSize]
  by_cases hsize : 2 ^ 64 ≤ c.totalSize (c.typeIndex.entries.map (·.2))
  · rw [if_pos hsize]
    constructor
    · exact (nomatch ·)
    · exact fun hfits => absurd hsize (Nat.not_le_of_lt hfits.1.1.2.2)
  rw [if_neg hsize]
  constructor
  · intro hwrite
    rcases Except.bind_eq_ok_iff.mp hwrite with ⟨index, hindex, hwrite⟩
    obtain ⟨hcount, hentries, rfl⟩ := writeIndexSection_eq_ok.mp hindex
    rw [hindexBuf, Except.ok_bind] at hwrite
    rcases Except.bind_eq_ok_iff.mp hwrite with ⟨data, hdata, hwrite⟩
    obtain ⟨hfits, rfl⟩ := writeDataSection_eq_ok.mp hdata
    rw [hdataBuf, Except.ok_bind, serialize_taskMetadata, Except.ok_bind, hmetadataBuf, Except.ok_bind] at hwrite
    have hwrite : (fixedBuffer CartridgeHeader.size (c.finalHeader entries).serialize >>= fun headerBuf =>
      pure (headerBuf ++ (indexBytes entries ++ (dataBytes c.tasks ++ taskMetadataBytes)))) = .ok file := hwrite
    rw [hfinal, Except.ok_bind] at hwrite
    rw [h.tasks_eq] at hfits
    refine ⟨⟨⟨?_, ?_, Nat.lt_of_not_le hsize⟩, hfits⟩, (Except.ok.inj hwrite).symm⟩
    · rwa [← hiter.length]
    · exact fun e he => (hentries e.2 (hiter.mem.mpr ⟨e, he, rfl⟩)).2
  · rintro ⟨⟨⟨hcount, hcounts, -⟩, hfits⟩, rfl⟩
    have hentries := h.entries_fit hiter hcounts hfits
    have hdata := writeDataSection_eq_ok.mpr ⟨hfits, rfl⟩
    rw [writeIndexSection_eq_ok.mpr ⟨hiter.length.trans_lt hcount, hentries, rfl⟩, Except.ok_bind, hindexBuf,
      Except.ok_bind]
    rw [← h.tasks_eq] at hdata
    rw [hdata, Except.ok_bind, hdataBuf, Except.ok_bind, serialize_taskMetadata, Except.ok_bind, hmetadataBuf,
      Except.ok_bind]
    show (fixedBuffer CartridgeHeader.size (c.finalHeader entries).serialize >>= fun headerBuf =>
      pure (headerBuf ++ (indexBytes entries ++ (dataBytes c.tasks ++ taskMetadataBytes)))) = _
    rw [hfinal, Except.ok_bind]
    rfl

/-- What `open` makes of a file, given the entries that the passes go through. -/
def opened (c : PendingTasksCartridge) (entries : List CartridgeTypeEntry) (scanned : List ScannedEntry) :
    PendingTasksCartridge where
  header := c.finalHeader entries
  metadata := taskMetadata
  typeIndex := scanned.foldl putTask (loadedIndex entries)
  keyIndex := scanned.foldl putKey ∅
  tasks := []
  mappedData := if dataBytes c.tasks = [] then none else some (dataBytes c.tasks)

section Sections

variable (c : PendingTasksCartridge) (entries : List CartridgeTypeEntry)

theorem length_fileBytes : (c.fileBytes entries).length = CartridgeHeader.size + calculateIndexSize entries +
    calculateDataSize c.tasks + taskMetadata.serializedSize := by
  unfold fileBytes
  simp only [List.length_append, CartridgeHeader.length_serialize, length_indexBytes, length_dataBytes,
    length_taskMetadataBytes, Nat.add_assoc]

theorem pread_header :
    pread (c.fileBytes entries) 0 CartridgeHeader.size = (c.finalHeader entries).serialize := by
  rw [← (c.finalHeader entries).length_serialize]
  exact pread_eq (window_head rfl)

theorem pread_index : pread (c.fileBytes entries) (c.finalHeader entries).indexOffset
    (calculateIndexSize entries) = indexBytes entries := by
  rw [← length_indexBytes]
  apply pread_eq
  exact window_append_middle (c.finalHeader entries).length_serialize rfl

theorem window_data : window (c.fileBytes entries) (c.finalHeader entries).dataOffset
    (calculateDataSize c.tasks) = dataBytes c.tasks := by
  have hsplit : c.fileBytes entries = ((c.finalHeader entries).serialize ++ indexBytes entries) ++
      (dataBytes c.tasks ++ taskMetadataBytes) := by
    simp only [fileBytes, List.append_assoc]
  rw [hsplit]
  apply window_append_middle _ (length_dataBytes _)
  rw [List.length_append, CartridgeHeader.length_serialize, length_indexBytes]
  rfl

theorem pread_metadata : pread (c.fileBytes entries) (c.finalHeader entries).metadataOffset
    taskMetadata.serializedSize = taskMetadataBytes := by
  have hsplit : c.fileBytes entries = ((c.finalHeader entries).serialize ++ indexBytes entries ++
      dataBytes c.tasks) ++ (taskMetadataBytes ++ []) := by
    simp only [fileBytes, List.append_assoc, List.append_nil]
  rw [← length_taskMetadataBytes]
  apply pread_eq
  rw [hsplit]
  apply window_append_middle _ rfl
  rw [List.length_append, List.length_append, CartridgeHeader.length_serialize, length_indexBytes,
    length_dataBytes]
  rfl

end Sections

theorem Built.entryCount_le (h : c.Built tasks) : c.header.entryCount ≤ calculateDataSize c.tasks := by
  rw [h.entryCount, h.tasks_eq, calculateDataSize]
  clear h
  induction tasks with
  | nil => exact Nat.zero_le _
  | cons task tasks ih =>
    have hpos : 1 ≤ task.dataSize := by
      unfold CartridgeTaskEntry.dataSize
      omega
    rw [List.length_cons, List.map_cons, List.sum_cons]
    omega

theorem Built.deserialize_header (h : c.Built tasks) (hsize : c.totalSize entries < 2 ^ 64) :
    CartridgeHeader.deserialize (c.finalHeader entries).serialize = .ok (c.finalHeader entries, []) := by
  have hcount := h.entryCount_le
  unfold totalSize at hsize
  have hreads := CartridgeHeader.reads_deserialize (c.finalHeader entries) h.magic
    (show c.header.entryCount < _ by omega) (show CartridgeHeader.size < _ by decide)
    (show CartridgeHeader.size + calculateIndexSize entries < _ by omega)
    (show CartridgeHeader.size + calculateIndexSize entries + calculateDataSize c.tasks < _ by omega) []
  rwa [List.append_nil] at hreads

theorem Built.openFile (h : c.Built tasks) (hiter : c.Iterates entries)
    (hwrite : c.writeToFile entries = .ok file) :
    PendingTasksCartridge.openFile file = (do
      let scanned ← scanEntries (dataBytes c.tasks) (dataBytes c.tasks).length 0
      return c.opened entries scanned) := by
  obtain ⟨⟨⟨hcount, hcounts, hsize⟩, hfits⟩, rfl⟩ := (h.writeToFile_eq_ok hiter).mp hwrite
  rw [← hiter.totalSize] at hsize
  have hvalid : (c.finalHeader entries).validate = .ok () := by
    unfold CartridgeHeader.validate
    rw [show (c.finalHeader entries).magic = cartridgeMagic from h.magic,
      show (c.finalHeader entries).version = cartridgeVersion from h.version]
    rfl
  have htype : ¬ (c.finalHeader entries).cartridgeType ≠ .pendingTasksByType := not_not.mpr h.cartridgeType
  have hmetadataSize : checkedSub (c.fileBytes entries).length (c.finalHeader entries).metadataOffset =
      .ok taskMetadata.serializedSize := by
    rw [length_fileBytes]
    exact checkedSub_add _ _
  have hindexSize : checkedSub (c.finalHeader entries).dataOffset (c.finalHeader entries).indexOffset =
      .ok (calculateIndexSize entries) := checkedSub_add _ _
  have hdataSize : checkedSub (c.finalHeader entries).metadataOffset (c.finalHeader entries).dataOffset =
      .ok (calculateDataSize c.tasks) := checkedSub_add _ _
  have hreadIndex : readIndexSection (indexBytes entries) = .ok (loadedIndex entries, []) := by
    have hreads := reads_indexBytes (hiter.length.trans_lt hcount) (h.entries_fit hiter hcounts hfits) []
    rwa [List.append_nil] at hreads
  unfold PendingTasksCartridge.openFile
  rw [if_neg (by rw [length_fileBytes]; omega), pread_header, h.deserialize_header hsize, Except.ok_bind]
  dsimp only
  rw [hvalid, Except.ok_bind, if_neg htype, hmetadataSize, Except.ok_bind,
    pread_metadata, deserialize_taskMetadataBytes, Except.ok_bind]
  dsimp only
  unfold loadIndexFromFile mapDataSection
  dsimp only
  rw [hindexSize, Except.ok_bind, pread_index, hreadIndex, Except.ok_bind]
  dsimp only
  rw [pure_bind, hdataSize, Except.ok_bind, window_data, length_dataBytes]
  unfold opened
  by_cases hnone : dataBytes c.tasks = []
  · rw [← length_dataBytes, hnone]
    rfl
  · have hsome : calculateDataSize c.tasks ≠ 0 := by
      rw [← length_dataBytes]
      exact fun hno => hnone (List.eq_nil_of_length_eq_zero hno)
    rw [if_neg hsome, if_neg (not_not.mpr rfl), if_neg hnone]

end PendingTasksCartridge

def lastWithKey (key : Bytes) (scanned : List ScannedEntry) : Option ScannedEntry :=
  (scanned.filter (·.keyStr = key)).getLast?

def ofType (t : Bytes) (scanned : List ScannedEntry) : List ScannedEntry := scanned.filter (·.typeStr = t)

theorem lookup_foldl_putKey (scanned : List ScannedEntry) (index : KeyIndex) (key : Bytes) :
    (scanned.foldl putKey index).lookup key =
      ((lastWithKey key scanned).map ScannedEntry.taskOffset).or (index.lookup key) := by
  induction scanned generalizing index with
  | nil => rfl
  | cons e scanned ih =>
    rw [List.foldl_cons, ih]
    unfold lastWithKey
    by_cases hkey : e.keyStr = key
    · rw [List.filter_cons_of_pos (by simpa using hkey), List.getLast?_cons, putKey, hkey, AList.lookup_insert]
      cases (scanned.filter (·.keyStr = key)).getLast? with
      | none => rfl
      | some last => rfl
    · rw [List.filter_cons_of_neg (by simpa using hkey), putKey, AList.lookup_insert_ne (Ne.symm hkey)]

theorem lookup_foldl_putTask_none {scanned : List ScannedEntry} {index : TypeIndex} {t : Bytes}
    (h : index.lookup t = none) : (scanned.foldl putTask index).lookup t = none := by
  induction scanned generalizing index with
  | nil => exact h
  | cons e scanned ih =>
    rw [List.foldl_cons]
    apply ih
    unfold putTask
    cases hlookup : index.lookup e.typeStr with
    | none => exact h
    | some entry =>
      have hne : t ≠ e.typeStr := by
        rintro rfl
        rw [h] at hlookup
        cases hlookup
      dsimp only
      rw [AList.lookup_insert_ne hne, h]

theorem lookup_foldl_putTask_some {scanned : List ScannedEntry} {index : TypeIndex} {t : Bytes}
    {entry : CartridgeTypeEntry} (h : index.lookup t = some entry) :
    ∃ entry', (scanned.foldl putTask index).lookup t = some entry' ∧
      entry'.tasks = entry.tasks ++ (ofType t scanned).map ScannedEntry.taskOffset := by
  induction scanned generalizing index entry with
  | nil => exact ⟨entry, h, (List.append_nil _).symm⟩
  | cons e scanned ih =>
    rw [List.foldl_cons]
    unfold ofType
    by_cases htype : e.typeStr = t
    · subst htype
      rw [List.filter_cons_of_pos (by simp)]
      have hput : putTask index e = index.insert e.typeStr
          { entry with
            tasks := entry.tasks ++ [e.taskOffset]
            firstTaskOffset := if entry.tasks.length = 0 then e.start else entry.firstTaskOffset
            lastTaskOffset := e.start } := by
        unfold putTask
        rw [h]
      rw [hput]
      obtain ⟨entry', hlookup, htasks⟩ := ih (AList.lookup_insert index)
      refine ⟨entry', hlookup, ?_⟩
      rw [htasks, List.map_cons, List.append_assoc]
      rfl
    · rw [List.filter_cons_of_neg (by simpa using htype)]
      apply ih
      unfold putTask
      cases hlookup : index.lookup e.typeStr with
      | none => exact h
      | some other =>
        dsimp only
        rw [AList.lookup_insert_ne (Ne.symm htype), h]

theorem lookup_loadedIndex (entries : List CartridgeTypeEntry) (t : Bytes) :
    (loadedIndex entries).lookup t =
      if ∃ entry ∈ entries, entry.taskType = t then some (.named t) else none := by
  have hfold : ∀ index : TypeIndex,
      (entries.foldl (fun index entry => index.insert entry.taskType (.named entry.taskType)) index).lookup t =
        if ∃ entry ∈ entries, entry.taskType = t then some (.named t) else index.lookup t := by
    induction entries with
    | nil =>
      intro index
      rw [if_neg (by rintro ⟨entry, hno, -⟩; cases hno)]
      rfl
    | cons entry entries ih =>
      intro index
      rw [List.foldl_cons, ih]
      simp only [List.mem_cons, exists_eq_or_imp]
      by_cases hlater : ∃ entry ∈ entries, entry.taskType = t
      · rw [if_pos hlater, if_pos (.inr hlater)]
      rw [if_neg hlater]
      by_cases htype : entry.taskType = t
      · rw [if_pos (.inl htype), ← htype, AList.lookup_insert]
      · rw [if_neg (fun h => h.elim htype hlater), AList.lookup_insert_ne (Ne.symm htype)]
  exact hfold ∅

namespace PendingTasksCartridge

variable {c : PendingTasksCartridge} {tasks : List CartridgeTaskEntry}
  {scanned : List ScannedEntry}

theorem scanned_eq_nil (hscan : scanEntries (dataBytes c.tasks) (dataBytes c.tasks).length 0 = .ok scanned)
    (hnone : dataBytes c.tasks = []) : scanned = [] := by
  rw [hnone] at hscan
  exact (Except.ok.inj hscan).symm

theorem getTask_opened (hscan : scanEntries (dataBytes c.tasks) (dataBytes c.tasks).length 0 = .ok scanned)
    (key : Bytes) : (c.opened entries scanned).getTask key =
      match lastWithKey key scanned with
      | none => .ok none
      | some e => do return some (← readTaskAt (dataBytes c.tasks) e.start) := by
  unfold getTask opened
  dsimp only
  rw [lookup_foldl_putKey]
  by_cases hnone : dataBytes c.tasks = []
  · rw [scanned_eq_nil hscan hnone]
    rfl
  rw [if_neg hnone]
  cases lastWithKey key scanned with
  | none => rfl
  | some e => rfl

theorem Built.getTasksByType_opened (h : c.Built tasks) (hiter : c.Iterates entries)
    (hscan : scanEntries (dataBytes c.tasks) (dataBytes c.tasks).length 0 = .ok scanned) (t : Bytes) :
    (c.opened entries scanned).getTasksByType t =
      if ∃ task ∈ tasks, task.taskType = t then
        (ofType t scanned).mapM fun e => readTaskAt (dataBytes c.tasks) e.start
      else .ok [] := by
  have hnames : (∃ entry ∈ entries, entry.taskType = t) ↔ ∃ task ∈ tasks, task.taskType = t := by
    rw [← h.types]
    constructor
    · rintro ⟨entry, hentry, rfl⟩
      rcases hiter.mem.mp hentry with ⟨e, he, rfl⟩
      rw [h.named e he]
      exact AList.mem_keys.mpr (List.mem_keys_of_mem he)
    · intro ht
      rcases Option.isSome_iff_exists.mp (AList.lookup_isSome.mpr ht) with ⟨entry, hlookup⟩
      have he := AList.mem_lookup_iff.mp hlookup
      exact ⟨entry, hiter.mem.mpr ⟨⟨t, entry⟩, he, rfl⟩, h.named _ he⟩
  have hloaded := lookup_loadedIndex entries t
  unfold getTasksByType opened
  dsimp only
  by_cases ht : ∃ task ∈ tasks, task.taskType = t
  · rw [if_pos (hnames.mpr ht)] at hloaded
    rw [if_pos ht]
    obtain ⟨entry, hlookup, htasks⟩ := @lookup_foldl_putTask_some scanned _ _ _ hloaded
    have htasks : entry.tasks = (ofType t scanned).map ScannedEntry.taskOffset := htasks
    rw [hlookup]
    by_cases hnone : dataBytes c.tasks = []
    · rw [scanned_eq_nil hscan hnone, hnone]
      rfl
    · rw [if_neg hnone]
      dsimp only
      rw [htasks, List.mapM_map]
      rfl
  · rw [if_neg fun hno => ht (hnames.mp hno)] at hloaded
    rw [if_neg ht]
    rw [lookup_foldl_putTask_none hloaded]

end PendingTasksCartridge

end Northstar.Cartridge
