import Northstar.Zig.Frames
import Northstar.Zig.RootLeaf

/-!
# Reference — the file against the reference model

A database in a file and one in memory are given the same transactions.  While the contents fit into
one leaf, no key is put twice, no value is larger than the buffer of a read, and nothing but the only
key is deleted, both return the same.
-/

namespace Northstar.Zig

open Bytes EStateM SortedEntries BtreeLeafPayload

/-- The keys that are there, with their values. -/
abbrev Contents := List (Bytes × Bytes)

variable {ms : List Mutation} {key : Bytes}

namespace Contents

/-- What the entries take up. -/
def sizes (kv : Contents) : Nat := (kv.map fun e => 6 + e.1.length + e.2.length).sum

def apply (kv : Contents) : Mutation → Contents
  | .put key value => kv ++ [(key, value)]
  | .delete key => kv.filter (·.1 ≠ key)

/-- A mutation that one leaf can take: a put of a new key that fits; a delete of a key that is not there,
or of the only one. -/
def Plain (kv : Contents) : Mutation → Prop
  | .put key value =>
    (∀ e ∈ kv, e.1 ≠ key) ∧ kv.length < maxKeysPerLeaf ∧
      48 + (kv.length + 1) * 2 + (sizes kv + (6 + key.length + value.length)) ≤ Page.bodySize
  | .delete key => (∀ e ∈ kv, e.1 ≠ key) ∨ kv.map Prod.fst = [key]

instance (kv : Contents) (m : Mutation) : Decidable (kv.Plain m) :=
  match m with
  | .put _ _ => inferInstanceAs (Decidable (_ ∧ _ ∧ _))
  | .delete _ => inferInstanceAs (Decidable (_ ∨ _))

/-- All mutations of a list, each in the contents it finds. -/
def PlainRun : Contents → List Mutation → Prop
  | _, [] => True
  | kv, m :: ms => kv.Plain m ∧ PlainRun (kv.apply m) ms

instance decidablePlainRun : (kv : Contents) → (ms : List Mutation) → Decidable (kv.PlainRun ms)
  | _, [] => .isTrue trivial
  | kv, m :: ms =>
    have := decidablePlainRun (kv.apply m) ms
    inferInstanceAs (Decidable (kv.Plain m ∧ (kv.apply m).PlainRun ms))

theorem plainRun_append {kv : Contents} {ms' : List Mutation} (h : kv.PlainRun (ms ++ ms')) :
    kv.PlainRun ms ∧ (ms.foldl apply kv).PlainRun ms' := by
  induction ms generalizing kv with
  | nil => exact ⟨trivial, h⟩
  | cons m ms ih =>
    rcases ih h.2 with ⟨hms, hms'⟩
    exact ⟨⟨h.1, hms⟩, hms'⟩

end Contents

/-- What a mutation does to a map. -/
def Model.mutate (state : SnapshotState) : Mutation → SnapshotState
  | .put key value => Function.update state key (some value)
  | .delete key => Function.update state key none

theorem Model.applyWrites_mutate (base : SnapshotState) (txn : WriteTxn) (m : Mutation) :
    Model.applyWrites base (txn.mutate m).writes =
      Model.mutate (Model.applyWrites base txn.writes) m := by
  funext key
  cases m with
  | put k value =>
    unfold Model.applyWrites Model.mutate
    by_cases hkey : key = k
    · simp [WriteTxn.mutate, WriteTxn.put, hkey]
    · simp [WriteTxn.mutate, WriteTxn.put, hkey]
  | delete k =>
    unfold Model.applyWrites Model.mutate
    by_cases hkey : key = k
    · simp [WriteTxn.mutate, WriteTxn.del, hkey]
    · simp [WriteTxn.mutate, WriteTxn.del, hkey]

theorem Model.applyWrites_foldl (base : SnapshotState) (ms : List Mutation) (txn : WriteTxn) :
    Model.applyWrites base (ms.foldl WriteTxn.mutate txn).writes =
      ms.foldl Model.mutate (Model.applyWrites base txn.writes) := by
  induction ms generalizing txn with
  | nil => rfl
  | cons m ms ih =>
    rw [List.foldl_cons, ih, Model.applyWrites_mutate]
    rfl

/-- The entries of a leaf, as contents. -/
def pairs (es : List (Nat × BtreeLeafEntry)) : Contents := es.map fun e => (e.2.key, e.2.value)

def leafMap (es : List (Nat × BtreeLeafEntry)) : SnapshotState :=
  fun key => (lookup slotKey key es).map (·.2.value)

/-- The file of a database that has never needed more than one leaf. -/
structure OneLeaf (p : Pager) (es : List (Nat × BtreeLeafEntry)) : Prop where
  free : p.freePages = []
  last : p.lastAllocatedPage = p.pages.length
  pages : 2 ≤ p.pages.length
  pageId : p.currentMeta.pageId ≤ 1
  tree : (p.getRootPageId = 0 ∧ es = [] ∧ p.pages.length = 2) ∨
    (p.getRootPageId = 2 ∧ p.LeafAt p.getRootPageId es)

/-- The entries are the contents, packed against the end of the leaf. -/
structure Packed (es : List (Nat × BtreeLeafEntry)) (kv : Contents) : Prop where
  perm : (pairs es).Perm kv
  offset : minOffset es + kv.sizes = Page.bodySize

namespace OneLeaf

variable {p : Pager} {es : List (Nat × BtreeLeafEntry)}

theorem rootLeaf (h : OneLeaf p es) (hroot : p.getRootPageId ≠ 0) : p.RootLeaf es := by
  rcases h.tree with ⟨hzero, _⟩ | ⟨_, hleaf⟩
  · exact absurd hzero hroot
  · exact ⟨hroot, hleaf⟩

theorem length_eq (h : OneLeaf p es) (hroot : p.getRootPageId = 0) : p.pages.length = 2 := by
  rcases h.tree with ⟨_, _, hlength⟩ | ⟨htwo, _⟩
  · exact hlength
  · omega

theorem sorted (h : OneLeaf p es) : Sorted slotKey es := by
  rcases h.tree with ⟨_, rfl, _⟩ | ⟨_, hleaf⟩
  · exact .nil
  · rcases hleaf.exists_page with ⟨page, _, _, hleaf⟩
    exact hleaf.holds.sorted

theorem getBtreeValueAtRoot_eq (h : OneLeaf p es) (fuel : Nat) (key : Bytes) :
    p.getBtreeValueAtRoot (fuel + 1) key 4096 p.getRootPageId =
      match leafMap es key with
      | none => .ok none
      | some value => if value.length > 4096 then .error .bufferTooSmall else .ok (some value) := by
  unfold Pager.getBtreeValueAtRoot leafMap
  rcases h.tree with ⟨hroot, rfl, _⟩ | ⟨hroot, hleaf⟩
  · rw [if_pos hroot]
    rfl
  · rw [if_neg (by omega), hleaf.getValueFrom_eq]
    cases lookup slotKey key es with
    | none => rfl
    | some e => rfl

end OneLeaf

namespace Packed

variable {es : List (Nat × BtreeLeafEntry)} {kv : Contents}

theorem absent (h : Packed es kv) (habsent : ∀ e ∈ kv, e.1 ≠ key) : ∀ e ∈ es, e.2.key ≠ key :=
  fun e he => habsent (e.2.key, e.2.value) (h.perm.subset (List.mem_map_of_mem he))

theorem length_eq (h : Packed es kv) : es.length = kv.length := by
  rw [← h.perm.length_eq, pairs, List.length_map]

variable {value : Bytes}

theorem room (h : Packed es kv) (hplain : kv.Plain (.put key value)) :
    BtreeLeafPayload.Room es ⟨key, value⟩ := by
  rcases hplain with ⟨_, hcount, hsize⟩
  have hoffset := h.offset
  unfold BtreeLeafPayload.Room BtreeLeafEntry.getSize
  rw [h.length_eq]
  dsimp only
  exact ⟨hcount, by omega⟩

theorem insert {pre suf : List (Nat × BtreeLeafEntry)} (h : Packed (pre ++ suf) kv) {key value : Bytes}
    (hplain : kv.Plain (.put key value)) :
    Packed (pre ++ (minOffset (pre ++ suf) - BtreeLeafEntry.getSize ⟨key, value⟩, ⟨key, value⟩) :: suf)
      (kv.apply (.put key value)) := by
  have hroom := (h.room hplain).2
  have hoffset := h.offset
  constructor
  · have hmiddle : (pairs (pre ++ (minOffset (pre ++ suf) - BtreeLeafEntry.getSize ⟨key, value⟩,
        ⟨key, value⟩) :: suf)).Perm ((key, value) :: pairs (pre ++ suf)) := by
      unfold pairs
      rw [List.map_append, List.map_cons, List.map_append]
      exact List.perm_middle
    apply hmiddle.trans
    exact (h.perm.cons _).trans (List.perm_append_singleton _ _).symm
  · rw [Holds.minOffset_insert (Nat.sub_le _ _)]
    have hsizes : (kv.apply (.put key value)).sizes = kv.sizes + (6 + key.length + value.length) := by
      unfold Contents.sizes Contents.apply
      rw [List.map_append, List.sum_append, List.map_singleton, List.sum_singleton]
    have hentry : BtreeLeafEntry.getSize ⟨key, value⟩ = 6 + key.length + value.length := rfl
    rw [hsizes]
    omega

theorem nil : Packed [] [] := ⟨.refl _, rfl⟩

theorem leafMap_of_mem (h : Packed es kv) (hsorted : Sorted slotKey es)
    (hmem : (key, value) ∈ kv) : leafMap es key = some value := by
  rcases List.mem_map.mp (h.perm.symm.subset hmem) with ⟨e, he, hpair⟩
  cases hpair
  have hlookup : lookup slotKey e.2.key es = some e := lookup_eq_some hsorted he rfl
  unfold leafMap
  rw [hlookup]
  rfl

theorem mem_of_leafMap (h : Packed es kv) (hmap : leafMap es key = some value) :
    (key, value) ∈ kv := by
  unfold leafMap at hmap
  rcases Option.map_eq_some_iff.mp hmap with ⟨e, hlookup, rfl⟩
  rcases mem_of_lookup hlookup with ⟨he, rfl⟩
  exact h.perm.subset (List.mem_map_of_mem he)

end Packed

theorem leafMap_insert {pre suf : List (Nat × BtreeLeafEntry)} {key value : Bytes} {offset : Nat}
    (hpre : ∀ e ∈ pre, e.2.key < key) :
    leafMap (pre ++ (offset, ⟨key, value⟩) :: suf) =
      Model.mutate (leafMap (pre ++ suf)) (.put key value) := by
  funext k
  unfold leafMap Model.mutate
  have hinsert := @lookup_insert _ _ _ slotKey (offset, ⟨key, value⟩) pre suf hpre k inferInstance
  rw [hinsert]
  dsimp only
  by_cases hk : k = key
  · rw [if_pos hk, hk, Function.update_self]
    rfl
  · rw [if_neg hk, Function.update_of_ne hk]

theorem leafMap_absent {es : List (Nat × BtreeLeafEntry)}
    (habsent : ∀ e ∈ es, e.2.key ≠ key) : Model.mutate (leafMap es) (.delete key) = leafMap es := by
  apply Function.update_eq_self_iff.mpr
  unfold leafMap
  rw [lookup_eq_none habsent]
  rfl

theorem leafMap_only {offset : Nat} {entry : BtreeLeafEntry} :
    Model.mutate (leafMap [(offset, entry)]) (.delete entry.key) = leafMap [] := by
  have hinsert := @leafMap_insert [] [] entry.key entry.value offset (fun _ he => nomatch he)
  rw [List.nil_append] at hinsert
  unfold Model.mutate at hinsert ⊢
  dsimp only at hinsert ⊢
  rw [hinsert, Function.update_idem]
  exact Function.update_eq_self_iff.mpr rfl

namespace OneLeaf

open Zig.Pager

variable {p : Pager} {es : List (Nat × BtreeLeafEntry)}

theorem rewrite (h : OneLeaf p es) (hroot : p.getRootPageId ≠ 0) {page : Page}
    {es' : List (Nat × BtreeLeafEntry)} (hvalid : validatePage page = .ok page.header)
    (hleaf : Leaf page p.getRootPageId es') : OneLeaf (p.putPage p.getRootPageId page) es' := by
  have hlength := length_putPage page (h.rootLeaf hroot).lt_length
  have htwo : p.getRootPageId = 2 := by
    rcases h.tree with ⟨hzero, _⟩ | ⟨htwo, _⟩
    · exact absurd hzero hroot
    · exact htwo
  exact {
    free := h.free
    last := h.last.trans hlength.symm
    pages := hlength ▸ h.pages
    pageId := h.pageId
    tree := .inr ⟨htwo, .of_page (putPage_self p _ page) hvalid hleaf⟩ }

theorem first (h : OneLeaf p es) (hroot : p.getRootPageId = 0) {page : Page} {es' : List (Nat × BtreeLeafEntry)}
    (hvalid : validatePage page = .ok page.header) (hleaf : Leaf page p.pages.length es') :
    OneLeaf ((({ p with lastAllocatedPage := p.pages.length + 1 }.putPage p.pages.length
      (freshPage p.pages.length)).putPage p.pages.length page).setRootPageId p.pages.length) es' := by
  generalize hallocated : { p with lastAllocatedPage := p.pages.length + 1 }.putPage p.pages.length
    (freshPage p.pages.length) = allocated
  have hlength : allocated.pages.length = p.pages.length + 1 := by
    rw [← hallocated]
    exact length_putPage_end { p with lastAllocatedPage := p.pages.length + 1 } _
  have hlength' := @length_putPage allocated p.pages.length page (by omega)
  have hlast : allocated.lastAllocatedPage = p.pages.length + 1 := by
    rw [← hallocated]
    rfl
  have hmeta : allocated.currentMeta = p.currentMeta := by
    rw [← hallocated]
    rfl
  have hfree : allocated.freePages = p.freePages := by
    rw [← hallocated]
    rfl
  exact {
    free := hfree.trans h.free
    last := hlast.trans (hlength'.trans hlength).symm
    pages := by
      have := h.pages
      show 2 ≤ (allocated.putPage p.pages.length page).pages.length
      omega
    pageId := by
      show allocated.currentMeta.pageId ≤ 1
      rw [hmeta]
      exact h.pageId
    tree := .inr ⟨h.length_eq hroot, .of_page (putPage_self allocated _ page) hvalid hleaf⟩ }

theorem run_applyMutation (h : OneLeaf p es) {kv : Contents} (hpacked : Packed es kv) {m : Mutation}
    (hplain : kv.Plain m) (fuel txnId : Nat) :
    ∃ q es', (FileState.applyMutation (fuel + 1) txnId m).run p = .ok () q ∧ OneLeaf q es' ∧
      Packed es' (kv.apply m) ∧ leafMap es' = Model.mutate (leafMap es) m := by
  cases m with
  | put key value =>
    by_cases hroot : p.getRootPageId = 0
    · have hnil : es = [] := by
        rcases h.tree with ⟨_, hnil, _⟩ | ⟨htwo, _⟩
        · exact hnil
        · omega
      subst hnil
      rcases run_putBtreeValue_first hroot h.free h.last (hpacked.room hplain) (fuel + 1) txnId with
        ⟨page, hrun, hvalid, hleaf⟩
      exact ⟨_, _, hrun, h.first hroot hvalid hleaf, @Packed.insert kv [] [] hpacked key value hplain,
        @leafMap_insert [] [] key value _ (fun _ he => nomatch he)⟩
    · rcases (h.rootLeaf hroot).run_putBtreeValue (hpacked.room hplain) (hpacked.absent hplain.1) fuel
        txnId with ⟨pre, suf, page, rfl, hpre, _, hrun, hvalid, hleaf⟩
      exact ⟨_, _, hrun, h.rewrite hroot hvalid hleaf, hpacked.insert hplain, leafMap_insert hpre⟩
  | delete key =>
    have hdiscard : ∀ found q, (deleteBtreeValue (fuel + 1) key txnId).run p = .ok found q →
        (FileState.applyMutation (fuel + 1) txnId (.delete key)).run p = .ok () q := by
      intro found q hrun
      show (deleteBtreeValue (fuel + 1) key txnId >>= fun _ => pure ()).run p = _
      rw [run_bind_of_ok hrun]
      rfl
    by_cases habsent : ∀ e ∈ kv, e.1 ≠ key
    · have hsame : kv.apply (.delete key) = kv := by
        apply List.filter_eq_self.mpr
        intro e he
        simpa using habsent e he
      have hmap := (leafMap_absent (hpacked.absent habsent)).symm
      rw [hsame]
      by_cases hroot : p.getRootPageId = 0
      · refine ⟨p, es, hdiscard false p ?_, h, hpacked, hmap⟩
        unfold deleteBtreeValue
        rw [run_bind_of_ok (run_get p), if_pos hroot]
        rfl
      · refine ⟨p, es, hdiscard false p ?_, h, hpacked, hmap⟩
        exact (h.rootLeaf hroot).run_deleteBtreeValue_absent (hpacked.absent habsent) fuel txnId
    · rcases hplain with hplain | hkeys
      · exact absurd hplain habsent
      · rcases List.map_eq_singleton_iff.mp hkeys with ⟨⟨_, value⟩, hkv, rfl⟩
        subst hkv
        -- the only entry of the contents is the only entry of the leaf
        rcases List.map_eq_singleton_iff.mp (List.perm_singleton.mp hpacked.perm) with ⟨e, hes, hpair⟩
        rcases e with ⟨offset, entry⟩
        cases hpair
        subst hes
        have hroot : p.getRootPageId ≠ 0 := by
          intro hzero
          rcases h.tree with ⟨_, hnil, _⟩ | ⟨htwo, _⟩
          · cases hnil
          · omega
        rcases (h.rootLeaf hroot).run_deleteBtreeValue_only rfl fuel txnId with
          ⟨page, hrun, hvalid, hleaf⟩
        have hempty : Contents.apply [(entry.key, entry.value)] (.delete entry.key) = [] := by
          simp [Contents.apply]
        rw [hempty]
        exact ⟨_, [], hdiscard true _ hrun, h.rewrite hroot hvalid hleaf, .nil, leafMap_only.symm⟩

theorem run_applyMutations (h : OneLeaf p es) {kv : Contents} (hpacked : Packed es kv)
    (hplain : kv.PlainRun ms) (fuel txnId : Nat) :
    ∃ q es', (forEach (FileState.applyMutation (fuel + 1) txnId) ms).run p = .ok () q ∧ OneLeaf q es' ∧
      Packed es' (ms.foldl Contents.apply kv) ∧ leafMap es' = ms.foldl Model.mutate (leafMap es) := by
  induction ms generalizing p es kv with
  | nil => exact ⟨p, es, rfl, h, hpacked, rfl⟩
  | cons m ms ih =>
    rcases h.run_applyMutation hpacked hplain.1 fuel txnId with ⟨q, es', hrun, hq, hpacked', hmap⟩
    rcases ih hq hpacked' hplain.2 with ⟨r, es'', hrun', hr, hpacked'', hmap'⟩
    refine ⟨r, es'', ?_, hr, hpacked'', ?_⟩
    · unfold forEach
      rw [run_bind_of_ok hrun]
      exact hrun'
    · rw [hmap', hmap, List.foldl_cons]

theorem run_writeMeta (h : OneLeaf p es) (txnId : Nat) :
    ∃ q, (FileState.writeMeta txnId).run p = .ok () q ∧ OneLeaf q es ∧
      q.getRootPageId = p.getRootPageId := by
  have hopposite : ∃ opposite, getOppositeMetaId p.currentMeta.pageId = .ok opposite ∧ opposite ≤ 1 := by
    unfold getOppositeMetaId
    by_cases ha : p.currentMeta.pageId = metaAPageId
    · rw [if_pos ha]
      exact ⟨_, rfl, Nat.le_refl _⟩
    · have hb : p.currentMeta.pageId = metaBPageId := by
        have hle := h.pageId
        unfold metaAPageId at ha
        unfold metaBPageId
        omega
      rw [if_neg ha, if_pos hb]
      exact ⟨_, rfl, Nat.zero_le _⟩
  rcases hopposite with ⟨opposite, hopposite, hle⟩
  have hpages := h.pages
  let payload := { p.currentMeta.payload with committedTxnId := txnId }
  rcases validatePage_encodeMetaPage opposite payload with ⟨hvalid, hid⟩
  generalize hpage : encodeMetaPage opposite payload = page at hvalid hid
  have hwrite := @run_writePage p opposite page hvalid hid (by omega)
  have hlength := @length_putPage p opposite page (by omega)
  refine ⟨{ p.putPage opposite page with currentMeta := ⟨opposite, page.header, payload⟩ }, ?_, ?_, rfl⟩
  · unfold FileState.writeMeta
    rw [run_bind_of_ok (run_get p), run_bind_of_ok (run_lift_eq_ok_iff.mpr ⟨hopposite, rfl⟩)]
    dsimp only
    rw [hpage, run_bind_of_ok hwrite]
    rfl
  · exact {
      free := h.free
      last := h.last.trans hlength.symm
      pages := hlength.symm ▸ hpages
      pageId := hle
      tree := by
        rcases h.tree with ⟨hzero, hnil, htwo⟩ | ⟨hroot, hleaf⟩
        · exact .inl ⟨hzero, hnil, hlength.trans htwo⟩
        · rcases hleaf.exists_page with ⟨root, hget, hrootValid, hrootLeaf⟩
          refine .inr ⟨hroot, .of_page ?_ hrootValid hrootLeaf⟩
          have hne : p.getRootPageId ≠ opposite := by omega
          have hlt := (List.getElem?_eq_some_iff.mp hget).1
          exact (getElem?_putPage page hne hlt).trans hget }

end OneLeaf

/-- What a commit record can hold. -/
def Loggable (ms : List Mutation) : Prop :=
  (∀ m ∈ ms, m.Fits) ∧ ms.length < 2 ^ 32 ∧
    RecordHeader.size + (CommitPayloadHeader.size + (ms.map Mutation.bytes).flatten.length) +
      recordTrailerSize < 2 ^ 32

instance (ms : List Mutation) : Decidable (Loggable ms) := inferInstanceAs (Decidable (_ ∧ _ ∧ _))

theorem exists_framedRecord (h : Loggable ms) (txnId rootPageId : Nat) :
    ∃ record frame, FileState.createCommitRecord txnId rootPageId ms = .ok record ∧
      FileState.framedRecord record = .ok frame := by
  rcases h with ⟨hfits, hcount, hsize⟩
  let blank : CommitRecord := ⟨UInt64.ofNat txnId, UInt64.ofNat rootPageId, ms, 0⟩
  have hchecksum := @CommitRecord.calculatePayloadChecksum_eq blank hcount hfits
  let record := { blank with checksum := Crc32.hash blank.payload }
  have hlength : record.payload.length =
      CommitPayloadHeader.size + (ms.map Mutation.bytes).flatten.length := by
    unfold CommitRecord.payload
    rw [List.length_append, CommitRecord.length_payloadHeader]
  have haccepted : record.Accepted := by
    refine ⟨rfl, hfits, hcount, ?_⟩
    rw [hlength]
    exact hsize
  rcases appendCommitRecord_eq haccepted .create with ⟨lsn, happend⟩
  generalize WriteAheadLog.create.writeRecord _ _ = logged at happend
  refine ⟨record, logged.flush.file, ?_, ?_⟩
  · unfold FileState.createCommitRecord
    dsimp only
    rw [hchecksum]
  · unfold FileState.framedRecord
    rw [happend]

/-- A database in a file and one in memory, with the same contents. -/
structure Agree (onFile inMemory : Db) (file : FileState) (es : List (Nat × BtreeLeafEntry))
    (kv : Contents) : Prop where
  has_file : onFile.file = some file
  oneLeaf : OneLeaf file.pager es
  packed : Packed es kv
  root : file.registry.currentRootPageId = file.pager.getRootPageId
  current : file.registry.currentTxnId < onFile.nextTxnId
  free : onFile.writerActive = false
  base : ∃ base, onFile.model.history onFile.model.currentTxnId = some base
  memory : inMemory.file = none
  free' : inMemory.writerActive = false
  map : inMemory.model.history inMemory.model.currentTxnId = some (leafMap es)

theorem agree_empty :
    ∃ file, Agree (Db.openWithPager Pager.create []) Db.openInMemory file [] [] := by
  refine ⟨⟨Pager.create, .init Pager.create.getCommittedTxnId Pager.create.getRootPageId, []⟩, ?_⟩
  exact {
    has_file := rfl
    oneLeaf := ⟨rfl, rfl, Nat.le_refl _, Nat.zero_le _, .inl ⟨rfl, rfl, rfl⟩⟩
    packed := .nil
    root := rfl
    current := Nat.lt_succ_self _
    free := rfl
    base := ⟨_, rfl⟩
    memory := rfl
    free' := rfl
    map := rfl }

namespace Agree

open Zig.Db

variable {onFile inMemory onFile' inMemory' : Db} {file : FileState} {es : List (Nat × BtreeLeafEntry)}
  {kv : Contents}

variable {fuel : Nat}

theorem commit_of_transact {db db' : Db} {lsn : Nat}
    (hfree : db.writerActive = false) (h : (Db.transact fuel ms).run db = .ok lsn db') :
    ((ms.foldl WriteTxn.mutate ⟨db.nextTxnId, [], fun _ => none⟩).commit fuel).run
      { db with nextTxnId := db.nextTxnId + 1, writerActive := true } = .ok lsn db' := by
  unfold Db.transact at h
  rwa [run_bind_of_ok (run_beginWrite_free hfree)] at h

theorem transact (h : Agree onFile inMemory file es kv) {fuel' lsn lsn' : Nat}
    (hrun : (Db.transact (fuel + 1) ms).run onFile = .ok lsn onFile')
    (hrun' : (Db.transact fuel' ms).run inMemory = .ok lsn' inMemory') (hplain : kv.PlainRun ms) :
    ∃ file' es', Agree onFile' inMemory' file' es' (ms.foldl Contents.apply kv) := by
  have hcommit := commit_of_transact h.free hrun
  have hcommit' := commit_of_transact h.free' hrun'
  -- the file
  have hfile : { onFile with nextTxnId := onFile.nextTxnId + 1, writerActive := true }.file = some file :=
    h.has_file
  rw [WriteTxn.run_commit_file hfile, (WriteTxn.mutations_foldl _ _).1, (WriteTxn.mutations_foldl _ _).2,
    List.nil_append] at hcommit
  cases htwo : (FileState.executeTwoPhaseCommit (fuel + 1) onFile.nextTxnId ms).run file with
  | error e file' =>
    rw [htwo] at hcommit
    cases hcommit
  | ok lsn₀ file' =>
    rw [htwo] at hcommit
    dsimp only at hcommit
    rcases FileState.run_executeTwoPhaseCommit_eq_ok_iff.mp htwo with
      ⟨applied, record, frame, written, happly, _, _, hmeta, _, hfile'⟩
    rcases h.oneLeaf.run_applyMutations h.packed hplain fuel onFile.nextTxnId with
      ⟨applied', es', happly', hone, hpacked, hmap⟩
    rw [happly] at happly'
    cases happly'
    rcases hone.run_writeMeta onFile.nextTxnId with ⟨written', hmeta', hone', hroot⟩
    rw [hmeta] at hmeta'
    cases hmeta'
    have hregistered : file.registry.registerSnapshot onFile.nextTxnId written.getRootPageId =
        ⟨Function.update file.registry.snapshots onFile.nextTxnId (some written.getRootPageId),
          onFile.nextTxnId, written.getRootPageId⟩ := by
      unfold SnapshotRegistry.registerSnapshot
      rw [if_neg (Nat.not_le.mpr h.current)]
    rw [hregistered] at hfile'
    -- the memory
    have hmemory : { inMemory with nextTxnId := inMemory.nextTxnId + 1, writerActive := true }.file = none :=
      h.memory
    have hbase : inMemory.model.history inMemory.model.currentTxnId = some (leafMap es) := h.map
    rw [WriteTxn.run_commit_memory hmemory hbase] at hcommit'
    cases hcommit'
    rcases h.base with ⟨base, hbaseFile⟩
    rw [Model.commit_eq hbaseFile] at hcommit
    cases hcommit
    refine ⟨file', es', ?_⟩
    subst hfile'
    exact {
      has_file := rfl
      oneLeaf := hone'
      packed := hpacked
      root := rfl
      current := Nat.lt_succ_self _
      free := rfl
      base := ⟨_, Function.update_self ..⟩
      memory := h.memory
      free' := rfl
      map := by
        dsimp only
        rw [Function.update_self, Model.applyWrites_foldl, hmap]
        rfl }

theorem exists_transact (h : Agree onFile inMemory file es kv)
    (hplain : kv.PlainRun ms) (hlog : Loggable ms) (fuel fuel' : Nat) :
    ∃ lsn lsn' onFile' inMemory', (Db.transact (fuel + 1) ms).run onFile = .ok lsn onFile' ∧
      (Db.transact fuel' ms).run inMemory = .ok lsn' inMemory' := by
  rcases h.oneLeaf.run_applyMutations h.packed hplain fuel onFile.nextTxnId with
    ⟨applied, es', happly, hone, _, _⟩
  rcases hone.run_writeMeta onFile.nextTxnId with ⟨written, hmeta, _, _⟩
  rcases exists_framedRecord hlog onFile.nextTxnId applied.getRootPageId with
    ⟨record, frame, hrecord, hframe⟩
  have htwo := FileState.run_executeTwoPhaseCommit_eq_ok_iff.mpr
    ⟨applied, record, frame, written, happly, hrecord, hframe, hmeta, rfl, rfl⟩
  have hfile : { onFile with nextTxnId := onFile.nextTxnId + 1, writerActive := true }.file = some file :=
    h.has_file
  have hmemory : { inMemory with nextTxnId := inMemory.nextTxnId + 1, writerActive := true }.file = none :=
    h.memory
  have hmap : inMemory.model.history inMemory.model.currentTxnId = some (leafMap es) := h.map
  rcases h.base with ⟨base, hbase⟩
  unfold Db.transact
  rw [run_bind_of_ok (run_beginWrite_free h.free), run_bind_of_ok (run_beginWrite_free h.free'),
    WriteTxn.run_commit_file hfile, WriteTxn.run_commit_memory hmemory hmap, (WriteTxn.mutations_foldl _ _).1,
    (WriteTxn.mutations_foldl _ _).2, List.nil_append, htwo]
  dsimp only
  rw [Model.commit_eq hbase]
  exact ⟨_, _, _, _, rfl, rfl⟩

theorem runTxns (h : Agree onFile inMemory file es kv) {fuel' : Nat} {txns : List (List Mutation)}
    (hrun : (Db.runTxns (fuel + 1) txns).run onFile = .ok () onFile')
    (hrun' : (Db.runTxns fuel' txns).run inMemory = .ok () inMemory')
    (hplain : kv.PlainRun txns.flatten) :
    ∃ file' es', Agree onFile' inMemory' file' es' (txns.flatten.foldl Contents.apply kv) := by
  induction txns generalizing onFile inMemory file es kv with
  | nil =>
    cases hrun
    cases hrun'
    exact ⟨file, es, h⟩
  | cons ms txns ih =>
    unfold Db.runTxns forEach at hrun hrun'
    rcases run_bind_eq_ok_iff.mp hrun with ⟨_, reached, hfirst, hrest⟩
    rcases run_bind_eq_ok_iff.mp hrun' with ⟨_, reached', hfirst', hrest'⟩
    rcases run_bind_eq_ok_iff.mp hfirst with ⟨lsn, _, hfirst, hpure⟩
    cases hpure
    rcases run_bind_eq_ok_iff.mp hfirst' with ⟨lsn', _, hfirst', hpure'⟩
    cases hpure'
    rw [List.flatten_cons] at hplain
    rcases Contents.plainRun_append hplain with ⟨hms, hrestPlain⟩
    rcases h.transact hfirst hfirst' hms with ⟨file', es', hnext⟩
    rw [List.flatten_cons, List.foldl_append]
    exact ih hnext hrest hrest' hrestPlain

theorem exists_runTxns (h : Agree onFile inMemory file es kv) {txns : List (List Mutation)}
    (hplain : kv.PlainRun txns.flatten) (hlog : ∀ ms ∈ txns, Loggable ms) (fuel : Nat) :
    ∃ onFile' inMemory', (Db.runTxns (fuel + 1) txns).run onFile = .ok () onFile' ∧
      (Db.runTxns (fuel + 1) txns).run inMemory = .ok () inMemory' := by
  induction txns generalizing onFile inMemory file es kv with
  | nil => exact ⟨onFile, inMemory, rfl, rfl⟩
  | cons ms txns ih =>
    rw [List.flatten_cons] at hplain
    rcases Contents.plainRun_append hplain with ⟨hms, hrest⟩
    rcases h.exists_transact hms (hlog ms (List.mem_cons_self ..)) fuel (fuel + 1) with
      ⟨lsn, lsn', reached, reached', hrun, hrun'⟩
    rcases h.transact hrun hrun' hms with ⟨file', es', hnext⟩
    rcases ih hnext hrest fun ms' hms' => hlog ms' (List.mem_cons_of_mem _ hms') with
      ⟨last, last', hlast, hlast'⟩
    have hstep : (discard (Db.transact (fuel + 1) ms)).run onFile = .ok () reached := by
      show (Db.transact (fuel + 1) ms >>= fun _ => pure ()).run onFile = _
      rw [run_bind_of_ok hrun]
      rfl
    have hstep' : (discard (Db.transact (fuel + 1) ms)).run inMemory = .ok () reached' := by
      show (Db.transact (fuel + 1) ms >>= fun _ => pure ()).run inMemory = _
      rw [run_bind_of_ok hrun']
      rfl
    refine ⟨last, last', ?_, ?_⟩
    · unfold Db.runTxns forEach
      rw [run_bind_of_ok hstep]
      exact hlast
    · unfold Db.runTxns forEach
      rw [run_bind_of_ok hstep']
      exact hlast'

theorem beginReadLatest_eq (h : Agree onFile inMemory file es kv) : onFile.beginReadLatest =
        .ok ⟨fun _ => none, file.registry.currentTxnId, file.pager.getRootPageId⟩ ∧
      inMemory.beginReadLatest = .ok ⟨leafMap es, inMemory.model.currentTxnId, 0⟩ := by
  constructor
  · unfold Db.beginReadLatest
    rw [h.has_file, ← h.root]
    rfl
  · unfold Db.beginReadLatest Model.beginRead
    rw [h.memory, h.map]
    rfl

theorem get_eq (h : Agree onFile inMemory file es kv) (snapshot : SnapshotState) (txnId fuel : Nat)
    (key : Bytes) :
    ReadTxn.get ⟨snapshot, txnId, file.pager.getRootPageId⟩ onFile (fuel + 1) key =
      .ok ((leafMap es key).filter (·.length ≤ 4096)) := by
  unfold ReadTxn.get
  rw [h.has_file]
  dsimp only
  rw [h.oneLeaf.getBtreeValueAtRoot_eq]
  cases leafMap es key with
  | none => rfl
  | some value =>
    dsimp only
    by_cases hlarge : value.length > 4096
    · rw [if_pos hlarge, Option.filter_some, if_neg (by simpa using hlarge)]
      rfl
    · rw [if_neg hlarge, Option.filter_some, if_pos (by simpa using hlarge)]
      rfl

end Agree

/-- A database in a file returns what the reference model returns, if the mutations are plain and no value
that is there in the end is larger than the buffer of a read. -/
theorem file_agrees_with_memory (fuel : Nat) (txns : List (List Mutation)) (onFile inMemory : Db)
    (hfile : (Db.runTxns (fuel + 1) txns).run (Db.openWithPager Pager.create []) = .ok () onFile)
    (hmemory : (Db.runTxns (fuel + 1) txns).run Db.openInMemory = .ok () inMemory)
    (hplain : Contents.PlainRun [] txns.flatten)
    (hsmall : ∀ e ∈ txns.flatten.foldl Contents.apply [], e.2.length ≤ 4096) :
    ∃ read read', onFile.beginReadLatest = .ok read ∧ inMemory.beginReadLatest = .ok read' ∧
      ∀ fuel key, read.get onFile (fuel + 1) key = read'.get inMemory (fuel + 1) key := by
  rcases agree_empty with ⟨file₀, hempty⟩
  rcases hempty.runTxns hfile hmemory hplain with ⟨file, es, h⟩
  rcases h.beginReadLatest_eq with ⟨hread, hread'⟩
  refine ⟨_, _, hread, hread', fun fuel key => ?_⟩
  rw [h.get_eq]
  unfold ReadTxn.get
  rw [h.memory]
  dsimp only
  cases hmap : leafMap es key with
  | none => rfl
  | some value =>
    have hfits := hsmall _ (h.packed.mem_of_leafMap hmap)
    rw [Option.filter_some, if_pos (by simpa using hfits)]

theorem file_agrees_with_memory_three_keys :
    ∃ (onFile inMemory : Db) (read read' : ReadTxn), onFile.beginReadLatest = .ok read ∧
      inMemory.beginReadLatest = .ok read' ∧
      ∀ fuel key, read.get onFile (fuel + 1) key = read'.get inMemory (fuel + 1) key := by
  let txns : List (List Mutation) := [[.put [2] [20]], [.put [1] [10], .delete [3], .put [3] []]]
  have hplain : Contents.PlainRun [] txns.flatten := by decide
  have hlog : ∀ ms ∈ txns, Loggable ms := by decide
  rcases agree_empty with ⟨file, hempty⟩
  rcases hempty.exists_runTxns hplain hlog 0 with ⟨onFile, inMemory, hfile, hmemory⟩
  exact ⟨onFile, inMemory, file_agrees_with_memory 0 txns onFile inMemory hfile hmemory hplain (by decide)⟩

/-- A value of 5000 bytes is committed, and the file returns nothing for its key. -/
theorem large_value_is_not_returned : ∃ (onFile inMemory : Db) (read read' : ReadTxn),
      (Db.runTxns 1 [[.put [1] (List.replicate 5000 7)]]).run (Db.openWithPager Pager.create []) =
        .ok () onFile ∧
      (Db.runTxns 1 [[.put [1] (List.replicate 5000 7)]]).run Db.openInMemory = .ok () inMemory ∧
      onFile.beginReadLatest = .ok read ∧ inMemory.beginReadLatest = .ok read' ∧
      read.get onFile 1 [1] = .ok none ∧
      read'.get inMemory 1 [1] = .ok (some (List.replicate 5000 7)) := by
  have hlength : (List.replicate 5000 (7 : UInt8)).length = 5000 := List.length_replicate
  generalize List.replicate 5000 (7 : UInt8) = value at hlength
  have hplain : Contents.PlainRun [] [[Mutation.put [1] value]].flatten := by
    refine ⟨⟨fun _ he => absurd he List.not_mem_nil, by decide, ?_⟩, trivial⟩
    show 48 + (0 + 1) * 2 + (0 + (6 + 1 + value.length)) ≤ 16344
    omega
  have hlog : ∀ ms ∈ [[Mutation.put [1] value]], Loggable ms := by
    intro ms hms
    cases List.mem_singleton.mp hms
    have hbytes : ([Mutation.put [1] value].map Mutation.bytes).flatten.length = 8 + 1 + value.length := by
      rw [List.map_singleton, List.flatten_singleton, Mutation.length_bytes]
      rfl
    refine ⟨?_, by norm_num, ?_⟩
    · intro m hm
      cases List.mem_singleton.mp hm
      refine ⟨by show 1 ≤ 4 * 1024; decide, ?_⟩
      show value.length ≤ 16 * 1024 * 1024
      omega
    · rw [hbytes, hlength]
      decide
  rcases agree_empty with ⟨file₀, hempty⟩
  rcases hempty.exists_runTxns hplain hlog 0 with ⟨onFile, inMemory, hfile, hmemory⟩
  rcases hempty.runTxns hfile hmemory hplain with ⟨file, es, h⟩
  rcases h.beginReadLatest_eq with ⟨hread, hread'⟩
  have hmap : leafMap es [1] = some value :=
    h.packed.leafMap_of_mem h.oneLeaf.sorted (List.mem_singleton_self _)
  refine ⟨onFile, inMemory, _, _, hfile, hmemory, hread, hread', ?_, ?_⟩
  · rw [h.get_eq, hmap, Option.filter_some, if_neg (by simp [hlength])]
  · unfold ReadTxn.get
    rw [h.memory]
    dsimp only
    rw [hmap]

end Northstar.Zig
