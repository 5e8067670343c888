import Northstar.Btree.Scan
import Northstar.Db.PutRun

/-!
# Scans — the keys a read transaction scans, and scans of trees built by puts

`ReadTxn::scan` asks for the keys between a byte string and the string with `0xFF` behind it.  Keys with that very
byte behind the string are not among them.
-/

namespace Northstar

open Btree EStateM

/-- `ReadTxn::scan`, without the query cache. -/
def ReadTxn.scan (env : Env) (r : ReadTxn) (keyPrefix : Bytes) : DbM (List (Bytes × Bytes)) := do
  let (items, _) ← Db.onPager (SnapshotRegistry.withBtree env r.rootPageId
    (BTree.scanWithPages env (some keyPrefix) (some (keyPrefix ++ [0xFF])) r.txnId))
  pure (items.map fun item => (item.key, item.value))

/-- Some leaf of the tree binds the key at the snapshot. -/
def StoredUnder (d : Disk) (root : PageId) (snapshotLsn : UInt64) (key : Bytes) : Prop :=
  ∃ pageId, Reachable d root pageId ∧ (storedAt d snapshotLsn key pageId).isSome

theorem inRange_push_iff (keyPrefix key : Bytes) :
    InRange (some keyPrefix) (some (keyPrefix ++ [0xFF])) key ↔ keyPrefix <+: key ∧ ¬ keyPrefix ++ [0xFF] <+: key := by
  rw [← Bytes.le_and_lt_push_iff]
  constructor
  · exact fun h => ⟨h.1 _ rfl, h.2 _ rfl⟩
  · rintro ⟨hlower, hupper⟩
    constructor
    · intro startKey hstart
      cases hstart
      exact hlower
    · intro endKey hend
      cases hend
      exact hupper

section scans

variable {env : Env} {d : Disk} {m : MetaState} {rungs : List Rung} {db : Db} {r : ReadTxn}

theorem run_readTxn_scan (h : Shows env db.pager d m) (hsound : Sound d) (hspine : Spine d r.rootPageId rungs)
    (keyPrefix : Bytes) :
    ∃ pager, (r.scan env keyPrefix).run db =
        .ok ((scanEntries (some keyPrefix) (some (keyPrefix ++ [0xFF])) r.txnId
          (entriesAt d (route rungs keyPrefix))).map fun item => (item.key, item.value)) (db.setPager pager) ∧
      Shows env pager d m := by
  rcases exists_tree h hsound hspine with ⟨tree, pager₁, hnew, hlive, htable, hroot⟩
  have hshows : Shows env tree.pager d m := htable ▸ hlive.shows
  rcases run_scanWithPages hsound (hroot ▸ hspine) hshows (some keyPrefix) (some (keyPrefix ++ [0xFF])) r.txnId
    with ⟨pager', hscan, hshows'⟩
  refine ⟨pager', ?_, hshows'⟩
  unfold ReadTxn.scan
  rw [run_bind_of_ok (Db.run_onPager_of_ok (run_withBtree_of_ok hnew hscan)), run_pure]
  rfl

/-- **Prefix.**  A key is in the range of the scan exactly when it starts with the prefix, unless `0xFF` follows the
prefix in it.  A scan omits no key of the tree that starts with the prefix exactly when no such key has that byte
there and the leaf the scan starts in binds them all. -/
theorem scan_range_iff (h : Shows env db.pager d m) (hsound : Sound d) (hspine : Spine d r.rootPageId rungs) :
    (∀ keyPrefix key, (InRange (some keyPrefix) (some (keyPrefix ++ [0xFF])) key ↔ keyPrefix <+: key) ↔
        ¬ keyPrefix ++ [0xFF] <+: key) ∧
      ∀ keyPrefix, ∃ pairs db', (r.scan env keyPrefix).run db = .ok pairs db' ∧
        ((∀ key, keyPrefix <+: key → StoredUnder d r.rootPageId r.txnId key → ∃ value, (key, value) ∈ pairs) ↔
          ∀ key, keyPrefix <+: key → StoredUnder d r.rootPageId r.txnId key → ¬ keyPrefix ++ [0xFF] <+: key ∧
            ((scanPage d r.rootPageId (some keyPrefix)).bind (storedAt d r.txnId key)).isSome) := by
  constructor
  · intro keyPrefix key
    rw [inRange_push_iff]
    constructor
    · intro hiff hlonger
      exact (hiff.mpr ((List.prefix_append _ _).trans hlonger)).2 hlonger
    · exact fun hshorter => and_iff_left hshorter
  · intro keyPrefix
    rcases run_readTxn_scan h hsound hspine keyPrefix with ⟨pager, hrun, -⟩
    refine ⟨_, _, hrun, ?_⟩
    apply forall_congr'
    intro key
    apply imp_congr_right
    intro hstarts
    apply imp_congr_right
    intro _
    rcases hspine.route_leaf keyPrefix with ⟨howns, hleaf⟩
    rw [hspine.scanPage, Option.bind_some, Option.isSome_iff_exists]
    have hpair : ∀ value, ((key, value) ∈ (scanEntries (some keyPrefix) (some (keyPrefix ++ [0xFF])) r.txnId
        (entriesAt d (route rungs keyPrefix))).map fun item => (item.key, item.value)) ↔
        ¬ keyPrefix ++ [0xFF] <+: key ∧ storedAt d r.txnId key (route rungs keyPrefix) = some value := by
      intro value
      rw [List.mem_map]
      simp only [Prod.mk.injEq]
      rw [exists_item_iff hsound howns hleaf, inRange_push_iff]
      simp only [hstarts, true_and]
    simp only [hpair, exists_and_left]
    rfl

end scans

theorem exists_onePut {key value : Bytes} (hne : key ≠ []) (hkey : key.length ≤ 255)
    (hvalue : value.length ≤ inlineThreshold)
    (hspace : 5 * (⟨key, value, 1⟩ : Entry).serializedSize + bodySize < 5 * leafCapacity) :
    ∃ db db' leaf, Db.openWithConfig Env.oneShard ⟨false⟩ none none = .ok db ∧
      (Db.write Env.oneShard [.put key value]).run db = .ok () db' ∧ db'.OneLeaf Env.oneShard 1 leaf ∧
      leaf.entries = [⟨key, value, 1⟩] := by
  rcases exists_opened_new Env.oneShard ⟨false⟩ none with ⟨db, hopen⟩
  rcases Db.oneLeaf_new hopen with ⟨hone, hnext⟩
  have hentry : preparedEntry db.pager.table key value (0 + 1) = ⟨key, value, 1⟩ := preparedEntry_inline hvalue ..
  have hroom : HasRoom (Node.stampLeaf Env.oneShard.crc (LeafNode.new PageId.firstData))
      (preparedEntry db.pager.table key value (0 + 1)) := by
    rw [hentry]
    exact .of_new Env.oneShard.crc PageId.firstData hspace
  have hpages : Room Env.oneShard (db.pager.table.next.toNat + overflowPages value.length) := by
    rw [hnext, show overflowPages value.length = 0 from
      if_pos (by simpa [OverflowPage.shouldStoreInline] using hvalue)]
    exact room_three Env.oneShard
  rcases hone.write_put (by decide) hne hkey (hvalue.trans (by decide)) hroom hpages with ⟨db', -, hwrite, hone', -⟩
  refine ⟨db, db', _, hopen, hwrite, hone', ?_⟩
  show (appended (Node.stampLeaf Env.oneShard.crc (LeafNode.new PageId.firstData))
    (preparedEntry db.pager.table key value (0 + 1))).entries = _
  rw [appended_entries, hentry]
  rfl

/-- A scan in the upper one of two leaves. -/
theorem scan_range_upper_leaf : ∃ tree tree' db, EmptyTree Env.oneShard tree ∧
    Runs.run (putStep Env.oneShard) tree (firstPuts ++ [largePut 16]) = some tree' ∧ db.pager = tree'.pager ∧
      ∃ pairs db', ((⟨1, tree'.rootPageId⟩ : ReadTxn).scan Env.oneShard [16]).run db = .ok pairs db' ∧
        ∀ key, [16] <+: key → StoredUnder db.pager.table tree'.rootPageId 1 key → ∃ value, (key, value) ∈ pairs := by
  obtain ⟨tree, hempty, hfilled⟩ := exists_emptyTree Env.oneShard
  obtain ⟨tree', newPage, m, hrun, -, hlive, -, -, hupper, hlower⟩ := hfilled.twoLeaves fits_and_splitsLast
  obtain ⟨db, -⟩ := exists_opened_new Env.oneShard ⟨false⟩ none
  have hshows : Shows Env.oneShard (db.setPager tree'.pager).pager tree'.pager.table m := hlive.shows
  obtain ⟨pairs, db', hscan, hiff⟩ :=
    (scan_range_iff (r := ⟨1, tree'.rootPageId⟩) hshows hlive.sound hlive.spine).2 [16]
  refine ⟨tree, tree', db.setPager tree'.pager, hempty, run_of_forEach hrun, rfl, pairs, db', hscan, hiff.mpr ?_⟩
  rintro key hstarts ⟨pageId, hreach, hstored⟩
  obtain ⟨value, hvalue⟩ := Option.isSome_iff_exists.mp hstored
  obtain ⟨e, hfound, -, -⟩ := storedAt_eq_some_iff.mp hvalue
  obtain ⟨he, rfl⟩ := SortedEntries.mem_of_lookup hfound
  have hleaf : IsLeafAt tree'.pager.table pageId := by
    unfold entriesAt at he
    split at he
    next leaf hnode => exact ⟨leaf, hnode⟩
    next => cases he
  rcases List.mem_pair.mp (hlive.spine.mem_leaves hreach hleaf) with rfl | rfl
  · have hkeys : ∀ e ∈ entriesAt tree'.pager.table pageId, [16] <+: e.key → ¬ [16, 0xFF] <+: e.key := by
      rw [hupper]
      simp only [List.forall_mem_cons, PutCall.entry, smallPut, largePut]
      decide
    refine ⟨hkeys e he hstarts, ?_⟩
    rw [hlive.spine.scanPage]
    exact hstored
  · have hkeys : ∀ e ∈ entriesAt tree'.pager.table PageId.firstData, ¬ [16] <+: e.key := by
      rw [hlower]
      simp only [List.forall_mem_cons, PutCall.entry, largePut]
      decide
    exact absurd hstarts (hkeys e he)

/-- A key with `0xFF` behind the prefix is out of range. -/
theorem scan_misses_pushed_key : ∃ db db', Db.openWithConfig Env.oneShard ⟨false⟩ none none = .ok db ∧
    (Db.write Env.oneShard [.put [0x61, 0xFF] [3]]).run db = .ok () db' ∧
      [0x61] <+: [0x61, 0xFF] ∧ ¬ InRange (some [0x61]) (some ([0x61] ++ [0xFF])) [0x61, 0xFF] ∧
      StoredUnder db'.pager.table PageId.firstData 1 [0x61, 0xFF] ∧
      ∃ db'', ((⟨1, PageId.firstData⟩ : ReadTxn).scan Env.oneShard [0x61]).run db' = .ok [] db'' := by
  rcases @exists_onePut [0x61, 0xFF] [3] (by decide) (by decide) (by decide) (by decide)
    with ⟨db, db', leaf, hopen, hwrite, hone, hentries⟩
  refine ⟨db, db', hopen, hwrite, by decide, ?_, ⟨PageId.firstData, .root, ?_⟩, ?_⟩
  · rintro ⟨-, hend⟩
    exact absurd (hend _ rfl) (by decide)
  · rw [storedAt, hone.leaf.entries, hentries]
    rfl
  · rcases run_readTxn_scan (r := ⟨1, PageId.firstData⟩) hone.shows hone.leaf.sound hone.leaf.spine [0x61]
      with ⟨pager, hrun, -⟩
    refine ⟨db'.setPager pager, ?_⟩
    rw [hrun, show route [] [0x61] = PageId.firstData from rfl, hone.leaf.entries, hentries]
    rfl

end Northstar

/-! ## Scans of trees built by puts

A scan of such a tree shows one leaf, and references where the values are long.
-/

namespace Northstar.Btree

open Runs SortedEntries
open Txn (Live)

variable {env : Env} {tree tree' : BTree} {rungs : List Rung}

/-- A tree whose entries keep short values, or references to long ones. -/
def Kept (env : Env) (tree : BTree) : Prop :=
  ∃ rungs, Live env tree.pager.currentMeta tree rungs ∧
    ∀ pageId ∈ leaves rungs, ∀ e ∈ entriesAt tree.pager.table pageId, ShortOrLong env.crc tree.pager.table e

theorem ShortOrLong.keep {crc : Crc} {d d' : Disk} (hkeep : KeepsOverflow d d') {e : Entry}
    (h : ShortOrLong crc d e) : ShortOrLong crc d' e := by
  refine ⟨h.1, fun hreference => ?_⟩
  obtain ⟨value, hreads, hlong⟩ := h.2 hreference
  exact ⟨value, hreads.keep hkeep, hlong⟩

theorem shortOrLong_preparedEntry {crc : Crc} {d d' : Disk} {key value : Bytes} {lsn : UInt64}
    (hplain : looksLikeReference value = false) (hreads : Reads crc d' (preparedEntry d key value lsn) value) :
    ShortOrLong crc d' (preparedEntry d key value lsn) := by
  refine ⟨length_preparedEntry_value d key value lsn, fun hreference => ⟨value, hreads, ?_⟩⟩
  by_contra hshort
  have hinline : (preparedEntry d key value lsn).value = value := by
    rw [preparedEntry_inline (Nat.not_lt.mp hshort)]
  rw [hinline, hplain] at hreference
  cases hreference

theorem EmptyTree.kept (h : EmptyTree env tree) : Kept env tree := by
  obtain ⟨leaf, hleaf, hempty⟩ := h.leaf
  refine ⟨[], h.live, ?_⟩
  intro pageId hmem e he
  rw [List.mem_singleton.mp hmem, entriesAt_eq hleaf, hempty] at he
  exact absurd he List.not_mem_nil

theorem Kept.step (h : Kept env tree) {call : PutCall} (hfits : PutFits env tree call)
    (hplain : looksLikeReference call.value = false) (hstep : putStep env tree call = some tree') : Kept env tree' := by
  obtain ⟨rungs, hlive, hentries⟩ := h
  obtain ⟨hshows, ⟨hplan, hroot, hsound, hgrows, hpages⟩ | ⟨pageId, left, moved, hplan, hdone, hreads⟩⟩ :=
    putStep_cases hlive hfits hstep
  · have hext := Extends.of_pages hgrows hpages
    have hmeta := hshows.current
    refine ⟨rungs, ⟨hmeta ▸ hshows, hsound, by rw [hroot]; exact hlive.spine.extend hext⟩, ?_⟩
    intro pageId hmem e he
    rw [entriesAt_congr (hpages pageId (hlive.spine.leaf_of_mem hmem).1)] at he
    exact (hentries pageId hmem e he).keep hext.keepsOverflow
  · obtain ⟨rfl, node, hnode, -, hplanned⟩ := planned_of_putPlan hlive.spine hlive.sound hfits.1 hplan
    have hmeta := hshows.current
    have hnew := shortOrLong_preparedEntry hplain (hreads hplain)
    -- the entries of the leaf and of its split are the new one and old ones
    have hhere : ∀ e ∈ left.entries ++ moved, ShortOrLong env.crc tree'.pager.table e := by
      intro e he
      rcases hplanned.mem he with rfl | hold
      · exact hnew
      · rw [← entriesAt_eq hnode] at hold
        exact (hentries _ (route_mem_leaves rungs call.key) e hold).keep hdone.ext.keepsOverflow
    have hleaves : ∀ pageId ∈ leaves rungs, ∀ e ∈ entriesAt tree'.pager.table pageId,
        ShortOrLong env.crc tree'.pager.table e := by
      intro pageId hmem e he
      by_cases heq : pageId = route rungs call.key
      · rw [heq, hdone.leaf] at he
        exact hhere e (List.mem_append_left _ he)
      · rw [hdone.others pageId (hlive.spine.leaf_of_mem hmem).1 heq] at he
        exact (hentries pageId hmem e he).keep hdone.ext.keepsOverflow
    cases moved with
    | nil =>
      refine ⟨rungs, ⟨hmeta ▸ hshows, hdone.sound, ?_⟩, hleaves⟩
      rw [hdone.whole rfl]
      exact hlive.spine.extend hdone.ext
    | cons first rest =>
      obtain ⟨newPage, -, hmoved, hspine⟩ := hdone.split first rest rfl
      refine ⟨_, ⟨hmeta ▸ hshows, hdone.sound, hspine⟩, ?_⟩
      intro pageId hmem e he
      rcases List.mem_cons.mp hmem with rfl | hmem
      · rw [hmoved] at he
        exact hhere e (List.mem_append_right _ he)
      · exact hleaves pageId hmem e he

/-- **Scan.**  In every tree that puts build from an empty leaf a scan agrees with the lookups where one leaf binds
every key of the range, to a value kept in the entry; and, where no value was put that looks like a reference, for no
other range. -/
theorem puts_scan_agrees (env : Env) (es : List PutCall) (tree tree' : BTree) (hempty : EmptyTree env tree)
    (hfits : Meets (putStep env) (PutFits env) tree es) (hrun : run (putStep env) tree es = some tree')
    (start stop : Option Bytes) (snapshotLsn : UInt64) :
    (OneLeafRange tree'.pager.table tree'.rootPageId start stop snapshotLsn →
        ScanAgrees env tree' start stop snapshotLsn) ∧
      ((∀ call ∈ es, looksLikeReference call.value = false) →
        (ScanAgrees env tree' start stop snapshotLsn ↔
          OneLeafRange tree'.pager.table tree'.rootPageId start stop snapshotLsn)) := by
  have hlive : ∃ rungs, Live env tree.pager.currentMeta tree' rungs :=
    invariant (I := fun t => ∃ rungs, Live env tree.pager.currentMeta t rungs)
      (fun s e t ⟨rungs, hs⟩ hfits hstep => (putStep_spec hs hfits hstep).1) ⟨[], hempty.live⟩ hfits hrun
  obtain ⟨rungs, hlive⟩ := hlive
  refine ⟨fun hrange => hrange.scanAgrees hlive.sound hlive.spine hlive.shows, ?_⟩
  intro hplain
  refine ⟨fun hagree => ?_, fun hrange => hrange.scanAgrees hlive.sound hlive.spine hlive.shows⟩
  obtain ⟨rungs', hlive', hentries⟩ : Kept env tree' :=
    invariant (fun s e t hs hc hstep => hs.step hc.1 hc.2 hstep) hempty.kept (meets_and hfits hplain) hrun
  exact hagree.oneLeafRange hlive'.sound hlive'.spine hlive'.shows hentries

/-- Two leaves, and the range of the lower one. -/
theorem puts_scan_agrees_lower_leaf : ∃ tree tree', EmptyTree Env.oneShard tree ∧
    run (putStep Env.oneShard) tree (firstPuts ++ [largePut 16]) = some tree' ∧
      ScanAgrees Env.oneShard tree' none (some [11]) 1 := by
  obtain ⟨tree, hempty, hfilled⟩ := exists_emptyTree Env.oneShard
  obtain ⟨tree', newPage, m, hrun, hmeets, hlive, -, -, -, hlower⟩ := hfilled.twoLeaves fits_and_splitsLast
  have hfits := meets_of_forEach hmeets (fun _ _ => And.left) hrun
  have hrun := run_of_forEach hrun
  refine ⟨tree, tree', hempty, hrun, ?_⟩
  have hplain : ∀ e ∈ entriesAt tree'.pager.table PageId.firstData, looksLikeReference e.value = false := by
    rw [hlower]
    simp only [List.forall_mem_cons, PutCall.entry, largePut_plain, true_and]
    exact fun _ he => nomatch he
  apply (puts_scan_agrees Env.oneShard _ tree tree' hempty hfits hrun none (some [11]) 1).1
  intro key hkey
  have hbelow : ¬ [11] ≤ key := not_le.mpr (hkey.2 _ rfl)
  rw [hlive.spine.scanPage, hlive.spine.leafPage, show scanRoute _ none = PageId.firstData from rfl,
    show route [⟨tree'.rootPageId, [11], newPage⟩] key = PageId.firstData from if_neg hbelow]
  refine ⟨rfl, fun value hvalue => ?_⟩
  obtain ⟨e, hfound, -, rfl⟩ := storedAt_eq_some_iff.mp hvalue
  exact hplain e (mem_of_lookup hfound).1

/-- Two leaves: the scan shows the lower one only. -/
theorem scan_stops_after_one_leaf : ∃ tree tree', EmptyTree Env.oneShard tree ∧
    run (putStep Env.oneShard) tree (firstPuts ++ [largePut 16]) = some tree' ∧
      ¬ ScanAgrees Env.oneShard tree' none none 1 := by
  obtain ⟨tree, hempty, hfilled⟩ := exists_emptyTree Env.oneShard
  obtain ⟨tree', newPage, m, hrun, -, hlive, -, -, hupper, hlower⟩ := hfilled.twoLeaves fits_and_splitsLast
  refine ⟨tree, tree', hempty, run_of_forEach hrun, ?_⟩
  intro hagree
  have hagree := (scanAgrees_iff_answers hlive.sound hlive.spine hlive.shows).mp hagree [11]
    ⟨fun _ h => (nomatch h), fun _ h => (nomatch h)⟩ []
  have hget : storedAt tree'.pager.table 1 [11] newPage = some [] := by
    rw [storedAt, hupper]
    rfl
  have hscan := hagree.mpr ((run_getWithPages_eq hlive.sound hlive.spine hlive.shows
    (answers_of_storedAt_some hget rfl)).mpr rfl)
  rw [storedAt, show scanRoute _ none = PageId.firstData from rfl, hlower] at hscan
  exact absurd hscan (by decide)

end Northstar.Btree
