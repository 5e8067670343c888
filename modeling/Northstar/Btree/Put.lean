import Northstar.Btree.Get

/-!
# Put — what an insertion does to the table

The outcome of `BTree::put` is a function of the leaf its key leads to (`putPlan`).  The table
changes in that leaf, and, if the leaf is split, in the header of the root and in two new pages; a put
that is refused leaves every page alone that was in use.
-/

namespace Northstar.Btree

open SortedEntries EStateM
open Node (stampLeaf Encodable)

/-- Every entry of the second table is one of `fresh` or an entry of the first. -/
def Carries (d d' : Disk) (fresh : List Entry) : Prop :=
  ∀ pageId, d'.Owns pageId → ∀ e ∈ entriesAt d' pageId,
    e ∈ fresh ∨ ∃ other, d.Owns other ∧ e ∈ entriesAt d other

variable {pageId : PageId} {d' : Disk} {entry : Entry} {key : Bytes}

theorem entriesAt_eq_nil {d : Disk} (h : nodeAt d pageId = none) : entriesAt d pageId = [] := by
  rw [entriesAt, h]

theorem Grows.carries {d : Disk} {n : Nat} (h : Grows d d' n) : Carries d d' [] := by
  intro pageId howns e he
  by_cases hold : d.Owns pageId
  · rw [entriesAt_congr (h.pages pageId hold)] at he
    exact Or.inr ⟨pageId, hold, he⟩
  · rw [entriesAt_eq_nil (h.fresh pageId howns hold)] at he
    exact absurd he List.not_mem_nil

variable {fresh moved : List Entry} {left : LeafNode} {root : PageId}

theorem Carries.trans {d₁ d₂ d₃ : Disk} {fresh' : List Entry} (h : Carries d₁ d₂ fresh)
    (h' : Carries d₂ d₃ fresh') : Carries d₁ d₃ (fresh ++ fresh') := by
  intro pageId howns e he
  rcases h' pageId howns e he with hnew | ⟨other, hother, hold⟩
  · exact Or.inl (List.mem_append_right _ hnew)
  · rcases h other hother e hold with hnew | hold
    · exact Or.inl (List.mem_append_left _ hnew)
    · exact Or.inr hold

theorem Carries.mono {d : Disk} {fresh' : List Entry} (h : Carries d d' fresh)
    (hsub : fresh ⊆ fresh') : Carries d d' fresh' :=
  fun pageId howns e he => (h pageId howns e he).imp_left fun hnew => hsub hnew

theorem Writes.carries {d : Disk} {node : Node} (h : Writes d d' pageId node)
    (hentries : ∀ e ∈ entriesAt d' pageId,
      e ∈ fresh ∨ ∃ other, d.Owns other ∧ e ∈ entriesAt d other) : Carries d d' fresh := by
  intro other howns e he
  by_cases heq : other = pageId
  · exact hentries e (heq ▸ he)
  · rw [entriesAt_congr (h.others other heq)] at he
    exact Or.inr ⟨other, h.owns.mp howns, he⟩

section calls

variable {env : Env} {m : MetaState} {d : Disk}

theorem grows_allocate (hroom : Room env (d.next.toNat + 1)) : Grows d (d.allocate env.crc) 1 where
  next := toNat_next_succ hroom
  pages := fun _ howns => Disk.allocate_pages_ne env.crc d howns.ne_next
  fresh := by
    intro pageId howns hnot
    have heq : pageId = d.next := by
      by_contra hne
      exact hnot (owns_of_owns_succ (toNat_next_succ hroom) howns hne)
    rw [heq]
    exact nodeAt_allocate env.crc d

variable {node : LeafNode} {pager : Pager}

theorem owns_allocate (h : Shows env pager d m)
    (hroom : Room env (d.next.toNat + 1)) : (d.allocate env.crc).Owns d.next := by
  have hfirst := h.first
  have hsucc := toNat_next_succ hroom
  constructor
  · omega
  · show d.next.toNat < (d.next + 1).toNat
    omega

/-- The table after the upper half of a leaf went to a new page. -/
structure Halved (d d' : Disk) (upper : List Entry) : Prop where
  next : d'.next.toNat = d.next.toNat + 1
  pages : ∀ pageId, d.Owns pageId → d'.pages pageId = d.pages pageId
  sound : Sound d'
  leaf : IsLeafAt d' d.next
  entries : entriesAt d' d.next = upper

theorem Halved.carries {upper : List Entry} (h : Halved d d' upper) : Carries d d' upper := by
  intro pageId howns e he
  by_cases heq : pageId = d.next
  · rw [heq, h.entries] at he
    exact Or.inl he
  · have hold := owns_of_owns_succ h.next howns heq
    rw [entriesAt_congr (h.pages pageId hold)] at he
    exact Or.inr ⟨pageId, hold, he⟩

theorem run_splitLeafNode (h : Shows env pager d m) (hsound : Sound d)
    (howns : d.Owns pageId) (hleaf : IsLeafAt d pageId)
    (hok : LeafOk pageId node) (hroom : Room env (d.next.toNat + 1)) :
    ∃ pager' d', Shows env pager' d' m ∧ Halved d d' node.upperHalf ∧
      (node.upperHalf = [] → ∃ e, (splitLeafNode env node).run pager = .error (.err e) pager') ∧
      ∀ first rest, node.upperHalf = first :: rest → ∃ newNode : LeafNode,
        newNode.header.nodeId = d.next ∧
        (splitLeafNode env node).run pager = .ok (newNode, first.key, node.lowerHalf) pager' := by
  rcases h.run_allocatePage hroom with ⟨pager₁, halloc, hshows₁⟩
  have hgrows := grows_allocate hroom
  have howns₁ := owns_allocate h hroom
  -- the new leaf takes the upper half, entry by entry
  have hnew : LeafOk d.next (LeafNode.new d.next) := leafOk_new d.next
  have hfree := freeSpace_new d.next
  have hsorted : Sorted Entry.key ((LeafNode.new d.next).entries ++ node.upperHalf) :=
    hok.sorted.sublist (List.drop_sublist _ _)
  rcases hnew.insertAll hsorted hok.upperHalf.1 (by rw [hfree]; exact hok.upperHalf.2)
    with ⟨filled, hfill, hfilled, hentries⟩
  have hentries : filled.entries = node.upperHalf := hentries
  let newNode : LeafNode := { filled with nextLeaf := node.nextLeaf, prevLeaf := node.header.nodeId }
  have hnewOk : LeafOk d.next newNode :=
    ⟨hfilled.header, hfilled.id, hfilled.count, hfilled.sorted, hfilled.encodable, hfilled.fits,
      hok.last⟩
  rcases run_writeLeaf hshows₁ howns₁ hnewOk with ⟨pager', d', hwrite, hshows', hwrites⟩
  have hpages : ∀ other, d.Owns other → d'.pages other = d.pages other := by
    intro other hother
    rw [hwrites.others other hother.ne_next, hgrows.pages other hother]
  have hleafq : IsLeafAt (d.allocate env.crc) pageId := by
    rcases hleaf with ⟨leaf, hleaf⟩
    exact ⟨leaf, by rw [nodeAt_congr (hgrows.pages pageId howns)]; exact hleaf⟩
  have hprev : PrevOk (d.allocate env.crc) d.next (stampLeaf env.crc newNode) := by
    right
    show (d.allocate env.crc).Owns node.header.nodeId ∧ node.header.nodeId.toNat < d.next.toNat ∧ _
    rw [hok.id]
    refine ⟨hgrows.owns howns, howns.2, ?_⟩
    show IsLeafAt (d.allocate env.crc) node.header.nodeId
    rw [hok.id]
    exact hleafq
  have hsound' : Sound d' := by
    apply (hsound.grow hgrows).write hwrites (.leaf (hnewOk.stamp env.crc) hprev)
    exact fun _ => ⟨_, hwrites.node⟩
  have hhalved : Halved d d' node.upperHalf := by
    refine ⟨?_, hpages, hsound', ⟨_, hwrites.node⟩, ?_⟩
    · rw [hwrites.next]
      exact hgrows.next
    · rw [entriesAt_eq hwrites.node, ← hentries]
      rfl
  have hhead : newNode.entries.head? = node.upperHalf.head? := by
    show filled.entries.head? = _
    rw [hentries]
  refine ⟨pager', d', hshows', hhalved, ?_⟩
  have hrun : (splitLeafNode env node).run pager = EStateM.run (newNode.entries.head?.elim
      (throw (.err (.validation (.generic "Split leaf has no entries"))))
      fun first => pure (newNode, first.key, node.lowerHalf)) pager' := by
    unfold splitLeafNode
    rw [run_bind_of_ok halloc]
    show EStateM.run (liftErr ((LeafNode.new d.next).insertAll node.upperHalf) >>= _) pager₁ = _
    rw [run_bind_of_ok (run_liftErr_of_ok hfill pager₁)]
    apply (run_bind_of_ok hwrite).trans
    cases newNode.entries.head? with
    | none => rfl
    | some first => rfl
  constructor
  · intro hnil
    rw [hnil] at hhead
    rw [hhead] at hrun
    exact ⟨_, hrun⟩
  · intro first rest hcons
    rw [hcons] at hhead
    rw [hhead] at hrun
    exact ⟨newNode, hfilled.id, hrun⟩

/-- The pages a put takes for the split it attempts at a leaf: one for the new leaf, and one for the
new root if the put is not refused after that. -/
def LeafNode.splitPages (node : LeafNode) (entry : Entry) : Nat :=
  match node.planInsert entry with
  | some (_, []) => 0
  | some (_, _ :: _) => 2
  | none =>
    if node.header.hasSpace entry.serializedSize then 0
    else if node.header.needsSplit then 1
    else 0

theorem upperHalf_ne_nil (h : node.entries ≠ []) : node.upperHalf ≠ [] := by
  intro hnil
  have hlen : node.upperHalf.length = 0 := by rw [hnil]; rfl
  rw [LeafNode.upperHalf, List.length_drop] at hlen
  have hpos := List.length_pos_iff.mpr h
  omega

theorem Inserted.entries_ne_nil {node' : LeafNode}
    (h : Inserted pageId node node' entry) : node'.entries ≠ [] := by
  intro hnil
  have hlookup := h.lookup entry.key
  rw [if_pos rfl, hnil] at hlookup
  cases hlookup

theorem run_insertIntoLeaf_refused (h : Shows env pager d m)
    (hsound : Sound d) (howns : d.Owns pageId)
    (hnode : nodeAt d pageId = some (.leaf node)) (hentry : Encodable entry)
    (hplan : node.planInsert entry = none)
    (hroom : Room env (d.next.toNat + node.splitPages entry)) :
    ∃ e pager' d', (insertIntoLeaf env node entry).run pager = .error (.err e) pager' ∧
      Shows env pager' d' m ∧ Sound d' ∧ Carries d d' [] ∧ d.next.toNat ≤ d'.next.toNat ∧
      ∀ other, d.Owns other → d'.pages other = d.pages other := by
  have hok := (hsound.leaf howns hnode).1
  unfold LeafNode.splitPages at hroom
  rw [hplan] at hroom
  dsimp only at hroom
  unfold LeafNode.planInsert at hplan
  unfold insertIntoLeaf
  by_cases hspace : node.header.hasSpace entry.serializedSize = true
  · rcases hok.insert hspace hentry with ⟨isUpdate, node', hinsert, hinserted⟩
    rw [if_pos hspace, hinsert] at hplan
    dsimp only at hplan
    split at hplan
    · cases hplan
    · split at hplan <;> cases hplan
  · rw [if_neg hspace] at hplan hroom ⊢
    by_cases hsplit : node.header.needsSplit = true
    · rw [if_pos hsplit] at hplan hroom ⊢
      rcases run_splitLeafNode h hsound howns ⟨node, hnode⟩ hok hroom
        with ⟨pager', d', hshows, hhalved, hempty, hsome⟩
      have hcarries : Carries d d' [] := by
        intro other hother e he
        rcases hhalved.carries other hother e he with hmoved | hold
        · refine Or.inr ⟨pageId, howns, ?_⟩
          rw [entriesAt_eq hnode]
          exact List.mem_of_mem_drop hmoved
        · exact Or.inr hold
      have hgrows : d.next.toNat ≤ d'.next.toNat := by
        have := hhalved.next
        omega
      cases hupper : node.upperHalf with
      | nil =>
        rcases hempty hupper with ⟨e, hrun⟩
        refine ⟨e, pager', d', ?_, hshows, hhalved.sound, hcarries, hgrows, hhalved.pages⟩
        exact run_bind_of_error hrun
      | cons first rest =>
        rcases hsome first rest hupper with ⟨newNode, -, hrun⟩
        rw [hupper] at hplan
        dsimp only at hplan
        by_cases hlt : entry.key < first.key
        · rw [if_pos hlt] at hplan
          have hfull : node.lowerHalf.header.hasSpace entry.serializedSize = false := by
            by_contra hroom
            rcases hok.lowerHalf.insert (by simpa using hroom) hentry with ⟨_, left, hinsert, -⟩
            rw [hinsert] at hplan
            cases hplan
          refine ⟨.storage (.pager "Leaf node"), pager', d', ?_, hshows, hhalved.sound, hcarries,
            hgrows, hhalved.pages⟩
          rw [run_bind_of_ok hrun]
          dsimp only
          rw [if_pos hlt]
          exact run_bind_of_error (run_liftErr_of_error (insert_eq_error hfull) pager')
        · rw [if_neg hlt] at hplan
          cases hplan
    · rw [if_neg hsplit]
      refine ⟨_, pager, d, rfl, h, hsound, ?_, Nat.le_refl _, fun _ _ => rfl⟩
      exact (Grows.refl d).carries

theorem run_insertIntoLeaf_stored {pager : Pager} {pageId : PageId} {node left : LeafNode}
    (hok : LeafOk pageId node) {entry : Entry} (hentry : Encodable entry)
    (hplan : node.planInsert entry = some (left, [])) :
    (insertIntoLeaf env node entry).run pager = .ok (.success, left) pager := by
  rcases hok.planInsert_cases hentry hplan with
    ⟨hspace, isUpdate, node', hinsert, hinserted, ⟨hwhole, rfl, -⟩ | ⟨-, -, -, hmoved⟩⟩ | ⟨-, -, first, rest, -, hmoved, -⟩
  · unfold insertIntoLeaf
    rw [if_pos hspace, run_bind_of_ok (run_liftErr_of_ok hinsert pager)]
    dsimp only
    split
    · rfl
    · next hupdate =>
      rw [if_neg (hwhole.resolve_left hupdate)]
      rfl
  · exact absurd hmoved.symm (upperHalf_ne_nil hinserted.entries_ne_nil)
  · cases hmoved

/-- A put that splits the leaf, for lack of space or because it is nearly full afterwards. -/
theorem run_insertIntoLeaf_split (h : Shows env pager d m)
    (hsound : Sound d) (howns : d.Owns pageId)
    (hnode : nodeAt d pageId = some (.leaf node)) {first : Entry} {rest : List Entry}
    (hentry : Encodable entry) (hplan : node.planInsert entry = some (left, first :: rest))
    (hroom : Room env (d.next.toNat + 1)) :
    ∃ pager' d', (insertIntoLeaf env node entry).run pager =
        .ok (.split d.next first.key, left) pager' ∧ Shows env pager' d' m ∧
      Halved d d' (first :: rest) := by
  have hok := (hsound.leaf howns hnode).1
  unfold insertIntoLeaf
  rcases hok.planInsert_cases hentry hplan with
    ⟨hspace, isUpdate, node', hinsert, hinserted, ⟨-, -, hmoved⟩ | ⟨hupdate, hsplit, rfl, hmoved⟩⟩ |
      ⟨hspace, hsplit, _, _, hupper, ⟨⟩, hplace⟩
  · cases hmoved
  · rcases run_splitLeafNode h hsound howns ⟨node, hnode⟩ hinserted.ok hroom
      with ⟨pager', d', hshows, hhalved, -, hsome⟩
    rcases hsome first rest hmoved.symm with ⟨newNode, hid, hrun⟩
    refine ⟨pager', d', ?_, hshows, hmoved ▸ hhalved⟩
    rw [if_pos hspace, run_bind_of_ok (run_liftErr_of_ok hinsert pager)]
    dsimp only
    rw [if_neg hupdate, if_pos hsplit, run_bind_of_ok hrun, ← hid]
    rfl
  · rcases run_splitLeafNode h hsound howns ⟨node, hnode⟩ hok hroom
      with ⟨pager', d', hshows, hhalved, -, hsome⟩
    rcases hsome first rest hupper with ⟨newNode, hid, hrun⟩
    refine ⟨pager', d', ?_, hshows, hupper ▸ hhalved⟩
    rw [if_neg hspace, if_pos hsplit, run_bind_of_ok hrun]
    dsimp only
    rcases hplace with ⟨hlt, isUpdate, hinsert, -⟩ | ⟨hge, rfl⟩
    · rw [if_pos hlt, run_bind_of_ok (run_liftErr_of_ok hinsert pager'), ← hid]
      rfl
    · rw [if_neg hge, ← hid]
      rfl

theorem run_rewriteRoot (h : Shows env pager d m) (hsound : Sound d)
    (newRoot : PageId) (howns : d.Owns root) {node : Node}
    (hnode : nodeAt d root = some node) :
    ∃ pager' d' node', (Pager.writeBtreeNode env root
        (node.setHeader { node.header with isRoot := 0, parentPageId := newRoot })).run pager =
          .ok () pager' ∧ Shows env pager' d' m ∧ Writes d d' root node' ∧ Sound d' ∧
      SameShape node node' ∧ entriesAt d' root = entriesAt d root := by
  cases node with
  | leaf leaf =>
    rcases hsound.leaf howns hnode with ⟨hok, hprev⟩
    let leaf' : LeafNode := { leaf with
      header := { leaf.header with isRoot := 0, parentPageId := newRoot } }
    have hok' : LeafOk root leaf' :=
      ⟨⟨hok.header.magic, hok.header.nodeType, rfl, hok.header.level, hok.header.reserved⟩, hok.id,
        hok.count, hok.sorted, hok.encodable, hok.fits, hok.last⟩
    rcases run_writeLeaf h howns hok' with ⟨pager', d', hrun, hshows, hwrites⟩
    refine ⟨pager', d', _, hrun, hshows, hwrites, ?_, .leaf .., ?_⟩
    · exact hsound.write hwrites (.leaf (hok'.stamp env.crc) hprev) fun _ => ⟨_, hwrites.node⟩
    · rw [entriesAt_eq hwrites.node, entriesAt_eq hnode]
      rfl
  | internal branch =>
    have hok := hsound.internal howns hnode
    rcases branch with ⟨header, separators, children⟩
    rcases hok.shape with ⟨sep, left, right, hseps, hchildren, hsep⟩
    obtain rfl : separators = [sep] := hseps
    obtain rfl : children = [left, right] := hchildren
    let header' := { header with isRoot := 0, parentPageId := newRoot }
    have hheader' : header'.IsInternal :=
      ⟨hok.header.magic, hok.header.nodeType, rfl, hok.header.reserved⟩
    rcases run_writeBranch h header' left right howns hheader' hok.id hok.count hsep
      with ⟨pager', d', header'', hrun, hshows, hwrites, hok'⟩
    refine ⟨pager', d', _, hrun, hshows, hwrites, ?_, .internal .., ?_⟩
    · apply hsound.write hwrites (.internal hok')
      rintro ⟨leaf, hleaf⟩
      rw [hnode] at hleaf
      cases hleaf
    · simp only [entriesAt, hwrites.node, hnode]

/-- The tree after `grow_tree`: one rung more, no entry moved. -/
structure Grown (d d' : Disk) (rungs : List Rung) (sep : Bytes) (newPage : PageId) : Prop where
  next : d'.next.toNat = d.next.toNat + 1
  sound : Sound d'
  ext : Extends d d'
  spine : Spine d' d.next (⟨d.next, sep, newPage⟩ :: rungs)
  entries : ∀ pageId, d.Owns pageId → entriesAt d' pageId = entriesAt d pageId
  carries : Carries d d' []

variable {rungs : List Rung} {tree : BTree}

theorem run_growTree (h : Shows env tree.pager d m) (hsound : Sound d)
    (hspine : Spine d tree.rootPageId rungs) {sep : Bytes} {newPage : PageId}
    (hsep : sep.length ≤ 255) (hnew : d.Owns newPage) (hleaf : IsLeafAt d newPage)
    (hyounger : tree.rootPageId.toNat < newPage.toNat) (hroom : Room env (d.next.toNat + 1)) :
    ∃ tree' d', (BTree.growTree env sep newPage).run tree = .ok () tree' ∧
      Shows env tree'.pager d' m ∧ tree'.rootPageId = d.next ∧ Grown d d' rungs sep newPage := by
  rcases h.run_allocatePage hroom with ⟨pager₁, halloc, hshows₁⟩
  have hgrows := grows_allocate hroom
  have hnewRoot := owns_allocate h hroom
  have howns := hspine.owns_root
  have hne : tree.rootPageId ≠ d.next := howns.ne_next
  have hsound₁ := hsound.grow hgrows
  -- the old root
  rcases (hspine.extend hgrows.extend).nodeAt_root with ⟨node, hnode⟩
  rcases run_readBtreeNode hshows₁ (hgrows.owns howns) hnode with ⟨pager₂, hread, hshows₂⟩
  rcases run_rewriteRoot hshows₂ hsound₁ d.next (hgrows.owns howns) hnode
    with ⟨pager₃, d₃, node', hrewrite, hshows₃, hwrites₃, hsound₃, hshape, hentries₃⟩
  -- the new root
  let header := { NodeHeader.new .internal d.next (tree.height + 1) with numKeys := 1 }
  rcases run_writeBranch hshows₃ header tree.rootPageId newPage
    (hwrites₃.owns.mpr hnewRoot) ⟨rfl, rfl, rfl, rfl⟩ rfl rfl hsep
    with ⟨pager₄, d₄, header', hwrite, hshows₄, hwrites₄, hok₄⟩
  have hfresh : ¬ d.Owns d.next := fun hown => hown.ne_next rfl
  have hext : Extends d d₄ := by
    apply hwrites₄.extend_fresh _ hfresh
    exact hgrows.extend.trans (hwrites₃.extend hnode hshape)
  have hentries : ∀ pageId, d.Owns pageId → entriesAt d₄ pageId = entriesAt d pageId := by
    intro pageId hown
    rw [entriesAt_congr (hwrites₄.others pageId hown.ne_next)]
    by_cases heq : pageId = tree.rootPageId
    · rw [heq, hentries₃, entriesAt_congr (hgrows.pages _ howns)]
    · rw [entriesAt_congr (hwrites₃.others pageId heq), entriesAt_congr (hgrows.pages _ hown)]
  have hnext : d₄.next.toNat = d.next.toNat + 1 := by
    rw [hwrites₄.next, hwrites₃.next]
    exact hgrows.next
  refine ⟨⟨pager₄, d.next, tree.height + 1⟩, d₄, ?_, hshows₄, rfl, hnext, ?_, hext, ?_, hentries, ?_⟩
  · unfold BTree.growTree
    rw [run_bind_of_ok (BTree.run_onPager_of_ok halloc),
      run_bind_of_ok (run_get _)]
    dsimp only
    rw [run_bind_of_ok (BTree.run_onPager_of_ok hread)]
    dsimp only
    rw [run_bind_of_ok (BTree.run_onPager_of_ok hrewrite)]
    dsimp only
    rw [run_bind_of_ok (BTree.run_onPager_of_ok hwrite)]
    exact run_modify _ _
  · apply hsound₃.write hwrites₄ (.internal hok₄)
    rintro ⟨leaf, hleaf⟩
    rw [nodeAt_congr (hwrites₃.others d.next hne.symm), nodeAt_allocate] at hleaf
    cases hleaf
  · exact @Spine.rung d₄ ⟨d.next, sep, newPage⟩ tree.rootPageId header' rungs
      ((hwrites₄.owns.trans hwrites₃.owns).mpr hnewRoot) hwrites₄.node
      (hext.isLeafAt hnew hleaf) hyounger hnew.2 (hspine.extend hext)
  · intro pageId hown e he
    by_cases heq : pageId = d.next
    · rw [heq] at he
      simp only [entriesAt, hwrites₄.node] at he
      exact absurd he List.not_mem_nil
    · have hold := owns_of_owns_succ hnext hown heq
      rw [hentries pageId hold] at he
      exact Or.inr ⟨pageId, hold, he⟩

/-- The leaf branch of `put`. -/
def putLeaf (env : Env) (entry : Entry) (current : PageId) (leaf : LeafNode) (path : BTree.Path) :
    TreeM Unit := do
  let (result, leaf) ← BTree.onPager (insertIntoLeaf env leaf entry)
  BTree.onPager (Pager.writeBtreeNode env current (.leaf leaf))
  match result with
  | .success => pure ()
  | .split newPageId separator => BTree.propagateSplit env path separator newPageId

/-- A loop that goes down to the leaf for `key` and keeps the path. -/
theorem run_walk {root : PageId} {rungs : List Rung} (hspine : Spine d root rungs) (key : Bytes)
    {loop : Nat → PageId → BTree.Path → TreeM Unit} {atLeaf : PageId → LeafNode → BTree.Path → TreeM Unit}
    (hloop : ∀ fuel current path, loop (fuel + 1) current path = do
      let node ← BTree.onPager (Pager.readBtreeNode env current)
      let path := (current, node) :: path
      match node with
      | .internal node =>
        let child ← EStateM.lift (node.findChild key)
        loop fuel child path
      | .leaf leaf => atLeaf current leaf path)
    {fuel : Nat} (hfuel : rungs.length < fuel) {tree : BTree} (h : Shows env tree.pager d m) :
    ∃ pager' leaf path, Shows env pager' d m ∧ nodeAt d (route rungs key) = some (.leaf leaf) ∧
      (loop fuel root []).run tree =
        (atLeaf (route rungs key) leaf ((route rungs key, .leaf leaf) :: path)).run { tree with pager := pager' } := by
  refine hspine.descent (· ≤ key) (route · key) (fun s : BTree.Path × BTree => Shows env s.2.pager d m)
    (fun fuel pageId s => ∃ pager' leaf path, Shows env pager' d m ∧ nodeAt d (route rungs key) = some (.leaf leaf) ∧
      (loop fuel pageId s.1).run s.2 =
        (atLeaf (route rungs key) leaf ((route rungs key, .leaf leaf) :: path)).run { s.2 with pager := pager' })
    rfl (fun _ _ => rfl) ?_ ?_ hfuel (s := ([], tree)) h
  · intro fuel ⟨path, tree⟩ h howns ⟨leaf, hleaf⟩
    rcases run_readBtreeNode h howns hleaf with ⟨pager', hread, hshows⟩
    refine ⟨pager', leaf, path, hshows, hleaf, ?_⟩
    rw [hloop, run_bind_of_ok (BTree.run_onPager_of_ok hread)]
  · intro fuel ⟨path, tree⟩ pageId header sep below page h howns hnode
    rcases run_readBtreeNode h howns hnode with ⟨pager₁, hread, hshows₁⟩
    refine ⟨((pageId, .internal ⟨header, [sep], [below, page]⟩) :: path, { tree with pager := pager₁ }), hshows₁,
      fun hchild => ?_⟩
    rw [hloop, run_bind_of_ok (BTree.run_onPager_of_ok hread)]
    dsimp only
    rw [findChild_branch, run_bind_of_ok (run_lift_ok _ _)]
    exact hchild

/-- The table and the root after a put that was not refused. -/
structure PutDone (d d' : Disk) (root root' : PageId) (rungs : List Rung) (pageId : PageId)
    (left moved : List Entry) (entry : Entry) : Prop where
  sound : Sound d'
  ext : Extends d d'
  carries : Carries d d' [entry]
  leaf : entriesAt d' pageId = left
  others : ∀ other, d.Owns other → other ≠ pageId → entriesAt d' other = entriesAt d other
  whole : moved = [] → root' = root
  split : ∀ first rest, moved = first :: rest → ∃ newPage, ¬ d.Owns newPage ∧
    entriesAt d' newPage = moved ∧ Spine d' root' (⟨root', first.key, newPage⟩ :: rungs)

theorem Planned.mem {e : Entry}
    (h : Planned pageId node entry left moved) (he : e ∈ left.entries ++ moved) :
    e = entry ∨ e ∈ node.entries := by
  have hlookup := lookup_eq_some h.sorted he rfl
  rw [h.lookup] at hlookup
  by_cases hkey : e.key = entry.key ∧ node.drops entry = false
  · rw [if_pos hkey] at hlookup
    exact Or.inl (Option.some.inj hlookup).symm
  · rw [if_neg hkey] at hlookup
    exact Or.inr (mem_of_lookup hlookup).1

theorem run_writeBack {tree : BTree} (h : Shows env tree.pager d m) (hsound : Sound d)
    {pageId : PageId} (howns : d.Owns pageId) {node left : LeafNode}
    (hnode : nodeAt d pageId = some (.leaf node)) (hok : LeafOk pageId left)
    (hprev : left.prevLeaf = node.prevLeaf) {entry : Entry}
    (hmem : ∀ e ∈ left.entries, e = entry ∨ e ∈ node.entries) (rungs : List Rung) :
    ∃ tree' d', (BTree.onPager (Pager.writeBtreeNode env pageId (.leaf left))).run tree =
        .ok () tree' ∧ Shows env tree'.pager d' m ∧ tree'.rootPageId = tree.rootPageId ∧
      d'.next = d.next ∧ IsLeafAt d' pageId ∧
      (∀ other, other ≠ pageId → d'.pages other = d.pages other) ∧
      PutDone d d' tree.rootPageId tree'.rootPageId rungs pageId left.entries [] entry := by
  rcases run_writeLeaf h howns hok with ⟨pager', d', hrun, hshows, hwrites⟩
  have hentries : entriesAt d' pageId = left.entries := by
    rw [entriesAt_eq hwrites.node]
    rfl
  refine ⟨{ tree with pager := pager' }, d', BTree.run_onPager_of_ok hrun, hshows, rfl,
    hwrites.next, ⟨_, hwrites.node⟩, hwrites.others, ?_⟩
  constructor
  · apply hsound.write hwrites
    · apply NodeOk.leaf (hok.stamp env.crc)
      show PrevOk d pageId _
      unfold PrevOk
      rw [show (stampLeaf env.crc left).prevLeaf = node.prevLeaf from hprev]
      exact (hsound.leaf howns hnode).2
    · exact fun _ => ⟨_, hwrites.node⟩
  · exact hwrites.extend hnode (.leaf ..)
  · apply hwrites.carries
    intro e he
    rw [hentries] at he
    rcases hmem e he with hnew | hold
    · exact Or.inl (List.mem_singleton.mpr hnew)
    · exact Or.inr ⟨pageId, howns, by rw [entriesAt_eq hnode]; exact hold⟩
  · exact hentries
  · exact fun other _ hne => entriesAt_congr (hwrites.others other hne)
  · exact fun _ => rfl
  · intro first rest hcons
    cases hcons

theorem run_putLeaf_stored {tree : BTree} (h : Shows env tree.pager d m)
    (hsound : Sound d) {pageId : PageId} (howns : d.Owns pageId) {node left : LeafNode}
    (hnode : nodeAt d pageId = some (.leaf node)) {entry : Entry} (hentry : Encodable entry)
    (hplan : node.planInsert entry = some (left, [])) (path : BTree.Path) (rungs : List Rung) :
    ∃ tree' d', (putLeaf env entry pageId node path).run tree = .ok () tree' ∧
      Shows env tree'.pager d' m ∧ d'.next = d.next ∧
      PutDone d d' tree.rootPageId tree'.rootPageId rungs pageId left.entries [] entry := by
  have hok := (hsound.leaf howns hnode).1
  have hplanned := hok.planned hentry hplan
  have hinsert := @run_insertIntoLeaf_stored env tree.pager pageId node left hok entry hentry hplan
  rcases run_writeBack h hsound howns hnode hplanned.ok hplanned.prev
    (fun e he => hplanned.mem (List.mem_append_left _ he)) rungs
    with ⟨tree', d', hwrite, hshows, -, hnext, -, -, hdone⟩
  refine ⟨tree', d', ?_, hshows, hnext, hdone⟩
  unfold putLeaf
  rw [run_bind_of_ok (BTree.run_onPager_of_ok hinsert)]
  exact run_bind_of_ok hwrite

theorem run_putLeaf_split {tree : BTree} (h : Shows env tree.pager d m)
    (hsound : Sound d) {rungs : List Rung} (hspine : Spine d tree.rootPageId rungs)
    {pageId : PageId} (howns : d.Owns pageId) {node left : LeafNode}
    (hnode : nodeAt d pageId = some (.leaf node)) {entry first : Entry} {rest : List Entry}
    (hentry : Encodable entry) (hplan : node.planInsert entry = some (left, first :: rest))
    (path : BTree.Path) (hroom : Room env (d.next.toNat + 2)) :
    ∃ tree' d', (putLeaf env entry pageId node ((pageId, .leaf node) :: path)).run tree =
        .ok () tree' ∧ Shows env tree'.pager d' m ∧ d'.next.toNat = d.next.toNat + 2 ∧
      PutDone d d' tree.rootPageId tree'.rootPageId rungs pageId left.entries (first :: rest)
        entry := by
  have hplanned := (hsound.leaf howns hnode).1.planned hentry hplan
  rcases run_insertIntoLeaf_split h hsound howns hnode hentry hplan (hroom.mono (by omega))
    with ⟨pager₁, d₁, hinsert, hshows₁, hhalved⟩
  have hext₁ : Extends d d₁ := .of_pages (by have := hhalved.next; omega) hhalved.pages
  have hnode₁ : nodeAt d₁ pageId = some (.leaf node) := by
    rw [nodeAt_congr (hhalved.pages pageId howns)]
    exact hnode
  -- the old leaf is written back
  rcases @run_writeBack env m d₁ { tree with pager := pager₁ } hshows₁ hhalved.sound pageId
    (hext₁.owns howns) node left hnode₁ hplanned.ok hplanned.prev entry
    (fun e he => hplanned.mem (List.mem_append_left _ he)) rungs
    with ⟨tree₂, d₂, hwrite, hshows₂, hroot₂, hnext₂, -, hothers₂, hdone₂⟩
  have hroot₂ : tree₂.rootPageId = tree.rootPageId := hroot₂
  have hext₂ : Extends d d₂ := hext₁.trans hdone₂.ext
  have hne : d.next ≠ pageId := fun heq => howns.ne_next heq.symm
  have hnewOwns : d₁.Owns d.next := ⟨by have := h.first; omega, by have := hhalved.next; omega⟩
  -- the tree grows by the new leaf
  have hspine₂ : Spine d₂ tree₂.rootPageId rungs := by
    rw [hroot₂]
    exact hspine.extend hext₂
  have hroom₂ : Room env (d₂.next.toNat + 1) := by
    rw [hnext₂, hhalved.next]
    exact hroom
  have hyounger : tree₂.rootPageId.toNat < d.next.toNat := by
    rw [hroot₂]
    exact hspine.owns_root.2
  have hsep : first.key.length ≤ 255 := (hplanned.encodable first (List.mem_cons_self ..)).1
  rcases run_growTree hshows₂ hdone₂.sound hspine₂ hsep (hdone₂.ext.owns hnewOwns)
    (hdone₂.ext.isLeafAt hnewOwns hhalved.leaf) hyounger hroom₂
    with ⟨tree₃, d₃, hgrow, hshows₃, hroot₃, hgrown⟩
  have hentries : ∀ other, d₁.Owns other → entriesAt d₃ other = entriesAt d₂ other :=
    fun other hother => hgrown.entries other (hdone₂.ext.owns hother)
  refine ⟨tree₃, d₃, ?_, hshows₃, ?_, ?_⟩
  · unfold putLeaf
    rw [run_bind_of_ok (BTree.run_onPager_of_ok hinsert)]
    dsimp only
    rw [run_bind_of_ok hwrite]
    exact hgrow
  · rw [hgrown.next, hnext₂, hhalved.next]
  · constructor
    · exact hgrown.sound
    · exact hext₂.trans hgrown.ext
    · have hmoved : Carries d d₁ [entry] := by
        intro other hother e he
        rcases hhalved.carries other hother e he with hmoved | hold
        · rcases hplanned.mem (List.mem_append_right _ hmoved) with hnew | hold
          · exact Or.inl (List.mem_singleton.mpr hnew)
          · exact Or.inr ⟨pageId, howns, by rw [entriesAt_eq hnode]; exact hold⟩
        · exact Or.inr hold
      apply ((hmoved.trans hdone₂.carries).trans hgrown.carries).mono
      simp
    · rw [hentries pageId (hext₁.owns howns)]
      exact hdone₂.leaf
    · intro other hother hne'
      rw [hentries other (hext₁.owns hother), entriesAt_congr (hothers₂ other hne'),
        entriesAt_congr (hhalved.pages other hother)]
    · intro hnil
      cases hnil
    · intro first' rest' hcons
      cases hcons
      refine ⟨d.next, fun hown => hown.ne_next rfl, ?_, ?_⟩
      · rw [hentries d.next hnewOwns, entriesAt_congr (hothers₂ d.next hne)]
        exact hhalved.entries
      · rw [hroot₃]
        exact hgrown.spine

end calls

def leafFor (d : Disk) (root : PageId) (key : Bytes) : Option (PageId × LeafNode) :=
  match leafPage d root key with
  | none => none
  | some pageId =>
    match nodeAt d pageId with
    | some (.leaf leaf) => some (pageId, leaf)
    | _ => none

/-- A root that is an empty leaf is filled without a look at how full it is. -/
def planLeaf (isRoot : Bool) (leaf : LeafNode) (entry : Entry) : Option (LeafNode × List Entry) :=
  if isRoot && leaf.entries.isEmpty then
    match leaf.insert entry with
    | .ok (_, leaf) => some (leaf, [])
    | .error _ => none
  else leaf.planInsert entry

/-- What a put will do: the leaf it writes, what stays in it and what moves out; `none` if it is
refused. -/
def putPlan (d : Disk) (root : PageId) (key value : Bytes) (lsn : UInt64) :
    Option (PageId × LeafNode × List Entry) :=
  match leafFor d root key with
  | none => none
  | some (pageId, leaf) =>
    if value.length ≤ maxValueSize then
      match planLeaf (pageId == root) leaf (preparedEntry d key value lsn) with
      | some (left, moved) => some (pageId, left, moved)
      | none => none
    else none

def putPages (d : Disk) (root : PageId) (key value : Bytes) (lsn : UInt64) : Nat :=
  match leafFor d root key with
  | none => 0
  | some (pageId, leaf) =>
    if value.length ≤ maxValueSize then
      overflowPages value.length +
        if (pageId == root) && leaf.entries.isEmpty then 0
        else leaf.splitPages (preparedEntry d key value lsn)
    else 0

theorem Spine.leafFor {d : Disk} {rungs : List Rung} (h : Spine d root rungs)
    {leaf : LeafNode} (hleaf : nodeAt d (route rungs key) = some (.leaf leaf)) :
    leafFor d root key = some (route rungs key, leaf) := by
  unfold Northstar.Btree.leafFor
  rw [h.leafPage key]
  dsimp only
  rw [hleaf]

theorem encodable_preparedEntry (hkey : key.length ≤ 255) (d : Disk) (value : Bytes)
    (lsn : UInt64) : Encodable (preparedEntry d key value lsn) := by
  constructor
  · rw [preparedEntry_key]
    exact hkey
  · exact (length_preparedEntry_value d key value lsn).trans (by decide)

/-- `put` once the root was read: an empty root leaf takes the entry at once. -/
def putAtRoot (env : Env) (key : Bytes) (entry : Entry) (fuel : Nat) (rootPageId : PageId) :
    Node → TreeM Unit
  | .leaf leaf =>
    if leaf.entries.isEmpty then do
      let (_, leaf) ← liftErr (leaf.insert entry)
      BTree.onPager (Pager.writeBtreeNode env rootPageId (.leaf leaf))
    else BTree.putFrom env key entry fuel rootPageId []
  | .internal _ => BTree.putFrom env key entry fuel rootPageId []

section put

variable {env : Env} {m : MetaState} {d : Disk} {tree : BTree} {rungs : List Rung}

variable {value : Bytes}

theorem run_put_descends (h : Shows env tree.pager d m)
    (hspine : Spine d tree.rootPageId rungs) (key : Bytes) (lsn : UInt64)
    (hsize : value.length ≤ maxValueSize)
    (hroom : Room env (d.next.toNat + overflowPages value.length)) {leaf : LeafNode}
    (hleaf : nodeAt d (route rungs key) = some (.leaf leaf)) :
    ∃ pager₁ d₁ path, Shows env pager₁ d₁ m ∧ Grows d d₁ (overflowPages value.length) ∧
      (looksLikeReference value = false →
        Reads env.crc d₁ (preparedEntry d key value lsn) value) ∧
      nodeAt d₁ (route rungs key) = some (.leaf leaf) ∧
      (BTree.put env key value lsn).run tree =
        (if (route rungs key == tree.rootPageId) && leaf.entries.isEmpty then do
          let (_, leaf) ← liftErr (leaf.insert (preparedEntry d key value lsn))
          BTree.onPager (Pager.writeBtreeNode env tree.rootPageId (.leaf leaf))
        else putLeaf env (preparedEntry d key value lsn) (route rungs key) leaf
          ((route rungs key, .leaf leaf) :: path) : TreeM Unit).run { tree with pager := pager₁ } := by
  let entry := preparedEntry d key value lsn
  rcases run_prepareEntryValue h key lsn hsize hroom
    with ⟨pager₁, d₁, hprepare, hshows₁, hgrows, hreads⟩
  have hspine₁ := hspine.extend hgrows.extend
  rcases hspine₁.nodeAt_root with ⟨root, hroot⟩
  rcases run_readBtreeNode hshows₁ hspine₁.owns_root hroot with ⟨pager₂, hread, hshows₂⟩
  have hloop : ∀ fuel current path, BTree.putFrom env key entry (fuel + 1) current path = _ := fun _ _ _ => rfl
  rcases @run_walk env m d₁ tree.rootPageId rungs hspine₁ key _ (putLeaf env entry) hloop _
    (descentFuel_gt hshows₁ hspine₁) { tree with pager := pager₂ } hshows₂
    with ⟨pager₃, reached, path, hshows₃, hleaf₁, hdescend⟩
  obtain rfl : reached = leaf := by
    rw [nodeAt_congr (hgrows.pages _ (hspine.route_leaf key).1), hleaf] at hleaf₁
    cases hleaf₁
    rfl
  have hfront : (BTree.put env key value lsn).run tree =
      (putAtRoot env key entry (BTree.descentFuel pager₁) tree.rootPageId root).run
        { tree with pager := pager₂ } := by
    unfold BTree.put
    rw [run_bind_of_ok (BTree.run_onPager_of_ok hprepare),
      run_bind_of_ok (run_get _)]
    dsimp only
    rw [run_bind_of_ok (BTree.run_onPager_of_ok hread)]
    cases root with
    | leaf _ => rfl
    | internal _ => rfl
  cases root with
  | internal node =>
    have hne : (route rungs key == tree.rootPageId) = false := by
      apply beq_false_of_ne
      intro heq
      rw [heq, hroot] at hleaf₁
      cases hleaf₁
    refine ⟨pager₃, d₁, path, hshows₃, hgrows, hreads, hleaf₁, ?_⟩
    rw [hfront, hne]
    exact hdescend
  | leaf rootLeaf =>
    -- a root that is a leaf is the leaf of every key
    rcases hspine₁.of_leaf ⟨rootLeaf, hroot⟩ with ⟨hrungs, hfirst⟩
    have hroute : route rungs key = tree.rootPageId := by
      rw [hrungs, hfirst]
      rfl
    have heq : reached = rootLeaf := by
      rw [hroute, hroot] at hleaf₁
      cases hleaf₁
      rfl
    have hbeq : (route rungs key == tree.rootPageId) = true := by
      rw [hroute]
      exact beq_self_eq_true _
    by_cases hempty : rootLeaf.entries.isEmpty = true
    · refine ⟨pager₂, d₁, path, hshows₂, hgrows, hreads, hleaf₁, ?_⟩
      rw [hfront, hbeq, heq, hempty, putAtRoot, if_pos hempty]
      rfl
    · refine ⟨pager₃, d₁, path, hshows₃, hgrows, hreads, hleaf₁, ?_⟩
      rw [hfront, hbeq, heq, putAtRoot, if_neg hempty, if_neg (by simpa using hempty), hdescend,
        heq]

theorem PutDone.after_grows {d₁ : Disk} {n : Nat} {root' : PageId}
    {left : List Entry} (hgrows : Grows d d₁ n)
    (h : PutDone d₁ d' root root' rungs pageId left moved entry) :
    PutDone d d' root root' rungs pageId left moved entry where
  sound := h.sound
  ext := hgrows.extend.trans h.ext
  carries := (hgrows.carries.trans h.carries).mono (by simp)
  leaf := h.leaf
  others := by
    intro other hother hne
    rw [h.others other (hgrows.owns hother) hne, entriesAt_congr (hgrows.pages other hother)]
  whole := h.whole
  split := by
    intro first rest hcons
    rcases h.split first rest hcons with ⟨newPage, hfresh, hentries, hspine⟩
    exact ⟨newPage, fun hown => hfresh (hgrows.owns hown), hentries, hspine⟩

theorem run_put_done (h : Shows env tree.pager d m) (hsound : Sound d)
    (hspine : Spine d tree.rootPageId rungs) {lsn : UInt64}
    (hkey : key.length ≤ 255)
    (hplan : putPlan d tree.rootPageId key value lsn = some (pageId, left, moved))
    (hroom : Room env (d.next.toNat + putPages d tree.rootPageId key value lsn)) :
    ∃ tree' d', (BTree.put env key value lsn).run tree = .ok () tree' ∧
      Shows env tree'.pager d' m ∧
      PutDone d d' tree.rootPageId tree'.rootPageId rungs pageId left.entries moved
        (preparedEntry d key value lsn) ∧
      (looksLikeReference value = false →
        Reads env.crc d' (preparedEntry d key value lsn) value) ∧
      d'.next.toNat = d.next.toNat + putPages d tree.rootPageId key value lsn := by
  let entry := preparedEntry d key value lsn
  have hentry : Encodable entry := encodable_preparedEntry hkey d value lsn
  rcases hspine.route_leaf key with ⟨howns, leaf, hnode⟩
  unfold putPlan at hplan
  unfold putPages at hroom ⊢
  rw [hspine.leafFor hnode] at hplan hroom ⊢
  dsimp only at hplan hroom ⊢
  by_cases hsize : value.length ≤ maxValueSize
  · rw [if_pos hsize] at hplan hroom
    rcases run_put_descends h hspine key lsn hsize (hroom.mono (by omega)) hnode
      with ⟨pager₁, d₁, path, hshows₁, hgrows, hreads, hnode₁, hrun⟩
    have howns₁ := hgrows.owns howns
    have hsound₁ := hsound.grow hgrows
    have hok := (hsound.leaf howns hnode).1
    unfold planLeaf at hplan
    by_cases hempty : ((route rungs key == tree.rootPageId) && leaf.entries.isEmpty) = true
    · rw [if_pos hempty] at hplan hrun
      have hroot : route rungs key = tree.rootPageId :=
        eq_of_beq (Bool.and_eq_true_iff.mp hempty).1
      by_cases hspace : leaf.header.hasSpace entry.serializedSize = true
      · rcases hok.insert hspace hentry with ⟨isUpdate, leaf', hinsert, hinserted⟩
        rw [hinsert] at hplan
        cases hplan
        rcases @run_writeBack env m d₁ { tree with pager := pager₁ } hshows₁ hsound₁ _ howns₁ leaf
          left hnode₁ hinserted.ok hinserted.prev entry (fun e he => hinserted.mem he) rungs
          with ⟨tree', d', hwrite, hshows, -, hnext, -, -, hdone⟩
        refine ⟨tree', d', ?_, hshows, hdone.after_grows hgrows, ?_, ?_⟩
        · rw [hrun, run_bind_of_ok (run_liftErr_of_ok hinsert _)]
          rw [hroot] at hwrite
          exact hwrite
        · exact fun hplain => (hreads hplain).keep hdone.ext.keepsOverflow
        · rw [hnext, hgrows.next, if_pos hsize, if_pos hempty, Nat.add_zero]
      · rw [insert_eq_error (by simpa using hspace)] at hplan
        cases hplan
    · rw [if_neg hempty] at hplan hrun
      cases hleafPlan : leaf.planInsert entry with
      | none =>
        rw [hleafPlan] at hplan
        cases hplan
      | some plan =>
        rcases plan with ⟨left', moved'⟩
        rw [hleafPlan] at hplan
        cases hplan
        rw [if_neg hempty] at hroom
        cases moved with
        | nil =>
          rcases @run_putLeaf_stored env m d₁ { tree with pager := pager₁ } hshows₁ hsound₁ _ howns₁
            leaf left hnode₁ entry hentry hleafPlan ((route rungs key, .leaf leaf) :: path) rungs
            with ⟨tree', d', hput, hshows, hnext, hdone⟩
          have hpages : leaf.splitPages entry = 0 := by
            unfold LeafNode.splitPages
            rw [hleafPlan]
          refine ⟨tree', d', hrun.trans hput, hshows, hdone.after_grows hgrows, ?_, ?_⟩
          · exact fun hplain => (hreads hplain).keep hdone.ext.keepsOverflow
          · rw [hnext, hgrows.next, if_pos hsize, if_neg hempty, hpages, Nat.add_zero]
        | cons first rest =>
          have hpages : leaf.splitPages entry = 2 := by
            unfold LeafNode.splitPages
            rw [hleafPlan]
          have hroom₁ : Room env (d₁.next.toNat + 2) := by
            rw [hgrows.next]
            rw [hpages] at hroom
            exact hroom.mono (by omega)
          rcases @run_putLeaf_split env m d₁ { tree with pager := pager₁ } hshows₁ hsound₁ rungs
            (hspine.extend hgrows.extend) _ howns₁ leaf left hnode₁ entry first rest hentry hleafPlan
            path hroom₁ with ⟨tree', d', hput, hshows, hnext, hdone⟩
          refine ⟨tree', d', hrun.trans hput, hshows, hdone.after_grows hgrows, ?_, ?_⟩
          · exact fun hplain => (hreads hplain).keep hdone.ext.keepsOverflow
          · rw [hnext, hgrows.next, if_pos hsize, if_neg hempty, hpages, Nat.add_assoc]
  · rw [if_neg hsize] at hplan
    cases hplan

theorem run_put_refused (h : Shows env tree.pager d m) (hsound : Sound d)
    (hspine : Spine d tree.rootPageId rungs) {lsn : UInt64}
    (hkey : key.length ≤ 255) (hplan : putPlan d tree.rootPageId key value lsn = none)
    (hroom : Room env (d.next.toNat + putPages d tree.rootPageId key value lsn)) :
    ∃ e tree' d', (BTree.put env key value lsn).run tree = .error (.err e) tree' ∧
      tree'.rootPageId = tree.rootPageId ∧ Shows env tree'.pager d' m ∧ Sound d' ∧ Carries d d' [] ∧
      d.next.toNat ≤ d'.next.toNat ∧
      ∀ other, d.Owns other → d'.pages other = d.pages other := by
  let entry := preparedEntry d key value lsn
  have hentry : Encodable entry := encodable_preparedEntry hkey d value lsn
  rcases hspine.route_leaf key with ⟨howns, leaf, hnode⟩
  unfold putPlan at hplan
  unfold putPages at hroom
  rw [hspine.leafFor hnode] at hplan hroom
  dsimp only at hplan hroom
  by_cases hsize : value.length ≤ maxValueSize
  · rw [if_pos hsize] at hplan hroom
    rcases run_put_descends h hspine key lsn hsize (hroom.mono (by omega)) hnode
      with ⟨pager₁, d₁, path, hshows₁, hgrows, hreads, hnode₁, hrun⟩
    have hgrown : d.next.toNat ≤ d₁.next.toNat := by
      have := hgrows.next
      omega
    unfold planLeaf at hplan
    by_cases hempty : ((route rungs key == tree.rootPageId) && leaf.entries.isEmpty) = true
    · rw [if_pos hempty] at hplan hrun
      cases hinsert : leaf.insert entry with
      | ok result =>
        rw [hinsert] at hplan
        cases hplan
      | error e =>
        refine ⟨e, { tree with pager := pager₁ }, d₁, ?_, rfl, hshows₁, hsound.grow hgrows,
          hgrows.carries, hgrown, hgrows.pages⟩
        rw [hrun]
        exact run_bind_of_error (run_liftErr_of_error hinsert _)
    · rw [if_neg hempty] at hplan hrun hroom
      have hleafPlan : leaf.planInsert entry = none := by
        cases hleafPlan : leaf.planInsert entry with
        | none => rfl
        | some plan =>
          rw [hleafPlan] at hplan
          cases hplan
      have hroom₁ : Room env (d₁.next.toNat + leaf.splitPages entry) := by
        rw [hgrows.next, Nat.add_assoc]
        exact hroom
      rcases run_insertIntoLeaf_refused hshows₁ (hsound.grow hgrows) (hgrows.owns howns) hnode₁
        hentry hleafPlan hroom₁ with ⟨e, pager₂, d₂, hinsert, hshows₂, hsound₂, hcarries, hnext, hpages⟩
      refine ⟨e, { tree with pager := pager₂ }, d₂, ?_, rfl, hshows₂, hsound₂,
        hgrows.carries.trans hcarries, hgrown.trans hnext, ?_⟩
      · rw [hrun]
        unfold putLeaf
        exact run_bind_of_error
          (@BTree.run_onPager_of_error _ _ { tree with pager := pager₁ } _ _ hinsert)
      · intro other hother
        rw [hpages other (hgrows.owns hother), hgrows.pages other hother]
  · rcases @run_prepareEntryValue_error env tree.pager key value lsn (Nat.not_le.mp hsize)
      with ⟨e, hprepare⟩
    refine ⟨e, tree, d, ?_, rfl, h, hsound, (Grows.refl d).carries, Nat.le_refl _, fun _ _ => rfl⟩
    unfold BTree.put
    exact run_bind_of_error (BTree.run_onPager_of_error hprepare)

end put

end Northstar.Btree
