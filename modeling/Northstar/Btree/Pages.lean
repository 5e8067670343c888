import Northstar.Btree.Codec
import Northstar.Btree.Edits
import Northstar.Pager.Disk

/-!
# Pages — nodes and overflow chains on the page table

What the pages of the table stand for, and the pager calls that read and write them.  Node pages and
overflow pages carry different magic numbers, so no page is both.
-/

namespace Northstar.Btree

open Bytes EStateM

def nodeAt (d : Disk) (pageId : PageId) : Option Node :=
  (d.pages pageId).bind fun bytes => (Node.fromBytes bytes).toOption

variable {pageId : PageId} {node : Node} {page : OverflowPage}

theorem nodeAt_congr {d d' : Disk} (h : d'.pages pageId = d.pages pageId) :
    nodeAt d' pageId = nodeAt d pageId := by
  rw [nodeAt, nodeAt, h]

variable {bytes : Bytes}

theorem nodeAt_write_self (d : Disk)
    (h : Node.fromBytes bytes = .ok node) : nodeAt (d.write pageId bytes) pageId = some node := by
  rw [nodeAt, Disk.write_pages_self, Option.bind_some, h, Except.toOption_ok]

theorem nodeAt_eq_some {d : Disk} (h : nodeAt d pageId = some node) :
    ∃ bytes, d.pages pageId = some bytes ∧ Node.fromBytes bytes = .ok node := by
  rcases Option.bind_eq_some_iff.mp h with ⟨bytes, hpage, hnode⟩
  exact ⟨bytes, hpage, Except.toOption_eq_some.mp hnode⟩

section calls

variable {env : Env} {pager : Pager} {d : Disk} {m : MetaState}

theorem run_readBtreeNode (h : Shows env pager d m)
    (howns : d.Owns pageId) (hnode : nodeAt d pageId = some node) :
    ∃ pager', (Pager.readBtreeNode env pageId).run pager = .ok node pager' ∧
      Shows env pager' d m := by
  rcases nodeAt_eq_some hnode with ⟨bytes, hpage, hdecode⟩
  rcases h.run_readThrough (fun _ => .ok ()) howns hpage rfl with ⟨pager', hread, hshows⟩
  refine ⟨pager', ?_, hshows⟩
  unfold Pager.readBtreeNode Pager.readPageCachedRaw
  rw [run_bind_of_ok hread, hdecode, run_lift_ok]

def putNode (crc : Crc) (d : Disk) (pageId : PageId) (node : Node) : Disk :=
  match node.toBytes crc with
  | .ok bytes => d.write pageId bytes
  | .error _ => d

theorem run_writeBtreeNode (h : Shows env pager d m)
    (howns : d.Owns pageId) (hbytes : node.toBytes env.crc = .ok bytes)
    (hlen : bytes.length = pageSize) :
    ∃ pager', (Pager.writeBtreeNode env pageId node).run pager = .ok () pager' ∧
      Shows env pager' (putNode env.crc d pageId node) m := by
  rcases h.run_writePageRaw howns hlen with ⟨pager', hwrite, hshows⟩
  refine ⟨pager', ?_, ?_⟩
  · unfold Pager.writeBtreeNode
    rw [hbytes, run_bind_of_ok (run_lift_ok bytes pager)]
    exact hwrite
  · rw [putNode, hbytes]
    exact hshows

end calls

@[simp] theorem putNode_next (crc : Crc) (d : Disk) (pageId : PageId) (node : Node) :
    (putNode crc d pageId node).next = d.next := by
  unfold putNode
  split <;> rfl

theorem putNode_pages_ne (crc : Crc) (d : Disk) {other : PageId} (node : Node)
    (h : other ≠ pageId) : (putNode crc d pageId node).pages other = d.pages other := by
  unfold putNode
  split
  · exact Disk.write_pages_ne d _ h
  · rfl

structure OverflowAt (crc : Crc) (d : Disk) (pageId : PageId) (page : OverflowPage) : Prop where
  reads : ∃ bytes whole, d.pages pageId = some bytes ∧
    Pager.validatePageBuffer crc pageId bytes = .ok () ∧ Page.fromBytes crc bytes = .ok whole ∧
      whole.pageType = some .overflow ∧ OverflowPage.fromBytes whole.payload = .ok page

theorem OverflowAt.congr {crc : Crc} {d d' : Disk}
    (h : OverflowAt crc d pageId page) (hpage : d'.pages pageId = d.pages pageId) :
    OverflowAt crc d' pageId page := by
  rcases h.reads with ⟨bytes, whole, hbytes, hrest⟩
  exact ⟨bytes, whole, hpage.trans hbytes, hrest⟩

theorem nodeAt_eq_none_of_magic {d : Disk}
    (hpage : d.pages pageId = some bytes) (hmagic : (PageHeader.read bytes).magic = pageMagic) :
    nodeAt d pageId = none := by
  cases hnode : Node.fromBytes bytes with
  | error e => rw [nodeAt, hpage, Option.bind_some, hnode, Except.toOption_error]
  | ok node =>
    have hne : (NodeHeader.read bytes).magic ≠ nodeMagic := by
      show (PageHeader.read bytes).magic ≠ nodeMagic
      rw [hmagic]
      decide
    simp only [Node.fromBytes, Except.guard_eq_ok_iff, NodeHeader.validate, if_pos hne,
      Except.mapError, Except.error_bind] at hnode
    exact absurd hnode.2 (by simp)

theorem OverflowAt.nodeAt_eq_none {crc : Crc} {d : Disk}
    (h : OverflowAt crc d pageId page) : nodeAt d pageId = none := by
  rcases h.reads with ⟨bytes, whole, hbytes, hvalid, -⟩
  apply nodeAt_eq_none_of_magic hbytes
  by_contra hne
  simp only [Pager.validatePageBuffer, if_pos hne] at hvalid
  cases hvalid

theorem nodeAt_allocate (crc : Crc) (d : Disk) : nodeAt (d.allocate crc) d.next = none := by
  have hpage : (d.allocate crc).pages d.next = some (Disk.freshPage crc d.next) :=
    Disk.write_pages_self ..
  apply nodeAt_eq_none_of_magic hpage
  show (PageHeader.read (Page.toBytes _)).magic = pageMagic
  rw [Page.toBytes, PageHeader.read_toBytes_append]
  rfl

/-- The bytes `write_overflow_page` writes. -/
def overflowBytes (crc : Crc) (pageId : PageId) (page : OverflowPage) : Bytes :=
  let header := { PageHeader.new pageId .overflow with
    payloadLen := UInt32.ofNat page.toBytes.length }
  (Page.recalculateChecksums crc ⟨header, page.toBytes⟩).toBytes

theorem length_payload (h : page.validate = .ok ()) : page.toBytes.length ≤ maxPayloadSize := by
  have hdata := ((OverflowPage.validate_eq_ok_iff page).mp h).2
  rw [OverflowPage.length_toBytes]
  simp only [overflowDataSize, maxPayloadSize, pageSize, Northstar.headerSize] at hdata ⊢
  omega

theorem updatePayload_overflow (crc : Crc) (pageId : PageId) (h : page.validate = .ok ()) :
    (Page.new pageId .overflow).updatePayload crc page.toBytes =
      .ok (Page.recalculateChecksums crc ⟨{ PageHeader.new pageId .overflow with
        payloadLen := UInt32.ofNat page.toBytes.length }, page.toBytes⟩) := by
  rw [Page.updatePayload, if_neg (not_lt.mpr (length_payload h))]
  rfl

theorem fromBytes_overflowBytes (crc : Crc) (pageId : PageId) (h : page.validate = .ok ()) :
    Page.fromBytes crc (overflowBytes crc pageId page) = .ok (Page.recalculateChecksums crc
      ⟨{ PageHeader.new pageId .overflow with payloadLen := UInt32.ofNat page.toBytes.length },
        page.toBytes⟩) :=
  Page.fromBytes_toBytes_recalculated crc _ rfl rfl rfl (length_payload h) rfl

theorem validate_overflowBytes (crc : Crc) (pageId : PageId) (h : page.validate = .ok ()) :
    Pager.validatePageBuffer crc pageId (overflowBytes crc pageId page) = .ok () := by
  let whole := Page.recalculateChecksums crc
    ⟨{ PageHeader.new pageId .overflow with payloadLen := UInt32.ofNat page.toBytes.length },
      page.toBytes⟩
  have hread : PageHeader.read (overflowBytes crc pageId page) = whole.header :=
    PageHeader.read_toBytes_append _ _
  have hlen : (UInt32.ofNat page.toBytes.length).toNat = page.toBytes.length :=
    UInt32.toNat_ofNat_of_lt' (lt_of_le_of_lt (length_payload h) (by decide))
  have hvalid : whole.header.validate crc = .ok () := by
    apply (PageHeader.validate_eq_ok_iff _ _).mpr
    exact ⟨rfl, rfl, rfl, hlen.trans_le (length_payload h), rfl⟩
  have hmagic : ¬ whole.header.magic ≠ pageMagic := fun hne => hne rfl
  have hid : ¬ whole.header.pageId ≠ pageId := fun hne => hne rfl
  simp only [Pager.validatePageBuffer, hread, if_neg hmagic, if_neg hid, hvalid]

theorem overflowAt_write (crc : Crc) (d : Disk) (pageId : PageId) (h : page.validate = .ok ()) :
    OverflowAt crc (d.write pageId (overflowBytes crc pageId page)) pageId page :=
  ⟨_, _, Disk.write_pages_self .., validate_overflowBytes crc pageId h,
    fromBytes_overflowBytes crc pageId h, rfl, OverflowPage.fromBytes_toBytes h⟩

section calls

variable {env : Env} {pager : Pager} {d : Disk} {m : MetaState}

theorem run_readOverflowPage (h : Shows env pager d m)
    (howns : d.Owns pageId) (hat : OverflowAt env.crc d pageId page) :
    ∃ pager', (Pager.readOverflowPage env pageId).run pager = .ok page pager' ∧
      Shows env pager' d m := by
  rcases hat.reads with ⟨bytes, whole, hbytes, hvalid, hwhole, htype, hpage⟩
  rcases h.run_readThrough _ howns hbytes hvalid with ⟨pager', hread, hshows⟩
  refine ⟨pager', ?_, hshows⟩
  unfold Pager.readOverflowPage Pager.readPageCached
  rw [run_bind_of_ok hread, run_bind_of_ok (run_liftErr_of_ok hwhole pager'),
    if_neg (fun hne => hne htype)]
  exact run_liftErr_of_ok hpage pager'

theorem run_writeOverflowPage (h : Shows env pager d m)
    (howns : d.Owns pageId) (hvalid : page.validate = .ok ()) :
    ∃ pager', (Pager.writeOverflowPage env pageId page).run pager = .ok () pager' ∧
      Shows env pager' (d.write pageId (overflowBytes env.crc pageId page)) m := by
  have hlen : (overflowBytes env.crc pageId page).length = pageSize := Page.length_toBytes _
  rcases h.run_writePage howns hlen (validate_overflowBytes env.crc pageId hvalid)
    with ⟨pager', hwrite, hshows⟩
  refine ⟨pager', ?_, hshows⟩
  have hupdate := updatePayload_overflow env.crc pageId hvalid
  unfold Pager.writeOverflowPage
  rw [run_bind_of_ok (run_liftErr_of_ok hvalid pager),
    run_bind_of_ok (run_liftErr_of_ok hupdate pager)]
  exact hwrite

end calls

end Northstar.Btree
