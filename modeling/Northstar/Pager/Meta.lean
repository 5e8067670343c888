import Northstar.Page

/-!
# Meta — the payload of the two meta pages

`pager/meta.rs`: the 48-byte payload, the state kept in memory, and the choice between the two
copies when a file is opened.
-/

namespace Northstar

open Bytes

def metaMagic : UInt32 := 0x4D455441
def metaPayloadSize : Nat := 48

structure MetaPayload where
  metaMagic : UInt32
  formatVersion : UInt16
  pageSize : UInt16
  committedTxnId : UInt64
  rootPageId : UInt64
  freelistHeadPageId : UInt64
  logTailLsn : UInt64
  metaCrc32c : UInt32
  deriving Repr, DecidableEq

namespace MetaPayload

def new : MetaPayload where
  metaMagic := Northstar.metaMagic
  formatVersion := 0
  pageSize := UInt16.ofNat Northstar.pageSize
  committedTxnId := 0
  rootPageId := PageId.firstData
  freelistHeadPageId := 0
  logTailLsn := 0
  metaCrc32c := 0

def validate (m : MetaPayload) : Except Error Unit :=
  if m.metaMagic ≠ Northstar.metaMagic then
    .error (.validation (.invalidMagic Northstar.metaMagic m.metaMagic))
  else if m.formatVersion ≠ 0 then
    .error (.validation (.unsupportedVersion m.formatVersion 0 0))
  -- `is_power_of_two` of a number that is not zero
  else if m.pageSize < 4096 ∨ m.pageSize &&& (m.pageSize - 1) ≠ 0 then
    .error (.validation (.generic ("Invalid page size: " ++ toString m.pageSize ++
      " (must be power of 2 and >= 4096)")))
  else .ok ()

-- The struct is 44 bytes of fields and 4 of padding, again taken to be zero.
def toBytes (m : MetaPayload) : Bytes :=
  u32 m.metaMagic ++ (u16 m.formatVersion ++ (u16 m.pageSize ++ (u64 m.committedTxnId ++
    (u64 m.rootPageId ++ (u64 m.freelistHeadPageId ++ (u64 m.logTailLsn ++
      (u32 m.metaCrc32c ++ le 4 0)))))))

def read (data : Bytes) : MetaPayload where
  metaMagic := readU32 (window data 0 4)
  formatVersion := readU16 (window data 4 2)
  pageSize := readU16 (window data 6 2)
  committedTxnId := readU64 (window data 8 8)
  rootPageId := readU64 (window data 16 8)
  freelistHeadPageId := readU64 (window data 24 8)
  logTailLsn := readU64 (window data 32 8)
  metaCrc32c := readU32 (window data 40 4)

def fromBytes (data : Bytes) : Except Error MetaPayload := do
  if data.length < metaPayloadSize then
    .error (.validation (.invalidHeaderSize metaPayloadSize data.length))
  else
    let payload := read data
    payload.validate
    .ok payload

def calculateChecksum (crc : Crc) (m : MetaPayload) : UInt32 :=
  checksum crc { m with metaCrc32c := 0 }.toBytes

def updateChecksum (crc : Crc) (m : MetaPayload) : MetaPayload :=
  { m with metaCrc32c := m.calculateChecksum crc }

theorem validate_eq_ok_iff (m : MetaPayload) :
    m.validate = .ok () ↔ m.metaMagic = Northstar.metaMagic ∧ m.formatVersion = 0 ∧
      ¬ (m.pageSize < 4096 ∨ m.pageSize &&& (m.pageSize - 1) ≠ 0) := by
  simp only [validate, Except.guard_eq_ok_iff, ne_eq, Decidable.not_not, and_true]

@[simp] theorem length_toBytes (m : MetaPayload) : m.toBytes.length = metaPayloadSize := by
  simp [toBytes, metaPayloadSize]

theorem read_toBytes (m : MetaPayload) : read m.toBytes = m := by
  simp (disch := simp) only [read, toBytes, window_append_right, window_head, length_u16,
    length_u32, length_u64, Nat.reduceSub, readU16_u16, readU32_u32, readU64_u64]

theorem fromBytes_toBytes {m : MetaPayload} (h : m.validate = .ok ()) :
    fromBytes m.toBytes = .ok m := by
  rw [fromBytes, if_neg (by rw [length_toBytes]; omega)]
  simp only [read_toBytes, h, Except.ok_bind]

end MetaPayload

structure MetaState where
  pageId : PageId
  header : PageHeader
  payload : MetaPayload
  deriving Repr, DecidableEq

namespace MetaState

def new (crc : Crc) (pageId : PageId) : MetaState where
  pageId := pageId
  header := { PageHeader.new pageId .metaPage with
    payloadLen := UInt32.ofNat metaPayloadSize }.updateChecksum crc
  payload := MetaPayload.new.updateChecksum crc

-- Neither the page id nor the payload's own checksum is compared here.
def fromPage (page : Page) : Except Error MetaState := do
  if page.pageType ≠ some .metaPage then
    .error (.validation (.invalidPageType page.header.pageType))
  else
    let payload ← MetaPayload.fromBytes page.payload
    .ok { pageId := page.pageId, header := page.header, payload }

def toPage (crc : Crc) (m : MetaState) : Page :=
  let payload := m.payload.toBytes
  { header := { m.header with payloadLen := UInt32.ofNat payload.length },
    payload := payload : Page }.recalculateChecksums crc

/-- The part `update_committed_txn_id` and `update_root_page_id` share. -/
def setPayload (crc : Crc) (m : MetaState) (payload : MetaPayload) : MetaState :=
  { m with
    payload := payload.updateChecksum crc
    header := { m.header with payloadLen := UInt32.ofNat metaPayloadSize }.updateChecksum crc }

def updateCommittedTxnId (crc : Crc) (m : MetaState) (txnId : UInt64) : MetaState :=
  m.setPayload crc { m.payload with committedTxnId := txnId }

def updateRootPageId (crc : Crc) (m : MetaState) (pageId : PageId) : MetaState :=
  m.setPayload crc { m.payload with rootPageId := pageId }

def maxReasonableTxn : UInt64 := 1000000000000
def maxReasonablePage : UInt64 := 1000000000

def isTornWrite (m : MetaState) : Bool :=
  m.payload.committedTxnId > maxReasonableTxn || m.payload.rootPageId > maxReasonablePage

/-- What the two page codecs ask of a state for it to be read back. -/
structure WellFormed (m : MetaState) : Prop where
  magic : m.header.magic = pageMagic
  version : m.header.formatVersion = formatVersion
  pageType : m.header.pageType = PageType.metaPage.toU8
  payload : m.payload.validate = .ok ()

theorem wellFormed_new (crc : Crc) (pageId : PageId) : WellFormed (new crc pageId) := by
  have hsize : ¬ (UInt16.ofNat pageSize < 4096 ∨
      UInt16.ofNat pageSize &&& (UInt16.ofNat pageSize - 1) ≠ 0) := by decide
  exact ⟨rfl, rfl, rfl, (MetaPayload.validate_eq_ok_iff _).mpr ⟨rfl, rfl, hsize⟩⟩

variable {m : MetaState}

variable {crc : Crc}

theorem WellFormed.setPayload (h : WellFormed m)
    {payload : MetaPayload} (hvalid : payload.validate = .ok ()) :
    WellFormed (m.setPayload crc payload) :=
  ⟨h.magic, h.version, h.pageType, hvalid⟩

theorem WellFormed.updateCommittedTxnId (h : WellFormed m)
    (txnId : UInt64) : WellFormed (m.updateCommittedTxnId crc txnId) :=
  h.setPayload h.payload

theorem WellFormed.updateRootPageId (h : WellFormed m)
    (pageId : PageId) : WellFormed (m.updateRootPageId crc pageId) :=
  h.setPayload h.payload

theorem WellFormed.read_back (h : WellFormed m) (crc : Crc) :
    ∃ page read, Page.fromBytes crc (m.toPage crc).toBytes = .ok page ∧
      fromPage page = .ok read ∧ read.payload = m.payload ∧ read.WellFormed := by
  have hpage : Page.fromBytes crc (m.toPage crc).toBytes = .ok (m.toPage crc) := by
    apply Page.fromBytes_toBytes_recalculated
    · exact h.magic
    · exact h.version
    · show (PageType.fromU8 m.header.pageType).isSome
      rw [h.pageType]
      rfl
    · show m.payload.toBytes.length ≤ maxPayloadSize
      rw [MetaPayload.length_toBytes]
      decide
    · rfl
  have htype : (m.toPage crc).pageType = some .metaPage := by
    show PageType.fromU8 m.header.pageType = _
    rw [h.pageType]
    rfl
  have hpayload : MetaPayload.fromBytes (m.toPage crc).payload = .ok m.payload :=
    MetaPayload.fromBytes_toBytes h.payload
  refine ⟨m.toPage crc, ⟨(m.toPage crc).pageId, (m.toPage crc).header, m.payload⟩, hpage, ?_, rfl, ?_⟩
  · rw [fromPage, if_neg (fun hne => hne htype), hpayload]
    rfl
  · exact ⟨h.magic, h.version, h.pageType, h.payload⟩

end MetaState

def chooseBestMeta : Option MetaState → Option MetaState → Option MetaState
  | none, none => none
  | some a, none => some a
  | none, some b => some b
  | some a, some b =>
    if a.isTornWrite && b.isTornWrite then
      if a.payload.committedTxnId ≤ b.payload.committedTxnId then some a else some b
    else if a.isTornWrite then some b
    else if b.isTornWrite then some a
    else if a.payload.committedTxnId > b.payload.committedTxnId then some a
    else some b

theorem chooseBestMeta_none_left (b : Option MetaState) : chooseBestMeta none b = b := by
  cases b <;> rfl

theorem chooseBestMeta_none_right (a : Option MetaState) : chooseBestMeta a none = a := by
  cases a <;> rfl

theorem chooseBestMeta_some_some (a b : MetaState) :
    chooseBestMeta (some a) (some b) = some a ∨ chooseBestMeta (some a) (some b) = some b := by
  simp only [chooseBestMeta]
  split_ifs <;> simp

theorem chooseBestMeta_newer_first {a b : MetaState} (ha : a.isTornWrite = false)
    (hlt : b.payload.committedTxnId < a.payload.committedTxnId) :
    chooseBestMeta (some a) (some b) = some a := by
  simp only [chooseBestMeta, ha, Bool.false_and, Bool.false_eq_true, if_false, gt_iff_lt,
    if_pos hlt, ite_self]

end Northstar
