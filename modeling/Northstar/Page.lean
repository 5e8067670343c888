import Northstar.Checksum
import Northstar.Error
import Northstar.Lib.Except

/-!
# Page — the 16 KiB page and its header

`page.rs`: a `repr(C)` header of 36 bytes of fields and 4 bytes of padding, the payload behind it,
and zeros up to the page size.
-/

namespace Northstar

open Bytes

abbrev PageId := UInt64

namespace PageId

def metaA : PageId := 0
def metaB : PageId := 1
def firstData : PageId := 2

def isMetaPage (id : PageId) : Bool := id == 0 || id == 1
def isDataPage (id : PageId) : Bool := id ≥ 2

end PageId

def pageMagic : UInt32 := 0x4E534442
def formatVersion : UInt16 := 0
def pageSize : Nat := 16384
def headerSize : Nat := 40
def maxPayloadSize : Nat := pageSize - headerSize

inductive PageType where
  | metaPage
  | btreeInternal
  | btreeLeaf
  | freelist
  | logSegment
  | overflow
  deriving Repr, DecidableEq

def PageType.fromU8 : UInt8 → Option PageType
  | 0 => some .metaPage
  | 1 => some .btreeInternal
  | 2 => some .btreeLeaf
  | 3 => some .freelist
  | 4 => some .logSegment
  | 5 => some .overflow
  | _ => none

def PageType.toU8 : PageType → UInt8
  | .metaPage => 0
  | .btreeInternal => 1
  | .btreeLeaf => 2
  | .freelist => 3
  | .logSegment => 4
  | .overflow => 5

/-- `{:?}`. -/
def PageType.debug : PageType → String
  | .metaPage => "Meta"
  | .btreeInternal => "BtreeInternal"
  | .btreeLeaf => "BtreeLeaf"
  | .freelist => "Freelist"
  | .logSegment => "LogSegment"
  | .overflow => "Overflow"

structure PageHeader where
  magic : UInt32
  formatVersion : UInt16
  pageType : UInt8
  flags : UInt8
  pageId : UInt64
  txnId : UInt64
  payloadLen : UInt32
  headerCrc32c : UInt32
  pageCrc32c : UInt32
  deriving Repr, DecidableEq

namespace PageHeader

def new (pageId : PageId) (pageType : PageType) : PageHeader where
  magic := pageMagic
  formatVersion := Northstar.formatVersion
  pageType := pageType.toU8
  flags := 0
  pageId := pageId
  txnId := 0
  payloadLen := 0
  headerCrc32c := 0
  pageCrc32c := 0

/-- The 28 bytes in front of the two checksum fields. -/
def checkedBytes (h : PageHeader) : Bytes :=
  u32 h.magic ++ (u16 h.formatVersion ++ (h.pageType :: h.flags :: (u64 h.pageId ++ (u64 h.txnId ++
    u32 h.payloadLen))))

-- `write_unaligned` of the whole struct: the four bytes of padding are taken to be zero.
def toBytes (h : PageHeader) : Bytes :=
  h.checkedBytes ++ (u32 h.headerCrc32c ++ (u32 h.pageCrc32c ++ le 4 0))

/-- `read_unaligned`: no check, the caller has made sure that there are 40 bytes. -/
def read (data : Bytes) : PageHeader where
  magic := readU32 (window data 0 4)
  formatVersion := readU16 (window data 4 2)
  pageType := UInt8.ofNat (toNat (window data 6 1))
  flags := UInt8.ofNat (toNat (window data 7 1))
  pageId := readU64 (window data 8 8)
  txnId := readU64 (window data 16 8)
  payloadLen := readU32 (window data 24 4)
  headerCrc32c := readU32 (window data 28 4)
  pageCrc32c := readU32 (window data 32 4)

def getPageType (h : PageHeader) : Option PageType := PageType.fromU8 h.pageType

def calculateHeaderChecksum (crc : Crc) (h : PageHeader) : UInt32 := checksum crc h.checkedBytes

def updateChecksum (crc : Crc) (h : PageHeader) : PageHeader :=
  { h with headerCrc32c := h.calculateHeaderChecksum crc }

def validate (crc : Crc) (h : PageHeader) : Except Error Unit :=
  if h.magic ≠ pageMagic then
    .error (.validation (.invalidMagic pageMagic h.magic))
  else if h.formatVersion ≠ Northstar.formatVersion then
    .error (.validation (.unsupportedVersion h.formatVersion 0 0))
  else if (PageType.fromU8 h.pageType).isNone then
    .error (.validation (.invalidPageType h.pageType))
  else if h.payloadLen.toNat > maxPayloadSize then
    .error (.validation (.payloadLengthInvalid h.payloadLen (UInt32.ofNat maxPayloadSize)))
  else if h.headerCrc32c ≠ h.calculateHeaderChecksum crc then
    .error (.validation (.headerChecksumMismatch h.headerCrc32c (h.calculateHeaderChecksum crc)))
  else .ok ()

@[simp] theorem length_checkedBytes (h : PageHeader) : h.checkedBytes.length = 28 := by
  simp [checkedBytes]

@[simp] theorem length_toBytes (h : PageHeader) : h.toBytes.length = headerSize := by
  simp [toBytes, headerSize]

theorem read_toBytes_append (h : PageHeader) (rest : Bytes) : read (h.toBytes ++ rest) = h := by
  have hbyte (b : UInt8) : UInt8.ofNat (toNat [b]) = b := by simp [Bytes.toNat]
  have hpair : h.pageType :: h.flags :: (u64 h.pageId ++ (u64 h.txnId ++ u32 h.payloadLen)) =
      [h.pageType] ++ ([h.flags] ++ (u64 h.pageId ++ (u64 h.txnId ++ u32 h.payloadLen))) := rfl
  simp (disch := simp) only [read, toBytes, checkedBytes, hpair, List.append_assoc,
    window_append_right, window_head, length_u16, length_u32, length_u64, List.length_singleton,
    Nat.reduceSub, readU16_u16, readU32_u32, readU64_u64, hbyte]

theorem validate_eq_ok_iff (crc : Crc) (h : PageHeader) : h.validate crc = .ok () ↔
      h.magic = pageMagic ∧ h.formatVersion = Northstar.formatVersion ∧
        (PageType.fromU8 h.pageType).isSome ∧ h.payloadLen.toNat ≤ maxPayloadSize ∧
          h.headerCrc32c = h.calculateHeaderChecksum crc := by
  simp only [validate, Except.guard_eq_ok_iff, ne_eq, Decidable.not_not, gt_iff_lt, Nat.not_lt,
    Option.isNone_iff_eq_none, ← Option.isSome_iff_ne_none, and_true]

end PageHeader

structure Page where
  header : PageHeader
  payload : Bytes
  deriving Repr, DecidableEq

namespace Page

def new (pageId : PageId) (pageType : PageType) : Page where
  header := PageHeader.new pageId pageType
  payload := []

def fromBytes (crc : Crc) (bytes : Bytes) : Except Error Page := do
  if bytes.length ≠ pageSize then
    .error (.validation (.invalidHeaderSize pageSize bytes.length))
  else
    let header := PageHeader.read bytes
    header.validate crc
    let payloadEnd := headerSize + header.payloadLen.toNat
    if payloadEnd > bytes.length then
      .error (.validation (.payloadLengthInvalid header.payloadLen (UInt32.ofNat maxPayloadSize)))
    else
      let payload := window bytes headerSize header.payloadLen.toNat
      let calculated := checksum crc payload
      if calculated ≠ header.pageCrc32c then
        .error (.validation (.checksumMismatch header.pageCrc32c calculated))
      else .ok { header, payload }

def toBytes (page : Page) : Bytes :=
  let body := page.payload.take maxPayloadSize
  page.header.toBytes ++ (body ++ List.replicate (maxPayloadSize - body.length) 0)

def pageId (page : Page) : PageId := page.header.pageId

def pageType (page : Page) : Option PageType := page.header.getPageType

def recalculateChecksums (crc : Crc) (page : Page) : Page :=
  let header := { page.header with pageCrc32c := checksum crc page.payload }
  { page with header := header.updateChecksum crc }

def updatePayload (crc : Crc) (page : Page) (payload : Bytes) : Except Error Page :=
  if payload.length > maxPayloadSize then
    .error (.validation (.payloadLengthInvalid (UInt32.ofNat payload.length)
      (UInt32.ofNat maxPayloadSize)))
  else
    .ok ({ header := { page.header with payloadLen := UInt32.ofNat payload.length },
           payload := payload : Page }.recalculateChecksums crc)

@[simp] theorem length_toBytes (page : Page) : page.toBytes.length = pageSize := by
  simp only [toBytes, List.length_append, PageHeader.length_toBytes, List.length_take,
    List.length_replicate, headerSize, maxPayloadSize, pageSize]
  omega

theorem window_toBytes_payload (page : Page) (hlen : page.payload.length ≤ maxPayloadSize) :
    window page.toBytes headerSize page.payload.length = page.payload := by
  have hbody : page.payload.take maxPayloadSize = page.payload := List.take_of_length_le hlen
  rw [toBytes, hbody]
  exact window_append_middle (PageHeader.length_toBytes _) rfl

theorem fromBytes_toBytes_recalculated (crc : Crc) (page : Page)
    (hmagic : page.header.magic = pageMagic)
    (hversion : page.header.formatVersion = formatVersion)
    (htype : (PageType.fromU8 page.header.pageType).isSome)
    (hpayload : page.payload.length ≤ maxPayloadSize)
    (hlen : page.header.payloadLen = UInt32.ofNat page.payload.length) :
    fromBytes crc (page.recalculateChecksums crc).toBytes =
      .ok (page.recalculateChecksums crc) := by
  have hread : PageHeader.read (page.recalculateChecksums crc).toBytes =
      (page.recalculateChecksums crc).header := PageHeader.read_toBytes_append _ _
  have hnat : page.header.payloadLen.toNat = page.payload.length := by
    rw [hlen, UInt32.toNat_ofNat_of_lt' (lt_of_le_of_lt hpayload (by decide))]
  have hvalid : (page.recalculateChecksums crc).header.validate crc = .ok () :=
    (PageHeader.validate_eq_ok_iff _ _).mpr
      ⟨hmagic, hversion, htype, hnat.trans_le hpayload, rfl⟩
  have hplen : (page.recalculateChecksums crc).header.payloadLen.toNat =
      (page.recalculateChecksums crc).payload.length := hnat
  have hfits : ¬ headerSize + (page.recalculateChecksums crc).payload.length > pageSize := by
    have hsame : (page.recalculateChecksums crc).payload.length = page.payload.length := rfl
    rw [hsame]
    simp only [headerSize, pageSize, maxPayloadSize] at hpayload ⊢
    omega
  rw [fromBytes, if_neg (fun h => h (length_toBytes _))]
  simp only [hread, hvalid, Except.ok_bind, hplen, length_toBytes, if_neg hfits]
  rw [window_toBytes_payload _ (show (page.recalculateChecksums crc).payload.length ≤ _ from
    hpayload), if_neg (fun h => h rfl)]

end Page

end Northstar
