import Northstar.Zig.Txn
import Mathlib.Data.List.GetD

/-!
# Page — pages and their checksums

`pager.zig`.  A page is a header of 40 bytes and a body.  The header is copied as a struct, so it is a
record here; its bytes matter for the checksums only, and stand in the order of the compiler: fields
with the larger alignment first.  Numbers are naturals, cut to their width where they become bytes.  An
index out of bounds, an integer overflow and a `@memcpy` between overlapping ranges are a panic in a
safe build; here they are the error `panic`.
-/

namespace Northstar.Zig

open Bytes

inductive PagerError where
  | panic
  | invalidMagic
  | unsupportedFormat
  | invalidHeaderChecksum
  | invalidPayloadLength
  | invalidPageChecksum
  | pageOutOfBounds
  | pageIdMismatch
  | payloadTooLarge
  | writeBeyondFile
  | invalidPageType
  | invalidMetaId
  | invalidBtreeMagic
  | invalidLeafLevel
  | tooManyKeys
  | slotArrayOutOfBounds
  | slotIndexOutOfBounds
  | invalidEntryOffset
  | invalidEntryFormat
  | entryExceedsPayload
  | keysNotSorted
  | entryTooShort
  | entryIncomplete
  | leafFull
  | childIndexOutOfBounds
  | childPageIdOutOfBounds
  | separatorIndexOutOfBounds
  | corruptSeparatorData
  | separatorNotFound
  | invalidInternalLevel
  | childPageIdsOutOfBounds
  | invalidChildPageId
  | separatorExceedsPayload
  | separatorsNotSorted
  | internalNodeFull
  | insufficientSpace
  | keyTooLong
  | valueTooLong
  | treeEmpty
  | corruptBtree
  | bufferTooSmall
  | snapshotNotFound
  | writeBusy
  | unexpectedPageId
  | invalidMetaSize
  | invalidMetaMagic
  | invalidMetaChecksum
  | fileTooSmall
  | corrupt
  | unsupportedPageSize
  | log (error : ZigError)
  -- a loop that has not ended yet
  | running
  deriving Repr, DecidableEq

/-- What `catch` sees of a result: neither a panic nor a loop that goes on is an error value. -/
def orElse {α : Type} (result : Except PagerError α) (alternative : α) : Except PagerError α :=
  match result with
  | .ok a => .ok a
  | .error .panic => .error .panic
  | .error .running => .error .running
  | .error _ => .ok alternative

/-- `data[start..stop]`. -/
def slice (data : Bytes) (start stop : Nat) : Except PagerError Bytes :=
  if start ≤ stop ∧ stop ≤ data.length then .ok (window data start (stop - start)) else .error .panic

/-- Writing `bytes` at `offset`. -/
def store (data : Bytes) (offset : Nat) (bytes : Bytes) : Except PagerError Bytes :=
  match writeAt data offset bytes with
  | some data => .ok data
  | none => .error .panic

/-- `@memcpy` inside one buffer. -/
def memcpy (data : Bytes) (dest src len : Nat) : Except PagerError Bytes :=
  if len ≠ 0 ∧ dest < src + len ∧ src < dest + len then .error .panic
  else do
    let bytes ← slice data src (src + len)
    store data dest bytes

/-- `@intCast` to an unsigned integer of the given width. -/
def intCast (bits n : Nat) : Except PagerError Nat := if n < 2 ^ bits then .ok n else .error .panic

/-- `a - b` on unsigned integers. -/
def checkedSub (a b : Nat) : Except PagerError Nat := if b ≤ a then .ok (a - b) else .error .panic

/-- An entry of `crc32c_table`.  The polynomial is not reflected, although the algorithm is. -/
def crc32cEntry (index : UInt8) : UInt32 :=
  Nat.repeat (fun crc => if crc &&& 1 ≠ 0 then (crc >>> 1) ^^^ 0x1EDC6F41 else crc >>> 1) 8
    index.toUInt32

def crc32c (data : Bytes) : UInt32 :=
  (data.foldl (fun (crc : UInt32) byte => (crc >>> 8) ^^^ crc32cEntry (crc.toUInt8 ^^^ byte))
    0xFFFFFFFF) ^^^ 0xFFFFFFFF

def defaultPageSize : Nat := 16384

/-- `other` is a byte that is none of the page types. -/
inductive PageType where
  | metaPage
  | btreeInternal
  | btreeLeaf
  | freelist
  | logSegment
  | other (tag : UInt8)
  deriving Repr, DecidableEq

def PageType.tag : PageType → UInt8
  | .metaPage => 0
  | .btreeInternal => 1
  | .btreeLeaf => 2
  | .freelist => 3
  | .logSegment => 4
  | .other tag => tag

structure PageHeader where
  magic : UInt32 := 0x4E534442
  formatVersion : UInt16 := 0
  pageType : PageType
  flags : UInt8 := 0
  pageId : Nat
  txnId : Nat
  payloadLen : Nat
  headerCrc32c : UInt32
  pageCrc32c : UInt32
  deriving Repr, DecidableEq

namespace PageHeader

/-- `@sizeOf`: 36 bytes of fields, rounded up to the alignment of a `u64`. -/
def size : Nat := 40

/-- The fields in front of `header_crc32c`. -/
def checkedBytes (h : PageHeader) : Bytes :=
  le 8 h.pageId ++ le 8 h.txnId ++ u32 h.magic ++ le 4 h.payloadLen

/-- The header with `page_crc32c` zeroed. -/
def bytes (h : PageHeader) : Bytes :=
  h.checkedBytes ++ u32 h.headerCrc32c ++ u32 0 ++ u16 h.formatVersion ++ [h.pageType.tag, h.flags] ++
    u32 0

def calculateHeaderChecksum (h : PageHeader) : UInt32 := crc32c h.checkedBytes

def decode (h : PageHeader) : Except PagerError PageHeader :=
  if h.magic ≠ 0x4E534442 then .error .invalidMagic
  else if h.formatVersion ≠ 0 then .error .unsupportedFormat
  else .ok h

end PageHeader

theorem decode_eq_ok {h h' : PageHeader} (hdecode : h.decode = .ok h') :
    h' = h ∧ h.magic = 0x4E534442 ∧ h.formatVersion = 0 := by
  unfold PageHeader.decode at hdecode
  rw [Except.guard_eq_ok_iff, Except.guard_eq_ok_iff] at hdecode
  exact ⟨(Except.ok.inj hdecode.2.2).symm, not_not.mp hdecode.1, not_not.mp hdecode.2.1⟩

structure Page where
  header : PageHeader
  body : Bytes
  deriving Repr, DecidableEq

/-- Pages of more than 4096 bytes are summed up. -/
def calculatePageChecksum (header : PageHeader) (payload : Bytes) : UInt32 :=
  let pageBytes := header.bytes ++ payload
  if pageBytes.length > 4096 then pageBytes.foldl (fun crc byte => crc + byte.toUInt32) 0
  else crc32c pageBytes

namespace Page

def bodySize : Nat := defaultPageSize - PageHeader.size

/-- `page_buffer[payload_start..payload_end]`. -/
def payload (p : Page) : Bytes := p.body.take p.header.payloadLen

/-- Both checksums, as they are recalculated after every change. -/
def rehash (p : Page) : Page :=
  let header := { p.header with headerCrc32c := p.header.calculateHeaderChecksum }
  { p with header := { header with pageCrc32c := calculatePageChecksum header p.payload } }

@[simp] theorem rehash_body (p : Page) : p.rehash.body = p.body := rfl
@[simp] theorem rehash_magic (p : Page) : p.rehash.header.magic = p.header.magic := rfl
@[simp] theorem rehash_formatVersion (p : Page) :
    p.rehash.header.formatVersion = p.header.formatVersion := rfl
@[simp] theorem rehash_pageType (p : Page) : p.rehash.header.pageType = p.header.pageType := rfl
@[simp] theorem rehash_pageId (p : Page) : p.rehash.header.pageId = p.header.pageId := rfl
@[simp] theorem rehash_payloadLen (p : Page) : p.rehash.header.payloadLen = p.header.payloadLen := rfl

/-- The page of zeros that is left where a file has been extended past its end. -/
def hole : Page :=
  ⟨{ magic := 0, pageType := .metaPage, pageId := 0, txnId := 0, payloadLen := 0, headerCrc32c := 0,
     pageCrc32c := 0 }, List.replicate bodySize 0⟩

end Page

def validatePage (p : Page) : Except PagerError PageHeader := do
  let header ← p.header.decode
  if header.headerCrc32c ≠ header.calculateHeaderChecksum then .error .invalidHeaderChecksum
  else if header.payloadLen > p.body.length then .error .invalidPayloadLength
  else if calculatePageChecksum header p.payload ≠ header.pageCrc32c then .error .invalidPageChecksum
  else return header

theorem validatePage_eq_ok {p : Page} {header : PageHeader} (h : validatePage p = .ok header) :
    header = p.header ∧ header.payloadLen ≤ p.body.length := by
  unfold validatePage at h
  rcases Except.bind_eq_ok_iff.mp h with ⟨decoded, hdecode, h⟩
  have hheader := (decode_eq_ok hdecode).1
  split at h
  · cases h
  · split at h
    · cases h
    next hlen =>
      split at h
      · cases h
      · cases h
        exact ⟨hheader, Nat.not_lt.mp hlen⟩

theorem calculatePageChecksum_pageCrc (h : PageHeader) (crc : UInt32) (payload : Bytes) :
    calculatePageChecksum { h with pageCrc32c := crc } payload = calculatePageChecksum h payload := by
  have hbytes : { h with pageCrc32c := crc }.bytes = h.bytes := rfl
  unfold calculatePageChecksum
  rw [hbytes]

theorem validatePage_rehash {p : Page} (hmagic : p.header.magic = 0x4E534442)
    (hversion : p.header.formatVersion = 0) (hlen : p.header.payloadLen ≤ p.body.length) :
    validatePage p.rehash = .ok p.rehash.header := by
  have hdecode : p.rehash.header.decode = .ok p.rehash.header := by
    show (if p.header.magic ≠ _ then _ else if p.header.formatVersion ≠ _ then _ else _) = _
    rw [if_neg (not_not.mpr hmagic), if_neg (not_not.mpr hversion)]
  have hheader : p.rehash.header.headerCrc32c = p.rehash.header.calculateHeaderChecksum := rfl
  have hpage : calculatePageChecksum p.rehash.header p.rehash.payload = p.rehash.header.pageCrc32c := by
    have hpayload : p.rehash.payload = p.payload := rfl
    rw [hpayload]
    unfold Page.rehash
    dsimp only
    exact calculatePageChecksum_pageCrc
      { p.header with headerCrc32c := p.header.calculateHeaderChecksum } _ p.payload
  have hlen' : ¬ p.rehash.header.payloadLen > p.rehash.body.length := Nat.not_lt.mpr hlen
  unfold validatePage
  rw [hdecode, Except.ok_bind, if_neg (not_not.mpr hheader), if_neg hlen', if_neg (not_not.mpr hpage)]
  rfl

def metaAPageId : Nat := 0
def metaBPageId : Nat := 1

structure MetaPayload where
  metaMagic : UInt32 := 0x4D455441
  formatVersion : UInt16 := 0
  pageSize : Nat := defaultPageSize
  committedTxnId : Nat
  rootPageId : Nat
  freelistHeadPageId : Nat
  logTailLsn : Nat
  metaCrc32c : UInt32
  deriving Repr, DecidableEq

namespace MetaPayload

/-- `@sizeOf`: 44 bytes of fields, rounded up to the alignment of a `u64`. -/
def size : Nat := 48

/-- The fields in front of `meta_crc32c`. -/
def checkedBytes (m : MetaPayload) : Bytes :=
  le 8 m.committedTxnId ++ le 8 m.rootPageId ++ le 8 m.freelistHeadPageId ++ le 8 m.logTailLsn ++
    u32 m.metaMagic

def calculateChecksum (m : MetaPayload) : UInt32 := crc32c m.checkedBytes

def encode (m : MetaPayload) : Bytes :=
  m.checkedBytes ++ u32 m.metaCrc32c ++ u16 m.formatVersion ++ le 2 m.pageSize ++ u32 0

end MetaPayload

structure MetaState where
  pageId : Nat
  header : PageHeader
  payload : MetaPayload
  deriving Repr, DecidableEq

/-- `encodeMetaPage`; what `dest` holds behind the payload is not part of any checksum, and is zeros
here. -/
def encodeMetaPage (pageId : Nat) (m : MetaPayload) : Page :=
  let payload := { m with metaCrc32c := m.calculateChecksum }.encode
  Page.rehash
    ⟨{ pageType := .metaPage, pageId, txnId := m.committedTxnId, payloadLen := MetaPayload.size,
       headerCrc32c := 0, pageCrc32c := 0 },
     payload ++ List.replicate (Page.bodySize - MetaPayload.size) 0⟩

@[simp] theorem MetaPayload.length_encode (m : MetaPayload) : m.encode.length = MetaPayload.size := by
  unfold encode checkedBytes
  simp only [List.length_append, length_le, length_u32, length_u16]
  rfl

theorem validatePage_encodeMetaPage (pageId : Nat) (m : MetaPayload) :
    validatePage (encodeMetaPage pageId m) = .ok (encodeMetaPage pageId m).header ∧
      (encodeMetaPage pageId m).header.pageId = pageId := by
  unfold encodeMetaPage
  dsimp only
  generalize hpayload : MetaPayload.encode _ = payload
  have hlength : payload.length = MetaPayload.size := by
    rw [← hpayload]
    exact MetaPayload.length_encode _
  generalize List.replicate (Page.bodySize - MetaPayload.size) (0 : UInt8) = padding
  refine ⟨validatePage_rehash rfl rfl ?_, Page.rehash_pageId _⟩
  show MetaPayload.size ≤ (payload ++ padding).length
  rw [List.length_append, hlength]
  exact Nat.le_add_right _ _

def getOppositeMetaId (pageId : Nat) : Except PagerError Nat :=
  if pageId = metaAPageId then .ok metaBPageId
  else if pageId = metaBPageId then .ok metaAPageId
  else .error .invalidMetaId

/-- `createPage`. -/
def createPage (pageId : Nat) (pageType : PageType) (txnId : Nat) (payload : Bytes) :
    Except PagerError Page :=
  if payload.length > Page.bodySize then .error .payloadTooLarge
  else .ok (Page.rehash
    ⟨{ pageType, pageId, txnId, payloadLen := payload.length, headerCrc32c := 0, pageCrc32c := 0 },
     payload ++ List.replicate (Page.bodySize - payload.length) 0⟩)

end Northstar.Zig

/-! ## 5. A page as the bytes of its buffer

The header is a struct in front of the body: the fields in the order of their alignment, then padding.
-/

namespace Northstar.Zig

open Bytes

def PageType.ofTag (tag : UInt8) : PageType :=
  if tag = 0 then .metaPage
  else if tag = 1 then .btreeInternal
  else if tag = 2 then .btreeLeaf
  else if tag = 3 then .freelist
  else if tag = 4 then .logSegment
  else .other tag

namespace PageHeader

/-- The struct as it lies in memory, the padding included. -/
def encode (h : PageHeader) : Bytes :=
  h.checkedBytes ++ u32 h.headerCrc32c ++ u32 h.pageCrc32c ++ u16 h.formatVersion ++
    [h.pageType.tag, h.flags] ++ u32 0

def ofBytes (b : Bytes) : PageHeader where
  magic := readU32 (window b 16 4)
  formatVersion := readU16 (window b 32 2)
  pageType := .ofTag (b.getD 34 0)
  flags := b.getD 35 0
  pageId := toNat (window b 0 8)
  txnId := toNat (window b 8 8)
  payloadLen := toNat (window b 20 4)
  headerCrc32c := readU32 (window b 24 4)
  pageCrc32c := readU32 (window b 28 4)

/-- A header whose fields have their widths. -/
structure Fits (h : PageHeader) : Prop where
  pageId : h.pageId < 2 ^ 64
  txnId : h.txnId < 2 ^ 64
  payloadLen : h.payloadLen < 2 ^ 32
  pageType : .ofTag h.pageType.tag = h.pageType

theorem length_encode (h : PageHeader) : h.encode.length = size := by
  unfold encode checkedBytes
  simp only [List.length_append, length_le, length_u32, length_u16, List.length_cons, List.length_nil]
  rfl

theorem ofBytes_encode {h : PageHeader} (hfits : h.Fits) : ofBytes h.encode = h := by
  have htag : h.encode.getD 34 0 = h.pageType.tag ∧ h.encode.getD 35 0 = h.flags := by
    have hsplit : h.encode = (h.checkedBytes ++ u32 h.headerCrc32c ++ u32 h.pageCrc32c ++
        u16 h.formatVersion) ++ ([h.pageType.tag, h.flags] ++ u32 0) := by
      unfold encode
      simp only [List.append_assoc]
    have hfront : (h.checkedBytes ++ u32 h.headerCrc32c ++ u32 h.pageCrc32c ++
        u16 h.formatVersion).length = 34 := by
      unfold checkedBytes
      simp only [List.length_append, length_le, length_u32, length_u16]
    rw [hsplit]
    constructor
    · rw [List.getD_append_right _ _ _ _ (by omega), hfront]
      rfl
    · rw [List.getD_append_right _ _ _ _ (by omega), hfront]
      rfl
  unfold ofBytes
  rw [htag.1, htag.2, hfits.pageType]
  unfold encode checkedBytes
  simp only [List.append_assoc]
  simp (disch := simp) only [window_append_right, window_head, length_u32, length_le, Nat.reduceSub,
    readU16_u16, readU32_u32]
  rw [toNat_le_of_lt hfits.pageId, toNat_le_of_lt hfits.txnId, toNat_le_of_lt hfits.payloadLen]

end PageHeader

namespace Page

def ofBytes (b : Bytes) : Page := ⟨.ofBytes (b.take PageHeader.size), b.drop PageHeader.size⟩

def bytes (p : Page) : Bytes := p.header.encode ++ p.body

def pagesOf (file : Bytes) : List Page :=
  (List.range (file.length / defaultPageSize)).map fun pageId =>
    .ofBytes (window file (pageId * defaultPageSize) defaultPageSize)

theorem length_body_pagesOf (file : Bytes) : ∀ p ∈ pagesOf file, p.body.length = bodySize := by
  intro p hp
  rcases List.mem_map.mp hp with ⟨pageId, hpageId, rfl⟩
  have hlt := List.mem_range.mp hpageId
  have hle : pageId * defaultPageSize + defaultPageSize ≤ file.length := by
    calc pageId * defaultPageSize + defaultPageSize
        = (pageId + 1) * defaultPageSize := (Nat.succ_mul ..).symm
      _ ≤ file.length / defaultPageSize * defaultPageSize := Nat.mul_le_mul_right _ hlt
      _ ≤ file.length := Nat.div_mul_le_self ..
  show (List.drop _ _).length = _
  rw [List.length_drop, length_window_of_le hle]
  rfl

theorem ofBytes_bytes {p : Page} (hfits : p.header.Fits) : ofBytes p.bytes = p := by
  unfold ofBytes bytes
  rw [List.take_left' (PageHeader.length_encode _), List.drop_left' (PageHeader.length_encode _),
    PageHeader.ofBytes_encode hfits]

theorem length_bytes {p : Page} (hbody : p.body.length = bodySize) : p.bytes.length = defaultPageSize := by
  unfold bytes
  rw [List.length_append, PageHeader.length_encode, hbody]
  rfl

theorem length_file {pages : List Page} (hbody : ∀ p ∈ pages, p.body.length = bodySize) :
    (pages.flatMap bytes).length = pages.length * defaultPageSize := by
  induction pages with
  | nil => rw [List.flatMap_nil, List.length_nil, List.length_nil, Nat.zero_mul]
  | cons p pages ih =>
    rw [List.flatMap_cons, List.length_append, length_bytes (hbody p (List.mem_cons_self ..)),
      ih fun p' hp' => hbody p' (List.mem_cons_of_mem _ hp'), List.length_cons, Nat.succ_mul, Nat.add_comm]

theorem pagesOf_flatMap {pages : List Page} (hfits : ∀ p ∈ pages, p.header.Fits)
    (hbody : ∀ p ∈ pages, p.body.length = bodySize) : pagesOf (pages.flatMap bytes) = pages := by
  have hcount : (pages.flatMap bytes).length / defaultPageSize = pages.length := by
    rw [length_file hbody]
    exact Nat.mul_div_cancel _ (by decide)
  apply List.ext_getElem?
  intro pageId
  unfold pagesOf
  rw [hcount, List.getElem?_map]
  by_cases hin : pageId < pages.length
  · rw [List.getElem?_range hin, List.getElem?_eq_getElem hin]
    have hpage : pages[pageId] ∈ pages := List.getElem_mem hin
    have hsplit : pages.flatMap bytes =
        (pages.take pageId).flatMap bytes ++ (pages[pageId].bytes ++ (pages.drop (pageId + 1)).flatMap bytes) := by
      conv_lhs => rw [← List.take_append_drop pageId pages, List.drop_eq_getElem_cons hin]
      rw [List.flatMap_append, List.flatMap_cons]
    have hfront : ((pages.take pageId).flatMap bytes).length = pageId * defaultPageSize := by
      rw [length_file fun p hp => hbody p (List.mem_of_mem_take hp), List.length_take_of_le (Nat.le_of_lt hin)]
    show some (ofBytes _) = _
    rw [hsplit, window_append_middle hfront (length_bytes (hbody _ hpage)), ofBytes_bytes (hfits _ hpage)]
  · rw [List.getElem?_eq_none (by rw [List.length_range]; omega), List.getElem?_eq_none (by omega)]
    rfl

end Page

end Northstar.Zig
