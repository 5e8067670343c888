import Northstar.Zig.Freelist

/-!
# Recovery — opening a database file

The file starts with two meta pages.  Opening it decodes both, passes over one that is not valid or looks
torn, and takes the newer of two; then the free list is rebuilt from the root that it names.
-/

namespace Northstar.Zig

open Bytes

namespace MetaPayload

def ofBytes (b : Bytes) : MetaPayload where
  metaMagic := readU32 (window b 32 4)
  formatVersion := readU16 (window b 40 2)
  pageSize := toNat (window b 42 2)
  committedTxnId := toNat (window b 0 8)
  rootPageId := toNat (window b 8 8)
  freelistHeadPageId := toNat (window b 16 8)
  logTailLsn := toNat (window b 24 8)
  metaCrc32c := readU32 (window b 36 4)

def decode (b : Bytes) : Except PagerError MetaPayload :=
  if b.length < size then .error .invalidMetaSize
  else if (ofBytes b).metaMagic ≠ 0x4D455441 then .error .invalidMetaMagic
  else if (ofBytes b).formatVersion ≠ 0 then .error .unsupportedFormat
  else .ok (ofBytes b)

/-- A payload whose fields have their widths. -/
structure Fits (m : MetaPayload) : Prop where
  committedTxnId : m.committedTxnId < 2 ^ 64
  rootPageId : m.rootPageId < 2 ^ 64
  freelistHeadPageId : m.freelistHeadPageId < 2 ^ 64
  logTailLsn : m.logTailLsn < 2 ^ 64
  pageSize : m.pageSize < 2 ^ 16

theorem ofBytes_encode {m : MetaPayload} (hfits : m.Fits) (rest : Bytes) :
    ofBytes (m.encode ++ rest) = m := by
  unfold ofBytes encode checkedBytes
  simp only [List.append_assoc]
  simp (disch := simp) only [window_append_right, window_head, length_u16, length_u32, length_le,
    Nat.reduceSub, readU16_u16, readU32_u32]
  rw [toNat_le_of_lt hfits.pageSize, toNat_le_of_lt hfits.committedTxnId, toNat_le_of_lt hfits.rootPageId,
    toNat_le_of_lt hfits.freelistHeadPageId, toNat_le_of_lt hfits.logTailLsn]

end MetaPayload

def decodeMetaPage (page : Page) (expectedPageId : Nat) : Except PagerError MetaState := do
  let header ← page.header.decode
  if header.pageId ≠ expectedPageId then .error .unexpectedPageId
  else if header.pageType ≠ .metaPage then .error .invalidPageType
  else if header.headerCrc32c ≠ header.calculateHeaderChecksum then .error .invalidHeaderChecksum
  else
    let payload ← MetaPayload.decode (page.body.take MetaPayload.size)
    if payload.metaCrc32c ≠ payload.calculateChecksum then .error .invalidMetaChecksum
    else return ⟨expectedPageId, header, payload⟩

namespace MetaState

def isValid (m : MetaState) : Bool :=
  m.header.headerCrc32c = m.header.calculateHeaderChecksum ∧
    m.payload.metaCrc32c = m.payload.calculateChecksum ∧ m.header.pageType = .metaPage ∧
      m.header.pageId = m.pageId

def isTornWrite (m : MetaState) (fileSize : Nat) : Bool :=
  if fileSize < defaultPageSize * 3 then false
  else if m.payload.pageSize ≠ defaultPageSize then true
  else if m.payload.committedTxnId ≥ 1000000000000 then true
  else if m.payload.rootPageId ≠ 0 ∧ m.payload.rootPageId > fileSize / m.payload.pageSize * 10 then true
  else if m.payload.freelistHeadPageId ≠ 0 ∧
      m.payload.freelistHeadPageId > fileSize / m.payload.pageSize * 10 then true
  else if m.payload.logTailLsn ≥ 1000000000000 then true
  else if m.payload.metaMagic ≠ 0x4D455441 then true
  else if m.payload.formatVersion ≠ 0 then true
  else false

end MetaState

def chooseBestMeta (metaA metaB : Option MetaState) (fileSize : Nat) : Option MetaState :=
  let validA := metaA.filter fun m => m.isValid && ! m.isTornWrite fileSize
  let validB := metaB.filter fun m => m.isValid && ! m.isTornWrite fileSize
  match validA, validB with
  | none, none => none
  | some a, none => some a
  | none, some b => some b
  | some a, some b => if a.payload.committedTxnId ≥ b.payload.committedTxnId then some a else some b

/-- The errors that `open` takes for a meta page that is not there. -/
def absentOrElse (result : Except PagerError MetaState) : Except PagerError (Option MetaState) :=
  match result with
  | .ok m => .ok (some m)
  | .error .invalidHeaderChecksum => .ok none
  | .error .invalidMetaChecksum => .ok none
  | .error .invalidMagic => .ok none
  | .error .invalidMetaMagic => .ok none
  | .error .invalidPageType => .ok none
  | .error .unexpectedPageId => .ok none
  | .error e => .error e

namespace Pager

def bestMeta (pages : List Page) (fileSize : Nat) : Except PagerError MetaState :=
  match pages[metaAPageId]? with
  | none => .error .fileTooSmall
  | some first => do
    let metaA ← absentOrElse (decodeMetaPage first metaAPageId)
    let metaB ← match pages[metaBPageId]? with
      | none => .ok none
      | some second => absentOrElse (decodeMetaPage second metaBPageId)
    match chooseBestMeta metaA metaB fileSize with
    | none => .error .corrupt
    | some best => if best.payload.pageSize ≠ defaultPageSize then .error .unsupportedPageSize else .ok best

/-- `open` on a file of `fileSize` bytes with these whole pages; `none` while it is running. -/
def openPages (fuel : Nat) (pages : List Page) (fileSize : Nat) : Option (Except PagerError Pager) :=
  match bestMeta pages fileSize with
  | .error e => some (.error e)
  | .ok best => initAllocator ⟨pages, best, [], 0⟩ fuel

def openFile (fuel : Nat) (file : Bytes) : Option (Except PagerError Pager) :=
  openPages fuel (Page.pagesOf file) file.length

end Pager

variable {m : MetaState} {pageId : Nat}

variable {page : Page} {pages : List Page} {fileSize : Nat}

theorem isValid_of_decode
    (hdecode : decodeMetaPage page pageId = .ok m) : m.isValid = true ∧ m.pageId = pageId := by
  unfold decodeMetaPage at hdecode
  rcases Except.bind_eq_ok_iff.mp hdecode with ⟨header, hheader, hdecode⟩
  rw [Except.guard_eq_ok_iff, Except.guard_eq_ok_iff, Except.guard_eq_ok_iff] at hdecode
  rcases hdecode with ⟨hid, htype, hcrc, hdecode⟩
  rcases Except.bind_eq_ok_iff.mp hdecode with ⟨payload, -, hdecode⟩
  rw [Except.guard_eq_ok_iff] at hdecode
  cases hdecode.2
  refine ⟨decide_eq_true ⟨not_not.mp hcrc, not_not.mp hdecode.1, not_not.mp htype, not_not.mp hid⟩, rfl⟩

/-- The page has the magic number, and a version in its header or in its payload that is not 0. -/
def ForeignFormat (page : Page) (pageId : Nat) : Prop :=
  page.header.magic = 0x4E534442 ∧
    (page.header.formatVersion ≠ 0 ∨
      page.header.pageId = pageId ∧ page.header.pageType = .metaPage ∧
        page.header.headerCrc32c = page.header.calculateHeaderChecksum ∧
        (MetaPayload.ofBytes (page.body.take MetaPayload.size)).metaMagic = 0x4D455441 ∧
        (MetaPayload.ofBytes (page.body.take MetaPayload.size)).formatVersion ≠ 0)

instance (page : Page) (pageId : Nat) : Decidable (ForeignFormat page pageId) :=
  inferInstanceAs (Decidable (_ ∧ (_ ∨ _ ∧ _ ∧ _ ∧ _ ∧ _)))

theorem absentOrElse_decode (hbody : page.body.length = Page.bodySize) (pageId : Nat) :
    absentOrElse (decodeMetaPage page pageId) =
      if ForeignFormat page pageId then .error .unsupportedFormat
      else .ok (decodeMetaPage page pageId).toOption := by
  have hsize : ¬ (page.body.take MetaPayload.size).length < MetaPayload.size := by
    rw [List.length_take, hbody]
    decide
  -- the checks one after another; every failed one decides both sides
  by_cases hmagic : page.header.magic = 0x4E534442
  · by_cases hversion : page.header.formatVersion = 0
    · have hheader : page.header.decode = .ok page.header := by
        unfold PageHeader.decode
        rw [if_neg (not_not.mpr hmagic), if_neg (not_not.mpr hversion)]
      unfold decodeMetaPage
      rw [hheader, Except.ok_bind]
      by_cases hid : page.header.pageId = pageId
      · rw [if_neg (not_not.mpr hid)]
        by_cases htype : page.header.pageType = .metaPage
        · rw [if_neg (not_not.mpr htype)]
          by_cases hcrc : page.header.headerCrc32c = page.header.calculateHeaderChecksum
          · unfold MetaPayload.decode
            rw [if_neg (not_not.mpr hcrc), if_neg hsize]
            by_cases hmeta : (MetaPayload.ofBytes (page.body.take MetaPayload.size)).metaMagic = 0x4D455441
            · rw [if_neg (not_not.mpr hmeta)]
              by_cases hformat : (MetaPayload.ofBytes (page.body.take MetaPayload.size)).formatVersion = 0
              · have hnot : ¬ ForeignFormat page pageId :=
                  fun hno => hno.2.elim (fun h => h hversion) fun h => h.2.2.2.2 hformat
                rw [if_neg (not_not.mpr hformat), if_neg hnot, Except.ok_bind]
                split <;> rfl
              · have hforeign : ForeignFormat page pageId :=
                  ⟨hmagic, Or.inr ⟨hid, htype, hcrc, hmeta, hformat⟩⟩
                rw [if_pos hformat, if_pos hforeign]
                rfl
            · have hnot : ¬ ForeignFormat page pageId :=
                fun hno => hno.2.elim (fun h => h hversion) fun h => hmeta h.2.2.2.1
              rw [if_pos hmeta, if_neg hnot]
              rfl
          · have hnot : ¬ ForeignFormat page pageId :=
              fun hno => hno.2.elim (fun h => h hversion) fun h => hcrc h.2.2.1
            rw [if_pos hcrc, if_neg hnot]
            rfl
        · have hnot : ¬ ForeignFormat page pageId :=
            fun hno => hno.2.elim (fun h => h hversion) fun h => htype h.2.1
          rw [if_pos htype, if_neg hnot]
          rfl
      · have hnot : ¬ ForeignFormat page pageId :=
          fun hno => hno.2.elim (fun h => h hversion) fun h => hid h.1
        rw [if_pos hid, if_neg hnot]
        rfl
    · have hforeign : ForeignFormat page pageId := ⟨hmagic, Or.inl hversion⟩
      unfold decodeMetaPage PageHeader.decode
      rw [if_neg (not_not.mpr hmagic), if_pos hversion, if_pos hforeign]
      rfl
  · have hnot : ¬ ForeignFormat page pageId := fun hno => hmagic hno.1
    unfold decodeMetaPage PageHeader.decode
    rw [if_pos hmagic, if_neg hnot]
    rfl

theorem decodeMetaPage_encodeMetaPage {m : MetaPayload} (hmagic : m.metaMagic = 0x4D455441)
    (hversion : m.formatVersion = 0) (hfits : m.Fits) (pageId : Nat) :
    decodeMetaPage (encodeMetaPage pageId m) pageId =
      .ok ⟨pageId, (encodeMetaPage pageId m).header, { m with metaCrc32c := m.calculateChecksum }⟩ := by
  have hheader : (encodeMetaPage pageId m).header.decode = .ok (encodeMetaPage pageId m).header := by
    unfold PageHeader.decode
    rw [if_neg (fun hno => hno rfl), if_neg fun hno => hno rfl]
  have hpayload : MetaPayload.decode ((encodeMetaPage pageId m).body.take MetaPayload.size) =
      .ok { m with metaCrc32c := m.calculateChecksum } := by
    have htake : (encodeMetaPage pageId m).body.take MetaPayload.size =
        { m with metaCrc32c := m.calculateChecksum }.encode ++ [] := by
      rw [List.append_nil]
      exact List.take_left' (MetaPayload.length_encode _)
    have hfits' : { m with metaCrc32c := m.calculateChecksum }.Fits :=
      ⟨hfits.committedTxnId, hfits.rootPageId, hfits.freelistHeadPageId, hfits.logTailLsn, hfits.pageSize⟩
    unfold MetaPayload.decode
    rw [htake, MetaPayload.ofBytes_encode hfits', List.append_nil, MetaPayload.length_encode,
      if_neg (Nat.lt_irrefl _), if_neg (not_not.mpr hmagic), if_neg (not_not.mpr hversion)]
  unfold decodeMetaPage
  rw [hheader, Except.ok_bind, if_neg (fun hno => hno rfl), if_neg (fun hno => hno rfl),
    if_neg (fun hno => hno rfl), hpayload, Except.ok_bind, if_neg fun hno => hno rfl]
  rfl

/-- A meta page of the file that is decoded and does not look torn. -/
def ValidMeta (pages : List Page) (fileSize : Nat) (m : MetaState) : Prop :=
  (m.pageId = metaAPageId ∨ m.pageId = metaBPageId) ∧
    (∃ page, pages[m.pageId]? = some page ∧ decodeMetaPage page m.pageId = .ok m) ∧
      m.isTornWrite fileSize = false

/-- The only valid meta page, or the one of two with the higher transaction. -/
def NewestMeta (pages : List Page) (fileSize : Nat) (m : MetaState) : Prop :=
  ValidMeta pages fileSize m ∧ ∀ m', ValidMeta pages fileSize m' →
    m' = m ∨ m'.payload.committedTxnId < m.payload.committedTxnId

/-- The same, with the first page ahead of the second when both have one transaction. -/
def Preferred (pages : List Page) (fileSize : Nat) (m : MetaState) : Prop :=
  ValidMeta pages fileSize m ∧ ∀ m', ValidMeta pages fileSize m' →
    m' = m ∨ m'.payload.committedTxnId < m.payload.committedTxnId ∨
      m.pageId = metaAPageId ∧ m'.payload.committedTxnId = m.payload.committedTxnId

theorem NewestMeta.preferred (h : NewestMeta pages fileSize m) : Preferred pages fileSize m :=
  ⟨h.1, fun m' hm' => (h.2 m' hm').imp_right Or.inl⟩

/-- What `chooseBestMeta` sees of a page. -/
def candidate (pages : List Page) (fileSize pageId : Nat) : Option MetaState :=
  (pages[pageId]?.bind fun page => (decodeMetaPage page pageId).toOption).filter fun m =>
    m.isValid && ! m.isTornWrite fileSize

theorem candidate_eq_some (hplace : pageId = metaAPageId ∨ pageId = metaBPageId) :
    candidate pages fileSize pageId = some m ↔ ValidMeta pages fileSize m ∧ m.pageId = pageId := by
  unfold candidate
  rw [Option.filter_eq_some_iff, Option.bind_eq_some_iff]
  constructor
  · rintro ⟨⟨page, hpage, hdecode⟩, hgood⟩
    have hdecode := Except.toOption_eq_some.mp hdecode
    have hid := (isValid_of_decode hdecode).2
    subst hid
    have htorn : m.isTornWrite fileSize = false := by simpa using (Bool.and_eq_true_iff.mp hgood).2
    exact ⟨⟨hplace, ⟨page, hpage, hdecode⟩, htorn⟩, rfl⟩
  · rintro ⟨⟨-, ⟨page, hpage, hdecode⟩, htorn⟩, rfl⟩
    refine ⟨⟨page, hpage, Except.toOption_eq_some.mpr hdecode⟩, ?_⟩
    rw [(isValid_of_decode hdecode).1, htorn]
    rfl

theorem chooseBestMeta_filter (metaA metaB : Option MetaState) (fileSize : Nat)
    (hnewest : ((metaA.filter fun m => m.isValid && ! m.isTornWrite fileSize) = some m ∧
        ∀ b, (metaB.filter fun m => m.isValid && ! m.isTornWrite fileSize) = some b →
          b.payload.committedTxnId ≤ m.payload.committedTxnId) ∨
      ((metaB.filter fun m => m.isValid && ! m.isTornWrite fileSize) = some m ∧
        ∀ a, (metaA.filter fun m => m.isValid && ! m.isTornWrite fileSize) = some a →
          a.payload.committedTxnId < m.payload.committedTxnId)) :
    chooseBestMeta metaA metaB fileSize = some m := by
  unfold chooseBestMeta
  rcases hnewest with ⟨hA, hother⟩ | ⟨hB, hother⟩
  · rw [hA]
    cases hB : metaB.filter fun m => m.isValid && ! m.isTornWrite fileSize with
    | none => rfl
    | some b => exact if_pos (hother b hB)
  · rw [hB]
    cases hA : metaA.filter fun m => m.isValid && ! m.isTornWrite fileSize with
    | none => rfl
    | some a => exact if_neg (Nat.not_le.mpr (hother a hA))

/-- No page reads as one of another format, as far as it is there. -/
def NoForeignFormat (pages : List Page) : Prop :=
  ∀ pageId page, (pageId = metaAPageId ∨ pageId = metaBPageId) → pages[pageId]? = some page →
    ¬ ForeignFormat page pageId

namespace Pager

theorem bestMeta_preferred
    (hbody : ∀ pageId page, (pageId = metaAPageId ∨ pageId = metaBPageId) → pages[pageId]? = some page →
      page.body.length = Page.bodySize) (hpreferred : Preferred pages fileSize m) :
    (NoForeignFormat pages → bestMeta pages fileSize =
      if m.payload.pageSize ≠ defaultPageSize then .error .unsupportedPageSize else .ok m) ∧
    (¬ NoForeignFormat pages → bestMeta pages fileSize = .error .unsupportedFormat) := by
  -- the first page is there, because one of the two is
  have hfirst : ∃ first, pages[metaAPageId]? = some first := by
    rcases hpreferred.1 with ⟨hplace, ⟨page, hpage, -⟩, -⟩
    have hlt : m.pageId < pages.length := (List.getElem?_eq_some_iff.mp hpage).1
    have hzero : metaAPageId < pages.length := Nat.lt_of_le_of_lt (Nat.zero_le _) hlt
    exact ⟨_, List.getElem?_eq_getElem hzero⟩
  rcases hfirst with ⟨first, hfirst⟩
  have hchosen : ∀ metaB, (pages[metaBPageId]?.bind fun page => (decodeMetaPage page metaBPageId).toOption) =
      metaB → chooseBestMeta (decodeMetaPage first metaAPageId).toOption metaB fileSize = some m := by
    rintro metaB rfl
    have hA : ((decodeMetaPage first metaAPageId).toOption.filter
        fun m => m.isValid && ! m.isTornWrite fileSize) = candidate pages fileSize metaAPageId := by
      unfold candidate
      rw [hfirst]
      rfl
    apply chooseBestMeta_filter
    rw [hA]
    have hlower : ∀ pageId m', (pageId = metaAPageId ∨ pageId = metaBPageId) → m.pageId ≠ pageId →
        candidate pages fileSize pageId = some m' →
          m'.payload.committedTxnId < m.payload.committedTxnId ∨
            m.pageId = metaAPageId ∧ m'.payload.committedTxnId = m.payload.committedTxnId := by
      intro pageId m' hplace hne hm'
      rcases (candidate_eq_some hplace).mp hm' with ⟨hvalid, hid⟩
      rcases hpreferred.2 m' hvalid with rfl | hlower
      · exact absurd hid hne
      · exact hlower
    rcases hpreferred.1.1 with hid | hid
    · left
      refine ⟨(candidate_eq_some (Or.inl rfl)).mpr ⟨hpreferred.1, hid⟩, fun b hb => ?_⟩
      have hne : m.pageId ≠ metaBPageId := by
        rw [hid]
        decide
      rcases hlower metaBPageId b (Or.inr rfl) hne hb with hlt | ⟨-, heq⟩
      · exact Nat.le_of_lt hlt
      · exact Nat.le_of_eq heq
    · right
      refine ⟨(candidate_eq_some (Or.inr rfl)).mpr ⟨hpreferred.1, hid⟩, fun a ha => ?_⟩
      have hne : m.pageId ≠ metaAPageId := by
        rw [hid]
        decide
      rcases hlower metaAPageId a (Or.inl rfl) hne ha with hlt | ⟨hA, -⟩
      · exact hlt
      · exact absurd hA hne
  unfold bestMeta
  rw [hfirst]
  dsimp only
  rw [absentOrElse_decode (hbody _ _ (Or.inl rfl) hfirst)]
  by_cases hforeignA : ForeignFormat first metaAPageId
  · rw [if_pos hforeignA]
    exact ⟨fun hno => absurd hforeignA (hno _ _ (Or.inl rfl) hfirst), fun _ => rfl⟩
  · rw [if_neg hforeignA, Except.ok_bind]
    cases hsecond : pages[metaBPageId]? with
    | none =>
      have hno : NoForeignFormat pages := by
        rintro pageId page (rfl | rfl) hpage
        · rw [hfirst] at hpage
          cases hpage
          exact hforeignA
        · rw [hsecond] at hpage
          cases hpage
      rw [hsecond] at hchosen
      dsimp only
      rw [Except.ok_bind, hchosen none rfl]
      exact ⟨fun _ => rfl, fun hforeign => absurd hno hforeign⟩
    | some second =>
      dsimp only
      rw [absentOrElse_decode (hbody _ _ (Or.inr rfl) hsecond)]
      by_cases hforeignB : ForeignFormat second metaBPageId
      · rw [if_pos hforeignB]
        exact ⟨fun hno => absurd hforeignB (hno _ _ (Or.inr rfl) hsecond), fun _ => rfl⟩
      · have hno : NoForeignFormat pages := by
          rintro pageId page (rfl | rfl) hpage
          · rw [hfirst] at hpage
            cases hpage
            exact hforeignA
          · rw [hsecond] at hpage
            cases hpage
            exact hforeignB
        rw [hsecond] at hchosen
        rw [if_neg hforeignB, Except.ok_bind, hchosen (decodeMetaPage second metaBPageId).toOption rfl]
        exact ⟨fun _ => rfl, fun hforeign => absurd hno hforeign⟩

/-- The root is a page that the rebuild of the free list passes: none, one that is not there, or one that
can be read; an internal root has the magic number and a count that is not too large. -/
def RootReadable (pages : List Page) (rootPageId : Nat) : Prop :=
  rootPageId < 2 ∨ pages.length ≤ rootPageId ∨
    ∃ page, pages[rootPageId]? = some page ∧ validatePage page = .ok page.header ∧
      page.header.pageId = rootPageId ∧ page.header.payloadLen ≤ Page.bodySize ∧
      (page.header.pageType = .btreeInternal → ∃ node, BtreeNodeHeader.read page.body = .ok node ∧
        node.nodeMagic = 0x42545245 ∧ (node.keyCount + 1) * 8 < 2 ^ 16)

variable {p : Pager}

theorem childrenToMark_eq_ok_iff : (∃ children, p.childrenToMark pageId = .ok children) ↔
      ∃ page, p.readPage pageId = .ok page ∧
        (page.header.pageType = .btreeInternal → ∃ node, BtreeNodeHeader.read page.body = .ok node ∧
          node.nodeMagic = 0x42545245 ∧ (node.keyCount + 1) * 8 < 2 ^ 16) := by
  unfold childrenToMark
  cases hread : p.readPage pageId with
  | error e =>
    constructor
    · rintro ⟨children, hno⟩
      cases hno
    · rintro ⟨page, hno, -⟩
      cases hno
  | ok page =>
    have hvalid := (readPage_eq_ok hread).2.1
    have hdecode : page.header.decode = .ok page.header := by
      unfold validatePage at hvalid
      rcases Except.bind_eq_ok_iff.mp hvalid with ⟨header, hdecode, -⟩
      rw [(decode_eq_ok hdecode).1] at hdecode
      exact hdecode
    rw [Except.ok_bind, hvalid]
    dsimp only
    by_cases htype : page.header.pageType = .btreeInternal
    · unfold extractChildPageIds
      rw [if_pos htype, hdecode, Except.ok_bind, if_neg (not_not.mpr htype)]
      constructor
      · rintro ⟨children, h⟩
        rcases Except.bind_eq_ok_iff.mp h with ⟨node, hnode, h⟩
        rw [Except.guard_eq_ok_iff, Except.guard_eq_ok_iff] at h
        exact ⟨page, rfl, fun _ => ⟨node, hnode, not_not.mp h.1, Nat.lt_of_not_le h.2.1⟩⟩
      · rintro ⟨_, ⟨⟩, h⟩
        rcases h htype with ⟨node, hnode, hmagic, hcount⟩
        refine ⟨[], ?_⟩
        rw [hnode, Except.ok_bind, if_neg (not_not.mpr hmagic), if_neg (Nat.not_le.mpr hcount)]
        rfl
    · rw [if_neg htype]
      exact ⟨fun _ => ⟨page, rfl, fun hno => absurd hno htype⟩, fun _ => ⟨[], rfl⟩⟩

theorem childrenToMark_nil {children : List Nat}
    (h : p.childrenToMark pageId = .ok children) : children = [] := by
  unfold childrenToMark at h
  rcases Except.bind_eq_ok_iff.mp h with ⟨page, hread, h⟩
  rw [(readPage_eq_ok hread).2.1] at h
  dsimp only at h
  split at h
  · unfold extractChildPageIds at h
    rcases Except.bind_eq_ok_iff.mp h with ⟨header, -, h⟩
    split at h
    · cases h
      rfl
    · rcases Except.bind_eq_ok_iff.mp h with ⟨node, -, h⟩
      rw [Except.guard_eq_ok_iff, Except.guard_eq_ok_iff] at h
      cases h.2.2
      rfl
  · cases h
    rfl

theorem readPage_eq_ok_iff :
    p.readPage pageId = .ok page ↔ p.pages[pageId]? = some page ∧ validatePage page = .ok page.header ∧
      page.header.pageId = pageId ∧ page.header.payloadLen ≤ Page.bodySize := by
  constructor
  · intro h
    refine ⟨(readPage_eq_ok h).1, (readPage_eq_ok h).2.1, (readPage_eq_ok h).2.2, ?_⟩
    have hvalid := (readPage_eq_ok h).2.1
    have hpage := (readPage_eq_ok h).1
    unfold readPage at h
    rw [hpage] at h
    dsimp only at h
    rw [hvalid, Except.ok_bind, Except.guard_eq_ok_iff, Except.guard_eq_ok_iff] at h
    exact Nat.le_of_not_lt h.2.1
  · rintro ⟨hpage, hvalid, hid, hlen⟩
    exact readPage_of_valid hpage hvalid hid hlen

theorem initAllocator_iff (p : Pager) :
    (RootReadable p.pages p.getRootPageId → ∃ q, (q.currentMeta = p.currentMeta ∧ q.pages = p.pages) ∧
      ∀ fuel, p.initAllocator (fuel + 2) = some (.ok q)) ∧
    (¬ RootReadable p.pages p.getRootPageId → ∃ e, ∀ fuel, p.initAllocator (fuel + 2) = some (.error e)) := by
  by_cases hroot : p.getRootPageId = 0
  · refine ⟨fun _ => ⟨_, ?_, fun fuel => initAllocator_empty hroot _⟩, fun hno => absurd (Or.inl ?_) hno⟩
    · exact ⟨rfl, rfl⟩
    · omega
  · have hinit : ∀ fuel, p.initAllocator (fuel + 2) = (p.markTreePages (fuel + 2)).map fun inUse =>
        inUse.map fun inUse => { p with
          freePages := freePagesOf p.pages.length inUse, lastAllocatedPage := p.pages.length } := by
      intro fuel
      unfold initAllocator pagesInUse
      rw [if_pos hroot]
    by_cases hskip : decide (p.getRootPageId < p.pages.length) = false ∨
        p.getRootPageId ∈ metaPages p.pages.length
    · have hreadable : RootReadable p.pages p.getRootPageId := by
        rcases hskip with hbehind | hmeta
        · exact Or.inr (Or.inl (Nat.le_of_not_lt (of_decide_eq_false hbehind)))
        · left
          by_contra hge
          exact not_mem_metaPages (Nat.le_of_not_lt hge) hmeta
      refine ⟨fun _ => ⟨{ p with
        freePages := freePagesOf p.pages.length (metaPages p.pages.length)
        lastAllocatedPage := p.pages.length }, ⟨rfl, rfl⟩, fun fuel => ?_⟩, fun hno => absurd hreadable hno⟩
      rw [hinit, markTreePages, Worklist.mark, if_pos hskip]
      rfl
    · have hinside : 2 ≤ p.getRootPageId ∧ p.getRootPageId < p.pages.length := by
        rw [not_or] at hskip
        have hlt : p.getRootPageId < p.pages.length := by simpa using hskip.1
        refine ⟨?_, hlt⟩
        by_contra hge
        apply hskip.2
        apply List.mem_filter.mpr
        refine ⟨?_, decide_eq_true hlt⟩
        have hone : p.getRootPageId = 1 := by omega
        rw [hone]
        decide
      have hreadable : RootReadable p.pages p.getRootPageId ↔
          ∃ children, p.childrenToMark p.getRootPageId = .ok children := by
        rw [childrenToMark_eq_ok_iff]
        constructor
        · rintro (hlt | hge | ⟨page, hpage, hvalid, hid, hlen, hnode⟩)
          · omega
          · omega
          · exact ⟨page, readPage_eq_ok_iff.mpr ⟨hpage, hvalid, hid, hlen⟩, hnode⟩
        · rintro ⟨page, hread, hnode⟩
          rcases readPage_eq_ok_iff.mp hread with ⟨hpage, hvalid, hid, hlen⟩
          exact Or.inr (Or.inr ⟨page, hpage, hvalid, hid, hlen, hnode⟩)
      rw [hreadable]
      cases hchildren : p.childrenToMark p.getRootPageId with
      | ok children =>
        cases childrenToMark_nil hchildren
        refine ⟨fun _ => ⟨{ p with
          freePages := freePagesOf p.pages.length (p.getRootPageId :: metaPages p.pages.length)
          lastAllocatedPage := p.pages.length }, ⟨rfl, rfl⟩, fun fuel => ?_⟩, fun hno => absurd ⟨[], rfl⟩ hno⟩
        rw [hinit, markTreePages, Worklist.mark, if_neg hskip, hchildren]
        rfl
      | error e =>
        refine ⟨?_, fun _ => ⟨e, fun fuel => ?_⟩⟩
        · rintro ⟨children, hno⟩
          cases hno
        · rw [hinit, markTreePages, Worklist.mark, if_neg hskip, hchildren]
          rfl

def firstMeta : MetaPayload :=
  { committedTxnId := 1, rootPageId := 0, freelistHeadPageId := 0, logTailLsn := 0, metaCrc32c := 0 }

/-- A file whose first meta page has been written, with any second page. -/
def twoPages (second : Page) : List Page := [encodeMetaPage metaAPageId firstMeta, second]

def firstMetaState : MetaState :=
  ⟨metaAPageId, (encodeMetaPage metaAPageId firstMeta).header,
    { firstMeta with metaCrc32c := firstMeta.calculateChecksum }⟩

section TwoPages

variable {second : Page} (hfits : second.header.Fits) (hbody : second.body.length = Page.bodySize)

include hfits hbody

theorem pagesOf_twoPages : Page.pagesOf ((twoPages second).flatMap Page.bytes) = twoPages second ∧
    ((twoPages second).flatMap Page.bytes).length = 2 * defaultPageSize := by
  have hbodies : ∀ p ∈ twoPages second, p.body.length = Page.bodySize := by
    unfold twoPages
    rw [List.forall_mem_cons, List.forall_mem_singleton]
    refine ⟨?_, hbody⟩
    show (MetaPayload.encode _ ++ List.replicate _ _).length = _
    rw [List.length_append, MetaPayload.length_encode, List.length_replicate]
    rfl
  refine ⟨Page.pagesOf_flatMap ?_ hbodies, Page.length_file hbodies⟩
  unfold twoPages
  rw [List.forall_mem_cons, List.forall_mem_singleton]
  refine ⟨⟨?_, ?_, ?_, rfl⟩, hfits⟩
  · show metaAPageId < 2 ^ 64
    decide
  · show firstMeta.committedTxnId < 2 ^ 64
    decide
  · show MetaPayload.size < 2 ^ 32
    decide

theorem newest_twoPages (hdecode : ∀ m, decodeMetaPage second metaBPageId ≠ .ok m) :
    NewestMeta (Page.pagesOf ((twoPages second).flatMap Page.bytes))
      ((twoPages second).flatMap Page.bytes).length firstMetaState := by
  rcases pagesOf_twoPages hfits hbody with ⟨hpages, hlength⟩
  rw [hpages, hlength]
  have hfirst : decodeMetaPage (encodeMetaPage metaAPageId firstMeta) metaAPageId = .ok firstMetaState :=
    decodeMetaPage_encodeMetaPage rfl rfl ⟨by decide, by decide, by decide, by decide, by decide⟩ metaAPageId
  refine ⟨⟨Or.inl rfl, ⟨_, rfl, hfirst⟩, ?_⟩, ?_⟩
  · unfold MetaState.isTornWrite
    rw [if_pos (by decide)]
  · rintro m ⟨hplace, ⟨page, hpage, hm⟩, -⟩
    rcases hplace with hid | hid
    · rw [hid] at hpage hm
      cases hpage
      rw [hfirst] at hm
      exact Or.inl (Except.ok.inj hm).symm
    · rw [hid] at hpage hm
      cases hpage
      exact absurd hm (hdecode m)

end TwoPages

theorem hole_fits : Page.hole.header.Fits := ⟨by decide, by decide, by decide, rfl⟩

theorem decode_hole (m : MetaState) : decodeMetaPage Page.hole metaBPageId ≠ .ok m := by
  intro hm
  unfold decodeMetaPage PageHeader.decode at hm
  rw [if_pos (by decide)] at hm
  cases hm

theorem openFile_of_foreign {file : Bytes} {best : MetaState}
    (hnewest : NewestMeta (Page.pagesOf file) file.length best)
    (hforeign : ¬ NoForeignFormat (Page.pagesOf file)) (fuel : Nat) :
    openFile fuel file = some (.error .unsupportedFormat) := by
  unfold openFile openPages
  rw [(bestMeta_preferred (fun _ page _ hpage =>
    Page.length_body_pagesOf _ page (List.mem_of_getElem? hpage)) hnewest.preferred).2 hforeign]

/-- A page of which only the magic number and a version have been written. -/
def tornPage : Page :=
  ⟨{ Page.hole.header with magic := 0x4E534442, formatVersion := 1 }, Page.hole.body⟩

end Pager

end Northstar.Zig
