import Northstar.Zig.Slots

/-!
# InternalNode — what an internal node is for, and what its readers make of it

An internal node starts with one child, and every separator comes with a child for the keys from it on.
-/

namespace Northstar.Zig

open Bytes

namespace BtreeInternalPayload

def validateChild (payload : Bytes) (childIdx : Nat) : Except PagerError Unit :=
  match getChildPageId payload childIdx with
  | .error .panic => .error .panic
  | .error _ => .error .childPageIdOutOfBounds
  | .ok child => if child = 0 then .error .invalidChildPageId else .ok ()

/-- The separators from the end of the area on, each of which must be larger than the one read before. -/
def validateSeparators (separatorArea : Bytes) (payloadLen : Nat) :
    Nat → Nat → Option Bytes → Except PagerError Unit
  | 0, _, _ => .ok ()
  | remaining + 1, offset, prevKey => do
    let keyLen ← separatorSize separatorArea offset
    let offset := offset - (2 + keyLen)
    let separatorKey := window separatorArea offset keyLen
    if offset + keyLen > payloadLen then .error .separatorExceedsPayload
    else
      match prevKey with
      | none => validateSeparators separatorArea payloadLen remaining offset (some separatorKey)
      | some prevKey =>
        if prevKey < separatorKey then
          validateSeparators separatorArea payloadLen remaining offset (some separatorKey)
        else .error .separatorsNotSorted

def validate (payload : Bytes) : Except PagerError Unit := do
  let node ← BtreeNodeHeader.read payload
  if node.nodeMagic ≠ 0x42545245 then .error .invalidBtreeMagic
  else if node.level = 0 then .error .invalidInternalLevel
  else if node.keyCount > maxKeysPerInternal then .error .tooManyKeys
  else if BtreeNodeHeader.size + getChildPageIdsSize node.keyCount > payload.length then
    .error .childPageIdsOutOfBounds
  else
    (List.range (node.keyCount + 1)).forM (validateChild payload)
    let area ← slice payload (BtreeNodeHeader.size + getChildPageIdsSize node.keyCount) payload.length
    validateSeparators area payload.length node.keyCount area.length none

end BtreeInternalPayload

/-- Only the header and the payload are handed to `validatePage`. -/
def validateBtreeInternal (page : Page) : Except PagerError Unit := do
  let header ← page.header.decode
  let payload ← slice page.body 0 header.payloadLen
  let header ← validatePage { page with body := payload }
  if header.pageType ≠ .btreeInternal then .error .invalidPageType
  else BtreeInternalPayload.validate payload

/-- The payload grows by the child, the length of the separator and the separator. -/
def addChildToBtreeInternal (page : Page) (separatorKey : Bytes) (childPageId : Nat) :
    Except PagerError Page := do
  let header ← page.header.decode
  if header.pageType ≠ .btreeInternal then .error .invalidPageType
  else
    let payloadGrowth := 8 + 2 + separatorKey.length
    let body ← BtreeInternalPayload.addChildExpand page.body header.payloadLen separatorKey childPageId
      payloadGrowth
    let payloadLen ← intCast 32 (header.payloadLen + payloadGrowth)
    return Page.rehash { header := { page.header with payloadLen }, body }

/-- What `createEmptyBtreeInternal` is called with; the first child apart. -/
structure InternalArgs where
  pageId : Nat
  level : Nat
  txnId : Nat
  rightSibling : Nat
  deriving Repr, DecidableEq

/-- A new node, and separators added to it with their children, one call after the other. -/
def buildInternal (args : InternalArgs) (firstChildId : Nat) (calls : List (Bytes × Nat)) :
    Except PagerError Page := do
  let page ← createEmptyBtreeInternal args.pageId args.level args.txnId args.rightSibling firstChildId
  calls.foldlM (fun page call => addChildToBtreeInternal page call.1 call.2) page

/-- The child that came with the largest separator up to the key, or the first one. -/
def ChildFor (firstChildId : Nat) (calls : List (Bytes × Nat)) (key : Bytes) (child : Nat) : Prop :=
  (∃ call ∈ calls, call.1 ≤ key ∧ (∀ other ∈ calls, other.1 ≤ key → other.1 ≤ call.1) ∧ call.2 = child) ∨
    (∀ call ∈ calls, ¬ call.1 ≤ key) ∧ child = firstChildId

/-- The node is accepted, lists the separators in ascending order, and sends every key to its child. -/
structure Routes (page : Page) (firstChildId : Nat) (calls : List (Bytes × Nat)) : Prop where
  accepted : validateBtreeInternal page = .ok ()
  listed : ∃ node separators, BtreeNodeHeader.read page.payload = .ok node ∧
    (List.range node.keyCount).mapM (BtreeInternalPayload.getSeparatorKey page.payload) = .ok separators ∧
    separators.Perm (calls.map Prod.fst) ∧ separators.Pairwise (· < ·)
  routed : ∀ key, ∃ child, findChildInBtreeInternal page key = .ok (some child) ∧
    ChildFor firstChildId calls key child

variable {separator : Bytes} {child firstChildId : Nat}

variable {right : Nat} {key : Bytes}

namespace BtreeInternalPayload

variable {payload : Bytes} {node : BtreeNodeHeader}

theorem validate_eq_ok_iff (hread : BtreeNodeHeader.read payload = .ok node) :
    validate payload = .ok () ↔ node.nodeMagic = 0x42545245 ∧ node.level ≠ 0 ∧
      node.keyCount ≤ maxKeysPerInternal ∧
      BtreeNodeHeader.size + getChildPageIdsSize node.keyCount ≤ payload.length ∧
      (∀ i < node.keyCount + 1, validateChild payload i = .ok ()) ∧
      ∃ area, slice payload (BtreeNodeHeader.size + getChildPageIdsSize node.keyCount) payload.length = .ok area ∧
        validateSeparators area payload.length node.keyCount area.length none = .ok () := by
  have hchildren : (List.range (node.keyCount + 1)).forM (validateChild payload) = .ok () ↔
      ∀ i < node.keyCount + 1, validateChild payload i = .ok () := by
    rw [Except.forM_eq_ok_iff]
    simp only [List.mem_range]
  unfold validate
  rw [hread, Except.ok_bind, Except.guard_eq_ok_iff, Except.guard_eq_ok_iff, Except.guard_eq_ok_iff,
    Except.guard_eq_ok_iff, Except.bind_eq_ok_iff, Except.bind_eq_ok_iff, ← hchildren]
  simp only [ne_eq, not_not, not_lt, gt_iff_lt, Unique.exists_iff, PUnit.default_eq_unit]

variable {area : Bytes} {offset i : Nat}

theorem validateSeparators_two {payloadLen remaining : Nat}
    (h : validateSeparators area payloadLen (remaining + 2) offset none = .ok ()) :
    ∃ last before, walkSeparators area 0 offset = .ok last ∧ walkSeparators area 1 offset = .ok before ∧
      last < before := by
  unfold validateSeparators at h
  rcases Except.bind_eq_ok_iff.mp h with ⟨keyLen, hlast, h⟩
  have hrest := (Except.guard_eq_ok_iff.mp h).2
  dsimp only at hrest
  unfold validateSeparators at hrest
  rcases Except.bind_eq_ok_iff.mp hrest with ⟨keyLen', hbefore, h⟩
  have hlt := (Except.unless_eq_ok_iff.mp (Except.guard_eq_ok_iff.mp h).2).1
  refine ⟨_, _, ?_, ?_, hlt⟩
  · rw [walkSeparators, hlast]
    rfl
  · rw [walkSeparators, hlast, Except.ok_bind, walkSeparators, hbefore]
    rfl

theorem getSeparatorKey_eq (hread : BtreeNodeHeader.read payload = .ok node) (hi : i < node.keyCount)
    (harea : slice payload (BtreeNodeHeader.size + getChildPageIdsSize node.keyCount) payload.length = .ok area) :
    getSeparatorKey payload i = walkSeparators area (node.keyCount - 1 - i) area.length := by
  unfold getSeparatorKey
  rw [hread, Except.ok_bind, if_neg (Nat.not_le.mpr hi), harea, Except.ok_bind]

/-- `getSeparatorKey` counts from the other end than `validate`: a node with two separators or more that is
accepted does not list them in ascending order. -/
theorem not_sorted_of_validate {separators : List Bytes}
    (hread : BtreeNodeHeader.read payload = .ok node) (hvalid : validate payload = .ok ())
    (hlisted : (List.range node.keyCount).mapM (getSeparatorKey payload) = .ok separators)
    (htwo : 2 ≤ node.keyCount) : ¬ separators.Pairwise (· < ·) := by
  intro hsorted
  rcases (validate_eq_ok_iff hread).mp hvalid with ⟨-, -, -, -, -, area, harea, hseparators⟩
  rcases Nat.exists_eq_add_of_le' htwo with ⟨remaining, hcount⟩
  have hlength := Except.length_of_mapM hlisted
  rw [List.length_range, hcount] at hlength
  rw [hcount] at hseparators
  rcases validateSeparators_two hseparators with ⟨last, before, hlast, hbefore, hlt⟩
  have hkey : ∀ i (hi : i < separators.length), walkSeparators area (remaining + 1 - i) area.length =
      .ok separators[i] := by
    intro i hi
    have hi' : i < (List.range node.keyCount).length := by
      rw [List.length_range]
      omega
    have hget := List.Forall₂.get (Except.mapM_eq_ok_iff.mp hlisted) hi' hi
    rw [List.get_eq_getElem, List.getElem_range, List.get_eq_getElem,
      getSeparatorKey_eq hread (by dsimp only; omega) harea] at hget
    have hback : node.keyCount - 1 - i = remaining + 1 - i := by omega
    rw [← hback]
    exact hget
  have hlast' := hkey (remaining + 1) (by omega)
  have hbefore' := hkey remaining (by omega)
  rw [Nat.sub_self, hlast] at hlast'
  rw [Nat.add_sub_cancel_left, hbefore] at hbefore'
  have hup := List.pairwise_iff_getElem.mp hsorted remaining (remaining + 1) (by omega) (by omega) (by omega)
  rw [← Except.ok.inj hlast', ← Except.ok.inj hbefore'] at hup
  exact lt_asymm hlt hup

theorem separatorSize_inv {keyLen : Nat} (h : separatorSize area offset = .ok keyLen) :
    (readU16 (window area (offset - 2) 2)).toNat = keyLen := by
  unfold separatorSize at h
  rw [Except.guard_eq_ok_iff] at h
  dsimp only at h
  rw [Except.guard_eq_ok_iff, Except.guard_eq_ok_iff] at h
  exact Except.ok.inj h.2.2.2

theorem separatorSize_le {keyLen : Nat} (h : separatorSize area offset = .ok keyLen) :
    2 + keyLen ≤ offset := by
  unfold separatorSize at h
  rw [Except.guard_eq_ok_iff] at h
  dsimp only at h
  rw [Except.guard_eq_ok_iff, Except.guard_eq_ok_iff] at h
  rw [← Except.ok.inj h.2.2.2]
  exact Nat.not_lt.mp h.2.2.1

theorem validateSeparators_one {payloadLen : Nat}
    (h : walkSeparators area 0 offset = .ok separator) (hinside : offset ≤ payloadLen) :
    validateSeparators area payloadLen 1 offset none = .ok () := by
  rw [walkSeparators] at h
  rcases Except.bind_eq_ok_iff.mp h with ⟨keyLen, hsize, -⟩
  rw [validateSeparators, hsize, Except.ok_bind]
  dsimp only
  have hfits : ¬ offset - (2 + keyLen) + keyLen > payloadLen := by
    have hle := separatorSize_le hsize
    omega
  rw [if_neg hfits, validateSeparators]

theorem validateChild_iff (h : getChildPageId payload i = .ok child) :
    validateChild payload i = .ok () ↔ child ≠ 0 := by
  unfold validateChild
  rw [h]
  exact Except.guard_eq_ok_iff.trans (and_iff_left rfl)

theorem childAt_eq (h : getChildPageId payload i = .ok child) :
    childAt payload i = .ok (i, child) := by
  unfold childAt
  rw [h]
  rfl

section

variable (hread : BtreeNodeHeader.read payload = .ok node)

include hread

theorem getChildPageId_eq (hi : i ≤ node.keyCount) (hcount : node.keyCount ≤ maxKeysPerInternal)
    (hroom : 48 + i * 8 + 8 ≤ payload.length) :
    getChildPageId payload i = .ok (readU64 (window payload (48 + i * 8) 8)).toNat := by
  have hfew : ¬ node.keyCount + 1 ≥ 2 ^ 16 := by
    unfold maxKeysPerInternal at hcount
    omega
  have hchildCount : childCount payload = .ok (node.keyCount + 1) := by
    unfold childCount
    rw [hread, Except.ok_bind, if_neg hfew]
    rfl
  unfold getChildPageId
  rw [hchildCount, Except.ok_bind, if_neg (by omega)]
  exact if_neg (Nat.not_lt.mpr hroom)

theorem findChild_none (hcount : node.keyCount = 0) (hchild : getChildPageId payload 0 = .ok child)
    (key : Bytes) : findChild payload key = .ok (0, child) := by
  unfold findChild
  rw [hread, Except.ok_bind, if_pos hcount, childAt_eq hchild]

theorem findChild_one {left : Nat} (hcount : node.keyCount = 1)
    (hseparator : getSeparatorKey payload 0 = .ok separator) (hleft : getChildPageId payload 0 = .ok left)
    (hright : getChildPageId payload 1 = .ok right) (key : Bytes) :
    findChild payload key = .ok (if key < separator then (0, left) else (1, right)) := by
  unfold findChild
  rw [hread, Except.ok_bind, if_neg (by omega), hcount, searchChild, if_pos Nat.one_pos]
  dsimp only
  rw [hseparator]
  dsimp only
  by_cases heq : key = separator
  · rw [if_pos heq, childAt_eq hright, if_neg (heq ▸ lt_irrefl key)]
  · rw [if_neg heq]
    by_cases hlt : key < separator
    · rw [if_pos hlt, if_pos hlt, searchChild, childAt_eq hleft]
    · rw [if_neg hlt, if_neg hlt, searchChild, childAt_eq hright]

end

end BtreeInternalPayload

theorem childFor_nil : ChildFor firstChildId [] key child ↔ child = firstChildId := by
  unfold ChildFor
  simp

theorem childFor_one : ChildFor firstChildId [(separator, right)] key child ↔
      child = if key < separator then firstChildId else right := by
  unfold ChildFor
  by_cases hlt : key < separator
  · simp [hlt]
  · simp [hlt, not_lt.mp hlt, eq_comm]

/-- A page as the calls leave it, with both checksums set. -/
structure IsInternal (page : Page) : Prop where
  decodes : page.header.decode = .ok page.header
  pageType : page.header.pageType = .btreeInternal
  inside : page.header.payloadLen ≤ page.body.length
  valid : validatePage { page with body := page.payload } = .ok page.header

variable {page : Page}

theorem validatePage_payload (hmagic : page.header.magic = 0x4E534442)
    (hversion : page.header.formatVersion = 0) (hinside : page.header.payloadLen ≤ page.body.length) :
    validatePage ⟨page.rehash.header, page.payload⟩ = .ok page.rehash.header := by
  have hlength : page.header.payloadLen ≤ page.payload.length := by
    unfold Page.payload
    rw [List.length_take, Nat.min_eq_left hinside]
  have hcut : (⟨page.rehash.header, page.payload⟩ : Page) = Page.rehash ⟨page.header, page.payload⟩ := by
    have hpayload : Page.payload ⟨page.header, page.payload⟩ = page.payload :=
      List.take_take.trans (by rw [Nat.min_self]; rfl)
    unfold Page.rehash
    rw [hpayload]
  have hheader := congrArg Page.header hcut
  dsimp only at hheader
  rw [hcut, hheader]
  exact validatePage_rehash (p := ⟨page.header, page.payload⟩) hmagic hversion hlength

theorem isInternal_rehash (hmagic : page.header.magic = 0x4E534442)
    (hversion : page.header.formatVersion = 0) (htype : page.header.pageType = .btreeInternal)
    (hinside : page.header.payloadLen ≤ page.body.length) : IsInternal page.rehash where
  decodes := by
    show (if page.header.magic ≠ _ then _ else if page.header.formatVersion ≠ _ then _ else _) = _
    rw [if_neg (not_not.mpr hmagic), if_neg (not_not.mpr hversion)]
  pageType := htype
  inside := hinside
  valid := validatePage_payload hmagic hversion hinside

theorem slice_payload {payload : Bytes} (h : slice page.body 0 page.header.payloadLen = .ok payload) :
    payload = page.payload := by
  rw [(slice_inv h).2, Nat.sub_zero]
  rfl

namespace IsInternal

variable (h : IsInternal page)

include h

theorem slice_eq : slice page.body 0 page.header.payloadLen = .ok page.payload := by
  rw [slice_of_le (Nat.zero_le _) h.inside, Nat.sub_zero]
  rfl

theorem validate_eq : validateBtreeInternal page = BtreeInternalPayload.validate page.payload := by
  unfold validateBtreeInternal
  rw [h.decodes, Except.ok_bind, h.slice_eq, Except.ok_bind, h.valid, Except.ok_bind,
    if_neg (not_not.mpr h.pageType)]

theorem findChild_eq {child : Nat × Nat}
    (hchild : BtreeInternalPayload.findChild page.payload key = .ok child) :
    findChildInBtreeInternal page key = .ok (some child.2) := by
  unfold findChildInBtreeInternal
  rw [h.decodes]
  dsimp only
  rw [if_neg (not_not.mpr h.pageType), h.slice_eq, Except.ok_bind, hchild]
  rfl

end IsInternal

theorem not_routes_of_two {calls : List (Bytes × Nat)}
    (htwo : 2 ≤ calls.length) : ¬ Routes page firstChildId calls := by
  intro h
  rcases h.listed with ⟨node, separators, hread, hlisted, hperm, hsorted⟩
  have hcount : node.keyCount = calls.length := by
    have hlength := Except.length_of_mapM hlisted
    rw [hperm.length_eq, List.length_map, List.length_range] at hlength
    exact hlength.symm
  have haccepted := h.accepted
  unfold validateBtreeInternal at haccepted
  rcases Except.bind_eq_ok_iff.mp haccepted with ⟨header, hdecode, haccepted⟩
  rw [(decode_eq_ok hdecode).1] at haccepted
  rcases Except.bind_eq_ok_iff.mp haccepted with ⟨payload, hpayload, haccepted⟩
  rcases Except.bind_eq_ok_iff.mp haccepted with ⟨_, _, haccepted⟩
  rw [Except.guard_eq_ok_iff, slice_payload hpayload] at haccepted
  exact BtreeInternalPayload.not_sorted_of_validate hread haccepted.2 hlisted (hcount ▸ htwo) hsorted

section

open BtreeInternalPayload

variable {node : BtreeNodeHeader} (h : IsInternal page)
  (hread : BtreeNodeHeader.read page.payload = .ok node) (hmagic : node.nodeMagic = 0x42545245)

include h hread hmagic

theorem routes_nil_iff (hcount : node.keyCount = 0) (hroom : 56 ≤ page.payload.length)
    (hchild : getChildPageId page.payload 0 = .ok child) :
    Routes page firstChildId [] ↔ node.level ≠ 0 ∧ child ≠ 0 ∧ child = firstChildId := by
  have hfound : ∀ key, findChildInBtreeInternal page key = .ok (some child) := by
    intro key
    exact h.findChild_eq (findChild_none hread hcount hchild key)
  have haccepted : validateBtreeInternal page = .ok () ↔ node.level ≠ 0 ∧ child ≠ 0 := by
    have harea : slice page.payload (BtreeNodeHeader.size + getChildPageIdsSize node.keyCount)
        page.payload.length = .ok (window page.payload 56 (page.payload.length - 56)) := by
      rw [hcount]
      exact slice_of_le hroom (Nat.le_refl _)
    rw [h.validate_eq, validate_eq_ok_iff hread, ← validateChild_iff hchild]
    constructor
    · intro hvalid
      exact ⟨hvalid.2.1, hvalid.2.2.2.2.1 0 (by omega)⟩
    · intro hvalid
      refine ⟨hmagic, hvalid.1, by rw [hcount]; decide, by rw [hcount]; exact hroom, ?_, _, harea, ?_⟩
      · intro i hi
        rw [(by omega : i = 0)]
        exact hvalid.2
      · rw [hcount, validateSeparators]
  constructor
  · intro hroutes
    rcases hroutes.routed [] with ⟨found, hfind, hfor⟩
    have hsame : child = found := Option.some.inj (Except.ok.inj ((hfound []).symm.trans hfind))
    have hvalid := haccepted.mp hroutes.accepted
    exact ⟨hvalid.1, hvalid.2, hsame.trans (childFor_nil.mp hfor)⟩
  · intro hgood
    refine ⟨haccepted.mpr ⟨hgood.1, hgood.2.1⟩, ⟨node, [], hread, ?_, List.Perm.refl _, List.Pairwise.nil⟩, ?_⟩
    · rw [hcount]
      rfl
    · intro key
      exact ⟨child, hfound key, childFor_nil.mpr hgood.2.2⟩

/-- A node with one separator must read it back, and the left child only matters to keys below it. -/
theorem routes_one_iff {left : Nat} (hcount : node.keyCount = 1)
    (hroom : 64 ≤ page.payload.length) (hleft : getChildPageId page.payload 0 = .ok left)
    (hright : getChildPageId page.payload 1 = .ok right) :
    Routes page firstChildId [(separator, right)] ↔ node.level ≠ 0 ∧ left ≠ 0 ∧ right ≠ 0 ∧
      getSeparatorKey page.payload 0 = .ok separator ∧ (separator = [] ∨ left = firstChildId) := by
  have hkeys : (List.range node.keyCount).mapM (getSeparatorKey page.payload) = .ok [separator] ↔
      getSeparatorKey page.payload 0 = .ok separator := by
    rw [hcount, Except.mapM_eq_ok_iff]
    show List.Forall₂ _ [0] [separator] ↔ _
    rw [List.forall₂_cons]
    exact and_iff_left List.Forall₂.nil
  have hfound : ∀ key, getSeparatorKey page.payload 0 = .ok separator →
      findChildInBtreeInternal page key = .ok (some (if key < separator then left else right)) := by
    intro key hseparator
    rw [h.findChild_eq (findChild_one hread hcount hseparator hleft hright key)]
    by_cases hlt : key < separator
    · rw [if_pos hlt, if_pos hlt]
    · rw [if_neg hlt, if_neg hlt]
  have haccepted : getSeparatorKey page.payload 0 = .ok separator →
      (validateBtreeInternal page = .ok () ↔ node.level ≠ 0 ∧ left ≠ 0 ∧ right ≠ 0) := by
    intro hseparator
    have harea : slice page.payload (BtreeNodeHeader.size + getChildPageIdsSize node.keyCount)
        page.payload.length = .ok (window page.payload 64 (page.payload.length - 64)) := by
      rw [hcount]
      exact slice_of_le hroom (Nat.le_refl _)
    rw [h.validate_eq, validate_eq_ok_iff hread, ← validateChild_iff hleft, ← validateChild_iff hright]
    constructor
    · intro hvalid
      exact ⟨hvalid.2.1, hvalid.2.2.2.2.1 0 (by omega), hvalid.2.2.2.2.1 1 (by omega)⟩
    · intro hvalid
      refine ⟨hmagic, hvalid.1, by rw [hcount]; decide, by rw [hcount]; exact hroom, ?_, _, harea, ?_⟩
      · intro i hi
        by_cases hzero : i = 0
        · rw [hzero]
          exact hvalid.2.1
        · rw [(by omega : i = 1)]
          exact hvalid.2.2
      · rw [getSeparatorKey_eq hread (by omega) harea, hcount] at hseparator
        rw [hcount]
        exact validateSeparators_one hseparator (by rw [length_window]; omega)
  constructor
  · intro hroutes
    rcases hroutes.listed with ⟨node', separators, hread', hlisted, hperm, -⟩
    rw [← Except.ok.inj (hread.symm.trans hread'), List.perm_singleton.mp hperm] at hlisted
    have hseparator := hkeys.mp hlisted
    have hvalid := (haccepted hseparator).mp hroutes.accepted
    refine ⟨hvalid.1, hvalid.2.1, hvalid.2.2, hseparator, ?_⟩
    by_cases hempty : separator = []
    · exact Or.inl hempty
    · have hlt : [] < separator := by
        cases separator with
        | nil => exact absurd rfl hempty
        | cons b rest => exact List.nil_lt_cons b rest
      rcases hroutes.routed [] with ⟨found, hfind, hfor⟩
      rw [childFor_one, if_pos hlt] at hfor
      rw [hfound [] hseparator, if_pos hlt] at hfind
      exact Or.inr ((Option.some.inj (Except.ok.inj hfind)).trans hfor)
  · intro hgood
    rcases hgood with ⟨hlevel, hleft', hright', hseparator, hfirst⟩
    refine ⟨(haccepted hseparator).mpr ⟨hlevel, hleft', hright'⟩,
      ⟨node, [separator], hread, hkeys.mpr hseparator, List.Perm.refl _, List.pairwise_singleton _ _⟩, ?_⟩
    intro key
    refine ⟨_, hfound key hseparator, childFor_one.mpr ?_⟩
    by_cases hlt : key < separator
    · rw [if_pos hlt, if_pos hlt]
      rcases hfirst with hempty | hfirst
      · rw [hempty] at hlt
        exact absurd hlt (List.not_lt_nil key)
      · exact hfirst
    · rw [if_neg hlt, if_neg hlt]

end

end Northstar.Zig
