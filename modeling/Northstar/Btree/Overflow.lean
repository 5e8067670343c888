import Northstar.Btree.Node

/-!
# Overflow — large values in chains of pages

`btree/overflow.rs`: the payload of an overflow page, and the ten bytes that stand for a chain in
the leaf entry.
-/

namespace Northstar.Btree

open Bytes

def overflowMagic : UInt32 := 0x4F56464C
def inlineThreshold : Nat := 2000
def maxValueSize : Nat := 16777215
def overflowDataSize : Nat := 16332
def overflowValueMarker : UInt16 := 0xFFFF

structure OverflowPage where
  magic : UInt32
  nextPage : UInt64
  data : Bytes
  deriving Repr, DecidableEq

namespace OverflowPage

def withData (data : Bytes) (nextPage : UInt64) : OverflowPage where
  magic := overflowMagic
  nextPage := nextPage
  data := data

def new : OverflowPage := withData [] 0

def isLast (page : OverflowPage) : Bool := page.nextPage == 0

def validate (page : OverflowPage) : Except Error Unit :=
  if page.magic ≠ overflowMagic then
    .error (.validation (.generic ("Invalid overflow page magic: expected 0x" ++
      hex8 overflowMagic ++ ", got 0x" ++ hex8 page.magic)))
  else if page.data.length > overflowDataSize then
    .error (.validation (.generic ("Overflow page data too large: " ++ toString page.data.length ++
      " bytes (max " ++ toString overflowDataSize ++ ")")))
  else .ok ()

def toBytes (page : OverflowPage) : Bytes := u32 page.magic ++ (u64 page.nextPage ++ page.data)

def fromBytes (bytes : Bytes) : Except Error OverflowPage := do
  if bytes.length < 12 then
    .error (.validation (.generic ("Overflow page payload too short: " ++ toString bytes.length ++
      " bytes (min 12)")))
  else
    let page : OverflowPage := {
      magic := readU32 (window bytes 0 4)
      nextPage := readU64 (window bytes 4 8)
      data := bytes.drop 12 }
    page.validate
    .ok page

def pagesNeeded (valueLength : Nat) : Nat :=
  if valueLength = 0 then 0 else (valueLength + overflowDataSize - 1) / overflowDataSize

theorem exists_chunks {value : Bytes} (h : value ≠ []) : ∃ n, pagesNeeded value.length = n + 1 ∧
    window value (0 * overflowDataSize) overflowDataSize ++
      window value (1 * overflowDataSize) (n * overflowDataSize) = value := by
  have hpos : value.length ≠ 0 := fun hz => h (List.length_eq_zero_iff.mp hz)
  have hpages : pagesNeeded value.length = (value.length + overflowDataSize - 1) / overflowDataSize := if_neg hpos
  have hcover : value.length ≤ pagesNeeded value.length * overflowDataSize := by
    rw [hpages]
    simp only [overflowDataSize]
    omega
  have hsome : ∃ n, pagesNeeded value.length = n + 1 := by
    apply Nat.exists_eq_succ_of_ne_zero
    intro hz
    rw [hz] at hcover
    omega
  rcases hsome with ⟨n, hn⟩
  refine ⟨n, hn, ?_⟩
  have hsplit := window_split value 0 overflowDataSize (n * overflowDataSize)
  have hwhole : window value 0 (overflowDataSize + n * overflowDataSize) = value := by
    rw [window, List.drop_zero]
    apply List.take_of_length_le
    rw [hn, Nat.succ_mul] at hcover
    omega
  rw [hwhole] at hsplit
  simpa only [Nat.zero_mul, Nat.zero_add, Nat.one_mul] using hsplit.symm

def shouldStoreInline (valueLength : Nat) : Bool := valueLength ≤ inlineThreshold

theorem validate_eq_ok_iff (page : OverflowPage) :
    page.validate = .ok () ↔ page.magic = overflowMagic ∧ page.data.length ≤ overflowDataSize := by
  simp only [validate, Except.guard_eq_ok_iff, ne_eq, Decidable.not_not, gt_iff_lt, Nat.not_lt,
    and_true]

@[simp] theorem length_toBytes (page : OverflowPage) :
    page.toBytes.length = 12 + page.data.length := by
  simp only [toBytes, List.length_append, length_u32, length_u64]
  omega

theorem fromBytes_toBytes {page : OverflowPage} (h : page.validate = .ok ()) :
    fromBytes page.toBytes = .ok page := by
  have hdrop : page.toBytes.drop 12 = page.data := by
    rw [toBytes, ← List.append_assoc]
    apply List.drop_left'
    rw [List.length_append, length_u32, length_u64]
  rw [fromBytes, if_neg (by rw [length_toBytes]; omega), hdrop]
  simp (disch := simp) only [toBytes, window_append_right, window_head, length_u32, Nat.reduceSub,
    readU32_u32, readU64_u64, h, Except.ok_bind]

end OverflowPage

inductive ValueStorage where
  | inline (value : Bytes)
  | overflow (pageId : PageId)
  deriving Repr, DecidableEq

namespace ValueStorage

def encode : ValueStorage → Bytes
  | .inline value => u16 (UInt16.ofNat value.length) ++ value
  | .overflow pageId => u16 overflowValueMarker ++ u64 pageId

def decode (bytes : Bytes) : Except Fault ValueStorage :=
  if bytes.length < 2 then
    .error (.err (.validation (.generic ("Value storage too short: " ++ toString bytes.length ++
      " bytes (min 2)"))))
  else
    let valueLen := readU16 (window bytes 0 2)
    if valueLen = overflowValueMarker then
      if bytes.length < 10 then
        .error (.err (.validation (.generic ("Overflow reference too short: " ++
          toString bytes.length ++ " bytes (expected 10)"))))
      else .ok (.overflow (readU64 (window bytes 2 8)))
    else if 2 + valueLen.toNat ≤ bytes.length then .ok (.inline (window bytes 2 valueLen.toNat))
    else .error .panic

end ValueStorage

/-- `is_overflow_value`: ten bytes that start with the marker. -/
def isOverflowValue (entry : Entry) : Bool :=
  entry.value.length == 10 && readU16 (window entry.value 0 2) == overflowValueMarker

theorem isOverflowValue_encode (key : Bytes) (pageId : PageId) (lsn : UInt64) :
    isOverflowValue ⟨key, (ValueStorage.overflow pageId).encode, lsn⟩ = true := by
  simp (disch := simp) only [isOverflowValue, ValueStorage.encode, window_head, readU16_u16,
    List.length_append, length_u16, length_u64, BEq.rfl, Bool.and_self]

theorem decode_encode_overflow (pageId : PageId) :
    ValueStorage.decode (ValueStorage.overflow pageId).encode = .ok (.overflow pageId) := by
  simp (disch := simp) only [ValueStorage.decode, ValueStorage.encode, window_head, readU16_u16,
    List.length_append, length_u16, length_u64, window_append_right, Nat.reduceAdd,
    Nat.reduceLT, if_false, if_true, Nat.reduceSub, window_zero_length, readU64_u64]

end Northstar.Btree
