import Northstar.Lib.File
import Northstar.Page

/-!
# Storage — pages in a file

`pager/storage.rs`, the file backend.  The cursor is set before every transfer, so the state is the
bytes of the file.  Reading past the end and offsets that do not fit fail; other I/O succeeds.
-/

namespace Northstar

open Bytes

structure FileStorage where
  data : Bytes
  deriving Repr, DecidableEq

namespace FileStorage

/-- `page_id.checked_mul(PAGE_SIZE)`, then the seek: an offset is a signed 64-bit number to the
operating system. -/
def seekPage (pageId : PageId) : Except Error Nat :=
  let offset := pageId.toNat * pageSize
  if offset ≥ 2 ^ 64 then
    .error (.io (.internalError ("Page ID overflow: " ++ toString pageId ++ " * " ++
      toString pageSize)))
  else if offset ≥ 2 ^ 63 then
    .error (.io (.generic "Invalid argument (os error 22)"))
  else .ok offset

-- The buffer is a parameter in the source; every caller passes one of `PAGE_SIZE` bytes.
def readPage (storage : FileStorage) (pageId : PageId) : Except Error Bytes := do
  let offset ← seekPage pageId
  match File.readExactAt storage.data offset pageSize with
  | some buffer => .ok buffer
  | none => .error (.io (.fileTooSmall "unknown" offset (offset + pageSize)))

def writePage (storage : FileStorage) (pageId : PageId) (buffer : Bytes) :
    Except Error FileStorage := do
  if buffer.length ≠ pageSize then
    .error (.io (.internalError ("Buffer size mismatch: expected " ++ toString pageSize ++ ", got " ++
      toString buffer.length)))
  else
    let offset ← seekPage pageId
    .ok ⟨(File.writeAll ⟨storage.data, offset⟩ buffer).data⟩

def pageCount (storage : FileStorage) : Nat := storage.data.length / pageSize

/-- The page ids a seek accepts. -/
def Addressable (pageId : PageId) : Prop := pageId.toNat * pageSize < 2 ^ 63

instance (pageId : PageId) : Decidable (Addressable pageId) :=
  inferInstanceAs (Decidable (_ < _))

variable {pageId : PageId} {storage storage' : FileStorage} {buffer : Bytes}

theorem seekPage_eq_ok_iff {offset : Nat} :
    seekPage pageId = .ok offset ↔ Addressable pageId ∧ offset = pageId.toNat * pageSize := by
  simp only [seekPage, Except.guard_eq_ok_iff, Except.ok.injEq, Addressable]
  omega

theorem readPage_eq_ok_iff : storage.readPage pageId = .ok buffer ↔
      Addressable pageId ∧ pageId.toNat * pageSize + pageSize ≤ storage.data.length ∧
        buffer = window storage.data (pageId.toNat * pageSize) pageSize := by
  unfold readPage
  rw [Except.bind_eq_ok_iff]
  constructor
  · rintro ⟨offset, hseek, hread⟩
    rcases seekPage_eq_ok_iff.mp hseek with ⟨haddr, rfl⟩
    by_cases hle : pageId.toNat * pageSize + pageSize ≤ storage.data.length
    · simp only [File.readExactAt, if_pos hle, Except.ok.injEq] at hread
      exact ⟨haddr, hle, hread.symm⟩
    · simp only [File.readExactAt, if_neg hle] at hread
      cases hread
  · rintro ⟨haddr, hle, rfl⟩
    exact ⟨_, seekPage_eq_ok_iff.mpr ⟨haddr, rfl⟩, by simp only [File.readExactAt, if_pos hle]⟩

theorem length_of_readPage (h : storage.readPage pageId = .ok buffer) : buffer.length = pageSize := by
  rcases readPage_eq_ok_iff.mp h with ⟨-, hle, rfl⟩
  exact length_window_of_le hle

theorem writePage_eq_ok_iff : storage.writePage pageId buffer = .ok storage' ↔
      buffer.length = pageSize ∧ Addressable pageId ∧
        storage' = ⟨(File.writeAll ⟨storage.data, pageId.toNat * pageSize⟩ buffer).data⟩ := by
  unfold writePage
  rw [Except.guard_eq_ok_iff, Except.bind_eq_ok_iff, ne_eq, Decidable.not_not]
  constructor
  · rintro ⟨hlen, offset, hseek, hwrite⟩
    rcases seekPage_eq_ok_iff.mp hseek with ⟨haddr, rfl⟩
    exact ⟨hlen, haddr, (Except.ok.inj hwrite).symm⟩
  · rintro ⟨hlen, haddr, rfl⟩
    exact ⟨hlen, _, seekPage_eq_ok_iff.mpr ⟨haddr, rfl⟩, rfl⟩

theorem exists_writePage (storage : FileStorage) (pageId : PageId)
    (hlen : buffer.length = pageSize) (haddr : Addressable pageId) :
    ∃ storage', storage.writePage pageId buffer = .ok storage' :=
  ⟨_, writePage_eq_ok_iff.mpr ⟨hlen, haddr, rfl⟩⟩

theorem readPage_of_writePage
    (h : storage.writePage pageId buffer = .ok storage') : storage'.readPage pageId = .ok buffer := by
  rcases writePage_eq_ok_iff.mp h with ⟨hlen, haddr, rfl⟩
  have hwin := File.window_writeAll_self ⟨storage.data, pageId.toNat * pageSize⟩ buffer
  rw [hlen] at hwin
  apply readPage_eq_ok_iff.mpr
  refine ⟨haddr, ?_, hwin.symm⟩
  rw [File.length_writeAll, hlen]
  exact Nat.le_max_right _ _

theorem readPage_of_writePage_ne {other : PageId}
    {page : Bytes} (h : storage.writePage pageId buffer = .ok storage')
    (hne : other ≠ pageId) (hpage : storage.readPage other = .ok page) :
    storage'.readPage other = .ok page := by
  rcases writePage_eq_ok_iff.mp h with ⟨hlen, -, rfl⟩
  rcases readPage_eq_ok_iff.mp hpage with ⟨haddr, hle, rfl⟩
  have hnat : other.toNat ≠ pageId.toNat := fun heq => hne (UInt64.toNat_inj.mp heq)
  have hwin : window (File.writeAll ⟨storage.data, pageId.toNat * pageSize⟩ buffer).data
      (other.toNat * pageSize) pageSize = window storage.data (other.toNat * pageSize) pageSize := by
    rcases Nat.lt_or_gt_of_ne hnat with hlt | hgt
    · apply File.window_writeAll_before
      · show other.toNat * pageSize + pageSize ≤ pageId.toNat * pageSize
        rw [← Nat.succ_mul]
        exact Nat.mul_le_mul_right _ hlt
      · exact hle
    · apply File.window_writeAll_after
      show pageId.toNat * pageSize + buffer.length ≤ other.toNat * pageSize
      rw [hlen, ← Nat.succ_mul]
      exact Nat.mul_le_mul_right _ hgt
  apply readPage_eq_ok_iff.mpr
  refine ⟨haddr, ?_, hwin.symm⟩
  rw [File.length_writeAll]
  exact hle.trans (Nat.le_max_left _ _)

theorem toOption_readPage_of_writePage_ne {other : PageId}
    (h : storage.writePage pageId buffer = .ok storage')
    (hgap : pageId.toNat * pageSize ≤ storage.data.length) (hne : other ≠ pageId) :
    (storage'.readPage other).toOption = (storage.readPage other).toOption := by
  cases hread : storage.readPage other with
  | ok page => rw [readPage_of_writePage_ne h hne hread]
  | error e =>
    cases hread' : storage'.readPage other with
    | error e' => rfl
    | ok page' =>
      rcases writePage_eq_ok_iff.mp h with ⟨hlen, -, rfl⟩
      rcases readPage_eq_ok_iff.mp hread' with ⟨haddr, hle, -⟩
      rw [File.length_writeAll, hlen] at hle
      have hshort : storage.data.length < other.toNat * pageSize + pageSize := by
        by_contra hge
        have hok := readPage_eq_ok_iff.mpr ⟨haddr, not_lt.mp hge, rfl⟩
        rw [hread] at hok
        cases hok
      -- then the page lies behind the old end and not behind the new one: it is the written page
      have hnat : other.toNat ≠ pageId.toNat := fun heq => hne (UInt64.toNat_inj.mp heq)
      have hle : other.toNat * pageSize + pageSize ≤ pageId.toNat * pageSize + pageSize := by
        rcases le_max_iff.mp hle with hle | hle
        · exact absurd hle (not_le.mpr hshort)
        · exact hle
      simp only [pageSize] at *
      omega

end FileStorage

end Northstar
