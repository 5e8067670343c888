import Northstar.Lib.Bytes

/-!
# File — a byte file with one cursor

The part of `std::fs::File` the stores use: `write_all` writes at the cursor and moves it, never
shortens the file, and leaves whatever lies behind the written range in place.  I/O itself is
assumed to succeed; only reading past the end fails.
-/

structure File where
  data : Bytes
  pos : Nat
  deriving Repr, DecidableEq

namespace File

def create : File := ⟨[], 0⟩

/-- `file.seek(SeekFrom::Start(pos))`. -/
def seek (f : File) (pos : Nat) : File := { f with pos := pos }

/-- `file.metadata().len()`. -/
def size (f : File) : Nat := f.data.length

/-- `file.write_all(bytes)`: a gap between the end of the file and the cursor is filled with zeros. -/
def writeAll (f : File) (bytes : Bytes) : File where
  data := f.data.take f.pos ++ List.replicate (f.pos - f.data.length) 0 ++ bytes ++
    f.data.drop (f.pos + bytes.length)
  pos := f.pos + bytes.length

/-- `seek` followed by `read_exact` of `len` bytes. -/
def readExactAt (data : Bytes) (pos len : Nat) : Option Bytes :=
  if pos + len ≤ data.length then some (Bytes.window data pos len) else none

theorem length_writeAll (f : File) (bytes : Bytes) :
    (f.writeAll bytes).data.length = max f.data.length (f.pos + bytes.length) := by
  simp only [writeAll, List.length_append, List.length_take, List.length_replicate,
    List.length_drop]
  omega

/-- What lies in front of the written bytes has the length of the cursor, gap included. -/
theorem length_before_write (f : File) :
    (f.data.take f.pos ++ List.replicate (f.pos - f.data.length) (0 : UInt8)).length = f.pos := by
  simp only [List.length_append, List.length_take, List.length_replicate]
  omega

theorem window_writeAll_self (f : File) (bytes : Bytes) :
    Bytes.window (f.writeAll bytes).data f.pos bytes.length = bytes := by
  show Bytes.window (_ ++ bytes ++ _) _ _ = _
  rw [List.append_assoc]
  exact Bytes.window_append_middle (length_before_write f) rfl

theorem window_writeAll_before (f : File) (bytes : Bytes) {off len : Nat}
    (hpos : off + len ≤ f.pos) (hdata : off + len ≤ f.data.length) :
    Bytes.window (f.writeAll bytes).data off len = Bytes.window f.data off len := by
  have hfront : off + len ≤ (f.data.take f.pos).length := by
    rw [List.length_take]
    omega
  show Bytes.window (f.data.take f.pos ++ _ ++ bytes ++ _) _ _ = _
  rw [List.append_assoc, List.append_assoc, Bytes.window_append_left hfront, Bytes.window,
    Bytes.window, List.drop_take, List.take_take, Nat.min_eq_left (by omega)]

theorem window_writeAll_after (f : File) (bytes : Bytes) {off len : Nat}
    (hpos : f.pos + bytes.length ≤ off) :
    Bytes.window (f.writeAll bytes).data off len = Bytes.window f.data off len := by
  have hlen : (f.data.take f.pos ++ List.replicate (f.pos - f.data.length) (0 : UInt8) ++
      bytes).length = f.pos + bytes.length := by
    rw [List.length_append, length_before_write]
  show Bytes.window (_ ++ bytes ++ f.data.drop _) _ _ = _
  rw [Bytes.window_append_right (hlen.trans_le hpos), hlen, Bytes.window_drop]
  congr 1
  omega

/-- Writing where the file was left off: the bytes written since the cursor stood at `base.length`
replace as many of the old bytes behind it, and the rest of them survives. -/
theorem writeAll_over (base written tail bytes : Bytes) :
    writeAll ⟨base ++ written ++ tail.drop written.length, base.length + written.length⟩ bytes =
      ⟨base ++ (written ++ bytes) ++ tail.drop (written ++ bytes).length,
        base.length + (written ++ bytes).length⟩ := by
  have hlen : (base ++ written).length = base.length + written.length := List.length_append
  have hgap : base.length + written.length -
      (base ++ written ++ tail.drop written.length).length = 0 := by
    simp only [List.length_append]
    omega
  simp only [writeAll, hgap, File.mk.injEq]
  constructor
  · rw [← hlen, List.take_left' rfl, List.replicate_zero, List.append_nil,
      List.drop_append, List.drop_eq_nil_of_le (by omega), List.nil_append,
      Nat.add_sub_cancel_left, List.drop_drop, List.length_append, List.append_assoc base]
  · rw [List.length_append]
    omega

end File

/-!
# FrameLog — scanning a log of self-delimiting frames

A log reader looks at the bytes that are left, and either reads one frame and says how long it
was, or stops, or fails.  `Reads` repeats it.  A frame that reads the same whatever follows it can
be stepped over, and when every proper prefix of a frame makes the reader stop, cutting the log at
any byte leaves exactly the frames that lie before the cut.
-/

namespace FrameLog

/-- What a reader makes of the bytes that are left. -/
inductive Step (ρ ε : Type) where
  | frame (record : ρ) (size : Nat)
  | stop
  | fail (e : ε)

variable {ρ ε : Type}

/-- Reading `rest` frame by frame until the reader stops gives the records `rs`, which take the
first `n` bytes of it.  A reader that fails on the way has no such run. -/
inductive Reads (next : Bytes → Step ρ ε) : Bytes → List ρ → Nat → Prop where
  | stop {rest : Bytes} : next rest = .stop → Reads next rest [] 0
  | frame {rest : Bytes} {r : ρ} {size : Nat} {rs : List ρ} {n : Nat} :
      next rest = .frame r size → Reads next (rest.drop size) rs n →
        Reads next rest (r :: rs) (size + n)

/-- `f` is read as `r`, whatever follows it. -/
structure IsFrame (next : Bytes → Step ρ ε) (f : Bytes) (r : ρ) : Prop where
  nonempty : f ≠ []
  reads : ∀ rest, next (f ++ rest) = .frame r f.length

/-- Cutting `f` anywhere before its end makes the reader stop. -/
def StopsInside (next : Bytes → Step ρ ε) (f : Bytes) : Prop :=
  ∀ n < f.length, next (f.take n) = .stop

/-- How many of the leading frames, of the given lengths, end at or before byte `n`. -/
def complete : List Bytes → Nat → Nat
  | [], _ => 0
  | f :: fs, n => if f.length ≤ n then complete fs (n - f.length) + 1 else 0

theorem complete_le_length (fs : List Bytes) (n : Nat) : complete fs n ≤ fs.length := by
  induction fs generalizing n with
  | nil => exact Nat.le_refl 0
  | cons f fs ih =>
    rw [complete, List.length_cons]
    split
    · exact Nat.succ_le_succ (ih _)
    · omega

theorem complete_flatten_le (fs : List Bytes) (n : Nat) :
    (fs.take (complete fs n)).flatten.length ≤ n := by
  induction fs generalizing n with
  | nil => simp [complete]
  | cons f fs ih =>
    rw [complete]
    split
    · rename_i hle
      have hrest := ih (n - f.length)
      rw [List.take_succ_cons, List.flatten_cons, List.length_append]
      omega
    · simp

variable {next : Bytes → Step ρ ε}

/-- A reader that never fails and always moves on reads any bytes to an end. -/
theorem Reads.exists_of_total (hfail : ∀ rest e, next rest ≠ .fail e)
    (hsize : ∀ rest r size, next rest = .frame r size → 0 < size ∧ size ≤ rest.length)
    (rest : Bytes) : ∃ rs n, Reads next rest rs n := by
  induction hlen : rest.length using Nat.strongRecOn generalizing rest with
  | ind len ih =>
    cases hnext : next rest with
    | stop => exact ⟨[], 0, .stop hnext⟩
    | fail e => exact absurd hnext (hfail rest e)
    | frame r size =>
      have hbound := hsize rest r size hnext
      have hdrop : (rest.drop size).length = rest.length - size := List.length_drop
      obtain ⟨rs, n, hreads⟩ := ih (rest.drop size).length (by omega) (rest.drop size) rfl
      exact ⟨r :: rs, size + n, .frame hnext hreads⟩

variable {rs : List ρ}

theorem Reads.length_le (hsize : ∀ rest r size, next rest = .frame r size → 0 < size ∧ size ≤ rest.length)
    {rest : Bytes} {n : Nat} (h : Reads next rest rs n) :
    rs.length ≤ rest.length := by
  induction h with
  | stop _ => exact Nat.zero_le _
  | @frame rest r size rs n hframe _ ih =>
    have hbound := hsize rest r size hframe
    rw [List.length_drop] at ih
    rw [List.length_cons]
    omega

variable {fs : List Bytes}

/-- Frames in front of `tail` are read one after the other, then the reading goes on in `tail`. -/
theorem Reads.append {ts : List ρ} {tail : Bytes}
    {n : Nat} (h : List.Forall₂ (IsFrame next) fs rs) (htail : Reads next tail ts n) :
    Reads next (fs.flatten ++ tail) (rs ++ ts) (fs.flatten.length + n) := by
  induction h with
  | nil =>
    rw [List.flatten_nil, List.nil_append, List.nil_append, List.length_nil, Nat.zero_add]
    exact htail
  | @cons f r fs rs hf _ ih =>
    rw [List.flatten_cons, List.append_assoc, List.cons_append, List.length_append, Nat.add_assoc]
    apply Reads.frame (hf.reads _)
    rw [List.drop_left]
    exact ih

theorem Reads.of_append {xs : List ρ} {tail : Bytes}
    {m : Nat} (h : List.Forall₂ (IsFrame next) fs rs) (hreads : Reads next (fs.flatten ++ tail) xs m) :
    ∃ ts n, Reads next tail ts n ∧ xs = rs ++ ts ∧ m = fs.flatten.length + n := by
  induction h generalizing xs m with
  | nil => exact ⟨xs, m, hreads, rfl, by simp⟩
  | @cons f r fs rs hf _ ih =>
    rw [List.flatten_cons, List.append_assoc] at hreads
    have hnext := hf.reads (fs.flatten ++ tail)
    cases hreads with
    | stop hstop =>
      rw [hstop] at hnext
      cases hnext
    | frame hframe hrest =>
      rw [hframe] at hnext
      cases hnext
      rw [List.drop_left] at hrest
      obtain ⟨ts, n, htail, hxs, hm⟩ := ih hrest
      refine ⟨ts, n, htail, by rw [hxs, List.cons_append], ?_⟩
      rw [hm, List.flatten_cons, List.length_append, Nat.add_assoc]

/-- Cutting a log of frames at byte `n` leaves, for the reader, the frames that end at or before
`n`; the cut-off frame is not an error. -/
theorem Reads.take (h : List.Forall₂ (IsFrame next) fs rs) (hcut : ∀ f ∈ fs, StopsInside next f)
    (hnil : next [] = .stop) (n : Nat) :
    Reads next (fs.flatten.take n) (rs.take (complete fs n))
      (fs.take (complete fs n)).flatten.length := by
  induction h generalizing n with
  | nil =>
    rw [List.flatten_nil, List.take_nil]
    exact .stop hnil
  | @cons f r fs rs hf _ ih =>
    rw [List.flatten_cons, List.take_append, complete]
    by_cases hle : f.length ≤ n
    · rw [if_pos hle, List.take_of_length_le hle, List.take_succ_cons, List.take_succ_cons,
        List.flatten_cons, List.length_append]
      apply Reads.frame (hf.reads _)
      rw [List.drop_left]
      exact ih (fun g hg => hcut g (List.mem_cons_of_mem _ hg)) (n - f.length)
    · rw [if_neg hle, Nat.sub_eq_zero_of_le (by omega), List.take_zero, List.append_nil]
      exact .stop (hcut f List.mem_cons_self n (by omega))

end FrameLog
