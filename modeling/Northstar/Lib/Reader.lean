import Northstar.Lib.Bytes
import Northstar.Lib.Except

/-!
# Reader — reading a byte stream from the front

A reader takes what it needs from the front of its input and leaves the rest.  It reads back a value
from some bytes if it does so whatever follows them; such facts compose along a sequence of reads, and
over a list of values that are written one after another.
-/

abbrev Reader (ε α : Type) := StateT Bytes (Except ε) α

namespace Reader

open Bytes

variable {ε α β : Type}

/-- The next `len` bytes. -/
def readExact (eof : ε) (len : Nat) : Reader ε Bytes := fun data =>
  if data.length < len then .error eof else .ok (data.take len, data.drop len)

def readU8 (eof : ε) : Reader ε UInt8 := do return (← readExact eof 1).headD 0
def readU16 (eof : ε) : Reader ε UInt16 := do return Bytes.readU16 (← readExact eof 2)
def readU32 (eof : ε) : Reader ε UInt32 := do return Bytes.readU32 (← readExact eof 4)
def readU64 (eof : ε) : Reader ε UInt64 := do return Bytes.readU64 (← readExact eof 8)

/-- A computation that reads nothing. -/
def lift (x : Except ε α) : Reader ε α := fun data => do return (← x, data)

/-- The same read, `count` times. -/
def readMany (r : Reader ε α) : Nat → Reader ε (List α)
  | 0 => pure []
  | count + 1 => do
    let a ← r
    let as ← readMany r count
    return a :: as

/-- Reads until nothing is left, as long as the fuel lasts. -/
def readAll (r : Reader ε α) : Nat → Bytes → Except ε (List α)
  | 0, _ => .ok []
  | fuel + 1, data =>
    if data = [] then .ok []
    else do
      let (a, rest) ← r data
      let as ← readAll r fuel rest
      return a :: as

/-- The reader reads `a` back from `bytes`. -/
def Reads (r : Reader ε α) (bytes : Bytes) (a : α) : Prop :=
  ∀ rest, r (bytes ++ rest) = .ok (a, rest)

variable {as : List α}

variable {b : β} {data rest : Bytes}

namespace Reads

variable {r : Reader ε α} {bytes : Bytes} {a : α}

theorem pure (a : α) : Reads (Pure.pure a : Reader ε α) [] a := fun _ => rfl

theorem step (h : Reads r bytes a) (f : α → Reader ε β) (rest : Bytes) : (r >>= f) (bytes ++ rest) = f a rest := by
  show (r (bytes ++ rest) >>= fun x => f x.1 x.2) = _
  rw [h, Except.ok_bind]

theorem bind {f : α → Reader ε β} {bytes' : Bytes} (h : Reads r bytes a)
    (h' : Reads (f a) bytes' b) : Reads (r >>= f) (bytes ++ bytes') b := by
  intro rest
  rw [List.append_assoc, h.step]
  exact h' rest

theorem lift {x : Except ε α} (h : x = .ok a) : Reads (Reader.lift x) [] a := by
  intro rest
  rw [h]
  rfl

theorem bind_lift {f : α → Reader ε β} (h : Reads r bytes a) (h' : Reads (f a) [] b) :
    Reads (r >>= f) bytes b := by
  have hbind := h.bind h'
  rwa [List.append_nil] at hbind

theorem map (h : Reads r bytes a) (f : α → β) :
    Reads (r >>= fun a => Pure.pure (f a)) bytes (f a) := by
  apply h.bind_lift
  exact pure (f a)

theorem many_map {enc : β → Bytes} {g : β → α} {bs : List β} (h : ∀ b ∈ bs, Reads r (enc b) (g b)) :
    Reads (readMany r bs.length) (bs.map enc).flatten (bs.map g) := by
  induction bs with
  | nil => exact pure []
  | cons b bs ih =>
    apply (h b (List.mem_cons_self ..)).bind
    have htail := ih fun b' hb' => h b' (List.mem_cons_of_mem _ hb')
    exact htail.map (g b :: ·)

theorem many {enc : α → Bytes} (h : ∀ a ∈ as, Reads r (enc a) a) :
    Reads (readMany r as.length) (as.map enc).flatten as := by
  have hmany := many_map (g := id) h
  rwa [List.map_id] at hmany

end Reads

/-- The bytes of some values one after another; a value that has none is an error. -/
def writeEach (w : α → Except ε Bytes) : List α → Except ε Bytes
  | [] => .ok []
  | a :: as => do
    let bytes ← w a
    let rest ← writeEach w as
    return bytes ++ rest

variable {w : α → Except ε Bytes}

theorem exists_writeEach (h : ∀ a ∈ as, ∃ bytes, w a = .ok bytes) :
    ∃ bytes, writeEach w as = .ok bytes := by
  induction as with
  | nil => exact ⟨[], rfl⟩
  | cons a as ih =>
    rcases h a (List.mem_cons_self ..) with ⟨bytes, hbytes⟩
    rcases ih fun a' ha' => h a' (List.mem_cons_of_mem _ ha') with ⟨rest, hrest⟩
    unfold writeEach
    rw [hbytes, Except.ok_bind, hrest]
    exact ⟨bytes ++ rest, rfl⟩

theorem length_writeEach {size : α → Nat} {bytes : Bytes}
    (hsize : ∀ a ∈ as, ∀ bytes, w a = .ok bytes → bytes.length = size a) (h : writeEach w as = .ok bytes) :
    bytes.length = (as.map size).sum := by
  induction as generalizing bytes with
  | nil =>
    cases h
    rfl
  | cons a as ih =>
    rcases Except.bind_eq_ok_iff.mp h with ⟨head, hhead, htail⟩
    rcases Except.bind_eq_ok_iff.mp htail with ⟨rest, hrest, hbytes⟩
    cases hbytes
    rw [List.length_append, hsize a (List.mem_cons_self ..) head hhead,
      ih (fun a' ha' => hsize a' (List.mem_cons_of_mem _ ha')) hrest]
    rfl

/-- The value has bytes, and it is read back from them. -/
def RoundTrips (w : α → Except ε Bytes) (r : Reader ε α) (a : α) : Prop :=
  ∃ bytes, w a = .ok bytes ∧ Reads r bytes a

theorem RoundTrips.each {r : Reader ε α}
    (h : ∀ a ∈ as, RoundTrips w r a) : RoundTrips (writeEach w) (readMany r as.length) as := by
  induction as with
  | nil => exact ⟨[], rfl, Reads.pure []⟩
  | cons a as ih =>
    rcases h a (List.mem_cons_self ..) with ⟨bytes, hbytes, hread⟩
    rcases ih fun a' ha' => h a' (List.mem_cons_of_mem _ ha') with ⟨rest, hrest, htail⟩
    refine ⟨bytes ++ rest, ?_, hread.bind (htail.map (a :: ·))⟩
    unfold writeEach
    rw [hbytes, Except.ok_bind, hrest]
    rfl

theorem reads_exact (eof : ε) (bytes : Bytes) : Reads (readExact eof bytes.length) bytes bytes := by
  intro rest
  unfold readExact
  rw [if_neg (by rw [List.length_append]; omega), List.take_left, List.drop_left]

theorem reads_u8 (eof : ε) (x : UInt8) : Reads (readU8 eof) [x] x :=
  (reads_exact eof [x]).map _

theorem reads_u16 (eof : ε) (x : UInt16) : Reads (readU16 eof) (u16 x) x := by
  have h := (reads_exact eof (u16 x)).map Bytes.readU16
  rwa [readU16_u16, length_u16] at h

theorem reads_u32 (eof : ε) (x : UInt32) : Reads (readU32 eof) (u32 x) x := by
  have h := (reads_exact eof (u32 x)).map Bytes.readU32
  rwa [readU32_u32, length_u32] at h

theorem reads_u64 (eof : ε) (x : UInt64) : Reads (readU64 eof) (u64 x) x := by
  have h := (reads_exact eof (u64 x)).map Bytes.readU64
  rwa [readU64_u64, length_u64] at h

theorem readExact_eq_ok {eof : ε} {len : Nat} {bytes : Bytes}
    (h : readExact eof len data = .ok (bytes, rest)) : data = bytes ++ rest ∧ bytes.length = len := by
  unfold readExact at h
  split at h
  · cases h
  next hlen =>
    cases h
    exact ⟨(List.take_append_drop len data).symm, List.length_take_of_le (Nat.not_lt.mp hlen)⟩

theorem bind_eq_ok {r : Reader ε α} {f : α → Reader ε β}
    (h : (r >>= f) data = .ok (b, rest)) : ∃ a rest', r data = .ok (a, rest') ∧ f a rest' = .ok (b, rest) := by
  rcases Except.bind_eq_ok_iff.mp h with ⟨⟨a, rest'⟩, hr, hf⟩
  exact ⟨a, rest', hr, hf⟩

theorem readWord_eq_ok {eof : ε} {len : Nat} {f : Bytes → α} {a : α}
    (h : (do return f (← readExact eof len) : Reader ε α) data = .ok (a, rest)) :
    ∃ bytes, data = bytes ++ rest ∧ bytes.length = len ∧ a = f bytes := by
  rcases bind_eq_ok h with ⟨bytes, rest', hread, hreturn⟩
  cases hreturn
  exact ⟨bytes, (readExact_eq_ok hread).1, (readExact_eq_ok hread).2, rfl⟩

theorem readAll_eq {r : Reader ε α} {enc : α → Bytes} (h : ∀ a ∈ as, Reads r (enc a) a)
    (hne : ∀ a ∈ as, enc a ≠ []) {fuel : Nat} (hfuel : as.length ≤ fuel) :
    readAll r fuel (as.map enc).flatten = .ok as := by
  induction as generalizing fuel with
  | nil =>
    cases fuel with
    | zero => rfl
    | succ fuel => rfl
  | cons a as ih =>
    cases fuel with
    | zero => exact absurd hfuel (Nat.not_succ_le_zero _)
    | succ fuel =>
      have hsome : ((a :: as).map enc).flatten ≠ [] := by
        rw [List.map_cons, List.flatten_cons]
        intro hnil
        exact hne a (List.mem_cons_self ..) (List.append_eq_nil_iff.mp hnil).1
      unfold readAll
      rw [if_neg hsome, List.map_cons, List.flatten_cons, h a (List.mem_cons_self ..), Except.ok_bind]
      dsimp only
      rw [ih (fun a' ha' => h a' (List.mem_cons_of_mem _ ha'))
        (fun a' ha' => hne a' (List.mem_cons_of_mem _ ha')) (Nat.le_of_succ_le_succ hfuel)]
      rfl

end Reader
