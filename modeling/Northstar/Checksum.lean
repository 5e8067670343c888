import Northstar.Lib.Bytes

/-!
# Checksum — CRC32C as the code calls it

The `crc32c` crate is outside the repository: the codecs take `crc32c_append` as a parameter.
`crc32cAppend` is the Castagnoli polynomial itself, bit by bit, for results that need the law that
hashing in pieces is hashing at once.
-/

namespace Northstar

/-- `crc32c_append(init, data)`. -/
abbrev Crc := UInt32 → Bytes → UInt32

/-- `checksum::checksum`. -/
def checksum (crc : Crc) (data : Bytes) : UInt32 := crc 0 data

/-- `checksum::Crc32cHasher`. -/
structure Crc32cHasher where
  state : UInt32
  deriving Repr, DecidableEq

/-- `checksum::hasher`. -/
def hasher : Crc32cHasher := ⟨0⟩

def Crc32cHasher.update (crc : Crc) (h : Crc32cHasher) (data : Bytes) : Crc32cHasher :=
  { h with state := crc h.state data }

def Crc32cHasher.finalize (h : Crc32cHasher) : UInt32 := h.state

/-- Hashing in pieces is hashing at once: what `crc32c_append` documents. -/
def Crc.Appends (crc : Crc) : Prop := ∀ init a b, crc (crc init a) b = crc init (a ++ b)

def crc32cBit (state : UInt32) : UInt32 :=
  if state &&& 1 = 1 then (state >>> 1) ^^^ 0x82F63B78 else state >>> 1

def crc32cByte (state : UInt32) (byte : UInt8) : UInt32 :=
  Nat.repeat crc32cBit 8 (state ^^^ byte.toUInt32)

def crc32cAppend (init : UInt32) (data : Bytes) : UInt32 :=
  ~~~ data.foldl crc32cByte (~~~ init)

theorem crc32cAppend_appends : Crc.Appends crc32cAppend := by
  intro init a b
  simp only [crc32cAppend, List.foldl_append, UInt32.not_not]

/-- The published check value: CRC32C of `"123456789"`. -/
example : checksum crc32cAppend [0x31, 0x32, 0x33, 0x34, 0x35, 0x36, 0x37, 0x38, 0x39] =
    0xE3069283 := by decide +kernel

end Northstar

/-! ## `std.hash.Crc32`

The reflected polynomial 0xEDB88320 with all bits set at the start and inverted at the end.
-/

namespace Northstar.Zig

structure Crc32 where
  crc : UInt32
  deriving Repr, DecidableEq

namespace Crc32

def shiftBit (crc : UInt32) : UInt32 :=
  if crc &&& 1 = 1 then (crc >>> 1) ^^^ 0xEDB88320 else crc >>> 1

def shiftByte (crc : UInt32) (byte : UInt8) : UInt32 :=
  Nat.repeat shiftBit 8 (crc ^^^ byte.toUInt32)

def init : Crc32 := ⟨0xFFFFFFFF⟩

def update (h : Crc32) (bytes : Bytes) : Crc32 := ⟨bytes.foldl shiftByte h.crc⟩

def final (h : Crc32) : UInt32 := ~~~ h.crc

def hash (bytes : Bytes) : UInt32 := (init.update bytes).final

theorem update_append (h : Crc32) (a b : Bytes) : h.update (a ++ b) = (h.update a).update b := by
  unfold update
  rw [List.foldl_append]

/-- The published check value of `"123456789"`. -/
example : hash [0x31, 0x32, 0x33, 0x34, 0x35, 0x36, 0x37, 0x38, 0x39] = 0xCBF43926 := by
  decide +kernel

end Crc32

end Northstar.Zig
