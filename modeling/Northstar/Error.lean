import Northstar.Lib.Bytes

/-!
# Error — the error values of the modelled calls

The variants of `northstar_core::error` that the modelled code builds, with the data they carry.
`Fault` separates what a caller can observe: a returned `Err`, a panic, which no `?` and no
`if let Ok` intercepts, and a loop that never ends.
-/

namespace Northstar

/-- `{:08X}`. -/
def hex8 (x : UInt32) : String :=
  let digits := (Nat.toDigits 16 x.toNat).map Char.toUpper
  String.ofList (List.replicate (8 - digits.length) '0' ++ digits)

inductive IoError where
  | fileNotFound (path : String)
  | fileTooSmall (path : String) (size expected : Nat)
  | incompleteKey
  | generic (message : String)
  | internalError (message : String)
  deriving Repr, DecidableEq

inductive ValidationError where
  | checksumMismatch (expected actual : UInt32)
  | corruptBtree (pageId : Nat)
  | corruptedData
  | invalidChildPageId (pageId : UInt64)
  | invalidCommitMagic (expected actual : UInt32)
  | invalidMagic (expected actual : UInt32)
  | invalidHeaderSize (expected actual : Nat)
  | invalidOperationFlags (flags : UInt8)
  | invalidOperationType (typeVal : UInt8)
  | invalidLeafLevel (level : UInt16)
  | invalidReservedField (value : UInt32)
  | tooManyOperations (count max : UInt32)
  | generic (message : String)
  | invalidPageType (pageType : UInt8)
  | headerChecksumMismatch (expected actual : UInt32)
  | payloadLengthInvalid (len max : UInt32)
  | unsupportedVersion (major : UInt16) (minor patch : UInt8)
  | keyLengthMismatch (expected : UInt16) (actual : Nat)
  | valueLengthMismatch (expected : UInt32) (actual : Nat)
  | deleteHasValue
  deriving Repr, DecidableEq

inductive TransactionError where
  | snapshotNotFound (txnId : UInt64)
  | databaseClosed
  | generic (message : String)
  deriving Repr, DecidableEq

inductive StorageError where
  | pager (message : String)
  | invalidPageId (pageId : Nat)
  | wal (message : String)
  deriving Repr, DecidableEq

inductive SizeLimitError where
  | keyTooLarge (size max : Nat)
  | valueTooLarge (size max : Nat)
  | bufferTooSmall (size needed : Nat)
  deriving Repr, DecidableEq

inductive Error where
  | io (e : IoError)
  | validation (e : ValidationError)
  | transaction (e : TransactionError)
  | storage (e : StorageError)
  | sizeLimit (e : SizeLimitError)
  deriving Repr, DecidableEq

/-- How a call ends when it does not return `Ok`. -/
inductive Fault where
  | err (e : Error)
  | panic
  | diverge
  deriving Repr, DecidableEq

end Northstar
