import ContextDb.Lib.Bytes

/-!
# Errors

Every way an operation of the database can fail, with the data each failure
reports. A failed request to the file system arrives as `CndbError.io`; the
other cases are found by the database itself.
-/

namespace ContextDb

open ByteFile

/-- Identifier of a stored document, unique for the life of the database. -/
structure DocId where
  /-- The number behind the identifier. -/
  raw : UInt64
  deriving DecidableEq

/-- What the file system reports. -/
inductive IoError where
  /-- A read met the end of the file: “failed to fill whole buffer”. -/
  | unexpectedEof
  /-- A write or a sync was not carried out. -/
  | fault
  deriving DecidableEq

/-- Every way a cndb operation can fail. -/
inductive CndbError where
  | io (e : IoError)
  | badMagic (expected found : Bytes)
  | unsupportedVersion (found supported : UInt32)
  | noValidHeader
  | headerChecksum (slot : ℕ)
  | recordChecksum (offset : UInt64)
  | recordTooLarge (offset len max : UInt64)
  | unknownRecordKind (kind : UInt8) (offset : UInt64)
  | unexpectedEof (offset needed : UInt64)
  | notFound (id : DocId)
  | deleted (id : DocId)
  | bson (message : String)
  | notAnObject (found : String)
  | corruptIndex (message : String)
  deriving DecidableEq

end ContextDb
