import ContextDb.Error
import Mathlib.Data.List.Basic

/-!
# JSON to BSON document encoding

BSON is the payload format of stored documents. Only JSON objects are storable:
BSON's top-level type is a document, so a bare scalar or array has no
representation, and it is refused by name before anything is written.

The conversions themselves are those of the `bson` crate, which is not part of
the repository. `ContextDb.Bson` is what the program calls of it.
-/

namespace ContextDb

open ByteFile

/-- A JSON number: a natural number, a negative integer, or the bits of a
floating-point number. -/
inductive Number where
  | posInt (n : UInt64)
  | negInt (n : Int64)
  | float (bits : UInt64)
  deriving DecidableEq

/-- A JSON value. The members of an object come in the order of its map. -/
inductive Value where
  | null
  | bool (b : Bool)
  | number (n : Number)
  | string (s : String)
  | array (items : List Value)
  | object (members : List (String × Value))

/-- True for an object. -/
def Value.isObject : Value → Bool
  | .object _ => true
  | _ => false

/-- The JSON type name, for error messages. -/
def typeName : Value → String
  | .null => "null"
  | .bool _ => "a boolean"
  | .number _ => "a number"
  | .string _ => "a string"
  | .array _ => "an array"
  | .object _ => "an object"

/-- **What the program calls of the `bson` crate**, with the text of each
failure. -/
class Bson where
  /-- A BSON document. -/
  Document : Type
  /-- `bson::to_document`. -/
  toDocument : Value → Except String Document
  /-- `Document::to_writer`, into a buffer. -/
  toWriter : Document → Except String Bytes
  /-- `bson::from_slice`. -/
  fromSlice : Bytes → Except String Document
  /-- `bson::from_document`. -/
  fromDocument : Document → Except String Value

/-- A `bson` crate that knows the empty document only: five bytes, its length and
a terminator. -/
@[reducible] def emptyDocuments : Bson where
  Document := Unit
  toDocument
    | .object [] => .ok ()
    | _ => .error "unsupported value"
  toWriter _ := .ok [5, 0, 0, 0, 0]
  fromSlice bytes := if bytes = [5, 0, 0, 0, 0] then .ok () else .error "unsupported document"
  fromDocument _ := .ok (.object [])

section Codec

variable [Bson]

/-- Encode a JSON object as BSON bytes. -/
def toBsonBytes (value : Value) : Except CndbError Bytes :=
  if !value.isObject then .error (.notAnObject (typeName value))
  else match Bson.toDocument value with
    | .error e => .error (.bson e)
    | .ok doc => match Bson.toWriter doc with
      | .error e => .error (.bson e)
      | .ok out => .ok out

/-- Decode BSON bytes back into a JSON object. -/
def fromBsonBytes (bytes : Bytes) : Except CndbError Value :=
  match Bson.fromSlice bytes with
  | .error e => .error (.bson e)
  | .ok doc => match Bson.fromDocument doc with
    | .error e => .error (.bson e)
    | .ok value => .ok value

/-- **How encoding may fail**: the value is no object, or the crate refuses
it. -/
theorem toBsonBytes_error {value : Value} {err : CndbError}
    (h : toBsonBytes value = .error err) :
    err = .notAnObject (typeName value) ∨ ∃ message, err = .bson message := by
  rw [toBsonBytes] at h
  split at h
  · cases h
    exact Or.inl rfl
  · split at h
    · cases h
      exact Or.inr ⟨_, rfl⟩
    · split at h
      · cases h
        exact Or.inr ⟨_, rfl⟩
      · cases h

end Codec

end ContextDb
