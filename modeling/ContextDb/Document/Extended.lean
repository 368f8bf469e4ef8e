import ContextDb.Document.Codec

/-!
# From JSON to BSON and back

What becomes of a JSON value in the `bson` crate, which both conversions of the
codec go through. Each kind of JSON value has its BSON counterpart and comes back
from it, with two exceptions. An integer that is not a signed 64-bit number is
refused. And a map is not always a document: every map that has been converted is
given to `Bson::from_extended_document`, which reads MongoDB Extended JSON. A map
such as `{"$numberLong": "42"}` is a number from then on. The maps that are left
are looked at once more when the bytes are read, by `BsonVisitor::visit_map`, which
knows the same keys and is less particular about what stands beside them.

What the crate makes of a map, and how it gives back the values that have no other
JSON form, are parameters here (`ContextDb.ExtendedJson`); the conversions are
functions of these. The result is `ContextDb.ExtendedJson.back_serialize_iff`: a
value comes back exactly when it is *kept* (`ContextDb.ExtendedJson.Kept`) – no
object in it is altered, or those outermost that are come back as they were.
-/

namespace ContextDb

open ByteFile

/-! ### BSON values -/

/-- **A BSON value**, as far as JSON values become such. What only Extended JSON
denotes, such as an object id or a date, is `special`. -/
inductive BsonValue (S : Type) where
  | null
  | bool (b : Bool)
  | int64 (n : Int64)
  | double (bits : UInt64)
  | string (s : String)
  | array (items : List (BsonValue S))
  | document (fields : List (String × BsonValue S))
  | special (s : S)

/-- The bits of a floating-point number that is neither infinite nor no number at
all: its exponent is not the largest. -/
def IsFinite (bits : UInt64) : Prop := bits >>> 52 &&& 0x7FF ≠ 0x7FF

instance (bits : UInt64) : Decidable (IsFinite bits) := inferInstanceAs (Decidable (_ ≠ _))

/-- **A number that JSON has**: the negative ones are negative, and
floating-point numbers are finite. -/
def Number.IsJson : Number → Prop
  | .posInt _ => True
  | .negInt n => n < 0
  | .float bits => IsFinite bits

mutual

/-- **A JSON value as `serde_json` has it**: its numbers are JSON numbers, and its
objects are maps: no key comes twice. -/
def Value.IsJson : Value → Prop
  | .number n => n.IsJson
  | .array items => itemsAreJson items
  | .object members => (members.map Prod.fst).Nodup ∧ membersAreJson members
  | _ => True

/-- The items of an array are JSON. -/
def itemsAreJson : List Value → Prop
  | [] => True
  | v :: vs => v.IsJson ∧ itemsAreJson vs

/-- The members of an object are JSON. -/
def membersAreJson : List (String × Value) → Prop
  | [] => True
  | (_, v) :: ms => v.IsJson ∧ membersAreJson ms

end

/-! ### The conversions -/

/-- **What the crate makes of Extended JSON.** -/
structure ExtendedJson (S : Type) where
  /-- `Bson::from_extended_document`: what a converted map becomes, if it is no
  document. -/
  fromExtendedDocument : List (String × BsonValue S) → Option (BsonValue S)
  /-- `BsonVisitor::visit_map`, where it knows a key of the map: what the map
  becomes, if it is not refused. -/
  visitMap : List (String × BsonValue S) → Option (Option (BsonValue S))
  /-- The same visitor, for the map that the bytes of a special value are read
  as. -/
  visitSpecial : S → Option (BsonValue S)
  /-- `Bson::into_extended_document`: the JSON form of a special value. -/
  intoExtendedDocument : S → Option Value

namespace ExtendedJson

variable {S : Type} (X : ExtendedJson S)

mutual

/-- **`bson::to_bson`**: a JSON value as a BSON value, if it is not refused. -/
def serialize : Value → Option (BsonValue S)
  | .null => some .null
  | .bool b => some (.bool b)
  | .number (.posInt n) => if n.toNat < 2 ^ 63 then some (.int64 n.toInt64) else none
  | .number (.negInt n) => some (.int64 n)
  | .number (.float bits) => some (.double bits)
  | .string s => some (.string s)
  | .array items => (serializeItems items).map .array
  | .object members => (serializeMembers members).map fun fields =>
      (X.fromExtendedDocument fields).getD (.document fields)

/-- The items of an array, one by one. -/
def serializeItems : List Value → Option (List (BsonValue S))
  | [] => some []
  | v :: vs => (serialize v).bind fun t => (serializeItems vs).map fun ts => t :: ts

/-- The members of an object, one by one. -/
def serializeMembers : List (String × Value) → Option (List (String × BsonValue S))
  | [] => some []
  | (k, v) :: ms => (serialize v).bind fun t => (serializeMembers ms).map fun fs => (k, t) :: fs

end

mutual

/-- **`bson::from_slice`**, once the bytes have been parsed: a BSON value as the
visitor takes it. -/
def visit : BsonValue S → Option (BsonValue S)
  | .array items => (visitItems items).map .array
  | .document fields => match X.visitMap fields with
    | some r => r
    | none => (visitFields fields).map .document
  | .special s => X.visitSpecial s
  | t => some t

/-- The items of an array, one by one. -/
def visitItems : List (BsonValue S) → Option (List (BsonValue S))
  | [] => some []
  | t :: ts => (visit t).bind fun u => (visitItems ts).map fun us => u :: us

/-- The fields of a document, one by one. -/
def visitFields : List (String × BsonValue S) → Option (List (String × BsonValue S))
  | [] => some []
  | (k, t) :: fs => (visit t).bind fun u => (visitFields fs).map fun gs => (k, u) :: gs

end

mutual

/-- **`bson::from_bson`**, for a JSON value: no map is recognised on the way
back. -/
def deserialize : BsonValue S → Option Value
  | .null => some .null
  | .bool b => some (.bool b)
  | .int64 n => some (.number (if n < 0 then .negInt n else .posInt n.toUInt64))
  | .double bits => some (if IsFinite bits then .number (.float bits) else .null)
  | .string s => some (.string s)
  | .array items => (deserializeItems items).map .array
  | .document fields => (deserializeFields fields).map .object
  | .special s => X.intoExtendedDocument s

/-- The items of an array, one by one. -/
def deserializeItems : List (BsonValue S) → Option (List Value)
  | [] => some []
  | t :: ts => (deserialize t).bind fun v => (deserializeItems ts).map fun vs => v :: vs

/-- The fields of a document, one by one. -/
def deserializeFields : List (String × BsonValue S) → Option (List (String × Value))
  | [] => some []
  | (k, t) :: fs => (deserialize t).bind fun v => (deserializeFields fs).map fun ms => (k, v) :: ms

end

/-- What becomes of a BSON value that is written and read again. -/
def back (t : BsonValue S) : Option Value := (X.visit t).bind X.deserialize

/-- What becomes of the items of an array. -/
def backItems (ts : List (BsonValue S)) : Option (List Value) :=
  (X.visitItems ts).bind X.deserializeItems

/-- What becomes of the fields of a document. -/
def backFields (fs : List (String × BsonValue S)) : Option (List (String × Value)) :=
  (X.visitFields fs).bind X.deserializeFields

/-! ### What is kept -/

/-- **What a converted map is read as**, where the crate takes it for Extended JSON
on the way in or on the way back. -/
def altered (fields : List (String × BsonValue S)) : Option (Option (BsonValue S)) :=
  match X.fromExtendedDocument fields with
  | some t => some (X.visit t)
  | none => X.visitMap fields

mutual

/-- **A value that is kept**: no object in it is taken for Extended JSON, but for
objects that come back as they were. -/
def Kept : Value → Prop
  | .array items => KeptItems items
  | .object members => match (X.serializeMembers members).bind X.altered with
      | some r => r.bind X.deserialize = some (.object members)
      | none => KeptMembers members
  | _ => True

/-- The items of an array are kept. -/
def KeptItems : List Value → Prop
  | [] => True
  | v :: vs => Kept v ∧ KeptItems vs

/-- The members of an object are kept. -/
def KeptMembers : List (String × Value) → Prop
  | [] => True
  | (_, v) :: ms => Kept v ∧ KeptMembers ms

end

/-- **A document that is kept**: an object that is not taken for Extended JSON
itself, with members that are kept. -/
def KeptDocument : Value → Prop
  | .object members => (X.serializeMembers members).bind X.altered = none ∧ X.KeptMembers members
  | _ => False

/-! ### What comes back -/

/-- An integer that fits is no negative number. -/
theorem toInt64_nonneg {n : UInt64} (h : n.toNat < 2 ^ 63) : ¬n.toInt64 < 0 := by
  have hn : n.toInt64.toInt = n.toNat := by
    change n.toBitVec.toInt = _
    rw [BitVec.toInt_eq_toNat_of_lt]
    · rfl
    · change 2 * n.toNat < 2 ^ 64
      omega
  have h0 : (0 : Int64).toInt = 0 := rfl
  rw [Int64.lt_iff_toInt_lt, hn, h0]
  omega

variable {X}

/-- **Numbers come back**, if they are not refused. -/
theorem back_number {n : Number} {t : BsonValue S} (hn : n.IsJson)
    (h : X.serialize (.number n) = some t) : X.back t = some (.number n) := by
  cases n with
  | posInt n =>
    rw [serialize] at h
    split at h
    · rename_i hlt
      cases h
      change X.deserialize (.int64 n.toInt64) = _
      rw [deserialize, if_neg (toInt64_nonneg hlt), UInt64.toUInt64_toInt64]
    · cases h
  | negInt n =>
    have hneg : n < 0 := hn
    cases h
    change X.deserialize (.int64 n) = _
    rw [deserialize, if_pos hneg]
  | float bits =>
    have hfinite : IsFinite bits := hn
    cases h
    change X.deserialize (.double bits) = _
    rw [deserialize, if_pos hfinite]

/-- An array comes back item by item. -/
theorem back_array (ts : List (BsonValue S)) :
    X.back (.array ts) = (X.backItems ts).map .array := by
  rw [back, backItems, visit]
  cases X.visitItems ts with
  | none => rfl
  | some us => exact deserialize.eq_6 X us

/-- A document comes back field by field, unless the visitor knows it. -/
theorem back_document {fs : List (String × BsonValue S)} (h : X.visitMap fs = none) :
    X.back (.document fs) = (X.backFields fs).map .object := by
  rw [back, backFields, visit, h]
  change ((X.visitFields fs).map .document).bind X.deserialize = _
  cases X.visitFields fs with
  | none => rfl
  | some gs => exact deserialize.eq_7 X gs

/-- The items of an array come back one by one. -/
theorem backItems_cons (t : BsonValue S) (ts : List (BsonValue S)) : X.backItems (t :: ts) =
    (X.back t).bind fun v => (X.backItems ts).map fun vs => v :: vs := by
  rw [backItems, visitItems, back, backItems]
  cases X.visit t with
  | none => rfl
  | some u =>
    cases X.visitItems ts with
    | none =>
      change none = (X.deserialize u).bind fun _ => none
      cases X.deserialize u <;> rfl
    | some us => exact deserializeItems.eq_2 X u us

/-- The fields of a document come back one by one. -/
theorem backFields_cons (k : String) (t : BsonValue S) (fs : List (String × BsonValue S)) :
    X.backFields ((k, t) :: fs) =
      (X.back t).bind fun v => (X.backFields fs).map fun ms => (k, v) :: ms := by
  rw [backFields, visitFields, back, backFields]
  cases X.visit t with
  | none => rfl
  | some u =>
    cases X.visitFields fs with
    | none =>
      change none = (X.deserialize u).bind fun _ => none
      cases X.deserialize u <;> rfl
    | some gs => exact deserializeFields.eq_2 X k u gs

mutual

/-- **What comes back**: of the values that are not refused, exactly those that are
kept. -/
theorem back_serialize_iff {v : Value} {t : BsonValue S} (hv : v.IsJson)
    (h : X.serialize v = some t) : X.back t = some v ↔ X.Kept v := by
  cases v with
  | null | bool | string =>
    cases h
    exact iff_of_true rfl trivial
  | number n => exact iff_of_true (back_number hv h) trivial
  | array items =>
    obtain ⟨ts, hts, rfl⟩ := Option.map_eq_some_iff.mp h
    rw [Kept, ← backItems_iff hv hts, back_array, Option.map_eq_some_iff]
    constructor
    · rintro ⟨vs, hvs, heq⟩
      cases heq
      exact hvs
    · intro hvs
      exact ⟨items, hvs, rfl⟩
  | object members =>
    obtain ⟨fs, hfs, rfl⟩ := Option.map_eq_some_iff.mp h
    rw [Kept, hfs, Option.bind_some, altered]
    cases X.fromExtendedDocument fs with
    | some t => exact Iff.rfl
    | none =>
      -- a document on the way in, and looked at once more on the way back
      change X.back (.document fs) = _ ↔ _
      cases hmap : X.visitMap fs with
      | some r =>
        rw [back, visit, hmap]
      | none =>
        change _ ↔ X.KeptMembers members
        rw [back_document hmap, ← backFields_iff hv.2 hfs, Option.map_eq_some_iff]
        constructor
        · rintro ⟨ms, hms, heq⟩
          cases heq
          exact hms
        · intro hms
          exact ⟨members, hms, rfl⟩

/-- The same, of the items of an array. -/
theorem backItems_iff {vs : List Value} {ts : List (BsonValue S)} (hv : itemsAreJson vs)
    (h : X.serializeItems vs = some ts) : X.backItems ts = some vs ↔ X.KeptItems vs := by
  cases vs with
  | nil =>
    cases h
    exact iff_of_true rfl trivial
  | cons v vs =>
    obtain ⟨t, ht, h⟩ := Option.bind_eq_some_iff.mp h
    obtain ⟨ts, hts, rfl⟩ := Option.map_eq_some_iff.mp h
    rw [KeptItems, ← back_serialize_iff hv.1 ht, ← backItems_iff hv.2 hts, backItems_cons]
    constructor
    · intro h
      obtain ⟨v', hv', h⟩ := Option.bind_eq_some_iff.mp h
      obtain ⟨vs', hvs', heq⟩ := Option.map_eq_some_iff.mp h
      cases heq
      exact ⟨hv', hvs'⟩
    · rintro ⟨hv', hvs'⟩
      rw [hv', hvs']
      rfl

/-- The same, of the members of an object. -/
theorem backFields_iff {ms : List (String × Value)} {fs : List (String × BsonValue S)}
    (hv : membersAreJson ms) (h : X.serializeMembers ms = some fs) :
    X.backFields fs = some ms ↔ X.KeptMembers ms := by
  cases ms with
  | nil =>
    cases h
    exact iff_of_true rfl trivial
  | cons m ms =>
    obtain ⟨k, v⟩ := m
    obtain ⟨t, ht, h⟩ := Option.bind_eq_some_iff.mp h
    obtain ⟨fs, hfs, rfl⟩ := Option.map_eq_some_iff.mp h
    rw [KeptMembers, ← back_serialize_iff hv.1 ht, ← backFields_iff hv.2 hfs, backFields_cons]
    constructor
    · intro h
      obtain ⟨v', hv', h⟩ := Option.bind_eq_some_iff.mp h
      obtain ⟨ms', hms', heq⟩ := Option.map_eq_some_iff.mp h
      cases heq
      exact ⟨hv', hms'⟩
    · rintro ⟨hv', hms'⟩
      rw [hv', hms']
      rfl

end

/-! ### Values without dollar signs -/

/-- A key that begins with a dollar sign. -/
def IsDollarKey (key : String) : Prop := key.toList.head? = some '$'

variable (X) in
/-- **Extended JSON is written with dollar signs**: a map is only taken for it if one
of its keys begins with one. -/
def Dollars : Prop := ∀ fields r, X.altered fields = some r → ∃ f ∈ fields, IsDollarKey f.1

mutual

/-- **A value without dollar signs** in front of its keys. -/
def Plain : Value → Prop
  | .array items => PlainItems items
  | .object members => PlainMembers members
  | _ => True

/-- The items of an array are plain. -/
def PlainItems : List Value → Prop
  | [] => True
  | v :: vs => Plain v ∧ PlainItems vs

/-- The members of an object are plain. -/
def PlainMembers : List (String × Value) → Prop
  | [] => True
  | (k, v) :: ms => ¬IsDollarKey k ∧ Plain v ∧ PlainMembers ms

end

/-- Where the members of an object are plain, so are the keys of its fields. -/
theorem PlainMembers.fields {ms : List (String × Value)} {fs : List (String × BsonValue S)}
    (hp : PlainMembers ms) (h : X.serializeMembers ms = some fs) :
    ∀ f ∈ fs, ¬IsDollarKey f.1 := by
  induction ms generalizing fs with
  | nil =>
    cases h
    simp
  | cons m ms ih =>
    obtain ⟨t, -, h⟩ := Option.bind_eq_some_iff.mp h
    obtain ⟨fs, hfs, rfl⟩ := Option.map_eq_some_iff.mp h
    obtain ⟨hkey, -, hrest⟩ := hp
    intro f hf
    rcases List.mem_cons.mp hf with rfl | hf
    · exact hkey
    · exact ih hrest hfs f hf

/-- Such fields are not taken for Extended JSON. -/
theorem PlainMembers.unaltered (hX : X.Dollars) {ms : List (String × Value)}
    (hp : PlainMembers ms) : (X.serializeMembers ms).bind X.altered = none := by
  cases h : (X.serializeMembers ms).bind X.altered with
  | none => rfl
  | some r =>
    obtain ⟨fs, hfs, hr⟩ := Option.bind_eq_some_iff.mp h
    obtain ⟨f, hf, hdollar⟩ := hX fs r hr
    exact absurd hdollar (PlainMembers.fields hp hfs f hf)

mutual

/-- **Values without dollar signs are kept.** -/
theorem kept_of_plain (hX : X.Dollars) {v : Value} (hv : Plain v) : X.Kept v := by
  cases v with
  | null | bool | number | string => trivial
  | array items => exact keptItems_of_plain hX hv
  | object members =>
    rw [Kept, PlainMembers.unaltered hX hv]
    exact keptMembers_of_plain hX hv

/-- The same, of the items of an array. -/
theorem keptItems_of_plain (hX : X.Dollars) {vs : List Value} (hv : PlainItems vs) :
    X.KeptItems vs := by
  cases vs with
  | nil => trivial
  | cons v vs => exact ⟨kept_of_plain hX hv.1, keptItems_of_plain hX hv.2⟩

/-- The same, of the members of an object. -/
theorem keptMembers_of_plain (hX : X.Dollars) {ms : List (String × Value)}
    (hv : PlainMembers ms) : X.KeptMembers ms := by
  cases ms with
  | nil => trivial
  | cons m ms => exact ⟨kept_of_plain hX hv.2.1, keptMembers_of_plain hX hv.2.2⟩

end

/-- **Documents without dollar signs are kept.** -/
theorem keptDocument_of_plain (hX : X.Dollars) {v : Value} (hobject : v.isObject = true)
    (hv : Plain v) : X.KeptDocument v := by
  cases v with
  | null | bool | number | string | array => cases hobject
  | object members => exact ⟨PlainMembers.unaltered hX hv, keptMembers_of_plain hX hv⟩

end ExtendedJson

/-! ### The codec -/

/-- **What is assumed of the crate**: it converts as above, and the BSON wire format
holds what is written in it. -/
structure Bson.Follows [Bson] {S : Type} (X : ExtendedJson S)
    (document : List (String × BsonValue S) → Bson.Document) : Prop where
  /-- `to_document` succeeds for the values that are converted to a document. -/
  toDocument : ∀ v : Value, v.IsJson → ∀ doc, Bson.toDocument v = .ok doc ↔
    ∃ fields, X.serialize v = some (.document fields) ∧ document fields = doc
  /-- `from_slice` parses what `to_writer` has written, and takes it as the visitor
  does. -/
  fromSlice : ∀ fields bytes, Bson.toWriter (document fields) = .ok bytes →
    ∀ doc, Bson.fromSlice bytes = .ok doc ↔
      ∃ fields', X.visit (.document fields) = some (.document fields') ∧ document fields' = doc
  /-- `from_document` converts the fields back. -/
  fromDocument : ∀ fields w, Bson.fromDocument (document fields) = .ok w ↔
    X.deserialize (.document fields) = some w
  /-- What a map becomes that is taken for Extended JSON is no document. -/
  noDocument : ∀ fields fields', X.fromExtendedDocument fields ≠ some (.document fields') ∧
    X.visitMap fields ≠ some (some (.document fields'))

section Codec

variable [Bson] {S : Type} {X : ExtendedJson S}
  {document : List (String × BsonValue S) → Bson.Document}

/-- What has been encoded is an object, and was a document on the way. -/
theorem toBsonBytes_ok {v : Value} {bytes : Bytes} (h : toBsonBytes v = .ok bytes) :
    v.isObject = true ∧ ∃ doc, Bson.toDocument v = .ok doc ∧ Bson.toWriter doc = .ok bytes := by
  rw [toBsonBytes] at h
  split at h
  · cases h
  · rename_i hobject
    split at h
    · cases h
    · rename_i doc hdoc
      split at h
      · cases h
      · rename_i out hout
        cases h
        exact ⟨by simpa using hobject, doc, hdoc, hout⟩

/-- Decoding parses the bytes, and converts what has been parsed. -/
theorem fromBsonBytes_ok {bytes : Bytes} {v : Value} : fromBsonBytes bytes = .ok v ↔
    ∃ doc, Bson.fromSlice bytes = .ok doc ∧ Bson.fromDocument doc = .ok v := by
  rw [fromBsonBytes]
  cases Bson.fromSlice bytes with
  | error err => simp only [reduceCtorEq, false_and, exists_false]
  | ok doc =>
    simp only [Except.ok.injEq, exists_eq_left']
    cases Bson.fromDocument doc with
    | error err => simp only [reduceCtorEq]
    | ok w => simp only [Except.ok.injEq]

/-- **What a written document decodes to**: its fields as they come back, unless the
visitor knows it. -/
theorem fromBsonBytes_written (hB : Bson.Follows X document) {fields : List (String × BsonValue S)}
    {bytes : Bytes} {members : List (String × Value)}
    (h : Bson.toWriter (document fields) = .ok bytes) :
    fromBsonBytes bytes = .ok (.object members) ↔
      X.visitMap fields = none ∧ X.backFields fields = some members := by
  rw [fromBsonBytes_ok]
  constructor
  · rintro ⟨doc, hslice, hdocument⟩
    obtain ⟨gs, hvisit, rfl⟩ := (hB.fromSlice fields bytes h doc).mp hslice
    rw [ExtendedJson.visit] at hvisit
    cases hmap : X.visitMap fields with
    | some r =>
      rw [hmap] at hvisit
      exact absurd (hmap.trans (congrArg some hvisit)) (hB.noDocument fields gs).2
    | none =>
      rw [hmap] at hvisit
      obtain ⟨us, hus, heq⟩ := Option.map_eq_some_iff.mp hvisit
      obtain rfl : us = gs := BsonValue.document.inj heq
      have hback := (hB.fromDocument us _).mp hdocument
      rw [ExtendedJson.deserialize] at hback
      obtain ⟨ms, hms, heq⟩ := Option.map_eq_some_iff.mp hback
      obtain rfl : ms = members := Value.object.inj heq
      exact ⟨rfl, Option.bind_eq_some_iff.mpr ⟨us, hus, hms⟩⟩
  · rintro ⟨hmap, hback⟩
    obtain ⟨gs, hgs, hms⟩ := Option.bind_eq_some_iff.mp hback
    have hvisit : X.visit (.document fields) = some (.document gs) := by
      rw [ExtendedJson.visit, hmap]
      exact congrArg (Option.map BsonValue.document) hgs
    have hdeserialize : X.deserialize (.document gs) = some (.object members) := by
      rw [ExtendedJson.deserialize, hms]
      rfl
    exact ⟨document gs, (hB.fromSlice fields bytes h _).mpr ⟨gs, hvisit, rfl⟩,
      (hB.fromDocument gs _).mpr hdeserialize⟩

/-- **What an encoded value decodes to**: itself, exactly when it is a document that is
kept. -/
theorem fromBsonBytes_iff (hB : Bson.Follows X document) {v : Value} {bytes : Bytes}
    (hv : v.IsJson) (h : toBsonBytes v = .ok bytes) :
    fromBsonBytes bytes = .ok v ↔ X.KeptDocument v := by
  obtain ⟨hobject, doc, hdoc, hwriter⟩ := toBsonBytes_ok h
  obtain ⟨fields, hfields, rfl⟩ := (hB.toDocument v hv doc).mp hdoc
  cases v with
  | null | bool | number | string | array => cases hobject
  | object members =>
    obtain ⟨fs, hfs, hget⟩ := Option.map_eq_some_iff.mp hfields
    cases hextended : X.fromExtendedDocument fs with
    | some t =>
      rw [hextended] at hget
      exact absurd (hextended.trans (congrArg some hget)) (hB.noDocument fs fields).1
    | none =>
      rw [hextended] at hget
      obtain rfl : fs = fields := BsonValue.document.inj hget
      rw [fromBsonBytes_written hB hwriter, ExtendedJson.backFields_iff hv.2 hfs,
        ExtendedJson.KeptDocument, hfs, Option.bind_some, ExtendedJson.altered, hextended]

end Codec

end ContextDb
