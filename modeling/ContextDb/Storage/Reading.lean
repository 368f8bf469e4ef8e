import ContextDb.Lib.Logic
import ContextDb.Storage.Engine
import ContextDb.Storage.Log

/-!
# What the reading methods return over a standing log

Each method that only reads is judged by `FileProg.Prog.Returns`, over all
images in which a valid log stands: whatever such images answer its reads, and
be it a different one each time, it returns what the log says. So a reader needs
nothing of the file but its own log – not the bytes behind it, which a writer
may be changing – and the same lemma serves a reader on its own and a reader
next to a writer.

* `ContextDb.readRecordAt_returns` – a record comes back.
* `ContextDb.readRecord_returns` – a request for a document is answered as the
  table of the log answers it.
* `ContextDb.verify_returns` – `verify` counts the entries of the log.
-/

namespace ContextDb

open ByteFile FileProg Prog

/-! ### Rules for programs that may fail -/

section Rules

variable {α β : Type} {S : Bytes → Prop} {x : FileM α} {f : α → FileM β} {a : α}
  {r : Except CndbError β} {e : CndbError}

/-- A successful first part hands over to the rest. -/
theorem returns_bind (hx : x.run.Returns S (.ok a)) (hf : (f a).run.Returns S r) :
    (x >>= f).run.Returns S r :=
  Returns.bind hx hf

/-- A failing first part is the end. -/
theorem returns_bind_error (hx : x.run.Returns S (.error e)) :
    (x >>= f).run.Returns S (.error e) :=
  Returns.bind hx rfl

theorem returns_pure (a : α) : (pure a : FileM α).run.Returns S (.ok a) := rfl

theorem returns_ofExcept (r : Except CndbError α) : (ofExcept r).run.Returns S r := rfl

/-- Bytes that stand in every image are read. -/
theorem readExactAt_returns {bs : Bytes} {offset : UInt64}
    (hS : ∀ v, S v → Holds v offset.toNat bs) :
    (readExactAt bs.length offset).run.Returns S (.ok bs) := by
  intro v hv
  rw [(hS v hv).readAt]
  exact rfl

end Rules

/-! ### Records -/

section Records

variable {S : Bytes → Prop} {r : Record} {offset : UInt64}

/-- Behind the frame of a record that lies in a file. -/
theorem add_recordHeaderSize_toNat (h : offset.toNat ≤ maxFileLen) :
    (offset + recordHeaderSize).toNat = offset.toNat + 9 := by
  have hmax : maxFileLen = 2 ^ 63 - 1 := rfl
  rw [UInt64.toNat_add, recordHeaderSize_toNat]
  exact Nat.mod_eq_of_lt (by omega)

/-- The length of an accepted payload, as a machine word. -/
theorem ofNat_length_toNat {payload : Bytes} (h : payload.length ≤ maxRecordLen.toNat) :
    (UInt64.ofNat payload.length).toNat = payload.length := by
  have hmax := maxRecordLen_toNat
  rw [UInt64.toNat_ofNat']
  exact Nat.mod_eq_of_lt (by omega)

/-- Behind a record that lies in a file. -/
theorem add_totalLen_toNat {n : ℕ} (h : offset.toNat + (9 + n) ≤ maxFileLen) :
    (offset + (recordHeaderSize + UInt64.ofNat n)).toNat = offset.toNat + (9 + n) := by
  have hmax : maxFileLen = 2 ^ 63 - 1 := rfl
  rw [UInt64.toNat_add, UInt64.toNat_add, recordHeaderSize_toNat, UInt64.toNat_ofNat']
  omega

/-- The frame of a record that stands in every image. -/
theorem readFrameAt_returns (hlen : r.payload.length ≤ maxRecordLen.toNat)
    (hS : ∀ v, S v → Holds v offset.toNat r.bytes) :
    (readFrameAt offset).run.Returns S
      (.ok ⟨UInt64.ofNat r.payload.length, r.kind, Crc32.hash r.payload⟩) := by
  have hframe : (readExactAt recordHeaderSize.toNat offset).run.Returns S
      (.ok (encodeFrame r.kind r.payload)) := by
    rw [recordHeaderSize_toNat, ← length_encodeFrame r.kind r.payload]
    exact readExactAt_returns fun v hv => (holds_append_iff.mp (hS v hv)).1
  refine returns_bind hframe ?_
  rw [decodeFrame_encodeFrame r.kind hlen]
  exact returns_ofExcept _

/-- The payload of a record that stands in every image. -/
theorem readPayload_returns (hlen : r.payload.length ≤ maxRecordLen.toNat)
    (hoff : offset.toNat ≤ maxFileLen) (hS : ∀ v, S v → Holds v offset.toNat r.bytes) :
    (readExactAt (UInt64.ofNat r.payload.length).toNat (offset + recordHeaderSize)).run.Returns S
      (.ok r.payload) := by
  rw [ofNat_length_toNat hlen]
  refine readExactAt_returns fun v hv => ?_
  rw [add_recordHeaderSize_toNat hoff]
  have h := (holds_append_iff.mp (hS v hv)).2
  rwa [length_encodeFrame] at h

/-- **A record comes back** from wherever it stands. -/
theorem readRecordAt_returns (hlen : r.payload.length ≤ maxRecordLen.toNat)
    (hoff : offset.toNat ≤ maxFileLen) (hS : ∀ v, S v → Holds v offset.toNat r.bytes) :
    (readRecordAt offset).run.Returns S (.ok r) := by
  refine returns_bind (readFrameAt_returns hlen hS) ?_
  refine returns_bind (readPayload_returns hlen hoff hS) ?_
  refine returns_bind (a := ()) ?_ (returns_pure _)
  rw [verifyPayload_self]
  exact returns_ofExcept _

end Records

/-! ### The entries of a valid log -/

/-- The payload of an acceptable entry is within the limit. -/
theorem EntryOk.length_le {l : Log} {e : Entry} (h : EntryOk l e) :
    e.record.payload.length ≤ maxRecordLen.toNat := by
  cases e with
  | doc r => exact h
  | tomb id =>
    have hmax := maxRecordLen_toNat
    rw [Entry.record, Bincode.length_putU64]
    omega
  | master payload => exact h.1

/-- **Every entry of a standing log is read back** from its offset. -/
theorem entry_returns {pre post : Log} {e : Entry} (hv : ValidLog (pre ++ e :: post))
    {offset : UInt64} (hoff : offset.toNat = tail pre) :
    (readRecordAt offset).run.Returns (fun v => Holds v 128 (logBytes (pre ++ e :: post)))
      (.ok e.record) := by
  have hle : tail pre ≤ maxFileLen := (hv.of_isPrefix (List.prefix_append _ _)).fits
  refine readRecordAt_returns (hv.entryOk pre e post rfl).length_le (by omega) fun v h => ?_
  rw [hoff]
  exact holds_record h

/-! ### Documents -/

/-- **A request for a document** is answered as the table of the log answers
it. -/
theorem readRecord_returns {self : StorageEngine} {l : Log} (hv : ValidLog l)
    (hi : self.index = indexOf l) (id : DocId) :
    (self.readRecord id).run.Returns (fun v => Holds v 128 (logBytes l))
      ((tableOf l).find id) := by
  have ht := hv.tracks
  by_cases hd : id ∈ self.index.dead
  · have hd' : id ∈ (tableOf l).dead := by rwa [← ht.dead, ← hi]
    rw [StorageEngine.readRecord, if_pos hd, DocTable.find, if_pos hd']
    exact rfl
  · have hd' : id ∉ (tableOf l).dead := by rwa [← ht.dead, ← hi]
    rw [StorageEngine.readRecord, if_neg hd, DocTable.find, if_neg hd']
    cases ho : self.index.offsets.lookup id with
    | none =>
      rw [hi] at ho
      rw [ht.absent id ho]
      exact rfl
    | some offset =>
      rw [hi] at ho
      obtain ⟨r, pre, post, hr, hl, hoff⟩ := ht.offset id offset ho
      rw [hr]
      subst hl
      exact entry_returns hv hoff

/-- The same of its payload. -/
theorem read_returns {self : StorageEngine} {l : Log} (hv : ValidLog l)
    (hi : self.index = indexOf l) (id : DocId) :
    (self.read id).run.Returns (fun v => Holds v 128 (logBytes l))
      (((tableOf l).find id).map Record.payload) := by
  have hrec := readRecord_returns hv hi id
  rw [StorageEngine.read]
  cases hf : (tableOf l).find id with
  | error err =>
    rw [hf] at hrec
    exact returns_bind_error hrec
  | ok r =>
    rw [hf] at hrec
    exact returns_bind hrec (returns_pure _)

/-! ### Verification -/

/-- The records of a log. -/
def Log.records (l : Log) : List Record := l.map Entry.record

/-- The bytes of some records, one after the other. -/
def recordsBytes (rs : List Record) : Bytes := rs.flatMap Record.bytes

@[simp] theorem recordsBytes_nil : recordsBytes [] = [] := rfl

@[simp] theorem recordsBytes_cons (r : Record) (rs : List Record) :
    recordsBytes (r :: rs) = r.bytes ++ recordsBytes rs := rfl

/-- Some records that the engine accepts. -/
def Acceptable (rs : List Record) : Prop := ∀ r ∈ rs, r.payload.length ≤ maxRecordLen.toNat

theorem recordsBytes_records (l : Log) : recordsBytes (Log.records l) = logBytes l := by
  rw [recordsBytes, Log.records, List.flatMap_map, logBytes]

/-- The records of a valid log are acceptable. -/
theorem ValidLog.acceptable {l : Log} (hv : ValidLog l) : Acceptable (Log.records l) := by
  intro r hr
  obtain ⟨e, he, rfl⟩ := List.mem_map.mp hr
  obtain ⟨pre, post, hl⟩ := List.append_of_mem he
  exact (hv.entryOk pre e post hl).length_le

/-- The loop of `verify`, from any record boundary on. -/
theorem verifyLoop_returns {S : Bytes → Prop} {logEnd : UInt64}
    (hfits : logEnd.toNat ≤ maxFileLen) {rs : List Record} (hrs : Acceptable rs) :
    ∀ (fuel : ℕ) (offset : UInt64) (count : ℕ), rs.length ≤ fuel →
      offset.toNat + (recordsBytes rs).length = logEnd.toNat →
      (∀ v, S v → Holds v offset.toNat (recordsBytes rs)) →
      (StorageEngine.verifyLoop logEnd fuel offset count).run.Returns S
        (.ok (logEnd, count + rs.length)) := by
  induction rs with
  | nil =>
    intro fuel offset count _ hoff _
    obtain rfl : offset = logEnd := UInt64.toNat_inj.mp (by simpa using hoff)
    obtain _ | fuel := fuel
    · exact returns_pure _
    · rw [StorageEngine.verifyLoop, if_neg (UInt64.lt_irrefl _)]
      exact returns_pure _
  | cons r rs ih =>
    intro fuel offset count hfuel hoff hS
    have hlen : r.payload.length ≤ maxRecordLen.toNat := hrs r (by simp)
    have hrs' : Acceptable rs := fun r' hr' => hrs r' (by simp [hr'])
    obtain _ | fuel := fuel
    · simp at hfuel
    rw [recordsBytes_cons, List.length_append, Record.length_bytes] at hoff
    have hlt : offset < logEnd := by
      rw [UInt64.lt_iff_toNat_lt]
      omega
    have hrec : ∀ v, S v → Holds v offset.toNat r.bytes := fun v hv =>
      (holds_append_iff.mp (hS v hv)).1
    rw [StorageEngine.verifyLoop, if_pos hlt]
    refine returns_bind (readFrameAt_returns hlen hrec) ?_
    refine returns_bind (readPayload_returns hlen (by omega) hrec) ?_
    refine returns_bind (a := ()) ?_ ?_
    · rw [verifyPayload_self]
      exact returns_ofExcept _
    · -- the next offset does not wrap: the log ends where a file can
      have hnext : (offset + Frame.totalLen ⟨UInt64.ofNat r.payload.length, r.kind,
          Crc32.hash r.payload⟩).toNat = offset.toNat + (9 + r.payload.length) :=
        add_totalLen_toNat (by omega)
      have h := ih hrs' fuel (offset + Frame.totalLen ⟨UInt64.ofNat r.payload.length, r.kind,
        Crc32.hash r.payload⟩) (count + 1) (by rw [List.length_cons] at hfuel; omega)
        (by rw [hnext]; omega) fun v hv => by
          have hrest := (holds_append_iff.mp (hS v hv)).2
          rwa [hnext, ← Record.length_bytes]
      rw [List.length_cons, show count + (rs.length + 1) = count + 1 + rs.length by omega]
      exact h

/-- Every record takes at least the nine bytes of its frame. -/
theorem length_le_recordsBytes (rs : List Record) : 9 * rs.length ≤ (recordsBytes rs).length := by
  induction rs with
  | nil => simp
  | cons r rs ih =>
    rw [recordsBytes_cons, List.length_append, Record.length_bytes, List.length_cons]
    omega

/-- **`verify` counts the records** between the header region and the end of the
log. -/
theorem verify_counts {S : Bytes → Prop} {self : StorageEngine} {rs : List Record}
    (hfits : self.header.logEnd.toNat ≤ maxFileLen) (hrs : Acceptable rs)
    (hend : 128 + (recordsBytes rs).length = self.header.logEnd.toNat)
    (hS : ∀ v, S v → Holds v 128 (recordsBytes rs)) :
    self.verify.run.Returns S (.ok rs.length) := by
  have hlen := length_le_recordsBytes rs
  have h := verifyLoop_returns hfits hrs self.header.logEnd.toNat logStart 0 (by omega) hend hS
  rw [Nat.zero_add] at h
  refine returns_bind h ?_
  simp only [ne_eq, not_true_eq_false, if_false]
  exact returns_pure _

/-- **`verify` counts the entries of the committed log**, superseded master
records included. -/
theorem verify_returns {self : StorageEngine} {l : Log} (hv : ValidLog l)
    (hend : self.header.logEnd.toNat = tail l) :
    self.verify.run.Returns (fun v => Holds v 128 (logBytes l)) (.ok l.length) := by
  have hbytes := recordsBytes_records l
  have h := verify_counts (S := fun v => Holds v 128 (logBytes l)) (by rw [hend]; exact hv.fits)
    hv.acceptable (by rw [hbytes, hend, tail_eq]) fun v hv => by rwa [hbytes]
  rwa [Log.records, List.length_map] at h

/-! ### What a handle shows -/

/-- **What a handle shows of the store**: the answer to a request for each
document, the deleted ids, and the next id. -/
structure DocState where
  /-- The answer to a request for a document. -/
  records : DocId → Except CndbError Record
  /-- The ids of the deleted documents. -/
  dead : Finset DocId
  /-- The next id to hand out. -/
  nextDocId : UInt64

/-- What a table of documents shows. -/
def DocTable.state (t : DocTable) : DocState where
  records := t.find
  dead := t.dead
  nextDocId := UInt64.ofNat t.nextDocId

/-- The state of an empty database. -/
def DocState.empty : DocState := DocTable.empty.state

/-- **What a handle shows** over an image of the file. -/
def StorageEngine.docState (self : StorageEngine) (v : Bytes) : DocState where
  records id := (self.readRecord id).run.answer v
  dead := self.index.dead
  nextDocId := self.index.nextDocId

/-- **A handle shows the documents of its log.** -/
theorem docState_eq {self : StorageEngine} {l : Log} {v : Bytes} (hv : ValidLog l)
    (hi : self.index = indexOf l) (hl : Holds v 128 (logBytes l)) :
    self.docState v = (tableOf l).state := by
  have ht := hv.tracks
  have hrec : (fun id => (self.readRecord id).run.answer v) = (tableOf l).find :=
    funext fun id => (readRecord_returns hv hi id).answer_eq hl
  rw [StorageEngine.docState, DocTable.state, hrec, hi, ht.dead, ← ht.next, UInt64.ofNat_toNat]

end ContextDb
