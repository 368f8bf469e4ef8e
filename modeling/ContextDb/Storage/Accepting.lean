import ContextDb.Storage.Image

/-!
# What the reading methods accept

The methods that read, over an image about which nothing is known: a file that
some other program wrote, or that has been damaged. A reading method is a function
of the image (`ContextDb.FileM.over`), and a sequence of them succeeds exactly
when each of them does (`ContextDb.over_bind_ok`). So the checks of the engine can
be read backwards.

* `ContextDb.readRecordAt_over_ok` – a record is read exactly where the bytes of
  a record stand: the framing, the bound on the length, the tag of the kind and
  the checksum together leave no other way.
* `ContextDb.opens_iff_accepted` – what is known of a file that opens, and all that is.
-/

namespace ContextDb

open ByteFile FileProg Prog StorageEngine

/-- What a reading method returns over an image. -/
def FileM.over {α : Type} (x : FileM α) (v : Bytes) : Except CndbError α := x.run.answer v

section Rules

variable {α β : Type} {x : FileM α} {f : α → FileM β} {b : β} {v : Bytes}

/-- **One method after another**, over an image. -/
theorem over_bind (x : FileM α) (f : α → FileM β) (v : Bytes) :
    FileM.over (x >>= f) v = x.over v >>= fun a => (f a).over v := by
  have h : FileM.over (x >>= f) v = (ExceptT.bindCont f (x.over v)).answer v := answer_bind _ _ _
  rw [h]
  cases x.over v with
  | error e => rfl
  | ok a => rfl

/-- **A sequence succeeds when both its parts do.** -/
theorem over_bind_ok : FileM.over (x >>= f) v = .ok b ↔
    ∃ a, x.over v = .ok a ∧ (f a).over v = .ok b := by
  rw [over_bind]
  cases h : x.over v with
  | error e =>
    constructor
    · rintro ⟨⟩
    · rintro ⟨a, ⟨⟩, -⟩
  | ok a =>
    constructor
    · intro hb
      exact ⟨a, rfl, hb⟩
    · rintro ⟨a', ⟨⟩, hb⟩
      exact hb

@[simp] theorem over_pure (a : α) (v : Bytes) : FileM.over (pure a) v = .ok a := rfl

@[simp] theorem over_ofExcept (r : Except CndbError α) (v : Bytes) :
    (ofExcept r).over v = r := rfl

/-- Bytes are read where the file covers them. -/
theorem readExactAt_over_ok {n : ℕ} {offset : UInt64} {bs : Bytes} :
    (readExactAt n offset).over v = .ok bs ↔ readAt v offset.toNat n = some bs := by
  rw [FileM.over, readExactAt, ExceptT.run_mk, answer]
  cases readAt v offset.toNat n with
  | none => simp
  | some buf => simp

/-- What a method returns, whatever it depends on, it returns over the image. -/
theorem over_of_returns {S : Bytes → Prop} {r : Except CndbError α} (h : x.run.Returns S r)
    (hv : S v) : x.over v = r :=
  h.answer_eq hv

/-- A reading method, run. -/
theorem exec_of_reader (h : x.run.Reader) (d : Disk) :
    x.run.exec d = some (x.over d.volatile, d) :=
  (h.returns d.volatile).exec_eq rfl

theorem reader_bind (hx : x.run.Reader) (hf : ∀ a, (f a).run.Reader) : (x >>= f).run.Reader :=
  Reader.bind hx fun r => by
    cases r with
    | error e => exact trivial
    | ok a => exact hf a

theorem reader_readExactAt (n : ℕ) (offset : UInt64) : (readExactAt n offset).run.Reader := by
  rintro (_ | buf)
  · exact trivial
  · exact trivial

end Rules

/-! ### Records -/

section Records

variable {v : Bytes} {offset : UInt64} {r : Record}

/-- A frame and a payload that pass all checks are those of a record. -/
theorem holds_of_checked {buf payload : Bytes} {frame : Frame} (hv : v.length ≤ maxFileLen)
    (hbuf : readAt v offset.toNat 9 = some buf) (hd : decodeFrame buf offset = .ok frame)
    (hp : readAt v (offset + recordHeaderSize).toNat frame.len.toNat = some payload)
    (hc : verifyPayload frame payload offset = .ok ()) :
    payload.length ≤ maxRecordLen.toNat ∧ payload.length = frame.len.toNat ∧
      Holds v offset.toNat (Record.bytes ⟨frame.kind, payload⟩) := by
  obtain ⟨hframe, hnine⟩ := holds_of_readAt hbuf
  obtain ⟨hpayload, hlen⟩ := holds_of_readAt hp
  obtain ⟨hmax, rfl⟩ := encodeFrame_of_decodeFrame hnine hd hlen hc
  have hle := hframe.length_le (List.ne_nil_of_length_pos (by omega))
  rw [add_recordHeaderSize_toNat (by omega)] at hpayload
  refine ⟨hmax, hlen, holds_append_iff.mpr ⟨hframe, ?_⟩⟩
  rw [length_encodeFrame]
  exact hpayload

/-- **A record is read exactly where its bytes stand.** -/
theorem readRecordAt_over_ok (hv : v.length ≤ maxFileLen) :
    (readRecordAt offset).over v = .ok r ↔
      r.payload.length ≤ maxRecordLen.toNat ∧ Holds v offset.toNat r.bytes := by
  constructor
  · intro h
    obtain ⟨frame, hframe, h⟩ := over_bind_ok.mp h
    obtain ⟨buf, hbuf, hd⟩ := over_bind_ok.mp hframe
    obtain ⟨payload, hp, h⟩ := over_bind_ok.mp h
    obtain ⟨⟨⟩, hc, h⟩ := over_bind_ok.mp h
    cases h
    obtain ⟨hmax, -, hholds⟩ :=
      holds_of_checked hv (readExactAt_over_ok.mp hbuf) hd (readExactAt_over_ok.mp hp) hc
    exact ⟨hmax, hholds⟩
  · rintro ⟨hmax, hholds⟩
    have hle := hholds.length_le (List.ne_nil_of_length_pos (by rw [Record.length_bytes]; omega))
    exact over_of_returns (S := fun w => w = v)
      (readRecordAt_returns hmax (by omega) fun w hw => by rwa [hw]) rfl

theorem reader_readFrameAt (offset : UInt64) : (readFrameAt offset).run.Reader :=
  reader_bind (reader_readExactAt _ _) fun _ => trivial

theorem reader_readRecordAt (offset : UInt64) : (readRecordAt offset).run.Reader :=
  reader_bind (reader_readFrameAt offset) fun _ => reader_bind (reader_readExactAt _ _) fun _ =>
    reader_bind (x := ofExcept _) trivial fun _ => trivial

variable {e : StorageEngine} {id : DocId}

/-- A request for a document that is not deleted reads the record at its offset. -/
theorem readRecord_over (hd : id ∉ e.index.dead) (ho : e.index.offsets.lookup id = some offset)
    (v : Bytes) : (e.readRecord id).over v = (readRecordAt offset).over v := by
  rw [readRecord, if_neg hd, ho]

/-- **A document is read where the index points**, if the bytes of a record stand
there. -/
theorem readRecord_over_ok (hv : v.length ≤ maxFileLen) :
    (e.readRecord id).over v = .ok r ↔ id ∉ e.index.dead ∧ ∃ offset,
      e.index.offsets.lookup id = some offset ∧ r.payload.length ≤ maxRecordLen.toNat ∧
        Holds v offset.toNat r.bytes := by
  by_cases hd : id ∈ e.index.dead
  · rw [readRecord, if_pos hd]
    refine iff_of_false ?_ fun h => h.1 hd
    rintro ⟨⟩
  cases ho : e.index.offsets.lookup id with
  | none =>
    rw [readRecord, if_neg hd, ho]
    refine iff_of_false ?_ ?_
    · rintro ⟨⟩
    · rintro ⟨-, _, ⟨⟩, -⟩
  | some offset =>
    rw [readRecord_over hd ho, readRecordAt_over_ok hv]
    constructor
    · intro h
      exact ⟨hd, offset, rfl, h⟩
    · rintro ⟨-, _, ⟨⟩, hr⟩
      exact hr

theorem reader_readRecord (e : StorageEngine) (id : DocId) : (e.readRecord id).run.Reader := by
  by_cases hd : id ∈ e.index.dead
  · rw [readRecord, if_pos hd]
    exact trivial
  · rw [readRecord, if_neg hd]
    cases e.index.offsets.lookup id with
    | none => exact trivial
    | some offset => exact reader_readRecordAt offset

theorem reader_verifyLoop (logEnd : UInt64) (fuel : ℕ) (offset : UInt64) (count : ℕ) :
    (verifyLoop logEnd fuel offset count).run.Reader := by
  induction fuel generalizing offset count with
  | zero => exact trivial
  | succ fuel ih =>
    rw [verifyLoop]
    split
    · exact reader_bind (reader_readFrameAt _) fun _ => reader_bind (reader_readExactAt _ _)
        fun _ => reader_bind (x := ofExcept _) trivial fun _ => ih _ _
    · exact trivial

theorem reader_verify (e : StorageEngine) : e.verify.run.Reader := by
  refine reader_bind (reader_verifyLoop _ _ _ _) fun x => ?_
  by_cases hx : x.1 ≠ e.header.logEnd
  · simp only [if_pos hx]
    exact trivial
  · simp only [if_neg hx]
    exact trivial

end Records

/-! ### Opening -/

/-- Opening the file `v` gives the handle `e`. -/
def Opens (v : Bytes) (e : StorageEngine) : Prop :=
  ∃ d, openFile.run.exec (.ofImage v) = some (.ok e, d)

/-- **What is known of a file that opens.** One of its slots is selected, the log
ends within the file, and the index is the empty one or that of a master record –
nothing is checked of where that record or the documents stand. -/
structure Accepted (v : Bytes) (e : StorageEngine) : Prop where
  /-- The header region is there. -/
  length_le : 128 ≤ v.length
  /-- The slots are those of the file. -/
  slots : e.slots = decodedSlots v
  /-- The header is the live one. -/
  selected : selectLive (decodedSlots v) = .ok (e.header, e.liveSlot)
  /-- The log ends within the file. -/
  logEnd_le : e.header.logEnd.toNat ≤ v.length
  /-- The index is empty if the header says so. -/
  index_default : e.header.masterLen = 0 → e.index = .default
  /-- The index is that of the master record otherwise. -/
  index_master : e.header.masterLen ≠ 0 → ∃ payload, payload.length ≤ maxRecordLen.toNat ∧
    Holds v e.header.masterPtr.toNat (Record.bytes ⟨.masterIndex, payload⟩) ∧
    MasterIndex.decode payload = .ok e.index
  /-- The next record goes to the end of the log. -/
  endOffset : e.endOffset = e.header.logEnd
  /-- There is nothing to commit. -/
  clean : e.dirty = false

section Opening

variable {v : Bytes} {e : StorageEngine} {h : Header} {m : MasterIndex}

theorem loadIndex_eq (hne : h.masterLen ≠ 0) : loadIndex h =
    (readRecordAt h.masterPtr >>= fun record =>
      if record.kind ≠ .masterIndex then
        throw (.corruptIndex ("record at " ++ toString h.masterPtr.toNat ++ " is " ++
          kindName record.kind ++ ", not a master index"))
      else ofExcept (MasterIndex.decode record.payload)) := by
  rw [loadIndex, if_neg hne]
  refine congrArg (readRecordAt h.masterPtr >>= ·) (funext fun record => ?_)
  by_cases hk : record.kind ≠ .masterIndex
  · simp only [if_pos hk]
    rfl
  · simp only [if_neg hk]

/-- The index of an empty database. -/
theorem loadIndex_default (h0 : h.masterLen = 0) : (loadIndex h).over v = .ok .default := by
  rw [loadIndex, if_pos h0]
  rfl

/-- **The index of a master record.** -/
theorem loadIndex_over_ok (hv : v.length ≤ maxFileLen) (hne : h.masterLen ≠ 0) :
    (loadIndex h).over v = .ok m ↔ ∃ payload, payload.length ≤ maxRecordLen.toNat ∧
      Holds v h.masterPtr.toNat (Record.bytes ⟨.masterIndex, payload⟩) ∧
      MasterIndex.decode payload = .ok m := by
  rw [loadIndex_eq hne]
  constructor
  · intro hm
    obtain ⟨⟨kind, payload⟩, hread, hm⟩ := over_bind_ok.mp hm
    obtain ⟨hmax, hholds⟩ := (readRecordAt_over_ok hv).mp hread
    by_cases hk : kind ≠ .masterIndex
    · simp only [if_pos hk] at hm
      cases hm
    · simp only [if_neg hk] at hm
      obtain rfl : kind = .masterIndex := not_not.mp hk
      exact ⟨payload, hmax, hholds, hm⟩
  · rintro ⟨payload, hmax, hholds, hm⟩
    refine over_bind_ok.mpr ⟨⟨.masterIndex, payload⟩,
      (readRecordAt_over_ok hv).mpr ⟨hmax, hholds⟩, ?_⟩
    simp only [ne_eq, not_true_eq_false, if_false, over_ofExcept]
    exact hm

theorem reader_loadIndex (h : Header) : (loadIndex h).run.Reader := by
  by_cases h0 : h.masterLen = 0
  · rw [loadIndex, if_pos h0]
    exact trivial
  · rw [loadIndex_eq h0]
    refine reader_bind (reader_readRecordAt _) fun record => ?_
    split
    · exact trivial
    · exact trivial

theorem reader_recover (n : ℕ) (region : Bytes) : (recover n region).run.Reader := by
  rw [recover]
  split
  · exact trivial
  · split
    · exact trivial
    · exact reader_bind (reader_loadIndex _) fun _ => trivial

/-- Opening a file that is not empty reads its header region first. -/
theorem openFile_exec {d : Disk} (hlen : 128 ≤ d.volatile.length) : openFile.run.exec d =
    some ((recover d.volatile.length (d.volatile.take 128)).over d.volatile, d) := by
  have hexec := exec_of_reader (reader_recover d.volatile.length (d.volatile.take 128)) d
  rw [openFile_run, exec, if_pos (by omega), load_run, if_neg (by omega), exec,
    readAt_region hlen]
  exact hexec

/-- What opening makes of a file depends on what a reader sees of it. -/
theorem Opens.exec {d : Disk} (h : Opens d.volatile e) (hlen : 128 ≤ d.volatile.length) :
    openFile.run.exec d = some (.ok e, d) := by
  obtain ⟨d', hd'⟩ := h
  rw [openFile_exec (d := .ofImage d.volatile) hlen, Disk.volatile_ofImage] at hd'
  have hret := congrArg Prod.fst (Option.some.inj hd')
  change (recover d.volatile.length (d.volatile.take 128)).over d.volatile = .ok e at hret
  rw [openFile_exec hlen, hret]

/-- **When a file opens.** -/
theorem opens_iff_accepted (hne : v ≠ []) (hv : v.length ≤ maxFileLen) :
    Opens v e ↔ Accepted v e := by
  have hpos : v.length > 0 := List.length_pos_iff.mpr hne
  rcases Nat.lt_or_ge v.length 128 with hshort | hlen
  · refine iff_of_false ?_ fun h => absurd h.length_le (Nat.not_le_of_lt hshort)
    rintro ⟨d, hd⟩
    rw [openFile_run, exec, Disk.volatile_ofImage, if_pos hpos, load_run, if_pos hshort] at hd
    cases hd
  · have hopen : Opens v e ↔ (recover v.length (v.take 128)).over v = .ok e := by
      rw [Opens, openFile_exec (d := .ofImage v) hlen, Disk.volatile_ofImage]
      constructor
      · rintro ⟨d, hd⟩
        exact congrArg Prod.fst (Option.some.inj hd)
      · intro h
        exact ⟨_, by rw [h]⟩
    rw [hopen, recover, decodedSlots_take]
    cases hsel : selectLive (decodedSlots v) with
    | error err =>
      refine iff_of_false ?_ fun h => ?_
      · rintro ⟨⟩
      · rw [h.selected] at hsel
        cases hsel
    | ok p =>
      obtain ⟨hdr, s⟩ := p
      simp only
      by_cases hlt : v.length < hdr.logEnd.toNat
      · rw [if_pos hlt]
        refine iff_of_false ?_ fun h => ?_
        · rintro ⟨⟩
        · have hsel' := h.selected
          rw [hsel] at hsel'
          cases hsel'
          exact absurd h.logEnd_le (Nat.not_le_of_lt hlt)
      · rw [if_neg hlt]
        constructor
        · intro h
          obtain ⟨m, hm, h⟩ := over_bind_ok.mp h
          cases h
          refine ⟨hlen, rfl, hsel, Nat.le_of_not_lt hlt, fun h0 => ?_, fun hne => ?_, rfl, rfl⟩
          · rw [loadIndex_default h0] at hm
            exact (Except.ok.inj hm).symm
          · exact (loadIndex_over_ok hv hne).mp hm
        · intro h
          have hsel' := h.selected
          rw [hsel] at hsel'
          cases hsel'
          refine over_bind_ok.mpr ⟨e.index, ?_, ?_⟩
          · by_cases h0 : e.header.masterLen = 0
            · rw [loadIndex_default h0, h.index_default h0]
            · exact (loadIndex_over_ok hv h0).mpr (h.index_master h0)
          · rw [← h.slots, ← h.endOffset, ← h.clean]
            rfl

/-- **The sizes of an index that was read** are those of a record at most. -/
theorem Accepted.encodedLen_le (hacc : Accepted v e) :
    e.index.encodedLen ≤ maxRecordLen.toNat := by
  by_cases h0 : e.header.masterLen = 0
  · rw [hacc.index_default h0]
    decide
  · obtain ⟨payload, hmax, -, hdec⟩ := hacc.index_master h0
    exact (MasterIndex.encodedLen_le_of_decode hdec).trans hmax

end Opening

end ContextDb
