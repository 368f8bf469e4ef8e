import ContextDb.Grammar
import ContextDb.Sessions

/-!
# Bit rot in a stored record

One byte of a stored document changes – of its payload, its checksum, the tag of
its kind or its length. The file still opens: the header region and the master
record are elsewhere. What remains of the document is what stands at its offset
now, and that is noticed exactly when no record stands there any more
(`ContextDb.noticed_iff`).

A change of the payload is caught by the checksum, and so is one of the checksum.
But the checksum is taken over the payload alone. A tag changed into another tag
is not noticed at all; and a changed length delimits other bytes, which are
refused only if their checksum is not the stored one. Bit rot is detected except
for these changes, `ContextDb.Unnoticed` (`ContextDb.bit_rot_detected_iff`).
-/

namespace ContextDb

open ByteFile FileProg Prog StorageEngine

/-! ### A changed byte -/

/-- A byte behind the header region is none of a slot. -/
theorem decodedSlots_set {v : Bytes} {p : ℕ} {b : UInt8} (hv : 128 ≤ v.length) (hp : 128 ≤ p) :
    decodedSlots (v.set p b) = decodedSlots v := by
  refine funext fun s => decodedSlots_congr (slotBytes_keep hv ?_)
  refine (holds_set_iff (Or.inr ?_)).mpr (holds_slotBytes v s)
  have := slot_le s
  rw [length_slotBytes hv]
  omega

/-! ### The record that stands there now -/

section Record

variable {v : Bytes} {off i : ℕ} {r r' : Record} {b : UInt8}

/-- The first four bytes of a frame, the tag and the checksum. -/
theorem encodeFrame_pieces {k : RecordKind} {p len crc : Bytes} {t : UInt8}
    (hlen : len.length = 4) (h : len ++ ([t] ++ crc) = encodeFrame k p) :
    len = leBytes 4 p.length ∧ t = k.tag ∧ crc = leBytes 4 (Crc32.hash p).toNat := by
  rw [encodeFrame, List.append_assoc] at h
  obtain ⟨h1, h2⟩ := List.append_inj h (by simpa using hlen)
  obtain ⟨h2, h3⟩ := List.append_inj h2 rfl
  exact ⟨h1, by simpa using h2, h3⟩

/-- A checksum is determined by its bytes. -/
theorem hash_eq_of_leBytes {c c' : UInt32} (h : leBytes 4 c.toNat = leBytes 4 c'.toNat) :
    c' = c :=
  UInt32.toNat_inj.mp (leBytes_inj c.toNat_lt c'.toNat_lt h).symm

/-- **A change of a record that is not noticed**: the tag becomes another tag, or
the length delimits bytes whose checksum is the stored one. -/
inductive Unnoticed (v : Bytes) (off : ℕ) (r : Record) : ℕ → UInt8 → Prop
  /-- The tag becomes that of some kind. -/
  | kind (k : RecordKind) : Unnoticed v off r 4 k.tag
  /-- The length becomes `n`, and the `n` bytes behind the frame pass. -/
  | length {i : ℕ} {b : UInt8} {n : ℕ} (hi : i < 4)
      (hn : n = leNat ((leBytes 4 r.payload.length).set i b)) (hmax : n ≤ maxRecordLen.toNat)
      (hend : off + 9 + n ≤ v.length)
      (hcrc : Crc32.hash ((v.drop (off + 9)).take n) = Crc32.hash r.payload) :
      Unnoticed v off r i b

/-- A changed tag is not noticed if it is one. -/
theorem unnoticed_tag_iff : Unnoticed v off r 4 b ↔ ∃ k : RecordKind, b = k.tag := by
  constructor
  · intro hu
    cases hu with
    | kind k => exact ⟨k, rfl⟩
    | length hi => exact absurd hi (Nat.lt_irrefl 4)
  · rintro ⟨k, rfl⟩
    exact .kind k

/-- Two strings that differ in one place agree outside four bytes. -/
theorem agreeOutside_set (bs : Bytes) (i : ℕ) (b : UInt8) :
    Crc32.AgreeOutside i bs (bs.set i b) := by
  refine ⟨(List.length_set ..).symm, fun j hj => ?_⟩
  rw [List.getElem?_set_ne (by omega)]

/-- **A changed payload is no payload of the frame.** -/
theorem not_holds_of_payload (hr : r.payload.length ≤ maxRecordLen.toNat)
    (hr' : r'.payload.length ≤ maxRecordLen.toNat) (hi : 9 ≤ i)
    (hb : r.bytes[i]? ≠ some b) (hilt : i < r.bytes.length)
    (h : Holds (v.set (off + i) b) off (r.bytes.set i b)) :
    ¬Holds (v.set (off + i) b) off r'.bytes := by
  intro h'
  have hframe := length_encodeFrame r.kind r.payload
  rw [Record.bytes, List.set_append_right _ _ (by omega), hframe] at h
  obtain ⟨hf, hp⟩ := holds_append_iff.mp h
  obtain ⟨hf', hp'⟩ := holds_append_iff.mp h'
  rw [length_encodeFrame] at hp hp'
  obtain ⟨-, hlen, hcrc⟩ := encodeFrame_eq hr hr' (hf.unique hf' (by simp))
  have hsame : r.payload.set (i - 9) b = r'.payload :=
    hp.unique hp' (by rw [List.length_set]; exact hlen)
  refine Crc32.hash_ne_of_agreeOutside (agreeOutside_set r.payload (i - 9) b) (fun heq => hb ?_)
    (by rw [hcrc, hsame])
  rw [Record.length_bytes] at hilt
  rw [Record.bytes, List.getElem?_append_right (by omega), hframe, heq,
    List.getElem?_set_self (by omega)]

/-- **A changed frame** delimits a record only if the change is not noticed. -/
theorem unnoticed_of_frame (hr : r.payload.length ≤ maxRecordLen.toNat)
    (hr' : r'.payload.length ≤ maxRecordLen.toNat) (hi : i < 9) (hb : r.bytes[i]? ≠ some b)
    (h : Holds v off r.bytes) (h' : Holds (v.set (off + i) b) off r'.bytes) :
    Unnoticed v off r i b := by
  have hframe := length_encodeFrame r.kind r.payload
  obtain ⟨hf, hp⟩ := holds_append_iff.mp h
  obtain ⟨hf', hp'⟩ := holds_append_iff.mp h'
  rw [hframe] at hp
  rw [length_encodeFrame, holds_set_iff (Or.inl (by omega))] at hp'
  have heq : (encodeFrame r.kind r.payload).set i b = encodeFrame r'.kind r'.payload :=
    hf.set.unique hf' (by simp)
  have hbyte : (encodeFrame r.kind r.payload)[i]? ≠ some b := by
    rwa [Record.bytes, List.getElem?_append_left (by omega)] at hb
  rw [encodeFrame, List.append_assoc] at heq hbyte
  rcases Nat.lt_trichotomy i 4 with hlt | rfl | hgt
  · -- the length is changed: the tag and the checksum are the same
    rw [List.set_append_left _ _ (by simpa using hlt)] at heq
    obtain ⟨hlen, -, hcrc⟩ := encodeFrame_pieces (by simp) heq
    have hn : r'.payload.length = leNat ((leBytes 4 r.payload.length).set i b) := by
      have hmax := maxRecordLen_toNat
      rw [hlen, leNat_leBytes]
      exact (Nat.mod_eq_of_lt (by omega)).symm
    have hend : off + 9 + r'.payload.length ≤ v.length := by
      rcases eq_or_ne r'.payload [] with hnil | hne
      · have hle := hf.length_le (List.ne_nil_of_length_pos (by omega))
        rw [hnil, List.length_nil]
        omega
      · exact hp'.length_le hne
    have hsum := hash_eq_of_leBytes hcrc
    exact .length hlt hn hr' hend (by rw [hp'.take_drop, hsum])
  · -- the tag is changed: it is that of a kind
    rw [List.set_append_right _ _ (by simp), length_leBytes,
      List.set_append_left _ _ (by simp)] at heq
    obtain ⟨-, rfl, -⟩ := encodeFrame_pieces (by simp) heq
    exact .kind r'.kind
  · -- the checksum is changed: the payload is the same
    rw [List.set_append_right _ _ (by simp; omega), length_leBytes,
      List.set_append_right _ _ (by simp; omega)] at heq
    obtain ⟨hlen, -, hcrc⟩ := encodeFrame_pieces (by simp) heq
    have hmax := maxRecordLen_toNat
    have hsame : r.payload = r'.payload :=
      hp.unique hp' (leBytes_inj (by omega) (by omega) hlen)
    rw [← hsame] at hcrc
    refine absurd ?_ hbyte
    rw [List.getElem?_append_right (by simp; omega), length_leBytes,
      List.getElem?_append_right (by simp; omega), ← hcrc, List.getElem?_set_self (by simp; omega)]

/-- **A change that is not noticed** leaves a record where it was made. -/
theorem holds_of_unnoticed (hr : r.payload.length ≤ maxRecordLen.toNat)
    (h : Holds v off r.bytes) (hu : Unnoticed v off r i b) :
    ∃ r' : Record, r'.payload.length ≤ maxRecordLen.toNat ∧
      Holds (v.set (off + i) b) off r'.bytes := by
  obtain ⟨hf, hp⟩ := holds_append_iff.mp h
  rw [length_encodeFrame] at hp
  cases hu with
  | kind k =>
    -- the same payload under another kind: the checksum does not cover the tag
    refine ⟨⟨k, r.payload⟩, hr, holds_append_iff.mpr ⟨?_, ?_⟩⟩
    · have hset := hf.set (i := 4) (b := k.tag)
      rwa [encodeFrame, List.append_assoc, List.set_append_right _ _ (by simp), length_leBytes,
        List.set_append_left _ _ (by simp), ← List.append_assoc] at hset
    · rw [length_encodeFrame, holds_set_iff (Or.inl (by omega))]
      exact hp
  | @length _ _ n hi hn hmax hend hcrc =>
    -- the payload that the changed length delimits
    have hlen : ((v.drop (off + 9)).take n).length = n := by
      rw [List.length_take, List.length_drop]
      omega
    refine ⟨⟨r.kind, (v.drop (off + 9)).take n⟩, by rwa [hlen], holds_append_iff.mpr ⟨?_, ?_⟩⟩
    · have hset := hf.set (i := i) (b := b)
      rw [encodeFrame, List.append_assoc, List.set_append_left _ _ (by simpa using hi)] at hset
      have hfour : leBytes 4 n = (leBytes 4 r.payload.length).set i b := by
        rw [hn]
        exact (congrArg (leBytes · _) (by simp)).trans (leBytes_leNat _)
      rw [encodeFrame, hlen, hcrc, hfour, List.append_assoc]
      exact hset
    · rw [length_encodeFrame, holds_set_iff (Or.inl (by omega))]
      exact holds_take_drop _ _ _

/-- **A changed record is noticed** exactly when no record stands there any
more. -/
theorem noticed_iff (hr : r.payload.length ≤ maxRecordLen.toNat) (h : Holds v off r.bytes)
    (hi : i < r.bytes.length) (hb : r.bytes[i]? ≠ some b) :
    ¬Unnoticed v off r i b ↔ ∀ r' : Record, r'.payload.length ≤ maxRecordLen.toNat →
      ¬Holds (v.set (off + i) b) off r'.bytes := by
  constructor
  · intro hno r' hr' h'
    -- the frame is nine bytes; behind it the checksum covers everything
    rcases Nat.lt_or_ge i 9 with hlt | hge
    · exact hno (unnoticed_of_frame hr hr' hlt hb h h')
    · exact not_holds_of_payload hr hr' hge hb hi h.set h'
  · intro hno hu
    obtain ⟨r', hr', h'⟩ := holds_of_unnoticed hr h hu
    exact hno r' hr' h'

end Record

/-! ### The document of a live log -/

section Document

variable {v : Bytes} {s : Slot} {h : Header} {l : Log} {id : DocId}

/-- **Where a live document stands**: at its offset in the index, as an entry of the
log before the master record. -/
theorem Live.document (hl : Live v s h l) (hid : id ∈ (indexOf l).liveIds) :
    ∃ offset r pre post, (indexOf l).offsets.lookup id = some offset ∧ id ∉ (indexOf l).dead ∧
      l = pre ++ .doc r :: post ∧ offset.toNat = tail pre ∧ (tableOf l).find id = .ok r := by
  rw [MasterIndex.liveIds, Finset.mem_filter, Finmap.mem_keys] at hid
  obtain ⟨offset, ho⟩ := Option.isSome_iff_exists.mp (Finmap.lookup_isSome.mpr hid.1)
  obtain ⟨r, pre, post, hr, hlog, hoff⟩ := hl.valid.tracks.offset id offset ho
  refine ⟨offset, r, pre, post, ho, hid.2, hlog, hoff, DocTable.find_ok.mpr ⟨?_, hr⟩⟩
  rw [← hl.valid.tracks.dead]
  exact hid.2

/-- **A file with a changed document opens** as it did: the header region and the
master record are elsewhere. -/
theorem Live.opens_set (hl : Live v s h l) (hv : v.length ≤ maxFileLen) {pre post : Log}
    {r : Record} (hlog : l = pre ++ .doc r :: post) {i : ℕ} (hi : i < r.bytes.length) (b : UInt8) :
    Opens (v.set (tail pre + i) b) (opened (decodedSlots v) s h l) := by
  have hlen := hl.length_le
  have htail := le_tail pre
  have hne : v ≠ [] := List.ne_nil_of_length_pos (by omega)
  have hne' : v.set (tail pre + i) b ≠ [] :=
    List.ne_nil_of_length_pos (by rw [List.length_set]; omega)
  have hacc := (opens_iff_accepted hne hv).mp (hl.opens_iff.mpr rfl)
  refine (opens_iff_accepted hne' (by rwa [List.length_set])).mpr ?_
  have hslots : decodedSlots (v.set (tail pre + i) b) = decodedSlots v :=
    decodedSlots_set hlen (by omega)
  refine ⟨by rwa [List.length_set], ?_, ?_, ?_, hacc.index_default, fun hm => ?_, hacc.endOffset,
    hacc.clean⟩
  · rw [hslots]
    exact hacc.slots
  · rw [hslots]
    exact hacc.selected
  · rw [List.length_set]
    exact hacc.logEnd_le
  · obtain ⟨payload, hmax, hholds, hdec⟩ := hacc.index_master hm
    refine ⟨payload, hmax, (holds_set_iff (Or.inl ?_)).mpr hholds, hdec⟩
    -- the master record is the last entry of the log
    have hd := hl.describes
    cases hd with
    | initial => simp at hlog
    | @commit _ pre' payload' hptr _ _ _ _ =>
      change _ < h.masterPtr.toNat
      have hsnoc : pre ++ [.doc r] <+: pre' := by
        have hle : pre ++ [.doc r] <+: pre' ++ [.master payload'] :=
          ⟨post, by rw [hlog]; simp⟩
        rcases List.prefix_concat_iff.mp hle with heq | hle
        · have := (List.append_inj' heq rfl).2
          simp at this
        · exact hle
      have hle := tail_le_of_isPrefix hsnoc
      rw [tail_snoc] at hle
      rw [Record.length_bytes] at hi
      rw [hptr]
      exact (Nat.add_lt_add_left hi _).trans_le hle

/-- **What is noticed of a changed document**: its reading fails or gives back what
it was, and `verify` fails, exactly when no record stands in its place. -/
theorem Live.noticed_iff (hl : Live v s h l) (hv : v.length ≤ maxFileLen) {pre post : Log}
    {r : Record} (hlog : l = pre ++ .doc r :: post) {offset : UInt64}
    (hoff : offset.toNat = tail pre) {i : ℕ} (hi : i < r.bytes.length) {b : UInt8}
    (hb : r.bytes[i]? ≠ some b) {e : StorageEngine} (hend : e.header.logEnd.toNat = tail l) :
    (((∃ err, (readRecordAt offset).over (v.set (offset.toNat + i) b) = .error err) ∨
        (readRecordAt offset).over (v.set (offset.toNat + i) b) = .ok r) ∧
      ∃ err, e.verify.over (v.set (offset.toNat + i) b) = .error err) ↔
      ¬Unnoticed v offset.toNat r i b := by
  have hr : r.payload.length ≤ maxRecordLen.toNat := (hl.valid.entryOk pre _ post hlog).length_le
  have hholds : Holds v offset.toNat r.bytes := by
    have hbytes := hl.holds
    rw [hlog] at hbytes
    rw [hoff]
    exact holds_record hbytes
  have hv' : (v.set (offset.toNat + i) b).length ≤ maxFileLen := by rwa [List.length_set]
  rw [ContextDb.noticed_iff hr hholds hi hb]
  constructor
  · rintro ⟨hread, -⟩ r' hr' h'
    have hok := (readRecordAt_over_ok hv').mpr ⟨hr', h'⟩
    rw [hok] at hread
    rcases hread with ⟨err, herr⟩ | hsame
    · cases herr
    · -- what is read is not the record, which has another byte here
      cases hsame
      have hset := (hholds.set (i := i) (b := b)).unique h' (List.length_set ..)
      refine hb ?_
      rw [← hset, List.getElem?_set_self hi]
  · intro hno
    refine ⟨Or.inl ?_, ?_⟩
    · cases hread : (readRecordAt offset).over (v.set (offset.toNat + i) b) with
      | error err => exact ⟨err, rfl⟩
      | ok r' =>
        obtain ⟨hr', h'⟩ := (readRecordAt_over_ok hv').mp hread
        exact absurd h' (hno r' hr')
    · cases hverify : e.verify.over (v.set (offset.toNat + i) b) with
      | error err => exact ⟨err, rfl⟩
      | ok n =>
        -- the records before the document are there, so the scan arrives at it
        obtain ⟨rs, hrs, -⟩ := (verify_over_ok hv').mp hverify
        have hp : pre <+: l := ⟨_, hlog.symm⟩
        have hpre : Acceptable pre.records := (hl.valid.of_isPrefix hp).acceptable
        have hbefore : Holds (v.set (offset.toNat + i) b) 128 (recordsBytes pre.records) := by
          rw [recordsBytes_records]
          refine (holds_set_iff (Or.inr ?_)).mpr (holds_logBytes_of_isPrefix hl.holds hp)
          rw [hoff, tail_eq]
          exact Nat.le_add_right _ _
        have hlt : (recordsBytes pre.records).length < (recordsBytes rs).length := by
          have h1 := hrs.ends
          have h2 := tail_lt_of_isPrefix hp (by rw [hlog]; simp)
          have h128 : logStart.toNat = 128 := rfl
          rw [recordsBytes_records]
          rw [hend, h128] at h1
          rw [tail_eq] at h2
          omega
        obtain ⟨r', hr', h'⟩ := exists_record_behind hpre hrs.acceptable hbefore hrs.holds hlt
        rw [recordsBytes_records, ← tail_eq, ← hoff] at h'
        exact absurd h' (hno r' hr')

end Document

/-! ### Bit rot -/

/-- **Which bit rot is detected.** A byte of a stored document changes, in any file
a history leaves. The file opens as before. Reading the document fails or gives
back what was stored, and `verify` fails, if and only if the change is not one that
goes unnoticed. -/
theorem bit_rot_detected_iff [Bson] {R : Regime} (hR : R.Covered) {w : World}
    (hw : Reachable R w) (hv : w.disk.volatile.length ≤ maxFileLen) {e : StorageEngine}
    (he : Opens w.disk.volatile e) {id : DocId} (hid : id ∈ e.liveIds) :
    ∃ offset r, e.index.offsets.lookup id = some offset ∧
      (e.readRecord id).over w.disk.volatile = .ok r ∧
      Holds w.disk.volatile offset.toNat r.bytes ∧
      ∀ i b, i < r.bytes.length → r.bytes[i]? ≠ some b →
        Opens (w.disk.volatile.set (offset.toNat + i) b) e ∧
        ((((∃ err, (e.readRecord id).over (w.disk.volatile.set (offset.toNat + i) b) = .error err) ∨
            (e.readRecord id).over (w.disk.volatile.set (offset.toNat + i) b) = .ok r) ∧
          ∃ err, e.verify.over (w.disk.volatile.set (offset.toNat + i) b) = .error err) ↔
          ¬Unnoticed w.disk.volatile offset.toNat r i b) := by
  rcases hw.live_or_unreadable hR with ⟨s, h, l, hl⟩ | hu
  · obtain rfl := hl.opens_iff.mp he
    obtain ⟨offset, r, pre, post, ho, hd, hlog, hoff, hfind⟩ := hl.document hid
    have hread : ((opened (decodedSlots w.disk.volatile) s h l).readRecord id).over
        w.disk.volatile = .ok r := by
      rw [← hfind]
      exact (readRecord_returns hl.valid rfl id).answer_eq hl.holds
    have hholds : Holds w.disk.volatile offset.toNat r.bytes := by
      have hbytes := hl.holds
      rw [hlog] at hbytes
      rw [hoff]
      exact holds_record hbytes
    refine ⟨offset, r, ho, hread, hholds, fun i b hi hb => ⟨?_, ?_⟩⟩
    · rw [hoff]
      exact hl.opens_set hv hlog hi b
    · rw [readRecord_over hd ho]
      exact hl.noticed_iff hv hlog hoff hi hb hl.describes.logEnd_toNat
  · -- without a live log, only the empty file opens, and it has no documents
    rcases eq_or_ne w.disk.volatile [] with hnil | hne
    · rw [hnil] at he
      obtain ⟨d, hd⟩ := he
      rw [openFile_exec_new] at hd
      cases hd
      exact absurd hid (Finset.notMem_empty id)
    · obtain ⟨err, hret⟩ := hu.returns hne
      exact absurd he (not_opens_of_returns hret)

/-! ### A first document -/

/-- **A first document, committed.** -/
theorem first_committed [Bson] : ∃ d cs, Reachable crashes ⟨d, some firstCommitted, cs⟩ ∧
    d.volatile.length ≤ 187 ∧
    Live d.volatile firstCommitted.liveSlot firstCommitted.header firstLog := by
  obtain ⟨d₁, d₂, h₁, h₂, -, hs⟩ := first_document (d := .ofImage newRegion) settled_created
  obtain ⟨tr₁, hr₁⟩ := runs_of_exec h₁
  obtain ⟨tr₂, hr₂⟩ := runs_of_exec h₂
  have hw := ((reachable_created crashes).tail
    (.serve (show Op.Allowed _ (.append .blob [7]) from trivial) hr₁.of_never)).tail
    (.serve (show Op.Allowed _ (.commit .listed) from trivial) hr₂.of_never)
  have hstart : (Disk.ofImage newRegion).volatile.length ≤ 187 := by
    rw [Disk.volatile_ofImage, length_newRegion]
    decide
  have hlen₁ : d₁.volatile.length ≤ 187 :=
    ((append_within (by decide) fun _ => by decide).steps hstart hr₁).2
  have hlen₂ : d₂.volatile.length ≤ 187 :=
    ((commit_within (by decide) (by decide) fun _ => by decide).steps hlen₁ hr₂).2
  exact ⟨_, _, hw, hlen₂, hs.live⟩

/-- A master record does nothing to the index. -/
theorem indexOf_firstLog : indexOf firstLog = indexOf [.doc ⟨.blob, [7]⟩] := rfl

/-- Its only document is live, … -/
theorem mem_liveIds_firstLog : (⟨1⟩ : DocId) ∈ (indexOf firstLog).liveIds := by
  rw [indexOf_firstLog]
  decide

/-- … not deleted, … -/
theorem dead_firstLog : (⟨1⟩ : DocId) ∉ (indexOf firstLog).dead := by
  rw [indexOf_firstLog]
  decide

/-- … and stands behind the header region. -/
theorem lookup_firstLog : (indexOf firstLog).offsets.lookup ⟨1⟩ = some 128 := by
  rw [indexOf_firstLog]
  decide

/-- Its two records. -/
theorem holds_firstLog {v : Bytes} {s : Slot} {h : Header} (hl : Live v s h firstLog) :
    Holds v 128 (Record.bytes ⟨.blob, [7]⟩) ∧
      Holds v 138 (Entry.master (commitPayload firstAppended .listed)).record.bytes := by
  have hholds := hl.holds
  rw [firstLog, logBytes_cons] at hholds
  obtain ⟨hdoc, hmaster⟩ := holds_append_iff.mp hholds
  rw [logBytes_cons, logBytes_nil, List.append_nil] at hmaster
  exact ⟨hdoc, hmaster⟩

/-- The condition holds where the tag of the first document becomes none. -/
theorem bit_rot_detected_iff_first :
    letI := emptyDocuments
    ∃ v e, Opens v e ∧ Opens (v.set 132 5) e ∧ ∃ err, e.verify.over (v.set 132 5) = .error err := by
  let _ := emptyDocuments
  obtain ⟨d, cs, hw, hlen, hl⟩ := first_committed
  have hv : d.volatile.length ≤ maxFileLen := hlen.trans (by decide)
  have hopens : Opens d.volatile _ := hl.opens_iff.mpr rfl
  obtain ⟨offset, r, ho, hread, -, hall⟩ :=
    bit_rot_detected_iff (Or.inr rfl) hw hv hopens mem_liveIds_firstLog
  obtain rfl : 128 = offset := Option.some.inj (lookup_firstLog.symm.trans ho)
  obtain ⟨hdoc, -⟩ := holds_firstLog hl
  have hfirst : (readRecordAt 128).over d.volatile = .ok ⟨.blob, [7]⟩ :=
    (readRecordAt_over_ok hv).mpr ⟨by decide, hdoc⟩
  rw [readRecord_over dead_firstLog lookup_firstLog, hfirst] at hread
  obtain rfl : ⟨.blob, [7]⟩ = r := Except.ok.inj hread
  obtain ⟨hopens', hiff⟩ := hall 4 5 (by decide) (by decide)
  refine ⟨_, _, hopens, hopens', (hiff.mpr fun hu => ?_).2⟩
  obtain ⟨k, hk⟩ := unnoticed_tag_iff.mp hu
  cases k <;> exact absurd hk (by decide)

/-- **A changed tag is not noticed**: the first document of a database is stored as
a blob, one bit of its tag changes, and it is read as a node. -/
theorem changed_tag_is_read :
    letI := emptyDocuments
    ∃ w e, Reachable crashes w ∧ Opens w.disk.volatile e ∧ ⟨1⟩ ∈ e.liveIds ∧
      (e.readRecord ⟨1⟩).over w.disk.volatile = .ok ⟨.blob, [7]⟩ ∧
      Opens (w.disk.volatile.set 132 0) e ∧
      (e.readRecord ⟨1⟩).over (w.disk.volatile.set 132 0) = .ok ⟨.node, [7]⟩ ∧
      e.verify.over (w.disk.volatile.set 132 0) = .ok 2 := by
  let _ := emptyDocuments
  obtain ⟨d, cs, hw, hlen, hl⟩ := first_committed
  have hv : d.volatile.length ≤ maxFileLen := hlen.trans (by decide)
  have hv' : (d.volatile.set 132 0).length ≤ maxFileLen := by rwa [List.length_set]
  obtain ⟨hdoc, hmaster⟩ := holds_firstLog hl
  have hchanged := hdoc.set (i := 4) (b := 0)
  change Holds (d.volatile.set 132 0) 128 (Record.bytes ⟨.node, [7]⟩) at hchanged
  refine ⟨_, _, hw, hl.opens_iff.mpr rfl, mem_liveIds_firstLog, ?_, ?_, ?_, ?_⟩
  · rw [readRecord_over dead_firstLog lookup_firstLog]
    exact (readRecordAt_over_ok hv).mpr ⟨by decide, hdoc⟩
  · have hlog : firstLog = [] ++ Entry.doc ⟨.blob, [7]⟩ :: firstLog.tail := rfl
    exact hl.opens_set hv hlog (i := 4) (by decide) 0
  · rw [readRecord_over dead_firstLog lookup_firstLog]
    exact (readRecordAt_over_ok hv').mpr ⟨by decide, hchanged⟩
  · refine (verify_over_ok hv').mpr ⟨[⟨.node, [7]⟩,
      (Entry.master (commitPayload firstAppended .listed)).record], ⟨?_, ?_, ?_⟩, rfl⟩
    · intro r hr
      rcases List.mem_pair.mp hr with rfl | rfl
      · decide
      · exact (hl.valid.entryOk [.doc ⟨.blob, [7]⟩] _ [] rfl).length_le
    · rw [recordsBytes_cons, recordsBytes_cons, recordsBytes_nil, List.append_nil]
      exact holds_append_iff.mpr ⟨hchanged, (holds_set_iff (Or.inl (by decide))).mpr hmaster⟩
    · exact (tail_eq firstLog).symm.trans hl.describes.logEnd_toNat.symm

end ContextDb
