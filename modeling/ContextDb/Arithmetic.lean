import ContextDb.Executing
import ContextDb.Grammar

/-!
# Machine arithmetic on files that open

Every counter and every offset of a handle is read from the file, and used in
arithmetic that nothing guards: a sum that does not fit, or a difference below
zero, stops a debug build and wraps around in a release build. A file that opens
has a matching checksum and a log that ends within it – which bounds some of these
numbers and not others.

* **Offsets** are bounded by what has just been done at them: a frame that has
  been read, or written, lies within the largest file. So no sum of offsets wraps,
  whatever the file says.
* **Counters** are not bounded by anything. `next_doc_id` and `generation` may
  stand at the last 64-bit number when the file is opened.
* **Sizes** are what an index of that many entries needs to be read. But nothing
  says that the deleted documents are documents, and where they are not
  `live_count` subtracts the larger number from the smaller one, or counts wrong.

`ContextDb.arithmetic_exact_iff` puts this together: a run is one in which nothing
wraps (`ContextDb.ExactTask`) and `len` counts the live documents, exactly when
only documents were deleted in the index that was opened and neither counter
reaches 2^64.
-/

namespace ContextDb

open ByteFile Bincode FileProg Prog StorageEngine

/-! ### The operations of the engine -/

/-- **An operation on 64-bit machine integers.** -/
inductive Arith where
  /-- A sum. -/
  | add (a b : UInt64)
  /-- A difference. -/
  | sub (a b : UInt64)

/-- **It neither overflows nor underflows.** -/
def Arith.Exact : Arith → Prop
  | add a b => a.toNat + b.toNat < 2 ^ 64
  | sub a b => b.toNat ≤ a.toNat

instance : DecidablePred Arith.Exact
  | .add _ _ => inferInstanceAs (Decidable (_ < _))
  | .sub _ _ => inferInstanceAs (Decidable (_ ≤ _))

/-- Whether a task counts the live documents. -/
def Task.counts : Task → Bool
  | .op .len | .isEmpty | .stats => true
  | _ => false

/-- The document a task reads. -/
def Task.reads : Task → Option DocId
  | .op (.readRecord id) | .read id => some id
  | _ => none

/-- Whether a task hands out an id, if it succeeds. -/
def Task.hands : Task → Bool
  | .op (.append _ _) | .op (.insert _) => true
  | _ => false

/-- Whether a task writes to the log, if it succeeds, and leaves that to commit. -/
def Task.stages : Task → Bool
  | .op (.append _ _) | .op (.insert _) | .op (.tombstone _) => true
  | _ => false

/-- **Where the loop of `verify` comes by**: the offsets, with the number of records
behind them. -/
inductive Scans (v : Bytes) (logEnd : UInt64) : UInt64 → ℕ → Prop
  /-- It starts at the start of the log. -/
  | start : Scans v logEnd logStart 0
  /-- It goes on behind a record that passes all checks. -/
  | next {offset : UInt64} {count : ℕ} {frame : Frame} {payload : Bytes}
      (h : Scans v logEnd offset count) (hlt : offset < logEnd)
      (hframe : (readFrameAt offset).over v = .ok frame)
      (hpayload : (readExactAt frame.len.toNat (offset + recordHeaderSize)).over v = .ok payload)
      (hcheck : verifyPayload frame payload offset = .ok ()) :
      Scans v logEnd (offset + frame.totalLen) (count + 1)

section Computes

variable [Bson] (e : StorageEngine) (v : Bytes)

/-- **The operations on machine integers that a task performs**, on a file of which
a reader sees `v`, when nothing fails. -/
inductive Computes : Task → Arith → Prop
  /-- `live_count`: the documents, less the deleted ones. -/
  | liveCount {q : Task} (hq : q.counts = true) :
      Computes q (.sub (UInt64.ofNat e.index.offsets.keys.card) (UInt64.ofNat e.index.dead.card))
  /-- `append_raw`: where the payload goes. -/
  | payloadOffset {q : Task} {r : Record} (hr : q.written e = some r) :
      Computes q (.add e.endOffset recordHeaderSize)
  /-- `append_raw`: where the log ends then. -/
  | nextEnd {q : Task} {r : Record} (hr : q.written e = some r) :
      Computes q (.add (e.endOffset + recordHeaderSize) (UInt64.ofNat r.payload.length))
  /-- `allocate_id`. -/
  | nextId {q : Task} {r : Record} (hr : q.written e = some r) (hq : q.hands = true) :
      Computes q (.add e.index.nextDocId 1)
  /-- `commit`: the next generation. -/
  | nextGeneration {q : Task} {r : Record} (hr : q.written e = some r) (hq : q.commits = true) :
      Computes q (.add e.header.generation 1)
  /-- `read_record_at`: where the payload stands. -/
  | readPayload {q : Task} {id : DocId} {offset : UInt64} {frame : Frame}
      (hq : q.reads = some id) (hd : id ∉ e.index.dead)
      (ho : e.index.offsets.lookup id = some offset)
      (hframe : (readFrameAt offset).over v = .ok frame) :
      Computes q (.add offset recordHeaderSize)
  /-- `verify`: where the payload stands. -/
  | scanPayload {offset : UInt64} {count : ℕ} {frame : Frame}
      (h : Scans v e.header.logEnd offset count) (hlt : offset < e.header.logEnd)
      (hframe : (readFrameAt offset).over v = .ok frame) :
      Computes .verify (.add offset recordHeaderSize)
  /-- `total_len`: the size of a record. -/
  | scanTotal {offset : UInt64} {count : ℕ} {frame : Frame}
      (h : Scans v e.header.logEnd offset count) (hlt : offset < e.header.logEnd)
      (hframe : (readFrameAt offset).over v = .ok frame) :
      Computes .verify (.add recordHeaderSize frame.len)
  /-- `verify`: where the next record stands. -/
  | scanNext {offset : UInt64} {count : ℕ} {frame : Frame} {payload : Bytes}
      (h : Scans v e.header.logEnd offset count) (hlt : offset < e.header.logEnd)
      (hframe : (readFrameAt offset).over v = .ok frame)
      (hpayload : (readExactAt frame.len.toNat (offset + recordHeaderSize)).over v = .ok payload)
      (hcheck : verifyPayload frame payload offset = .ok ()) :
      Computes .verify (.add offset frame.totalLen)
  /-- `verify`: the number of records. -/
  | scanCount {offset : UInt64} {count : ℕ} {frame : Frame} {payload : Bytes}
      (h : Scans v e.header.logEnd offset count) (hlt : offset < e.header.logEnd)
      (hframe : (readFrameAt offset).over v = .ok frame)
      (hpayload : (readExactAt frame.len.toNat (offset + recordHeaderSize)).over v = .ok payload)
      (hcheck : verifyPayload frame payload offset = .ok ()) :
      Computes .verify (.add (UInt64.ofNat count) 1)

end Computes

/-! ### Offsets -/

section Offsets

variable {v : Bytes} {logEnd offset : UInt64} {count : ℕ} {frame : Frame} {payload : Bytes}

/-- **A frame that has been read** lies in the file, and says how much follows. -/
theorem frame_read (hframe : (readFrameAt offset).over v = .ok frame) :
    offset.toNat + 9 ≤ v.length ∧ frame.len.toNat ≤ maxRecordLen.toNat := by
  obtain ⟨buf, hbuf, hd⟩ := over_bind_ok.mp hframe
  obtain ⟨hholds, hnine⟩ := holds_of_readAt (readExactAt_over_ok.mp hbuf)
  have hle := hholds.length_le (List.ne_nil_of_length_pos (by rw [hnine]; decide))
  rw [hnine] at hle
  exact ⟨hle, (decodeFrame_ok hd).2.1⟩

/-- **A record that has been read** ends where a file can. -/
theorem record_read (hv : v.length ≤ maxFileLen)
    (hframe : (readFrameAt offset).over v = .ok frame)
    (hpayload : (readExactAt frame.len.toNat (offset + recordHeaderSize)).over v = .ok payload) :
    offset.toNat + (9 + frame.len.toNat) ≤ maxFileLen := by
  obtain ⟨hle, -⟩ := frame_read hframe
  obtain ⟨hholds, hlen⟩ := holds_of_readAt (readExactAt_over_ok.mp hpayload)
  rw [add_recordHeaderSize_toNat (by omega)] at hholds
  rcases eq_or_ne payload [] with rfl | hne
  · -- nothing is read of an empty payload, but its frame was
    rw [List.length_nil] at hlen
    omega
  · have := hholds.length_le hne
    omega

theorem totalLen_toNat (hlen : frame.len.toNat ≤ maxRecordLen.toNat) :
    frame.totalLen.toNat = 9 + frame.len.toNat := by
  have hmax := maxRecordLen_toNat
  rw [Frame.totalLen, UInt64.toNat_add, recordHeaderSize_toNat]
  exact Nat.mod_eq_of_lt (by omega)

/-- **The loop of `verify` stays in the file**, and counts fewer records than bytes. -/
theorem Scans.le (h : Scans v logEnd offset count) (hv : v.length ≤ maxFileLen) :
    count ≤ offset.toNat ∧ offset.toNat ≤ maxFileLen := by
  induction h with
  | start => exact ⟨Nat.zero_le _, by decide⟩
  | @next offset count frame payload _ _ hframe hpayload _ ih =>
    have hle := record_read hv hframe hpayload
    have hmax : maxFileLen = 2 ^ 63 - 1 := rfl
    rw [UInt64.toNat_add, totalLen_toNat (frame_read hframe).2, Nat.mod_eq_of_lt (by omega)]
    omega

end Offsets

/-! ### Runs -/

section Runs

variable [Bson]

/-- **The live documents are counted right**: the subtraction does not underflow,
and gives their number. -/
def LenExact (e : StorageEngine) : Prop :=
  Arith.Exact (.sub (UInt64.ofNat e.index.offsets.keys.card) (UInt64.ofNat e.index.dead.card)) ∧
    e.len.toNat = e.liveIds.card

/-- **One task in which nothing wraps**, of a handle that counts right. -/
def PerformingExactly (x : StorageEngine × Disk) (q : Task) (r : Except CndbError TaskReply)
    (x' : StorageEngine × Disk) : Prop :=
  LenExact x.1 ∧ (∀ a, Computes x.1 x.2.volatile q a → a.Exact) ∧ Performing x q r x'

/-- How many ids a run hands out. -/
def handedOut : List (Task × Except CndbError TaskReply) → ℕ
  | [] => 0
  | (q, r) :: tr => (q.hands && r.isOk).toNat + handedOut tr

/-- How many commits of a run have something to commit, and go through. The flag
says whether there was something to commit before. -/
def published : Bool → List (Task × Except CndbError TaskReply) → ℕ
  | _, [] => 0
  | dirty, (q, r) :: tr =>
    (q.commits && r.isOk && dirty).toNat +
      published (if q.commits && r.isOk then false else dirty || (q.stages && r.isOk)) tr

variable {x x' : StorageEngine × Disk} {q : Task} {r : Except CndbError TaskReply}

/-- A task is done in one way. -/
theorem Performing.unique {x₁ x₂ : StorageEngine × Disk} (h : Performing x q r x₁)
    (h' : Performing x q r x₂) : x₁ = x₂ := by
  have heq := Option.some.inj (h.symm.trans h')
  obtain ⟨hleft, hdisk⟩ := Prod.ext_iff.mp heq
  exact Prod.ext (Prod.ext_iff.mp hleft).2 hdisk

/-- What kind of request appends a document. -/
theorem Op.document_kind {op : Op} {r : Record} (hop : op.document = some r) :
    (Task.op op).hands = true ∧ (Task.op op).stages = true ∧ (Task.op op).commits = false := by
  cases op with
  | append | insert => exact ⟨rfl, rfl, rfl⟩
  | _ => cases hop

omit [Bson] in
/-- What kind of request only looks. -/
theorem Op.reads_kind {op : Op} (hop : op.reads = true) :
    (Task.op op).hands = false ∧ (Task.op op).stages = false ∧ (Task.op op).commits = false := by
  cases op with
  | readRecord | len | liveIds => exact ⟨rfl, rfl, rfl⟩
  | _ => cases hop

section Effects

variable {e e' : StorageEngine} {d d' : Disk} {op : Op} {y : Except CndbError Reply}

/-- **Only appends hand out ids**, one each. -/
theorem Executes.nextDocId (h : Executes e d op y e' d') : e'.index.nextDocId =
    if (Task.op op).hands && y.isOk then e.index.nextDocId + 1 else e.index.nextDocId := by
  cases h with
  | documented hop =>
    rw [(Op.document_kind hop).1]
    rfl
  | read hop =>
    rw [(Op.reads_kind hop).1]
    rfl
  | refused =>
    rw [Except.isOk, Except.toBool, Bool.and_false]
    rfl
  | buried | clean | committed => rfl

/-- **Only commits that have something to commit** make a new generation. -/
theorem Executes.generation (h : Executes e d op y e' d') : e'.header.generation =
    if (Task.op op).commits && y.isOk && e.dirty then e.header.generation + 1
    else e.header.generation := by
  cases h with
  | documented hop =>
    rw [(Op.document_kind hop).2.2]
    rfl
  | read hop =>
    rw [(Op.reads_kind hop).2.2]
    rfl
  | refused =>
    rw [Except.isOk, Except.toBool, Bool.and_false]
    rfl
  | buried => rfl
  | clean hd | committed hd =>
    rw [hd]
    rfl

/-- When there is something to commit. -/
theorem Executes.dirty (h : Executes e d op y e' d') : e'.dirty =
    if (Task.op op).commits && y.isOk then false
    else e.dirty || ((Task.op op).stages && y.isOk) := by
  cases h with
  | documented hop =>
    rw [(Op.document_kind hop).2.2, (Op.document_kind hop).2.1]
    exact (Bool.or_true _).symm
  | read hop =>
    rw [(Op.reads_kind hop).2.2, (Op.reads_kind hop).2.1]
    exact (Bool.or_false _).symm
  | refused =>
    rw [Except.isOk, Except.toBool, Bool.and_false, Bool.and_false, Bool.or_false]
    rfl
  | buried => exact (Bool.or_true _).symm
  | clean hd => exact hd
  | committed => rfl

/-- **Only documents are deleted**, if that was so before. -/
theorem Executes.dead_subset (h : Executes e d op y e' d')
    (hsub : e.index.dead ⊆ e.index.offsets.keys) : e'.index.dead ⊆ e'.index.offsets.keys := by
  cases h with
  | documented =>
    change e.index.dead ⊆ (e.index.offsets.insert _ _).keys
    rw [keys_insert]
    exact hsub.trans (Finset.subset_insert _ _)
  | buried hd hid => exact Finset.insert_subset (Finmap.mem_keys.mpr hid) hsub
  | clean | committed | refused | read => exact hsub

/-- There is at most one more entry. -/
theorem Executes.card_le (h : Executes e d op y e' d') :
    e'.index.offsets.keys.card ≤ e.index.offsets.keys.card + 1 := by
  cases h with
  | documented =>
    change (e.index.offsets.insert _ _).keys.card ≤ _
    rw [keys_insert]
    exact Finset.card_insert_le _ _
  | buried | clean | committed | refused | read => exact Nat.le_succ _

/-- A request that hands out an id or makes a generation has written a record. -/
theorem Executes.exists_written (h : Executes e d op y e' d') (hok : y.isOk = true)
    (hq : (Task.op op).hands = true ∨ (Task.op op).commits = true ∧ e.dirty = true) :
    ∃ r, op.written e = some r := by
  cases h with
  | documented hop hlen => exact ⟨_, Op.written_of_document hop hlen⟩
  | buried hd hid => exact ⟨_, if_pos ⟨hd, hid⟩⟩
  | committed hd hlen =>
    rw [← MasterIndex.length_serialize] at hlen
    exact ⟨_, if_pos ⟨hd, hlen⟩⟩
  | clean hd =>
    rw [hd] at hq
    rcases hq with hq | ⟨-, hq⟩ <;> cases hq
  | refused => cases hok
  | read hop =>
    obtain ⟨hhands, -, hcommits⟩ := Op.reads_kind hop
    rw [hhands, hcommits] at hq
    rcases hq with hq | ⟨hq, -⟩ <;> cases hq

end Effects

/-- **What bounds the numbers of a handle** and its file. -/
structure InBounds (x : StorageEngine × Disk) : Prop where
  /-- The file is no longer than a file can be. -/
  length_le : x.2.volatile.length ≤ maxFileLen
  /-- The log ends where a file can. -/
  endOffset_le : x.1.endOffset.toNat ≤ maxFileLen
  /-- Only documents are deleted. -/
  dead_subset : x.1.index.dead ⊆ x.1.index.offsets.keys

omit [Bson] in
/-- **When `len` counts right.** -/
theorem lenExact_iff {e : StorageEngine} (ho : e.index.offsets.keys.card < 2 ^ 64)
    (hd : e.index.dead.card < 2 ^ 64) :
    LenExact e ↔ e.index.dead ⊆ e.index.offsets.keys := by
  rw [LenExact, Arith.Exact, UInt64.toNat_ofNat', UInt64.toNat_ofNat', Nat.mod_eq_of_lt ho,
    Nat.mod_eq_of_lt hd]
  exact MasterIndex.liveCount_exact_iff ho hd

omit [Bson] in
theorem InBounds.lenExact (hx : InBounds x) (ho : x.1.index.offsets.keys.card < 2 ^ 64) :
    LenExact x.1 :=
  (lenExact_iff ho ((Finset.card_le_card hx.dead_subset).trans_lt ho)).mpr hx.dead_subset

/-- **Tasks keep the bounds.** -/
theorem InBounds.step (hx : InBounds x) (h : Performing x q r x') :
    InBounds x' ∧ x'.1.index.offsets.keys.card ≤ x.1.index.offsets.keys.card + 1 := by
  rcases performing_cases h with ⟨op, y, -, -, hexec⟩ | ⟨-, rfl⟩
  · have hdoes := executes_of_exec hx.endOffset_le hexec
    exact ⟨⟨exec_length_le hexec hx.length_le, hdoes.endOffset_le hx.endOffset_le,
      hdoes.dead_subset hx.dead_subset⟩, hdoes.card_le⟩
  · exact ⟨hx, Nat.le_succ _⟩

/-- Something was written by a task that hands out an id or makes a generation. -/
theorem InBounds.exists_written (hx : InBounds x) (h : Performing x q r x') (hok : r.isOk = true)
    (hq : q.hands = true ∨ q.commits = true ∧ x.1.dirty = true) :
    ∃ r, q.written x.1 = some r := by
  rcases performing_cases h with ⟨op, y, rfl, rfl, hexec⟩ | ⟨hop, -⟩
  · refine (executes_of_exec hx.endOffset_le hexec).exists_written ?_ hq
    cases y with
    | ok => rfl
    | error => cases hok
  · exfalso
    cases q with
    | op op => exact hop op rfl
    | _ => rcases hq with hq | ⟨hq, -⟩ <;> cases hq

/-- What a task writes fits, and the task succeeds. -/
theorem InBounds.of_written (hx : InBounds x) (h : Performing x q r x') {rec : Record}
    (hr : q.written x.1 = some rec) : RecordFits x.1 rec ∧ r.isOk = true := by
  rcases performing_cases h with ⟨op, y, rfl, rfl, hexec⟩ | ⟨hop, -⟩
  · obtain ⟨hfit, hok⟩ := (executes_of_exec hx.endOffset_le hexec).of_written hr
    refine ⟨hfit, ?_⟩
    cases y with
    | ok => rfl
    | error => cases hok
  · exfalso
    cases q with
    | op op => exact hop op rfl
    | _ => cases hr

/-- A commit writes when there is something to commit. -/
theorem dirty_of_written {e : StorageEngine} {rec : Record} (hr : q.written e = some rec)
    (hq : q.commits = true) : e.dirty = true := by
  cases q with
  | op op =>
    obtain ⟨order, rfl⟩ : ∃ order, op = .commit order := by
      cases op with
      | commit order => exact ⟨order, rfl⟩
      | _ => cases hq
    by_contra hd
    change Op.written e (.commit order) = some rec at hr
    rw [Op.written, if_neg fun hw => hd hw.1] at hr
    cases hr
  | _ => cases hq

/-- **One task**: nothing wraps exactly when the counters it moves do not. -/
theorem InBounds.exact_iff (hx : InBounds x) (hlen : LenExact x.1) (h : Performing x q r x') :
    (∀ a, Computes x.1 x.2.volatile q a → a.Exact) ↔
      ((q.hands && r.isOk) = true → x.1.index.nextDocId.toNat + 1 < 2 ^ 64) ∧
      ((q.commits && r.isOk && x.1.dirty) = true → x.1.header.generation.toNat + 1 < 2 ^ 64) := by
  have hmax : maxFileLen = 2 ^ 63 - 1 := rfl
  have hv := hx.length_le
  constructor
  · intro hall
    constructor
    · -- a task that hands out an id has computed the next one
      intro hq
      obtain ⟨hhands, hok⟩ := Bool.and_eq_true_iff.mp hq
      obtain ⟨rec, hr⟩ := hx.exists_written h hok (Or.inl hhands)
      exact hall _ (.nextId hr hhands)
    · intro hq
      obtain ⟨hq, hdirty⟩ := Bool.and_eq_true_iff.mp hq
      obtain ⟨hcommits, hok⟩ := Bool.and_eq_true_iff.mp hq
      obtain ⟨rec, hr⟩ := hx.exists_written h hok (Or.inr ⟨hcommits, hdirty⟩)
      exact hall _ (.nextGeneration hr hcommits)
  · rintro ⟨hid, hgen⟩ a ha
    cases ha with
    | liveCount => exact hlen.1
    | payloadOffset hr =>
      -- what is written fits in the file, whose length is a 63-bit number
      obtain ⟨hfit, -⟩ := hx.of_written h hr
      rw [RecordFits] at hfit
      rw [Arith.Exact, recordHeaderSize_toNat]
      omega
    | @nextEnd _ rec hr =>
      obtain ⟨hfit, -⟩ := hx.of_written h hr
      rw [RecordFits] at hfit
      rw [Arith.Exact, add_recordHeaderSize_toNat hx.endOffset_le, UInt64.toNat_ofNat',
        Nat.mod_eq_of_lt (by omega)]
      omega
    | nextId hr hq => exact hid (by rw [hq, (hx.of_written h hr).2]; rfl)
    | nextGeneration hr hq =>
      exact hgen (by rw [hq, (hx.of_written h hr).2, dirty_of_written hr hq]; rfl)
    | readPayload _ _ _ hframe | scanPayload _ _ hframe =>
      have := (frame_read hframe).1
      rw [Arith.Exact, recordHeaderSize_toNat]
      omega
    | scanTotal _ _ hframe =>
      have := (frame_read hframe).2
      have hlimit := maxRecordLen_toNat
      rw [Arith.Exact, recordHeaderSize_toNat]
      omega
    | scanNext _ _ hframe hpayload =>
      -- what was read ends in the file
      have := record_read hv hframe hpayload
      rw [Arith.Exact, totalLen_toNat (frame_read hframe).2]
      omega
    | @scanCount offset count _ _ hscan =>
      -- every record that was counted has moved the offset on
      obtain ⟨hcount, hoffset⟩ := hscan.le hv
      have hone : (1 : UInt64).toNat = 1 := rfl
      rw [Arith.Exact, hone, UInt64.toNat_ofNat', Nat.mod_eq_of_lt (by omega)]
      omega

/-- **The counters behind one task**, if they did not wrap. -/
theorem InBounds.counters (hx : InBounds x) (h : Performing x q r x')
    (hid : (q.hands && r.isOk) = true → x.1.index.nextDocId.toNat + 1 < 2 ^ 64)
    (hgen : (q.commits && r.isOk && x.1.dirty) = true → x.1.header.generation.toNat + 1 < 2 ^ 64) :
    x'.1.index.nextDocId.toNat = x.1.index.nextDocId.toNat + (q.hands && r.isOk).toNat ∧
      x'.1.header.generation.toNat =
        x.1.header.generation.toNat + (q.commits && r.isOk && x.1.dirty).toNat ∧
      x'.1.dirty = if q.commits && r.isOk then false else x.1.dirty || (q.stages && r.isOk) := by
  have hone : (1 : UInt64).toNat = 1 := rfl
  rcases performing_cases h with ⟨op, y, rfl, rfl, hexec⟩ | ⟨hop, rfl⟩
  · have hdoes := executes_of_exec hx.endOffset_le hexec
    have hok : (y.map TaskReply.reply).isOk = y.isOk := by cases y <;> rfl
    rw [hok] at hid hgen ⊢
    refine ⟨?_, ?_, hdoes.dirty⟩
    · rw [hdoes.nextDocId]
      cases hq : (Task.op op).hands && y.isOk with
      | false => rfl
      | true =>
        rw [if_pos rfl, UInt64.toNat_add, hone]
        exact Nat.mod_eq_of_lt (hid hq)
    · rw [hdoes.generation]
      cases hq : (Task.op op).commits && y.isOk && x.1.dirty with
      | false => rfl
      | true =>
        rw [if_pos rfl, UInt64.toNat_add, hone]
        exact Nat.mod_eq_of_lt (hgen hq)
  · -- the other tasks only look
    have hkind : q.hands = false ∧ q.stages = false ∧ q.commits = false := by
      cases q with
      | op op => exact absurd rfl (hop op)
      | _ => exact ⟨rfl, rfl, rfl⟩
    obtain ⟨hhands, hstages, hcommits⟩ := hkind
    rw [hhands, hstages, hcommits]
    exact ⟨rfl, rfl, (Bool.or_false _).symm⟩

/-- **A run of a handle that only deleted documents**: nothing wraps exactly when
neither counter reaches 2^64. -/
theorem InBounds.run_exact_iff {tr : List (Task × Except CndbError TaskReply)}
    (hrun : Machine.Run Performing x tr x') (hx : InBounds x)
    (hops : x.1.index.offsets.keys.card + tr.length < 2 ^ 64) :
    (Machine.Run PerformingExactly x tr x' ∧ LenExact x'.1) ↔
      x.1.index.nextDocId.toNat + handedOut tr < 2 ^ 64 ∧
        x.1.header.generation.toNat + published x.1.dirty tr < 2 ^ 64 := by
  induction hrun with
  | nil x =>
    exact iff_of_true ⟨.nil x, hx.lenExact hops⟩ ⟨UInt64.toNat_lt _, UInt64.toNat_lt _⟩
  | @cons x₁ x₂ x₃ q r tr hstep _ ih =>
    rw [List.length_cons] at hops
    obtain ⟨hx₂, hcard⟩ := hx.step hstep
    have hlen : LenExact x₁.1 := hx.lenExact (by omega)
    have hstep_iff := hx.exact_iff hlen hstep
    -- tasks are done in one way, so the exact run passes the same states
    have htail : Machine.Run PerformingExactly x₁ ((q, r) :: tr) x₃ ↔
        (∀ a, Computes x₁.1 x₁.2.volatile q a → a.Exact) ∧
          Machine.Run PerformingExactly x₂ tr x₃ := by
      constructor
      · rintro (_ | ⟨⟨-, hall, hstep'⟩, hrest⟩)
        rw [hstep.unique hstep']
        exact ⟨hall, hrest⟩
      · rintro ⟨hall, hrest⟩
        exact .cons ⟨hlen, hall, hstep⟩ hrest
    rw [htail, hstep_iff, handedOut, published]
    constructor
    · rintro ⟨⟨⟨hid, hgen⟩, hrest⟩, hend⟩
      obtain ⟨hnext, hgeneration, hdirty⟩ := hx.counters hstep hid hgen
      obtain ⟨hids, hcommits⟩ := (ih hx₂ (by omega)).mp ⟨hrest, hend⟩
      rw [hnext, Nat.add_assoc] at hids
      rw [hgeneration, hdirty, Nat.add_assoc] at hcommits
      exact ⟨hids, hcommits⟩
    · rintro ⟨hids, hcommits⟩
      have hid : (q.hands && r.isOk) = true → x₁.1.index.nextDocId.toNat + 1 < 2 ^ 64 := by
        intro hq
        rw [hq, Bool.toNat_true] at hids
        omega
      have hgen : (q.commits && r.isOk && x₁.1.dirty) = true →
          x₁.1.header.generation.toNat + 1 < 2 ^ 64 := by
        intro hq
        rw [hq, Bool.toNat_true] at hcommits
        omega
      obtain ⟨hnext, hgeneration, hdirty⟩ := hx.counters hstep hid hgen
      rw [← Nat.add_assoc, ← hnext] at hids
      rw [← Nat.add_assoc, ← hgeneration, ← hdirty] at hcommits
      obtain ⟨hrest, hend⟩ := (ih hx₂ (by omega)).mpr ⟨hids, hcommits⟩
      exact ⟨⟨⟨hid, hgen⟩, hrest⟩, hend⟩

omit [Bson] in
/-- The bounds of a handle just opened, if only documents are deleted in it. -/
theorem Accepted.inBounds {v : Bytes} {e : StorageEngine} (hacc : Accepted v e)
    (hv : v.length ≤ maxFileLen) (hsub : e.index.dead ⊆ e.index.offsets.keys) :
    InBounds (e, .ofImage v) where
  length_le := hv
  endOffset_le := by
    rw [hacc.endOffset]
    exact hacc.logEnd_le.trans hv
  dead_subset := hsub

/-- **When no arithmetic wraps.** Take any file that opens, and any run of tasks on
the handle. No operation on machine integers wraps in it and `len` counts the live
documents in every state it reaches, exactly when only documents are deleted in the
index that was opened, and neither the identifiers nor the generations run out. -/
theorem arithmetic_exact_iff {v : Bytes} {e : StorageEngine}
    {tr : List (Task × Except CndbError TaskReply)} (hne : v ≠ []) (hv : v.length ≤ maxFileLen)
    (hopen : Opens v e) (hrun : Machine.Run Performing (e, .ofImage v) tr x)
    (hops : tr.length < 2 ^ 63) :
    (Machine.Run PerformingExactly (e, .ofImage v) tr x ∧ LenExact x.1) ↔
      e.index.dead ⊆ e.index.offsets.keys ∧
        e.index.nextDocId.toNat + handedOut tr < 2 ^ 64 ∧
        e.header.generation.toNat + published false tr < 2 ^ 64 := by
  have hacc := (opens_iff_accepted hne hv).mp hopen
  have hsize := hacc.encodedLen_le
  have hlimit := maxRecordLen_toNat
  rw [MasterIndex.encodedLen] at hsize
  have hruns : e.index.dead ⊆ e.index.offsets.keys →
      ((Machine.Run PerformingExactly (e, .ofImage v) tr x ∧ LenExact x.1) ↔
        e.index.nextDocId.toNat + handedOut tr < 2 ^ 64 ∧
          e.header.generation.toNat + published false tr < 2 ^ 64) := by
    intro hsub
    have hcard : e.index.offsets.keys.card + tr.length < 2 ^ 64 := by omega
    rw [← hacc.clean]
    exact (hacc.inBounds hv hsub).run_exact_iff hrun hcard
  constructor
  · rintro ⟨hexact, hend⟩
    have hlen : LenExact e := by
      cases hexact with
      | nil => exact hend
      | cons hstep => exact hstep.1
    have hsub := (lenExact_iff (by omega) (by omega)).mp hlen
    exact ⟨hsub, (hruns hsub).mp ⟨hexact, hend⟩⟩
  · rintro ⟨hsub, hcounters⟩
    exact (hruns hsub).mpr hcounters

end Runs

/-- A first document is appended to a new database. -/
theorem arithmetic_exact_iff_append :
    letI := emptyDocuments
    ∃ d, Machine.Run PerformingExactly (created, .ofImage newRegion)
      [(.op (.append .blob [7]), .ok (.reply (.id ⟨1⟩)))] (firstAppended, d) ∧
        LenExact firstAppended := by
  let _ := emptyDocuments
  obtain ⟨d, hd⟩ := append_exec (e := created) (d := .ofImage newRegion) .blob [7] (by decide)
    (by decide)
  have hstep : Performing (created, .ofImage newRegion) (.op (.append .blob [7]))
      (.ok (.reply (.id ⟨1⟩))) (firstAppended, d) := by
    rw [Performing, Task.prog, exec_bind, hd]
    rfl
  have hne : newRegion ≠ [] := live_newRegion.ne_nil
  refine ⟨d, (arithmetic_exact_iff hne ?_ ⟨_, open_newRegion⟩ (.cons hstep (.nil _))
    (by decide)).mpr ⟨Finset.empty_subset _, by decide, by decide⟩⟩
  rw [length_newRegion]
  decide

/-! ### A deleted document that is none -/

/-- An index in which a document is deleted that is not there. -/
def phantomIndex : MasterIndex := ⟨∅, {⟨1⟩}, 2⟩

/-- Its bytes: no entries, one deleted document, and the next id. -/
def phantomPayload : Bytes := putU64 0 ++ (putU64 1 ++ putU64 1) ++ putU64 2

/-- The header of a file that holds nothing else. -/
def phantomHeader : Header := ⟨1, 128, 32, 169⟩

/-- The file. -/
def phantomFile : Bytes := regionWith phantomHeader ++ Record.bytes ⟨.masterIndex, phantomPayload⟩

/-- The handle it opens to. -/
def phantomHandle : StorageEngine where
  header := phantomHeader
  slots := ![some phantomHeader, none]
  liveSlot := 0
  index := phantomIndex
  endOffset := 169
  dirty := false

theorem length_phantomFile : phantomFile.length = 169 := by
  rw [phantomFile, List.length_append, length_regionWith, Record.length_bytes]
  rfl

theorem accepted_phantom : Accepted phantomFile phantomHandle where
  length_le := by rw [length_phantomFile]; decide
  slots := (decodedSlots_regionWith _ _).symm
  selected := by
    rw [phantomFile, decodedSlots_regionWith]
    rfl
  logEnd_le := by rw [length_phantomFile]; decide
  index_default h0 := absurd h0 (by decide)
  index_master _ := by
    refine ⟨phantomPayload, by decide, ?_, rfl⟩
    have h : Holds phantomFile 0 phantomFile := fun i b hb => by rwa [Nat.zero_add]
    have h2 := (holds_append_iff.mp h).2
    rwa [length_regionWith] at h2
  endOffset := rfl
  clean := rfl

/-- **Counting may underflow on a file that opens**: none of no documents are left
when one has been deleted. -/
theorem len_underflows :
    letI := emptyDocuments
    ∃ v e r x a, v ≠ [] ∧ v.length ≤ maxFileLen ∧ Opens v e ∧
      Machine.Run Performing (e, .ofImage v) [(.op .len, r)] x ∧
      Computes e v (.op .len) a ∧ ¬a.Exact := by
  let _ := emptyDocuments
  have hlen := length_phantomFile
  have hne : phantomFile ≠ [] := List.ne_nil_of_length_pos (by omega)
  have hv : phantomFile.length ≤ maxFileLen := by
    rw [hlen]
    decide
  have hstep : Performing (phantomHandle, .ofImage phantomFile) (.op .len)
      (.ok (.reply (.count phantomHandle.len))) (phantomHandle, .ofImage phantomFile) := rfl
  exact ⟨phantomFile, phantomHandle, _, _, _, hne, hv, (opens_iff_accepted hne hv).mpr
    accepted_phantom, .cons hstep (.nil _), .liveCount rfl, by decide⟩

end ContextDb
