import ContextDb.Sequential
import ContextDb.Storage.Accepting

/-!
# Requests to any handle

What a request does when nothing fails, to a handle and a file of which next to
nothing is known: the file may have been written by another program, its log may
end anywhere, and the index may point anywhere. `ContextDb.Executes` lists what
may happen, and `ContextDb.executes_of_exec` says that nothing else does. A task
does what its request does, or nothing (`ContextDb.performing_cases`).

The one thing to know is where the end of the log lies: no file is longer than
`FileProg.maxFileLen`, so the end of the log of a file that opens is at most that.
-/

namespace ContextDb

open ByteFile FileProg Prog StorageEngine

/-- A disk once a record has been written at `n`. -/
def withRecord (d : Disk) (n : ℕ) (r : Record) : Disk :=
  (d.write n (encodeFrame r.kind r.payload)).write (n + 9) r.payload

/-- **A record fits** behind the end of the log. -/
def RecordFits (e : StorageEngine) (r : Record) : Prop :=
  e.endOffset.toNat + (9 + r.payload.length) ≤ maxFileLen

/-- The record a request appends as a document. -/
def Op.document [Bson] : Op → Option Record
  | .append kind payload => some ⟨kind, payload⟩
  | .insert doc => (toBsonBytes doc).toOption.map (⟨.blob, ·⟩)
  | _ => none

/-- Whether a request only looks. -/
def Op.reads : Op → Bool
  | .readRecord _ | .len | .liveIds => true
  | _ => false

/-- The record a request writes, if it is not refused. -/
def Op.written [Bson] (e : StorageEngine) : Op → Option Record
  | .tombstone id =>
    if id ∉ e.index.dead ∧ id ∈ e.index.offsets then some (Entry.tomb id).record else none
  | .commit order =>
    if e.dirty = true ∧ (commitRecord e order).payload.length ≤ maxRecordLen.toNat then
      some (commitRecord e order)
    else none
  | op => op.document.filter fun r => r.payload.length ≤ maxRecordLen.toNat

/-- The record a task writes, if it is not refused. -/
def Task.written [Bson] (e : StorageEngine) : Task → Option Record
  | .op request => request.written e
  | _ => none

/-- A document that is within the limit is written. -/
theorem Op.written_of_document [Bson] {e : StorageEngine} {op : Op} {r : Record}
    (hop : op.document = some r) (hlen : r.payload.length ≤ maxRecordLen.toNat) :
    op.written e = some r := by
  have hfilter : op.document.filter (fun r => r.payload.length ≤ maxRecordLen.toNat) = some r := by
    rw [hop, Option.filter_some, if_pos (by simpa using hlen)]
  cases op with
  | tombstone id | commit order => cases hop
  | _ => exact hfilter

/-- A document over the limit is not. -/
theorem Op.written_of_tooLarge [Bson] {e : StorageEngine} {op : Op} {r : Record}
    (hop : op.document = some r) (hlen : maxRecordLen.toNat < r.payload.length) :
    op.written e = none := by
  have hfilter : op.document.filter (fun r => r.payload.length ≤ maxRecordLen.toNat) = none := by
    rw [hop, Option.filter_some, if_neg (by simpa using hlen)]
  cases op with
  | tombstone id | commit order => cases hop
  | _ => exact hfilter

/-- The disk a commit leaves. -/
def committedDisk (e : StorageEngine) (d : Disk) (order : IterOrder) : Disk :=
  ((withRecord d.sync e.endOffset.toNat (commitRecord e order)).sync.write (64 * commitSlot e)
    (commitHeaderOf e order).encode).sync

section Executes

variable [Bson] (e : StorageEngine) (d : Disk)

/-- **What a request does when nothing fails**: the reply, the handle and the disk
it leaves. -/
inductive Executes : Op → Except CndbError Reply → StorageEngine → Disk → Prop
  /-- A document has been appended. -/
  | documented {op : Op} {r : Record} (hop : op.document = some r)
      (hlen : r.payload.length ≤ maxRecordLen.toNat) (hfit : RecordFits e r) :
      Executes op (.ok (.id e.index.allocateId.1))
        ((e.appended r.payload.length).inserted e.endOffset) (withRecord d e.endOffset.toNat r)
  /-- A document has been deleted. -/
  | buried {id : DocId} (hd : id ∉ e.index.dead) (hid : id ∈ e.index.offsets)
      (hfit : RecordFits e (Entry.tomb id).record) :
      Executes (.tombstone id) (.ok .done) ((e.appended 8).buried id)
        (withRecord d e.endOffset.toNat (Entry.tomb id).record)
  /-- There was nothing to commit. -/
  | clean {order : IterOrder} (hd : e.dirty = false) : Executes (.commit order) (.ok .done) e d
  /-- A commit has gone through. -/
  | committed {order : IterOrder} (hd : e.dirty = true)
      (hlen : e.index.encodedLen ≤ maxRecordLen.toNat)
      (hfit : RecordFits e (commitRecord e order)) :
      Executes (.commit order) (.ok .done)
        ((commitAppended e order).published (commitHeaderOf e order)) (committedDisk e d order)
  /-- The request was refused, before it wrote anything. -/
  | refused {op : Op} {err : CndbError} {d' : Disk} (hop : op.written e = none)
      (hd : d'.volatile = d.volatile) : Executes op (.error err) e d'
  /-- The request only looked. -/
  | read {op : Op} {r : Except CndbError Reply} (hop : op.reads = true) : Executes op r e d

end Executes

section Exec

variable {e e' : StorageEngine} {d d' : Disk}

/-- **Appending a record**, when nothing fails: it is over the limit, or it is
written at the end of the log. -/
theorem appendRaw_exec_cases {r : Record} {x : Except CndbError UInt64}
    (hhi : e.endOffset.toNat ≤ maxFileLen)
    (h : ((appendRaw r.kind r.payload).run.run e).exec d = some ((x, e'), d')) :
    (maxRecordLen.toNat < r.payload.length ∧ x = .error (.recordTooLarge e.endOffset
        (UInt64.ofNat r.payload.length) maxRecordLen) ∧ e' = e ∧ d' = d) ∨
      (r.payload.length ≤ maxRecordLen.toNat ∧ RecordFits e r ∧ x = .ok e.endOffset ∧
        e' = e.appended r.payload.length ∧ d' = withRecord d e.endOffset.toNat r) := by
  rw [appendRaw_run, add_recordHeaderSize_toNat hhi] at h
  by_cases hlen : maxRecordLen.toNat < r.payload.length
  · rw [if_pos hlen] at h
    cases h
    exact Or.inl ⟨hlen, rfl, rfl, rfl⟩
  rw [if_neg hlen, exec] at h
  by_cases hframe : Fits e.endOffset.toNat (encodeFrame r.kind r.payload)
  · rw [if_pos hframe, exec] at h
    by_cases hpayload : Fits (e.endOffset.toNat + 9) r.payload
    · rw [if_pos hpayload] at h
      cases h
      refine Or.inr ⟨Nat.le_of_not_lt hlen, ?_, rfl, rfl, rfl⟩
      rcases hpayload with hnil | hpayload
      · -- an empty payload fits anywhere, but its frame is never empty
        rcases hframe with hempty | hframe
        · have hl := length_encodeFrame r.kind r.payload
          rw [hempty] at hl
          cases hl
        · rw [length_encodeFrame] at hframe
          rw [RecordFits, hnil]
          exact hframe
      · rw [RecordFits]
        omega
    · rw [if_neg hpayload] at h
      cases h
  · rw [if_neg hframe] at h
    cases h

variable [Bson] {op : Op} {y : Except CndbError Reply}

/-- An append, when nothing fails. -/
theorem append_executes {kind : RecordKind} {payload : Bytes}
    (hop : op.document = some ⟨kind, payload⟩) (hhi : e.endOffset.toNat ≤ maxFileLen)
    (h : ((Op.append kind payload).prog e).exec d = some ((y, e'), d')) :
    Executes e d op y e' d' := by
  rw [Op.prog, EngineM.reply, append_run, exec_bind, exec_bind] at h
  cases hraw : ((appendRaw kind payload).run.run e).exec d with
  | none =>
    rw [hraw] at h
    cases h
  | some z =>
    obtain ⟨⟨x, e₁⟩, d₁⟩ := z
    rw [hraw] at h
    rcases appendRaw_exec_cases (r := ⟨kind, payload⟩) hhi hraw with
      ⟨hlen, rfl, rfl, rfl⟩ | ⟨hlen, hfit, rfl, rfl, rfl⟩
    · cases h
      exact .refused (Op.written_of_tooLarge hop hlen) rfl
    · cases h
      exact .documented hop hlen hfit

/-- A deletion, when nothing fails. -/
theorem tombstone_executes {id : DocId} (hhi : e.endOffset.toNat ≤ maxFileLen)
    (h : ((Op.tombstone id).prog e).exec d = some ((y, e'), d')) :
    Executes e d (.tombstone id) y e' d' := by
  rw [Op.prog, EngineM.reply, tombstone_run] at h
  by_cases hd : id ∈ e.index.dead
  · rw [if_pos hd] at h
    cases h
    exact .refused (if_neg fun hw => hw.1 hd) rfl
  rw [if_neg hd] at h
  by_cases hid : id ∉ e.index.offsets
  · rw [if_pos hid] at h
    cases h
    exact .refused (if_neg fun hw => hid hw.2) rfl
  rw [if_neg hid, exec_bind, exec_bind] at h
  cases hraw : ((appendRaw .tombstone (Bincode.putU64 id.raw)).run.run e).exec d with
  | none =>
    rw [hraw] at h
    cases h
  | some z =>
    obtain ⟨⟨x, e₁⟩, d₁⟩ := z
    rw [hraw] at h
    rcases appendRaw_exec_cases (r := (Entry.tomb id).record) hhi hraw with
      ⟨hlen, rfl, rfl, rfl⟩ | ⟨-, hfit, rfl, rfl, rfl⟩
    · have hlen8 : (Entry.tomb id).record.payload.length = 8 := Bincode.length_putU64 _
      rw [hlen8] at hlen
      exact absurd hlen (by decide)
    · cases h
      exact .buried hd (not_not.mp hid) hfit

/-- A commit, when nothing fails. -/
theorem commit_executes {order : IterOrder} (hhi : e.endOffset.toNat ≤ maxFileLen)
    (h : ((Op.commit order).prog e).exec d = some ((y, e'), d')) :
    Executes e d (.commit order) y e' d' := by
  rw [Op.prog, EngineM.reply] at h
  cases hd : e.dirty with
  | false =>
    rw [commit_run, hd] at h
    cases h
    exact .clean hd
  | true =>
    rw [exec_bind, commit_run_exec_eq order hd] at h
    cases hraw : ((appendRaw .masterIndex (commitPayload e order)).run.run e).exec d.sync with
    | none =>
      rw [hraw] at h
      cases h
    | some z =>
      obtain ⟨⟨x, e₁⟩, d₁⟩ := z
      rw [hraw] at h
      rcases appendRaw_exec_cases (r := commitRecord e order) hhi hraw with
        ⟨hlen, rfl, rfl, rfl⟩ | ⟨hlen, hfit, rfl, rfl, rfl⟩
      · cases h
        exact .refused (if_neg fun hw => Nat.not_le_of_lt hlen hw.2) (Disk.volatile_sync d)
      · -- the header is a slot's length, so it always fits
        have hcommit := commitHeader_exec
          (withRecord d.sync e.endOffset.toNat (commitRecord e order))
          (commitPayload e order) e.endOffset (commitAppended e order)
        have hlen' : e.index.encodedLen ≤ maxRecordLen.toNat := by
          rwa [← MasterIndex.length_serialize order]
        rw [Option.bind_some] at h
        change Option.bind ((commitHeader (commitPayload e order) e.endOffset
          (commitAppended e order)).exec _) _ = _ at h
        rw [hcommit] at h
        cases h
        exact .committed hd hlen' hfit

/-- **Nothing else happens.** -/
theorem executes_of_exec (hhi : e.endOffset.toNat ≤ maxFileLen)
    (h : (op.prog e).exec d = some ((y, e'), d')) : Executes e d op y e' d' := by
  cases op with
  | append kind payload => exact append_executes rfl hhi h
  | insert doc =>
    cases hdoc : toBsonBytes doc with
    | ok bytes =>
      rw [insert_prog e hdoc] at h
      refine append_executes ?_ hhi h
      rw [Op.document, hdoc]
      rfl
    | error err =>
      rw [Op.prog, EngineM.reply, Cndb.insert_run, hdoc] at h
      cases h
      have hnone : (Op.insert doc).document = none := by
        rw [Op.document, hdoc]
        rfl
      exact .refused (congrArg (Option.filter _) hnone) rfl
  | tombstone id => exact tombstone_executes hhi h
  | commit order => exact commit_executes hhi h
  | readRecord id =>
    rw [Op.prog, FileM.reply, exec_bind, exec_of_reader (reader_readRecord e id) d] at h
    cases h
    exact .read rfl
  | len | liveIds =>
    cases h
    exact .read rfl

/-- **A record that is not refused is written**: it fits, and the request succeeds. -/
theorem Executes.of_written (h : Executes e d op y e' d') {r : Record}
    (hr : op.written e = some r) : RecordFits e r ∧ y.isOk = true := by
  cases h with
  | documented hop hlen hfit =>
    rw [Op.written_of_document hop hlen] at hr
    cases hr
    exact ⟨hfit, rfl⟩
  | buried hd hid hfit =>
    rw [Op.written, if_pos ⟨hd, hid⟩] at hr
    cases hr
    exact ⟨hfit, rfl⟩
  | clean hd =>
    rw [Op.written, if_neg fun hw => Bool.noConfusion (hd.symm.trans hw.1)] at hr
    cases hr
  | committed hd hlen hfit =>
    rw [← MasterIndex.length_serialize] at hlen
    rw [Op.written, if_pos ⟨hd, hlen⟩] at hr
    cases hr
    exact ⟨hfit, rfl⟩
  | refused hop =>
    rw [hop] at hr
    cases hr
  | read hop =>
    cases op with
    | readRecord | len | liveIds => cases hr
    | _ => cases hop

/-- **What a request other than a commit does to the disk**: nothing that a reader
sees, or it writes its record at the end of the log. -/
theorem Executes.stages (h : Executes e d op y e' d') (hop : op.isCommit = false) :
    (d'.volatile = d.volatile ∧ e'.endOffset = e.endOffset) ∨
      ∃ r, op.written e = some r ∧ RecordFits e r ∧ d' = withRecord d e.endOffset.toNat r ∧
        e'.endOffset = (e.appended r.payload.length).endOffset := by
  cases h with
  | documented hdoc hlen hfit =>
    exact Or.inr ⟨_, Op.written_of_document hdoc hlen, hfit, rfl, rfl⟩
  | buried hd hid hfit => exact Or.inr ⟨_, if_pos ⟨hd, hid⟩, hfit, rfl, rfl⟩
  | clean | committed => cases hop
  | refused _ hd => exact Or.inl ⟨hd, rfl⟩
  | read => exact Or.inl ⟨rfl, rfl⟩

/-- The end of the log stays where a file can have it. -/
theorem Executes.endOffset_le (h : Executes e d op y e' d') (hhi : e.endOffset.toNat ≤ maxFileLen) :
    e'.endOffset.toNat ≤ maxFileLen := by
  cases h with
  | documented _ _ hfit | buried _ _ hfit | committed _ _ hfit =>
    exact (appended_endOffset hfit).trans_le hfit
  | clean | refused | read => exact hhi

end Exec

/-! ### Tasks -/

section Tasks

variable [Bson]

/-- **One task**, when nothing fails. -/
def Performing (x : StorageEngine × Disk) (q : Task) (r : Except CndbError TaskReply)
    (x' : StorageEngine × Disk) : Prop :=
  (q.prog x.1).exec x.2 = some ((r, x'.1), x'.2)

variable {x x' : StorageEngine × Disk} {q : Task} {r : Except CndbError TaskReply}

/-- A request that is made as a task. -/
theorem performing_op {op : Op} {y : Except CndbError Reply}
    (h : (op.prog x.1).exec x.2 = some ((y, x'.1), x'.2)) :
    Performing x (.op op) (y.map .reply) x' := by
  rw [Performing, Task.prog, exec_bind, h]
  rfl

/-- Verifying a settled session. -/
theorem performing_verify {l log : Log} (hs : Settled x.1 x.2.volatile l log) :
    Performing x .verify (.ok (.records l.length)) x := by
  rw [Performing, Task.prog, exec_bind, hs.verify_exec]
  rfl

/-- What a task does: what its request does, or nothing. -/
theorem performing_cases (h : Performing x q r x') :
    (∃ op y, q = .op op ∧ r = y.map .reply ∧ (op.prog x.1).exec x.2 = some ((y, x'.1), x'.2)) ∨
      ((∀ op, q ≠ .op op) ∧ x' = x) := by
  obtain ⟨e, d⟩ := x
  obtain ⟨e', d'⟩ := x'
  rw [Performing] at h
  cases q with
  | op op =>
    rw [Task.prog, exec_bind] at h
    obtain ⟨⟨⟨y, e₁⟩, d₁⟩, hop, h⟩ := Option.bind_eq_some_iff.mp h
    cases h
    exact Or.inl ⟨op, y, rfl, rfl, hop⟩
  | read id =>
    have hread : (e.read id).run.Reader := reader_bind (reader_readRecord e id) fun _ => trivial
    rw [Task.prog, exec_bind, exec_of_reader hread d] at h
    cases h
    exact Or.inr ⟨nofun, rfl⟩
  | verify =>
    rw [Task.prog, exec_bind, exec_of_reader (reader_verify e) d] at h
    cases h
    exact Or.inr ⟨nofun, rfl⟩
  | isEmpty | stats =>
    cases h
    exact Or.inr ⟨nofun, rfl⟩

omit [Bson] in
/-- Commits are requests. -/
theorem Task.commits_op (op : Op) : (Task.op op).commits = op.isCommit := by
  cases op <;> rfl

end Tasks

end ContextDb
