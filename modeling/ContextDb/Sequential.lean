import ContextDb.Lib.Machine
import ContextDb.Storage.Creation
import ContextDb.Storage.Requests

/-!
# Runs in which nothing fails

The engine as a machine that answers requests: an open handle and its file, a
request or a reopening, the reply, and what it leaves (`ContextDb.Performs`).
Nothing fails in these runs; a request whose write would end beyond the largest
file length has no run.

`ContextDb.Performs.settled` is the invariant: the session stays settled. And
runs exist: the requests that write go through whenever what they write fits
(`ContextDb.append_exec`, `ContextDb.commit_exec`), and reopening always does.
-/

namespace ContextDb

open ByteFile FileProg Prog StorageEngine

/-- A request to the engine, or dropping the handle and opening the file
again. -/
inductive Request where
  /-- A request to the open handle. -/
  | op (op : Op)
  /-- Dropping the handle and opening the file again. -/
  | reopen

section Machine

variable [Bson]

/-- **One request to the engine**, when nothing fails. -/
inductive Performs : StorageEngine × Disk → Request → Except CndbError Reply →
    StorageEngine × Disk → Prop
  /-- A request to the open handle. -/
  | op {e e' : StorageEngine} {d d' : Disk} {op : Op} {r : Except CndbError Reply}
      (h : (op.prog e).exec d = some ((r, e'), d')) : Performs (e, d) (.op op) r (e', d')
  /-- Dropping the handle and opening the file again. -/
  | reopen {e e' : StorageEngine} {d d' : Disk}
      (h : openFile.run.exec d = some (.ok e', d')) : Performs (e, d) .reopen (.ok .done) (e', d')

end Machine

/-- A handle just created, with its file. -/
def newStore : StorageEngine × Disk := (created, .ofImage newRegion)

/-- The handle that a first document of one byte leaves. -/
def firstAppended : StorageEngine := (created.appended 1).inserted created.endOffset

/-- The handle that commits a first document of one byte. -/
noncomputable def firstCommitted : StorageEngine :=
  (commitAppended firstAppended .listed).published (commitHeaderOf firstAppended .listed)

/-- Its log ends behind the document and a master record of forty bytes. -/
theorem firstCommitted_logEnd : firstCommitted.header.logEnd = 187 := by
  have hpl : (commitPayload firstAppended .listed).length = 40 :=
    MasterIndex.length_serialize .listed firstAppended.index
  have hend : firstCommitted.header.logEnd =
      (firstAppended.appended (commitPayload firstAppended .listed).length).endOffset := rfl
  rw [hend, hpl]
  decide

/-! ### Settled sessions stay settled -/

/-- The state of the engine in a settled session. -/
def SettledState (x : StorageEngine × Disk) : Prop := ∃ l log, Settled x.1 x.2.volatile l log

theorem settled_created : Settled created newRegion [] [] := by
  rw [created_eq]
  exact Settled.of_live live_newRegion

theorem settledState_newStore : SettledState newStore := ⟨[], [], settled_created⟩

theorem steady_never : Steady .never := ⟨id, fun _ _ _ _ _ _ h => h⟩

section Settled

variable [Bson] {e e' : StorageEngine} {d d' : Disk} {l log : Log} {op : Op}
  {r : Except CndbError Reply}

/-- **A request but a commit**, when nothing fails. -/
theorem Settled.serve_exec (hs : Settled e d.volatile l log) (hop : op.isCommit = false)
    (hr : (op.prog e).exec d = some ((r, e'), d')) :
    ∃ log', Serves .never e log op r e' log' ∧ Settled e' d'.volatile l log' := by
  obtain ⟨tr, hruns⟩ := runs_of_exec hr
  exact (hs.serve hop hruns).2

/-- **A commit**, when nothing fails: there was nothing to commit, or the index
does not fit in a record, or the commit goes through. -/
theorem Settled.commit_exec_cases (hs : Settled e d.volatile l log) {order : IterOrder}
    (hr : ((Op.commit order).prog e).exec d = some ((r, e'), d')) :
    (e.dirty = false ∧ r = .ok .done ∧ e' = e ∧ d' = d) ∨
    (e.dirty = true ∧ maxRecordLen.toNat < e.index.encodedLen ∧
      r = .error (.recordTooLarge e.endOffset (UInt64.ofNat e.index.encodedLen) maxRecordLen) ∧
      e' = e ∧ Disk.Grows (tail log) d d') ∨
    (e.dirty = true ∧ e.index.encodedLen ≤ maxRecordLen.toNat ∧ r = .ok .done ∧
      e' = (commitAppended e order).published (commitHeaderOf e order) ∧
      ∃ tr₁ d₁, Prepared e order d tr₁ d₁ ∧
        d' = (d₁.write (64 * commitSlot e) (commitHeaderOf e order).encode).sync) := by
  have hlen : (commitPayload e order).length = e.index.encodedLen :=
    MasterIndex.length_serialize order e.index
  obtain ⟨tr, hruns⟩ := runs_of_exec hr
  obtain ⟨y, hc, hy⟩ := (commit_serve_safe (F := .never) hs.handle order).runs hruns
  cases hc with
  | clean hd => exact Or.inl ⟨hd, hy, rfl, rfl⟩
  | refused hd hg hmax =>
    rw [hs.handle.endOffset] at hg
    rw [hlen] at hmax hy
    exact Or.inr (Or.inl ⟨hd, hmax, hy, rfl, hg.2⟩)
  | early _ _ hf => exact (Faults.not_canFail_never hf).elim
  | orphaned _ _ hf => exact hf.elim
  | torn _ _ _ hcut => exact (hcut.elim And.right id).elim
  | done hd hp =>
    have hle := hp.length_le
    rw [hlen] at hle
    exact Or.inr (Or.inr ⟨hd, hle, hy, rfl, _, _, hp, rfl⟩)

omit [Bson] in
/-- **`verify` counts** the entries that are committed. -/
theorem Settled.verify_exec (hs : Settled e d.volatile l log) :
    e.verify.run.exec d = some (.ok l.length, d) :=
  (verify_returns hs.handle.committed_valid hs.handle.describes.logEnd_toNat).exec_eq
    (holds_logBytes_of_isPrefix hs.backed.holds hs.handle.committed)

/-- **Requests keep sessions settled.** -/
theorem Performs.settled {x x' : StorageEngine × Disk} {q : Request} (hx : SettledState x)
    (hp : Performs x q r x') : SettledState x' := by
  obtain ⟨l, log, hs⟩ := hx
  cases hp with
  | @op e e' d d' op r h =>
    cases hop : op.isCommit with
    | false =>
      obtain ⟨log', -, hs'⟩ := hs.serve_exec hop h
      exact ⟨l, log', hs'⟩
    | true =>
      obtain ⟨order, rfl⟩ := Op.eq_commit hop
      rcases hs.commit_exec_cases h with ⟨-, -, rfl, rfl⟩ | ⟨-, -, -, rfl, hg⟩ |
        ⟨-, -, -, rfl, tr₁, d₁, hp, rfl⟩
      · exact ⟨l, log, hs⟩
      · exact ⟨l, log, hs.grow hg⟩
      · exact ⟨_, _, hs.publish hp⟩
  | reopen h =>
    have hopen := h
    rw [hs.reopen_exec] at hopen
    cases hopen
    exact ⟨l, l, Settled.of_live hs.live⟩

/-- **The engine as a machine.** -/
abbrev EngineRun (x : StorageEngine × Disk) (tr : List (Request × Except CndbError Reply))
    (x' : StorageEngine × Disk) : Prop :=
  Machine.Run Performs x tr x'

/-- **Whatever a run leads to is settled.** -/
theorem EngineRun.settled {tr : List (Request × Except CndbError Reply)}
    {x : StorageEngine × Disk} (h : EngineRun newStore tr x) : SettledState x :=
  Machine.Run.invariant (I := SettledState) (fun _ _ _ _ hx hp => hp.settled hx) h
    settledState_newStore

end Settled

/-! ### Runs exist -/

section Exec

variable {e : StorageEngine} {d : Disk}

/-- **Appending a record goes through** whenever the record is within the limit
and fits. -/
theorem appendRaw_exec (r : Record) (hlen : r.payload.length ≤ maxRecordLen.toNat)
    (hfit : e.endOffset.toNat + (9 + r.payload.length) ≤ maxFileLen) :
    ∃ d', ((appendRaw r.kind r.payload).run.run e).exec d =
      some ((.ok e.endOffset, e.appended r.payload.length), d') := by
  have hframe : Fits e.endOffset.toNat (encodeFrame r.kind r.payload) :=
    Or.inr (by rw [length_encodeFrame]; omega)
  have hpayload : Fits (e.endOffset + recordHeaderSize).toNat r.payload := by
    rw [add_recordHeaderSize_toNat (by omega)]
    exact Or.inr (by omega)
  rw [appendRaw_run, if_neg (by omega)]
  exact ⟨_, by rw [exec, if_pos hframe, exec, if_pos hpayload, exec]⟩

/-- **An append goes through.** -/
theorem append_exec [Bson] (kind : RecordKind) (payload : Bytes)
    (hlen : payload.length ≤ maxRecordLen.toNat)
    (hfit : e.endOffset.toNat + (9 + payload.length) ≤ maxFileLen) :
    ∃ d', ((Op.append kind payload).prog e).exec d = some ((.ok (.id e.index.allocateId.1),
      (e.appended payload.length).inserted e.endOffset), d') := by
  obtain ⟨d', h⟩ := appendRaw_exec (d := d) ⟨kind, payload⟩ hlen hfit
  refine ⟨d', ?_⟩
  rw [Op.prog, EngineM.reply, append_run, exec_bind, exec_bind, h]
  rfl

/-- **A deletion goes through.** -/
theorem tombstone_exec [Bson] {id : DocId} (hd : id ∉ e.index.dead) (hid : id ∈ e.index.offsets)
    (hfit : e.endOffset.toNat + (9 + 8) ≤ maxFileLen) :
    ∃ d', ((Op.tombstone id).prog e).exec d =
      some ((.ok .done, (e.appended 8).buried id), d') := by
  have hlen : (Entry.tomb id).record.payload.length = 8 := Bincode.length_putU64 _
  obtain ⟨d', h⟩ := appendRaw_exec (d := d) (Entry.tomb id).record (by rw [hlen]; decide)
    (by rw [hlen]; exact hfit)
  rw [hlen] at h
  refine ⟨d', ?_⟩
  rw [Op.prog, EngineM.reply, tombstone_run, if_neg hd, if_neg (not_not.mpr hid), exec_bind,
    exec_bind]
  change ((appendRaw .tombstone (Bincode.putU64 id.raw)).run.run e).exec d = _ at h
  rw [h]
  rfl

/-- A write to a header slot fits in a file. -/
theorem fits_slot {off : ℕ} {bs : Bytes} (hl : bs.length = 64) (ho : off + 64 ≤ 128) :
    Fits off bs := by
  refine Or.inr ?_
  have hmax : maxFileLen = 2 ^ 63 - 1 := rfl
  omega

/-- The last stage of a commit, when nothing fails. -/
theorem commitHeader_exec (d : Disk) (payload : Bytes) (masterPtr : UInt64)
    (self : StorageEngine) : (commitHeader payload masterPtr self).exec d =
      some ((.ok (), self.published (self.nextHeader masterPtr payload)),
        (d.sync.write (64 * victimSlot self.slots)
          (self.nextHeader masterPtr payload).encode).sync) := by
  have hslot : Fits (64 * victimSlot self.slots : ℕ)
      (self.nextHeader masterPtr payload).encode :=
    fits_slot (Header.length_encode _) (slot_le _)
  rw [commitHeader, exec, exec, Header.slotOffset_toNat, if_pos hslot]
  rfl

/-- The method that commits, when there is something to commit. -/
theorem commit_run_exec_eq (order : IterOrder) (hd : e.dirty = true) :
    ((commit order).run.run e).exec d =
      (((appendRaw .masterIndex (commitPayload e order)).run.run e).exec d.sync).bind fun z =>
        match z.1.1 with
        | .ok masterPtr => (commitHeader (commitPayload e order) masterPtr z.1.2).exec z.2
        | .error err => some ((.error err, z.1.2), z.2) := by
  rw [commit_run, if_pos hd, exec, exec_bind]
  refine congrArg (Option.bind _) (funext fun z => ?_)
  obtain ⟨⟨x, self⟩, d'⟩ := z
  cases x <;> rfl

/-- The method that commits, when the index fits in a record and the file has
room for it. -/
theorem commit_run_exec (order : IterOrder) (hd : e.dirty = true)
    (hlen : e.index.encodedLen ≤ maxRecordLen.toNat)
    (hfit : e.endOffset.toNat + (9 + e.index.encodedLen) ≤ maxFileLen) :
    ∃ d', ((commit order).run.run e).exec d =
      some ((.ok (), (commitAppended e order).published (commitHeaderOf e order)), d') := by
  have hpl : (commitPayload e order).length = e.index.encodedLen :=
    MasterIndex.length_serialize order e.index
  obtain ⟨d₁, h⟩ := appendRaw_exec (d := d.sync) (commitRecord e order)
    (by rw [commitRecord, hpl]; exact hlen) (by rw [commitRecord, hpl]; exact hfit)
  have hraw : ((appendRaw .masterIndex (commitPayload e order)).run.run e).exec d.sync =
    some ((.ok e.endOffset, commitAppended e order), d₁) := h
  have hheader := commitHeader_exec d₁ (commitPayload e order) e.endOffset (commitAppended e order)
  rw [commit_run_exec_eq order hd, hraw, Option.bind_some]
  exact ⟨_, hheader⟩

/-- **A commit goes through** whenever the index fits in a record and the file
has room for it. -/
theorem commit_exec [Bson] (order : IterOrder) (hd : e.dirty = true)
    (hlen : e.index.encodedLen ≤ maxRecordLen.toNat)
    (hfit : e.endOffset.toNat + (9 + e.index.encodedLen) ≤ maxFileLen) :
    ∃ d', ((Op.commit order).prog e).exec d =
      some ((.ok .done, (commitAppended e order).published (commitHeaderOf e order)), d') := by
  obtain ⟨d', hexec⟩ := commit_run_exec (d := d) order hd hlen hfit
  refine ⟨d', ?_⟩
  rw [Op.prog, EngineM.reply, exec_bind, hexec]
  rfl

/-- **And it publishes the log** of the session. -/
theorem Settled.commit_goes_through [Bson] {l log : Log} (hs : Settled e d.volatile l log)
    (order : IterOrder) (hd : e.dirty = true) (hlen : e.index.encodedLen ≤ maxRecordLen.toNat)
    (hfit : e.endOffset.toNat + (9 + e.index.encodedLen) ≤ maxFileLen) :
    ∃ d', ((Op.commit order).prog e).exec d =
        some ((.ok .done, (commitAppended e order).published (commitHeaderOf e order)), d') ∧
      Settled ((commitAppended e order).published (commitHeaderOf e order)) d'.volatile
        (commitLog e order log) (commitLog e order log) := by
  obtain ⟨d', h⟩ := commit_exec (d := d) order hd hlen hfit
  refine ⟨d', h, ?_⟩
  rcases hs.commit_exec_cases h with ⟨hclean, -⟩ | ⟨-, -, hr, -⟩ | ⟨-, -, -, -, tr, d₁, hp, rfl⟩
  · rw [hd] at hclean
    cases hclean
  · cases hr
  · exact hs.publish hp

/-- **A commit comes to write its header** whenever the index fits in a record and
the file has room for it. The master record is durable then, and the flush behind
the header decides how the commit ends. -/
theorem commit_header_steps [Bson] {F : Faults} (d : Disk) (order : IterOrder)
    (hd : e.dirty = true) (hlo : 128 ≤ e.endOffset.toNat)
    (hlen : e.index.encodedLen ≤ maxRecordLen.toNat)
    (hfit : e.endOffset.toNat + (9 + e.index.encodedLen) ≤ maxFileLen) :
    ∃ tr d₁ k, Prepared e order d tr d₁ ∧
      Steps F ((Op.commit order).prog e) d tr
        (.write (64 * commitSlot e) (commitHeaderOf e order).encode k) d₁ ∧
      k true = .sync fun
        | true => .ret (.ok .done, (commitAppended e order).published (commitHeaderOf e order))
        | false => .ret (.error (.io .fault), commitAppended e order) := by
  have hpl : (commitPayload e order).length = e.index.encodedLen :=
    MasterIndex.length_serialize order e.index
  obtain ⟨d₁, hexec⟩ := appendRaw_exec (d := d.sync) (commitRecord e order)
    (by rw [commitRecord, hpl]; exact hlen) (by rw [commitRecord, hpl]; exact hfit)
  obtain ⟨tr, happ⟩ := runs_of_exec (F := F) hexec
  obtain ⟨hg, hx⟩ := (appendRaw_safe F (commitRecord e order) d.sync hlo (by omega)).steps happ
  rw [List.nil_append] at hg
  cases hx with
  | done hlen' hfit' hend hh =>
    have hprep : Prepared e order d tr d₁.sync :=
      ⟨((LogGrows.refl _ d).sync.trans hg le_rfl).sync, rfl, hlen', hfit', hh⟩
    have hslot : (Header.slotOffset (victimSlot (commitAppended e order).slots)).toNat =
        64 * (commitSlot e : ℕ) := Header.slotOffset_toNat _
    -- the first flush of the last stage, up to the header
    obtain ⟨k, hheader, hk⟩ : ∃ k, Steps F (commitHeader (commitPayload e order) e.endOffset
        (commitAppended e order)) d₁ [] (.write (64 * commitSlot e)
          (commitHeaderOf e order).encode k) d₁.sync ∧
        k true = .sync fun
          | true => .ret (.ok (), (commitAppended e order).published (commitHeaderOf e order))
          | false => .ret (.error (.io .fault), commitAppended e order) := by
      rw [commitHeader, hslot]
      exact ⟨_, Step.steps (.sync _ _), rfl⟩
    refine ⟨tr, d₁.sync, fun b => (k b).bind fun r => .ret (r.1.map fun _ => .done, r.2), hprep, ?_,
      ?_⟩
    · rw [Op.prog, EngineM.reply, commit_run, if_pos hd, ← List.append_nil tr,
        ← List.nil_append (tr ++ [])]
      exact .head ((Step.sync _ _).bind _) (((happ.bind _).bind _).trans (hheader.bind _))
    · simp only [hk]
      refine congrArg Prog.sync (funext fun b => ?_)
      cases b <;> rfl

/-- **And it writes it**: what is left to do is the last flush. -/
theorem commit_written_steps [Bson] {F : Faults} (d : Disk) (order : IterOrder)
    (hd : e.dirty = true) (hlo : 128 ≤ e.endOffset.toNat)
    (hlen : e.index.encodedLen ≤ maxRecordLen.toNat)
    (hfit : e.endOffset.toNat + (9 + e.index.encodedLen) ≤ maxFileLen) :
    ∃ tr d₁, Prepared e order d tr d₁ ∧
      Steps F ((Op.commit order).prog e) d
        (tr ++ [⟨64 * commitSlot e, (commitHeaderOf e order).encode, 64⟩])
        (.sync fun
          | true => .ret (.ok .done, (commitAppended e order).published (commitHeaderOf e order))
          | false => .ret (.error (.io .fault), commitAppended e order))
        (d₁.write (64 * commitSlot e) (commitHeaderOf e order).encode) := by
  obtain ⟨tr, d₁, k, hprep, hsteps, hk⟩ :=
    commit_header_steps (F := F) d order hd hlo hlen hfit
  refine ⟨tr, d₁, hprep, hsteps.trans ?_⟩
  rw [← hk]
  exact Step.steps (.write k d₁ (fits_slot (Header.length_encode _) (slot_le _)))

end Exec

/-! ### A first document -/

/-- The log of a first document of one byte, committed. -/
noncomputable def firstLog : Log :=
  [.doc ⟨.blob, [7]⟩, .master (commitPayload firstAppended .listed)]

/-- **A first document is stored and committed**, whatever lies behind an empty log. -/
theorem first_document [Bson] {d : Disk} (hs : Settled created d.volatile [] []) : ∃ d₁ d₂,
    ((Op.append .blob [7]).prog created).exec d = some ((.ok (.id ⟨1⟩), firstAppended), d₁) ∧
    ((Op.commit .listed).prog firstAppended).exec d₁ = some ((.ok .done, firstCommitted), d₂) ∧
    Settled firstAppended d₁.volatile [] [.doc ⟨.blob, [7]⟩] ∧
    Settled firstCommitted d₂.volatile firstLog firstLog := by
  obtain ⟨d₁, h₁⟩ := append_exec (e := created) (d := d) .blob [7] (by decide) (by decide)
  obtain ⟨log, hserves, hs₁⟩ := hs.serve_exec rfl h₁
  cases hserves
  obtain ⟨d₂, h₂, hs₂⟩ := Settled.commit_goes_through (e := firstAppended) hs₁ .listed rfl
    (by decide) (by decide)
  exact ⟨d₁, d₂, h₁, h₂, hs₁, hs₂⟩

/-! ### A small database -/

/-- The handle that a second document of one byte leaves. -/
def secondAppended : StorageEngine := (firstAppended.appended 1).inserted firstAppended.endOffset

/-- The handle that the deletion of the first document leaves then. -/
def firstBuried : StorageEngine := (secondAppended.appended 8).buried ⟨1⟩

/-- Its log: two documents, of which the first is deleted. -/
def smallLog : Log := [.doc ⟨.blob, [7]⟩, .doc ⟨.blob, [8]⟩, .tomb ⟨1⟩]

/-- The handle that commits it. -/
noncomputable def smallCommitted : StorageEngine :=
  (commitAppended firstBuried .listed).published (commitHeaderOf firstBuried .listed)

/-- The log that is committed. -/
noncomputable def smallCommittedLog : Log := commitLog firstBuried .listed smallLog

section Small

variable [Bson]

/-- **A first session**: two documents are stored, and the first is deleted. -/
theorem small_run : ∃ d, EngineRun newStore [(.op (.append .blob [7]), .ok (.id ⟨1⟩)),
      (.op (.append .blob [8]), .ok (.id ⟨2⟩)), (.op (.tombstone ⟨1⟩), .ok .done)]
      (firstBuried, d) ∧ Settled firstBuried d.volatile [] smallLog ∧
    d.volatile.length ≤ 165 := by
  obtain ⟨d₁, h₁⟩ := append_exec (e := created) (d := newStore.2) .blob [7] (by decide) (by decide)
  obtain ⟨d₂, h₂⟩ := append_exec (e := firstAppended) (d := d₁) .blob [8] (by decide) (by decide)
  have hlive : (⟨1⟩ : DocId) ∉ secondAppended.index.dead := by decide
  obtain ⟨d₃, h₃⟩ := tombstone_exec (d := d₂) hlive (by decide) (by decide)
  obtain ⟨log₁, hsv₁, hs₁⟩ := Settled.serve_exec (d := newStore.2) settled_created rfl h₁
  obtain ⟨log₂, hsv₂, hs₂⟩ := hs₁.serve_exec rfl h₂
  obtain ⟨log₃, hsv₃, hs₃⟩ := hs₂.serve_exec rfl h₃
  cases hsv₁
  cases hsv₂
  cases hsv₃
  obtain ⟨tr₁, hr₁⟩ := runs_of_exec (F := .never) h₁
  obtain ⟨tr₂, hr₂⟩ := runs_of_exec (F := .never) h₂
  obtain ⟨tr₃, hr₃⟩ := runs_of_exec (F := .never) h₃
  have hlen : newStore.2.volatile.length ≤ 165 := by
    rw [newStore, Disk.volatile_ofImage, length_newRegion]
    decide
  have hlen₁ := ((append_within (by decide) fun _ => by decide).steps hlen hr₁).2
  have hlen₂ := ((append_within (by decide) fun _ => by decide).steps hlen₁ hr₂).2
  have hlen₃ := ((tombstone_within (by decide) (by decide)).steps hlen₂ hr₃).2
  exact ⟨d₃, .cons (.op h₁) (.cons (.op h₂) (.cons (.op h₃) (.nil _))), hs₃, hlen₃⟩

/-- **Its commit goes through.** -/
theorem small_commit {d : Disk} (hs : Settled firstBuried d.volatile [] smallLog)
    (hlen : d.volatile.length ≤ 165) :
    ∃ d', ((Op.commit .listed).prog firstBuried).exec d = some ((.ok .done, smallCommitted), d') ∧
      Settled smallCommitted d'.volatile smallCommittedLog smallCommittedLog ∧
      d'.volatile.length ≤ 238 := by
  obtain ⟨d', h, hs'⟩ := hs.commit_goes_through .listed rfl (by decide) (by decide)
  obtain ⟨tr, hr⟩ := runs_of_exec (F := .never) h
  have hle : d.volatile.length ≤ 238 := hlen.trans (by decide)
  exact ⟨d', h, hs',
    ((commit_within (by decide) (by decide) fun _ => by decide).steps hle hr).2⟩

omit [Bson] in
/-- Its second document may be read; its first is deleted, and there is no other. -/
theorem find_small : (tableOf smallLog).find ⟨1⟩ = .error (.deleted ⟨1⟩) ∧
    (tableOf smallLog).find ⟨2⟩ = .ok ⟨.blob, [8]⟩ ∧
    (tableOf smallLog).find ⟨3⟩ = .error (.notFound ⟨3⟩) :=
  ⟨rfl, rfl, rfl⟩

end Small

/-- A commit changes nothing about the documents. -/
theorem tableOf_smallCommittedLog : tableOf smallCommittedLog = tableOf smallLog :=
  tableOf_commitLog _ _ _

/-- The payload of its master record has sixty-four bytes. -/
theorem length_smallPayload : (commitPayload firstBuried .listed).length = 64 :=
  MasterIndex.length_serialize .listed firstBuried.index

/-- Its master record stands behind two documents and a tombstone, … -/
theorem smallCommitted_master : smallCommitted.header.masterPtr = 165 ∧
    smallCommitted.header.masterLen = 64 := by
  refine ⟨rfl, ?_⟩
  have hlen : smallCommitted.header.masterLen =
      UInt64.ofNat (commitPayload firstBuried .listed).length := rfl
  rw [hlen, length_smallPayload]
  rfl

/-- … and its log ends behind that. -/
theorem smallCommitted_logEnd : smallCommitted.header.logEnd = 238 := by
  have hend : smallCommitted.header.logEnd =
      (firstBuried.appended (commitPayload firstBuried .listed).length).endOffset := rfl
  rw [hend, length_smallPayload]
  decide

theorem smallCommitted_endOffset : smallCommitted.endOffset.toNat = 238 :=
  congrArg UInt64.toNat smallCommitted_logEnd

/-- **Opened again**, it shows the same. -/
theorem small_reopen {d : Disk}
    (hs : Settled smallCommitted d.volatile smallCommittedLog smallCommittedLog) :
    ∃ e, openFile.run.exec d = some (.ok e, d) ∧ e.index = firstBuried.index ∧
      e.header = smallCommitted.header ∧ e.endOffset = 238 ∧
      Settled e d.volatile smallCommittedLog smallCommittedLog :=
  ⟨_, hs.reopen_exec, hs.handle.index.symm, rfl, smallCommitted_logEnd, Settled.of_live hs.live⟩

/-- The handle that a third document of one byte leaves, behind the commit. -/
noncomputable def thirdAppended : StorageEngine :=
  (smallCommitted.appended 1).inserted smallCommitted.endOffset

theorem thirdAppended_endOffset : thirdAppended.endOffset.toNat = 248 := by
  have hfit : smallCommitted.endOffset.toNat + (9 + 1) ≤ maxFileLen := by
    rw [smallCommitted_endOffset]
    decide
  exact (appended_endOffset hfit).trans (by rw [smallCommitted_endOffset])

/-- **A third document may be appended** behind the committed log. -/
theorem third_append [Bson] {d : Disk}
    (hs : Settled smallCommitted d.volatile smallCommittedLog smallCommittedLog) :
    ∃ d', ((Op.append .blob [9]).prog smallCommitted).exec d =
        some ((.ok (.id ⟨3⟩), thirdAppended), d') ∧
      Settled thirdAppended d'.volatile smallCommittedLog
        (smallCommittedLog ++ [.doc ⟨.blob, [9]⟩]) := by
  obtain ⟨d', h⟩ := append_exec (e := smallCommitted) (d := d) .blob [9] (by decide)
    (by rw [smallCommitted_endOffset]; decide)
  obtain ⟨log, hserves, hs'⟩ := hs.serve_exec rfl h
  cases hserves
  exact ⟨d', h, hs'⟩

/-- The handle that commits it. -/
noncomputable def thirdCommitted : StorageEngine :=
  (commitAppended thirdAppended .listed).published (commitHeaderOf thirdAppended .listed)

/-- The log that is committed then. -/
noncomputable def thirdLog : Log :=
  commitLog thirdAppended .listed (smallCommittedLog ++ [.doc ⟨.blob, [9]⟩])

theorem smallCommittedLog_prefix : smallCommittedLog <+: thirdLog :=
  (List.prefix_append _ _).trans (prefix_commitLog _ _ _)

/-- **It may be committed as well.** -/
theorem third_commit [Bson] {d : Disk} (hs : Settled thirdAppended d.volatile smallCommittedLog
      (smallCommittedLog ++ [.doc ⟨.blob, [9]⟩])) :
    ∃ d', ((Op.commit .listed).prog thirdAppended).exec d =
        some ((.ok .done, thirdCommitted), d') ∧
      Settled thirdCommitted d'.volatile thirdLog thirdLog := by
  exact hs.commit_goes_through .listed rfl (by decide) (by rw [thirdAppended_endOffset]; decide)

end ContextDb
