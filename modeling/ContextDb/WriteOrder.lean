import ContextDb.Files
import ContextDb.Grammar
import ContextDb.Sequential

/-!
# What is written, and when

A commit never overwrites a byte the live generation depends on, and it publishes
nothing that is not durable. Both are statements about single writes, at the moment
they are issued, wherever in a history that is: a write goes behind the end of the log
of the open handle, or it is the header of a commit. Such a header goes to the slot that
is not live, when nothing waits to be synced – and what it points at can be read from
the durable image alone, so that a loss of power finds all of it
(`ContextDb.write_order`).

`ContextDb.Ordered` says so of one request in the words of the protocol, for every
handle whose log ends where a file can have it (`ContextDb.serve_issues`). What the
words come to is read off the invariant of a session.
-/

namespace ContextDb

open ByteFile FileProg Prog StorageEngine

/-- **The writes of a request**, each with the disk it meets: records go behind the end
of the log, and the header of a commit is written when its master record is durable. -/
inductive Ordered (e : StorageEngine) (d : Disk) : Op → Disk → ℕ → Bytes → Prop
  /-- A record, or a part of one. -/
  | log {op : Op} {d' : Disk} {off : ℕ} {bs : Bytes} (h : e.endOffset.toNat ≤ off) :
      Ordered e d op d' off bs
  /-- The header of a commit. -/
  | header {order : IterOrder} {d' : Disk} {tr : Trace} (h : Prepared e order d tr d') :
      Ordered e d (.commit order) d' (64 * commitSlot e) (commitHeaderOf e order).encode

section Requests

variable {F : Faults} {e : StorageEngine} {d d' : Disk} {op : Op} {off : ℕ} {bs : Bytes}

/-- A program that opens the file has read all it needs, or creates it. -/
theorem reader_load (n : ℕ) : (load n).run.Reader := by
  rw [load_run]
  split
  · trivial
  · intro region
    cases region with
    | none => trivial
    | some region => exact reader_recover n region

/-- Appending a record writes behind the end of the log. -/
theorem appendRaw_issues (kind : RecordKind) (payload : Bytes)
    (hhi : e.endOffset.toNat ≤ maxFileLen) :
    ((appendRaw kind payload).run.run e).Issues F (Ordered e d op) d' := by
  have hle : e.endOffset.toNat ≤ e.endOffset.toNat + 9 := Nat.le_add_right _ _
  rw [appendRaw_run, add_recordHeaderSize_toNat hhi]
  split
  · trivial
  · exact ⟨.log le_rfl, fun _ => ⟨.log hle, fun _ => trivial, fun _ _ _ => trivial⟩,
      fun _ _ _ => trivial⟩

/-- So does a request that appends a record and then only changes the handle. -/
theorem append_issues (kind : RecordKind) (payload : Bytes) (hlo : 128 ≤ e.endOffset.toNat)
    (hhi : e.endOffset.toNat ≤ maxFileLen) :
    ((append kind payload).run.run e).Issues F (Ordered e d op) d' := by
  rw [append_run]
  refine (appendRaw_issues kind payload hhi).bind
    (appendRaw_safe F ⟨kind, payload⟩ d' hlo hhi) ?_
  rintro tr ⟨r, e'⟩ d₁ - -
  cases r <;> trivial

theorem tombstone_issues (id : DocId) (hlo : 128 ≤ e.endOffset.toNat)
    (hhi : e.endOffset.toNat ≤ maxFileLen) :
    ((tombstone id).run.run e).Issues F (Ordered e d op) d' := by
  rw [tombstone_run]
  split
  · trivial
  split
  · trivial
  refine (appendRaw_issues .tombstone _ hhi).bind
    (appendRaw_safe F (Entry.tomb id).record d' hlo hhi) ?_
  rintro tr ⟨r, e'⟩ d₁ - -
  cases r <;> trivial

/-- **The last stage of a commit** writes its header, with everything before it
durable. -/
theorem commitHeader_issues {order : IterOrder} {tr : Trace}
    (hp : Prepared e order d tr d'.sync) :
    (commitHeader (commitPayload e order) e.endOffset (commitAppended e order)).Issues F
      (Ordered e d (.commit order)) d' := by
  have hslot : (Header.slotOffset (victimSlot (commitAppended e order).slots)).toNat =
      64 * (commitSlot e : ℕ) := Header.slotOffset_toNat _
  have hheader : Ordered e d (.commit order) d'.sync (64 * commitSlot e)
      (commitHeaderOf e order).encode := .header hp
  rw [commitHeader]
  refine ⟨?_, fun _ => trivial⟩
  rw [hslot]
  exact ⟨hheader, fun _ => ⟨trivial, fun _ => trivial⟩, fun _ _ _ => trivial⟩

/-- **A commit** writes its master record behind the end of the log, and then its
header. -/
theorem commit_issues (order : IterOrder) (hlo : 128 ≤ e.endOffset.toNat)
    (hhi : e.endOffset.toNat ≤ maxFileLen) :
    ((commit order).run.run e).Issues F (Ordered e d (.commit order)) d := by
  rw [commit_run]
  split
  · refine ⟨?_, fun _ => trivial⟩
    refine (appendRaw_issues .masterIndex _ hhi).bind
      (appendRaw_safe F (commitRecord e order) d.sync hlo hhi) ?_
    rintro tr x d₁ hg hx
    cases hx with
    | refused | failed => trivial
    | done hlen hfit hend hh =>
      have hgrows : LogGrows e.endOffset.toNat d ([] ++ tr) d₁.sync :=
        ((LogGrows.refl _ d).sync.trans hg le_rfl).sync
      exact commitHeader_issues ⟨hgrows, rfl, hlen, hfit, hh⟩
  · trivial

/-- **Every request writes in order.** -/
theorem serve_issues [Bson] (op : Op) (hlo : 128 ≤ e.endOffset.toNat)
    (hhi : e.endOffset.toNat ≤ maxFileLen) : (op.prog e).Issues F (Ordered e d op) d := by
  cases op with
  | append kind payload => exact (append_issues kind payload hlo hhi).map
  | insert doc =>
    refine Issues.map ?_
    rw [Cndb.insert_run]
    split
    · trivial
    · exact append_issues .blob _ hlo hhi
  | tombstone id => exact (tombstone_issues id hlo hhi).map
  | commit order => exact (commit_issues order hlo hhi).map
  | readRecord id => exact (reader_readRecord e id).issues.map
  | len | liveIds => trivial

/-- **Opening a file** writes to it only if it is empty, and then the header region. -/
theorem openFile_issues : openFile.run.Issues F
    (fun _ off bs => d.volatile = [] ∧ off = 0 ∧ bs = newRegion) d := by
  rw [openFile_run, Issues]
  split
  · exact (reader_load _).issues
  · have hnil : d.volatile = [] := List.length_eq_zero_iff.mp (by omega)
    rw [initializeRegion_run]
    exact ⟨⟨hnil, rfl, rfl⟩, fun _ => ⟨trivial, fun _ => trivial⟩, fun _ _ _ => trivial⟩

end Requests

/-! ### What a header points at -/

section Header

variable {e : StorageEngine} {l log : Log} {d d₁ : Disk} {order : IterOrder} {tr : Trace}

/-- **What a header points at is durable when it is written**: the index of the handle is
loaded from the durable image, all documents are read from it as the handle reads them,
and the log it ends is verified. -/
structure Published (e : StorageEngine) (v : Bytes) (hdr : Header) (durable : Bytes) : Prop where
  /-- It is of the next generation. -/
  generation : hdr.generation.toNat = e.header.generation.toNat + 1
  /-- Its log does not end in front of the current one. -/
  logEnd : e.endOffset.toNat ≤ hdr.logEnd.toNat
  /-- The index. -/
  index : (loadIndex hdr).run.answer durable = .ok e.index
  /-- The documents. -/
  documents : ∀ id, (e.readRecord id).run.answer durable = (e.readRecord id).run.answer v
  /-- The log. -/
  verified : ∃ n, ({ e with header := hdr } : StorageEngine).verify.run.answer durable = .ok n

/-- The header of a prepared commit. -/
theorem Prepared.published (hp : Prepared e order d tr d₁) (h : Handle e l log)
    (hb : Backed d.volatile e.liveSlot e.header l log) :
    Published e d.volatile (commitHeaderOf e order) d₁.durable := by
  have hdesc := h.describes_next hp.length_le hp.fits
  have hv := (h.append_master hp.length_le hp.fits).valid
  have hholds := (backed_prepared h hb hp).holds
  rw [d₁.volatile_of_synced hp.synced] at hholds
  have hlog := holds_logBytes_of_isPrefix hholds (prefix_commitLog e order log)
  refine ⟨h.generation_succ order, ?_, ?_, fun id => ?_, (commitLog e order log).length, ?_⟩
  · rw [h.endOffset, hdesc.logEnd_toNat]
    exact tail_le_of_isPrefix (prefix_commitLog e order log)
  · have hindex : indexOf (commitLog e order log) = e.index :=
      (h.append_master hp.length_le hp.fits).index.symm
    rw [← hindex]
    exact (loadIndex_returns hdesc hv).answer_eq hholds
  · have hret := readRecord_returns h.valid h.index id
    rw [hret.answer_eq hlog, hret.answer_eq hb.holds]
  · have hend : ({ e with header := commitHeaderOf e order } : StorageEngine).header.logEnd.toNat =
        tail (commitLog e order log) := hdesc.logEnd_toNat
    exact (verify_returns hv hend).answer_eq hholds

end Header

/-- **Every open handle is backed** by its file. -/
theorem Reachable.open_backed [Bson] {R : Regime} (hR : R.Covered) {w : World}
    (hw : Reachable R w) {e : StorageEngine} (he : w.handle = some e) :
    ∃ l log, Handle e l log ∧ Backed w.disk.volatile e.liveSlot e.header l log := by
  rcases hR with ⟨hF, hp⟩ | rfl
  · have hs := hw.sound hF hp
    cases hs with
    | session h hb =>
      cases he
      exact ⟨_, _, h, hb⟩
    | rest | unborn => cases he
  · have hg := hw.guarded
    cases hg with
    | session hs =>
      cases he
      exact ⟨_, _, hs.handle, hs.backed⟩
    | rest | unborn | broken => cases he

/-- **The order of writes.** Take any history, and any moment at which a program is about
to write. If it serves a request, it writes behind the end of the log, or it writes the
header of a commit: then it does so to the slot that is not live, nothing waits to be
synced, and everything the header points at is read from what is durable. If it opens the
file, the file is empty, and it writes the header region of a new database. -/
theorem write_order [Bson] {R : Regime} (hR : R.Covered) {w : World} (hw : Reachable R w) :
    (∀ e, w.handle = some e → ∀ (op : Op) (tr : Trace) (off : ℕ) (bs : Bytes) k (d : Disk),
      Steps R.faults (op.prog e) w.disk tr (.write off bs k) d →
      e.endOffset.toNat ≤ off ∨ (off = 64 * (e.liveSlot.other : ℕ) ∧ d.unsynced = [] ∧
        ∃ hdr : Header, bs = hdr.encode ∧ Published e w.disk.volatile hdr d.durable)) ∧
    (w.handle = none → ∀ (tr : Trace) (off : ℕ) (bs : Bytes) k (d : Disk),
      Steps R.faults openFile.run w.disk tr (.write off bs k) d →
      w.disk.volatile = [] ∧ off = 0 ∧ bs = newRegion) := by
  refine ⟨fun e he op tr off bs k d hs => ?_, fun _ tr off bs k d hs =>
    openFile_issues.at_write hs⟩
  obtain ⟨l, log, h, hb⟩ := hw.open_backed hR he
  have hordered := (serve_issues op h.le_endOffset h.endOffset_le).at_write hs
  cases hordered with
  | log hle => exact Or.inl hle
  | header hp =>
    refine Or.inr ⟨?_, hp.synced, _, rfl, hp.published h hb⟩
    rw [h.victim]

/-- The header of the first commit of a new database. -/
theorem write_order_first :
    letI := emptyDocuments
    ∃ d tr bs k d', Steps killedProcess ((Op.commit .listed).prog firstAppended) d tr
        (.write 64 bs k) d' ∧ d'.unsynced = [] ∧
      ∃ hdr : Header, bs = hdr.encode ∧ Published firstAppended d.volatile hdr d'.durable := by
  let _ := emptyDocuments
  obtain ⟨d, happend⟩ := append_exec (e := created) (d := .ofImage newRegion) .blob [7]
    (by decide) (by decide)
  obtain ⟨tr, hr⟩ := runs_of_exec (F := killedProcess) happend
  have hw := (reachable_created crashes).tail
    (.serve (show Op.Allowed _ (.append .blob [7]) from trivial) hr)
  obtain ⟨tr', d', k, -, hs, -⟩ := commit_header_steps (F := killedProcess) (e := firstAppended) d
    .listed rfl (by decide) (by decide) (by decide)
  obtain hlog | ⟨-, hsynced, hheader⟩ :=
    (write_order (R := crashes) (Or.inr rfl) hw).1 firstAppended rfl _ _ _ _ _ _ hs
  · exact absurd hlog (by decide)
  · exact ⟨d, tr', _, k, d', hs, hsynced, hheader⟩

end ContextDb
