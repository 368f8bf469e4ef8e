import ContextDb.Sessions

/-!
# Uncommitted work in any file that opens

Opening checks that the log ends within the file, and nothing else about where it
ends: a file whose header says that the log ends inside the header region, or
before a record the index points at, opens like any other. Its next append goes
exactly there.

`ContextDb.Needed` lists what opening and reading depend on, with its place: the
header slots, the master record and the documents. A task is careful
(`ContextDb.Careful`) when the record it writes lies apart from all of it. While
the tasks of a session are careful, dropping the session leaves the database
as it was (`ContextDb.careful_sessions_are_harmless`) – and where the log ends
behind everything that is needed, they all are
(`ContextDb.careful_run_of_needed_le`). Without that the first append may already
destroy the file (`ContextDb.append_destroys`).
-/

namespace ContextDb

open ByteFile FileProg Prog StorageEngine

/-! ### What opening and reading depend on -/

section Needed

variable (v : Bytes) (e : StorageEngine)

/-- **What the handle opened from a file needs of it**: some bytes and where they
stand. -/
inductive Needed : ℕ → Bytes → Prop
  /-- The header slots. -/
  | slot (t : Slot) : Needed (64 * t) (slotBytes v t)
  /-- The master record. -/
  | master {payload : Bytes} (hne : e.header.masterLen ≠ 0)
      (h : Holds v e.header.masterPtr.toNat (Record.bytes ⟨.masterIndex, payload⟩)) :
      Needed e.header.masterPtr.toNat (Record.bytes ⟨.masterIndex, payload⟩)
  /-- A document that can be read. -/
  | document {id : DocId} {offset : UInt64} {r : Record} (hd : id ∉ e.index.dead)
      (ho : e.index.offsets.lookup id = some offset) (h : Holds v offset.toNat r.bytes) :
      Needed offset.toNat r.bytes

/-- `n` bytes from `o` on lie apart from everything that is needed. -/
def Clear (o n : ℕ) : Prop := ∀ off bs, Needed v e off bs → off + bs.length ≤ o ∨ o + n ≤ off

end Needed

section Unharmed

variable {v w : Bytes} {e : StorageEngine}

theorem Needed.holds {off : ℕ} {bs : Bytes} (h : Needed v e off bs) : Holds v off bs := by
  cases h with
  | slot t => exact holds_slotBytes v t
  | master hne h => exact h
  | document hd ho h => exact h

/-- **A file that is unharmed**: everything that is needed still stands, and
nothing has been cut off. -/
structure Unharmed (v : Bytes) (e : StorageEngine) (w : Bytes) : Prop where
  /-- Nothing has been cut off. -/
  length_le : v.length ≤ w.length
  /-- Everything that is needed still stands. -/
  holds : ∀ off bs, Needed v e off bs → Holds w off bs

theorem Unharmed.refl (v : Bytes) (e : StorageEngine) : Unharmed v e v :=
  ⟨le_rfl, fun _ _ h => h.holds⟩

/-- **A write apart from what is needed** does no harm. -/
theorem Unharmed.writeAt {o : ℕ} {bs : Bytes} (h : Unharmed v e w) (hc : Clear v e o bs.length) :
    Unharmed v e (writeAt w o bs) where
  length_le := h.length_le.trans (length_le_length_writeAt w o bs)
  holds off cs hn := (h.holds off cs hn).writeAt_of_disjoint (hc off cs hn)

/-- A file that is unharmed has the same slots. -/
theorem Unharmed.decodedSlots_eq (h : Unharmed v e w) (hlen : 128 ≤ v.length) :
    decodedSlots w = decodedSlots v :=
  funext fun t => decodedSlots_congr (slotBytes_keep hlen (h.holds _ _ (.slot t)))

/-- **What was known of a file that is unharmed is known still.** -/
theorem Accepted.unharmed (hacc : Accepted v e) (h : Unharmed v e w) : Accepted w e where
  length_le := hacc.length_le.trans h.length_le
  slots := hacc.slots.trans (h.decodedSlots_eq hacc.length_le).symm
  selected := by
    rw [h.decodedSlots_eq hacc.length_le]
    exact hacc.selected
  logEnd_le := hacc.logEnd_le.trans h.length_le
  index_default := hacc.index_default
  index_master hne := by
    obtain ⟨payload, hmax, hholds, hdec⟩ := hacc.index_master hne
    exact ⟨payload, hmax, h.holds _ _ (.master hne hholds), hdec⟩
  endOffset := hacc.endOffset
  clean := hacc.clean

/-- A file that is unharmed reads back the same records. -/
theorem Unharmed.readRecord (h : Unharmed v e w) (hv : v.length ≤ maxFileLen)
    (hw : w.length ≤ maxFileLen) {id : DocId} {r : Record}
    (hr : (e.readRecord id).over v = .ok r) : (e.readRecord id).over w = .ok r := by
  obtain ⟨hd, offset, ho, hmax, hholds⟩ := (readRecord_over_ok hv).mp hr
  exact (readRecord_over_ok hw).mpr ⟨hd, offset, ho, hmax, h.holds _ _ (.document hd ho hholds)⟩

/-- **The invariant of a session**: the file is unharmed, and no longer than a file
can be. -/
structure InSession (v : Bytes) (e : StorageEngine) (x : StorageEngine × Disk) : Prop where
  /-- The file is unharmed. -/
  unharmed : Unharmed v e x.2.volatile
  /-- It is no longer than a file can be. -/
  length_le : x.2.volatile.length ≤ maxFileLen
  /-- The end of the log lies where a file can have it. -/
  endOffset_le : x.1.endOffset.toNat ≤ maxFileLen

/-- A handle just opened. -/
theorem Accepted.inSession (hacc : Accepted v e) (hv : v.length ≤ maxFileLen) :
    InSession v e (e, .ofImage v) where
  unharmed := .refl v e
  length_le := hv
  endOffset_le := by
    rw [hacc.endOffset]
    exact hacc.logEnd_le.trans hv

/-- A record apart from what is needed does no harm. -/
theorem Unharmed.withRecord {d : Disk} {n : ℕ} {r : Record} (h : Unharmed v e d.volatile)
    (hc : Clear v e n (9 + r.payload.length)) : Unharmed v e (withRecord d n r).volatile := by
  have hframe : Clear v e n (encodeFrame r.kind r.payload).length := by
    intro off bs hn
    have := hc off bs hn
    rw [length_encodeFrame]
    omega
  have hpayload : Clear v e (n + 9) r.payload.length := by
    intro off bs hn
    have := hc off bs hn
    omega
  rw [ContextDb.withRecord, Disk.volatile_write, Disk.volatile_write]
  exact (h.writeAt hframe).writeAt hpayload

end Unharmed

/-! ### Sessions of careful tasks -/

section Careful

variable [Bson]

/-- **A careful task** on the file that was opened as `v` by `e`: what it writes lies
apart from everything that is needed. -/
def Careful (v : Bytes) (e e' : StorageEngine) (q : Task) : Prop :=
  ∀ r, q.written e' = some r → Clear v e e'.endOffset.toNat (9 + r.payload.length)

/-- A careful task that is not a commit. -/
def CarefulStaging (v : Bytes) (e : StorageEngine) (x : StorageEngine × Disk) (q : Task)
    (p : Except CndbError TaskReply × UInt64) (x' : StorageEngine × Disk) : Prop :=
  Careful v e x.1 q ∧ Staging x q p x'

variable {v : Bytes} {e : StorageEngine}

/-- **Careful tasks keep the invariant.** -/
theorem InSession.step {x x' : StorageEngine × Disk} {q : Task}
    {p : Except CndbError TaskReply × UInt64} (h : InSession v e x)
    (hstep : CarefulStaging v e x q p x') : InSession v e x' := by
  obtain ⟨hcareful, hq, hserve, -⟩ := hstep
  rcases performing_cases hserve with ⟨op, y, rfl, -, hexec⟩ | ⟨-, rfl⟩
  · have hdoes := executes_of_exec h.endOffset_le hexec
    refine ⟨?_, exec_length_le hexec h.length_le, hdoes.endOffset_le h.endOffset_le⟩
    rcases hdoes.stages (Task.commits_op op ▸ hq) with ⟨hsame, -⟩ | ⟨r, hr, -, hdisk, -⟩
    · rw [hsame]
      exact h.unharmed
    · -- the one record that is written lies apart from what is needed
      rw [hdisk]
      exact h.unharmed.withRecord (hcareful r hr)
  · exact h

/-- **Careful sessions are harmless.** Take any file that opens, and any tasks other
than commits, each of which writes apart from what the handle needs of the file.
Dropped without a commit, they leave a file that opens to the same handle – with the
header, the slots and the index it had – and every document that could be read reads
back the same. -/
theorem careful_sessions_are_harmless {x : StorageEngine × Disk}
    {tr : List (Task × Except CndbError TaskReply × UInt64)} (hne : v ≠ [])
    (hv : v.length ≤ maxFileLen) (hopen : Opens v e)
    (hrun : Machine.Run (CarefulStaging v e) (e, .ofImage v) tr x) :
    openFile.run.exec x.2 = some (.ok e, x.2) ∧
      ∀ id r, (e.readRecord id).over v = .ok r → (e.readRecord id).over x.2.volatile = .ok r := by
  have hacc := (opens_iff_accepted hne hv).mp hopen
  have hx : InSession v e x := Machine.Run.invariant (I := InSession v e)
    (fun _ _ _ _ h hstep => h.step hstep) hrun (hacc.inSession hv)
  have hacc' := hacc.unharmed hx.unharmed
  have hne' : x.2.volatile ≠ [] := List.ne_nil_of_length_pos (by have := hacc'.length_le; omega)
  refine ⟨((opens_iff_accepted hne' hx.length_le).mpr hacc').exec hacc'.length_le, ?_⟩
  intro id r hr
  exact hx.unharmed.readRecord hv hx.length_le hr

/-- A log that ends behind everything that is needed: whatever is appended to it
is apart from that. -/
theorem careful_of_needed_le {e' : StorageEngine}
    (hend : e.header.logEnd.toNat ≤ e'.endOffset.toNat)
    (hneeded : ∀ off bs, Needed v e off bs → off + bs.length ≤ e.header.logEnd.toNat) (q : Task) :
    Careful v e e' q := by
  intro r _ off bs hn
  exact Or.inl ((hneeded off bs hn).trans hend)

/-- **Where the log ends behind everything that is needed**, all sessions are
careful. -/
theorem careful_run_of_needed_le {x x' : StorageEngine × Disk}
    {tr : List (Task × Except CndbError TaskReply × UInt64)}
    (hneeded : ∀ off bs, Needed v e off bs → off + bs.length ≤ e.header.logEnd.toNat)
    (hrun : Machine.Run Staging x tr x') (hend : e.header.logEnd.toNat ≤ x.1.endOffset.toNat)
    (hhi : x.1.endOffset.toNat ≤ maxFileLen) : Machine.Run (CarefulStaging v e) x tr x' := by
  induction hrun with
  | nil x => exact .nil x
  | @cons x₁ x₂ x₃ q p tr hstage _ ih =>
    refine .cons ⟨careful_of_needed_le hend hneeded q, hstage⟩ ?_
    obtain ⟨hq, hserve, -⟩ := hstage
    rcases performing_cases hserve with ⟨op, y, rfl, -, hexec⟩ | ⟨-, rfl⟩
    · have hdoes := executes_of_exec hhi hexec
      refine ih ?_ (hdoes.endOffset_le hhi)
      rcases hdoes.stages (Task.commits_op op ▸ hq) with ⟨-, hsame⟩ | ⟨r, -, hfit, -, hmoved⟩
      · rwa [hsame]
      · rw [hmoved, appended_endOffset hfit]
        omega
    · exact ih hend hhi

end Careful

/-- Where the log ends with the file, it ends behind everything that is needed. -/
theorem needed_le_of_length_le {v : Bytes} {e : StorageEngine} (hlen : 128 ≤ v.length)
    (hend : v.length ≤ e.header.logEnd.toNat) {off : ℕ} {bs : Bytes} (h : Needed v e off bs) :
    off + bs.length ≤ e.header.logEnd.toNat := by
  have hpos : 0 < bs.length := by
    cases h with
    | slot t =>
      rw [length_slotBytes hlen]
      decide
    | master | document =>
      rw [Record.length_bytes]
      omega
  exact (h.holds.length_le (List.ne_nil_of_length_pos hpos)).trans hend

/-- **A session on a small database**: a document is appended, the only one that is live is
deleted, and what is committed is verified. -/
theorem small_staging [Bson] {e : StorageEngine} {d : Disk} (hi : e.index = firstBuried.index)
    (hend : e.endOffset = 238)
    (hs : Settled e d.volatile smallCommittedLog smallCommittedLog) :
    ∃ end₁ end₂ x, Machine.Run Staging (e, d)
      [(.op (.append .blob [9]), .ok (.reply (.id ⟨3⟩)), end₁),
        (.op (.tombstone ⟨2⟩), .ok (.reply .done), end₂),
        (.verify, .ok (.records 4), x.1.endOffset)] x := by
  obtain ⟨d₁, h₁⟩ := append_exec (e := e) (d := d) .blob [9] (by decide) (by rw [hend]; decide)
  have hid : e.index.allocateId.1 = ⟨3⟩ := by
    rw [hi]
    rfl
  rw [hid] at h₁
  have hindex₁ : ((e.appended 1).inserted e.endOffset).index =
      firstBuried.index.allocateId.2.insert ⟨3⟩ 238 := by
    change e.index.allocateId.2.insert e.index.allocateId.1 e.endOffset = _
    rw [hid, hi, hend]
  have hend₁ : ((e.appended 1).inserted e.endOffset).endOffset.toNat = 248 := by
    have hfit : e.endOffset.toNat + (9 + 1) ≤ maxFileLen := by
      rw [hend]
      decide
    exact (appended_endOffset hfit).trans (by rw [hend]; rfl)
  obtain ⟨d₂, h₂⟩ := tombstone_exec (d := d₁) (show (⟨2⟩ : DocId) ∉ _ by rw [hindex₁]; decide)
    (by rw [hindex₁]; decide) (by rw [hend₁]; decide)
  obtain ⟨log₁, -, hs₁⟩ := hs.serve_exec rfl h₁
  obtain ⟨log₂, -, hs₂⟩ := hs₁.serve_exec rfl h₂
  have hverify := performing_verify (x := (_, d₂)) hs₂
  exact ⟨_, _, _, .cons (staging_op rfl h₁) (.cons (staging_op rfl h₂)
    (.cons ⟨rfl, hverify, rfl⟩ (.nil _)))⟩

/-- A small database is opened, a document is appended, and its only live one is deleted.
The handle is dropped: the file opens as before, and the document is still there. -/
theorem careful_sessions_are_harmless_small :
    letI := emptyDocuments
    ∃ v e p p' x, Opens v e ∧ (e.readRecord ⟨2⟩).over v = .ok ⟨.blob, [8]⟩ ∧
      Machine.Run (CarefulStaging v e) (e, .ofImage v) [(.op (.append .blob [9]), p),
        (.op (.tombstone ⟨2⟩), p'), (.verify, .ok (.records 4), x.1.endOffset)] x ∧
      p.1 = .ok (.reply (.id ⟨3⟩)) ∧ p'.1 = .ok (.reply .done) ∧
      openFile.run.exec x.2 = some (.ok e, x.2) ∧
      (e.readRecord ⟨2⟩).over x.2.volatile = .ok ⟨.blob, [8]⟩ := by
  let _ := emptyDocuments
  obtain ⟨d₀, -, hs₀, hlen₀⟩ := small_run
  obtain ⟨d, -, hs, hlen⟩ := small_commit hs₀ hlen₀
  obtain ⟨e, hopen, hindex, hheader, hend, hset⟩ :=
    small_reopen (d := .ofImage d.volatile) hs
  have hlogEnd : e.header.logEnd.toNat = 238 := by rw [hheader, smallCommitted_logEnd]; rfl
  have hfind : (e.readRecord ⟨2⟩).over d.volatile = .ok ⟨.blob, [8]⟩ := by
    have hret := readRecord_returns hset.handle.valid hset.handle.index ⟨2⟩
    rw [tableOf_smallCommittedLog, find_small.2.1] at hret
    exact over_of_returns hret hset.backed.holds
  obtain ⟨_, _, x, hrun⟩ := small_staging hindex hend hset
  -- it writes behind everything that is needed
  have h128 := hset.backed.length_le
  have hneeded : ∀ off bs, Needed d.volatile e off bs →
      off + bs.length ≤ e.header.logEnd.toNat :=
    fun _ _ => needed_le_of_length_le h128 (by rw [hlogEnd]; exact hlen)
  have hcareful := careful_run_of_needed_le hneeded hrun (by rw [hlogEnd, hend]; rfl)
    (by rw [hend]; decide)
  obtain ⟨hreopen, hreads⟩ := careful_sessions_are_harmless hset.live.ne_nil
    (hlen.trans (by decide)) ⟨_, hopen⟩ hcareful
  exact ⟨d.volatile, e, _, _, x, ⟨_, hopen⟩, hfind, hcareful, rfl, rfl, hreopen,
    hreads _ _ hfind⟩

/-! ### A log that ends in the header region -/

/-- The header of an empty database whose log ends at the front of the file. -/
def misplaced : Header := { Header.initial with logEnd := 0 }

/-- The handle it opens to. -/
def misplacedHandle : StorageEngine :=
  { created with header := misplaced, slots := ![some misplaced, none], endOffset := 0 }

theorem accepted_misplaced : Accepted (regionWith misplaced) misplacedHandle where
  length_le := by rw [length_regionWith]
  slots := by rw [← List.append_nil (regionWith _), decodedSlots_regionWith]; rfl
  selected := by rw [← List.append_nil (regionWith _), decodedSlots_regionWith]; rfl
  logEnd_le := Nat.zero_le _
  index_default _ := rfl
  index_master hne := absurd rfl hne
  endOffset := rfl
  clean := rfl

/-- What an empty document leaves of the file: its frame stands over the magic. -/
theorem selectLive_overwritten :
    selectLive (decodedSlots (writeAt (regionWith misplaced) 0 (encodeFrame .blob []))) =
      .error .noValidHeader := rfl

/-- **An append may destroy a database that opens**: where the log ends at the front
of the file, the first record goes over the header, and nothing opens any more. -/
theorem append_destroys :
    letI := emptyDocuments
    ∃ e p x, Opens (regionWith misplaced) e ∧
      Machine.Run Staging (e, .ofImage (regionWith misplaced)) [(.op (.append .blob []), p)] x ∧
      ∀ e', ¬Opens x.2.volatile e' := by
  let _ := emptyDocuments
  have hne : regionWith misplaced ≠ [] :=
    List.ne_nil_of_length_pos (by rw [length_regionWith]; decide)
  have hv : (regionWith misplaced).length ≤ maxFileLen := by
    rw [length_regionWith]
    decide
  obtain ⟨d, hexec⟩ := append_exec (e := misplacedHandle) (d := .ofImage (regionWith misplaced))
    .blob [] (by decide) (by decide)
  have hd : d.volatile = writeAt (regionWith misplaced) 0 (encodeFrame .blob []) := by
    have hdoes := executes_of_exec (Nat.zero_le _) hexec
    rcases hdoes.stages rfl with ⟨-, hend⟩ | ⟨r, hr, -, hdisk, -⟩
    · exact absurd hend (by decide)
    · cases hr
      rw [hdisk, withRecord, Disk.volatile_write, Disk.volatile_write, writeAt_nil,
        Disk.volatile_ofImage, show misplacedHandle.endOffset.toNat = 0 from rfl]
  have hstage : Staging (misplacedHandle, .ofImage (regionWith misplaced))
      (.op (.append .blob [])) (_, 9) (_, d) := staging_op rfl hexec
  refine ⟨misplacedHandle, _, (_, d), (opens_iff_accepted hne hv).mpr accepted_misplaced,
    .cons hstage (.nil _), fun e' hopen => ?_⟩
  have hne' : d.volatile ≠ [] := by
    rw [hd]
    exact List.ne_nil_of_length_pos
      ((List.length_pos_iff.mpr hne).trans_le (length_le_length_writeAt _ _ _))
  have hv' : d.volatile.length ≤ maxFileLen := exec_length_le hexec hv
  have hsel := ((opens_iff_accepted hne' hv').mp hopen).selected
  rw [hd, selectLive_overwritten] at hsel
  cases hsel

end ContextDb
