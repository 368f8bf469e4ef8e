import ContextDb.Crash
import ContextDb.Sequential

/-!
# What an `Ok` from commit means

A commit that does work syncs its header before it returns `Ok`, and from then on
no crash takes it back. A commit on a clean handle returns `Ok` without a sync –
and the header that handle was opened on may have been written by a process that
was killed before its own sync. So an `Ok` means durable exactly when there was
something to commit, or the header of the handle was durable already
(`ContextDb.commit_ok_durable_iff`).
-/

namespace ContextDb

open ByteFile FileProg Prog StorageEngine

/-- **What a recovery keeps of what a handle showed**: the generation does not
fall back, live documents are live with the same content unless a later commit
deleted them, and deleted ones are deleted. -/
structure Keeps (H : Header) (st : DocState) (h : Header) (st' : DocState) : Prop where
  /-- The generation does not fall back. -/
  generation : H.generation ≤ h.generation
  /-- Documents are live still, unless a later commit deleted them. -/
  live : ∀ id r, st.records id = .ok r → st'.records id = .ok r ∨
    (H.generation < h.generation ∧ st'.records id = .error (.deleted id))
  /-- Deleted documents stay deleted. -/
  deleted : ∀ id, st.records id = .error (.deleted id) → st'.records id = .error (.deleted id)

/-- **A state is durable**: whatever crashes follow, opening succeeds and keeps
it. -/
def Durable [Bson] (w : World) (H : Header) (st : DocState) : Prop :=
  ∀ w', Relation.ReflTransGen (World.Step crashes) w w' →
    ∃ e, openFile.run.exec w'.disk = some (.ok e, w'.disk) ∧
      Keeps H st e.header (e.docState w'.disk.volatile)

section Durable

variable {cs : List Issued} {e : StorageEngine} {d : Disk} {s : Slot} {h H : Header} {l L : Log}

/-- A log that does not fall behind a base keeps its documents. -/
theorem Beyond.keeps (hb : Beyond (some (H, L)) h l) (hv : ValidLog l) :
    Keeps H (tableOf L).state h (tableOf l).state := by
  obtain ⟨hp, ⟨rfl, rfl⟩ | hlt⟩ := hb
  · exact ⟨UInt64.le_refl _, fun id r hr => Or.inl hr, fun id hdel => hdel⟩
  · refine ⟨UInt64.le_of_lt hlt, fun id r hr => ?_, fun id hdel => ?_⟩
    · exact (hv.find_of_isPrefix hp hr).imp_right fun hdel => ⟨hlt, hdel⟩
    · exact DocTable.find_deleted.mpr (ValidLog.dead_subset hp (DocTable.find_deleted.mp hdel))

/-- **What is guarded is durable.** -/
theorem Guarded.durable [Bson] {w : World} (hw : Guarded (some (H, L)) w) :
    Durable w H (tableOf L).state := by
  rintro ⟨d', handle, cs'⟩ hsteps
  obtain ⟨s, h, l, hl, hworthy⟩ := (hw.steps hsteps).recovers
  refine ⟨_, hl.open_exec, ?_⟩
  rw [hl.docState]
  exact hworthy.beyond.keeps hl.valid

/-- **A clean handle anchored at its own log** shows a durable state. -/
theorem durable_of_anchored [Bson] (hs : Settled e d.volatile l l)
    (hw : Worthy none cs e.liveSlot e.header l) (ha : Anchored d e.liveSlot e.header l l) :
    Durable ⟨d, some e, cs⟩ e.header (e.docState d.volatile) := by
  have hself : Worthy (some (e.header, l)) cs e.liveSlot e.header l :=
    ⟨hw.attested, List.prefix_refl l, Or.inl ⟨rfl, rfl⟩⟩
  rw [hs.docState]
  exact Guarded.durable (.session hs hself (.anchored ha hself))

/-- **A live header that is durable anchors its log.** -/
theorem Rooted.anchored_of_slot (hr : Rooted none cs d l) (hl : Live d.volatile s h l)
    (hslot : slotBytes d.durable s = h.encode) : Anchored d s h l l := by
  have hdec : decodedSlots d.durable s = some h := decodedSlots_of_encode hslot
  cases hr with
  | @anchored s₀ h₀ l₀ ha hw =>
    rcases Slot.eq_or_other s₀ s with rfl | rfl
    · obtain rfl : h = h₀ := Option.some.inj (hdec.symm.trans ha.durable.decoded)
      have heq : l₀ = l := by
        refine prefix_eq_of_tail_eq ha.committed (List.prefix_refl l) ?_
        rw [← ha.durable.describes.logEnd_toNat, ← hl.describes.logEnd_toNat]
      rwa [heq] at ha
    · -- each of the two headers would be older than the other
      have h1 := (ha.durable.older h hdec).2.1
      have h2 := (hl.older h₀ (by
        rw [Slot.other_other]
        exact decodedSlots_of_encode ha.slot_volatile)).2.1
      omega
  | fresh hb hcs hd hnil =>
    rw [hd] at hslot
    have hlen := Header.length_encode h
    rw [← hslot, slotBytes_def, headerSize] at hlen
    simp at hlen

/-- **A live header that is not durable can be lost**: a loss of power leaves a
file that does not open, or opens on an earlier generation. -/
theorem Rooted.lost (hr : Rooted none cs d l) (hl : Live d.volatile s h l)
    (hslot : slotBytes d.durable s ≠ h.encode) : ∃ img, d.Crash img ∧ TornHeaders d img ∧
      ∀ e, openFile.run.exec (.ofImage img) = some (.ok e, .ofImage img) →
        e.header.generation.toNat < h.generation.toNat := by
  cases hr with
  | @anchored s₀ h₀ l₀ ha hw =>
    -- everything that was not synced is lost: the anchor is what remains
    refine ⟨d.durable, d.crash_durable, fun _ _ _ => Or.inl rfl, fun e he => ?_⟩
    rw [Live.open_exec (d := .ofImage d.durable) ha.durable] at he
    cases he
    rcases Slot.eq_or_other s₀ s with rfl | rfl
    · refine absurd ?_ hslot
      rw [ha.durable.slot, ← ha.slot_volatile, hl.slot]
    · refine (hl.older h₀ ?_).2.1
      rw [Slot.other_other]
      exact decodedSlots_of_encode ha.slot_volatile
  | fresh hb hcs hd hnil =>
    -- of the creation, one byte of the header region remains
    refine ⟨[0], ⟨?_, ?_, fun i b hi => Or.inl ?_⟩, fun t h' hh' => ?_, fun e he => ?_⟩
    · rw [hd]
      exact Nat.zero_le _
    · have := hl.length_le
      rw [List.length_singleton]
      omega
    · rw [hd]
      obtain ⟨hlt, rfl⟩ := List.getElem?_eq_some_iff.mp hi
      simp
    · have hnone : decodedSlots [0] t = none := by
        obtain rfl | rfl := t.eq_zero_or_one
        · decide
        · decide
      rw [hnone] at hh'
      cases hh'
    · have hshort : (Disk.ofImage [0]).volatile.length < 128 := by decide
      obtain ⟨tr, hruns⟩ := runs_of_exec (F := .never) he
      obtain ⟨-, hnil, -⟩ := (openFile_short_safe .never hshort).runs hruns e rfl
      cases hnil

end Durable

/-- **When an `Ok` from commit means durable**: exactly when there was something
to commit, or the header of the handle was durable already. -/
theorem commit_ok_durable_iff [Bson] {d d' : Disk} {cs : List Issued} {e e' : StorageEngine}
    {order : IterOrder} {tr : Trace} (hw : Reachable crashes ⟨d, some e, cs⟩)
    (hr : Runs killedProcess ((Op.commit order).prog e) d tr (.ok .done, e') d') :
    Durable ⟨d', some e', issued (e.docState d.volatile) true tr ++ cs⟩ e'.header
        (e'.docState d'.volatile) ↔
      e.dirty = true ∨ slotBytes d.durable e.liveSlot = e.header.encode := by
  have hguard := Reachable.guarded hw
  cases hguard with
  | session hs hworthy hroot =>
    obtain ⟨y, hc, hy⟩ := (commit_serve_safe hs.handle order).runs hr
    cases hc with
    | clean hd =>
      obtain rfl := hs.handle.eq_of_clean hd
      refine ⟨fun hdur => Or.inr ?_, fun hcond => ?_⟩
      · by_contra hslot
        obtain ⟨img, hcrash, htorn, hlost⟩ := hroot.lost hs.live hslot
        obtain ⟨e'', hopen, hkeeps⟩ := hdur _ (.single (.powerLoss trivial hcrash htorn))
        exact Nat.not_le_of_lt (hlost e'' hopen) hkeeps.generation
      · have hslot := hcond.resolve_left (by rw [hd]; exact Bool.false_ne_true)
        exact durable_of_anchored hs hworthy (hroot.anchored_of_slot hs.live hslot)
    | refused | early | orphaned | torn => cases hy
    | done hd hp =>
      refine iff_of_true ?_ (Or.inl hd)
      rw [issued_snoc hp.grows.1]
      have hs' := hs.publish hp
      exact durable_of_anchored hs' (hworthy.commit hs order true) (.of_synced hs'.live rfl)

/-- The commit of a small database is durable. -/
theorem commit_ok_durable_iff_small :
    letI := emptyDocuments
    ∃ d d' cs tr, Reachable crashes ⟨d, some firstBuried, cs⟩ ∧ firstBuried.dirty = true ∧
      Runs killedProcess ((Op.commit .listed).prog firstBuried) d tr (.ok .done, smallCommitted)
        d' ∧
      (smallCommitted.docState d'.volatile).records ⟨2⟩ = .ok ⟨.blob, [8]⟩ ∧
      Durable ⟨d', some smallCommitted, issued (firstBuried.docState d.volatile) true tr ++ cs⟩
        smallCommitted.header (smallCommitted.docState d'.volatile) := by
  let _ := emptyDocuments
  obtain ⟨d, cs, hsteps, hs, hlen⟩ := small_steps (R := crashes) trivial
  obtain ⟨d', hcommit, hs', -⟩ := small_commit hs hlen
  obtain ⟨tr, hr⟩ := runs_of_exec (F := killedProcess) hcommit
  have hw := (reachable_created crashes).trans hsteps
  refine ⟨d, d', cs, tr, hw, rfl, hr, ?_, (commit_ok_durable_iff hw hr).mpr (Or.inl rfl)⟩
  rw [hs'.docState, tableOf_smallCommittedLog]
  exact find_small.2.1

/-! ### A commit that is not durable -/

/-- **A commit may be killed** with its header written and not synced. -/
theorem commit_stops_unsynced [Bson] {F : Faults} {e : StorageEngine} {l log : Log} {d : Disk}
    (order : IterOrder) (h : Handle e l log) (hd : e.dirty = true)
    (hlen : e.index.encodedLen ≤ maxRecordLen.toNat)
    (hfit : e.endOffset.toNat + (9 + e.index.encodedLen) ≤ maxFileLen) :
    ∃ tr d₁, Prepared e order d tr d₁ ∧
      Stops F ((Op.commit order).prog e) d
        (tr ++ [⟨64 * commitSlot e, (commitHeaderOf e order).encode, 64⟩])
        (d₁.write (64 * commitSlot e) (commitHeaderOf e order).encode) := by
  obtain ⟨tr, d₁, hprep, hsteps⟩ :=
    commit_written_steps (F := F) d order hd h.le_endOffset hlen hfit
  exact ⟨tr, d₁, hprep, Or.inl ⟨_, hsteps⟩⟩

/-- **An `Ok` that is not durable.** One document is appended to a new database;
the process is killed in commit, its header written and not synced; the file is
opened again, which shows the document, and commit returns `Ok`. A loss of power
then leaves the empty database. -/
theorem killed_commit_not_durable :
    letI := emptyDocuments
    ∃ d e cs, Reachable crashes ⟨d, some e, cs⟩ ∧
      Runs killedProcess ((Op.commit .listed).prog e) d [] (.ok .done, e) d ∧
      e.header.generation = 1 ∧ (e.docState d.volatile).records ⟨1⟩ = .ok ⟨.blob, [7]⟩ ∧
      ∃ img e', d.Crash img ∧ TornHeaders d img ∧
        openFile.run.exec (.ofImage img) = some (.ok e', .ofImage img) ∧
        e'.header.generation = 0 ∧ (e'.docState img).records ⟨1⟩ = .error (.notFound ⟨1⟩) := by
  let _ := emptyDocuments
  -- the first process: an append, and a commit that is killed
  obtain ⟨d₁, h₁⟩ := append_exec (e := created) (d := .ofImage newRegion) .blob [7] (by decide)
    (by decide)
  obtain ⟨log, hsv, hs⟩ := Settled.serve_exec (d := .ofImage newRegion) settled_created rfl h₁
  obtain rfl : log = [.doc ⟨.blob, [7]⟩] := by
    cases hsv
    rfl
  obtain ⟨tr₂, d₂, hp, hst⟩ := commit_stops_unsynced (F := killedProcess) (d := d₁)
    .listed hs.handle rfl (by decide) (by decide)
  obtain ⟨tr₁, hr₁⟩ := runs_of_exec h₁
  have hkilled := ((reachable_created crashes).tail
    (.serve (show Op.Allowed _ (.append .blob [7]) from trivial) hr₁.of_never)).tail
    (.kill trivial (show Op.Allowed _ (.commit .listed) from trivial) hst)
  -- the second process: it finds the header
  have hl := (hs.publish hp).live
  rw [Disk.volatile_sync] at hl
  obtain ⟨tr₃, hr₃⟩ := runs_of_exec hl.open_exec
  -- a loss of power: the header was never synced
  have hbase := (hs.grow (by have hg := hp.grows.2; rwa [hs.handle.endOffset] at hg)).live
  rw [Disk.volatile_of_synced _ hp.synced] at hbase
  refine ⟨_, _, _, hkilled.tail (.opens hr₃), ?_, rfl, ?_, d₂.durable, _,
    Disk.crash_durable _, fun _ _ _ => Or.inl rfl, Live.open_exec (d := .ofImage _) hbase, rfl, ?_⟩
  · rw [commit_prog_clean .listed rfl]
    exact .refl _ _
  · rw [hl.docState, tableOf_commitLog]
    rfl
  · rw [hbase.docState]
    rfl

end ContextDb
