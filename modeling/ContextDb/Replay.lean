import ContextDb.Failures

/-!
# The index is the replay of the log

The log and the index are updated by separate code, and on reopening the one is
rewound by the header and the other read from the master record. Still the index
is always what the log says: scanning the records from the start of the log and
folding them, each by its kind alone, gives the index.

That is so as long as documents are appended under the kinds of documents. The
scan is a program of its own (`ContextDb.scanRecords`), which no method of the
engine runs; `ContextDb.replayRecords` folds what it has found.
-/

namespace ContextDb

open ByteFile FileProg Prog StorageEngine

/-- **Histories with failures** in which only documents are appended. -/
def documentFailures : Regime := { failures with kinds := fun kind => kind.isDocument = true }

/-! ### Scanning -/

/-- **The records from an offset to the end of the log**, each with its own
offset, and the offset where the scan stops. -/
def scanRecords (logEnd : UInt64) : ℕ → UInt64 → FileM (UInt64 × List (UInt64 × Record))
  | 0, offset => return (offset, [])
  | fuel + 1, offset => do
    if offset < logEnd then
      let record ← readRecordAt offset
      let rest ← scanRecords logEnd fuel
        (offset + (recordHeaderSize + UInt64.ofNat record.payload.length))
      return (rest.1, (offset, record) :: rest.2)
    else
      return (offset, [])

/-- **What a record says about the index**: a document takes the next id, a
tombstone marks the id in its payload, and a master record says nothing. -/
def MasterIndex.replayRecord (m : MasterIndex) (found : UInt64 × Record) : MasterIndex :=
  if found.2.kind.isDocument then
    m.allocateId.2.insert m.allocateId.1 found.1
  else if found.2.kind = .tombstone then
    { m with dead := Insert.insert ⟨UInt64.ofNat (leNat found.2.payload)⟩ m.dead }
  else m

/-- **The replay of some records**, from the empty index. -/
def replayRecords (found : List (UInt64 × Record)) : MasterIndex :=
  found.foldl MasterIndex.replayRecord .default

/-- The records of a log that starts at some offset. -/
def recordsFrom : ℕ → Log → List (UInt64 × Record)
  | _, [] => []
  | offset, e :: l =>
    (UInt64.ofNat offset, e.record) :: recordsFrom (offset + e.record.bytes.length) l

section Scan

variable {l : Log} {logEnd : UInt64}

/-- **The scan finds the records of a standing log**, from any of them on. -/
theorem scanRecords_returns (hv : ValidLog l) (hend : logEnd.toNat = tail l) (post : Log) :
    ∀ (pre : Log) (fuel : ℕ) (offset : UInt64), l = pre ++ post → offset.toNat = tail pre →
      post.length < fuel → (scanRecords logEnd fuel offset).run.Returns
        (fun v => Holds v 128 (logBytes l)) (.ok (logEnd, recordsFrom (tail pre) post)) := by
  induction post with
  | nil =>
    intro pre fuel offset hl hoff hfuel
    obtain _ | fuel := fuel
    · simp at hfuel
    have heq : offset = logEnd := by
      rw [List.append_nil] at hl
      exact UInt64.toNat_inj.mp (by rw [hoff, hend, hl])
    have hnlt : ¬offset < logEnd := by
      rw [heq]
      exact UInt64.lt_irrefl _
    rw [scanRecords, if_neg hnlt, heq]
    exact returns_pure _
  | cons e post ih =>
    intro pre fuel offset hl hoff hfuel
    obtain _ | fuel := fuel
    · simp at hfuel
    have hpre : l = (pre ++ [e]) ++ post := by rw [hl]; simp
    have htail : tail (pre ++ [e]) ≤ tail l := tail_le_of_isPrefix ⟨post, hpre.symm⟩
    rw [tail_snoc] at htail
    have hfits := hv.fits
    have hlt : offset < logEnd := by
      rw [UInt64.lt_iff_toNat_lt, hoff, hend]
      omega
    have hrec : (readRecordAt offset).run.Returns (fun v => Holds v 128 (logBytes l))
        (.ok e.record) := by
      subst hl
      exact entry_returns hv hoff
    have hnext : (offset + (recordHeaderSize + UInt64.ofNat e.record.payload.length)).toNat =
        tail (pre ++ [e]) := by
      rw [add_totalLen_toNat (by omega), hoff, tail_snoc]
    -- the loop goes on behind the entry, which joins those already read
    have hrest := ih (pre ++ [e]) fuel _ hpre hnext (by rw [List.length_cons] at hfuel; omega)
    have hoffset : UInt64.ofNat (tail pre) = offset := by rw [← hoff, UInt64.ofNat_toNat]
    rw [scanRecords, if_pos hlt, recordsFrom, hoffset, Record.length_bytes, ← tail_snoc]
    exact returns_bind hrec (returns_bind hrest (returns_pure _))

/-- **Folding records by their kinds** is replaying the entries, if documents are
of the kinds of documents. -/
theorem foldl_recordsFrom (hk : OfKinds (fun kind => kind.isDocument = true) l) (m : MasterIndex)
    (offset : ℕ) :
    (recordsFrom offset l).foldl MasterIndex.replayRecord m = replayFrom m offset l := by
  induction l generalizing m offset with
  | nil => rfl
  | cons e l ih =>
    have hone : m.replayRecord (UInt64.ofNat offset, e.record) = m.replay offset e := by
      cases e with
      | doc r => exact if_pos (hk r List.mem_cons_self)
      | tomb id =>
        change { m with dead := Insert.insert (⟨_⟩ : DocId) m.dead } = _
        rw [Entry.record, Bincode.ofNat_leNat_putU64]
        rfl
      | master payload => rfl
    rw [recordsFrom, List.foldl_cons, hone, replayFrom]
    exact ih (fun r hr => hk r (List.mem_cons_of_mem _ hr)) _ _

/-- The documents of a log are counted by the ids it has handed out. -/
theorem countP_recordsFrom (hk : OfKinds (fun kind => kind.isDocument = true) l) (t : DocTable)
    (offset : ℕ) : t.nextDocId + (recordsFrom offset l).countP (fun p => p.2.kind.isDocument) =
      (l.foldl DocTable.apply t).nextDocId := by
  induction l generalizing t offset with
  | nil => rfl
  | cons e l ih =>
    have hrest := ih (fun r hr => hk r (List.mem_cons_of_mem _ hr)) (t.apply e)
      (offset + e.record.bytes.length)
    rw [recordsFrom, List.countP_cons, List.foldl_cons, ← hrest]
    cases e with
    | doc r =>
      have hdoc : (Entry.doc r).record.kind.isDocument = true := hk r List.mem_cons_self
      rw [if_pos hdoc]
      change _ = t.nextDocId + 1 + _
      omega
    | tomb id => rfl
    | master payload => rfl

end Scan

/-! ### Disjoint documents -/

/-- **A document ends** before any later one begins. -/
theorem ValidLog.document_end_le {l : Log} (hv : ValidLog l) {id id' : DocId} {off off' : UInt64}
    (ho : (indexOf l).offsets.lookup id = some off)
    (ho' : (indexOf l).offsets.lookup id' = some off') (hlt : off.toNat < off'.toNat) {v : Bytes}
    (hh : Holds v 128 (logBytes l)) {r : Record}
    (hr : (readRecordAt off).run.answer v = .ok r) :
    off.toNat + (9 + r.payload.length) ≤ off'.toNat := by
  obtain ⟨r₁, pre, post, -, hl, hoff⟩ := hv.tracks.offset id off ho
  obtain ⟨r₂, pre', post', -, hl', hoff'⟩ := hv.tracks.offset id' off' ho'
  have hread : (readRecordAt off).run.answer v = .ok r₁ := by
    subst hl
    exact (entry_returns hv hoff).answer_eq hh
  obtain rfl : r₁ = r := Except.ok.inj (hread.symm.trans hr)
  have hp := snoc_prefix_of_tail_lt hl ⟨_, hl'.symm⟩ (by omega)
  have hle := tail_le_of_isPrefix hp
  rw [tail_snoc] at hle
  rw [hoff, hoff']
  exact hle

/-! ### The index of every reachable state -/

/-- **An index is the replay of a log** that ends at `logEnd`: it is what the
scan of the records gives, the ids are the numbers from one on, only documents
are deleted, and distinct documents occupy disjoint ranges. -/
structure IsReplay (m : MasterIndex) (logEnd : UInt64) (v : Bytes) : Prop where
  /-- The scan reaches the end of the log, and what it has found gives the index
  and counts the ids. -/
  scan : ∃ found, (∀ fuel, logEnd.toNat ≤ fuel →
      (scanRecords logEnd fuel logStart).run.answer v = .ok (logEnd, found)) ∧
    replayRecords found = m ∧
    found.countP (fun p => p.2.kind.isDocument) + 1 = m.nextDocId.toNat
  /-- The ids are the numbers from one on. -/
  ids : ∀ id, id ∈ m.offsets ↔ 1 ≤ id.raw ∧ id.raw < m.nextDocId
  /-- Only documents are deleted. -/
  dead_sub : m.dead ⊆ m.offsets.keys
  /-- Distinct documents occupy disjoint ranges. -/
  disjoint : ∀ id id' off off' r r', id ≠ id' → m.offsets.lookup id = some off →
    m.offsets.lookup id' = some off' → (readRecordAt off).run.answer v = .ok r →
    (readRecordAt off').run.answer v = .ok r' →
    off.toNat + (9 + r.payload.length) ≤ off'.toNat ∨
      off'.toNat + (9 + r'.payload.length) ≤ off.toNat

/-- **The index of a standing log is its replay.** -/
theorem isReplay_indexOf {l : Log} (hv : ValidLog l)
    (hk : OfKinds (fun kind => kind.isDocument = true) l) {logEnd : UInt64}
    (hend : logEnd.toNat = tail l) {v : Bytes} (hh : Holds v 128 (logBytes l)) :
    IsReplay (indexOf l) logEnd v where
  scan := by
    have hlen := length_le_tail l
    refine ⟨recordsFrom (tail []) l, fun fuel hfuel => ?_, foldl_recordsFrom hk _ _, ?_⟩
    · exact (scanRecords_returns hv hend l [] fuel logStart rfl rfl (by omega)).answer_eq hh
    · rw [hv.tracks.next, tableOf, ← countP_recordsFrom hk DocTable.empty (tail []), Nat.add_comm]
      rfl
  ids id := by
    rw [hv.tracks.mem, ← hv.tracks.next, UInt64.le_iff_toNat_le, UInt64.lt_iff_toNat_lt]
    rfl
  dead_sub := hv.tracks.dead_sub
  disjoint id id' off off' r r' hid ho ho' hr hr' := by
    rcases Nat.lt_trichotomy off.toNat off'.toNat with hlt | heq | hlt
    · exact Or.inl (hv.document_end_le ho ho' hlt hh hr)
    · rw [UInt64.toNat_inj.mp heq] at ho
      exact (hid (hv.tracks.offset_inj _ _ _ ho ho')).elim
    · exact Or.inr (hv.document_end_le ho' ho hlt hh hr')

/-- **The index is exactly the replay of the log**, for every handle that any
history of requests, failures and reopenings leads to, and for every index that
opening decodes. -/
theorem index_eq_replay [Bson] {w : World} (hw : Reachable documentFailures w) :
    (∀ e, w.handle = some e → IsReplay e.index e.endOffset w.disk.volatile) ∧
    ∀ tr e d', Runs failingDisk openFile.run w.disk tr (.ok e) d' →
      e.endOffset = e.header.logEnd ∧ IsReplay e.index e.header.logEnd d'.volatile := by
  have hsound := Reachable.sound (R := documentFailures) detected_failingDisk id hw
  refine ⟨fun e he => ?_, fun tr e d' hr => ?_⟩
  · cases hsound with
    | session h hb hk =>
      cases he
      rw [h.index]
      exact isReplay_indexOf h.valid hk h.endOffset hb.holds
    | rest | unborn => cases he
  · have hrest : Sound documentFailures.kinds ⟨w.disk, none, w.commits⟩ := by
      cases hsound with
      | session h hb hk => exact .of_backed hb h.valid h.describes h.committed hk
      | rest hl hk => exact .rest hl hk
      | unborn hu => exact .unborn hu
    cases hrest with
    | rest hl hk =>
      obtain ⟨rfl, hx⟩ := opens_live hl hr
      cases hx
      exact ⟨rfl, isReplay_indexOf hl.valid hk hl.describes.logEnd_toNat hl.holds⟩
    | unborn hu =>
      obtain ⟨hnew, -, rfl⟩ := opens_unborn hu hr
      have hl := live_of_newRegion hnew
      exact ⟨rfl, isReplay_indexOf hl.valid ofKinds_nil rfl hl.holds⟩

/-- Two documents, a tombstone and a master record, and a third document behind them: the
index of the handle is the replay of all of it, and the one that opening decodes is that
of what is committed. -/
theorem index_eq_replay_committed :
    letI := emptyDocuments
    ∃ d e, IsReplay thirdAppended.index thirdAppended.endOffset d.volatile ∧
      thirdAppended.index.nextDocId = 4 ∧ thirdAppended.index.dead = {⟨1⟩} ∧
      openFile.run.exec d = some (.ok e, d) ∧ IsReplay e.index e.header.logEnd d.volatile ∧
      e.index.nextDocId = 3 ∧ e.index.dead = {⟨1⟩} ∧ e.header.logEnd = 238 := by
  let _ := emptyDocuments
  obtain ⟨d₁, cs, hw₁, hs₁, -⟩ := reachable_small (R := documentFailures) rfl
  obtain ⟨d, happend, hs⟩ := third_append hs₁
  obtain ⟨tr, hr⟩ := runs_of_exec (F := .never) happend
  have hw := hw₁.tail (.serve (show Op.Allowed _ (.append .blob [9]) from rfl) hr.of_never)
  obtain ⟨tr', hopen⟩ := runs_of_exec (F := .never) hs.reopen_exec
  obtain ⟨hopened, hdecoded⟩ := index_eq_replay hw
  refine ⟨d, _, hopened _ rfl, rfl, rfl, hs.reopen_exec, (hdecoded _ _ _ hopen.of_never).2, ?_, ?_,
    smallCommitted_logEnd⟩
  · exact congrArg MasterIndex.nextDocId hs₁.handle.index.symm
  · exact congrArg MasterIndex.dead hs₁.handle.index.symm

end ContextDb
