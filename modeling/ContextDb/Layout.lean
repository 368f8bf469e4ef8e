import ContextDb.Sequential
import ContextDb.Truncation
import ContextDb.WriteOrder

/-!
# Where documents lie

The index is a hash table from ids to offsets, and nothing in it keeps two offsets apart.
Yet the records they point at lie in the file in the order of their ids, one behind the
other, between the header region and the end of the log – those of deleted documents as
well, which stay where they are. No two overlap, and none overlaps the live master record.
This holds of every handle that any history has left open
(`ContextDb.documents_lie_in_order`), after failed commits and lost headers too.

It is why the index may be asked in so many ways and gives one answer: an id is live when
`is_live` says so, when `offset_of` has an offset for it, when `live_ids` lists it and when
a read brings a record.
-/

namespace ContextDb

open ByteFile FileProg Prog StorageEngine

namespace ValidLog

variable {l log : Log} {id id' : DocId} {off off' : UInt64}

theorem toNat_ofNat_tail (h : ValidLog l) : (UInt64.ofNat (tail l)).toNat = tail l := by
  rw [UInt64.toNat_ofNat']
  exact Nat.mod_eq_of_lt (h.tail_lt.trans (by decide))

/-- **What an offset points at**: a document, inside the log. -/
theorem offset_within (h : ValidLog l) (hoff : (indexOf l).offsets.lookup id = some off) :
    ∃ r pre post, (tableOf l).docs.lookup id = some r ∧ l = pre ++ .doc r :: post ∧
      off.toNat = tail pre ∧ off.toNat + (9 + r.payload.length) ≤ tail l := by
  obtain ⟨r, pre, post, hr, hl, heq⟩ := h.tracks.offset id off hoff
  refine ⟨r, pre, post, hr, hl, heq, ?_⟩
  have hp : pre ++ [.doc r] <+: l := ⟨post, by rw [hl, List.append_assoc, List.singleton_append]⟩
  have hle := tail_le_of_isPrefix hp
  rw [tail_snoc] at hle
  rw [heq]
  exact hle

/-- **Documents lie in the order of their ids.** -/
theorem offset_lt (h : ValidLog l) (hoff : (indexOf l).offsets.lookup id = some off)
    (hoff' : (indexOf l).offsets.lookup id' = some off') (hlt : id.raw < id'.raw) :
    off.toNat < off'.toNat := by
  induction l using List.reverseRecOn with
  | nil =>
    rw [indexOf_nil] at hoff
    cases hoff
  | append_singleton l e ih =>
    have hl := h.of_isPrefix (List.prefix_append l [e])
    rw [indexOf_snoc] at hoff hoff'
    cases e with
    | tomb | master => exact ih hl hoff hoff'
    | doc r =>
      -- the new document is the last one, by its id and by its offset
      have hnext := hl.tracks.next
      change ((indexOf l).offsets.insert (indexOf l).allocateId.1 _).lookup id = some off at hoff
      change ((indexOf l).offsets.insert (indexOf l).allocateId.1 _).lookup id' = some off' at hoff'
      rcases eq_or_ne id (indexOf l).allocateId.1 with rfl | hne
      · rcases eq_or_ne id' (indexOf l).allocateId.1 with rfl | hne'
        · exact absurd hlt (UInt64.lt_irrefl _)
        · rw [Finmap.lookup_insert_of_ne _ hne'] at hoff'
          have hmem := (hl.tracks.mem id').mp (Finmap.mem_of_lookup_eq_some hoff')
          rw [UInt64.lt_iff_toNat_lt] at hlt
          change (indexOf l).nextDocId.toNat < _ at hlt
          omega
      · rw [Finmap.lookup_insert_of_ne _ hne] at hoff
        rcases eq_or_ne id' (indexOf l).allocateId.1 with rfl | hne'
        · rw [Finmap.lookup_insert] at hoff'
          cases hoff'
          obtain ⟨r', pre, post, -, -, -, hle⟩ := hl.offset_within hoff
          rw [hl.toNat_ofNat_tail]
          omega
        · rw [Finmap.lookup_insert_of_ne _ hne'] at hoff'
          exact ih hl hoff hoff'

/-- **Their records do not overlap.** -/
theorem record_le (h : ValidLog l) {r : Record} (hr : (tableOf l).docs.lookup id = some r)
    (hoff : (indexOf l).offsets.lookup id = some off)
    (hoff' : (indexOf l).offsets.lookup id' = some off') (hlt : id.raw < id'.raw) :
    off.toNat + (9 + r.payload.length) ≤ off'.toNat := by
  have hoffs := h.offset_lt hoff hoff' hlt
  obtain ⟨r₁, pre, post, hr₁, hl, heq, -⟩ := h.offset_within hoff
  obtain ⟨r₂, pre', post', -, hl', heq', -⟩ := h.offset_within hoff'
  rw [hr] at hr₁
  cases hr₁
  have hp : pre ++ [.doc r] <+: pre' :=
    snoc_prefix_of_tail_lt hl ⟨_, hl'.symm⟩ (by rw [← heq, ← heq']; exact hoffs)
  have hle := tail_le_of_isPrefix hp
  rw [tail_snoc] at hle
  rw [heq, heq']
  exact hle

/-- **Nor do they overlap the live master record.** -/
theorem master_disjoint (h : ValidLog log) (hp : l <+: log) {hdr : Header} (hd : Describes hdr l)
    (hpos : hdr.masterLen ≠ 0) {r : Record} (hr : (tableOf log).docs.lookup id = some r)
    (hoff : (indexOf log).offsets.lookup id = some off) :
    off.toNat + (9 + r.payload.length) ≤ hdr.masterPtr.toNat ∨ hdr.logEnd.toNat ≤ off.toNat := by
  obtain ⟨r₁, pre, post, hr₁, hl, heq, -⟩ := h.offset_within hoff
  rw [hr] at hr₁
  cases hr₁
  cases hd with
  | initial => exact absurd rfl hpos
  | @commit _ pre' payload hptr hlen hend _ _ =>
    obtain ⟨post', hl'⟩ := hp
    rw [List.append_assoc, List.singleton_append] at hl'
    rw [hptr, hend, heq]
    rcases Nat.lt_trichotomy (tail pre) (tail pre') with hlt | hsame | hgt
    · have hle := tail_le_of_isPrefix (snoc_prefix_of_tail_lt hl ⟨_, hl'⟩ hlt)
      rw [tail_snoc] at hle
      exact Or.inl hle
    · -- one entry is no document and master record at once
      obtain rfl := prefix_eq_of_tail_eq ⟨_, hl.symm⟩ ⟨_, hl'⟩ hsame
      rw [hl, List.append_cancel_left_eq] at hl'
      cases hl'
    · exact Or.inr (tail_le_of_isPrefix (snoc_prefix_of_tail_lt hl'.symm ⟨_, hl.symm⟩ hgt))

end ValidLog

/-- **An id is live** when it has an offset and is not marked deleted. -/
theorem mem_liveIds_iff {m : MasterIndex} {id : DocId} :
    id ∈ m.liveIds ↔ id ∈ m.offsets ∧ id ∉ m.dead := by
  rw [MasterIndex.liveIds, Finset.mem_filter, Finmap.mem_keys]

/-- The test says so, … -/
theorem isLive_iff_mem {m : MasterIndex} {id : DocId} : m.isLive id = true ↔ id ∈ m.liveIds := by
  rw [MasterIndex.isLive, decide_eq_true_iff, mem_liveIds_iff]

/-- … the lookup finds it, … -/
theorem isLive_iff_offsetOf {m : MasterIndex} {id : DocId} :
    m.isLive id = true ↔ (m.offsetOf id).isSome := by
  rw [MasterIndex.isLive, decide_eq_true_iff, MasterIndex.offsetOf]
  by_cases hd : id ∈ m.dead
  · rw [if_pos hd]
    exact iff_of_false (fun hboth => hboth.2 hd) Bool.false_ne_true
  · rw [if_neg hd, Finmap.lookup_isSome]
    exact and_iff_left hd

/-- … and in a log there is a document to read. -/
theorem ValidLog.mem_liveIds_iff_find {l : Log} (h : ValidLog l) {id : DocId} :
    id ∈ (indexOf l).liveIds ↔ ∃ r, (tableOf l).find id = .ok r := by
  refine ⟨find_of_mem_liveIds h, ?_⟩
  rintro ⟨r, hr⟩
  have ht := h.tracks
  obtain ⟨hd, hlookup⟩ := DocTable.find_ok.mp hr
  rw [mem_liveIds_iff, ht.dead, ← ht.mem_docs]
  exact ⟨Finmap.mem_of_lookup_eq_some hlookup, hd⟩

/-- **Documents lie in the order of their ids.** In every world that a history leads to, an
open handle knows the ids from one up to the next it will hand out, and marks only such ids
deleted. An id is live by every account: `is_live`, `offset_of`, `live_ids` and
`read_record` agree. At each offset of the index – those of deleted documents included –
stands an intact record, behind the header region and before the end of the log; it ends
before that of any later id begins; and it lies before the live master record or behind the
committed log. -/
theorem documents_lie_in_order [Bson] {R : Regime} (hR : R.Covered) {w : World}
    (hw : Reachable R w) {e : StorageEngine} (he : w.handle = some e) :
    (∀ id, (id ∈ e.index.offsets ↔ 1 ≤ id.raw ∧ id.raw < e.index.nextDocId) ∧
      (id ∈ e.index.dead → id ∈ e.index.offsets)) ∧
    (∀ id, (e.index.isLive id = true ↔ id ∈ e.liveIds) ∧
      (e.index.isLive id = true ↔ (e.index.offsetOf id).isSome) ∧
      (e.index.isLive id = true ↔
        ∃ r, (e.readRecord id).run.exec w.disk = some (.ok r, w.disk))) ∧
    ∀ id off, e.index.offsets.lookup id = some off →
      ∃ r, (readRecordAt off).run.exec w.disk = some (.ok r, w.disk) ∧
        logStart ≤ off ∧ off.toNat + (9 + r.payload.length) ≤ e.endOffset.toNat ∧
        (∀ id' off', e.index.offsets.lookup id' = some off' → id.raw < id'.raw →
          off.toNat + (9 + r.payload.length) ≤ off'.toNat) ∧
        (e.header.masterLen ≠ 0 →
          off.toNat + (9 + r.payload.length) ≤ e.header.masterPtr.toNat ∨
            e.header.logEnd ≤ off) := by
  obtain ⟨l, log, h, hb⟩ := hw.open_backed hR he
  have ht := h.valid.tracks
  rw [h.index]
  refine ⟨fun id => ⟨?_, fun hd => ?_⟩, fun id => ?_, fun id off hoff => ?_⟩
  · rw [ht.mem, ← ht.next, UInt64.le_iff_toNat_le, UInt64.lt_iff_toNat_lt]
    exact Iff.rfl
  · exact Finmap.mem_keys.mp (ht.dead_sub hd)
  · refine ⟨?_, isLive_iff_offsetOf, ?_⟩
    · rw [isLive_iff_mem, StorageEngine.liveIds, h.index]
    · rw [(readRecord_returns h.valid h.index id).exec_eq hb.holds, isLive_iff_mem,
        h.valid.mem_liveIds_iff_find]
      simp only [Option.some.injEq, Prod.mk.injEq, and_true]
  · obtain ⟨r, pre, post, hr, hl, heq, hle⟩ := h.valid.offset_within hoff
    refine ⟨r, ?_, ?_, ?_, fun id' off' hoff' hlt => ?_, fun hpos => ?_⟩
    · have hv := h.valid
      have hholds := hb.holds
      rw [hl] at hv hholds
      exact (entry_returns hv heq).exec_eq hholds
    · rw [UInt64.le_iff_toNat_le, heq]
      exact le_tail pre
    · rw [h.endOffset]
      exact hle
    · exact h.valid.record_le hr hoff hoff' hlt
    · rw [UInt64.le_iff_toNat_le]
      exact h.valid.master_disjoint h.committed h.describes hpos hr hoff

/-- Three documents: the first is deleted, the second stands in front of the live master
record, and the third has been appended behind the committed log. -/
theorem documents_lie_in_order_third :
    letI := emptyDocuments
    ∃ d cs, Reachable crashes ⟨d, some thirdAppended, cs⟩ ∧
      (∀ id, id ∈ thirdAppended.index.offsets ↔ 1 ≤ id.raw ∧ id.raw < 4) ∧
      (thirdAppended.index.isLive ⟨1⟩ = false ∧ ∃ r, (readRecordAt 128).run.exec d =
        some (.ok r, d) ∧ 128 + (9 + r.payload.length) ≤ 138) ∧
      (thirdAppended.index.isLive ⟨2⟩ = true ∧ ∃ r, (readRecordAt 138).run.exec d =
        some (.ok r, d) ∧ 138 + (9 + r.payload.length) ≤ 165) ∧
      (thirdAppended.index.isLive ⟨3⟩ = true ∧ ∃ r, (readRecordAt 238).run.exec d =
        some (.ok r, d) ∧ 238 + (9 + r.payload.length) ≤ 248) := by
  let _ := emptyDocuments
  obtain ⟨d, cs, hw, -⟩ := reachable_third (R := crashes) trivial
  obtain ⟨hids, -, hrecord⟩ := documents_lie_in_order (Or.inr rfl) hw rfl
  have hindex : thirdAppended.index = firstBuried.index.allocateId.2.insert ⟨3⟩ 238 := by
    rw [← smallCommitted_logEnd]
    rfl
  rw [hindex] at hids hrecord ⊢
  obtain ⟨r₁, hread₁, -, -, hnext, -⟩ := hrecord ⟨1⟩ 128 (by decide)
  obtain ⟨r₂, hread₂, -, -, -, hmaster⟩ := hrecord ⟨2⟩ 138 (by decide)
  obtain ⟨r₃, hread₃, -, hend, -⟩ := hrecord ⟨3⟩ 238 (by decide)
  have hptr : thirdAppended.header.masterPtr = 165 := smallCommitted_master.1
  have hlen : thirdAppended.header.masterLen = 64 := smallCommitted_master.2
  have hlogEnd : thirdAppended.header.logEnd = 238 := smallCommitted_logEnd
  rw [hptr, hlogEnd, hlen] at hmaster
  rw [thirdAppended_endOffset] at hend
  have hfront := (hmaster (by decide)).resolve_right (by decide)
  exact ⟨d, cs, hw, fun id => (hids id).1,
    ⟨by decide, r₁, hread₁, hnext ⟨2⟩ 138 (by decide) (by decide)⟩,
    ⟨by decide, r₂, hread₂, hfront⟩, by decide, r₃, hread₃, hend⟩

end ContextDb
