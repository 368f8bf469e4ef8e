import ContextDb.Files

/-!
# Truncated files

A file that has been cut off is never half-read. Nothing that is live lies at or
behind the end of the live log, so a file cut off there or later opens as the
whole file does, with the same handle and the same documents. Cut off anywhere
before, it is refused – except where nothing is left of it, which is a database
that has not been created (`ContextDb.truncated_file_opens_iff`).

An older log that is complete in what is left is not enough: its header may be
intact in the other slot, but it is the newer header that is selected, and that
one asks for more than there is.
-/

namespace ContextDb

open ByteFile FileProg Prog StorageEngine

section Live

variable {v : Bytes} {s : Slot} {h : Header} {l : Log} {n : ℕ}

/-- **A live log outlives the bytes behind it.** -/
theorem Live.take (hl : Live v s h l) (hn : tail l ≤ n) : Live (v.take n) s h l := by
  have h128 : 128 ≤ n := (le_tail l).trans hn
  refine ⟨?_, (slotBytes_take h128 v s).trans hl.slot, hl.describes, hl.valid, ?_, fun h' hh' => ?_⟩
  · have hlen := hl.length_le
    rw [List.length_take]
    omega
  · exact hl.holds.take (by rwa [tail_eq] at hn)
  · rw [decodedSlots_congr (slotBytes_take h128 v _)] at hh'
    rw [slotBytes_take h128]
    exact hl.older h' hh'

/-- **A file cut off inside its live log is refused.** -/
theorem Live.truncated (hl : Live v s h l) (hpos : 0 < n) (hn : n < tail l) :
    ∃ err, openFile.run.Returns (fun w => w = v.take n) (.error err) := by
  have hle := hl.tail_le
  have hlen : (v.take n).length = n := by
    rw [List.length_take]
    omega
  rcases Nat.lt_or_ge n 128 with hshort | h128
  · refine Unreadable.returns (Or.inl (by omega)) (List.ne_nil_of_length_pos (by omega))
  · have hsel : selectLive (decodedSlots ((v.take n).take 128)) = .ok (h, s) := by
      rw [List.take_take, Nat.min_eq_left h128, decodedSlots_take]
      exact hl.selectLive_eq
    have hlt : n < h.logEnd.toNat := by
      rw [hl.describes.logEnd_toNat]
      exact hn
    refine ⟨.unexpectedEof (UInt64.ofNat n) h.logEnd, ?_⟩
    rw [openFile_run]
    rintro w rfl
    rw [hlen]
    simp only
    rw [if_pos (show n > 0 from hpos), load_run, if_neg (Nat.not_lt_of_le h128)]
    rintro x rfl
    rw [readAt_region (by omega)]
    simp only
    rw [recover_eof hsel hlt]
    exact rfl

/-- The handle of a file cut off behind its live log. -/
theorem Live.opens_take_iff (hl : Live v s h l) (hn : tail l ≤ n) {e : StorageEngine} :
    Opens (v.take n) e ↔ e = opened (decodedSlots v) s h l := by
  rw [(hl.take hn).opens_iff, decodedSlots_take_of_le ((le_tail l).trans hn)]

/-- What is left of a file without a database is none. -/
theorem Unreadable.take (hu : Unreadable v) (n : ℕ) : Unreadable (v.take n) := by
  rcases Nat.lt_or_ge n 128 with hn | hn
  · refine Or.inl ?_
    rw [List.length_take]
    omega
  · rcases hu with hshort | hbad
    · refine Or.inl ?_
      rw [List.length_take]
      omega
    · refine Or.inr fun t => ?_
      rw [decodedSlots_take_of_le hn]
      exact hbad t

/-- **A file without a database** is shorter than the log of anything it opens
as. -/
theorem Unreadable.lt_logEnd (hu : Unreadable v) {e : StorageEngine} (he : Opens v e) :
    v.length < e.header.logEnd.toNat := by
  rcases eq_or_ne v [] with rfl | hne
  · obtain ⟨d, hd⟩ := he
    rw [openFile_exec_new] at hd
    cases hd
    decide
  · obtain ⟨err, hret⟩ := hu.returns hne
    exact absurd he (not_opens_of_returns hret)

end Live

/-- **A live document is read.** -/
theorem find_of_mem_liveIds {l : Log} (hv : ValidLog l) {id : DocId}
    (hid : id ∈ (indexOf l).liveIds) : ∃ r, (tableOf l).find id = .ok r := by
  rw [MasterIndex.liveIds, Finset.mem_filter, Finmap.mem_keys, hv.tracks.dead] at hid
  have hdoc : id ∈ (tableOf l).docs := (hv.tracks.mem_docs id).mpr hid.1
  obtain ⟨r, hr⟩ := Option.isSome_iff_exists.mp (Finmap.lookup_isSome.mpr hdoc)
  exact ⟨r, DocTable.find_ok.mpr ⟨hid.2, hr⟩⟩

/-- **When a truncated file opens.** Cut off after `n` bytes, a reachable file
opens if and only if nothing is left of it or its live log is. In the first case
it is the empty database. In the second it opens with the handle of the whole
file and shows the same documents; `verify` succeeds, and every live document is
read back. -/
theorem truncated_file_opens_iff [Bson] {R : Regime} (hR : R.Covered) {w : World}
    (hw : Reachable R w) {n : ℕ} (hn : n ≤ w.disk.volatile.length) :
    ((∃ e, Opens (w.disk.volatile.take n) e) ↔
      n = 0 ∨ ∃ e, Opens w.disk.volatile e ∧ e.header.logEnd.toNat ≤ n) ∧
    (n = 0 → openFile.run.exec (.ofImage (w.disk.volatile.take n)) =
      some (.ok created, .ofImage newRegion)) ∧
    ∀ e, Opens w.disk.volatile e → e.header.logEnd.toNat ≤ n →
      (∀ e', Opens (w.disk.volatile.take n) e' ↔ e' = e) ∧
      e.docState (w.disk.volatile.take n) = e.docState w.disk.volatile ∧
      (∃ k, e.verify.run.exec (.ofImage (w.disk.volatile.take n)) =
        some (.ok k, .ofImage (w.disk.volatile.take n))) ∧
      ∀ id ∈ e.liveIds, ∃ r,
        (e.readRecord id).run.exec (.ofImage w.disk.volatile) =
          some (.ok r, .ofImage w.disk.volatile) ∧
        (e.readRecord id).run.exec (.ofImage (w.disk.volatile.take n)) =
          some (.ok r, .ofImage (w.disk.volatile.take n)) := by
  have hzero : n = 0 → openFile.run.exec (.ofImage (w.disk.volatile.take n)) =
      some (.ok created, .ofImage newRegion) := by
    rintro rfl
    rw [List.take_zero]
    exact openFile_exec_new
  rcases hw.live_or_unreadable hR with ⟨s, h, l, hl⟩ | hu
  · refine ⟨⟨fun ⟨e, he⟩ => ?_, ?_⟩, hzero, fun e he hle => ?_⟩
    · -- cut off inside the live log, the file does not open
      rcases Nat.eq_zero_or_pos n with h0 | hpos
      · exact Or.inl h0
      · refine Or.inr ⟨_, hl.opens_iff.mpr rfl, ?_⟩
        by_contra hlt
        obtain ⟨err, hret⟩ := hl.truncated hpos (by
          rw [← hl.describes.logEnd_toNat]
          exact Nat.lt_of_not_le hlt)
        exact not_opens_of_returns hret he
    · rintro (h0 | ⟨e, he, hle⟩)
      · exact ⟨created, _, hzero h0⟩
      · obtain rfl := hl.opens_iff.mp he
        have htail : tail l ≤ n := by
          rw [← hl.describes.logEnd_toNat]
          exact hle
        exact ⟨_, (hl.opens_take_iff htail).mpr rfl⟩
    · -- cut off behind it, the log is live as it was
      obtain rfl := hl.opens_iff.mp he
      have htail : tail l ≤ n := by
        rw [← hl.describes.logEnd_toNat]
        exact hle
      have hcut := hl.take htail
      refine ⟨fun e' => hl.opens_take_iff htail, ?_, ⟨l.length, ?_⟩, fun id hid => ?_⟩
      · rw [hcut.docState, hl.docState]
      · exact (verify_returns hl.valid hl.describes.logEnd_toNat).exec_eq hcut.holds
      · obtain ⟨r, hr⟩ := find_of_mem_liveIds hl.valid hid
        have hret := readRecord_returns hl.valid
          (show (opened (decodedSlots w.disk.volatile) s h l).index = indexOf l from rfl) id
        rw [hr] at hret
        exact ⟨r, hret.exec_eq hl.holds, hret.exec_eq hcut.holds⟩
  · have hno : ∀ e, Opens w.disk.volatile e → ¬e.header.logEnd.toNat ≤ n := fun e he hle => by
      have hlt := hu.lt_logEnd he
      omega
    refine ⟨⟨fun ⟨e, he⟩ => Or.inl ?_, ?_⟩, hzero, fun e he hle => absurd hle (hno e he)⟩
    · by_contra h0
      have hne : w.disk.volatile.take n ≠ [] := by
        refine List.ne_nil_of_length_pos ?_
        rw [List.length_take]
        omega
      obtain ⟨err, hret⟩ := (hu.take n).returns hne
      exact not_opens_of_returns hret he
    · rintro (h0 | ⟨e, he, hle⟩)
      · exact ⟨created, _, hzero h0⟩
      · exact absurd hle (hno e he)

/-- A committed file with another document behind its log, cut off inside the log, at its
end, and inside the document. -/
theorem truncated_file_opens_iff_committed :
    letI := emptyDocuments
    ∃ d cs e, Reachable crashes ⟨d, some thirdAppended, cs⟩ ∧ Opens d.volatile e ∧
      (e.docState d.volatile).records ⟨2⟩ = .ok ⟨.blob, [8]⟩ ∧
      (¬∃ e', Opens (d.volatile.take 237) e') ∧
      ((∀ e', Opens (d.volatile.take 238) e' ↔ e' = e) ∧
        e.docState (d.volatile.take 238) = e.docState d.volatile) ∧
      (∀ e', Opens (d.volatile.take 247) e' ↔ e' = e) ∧
      e.docState (d.volatile.take 247) = e.docState d.volatile := by
  let _ := emptyDocuments
  obtain ⟨d, cs, hw, hs⟩ := reachable_third (R := crashes) trivial
  have hl := hs.live
  have hopens := hl.opens_iff.mpr rfl
  have hlen : 247 ≤ d.volatile.length := by
    have hle := hs.backed.tail_le
    rw [← hs.handle.endOffset, thirdAppended_endOffset] at hle
    omega
  have htrunc (n : ℕ) (hn : n ≤ 247) :=
    truncated_file_opens_iff (R := crashes) (Or.inr rfl) hw (hn.trans hlen)
  have hlogEnd : smallCommitted.header.logEnd.toNat = 238 :=
    congrArg UInt64.toNat smallCommitted_logEnd
  refine ⟨d, _, _, hw, hopens, ?_, fun hopen => ?_, ?_, ?_⟩
  · rw [hl.docState, tableOf_smallCommittedLog]
    exact find_small.2.1
  · rcases (htrunc 237 (by decide)).1.mp hopen with h0 | ⟨e, he, hle⟩
    · exact absurd h0 (by decide)
    · obtain rfl := hl.opens_iff.mp he
      exact absurd (hlogEnd.symm.trans_le hle) (by decide)
  · obtain ⟨hend, hshow, -⟩ := (htrunc 238 (by decide)).2.2 _ hopens hlogEnd.le
    exact ⟨hend, hshow⟩
  · obtain ⟨hend, hshow, -⟩ := (htrunc 247 le_rfl).2.2 _ hopens (hlogEnd.trans_le (by decide))
    exact ⟨hend, hshow⟩

end ContextDb
