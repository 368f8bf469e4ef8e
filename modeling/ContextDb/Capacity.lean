import ContextDb.Sequential

/-!
# When a commit goes through

A commit appends the whole serialized index like any other record, and so under
the size guard of a document. With `n` documents ever stored and `m` of them
deleted the index takes `24 + 16 * n + 8 * m` bytes; a commit that has something
to commit goes through exactly as long as these are no more than the guard lets
pass (`ContextDb.commit_succeeds_iff`).

`append` has no such guard on the number of documents. After `4194303` empty
ones – a file of some forty megabytes – nothing can be committed any more
(`ContextDb.commit_refused_after_appends`).
-/

namespace ContextDb

open ByteFile FileProg Prog StorageEngine

section Commit

variable [Bson] {e : StorageEngine} {d : Disk} {order : IterOrder}

/-- **A commit whose index does not fit in a record** is refused. -/
theorem commit_exec_refused (hd : e.dirty = true)
    (hlen : maxRecordLen.toNat < e.index.encodedLen) :
    ((Op.commit order).prog e).exec d = some ((.error (.recordTooLarge e.endOffset
      (UInt64.ofNat e.index.encodedLen) maxRecordLen), e), d.sync) := by
  rw [← MasterIndex.length_serialize order] at hlen
  rw [Op.prog, EngineM.reply, commit_run, if_pos hd, appendRaw_run, if_pos hlen,
    ← MasterIndex.length_serialize order]
  rfl

end Commit

/-- **When a commit goes through.** Where the file has room for what it writes, a
commit returns. It returns `Ok`, and what the handle shows is what reopening
shows, if and only if there is nothing to commit or the index fits in a
record. -/
theorem commit_succeeds_iff [Bson] {tr : List (Request × Except CndbError Reply)}
    {x : StorageEngine × Disk} (h : EngineRun newStore tr x) (order : IterOrder) :
    (x.1.endOffset.toNat + (9 + x.1.index.encodedLen) ≤ maxFileLen →
      ∃ y, ((Op.commit order).prog x.1).exec x.2 = some y) ∧
    ∀ r e' d', ((Op.commit order).prog x.1).exec x.2 = some ((r, e'), d') →
      ((r = .ok .done ∧ ∃ e'', openFile.run.exec d' = some (.ok e'', d') ∧
          e''.docState d'.volatile = x.1.docState x.2.volatile) ↔
        x.1.dirty = false ∨
          24 + 16 * x.1.index.offsets.keys.card + 8 * x.1.index.dead.card ≤
            maxRecordLen.toNat) := by
  obtain ⟨e, d⟩ := x
  obtain ⟨l, log, hs⟩ := h.settled
  refine ⟨fun hfit => ?_, fun r e' d' hc => ?_⟩
  · cases hd : e.dirty with
    | false =>
      rw [commit_prog_clean order hd]
      exact ⟨_, rfl⟩
    | true =>
      rcases Nat.lt_or_ge maxRecordLen.toNat e.index.encodedLen with hlt | hle
      · exact ⟨_, commit_exec_refused hd hlt⟩
      · obtain ⟨d', hc⟩ := commit_exec (d := d) order hd hle hfit
        exact ⟨_, hc⟩
  · rcases hs.commit_exec_cases hc with ⟨hd, rfl, rfl, rfl⟩ | ⟨hd, hmax, rfl, -⟩ |
      ⟨hd, hlen, rfl, rfl, tr₁, d₁, hp, rfl⟩
    · -- a clean handle shows what is committed
      obtain rfl := hs.handle.eq_of_clean hd
      refine iff_of_true ⟨rfl, _, hs.reopen_exec, ?_⟩ (Or.inl hd)
      rw [(Settled.of_live hs.live).docState, hs.docState]
    · refine iff_of_false (fun hok => ?_) ?_
      · cases hok.1
      · rintro (hclean | hle)
        · rw [hd] at hclean
          cases hclean
        · exact Nat.not_le_of_lt hmax hle
    · have hs' := hs.publish hp
      refine iff_of_true ⟨rfl, _, hs'.reopen_exec, ?_⟩ (Or.inr hlen)
      rw [(Settled.of_live hs'.live).docState, hs.docState, tableOf_commitLog]

/-- The commit of two documents, one of which has been deleted. -/
theorem commit_succeeds_iff_small :
    letI := emptyDocuments
    ∃ d d' e, EngineRun newStore [(.op (.append .blob [7]), .ok (.id ⟨1⟩)),
        (.op (.append .blob [8]), .ok (.id ⟨2⟩)), (.op (.tombstone ⟨1⟩), .ok .done)]
        (firstBuried, d) ∧
      firstBuried.dirty = true ∧ firstBuried.index.encodedLen = 24 + 16 * 2 + 8 * 1 ∧
      ((Op.commit .listed).prog firstBuried).exec d = some ((.ok .done, smallCommitted), d') ∧
      openFile.run.exec d' = some (.ok e, d') ∧
      e.docState d'.volatile = firstBuried.docState d.volatile := by
  let _ := emptyDocuments
  obtain ⟨d, hrun, hs, hlen⟩ := small_run
  obtain ⟨d', hcommit, -⟩ := small_commit hs hlen
  have hsize : firstBuried.index.encodedLen = 24 + 16 * 2 + 8 * 1 := by decide
  have hfits : firstBuried.index.encodedLen ≤ maxRecordLen.toNat := by
    rw [hsize]
    decide
  obtain ⟨-, e, hopen, hstate⟩ :=
    ((commit_succeeds_iff hrun .listed).2 _ _ _ hcommit).mpr (Or.inr hfits)
  exact ⟨d, d', e, hrun, rfl, hsize, hcommit, hopen, hstate⟩

/-! ### Too many documents -/

/-- A log of empty documents. -/
def emptyDocs (n : ℕ) : Log := List.replicate n (.doc ⟨.blob, []⟩)

theorem emptyDocs_succ (n : ℕ) : emptyDocs (n + 1) = emptyDocs n ++ [.doc ⟨.blob, []⟩] :=
  List.replicate_succ'

theorem tail_emptyDocs (n : ℕ) : tail (emptyDocs n) = 128 + 9 * n := by
  induction n with
  | zero => rfl
  | succ n ih =>
    rw [emptyDocs_succ, tail_snoc, ih]
    rfl

theorem tableOf_emptyDocs (n : ℕ) :
    (tableOf (emptyDocs n)).nextDocId = n + 1 ∧ (tableOf (emptyDocs n)).dead = ∅ := by
  induction n with
  | zero => exact ⟨rfl, rfl⟩
  | succ n ih =>
    rw [emptyDocs_succ, tableOf_snoc]
    exact ⟨congrArg (· + 1) ih.1, ih.2⟩

/-- **The size of their index.** -/
theorem encodedLen_emptyDocs {e : StorageEngine} {l : Log} {n : ℕ}
    (h : Handle e l (emptyDocs n)) : e.index.encodedLen = 24 + 16 * n := by
  have ht := h.valid.tracks
  have hcard := ht.card
  rw [(tableOf_emptyDocs n).1] at hcard
  rw [MasterIndex.encodedLen, h.index, ht.dead, (tableOf_emptyDocs n).2, Finset.card_empty]
  omega

/-- **Any number of empty documents is accepted**, as long as the file has room
for them. -/
theorem appends_run [Bson] {n : ℕ} (hn : 128 + 9 * n ≤ maxFileLen) :
    ∃ tr x, EngineRun newStore tr x ∧ Settled x.1 x.2.volatile [] (emptyDocs n) ∧
      (∀ q ∈ tr, q.1 = .op (.append .blob []) ∧ ∃ id, q.2 = .ok (.id id)) ∧ tr.length = n ∧
      (0 < n → x.1.dirty = true) := by
  induction n with
  | zero =>
    refine ⟨[], newStore, .nil _, settled_created, fun q hq => ?_, rfl, fun h => ?_⟩
    · cases hq
    · exact (lt_irrefl _ h).elim
  | succ n ih =>
    obtain ⟨tr, ⟨e, d⟩, hrun, hs, htr, hlen, -⟩ := ih (by omega)
    have hend := hs.handle.endOffset
    rw [tail_emptyDocs] at hend
    obtain ⟨d', hexec⟩ := append_exec (e := e) (d := d) .blob [] (Nat.zero_le _)
      (by rw [hend, List.length_nil]; omega)
    obtain ⟨log', hsv, hs'⟩ := hs.serve_exec rfl hexec
    have hlog : log' = emptyDocs (n + 1) := by
      rw [emptyDocs_succ]
      cases hsv
      rfl
    subst hlog
    refine ⟨_, _, hrun.snoc (.op hexec), hs', fun q hq => ?_, ?_, fun _ => rfl⟩
    · rcases List.mem_append.mp hq with hq | hq
      · exact htr q hq
      · obtain rfl := List.mem_singleton.mp hq
        exact ⟨rfl, _, rfl⟩
    · rw [List.length_append, hlen]
      rfl

/-- **A database that cannot be committed**: a run of `4194303` appends of empty
documents, all accepted, after which commit is refused in whichever order the
hash tables are iterated. -/
theorem commit_refused_after_appends :
    letI := emptyDocuments
    ∃ tr x, EngineRun newStore tr x ∧
      (∀ q ∈ tr, q.1 = .op (.append .blob []) ∧ ∃ id, q.2 = .ok (.id id)) ∧
      tr.length = 4194303 ∧
      ∀ order, ∃ err e' d',
        ((Op.commit order).prog x.1).exec x.2 = some ((.error err, e'), d') := by
  let _ := emptyDocuments
  obtain ⟨tr, x, hrun, hs, htr, hlen, hdirty⟩ := appends_run (n := 4194303) (by decide)
  refine ⟨tr, x, hrun, htr, hlen, fun order => ⟨_, _, _, commit_exec_refused ?_ ?_⟩⟩
  · exact hdirty (by omega)
  · rw [encodedLen_emptyDocs hs.handle]
    decide

end ContextDb
