import ContextDb.Durability
import ContextDb.Sharing

/-!
# The lifetime of a document

An id is unknown at first, then it may be given to a document, whose kind and payload
never change, and then the document may be deleted for good. Nothing else can be seen of
it, whoever looks and whenever (`ContextDb.Fate`) – as long as what is looked at is a log
and later a longer one (`ContextDb.ValidLog.fate`).

* Readers that open the file one after the other, next to a writer, see longer and
  longer logs: a later one sees every document in the same stage of its life or in a
  later one (`ContextDb.readers_are_monotonic`).
* What was committed is not taken back by crashes, and so an id that was committed is
  never handed out again (`ContextDb.ids_are_unique`). An id that was not committed may
  be, once its session is over.
* Under both lies that the log is only ever appended to: not a byte of what was committed
  is changed (`ContextDb.log_is_append_only`).
-/

namespace ContextDb

open ByteFile FileProg Prog StorageEngine

/-! ### Stages of a life -/

/-- **What can become of the answer to a request for a document**: what was unknown may be
anything later, what is live stays as it is or is deleted, and what is deleted stays
deleted. -/
inductive Fate (id : DocId) : Except CndbError Record → Except CndbError Record → Prop
  /-- The id was unknown. -/
  | unknown (b : Except CndbError Record) : Fate id (.error (.notFound id)) b
  /-- Nothing has changed. -/
  | same (a : Except CndbError Record) : Fate id a a
  /-- The document has been deleted. -/
  | deleted (r : Record) : Fate id (.ok r) (.error (.deleted id))

theorem Fate.trans {id : DocId} {a b c : Except CndbError Record} (h : Fate id a b)
    (h' : Fate id b c) : Fate id a c := by
  cases h with
  | unknown => exact .unknown c
  | same => exact h'
  | deleted r =>
    cases h' with
    | same => exact .deleted r

namespace ValidLog

variable {l l' : Log}

/-- **One more entry** changes the fate of one id at most. -/
theorem fate_snoc {e : Entry} (h : ValidLog (l ++ [e])) (id : DocId) :
    Fate id ((tableOf l).find id) ((tableOf (l ++ [e])).find id) := by
  cases hf : (tableOf l).find id with
  | ok r =>
    rcases h.find_snoc hf with heq | hdel
    · rw [heq]
      exact .same _
    · rw [hdel]
      exact .deleted r
  | error err =>
    rcases DocTable.find_error hf with rfl | rfl
    · exact .unknown _
    · have hdead := dead_subset (List.prefix_append l [e]) (DocTable.find_deleted.mp hf)
      rw [DocTable.find_deleted.mpr hdead]
      exact .same _

/-- **The fate of every id**, from a log to a longer one. -/
theorem fate (h : ValidLog l') (hp : l <+: l') (id : DocId) :
    Fate id ((tableOf l).find id) ((tableOf l').find id) := by
  obtain ⟨rest, rfl⟩ := hp
  induction rest using List.reverseRecOn with
  | nil =>
    rw [List.append_nil]
    exact .same _
  | append_singleton rest e ih =>
    rw [← List.append_assoc] at h ⊢
    exact (ih (h.of_isPrefix (List.prefix_append _ _))).trans (h.fate_snoc id)

/-- Ids are handed out upwards. -/
theorem nextDocId_le (hp : l <+: l') : (tableOf l).nextDocId ≤ (tableOf l').nextDocId := by
  obtain ⟨rest, rfl⟩ := hp
  induction rest using List.reverseRecOn with
  | nil => rw [List.append_nil]
  | append_singleton rest e ih =>
    rw [← List.append_assoc, tableOf_snoc]
    refine ih.trans ?_
    cases e with
    | doc r => exact Nat.le_succ _
    | tomb | master => exact le_rfl

/-- **The next id is unknown** to the log, and so to every log in front of it. -/
theorem find_nextId (h : ValidLog l') (hp : l <+: l') :
    (tableOf l).find (tableOf l').nextId = .error (.notFound (tableOf l').nextId) := by
  have ht := h.tracks
  have hnot : (tableOf l').nextId ∉ (tableOf l').docs := by
    rw [ht.mem_docs, ← ht.allocateId_fst]
    exact ht.fresh
  have hend : (tableOf l').find (tableOf l').nextId =
      .error (.notFound (tableOf l').nextId) := by
    have hdead : (tableOf l').nextId ∉ (tableOf l').dead := fun hd => by
      rw [← ht.dead] at hd
      exact hnot ((ht.mem_docs _).mpr (Finmap.mem_keys.mp (ht.dead_sub hd)))
    rw [DocTable.find, if_neg hdead, Finmap.lookup_eq_none.mpr hnot]
  -- whatever it was before, it is unknown still
  have hfate := h.fate hp (tableOf l').nextId
  rw [hend] at hfate
  generalize (tableOf l).find (tableOf l').nextId = a at hfate
  cases hfate with
  | unknown | same => rfl

end ValidLog

/-! ### Readers, one after the other -/

/-- **Readers are monotonic.** A reader opens the file at any instant of the work of a
writer. Whenever another one opens it after that, opening succeeds, and the second sees
the life of every document where the first saw it, or further on; it hands out no smaller
ids, and its log does not end earlier. If it ends where that of the first did, they see
the same database. -/
theorem readers_are_monotonic [Bson] {R : Regime} (hR : R.Covered) {w : World}
    (hw : Reachable R w) {x y : Writer × Disk}
    (hx : Relation.ReflTransGen Writes (.closed, w.disk) x) (hne : x.2.volatile ≠ [])
    {e : StorageEngine} {d : Disk} (hopen : openFile.run.exec x.2 = some (.ok e, d))
    (hy : Relation.ReflTransGen Writes x y) :
    ∃ e', openFile.run.exec y.2 = some (.ok e', y.2) ∧
      (∀ id, Fate id ((e.docState x.2.volatile).records id)
        ((e'.docState y.2.volatile).records id)) ∧
      e.index.nextDocId ≤ e'.index.nextDocId ∧ e.header.logEnd ≤ e'.header.logEnd ∧
      (e.header.logEnd = e'.header.logEnd →
        e.index = e'.index ∧ e.docState x.2.volatile = e'.docState y.2.volatile) := by
  obtain ⟨s, h, l, hl, hwr, rfl⟩ := writing_of_open hR hw hx hne hopen
  obtain ⟨l', hp, hwr'⟩ := hwr.steps hy
  obtain ⟨s', h', hl'⟩ := hwr'.live
  refine ⟨_, hl'.open_exec, ?_⟩
  rw [hl.docState, hl'.docState]
  have hnext := hl.valid.tracks.next
  have hnext' := hl'.valid.tracks.next
  have hend := hl.describes.logEnd_toNat
  have hend' := hl'.describes.logEnd_toNat
  refine ⟨hl'.valid.fate hp, ?_, ?_, fun heq => ?_⟩
  · change (indexOf l).nextDocId ≤ (indexOf l').nextDocId
    rw [UInt64.le_iff_toNat_le, hnext, hnext']
    exact ValidLog.nextDocId_le hp
  · change h.logEnd ≤ h'.logEnd
    rw [UInt64.le_iff_toNat_le, hend, hend']
    exact tail_le_of_isPrefix hp
  · have htail : tail l = tail l' := by
      rw [← hend, ← hend']
      exact congrArg UInt64.toNat heq
    obtain rfl := prefix_eq_of_tail_eq hp (List.prefix_refl l') htail
    exact ⟨rfl, rfl⟩

/-- Two readers of a small database, between which another document is stored and
committed. -/
theorem readers_are_monotonic_third :
    letI := emptyDocuments
    ∃ d d' e e', Relation.ReflTransGen Writes (.idle smallCommitted, d) (.idle thirdCommitted, d') ∧
      openFile.run.exec d = some (.ok e, d) ∧ openFile.run.exec d' = some (.ok e', d') ∧
      (∀ id, Fate id ((e.docState d.volatile).records id) ((e'.docState d'.volatile).records id)) ∧
      e.header.logEnd ≤ e'.header.logEnd ∧
      (e.docState d.volatile).records ⟨3⟩ = .error (.notFound ⟨3⟩) ∧
      (e'.docState d'.volatile).records ⟨3⟩ = .ok ⟨.blob, [9]⟩ := by
  let _ := emptyDocuments
  obtain ⟨d, d', hx, hy, hs, hs'⟩ := small_writes
  have hl := hs.live
  obtain ⟨e', hopen', hfate, -, hend, -⟩ := readers_are_monotonic (R := crashes) (Or.inr rfl)
    (reachable_created crashes) hx hl.ne_nil hl.open_exec hy
  refine ⟨d, d', _, e', hy, hl.open_exec, hopen', hfate, hend, ?_, ?_⟩
  · rw [hl.docState, tableOf_smallCommittedLog]
    exact find_small.2.2
  · have hopened := hs'.reopen_exec
    rw [hopen'] at hopened
    cases hopened
    rw [hs'.live.docState, thirdLog, tableOf_commitLog, tableOf_snoc, tableOf_smallCommittedLog]
    rfl

/-! ### Ids are handed out once -/

/-- **An id that is handed out** is the next one. -/
theorem Serves.id_eq [Bson] {F : Faults} {e e' : StorageEngine} {log log' : Log} {op : Op}
    {r : Except CndbError Reply} {id : DocId} (h : Serves F e log op r e' log')
    (hr : r = .ok (.id id)) : id = e.index.allocateId.1 := by
  induction h with
  | appended =>
    cases hr
    rfl
  | inserted _ _ ih => exact ih hr
  | @read id' =>
    cases hf : (tableOf log).find id' with
    | ok | error =>
      rw [hf] at hr
      cases hr
  | _ => cases hr

/-- The next id of a settled session is the next one of its log. -/
theorem Settled.handed_out [Bson] {F : Faults} {e e' : StorageEngine} {d d' : Disk} {l log : Log}
    {op : Op} {tr : Trace} {id : DocId} (hs : Settled e d.volatile l log)
    (hr : Runs F (op.prog e) d tr (.ok (.id id), e') d') : id = (tableOf log).nextId := by
  cases hop : op.isCommit with
  | false =>
    obtain ⟨-, log', hsv, -⟩ := hs.serve hop hr
    rw [hsv.id_eq rfl, hs.handle.index, hs.handle.valid.tracks.allocateId_fst]
  | true =>
    obtain ⟨order, rfl⟩ := Op.eq_commit hop
    obtain ⟨y, -, hy⟩ := (commit_serve_safe hs.handle order).runs hr
    cases y <;> cases hy

section Commit

variable [Bson] {d d₁ : Disk} {cs : List Issued} {e e₁ : StorageEngine} {order : IterOrder}
  {tr : Trace} {w : World} {H : Header} {L : Log}

/-- **A commit that has gone through is a base**: whatever follows guards the log it has
published. -/
theorem Reachable.guarded_of_commit (hw : Reachable crashes ⟨d, some e, cs⟩) (hd : e.dirty = true)
    (hr : Runs killedProcess ((Op.commit order).prog e) d tr (.ok .done, e₁) d₁) :
    ∃ l log, Settled e d.volatile l log ∧
      Settled e₁ d₁.volatile (commitLog e order log) (commitLog e order log) ∧
      Guarded (some (commitHeaderOf e order, commitLog e order log))
        ⟨d₁, some e₁, issued (e.docState d.volatile) true tr ++ cs⟩ := by
  have hguard := Reachable.guarded hw
  cases hguard with
  | @session _ _ _ l log hs hworthy =>
    obtain ⟨y, hc, hy⟩ := (commit_serve_safe hs.handle order).runs hr
    cases hc with
    | clean hclean =>
      rw [hd] at hclean
      cases hclean
    | refused | early | orphaned | torn => cases hy
    | done _ hp =>
      rw [issued_snoc hp.grows.1]
      have hs' := hs.publish hp
      have hbase : Worthy (some (commitHeaderOf e order, commitLog e order log)) _ (commitSlot e)
          (commitHeaderOf e order) (commitLog e order log) :=
        ⟨(hworthy.commit hs order true).attested, List.prefix_refl _, Or.inl ⟨rfl, rfl⟩⟩
      exact ⟨l, log, hs, hs', .session hs' hbase (.of_synced hs'.live hbase rfl)⟩

/-- **Ids are unique.** A commit has something to commit and returns `Ok`. Whatever
follows – requests, dropped sessions, kills, losses of power – an id that is handed out
then was unknown to the handle that committed. -/
theorem ids_are_unique {d₂ d₃ : Disk} {cs₂ : List Issued} {e₂ e₃ : StorageEngine} {tr' : Trace}
    {op : Op} {id : DocId} (hw : Reachable crashes ⟨d, some e, cs⟩) (hd : e.dirty = true)
    (hr : Runs killedProcess ((Op.commit order).prog e) d tr (.ok .done, e₁) d₁)
    (hlater : Relation.ReflTransGen (World.Step crashes)
      ⟨d₁, some e₁, issued (e.docState d.volatile) true tr ++ cs⟩ ⟨d₂, some e₂, cs₂⟩)
    (hop : Runs killedProcess (op.prog e₂) d₂ tr' (.ok (.id id), e₃) d₃) :
    (e.docState d.volatile).records id = .error (.notFound id) := by
  obtain ⟨l, log, hs, -, hguard⟩ := hw.guarded_of_commit hd hr
  have hguard' := hguard.steps hlater
  cases hguard' with
  | session hs₂ hworthy₂ =>
    have hprefix := hworthy₂.beyond.1.trans hs₂.handle.committed
    have hid := hs₂.handed_out hop
    rw [hs.docState, ← tableOf_commitLog e order log, hid]
    exact hs₂.handle.valid.find_nextId hprefix

/-! ### The log is append-only -/

omit [Bson] in
/-- **The log of a base stands** where it was written, for a reader and on the medium. -/
theorem Guarded.holds_base (hw : Guarded (some (H, L)) w) :
    Holds w.disk.volatile 128 (logBytes L) ∧ Holds w.disk.durable 128 (logBytes L) := by
  have hrooted : ∀ {d : Disk} {cs : List Issued} {l : Log}, Rooted (some (H, L)) cs d l →
      Holds d.durable 128 (logBytes L) := by
    intro d cs l hr
    cases hr with
    | anchored ha hw => exact holds_logBytes_of_isPrefix ha.durable.holds hw.beyond.1
    | fresh hb => cases hb
  cases hw with
  | session hs hw hr =>
    have hprefix := hw.beyond.1.trans hs.handle.committed
    exact ⟨holds_logBytes_of_isPrefix hs.backed.holds hprefix, hrooted hr⟩
  | rest hl hw hr => exact ⟨holds_logBytes_of_isPrefix hl.holds hw.beyond.1, hrooted hr⟩
  | unborn hb | broken hb => cases hb

/-- **The log is append-only.** A commit has something to commit and returns `Ok`. Whatever
follows – requests, dropped sessions, kills, losses of power – no byte of its log is ever
changed, neither as a reader sees it nor on the medium. -/
theorem log_is_append_only (hw : Reachable crashes ⟨d, some e, cs⟩) (hd : e.dirty = true)
    (hr : Runs killedProcess ((Op.commit order).prog e) d tr (.ok .done, e₁) d₁)
    (hlater : Relation.ReflTransGen (World.Step crashes)
      ⟨d₁, some e₁, issued (e.docState d.volatile) true tr ++ cs⟩ w)
    {i : ℕ} (hlo : 128 ≤ i) (hhi : i < e₁.header.logEnd.toNat) :
    w.disk.volatile[i]? = d₁.volatile[i]? ∧ w.disk.durable[i]? = d₁.volatile[i]? := by
  obtain ⟨l, log, -, hs', hguard⟩ := hw.guarded_of_commit hd hr
  obtain ⟨hvolatile, hdurable⟩ := (hguard.steps hlater).holds_base
  have hfirst := hs'.backed.holds
  rw [hs'.handle.describes.logEnd_toNat, tail_eq] at hhi
  obtain ⟨b, hb⟩ : ∃ b, (logBytes (commitLog e order log))[i - 128]? = some b :=
    ⟨_, List.getElem?_eq_getElem (by omega)⟩
  have hi : 128 + (i - 128) = i := by omega
  have hv := hvolatile _ _ hb
  have hdur := hdurable _ _ hb
  have hf := hfirst _ _ hb
  rw [hi] at hv hdur hf
  exact ⟨hv.trans hf.symm, hdur.trans hf.symm⟩

end Commit

/-- The second document of a new database, after a commit of the first. -/
theorem ids_are_unique_second :
    letI := emptyDocuments
    ∃ d d₁ d₂ tr tr', Runs killedProcess ((Op.commit .listed).prog firstAppended) d tr
        (.ok .done, firstCommitted) d₁ ∧
      (∃ e₃, Runs killedProcess ((Op.append .blob [8]).prog firstCommitted) d₁ tr'
        (.ok (.id ⟨2⟩), e₃) d₂) ∧
      (firstAppended.docState d.volatile).records ⟨2⟩ = .error (.notFound ⟨2⟩) := by
  let _ := emptyDocuments
  obtain ⟨d, d₁, h₁, h₂, -⟩ := first_document (d := .ofImage newRegion) settled_created
  have hend : firstCommitted.endOffset.toNat = 187 := congrArg UInt64.toNat firstCommitted_logEnd
  obtain ⟨d₂, h₃⟩ := append_exec (e := firstCommitted) (d := d₁) .blob [8] (by decide)
    (by rw [hend]; decide)
  obtain ⟨tr₁, hr₁⟩ := runs_of_exec (F := killedProcess) h₁
  obtain ⟨tr₂, hr₂⟩ := runs_of_exec (F := killedProcess) h₂
  obtain ⟨tr₃, hr₃⟩ := runs_of_exec (F := killedProcess) h₃
  have hw := (reachable_created crashes).tail
    (.serve (show Op.Allowed _ (.append .blob [7]) from trivial) hr₁)
  exact ⟨d, d₁, d₂, tr₂, tr₃, hr₂, ⟨_, hr₃⟩, ids_are_unique hw rfl hr₂ .refl hr₃⟩

/-- The last byte of the first commit of a new database, when another document is appended. -/
theorem log_is_append_only_second :
    letI := emptyDocuments
    ∃ d d₁ d₂ tr r, Runs killedProcess ((Op.commit .listed).prog firstAppended) d tr
        (.ok .done, firstCommitted) d₁ ∧
      ((Op.append .blob [8]).prog firstCommitted).exec d₁ = some (r, d₂) ∧
      d₂.volatile[186]? = d₁.volatile[186]? ∧ d₂.durable[186]? = d₁.volatile[186]? := by
  let _ := emptyDocuments
  obtain ⟨d, d₁, h₁, h₂, -⟩ := first_document (d := .ofImage newRegion) settled_created
  have hend : firstCommitted.endOffset.toNat = 187 := congrArg UInt64.toNat firstCommitted_logEnd
  obtain ⟨d₂, h₃⟩ := append_exec (e := firstCommitted) (d := d₁) .blob [8] (by decide)
    (by rw [hend]; decide)
  obtain ⟨tr₁, hr₁⟩ := runs_of_exec (F := killedProcess) h₁
  obtain ⟨tr₂, hr₂⟩ := runs_of_exec (F := killedProcess) h₂
  obtain ⟨tr₃, hr₃⟩ := runs_of_exec (F := killedProcess) h₃
  have hw := (reachable_created crashes).tail
    (.serve (show Op.Allowed _ (.append .blob [7]) from trivial) hr₁)
  have hlater : Relation.ReflTransGen (World.Step crashes)
      ⟨d₁, some firstCommitted, issued (firstAppended.docState d.volatile) true tr₂ ++
        (issued (created.docState newRegion) true tr₁ ++ [])⟩ ⟨d₂, _, _⟩ :=
    .single (.serve (show Op.Allowed _ (.append .blob [8]) from trivial) hr₃)
  have hlt : 186 < firstCommitted.header.logEnd.toNat := by
    rw [firstCommitted_logEnd]
    decide
  exact ⟨d, d₁, d₂, tr₂, _, hr₂, h₃, log_is_append_only hw rfl hr₂ hlater (by decide) hlt⟩

end ContextDb
