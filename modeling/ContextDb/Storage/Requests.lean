import ContextDb.Storage.Session

/-!
# Serving a request

What a request does to a session. `ContextDb.Serves` lists every way in which a
request other than a commit may be served, as a relation between the handle and
the current log before and after it: the image of the file does not appear in
it. `ContextDb.serve_safe` is the connection to the programs – on a backed
handle each of them is served in one of these ways, writing to the log only –
and `ContextDb.commit_serve_safe` is the same for a commit, whose ways of ending
are those of `ContextDb.Committed`.
-/

namespace ContextDb

open ByteFile FileProg Prog StorageEngine

/-- Whether a request is a commit. -/
def Op.isCommit : Op → Bool
  | .commit _ => true
  | _ => false

/-- A request that is a commit. -/
theorem Op.eq_commit {op : Op} (hop : op.isCommit = true) : ∃ order, op = .commit order := by
  cases op with
  | commit order => exact ⟨order, rfl⟩
  | _ => cases hop

/-- The kinds of documents a request appends are allowed. -/
def Op.Allowed (kinds : RecordKind → Prop) : Op → Prop
  | .append kind _ => kinds kind
  | .insert _ => kinds .blob
  | _ => True

section Serves

variable [Bson] (F : Faults) (e : StorageEngine) (log : Log)

/-- **How a request other than a commit is served**: the reply, the handle and
the current log it leaves. -/
inductive Serves : Op → Except CndbError Reply → StorageEngine → Log → Prop
  /-- A document has been appended. -/
  | appended {kind : RecordKind} {payload : Bytes} (hlen : payload.length ≤ maxRecordLen.toNat)
      (hfit : e.endOffset.toNat + (9 + payload.length) ≤ maxFileLen) :
      Serves (.append kind payload) (.ok (.id e.index.allocateId.1))
        ((e.appended payload.length).inserted e.endOffset) (log ++ [.doc ⟨kind, payload⟩])
  /-- A payload is over the limit. -/
  | tooLarge {kind : RecordKind} {payload : Bytes} (hlen : maxRecordLen.toNat < payload.length) :
      Serves (.append kind payload) (.error (.recordTooLarge e.endOffset
        (UInt64.ofNat payload.length) maxRecordLen)) e log
  /-- A write of an append failed. -/
  | appendFailed {kind : RecordKind} {payload : Bytes} (hf : F.CanFail) :
      Serves (.append kind payload) (.error (.io .fault)) e log
  /-- A JSON object is appended as its encoding. -/
  | inserted {doc : Value} {bytes : Bytes} {r : Except CndbError Reply} {e' : StorageEngine}
      {log' : Log} (hb : toBsonBytes doc = .ok bytes)
      (h : Serves (.append .blob bytes) r e' log') : Serves (.insert doc) r e' log'
  /-- A JSON value has no encoding. -/
  | notInserted {doc : Value} {err : CndbError} (hb : toBsonBytes doc = .error err) :
      Serves (.insert doc) (.error err) e log
  /-- A document has been deleted. -/
  | buried {id : DocId} (hid : id ∈ e.index.offsets) (hd : id ∉ e.index.dead)
      (hfit : e.endOffset.toNat + (9 + 8) ≤ maxFileLen) :
      Serves (.tombstone id) (.ok .done) ((e.appended 8).buried id) (log ++ [.tomb id])
  /-- A document had been deleted before. -/
  | deleted {id : DocId} (hd : id ∈ e.index.dead) :
      Serves (.tombstone id) (.error (.deleted id)) e log
  /-- There is no such document. -/
  | notFound {id : DocId} (hd : id ∉ e.index.dead) (hid : id ∉ e.index.offsets) :
      Serves (.tombstone id) (.error (.notFound id)) e log
  /-- A write of a deletion failed. -/
  | buryFailed {id : DocId} (hf : F.CanFail) :
      Serves (.tombstone id) (.error (.io .fault)) e log
  /-- A document has been asked for. -/
  | read {id : DocId} : Serves (.readRecord id) (((tableOf log).find id).map .record) e log
  /-- The number of live documents has been asked for. -/
  | len : Serves .len (.ok (.count e.len)) e log
  /-- The live ids have been asked for. -/
  | liveIds : Serves .liveIds (.ok (.ids e.liveIds)) e log

end Serves

namespace Serves

variable [Bson] {F : Faults} {e e' : StorageEngine} {l log log' : Log} {op : Op}
  {r : Except CndbError Reply}

/-- **A request keeps the invariant of the handle.** -/
theorem handle (hs : Serves F e log op r e' log') (h : Handle e l log) : Handle e' l log' := by
  induction hs with
  | appended hlen hfit => exact h.append_doc (r := ⟨_, _⟩) hlen hfit
  | buried hid hd hfit => exact h.bury hid hd hfit
  | inserted _ _ ih => exact ih
  | _ => exact h

/-- **A request that fails leaves no trace** in the handle. -/
theorem eq_of_error (hs : Serves F e log op r e' log') {err : CndbError} (hr : r = .error err) :
    e' = e ∧ log' = log := by
  induction hs with
  | appended | buried => cases hr
  | inserted _ _ ih => exact ih hr
  | _ => exact ⟨rfl, rfl⟩

/-- Only a commit changes the header and the slots. -/
theorem header_eq (hs : Serves F e log op r e' log') :
    e'.header = e.header ∧ e'.slots = e.slots ∧ e'.liveSlot = e.liveSlot := by
  induction hs with
  | inserted _ _ ih => exact ih
  | _ => exact ⟨rfl, rfl, rfl⟩

/-- A log only grows. -/
theorem prefix_log (hs : Serves F e log op r e' log') : log <+: log' := by
  induction hs with
  | appended | buried => exact List.prefix_append _ _
  | inserted _ _ ih => exact ih
  | _ => exact List.prefix_refl _

/-- A request appends documents of the kinds that are allowed. -/
theorem ofKinds {K : RecordKind → Prop} (hs : Serves F e log op r e' log') (hop : op.Allowed K)
    (hk : OfKinds K log) : OfKinds K log' := by
  induction hs with
  | appended => exact hk.doc hop
  | inserted _ _ ih => exact ih hop
  | buried => exact hk.tomb _
  | _ => exact hk

end Serves

/-! ### The programs of the requests -/

section Programs

variable [Bson] {F : Faults} {e : StorageEngine} {l log : Log} {d : Disk}

/-- Where a request other than a commit may be stopped, and how it ends. -/
abbrev ServeSafe (F : Faults) (e : StorageEngine) (l log : Log) (d : Disk) (op : Op) : Prop :=
  (op.prog e).Safe F (fun tr d' => LogGrows (tail log) d tr d')
    (fun _ x d' => ∃ log', Serves F e log op x.1 x.2 log' ∧
      Backed d'.volatile e.liveSlot e.header l log') [] d

theorem append_serve_safe (h : Handle e l log)
    (hb : Backed d.volatile e.liveSlot e.header l log) (kind : RecordKind) (payload : Bytes) :
    ServeSafe F e l log d (.append kind payload) := by
  have happ := appendRaw_safe F ⟨kind, payload⟩ d h.le_endOffset h.endOffset_le
  rw [h.endOffset] at happ
  rw [ServeSafe, Op.prog, EngineM.reply, append_run]
  refine Safe.bind (Safe.bind (happ.mono (fun _ _ hg => hg) ?_))
  rintro tr x d' hg hx
  cases hx with
  | refused hlen => exact ⟨hg, hg, log, .tooLarge hlen, hb.grow hg.2⟩
  | failed hf => exact ⟨hg, hg, log, .appendFailed hf, hb.grow hg.2⟩
  | done hlen hfit hend hh =>
    rw [h.endOffset] at hh
    exact ⟨hg, hg, _, .appended hlen hfit, (hb.grow hg.2).snoc (x := .doc ⟨kind, payload⟩) hh⟩

theorem tombstone_serve_safe (h : Handle e l log)
    (hb : Backed d.volatile e.liveSlot e.header l log) (id : DocId) :
    ServeSafe F e l log d (.tombstone id) := by
  have h0 : LogGrows (tail log) d [] d := .refl _ _
  rw [ServeSafe, Op.prog, EngineM.reply, tombstone_run]
  by_cases hd : id ∈ e.index.dead
  · rw [if_pos hd]
    exact ⟨h0, log, .deleted hd, hb⟩
  rw [if_neg hd]
  by_cases hid : id ∉ e.index.offsets
  · rw [if_pos hid]
    exact ⟨h0, log, .notFound hd hid, hb⟩
  rw [if_neg hid]
  have happ := appendRaw_safe F (Entry.tomb id).record d h.le_endOffset h.endOffset_le
  rw [h.endOffset] at happ
  refine Safe.bind (Safe.bind (happ.mono (fun _ _ hg => hg) ?_))
  have hlen8 : (Entry.tomb id).record.payload.length = 8 := Bincode.length_putU64 _
  rintro tr x d' hg hx
  cases hx with
  | refused hlen =>
    have hmax := maxRecordLen_toNat
    omega
  | failed hf => exact ⟨hg, hg, log, .buryFailed hf, hb.grow hg.2⟩
  | done hlen hfit hend hh =>
    rw [h.endOffset] at hh
    rw [hlen8] at hfit ⊢
    exact ⟨hg, hg, _, .buried (not_not.mp hid) hd hfit, (hb.grow hg.2).snoc hh⟩

/-- A JSON object is inserted by appending its encoding. -/
theorem insert_prog (e : StorageEngine) {doc : Value} {bytes : Bytes}
    (hdoc : toBsonBytes doc = .ok bytes) :
    (Op.insert doc).prog e = (Op.append .blob bytes).prog e := by
  change EngineM.reply (Cndb.insert doc) .id e = EngineM.reply (append .blob bytes) .id e
  rw [EngineM.reply, Cndb.insert_run, hdoc, EngineM.reply]

/-- A commit with nothing to commit makes no request. -/
theorem commit_prog_clean (order : IterOrder) (hd : e.dirty = false) :
    (Op.commit order).prog e = .ret (.ok .done, e) := by
  have hne : ¬e.dirty = true := by
    rw [hd]
    exact Bool.false_ne_true
  rw [Op.prog, EngineM.reply, commit_run, if_neg hne]
  rfl

/-- **Every request but a commit** writes to the log only, and is served. -/
theorem serve_safe (h : Handle e l log) (hb : Backed d.volatile e.liveSlot e.header l log)
    {op : Op} (hop : op.isCommit = false) : ServeSafe F e l log d op := by
  have h0 : LogGrows (tail log) d [] d := .refl _ _
  cases op with
  | append kind payload => exact append_serve_safe h hb kind payload
  | insert doc =>
    cases hdoc : toBsonBytes doc with
    | error err =>
      rw [ServeSafe, Op.prog, EngineM.reply, Cndb.insert_run, hdoc]
      exact ⟨h0, log, .notInserted hdoc, hb⟩
    | ok bytes =>
      have happ := append_serve_safe (F := F) h hb .blob bytes
      rw [ServeSafe, insert_prog e hdoc]
      exact happ.mono (fun _ _ hg => hg) fun _ x d' _ ⟨log', hs, hb'⟩ =>
        ⟨log', .inserted hdoc hs, hb'⟩
  | tombstone id => exact tombstone_serve_safe h hb id
  | commit order => cases hop
  | readRecord id =>
    have hret := readRecord_returns h.valid h.index id
    rw [ServeSafe, Op.prog, FileM.reply]
    refine Safe.bind (hret.safe hb.holds h0 ?_)
    exact ⟨h0, log, .read, hb⟩
  | len => exact ⟨h0, log, .len, hb⟩
  | liveIds => exact ⟨h0, log, .liveIds, hb⟩

/-- **A commit** goes through the points of the protocol. -/
theorem commit_serve_safe (h : Handle e l log) (order : IterOrder) :
    ((Op.commit order).prog e).Safe F (CommitPoint F e order d)
      (fun tr x d' => ∃ y, Committed F e order d tr (y, x.2) d' ∧ x.1 = y.map fun _ => .done)
      [] d := by
  rw [Op.prog, EngineM.reply]
  refine Safe.bind ((commit_safe F e order d h.le_endOffset h.endOffset_le).mono
    (fun _ _ hp => hp) ?_)
  rintro tr ⟨y, e'⟩ d' hp hc
  exact ⟨hp, y, hc, rfl⟩

end Programs

/-! ### How far a request writes -/

section Within

variable [Bson] {e : StorageEngine} {n : ℕ}

omit [Bson] in
/-- Appending a record, if it is not over the limit, writes up to its end. -/
theorem appendRaw_within {kind : RecordKind} {payload : Bytes}
    (hhi : e.endOffset.toNat ≤ maxFileLen) (hn : payload.length ≤ maxRecordLen.toNat →
      e.endOffset.toNat + (9 + payload.length) ≤ n) :
    ((appendRaw kind payload).run.run e).Within n := by
  rw [appendRaw_run]
  by_cases hlen : maxRecordLen.toNat < payload.length
  · rw [if_pos hlen]
    trivial
  · have hle := hn (Nat.le_of_not_lt hlen)
    rw [if_neg hlen, add_recordHeaderSize_toNat hhi]
    refine ⟨by rw [length_encodeFrame]; omega, fun b => ?_⟩
    cases b with
    | false => trivial
    | true =>
      refine ⟨by omega, fun b => ?_⟩
      cases b <;> trivial

/-- Also where a document is appended. -/
theorem append_within {kind : RecordKind} {payload : Bytes}
    (hhi : e.endOffset.toNat ≤ maxFileLen) (hn : payload.length ≤ maxRecordLen.toNat →
      e.endOffset.toNat + (9 + payload.length) ≤ n) :
    ((Op.append kind payload).prog e).Within n := by
  rw [Op.prog, EngineM.reply, append_run]
  refine Within.bind (Within.bind (appendRaw_within hhi hn) ?_) fun _ => trivial
  rintro ⟨r, self⟩
  cases r <;> trivial

/-- A deletion writes up to the end of its record. -/
theorem tombstone_within {id : DocId} (hhi : e.endOffset.toNat ≤ maxFileLen)
    (hn : e.endOffset.toNat + (9 + 8) ≤ n) : ((Op.tombstone id).prog e).Within n := by
  rw [Op.prog, EngineM.reply, tombstone_run]
  refine Within.bind ?_ fun _ => trivial
  by_cases hdead : id ∈ e.index.dead
  · rw [if_pos hdead]
    trivial
  rw [if_neg hdead]
  by_cases hid : id ∉ e.index.offsets
  · rw [if_pos hid]
    trivial
  rw [if_neg hid]
  refine Within.bind (appendRaw_within hhi fun _ => ?_) ?_
  · rwa [Bincode.length_putU64]
  · rintro ⟨r, self⟩
    cases r <;> trivial

/-- A commit writes up to the end of its master record, and to the header
region. -/
theorem commit_within {order : IterOrder} (hhi : e.endOffset.toNat ≤ maxFileLen) (h128 : 128 ≤ n)
    (hn : e.index.encodedLen ≤ maxRecordLen.toNat →
      e.endOffset.toNat + (9 + e.index.encodedLen) ≤ n) :
    ((Op.commit order).prog e).Within n := by
  rw [← MasterIndex.length_serialize order] at hn
  rw [Op.prog, EngineM.reply, commit_run]
  refine Within.bind ?_ fun _ => trivial
  by_cases hd : e.dirty = true
  · rw [if_pos hd]
    rintro (_ | _)
    · trivial
    · refine Within.bind (appendRaw_within hhi hn) ?_
      rintro ⟨r, self⟩
      cases r with
      | error err => trivial
      | ok masterPtr =>
        rintro (_ | _)
        · trivial
        · refine ⟨?_, ?_⟩
          · rw [Header.slotOffset_toNat, Header.length_encode]
            exact (slot_le _).trans h128
          · rintro (_ | _)
            · trivial
            · rintro (_ | _) <;> trivial
  · rw [if_neg hd]
    trivial

end Within

/-! ### The points of a commit, and its log -/

section Commit

variable {F : Faults} {e e' : StorageEngine} {l log : Log} {order : IterOrder} {d d' d₁ : Disk}
  {tr : Trace}

/-- Before the header is written, the file is that of the grown log. -/
theorem backed_prepared (h : Handle e l log) (hb : Backed d.volatile e.liveSlot e.header l log)
    (hp : Prepared e order d tr d₁) :
    Backed d₁.volatile e.liveSlot e.header l (commitLog e order log) := by
  have hg := hp.grows.2
  have hh := hp.holds
  rw [h.endOffset] at hg hh
  exact (hb.grow hg).snoc hh

/-- While the header is written, the file backs the handle still. -/
theorem backed_writing (h : Handle e l log) (hb : Backed d.volatile e.liveSlot e.header l log)
    (hp : Prepared e order d tr d₁) {n : ℕ} (hn : n ≤ 64)
    (hsafe : n = 64 ∨
      TornSafe d₁.volatile (64 * commitSlot e) (commitHeaderOf e order).encode n) :
    Backed (d₁.write (64 * commitSlot e) ((commitHeaderOf e order).encode.take n)).volatile
      e.liveSlot e.header l (commitLog e order log) := by
  rw [Disk.volatile_write, h.victim]
  rw [h.victim] at hsafe
  exact (backed_prepared h hb hp).write_header (h.describes_next hp.length_le hp.fits)
    (h.generation_succ order) (h.committed.trans (prefix_commitLog e order log)) (h.ne_snoc _) hn
    hsafe

/-- Once it is written, the grown log is the committed one. -/
theorem backed_published (h : Handle e l log) (hb : Backed d.volatile e.liveSlot e.header l log)
    (hp : Prepared e order d tr d₁) :
    Backed (d₁.write (64 * commitSlot e) (commitHeaderOf e order).encode).sync.volatile
      ((commitAppended e order).published (commitHeaderOf e order)).liveSlot
      (commitHeaderOf e order) (commitLog e order log) (commitLog e order log) := by
  have hlive : ((commitAppended e order).published (commitHeaderOf e order)).liveSlot =
      e.liveSlot.other := h.victim
  rw [hlive, Disk.volatile_sync, Disk.volatile_write, h.victim]
  exact (backed_prepared h hb hp).publish h.describes
    (h.committed.trans (prefix_commitLog e order log)) (h.ne_snoc _) (h.generation_succ order)

/-- The header is in its slot then, and the other slot is as it was. -/
theorem slotBytes_published (h : Handle e l log)
    (hb : Backed d.volatile e.liveSlot e.header l log) (hp : Prepared e order d tr d₁) (t : Slot) :
    slotBytes (d₁.write (64 * commitSlot e) (commitHeaderOf e order).encode).sync.volatile t =
      if t = commitSlot e then (commitHeaderOf e order).encode else slotBytes d.volatile t := by
  have hlen := (backed_prepared h hb hp).length_le
  rw [Disk.volatile_sync, Disk.volatile_write]
  by_cases ht : t = commitSlot e
  · rw [if_pos ht, ht]
    exact slotBytes_of_holds (holds_writeAt _ _ _) (Header.length_encode _)
  · rw [if_neg ht, slotBytes_writeAt_other hlen ht (Header.length_encode _).le]
    exact slotBytes_grows h.le_endOffset hb.length_le hp.grows.2 t

/-- A header write of a commit that is cut short is detected. -/
theorem tornSafe_commit (hF : Detected F) {v : Bytes} {n : ℕ}
    (hcut : F.write v (64 * commitSlot e) (commitHeaderOf e order).encode n ∨
      F.cut v (64 * commitSlot e) (commitHeaderOf e order).encode n) :
    TornSafe v (64 * commitSlot e) (commitHeaderOf e order).encode n :=
  hF _ _ _ _ (Header.length_encode _) (slot_le _) hcut

/-- **Wherever a commit is stopped**, the file backs the handle, with the log
before or after its master record. -/
theorem CommitPoint.backed (hF : Detected F) (h : Handle e l log)
    (hb : Backed d.volatile e.liveSlot e.header l log) (hp : CommitPoint F e order d tr d') :
    ∃ log', log <+: log' ∧ ValidLog log' ∧ Backed d'.volatile e.liveSlot e.header l log' ∧
      ∀ K, OfKinds K log → OfKinds K log' := by
  cases hp with
  | logging hg =>
    rw [h.endOffset] at hg
    exact ⟨log, List.prefix_refl _, h.valid, hb.grow hg.2, fun _ hk => hk⟩
  | writing hp hn hcut =>
    exact ⟨_, prefix_commitLog e order log, (h.append_master hp.length_le hp.fits).valid,
      backed_writing h hb hp hn (hcut.imp_right (tornSafe_commit hF)), fun _ hk => hk.master _⟩
  | synced hp =>
    have hw := backed_writing h hb hp le_rfl (Or.inl rfl)
    rw [take_encode] at hw
    exact ⟨_, prefix_commitLog e order log, (h.append_master hp.length_le hp.fits).valid, hw,
      fun _ hk => hk.master _⟩

/-- **However a commit ends**, its handle is backed. -/
theorem Committed.backed (hF : Detected F) (h : Handle e l log)
    (hb : Backed d.volatile e.liveSlot e.header l log) {y : Except CndbError Unit}
    (hc : Committed F e order d tr (y, e') d') :
    ∃ l' log', l <+: l' ∧ log <+: log' ∧ Handle e' l' log' ∧
      Backed d'.volatile e'.liveSlot e'.header l' log' ∧ ∀ K, OfKinds K log → OfKinds K log' := by
  cases hc with
  | clean => exact ⟨l, log, List.prefix_refl _, List.prefix_refl _, h, hb, fun _ hk => hk⟩
  | refused hd hg | early hd hg =>
    rw [h.endOffset] at hg
    exact ⟨l, log, List.prefix_refl _, List.prefix_refl _, h, hb.grow hg.2, fun _ hk => hk⟩
  | orphaned hd hg hf hlen hfit hh =>
    rw [h.endOffset] at hg hh
    exact ⟨l, _, List.prefix_refl _, prefix_commitLog e order log, h.append_master hlen hfit,
      (hb.grow hg.2).snoc hh, fun _ hk => hk.master _⟩
  | torn hd hp hn hcut =>
    exact ⟨l, _, List.prefix_refl _, prefix_commitLog e order log,
      h.append_master hp.length_le hp.fits,
      backed_writing h hb hp hn (hcut.imp And.left fun hw => tornSafe_commit hF (Or.inl hw)),
      fun _ hk => hk.master _⟩
  | done hd hp =>
    exact ⟨_, _, h.committed.trans (prefix_commitLog e order log), prefix_commitLog e order log,
      h.publish hp.length_le hp.fits, backed_published h hb hp, fun _ hk => hk.master _⟩

end Commit

/-! ### Any request -/

section Any

variable [Bson] {F : Faults} {e e' : StorageEngine} {l log : Log} {d d' : Disk} {tr : Trace}
  {op : Op} {r : Except CndbError Reply}

/-- **Every request keeps the invariant**: its handle is backed, and both logs
have only grown. -/
theorem serve_backed (hF : Detected F) (h : Handle e l log)
    (hb : Backed d.volatile e.liveSlot e.header l log)
    (hr : Runs F (op.prog e) d tr (r, e') d') :
    ∃ l' log', l <+: l' ∧ log <+: log' ∧ Handle e' l' log' ∧
      Backed d'.volatile e'.liveSlot e'.header l' log' ∧
      ∀ K, op.Allowed K → OfKinds K log → OfKinds K log' := by
  cases hop : op.isCommit with
  | false =>
    obtain ⟨log', hs, hb'⟩ := (serve_safe h hb hop).runs hr
    obtain ⟨hhdr, -, hlive⟩ := hs.header_eq
    rw [← hhdr, ← hlive] at hb'
    exact ⟨l, log', List.prefix_refl _, hs.prefix_log, hs.handle h, hb', fun _ => hs.ofKinds⟩
  | true =>
    obtain ⟨order, rfl⟩ := Op.eq_commit hop
    obtain ⟨y, hc, -⟩ := (commit_serve_safe h order).runs hr
    obtain ⟨l', log', hl', hlog', h', hb', hk⟩ := hc.backed hF h hb
    exact ⟨l', log', hl', hlog', h', hb', fun K _ => hk K⟩

/-- **A request that is stopped** leaves a file that backs its handle still. -/
theorem stops_backed (hF : Detected F) (h : Handle e l log)
    (hb : Backed d.volatile e.liveSlot e.header l log) (hs : Stops F (op.prog e) d tr d') :
    ∃ log', log <+: log' ∧ ValidLog log' ∧ Backed d'.volatile e.liveSlot e.header l log' ∧
      ∀ K, OfKinds K log → OfKinds K log' := by
  cases hop : op.isCommit with
  | false =>
    have hg : LogGrows (tail log) d tr d' := (serve_safe h hb hop).stops hs
    exact ⟨log, List.prefix_refl _, h.valid, hb.grow hg.2, fun _ hk => hk⟩
  | true =>
    obtain ⟨order, rfl⟩ := Op.eq_commit hop
    have hp : CommitPoint F e order d tr d' := (commit_serve_safe h order).stops hs
    exact hp.backed hF h hb

/-- **A commit that returns `Ok`** has published the current index: its handle is
clean, and its log is live. -/
theorem commit_ok {order : IterOrder} (h : Handle e l log)
    (hb : Backed d.volatile e.liveSlot e.header l log)
    (hr : Runs F ((Op.commit order).prog e) d tr (.ok .done, e') d') :
    ∃ l', Handle e' l' l' ∧ Backed d'.volatile e'.liveSlot e'.header l' l' ∧
      log <+: l' ∧ tableOf l' = tableOf log ∧ e'.index = e.index := by
  obtain ⟨y, hc, hy⟩ := (commit_serve_safe h order).runs hr
  cases hc with
  | clean hd =>
    obtain rfl := h.eq_of_clean hd
    exact ⟨l, h, hb, List.prefix_refl _, rfl, rfl⟩
  | refused | early | orphaned | torn => cases hy
  | done hd hp =>
    exact ⟨_, h.publish hp.length_le hp.fits, backed_published h hb hp,
      prefix_commitLog e order log, tableOf_commitLog e order log, rfl⟩

/-- **A commit that meets no failure** returns `Ok`, if its index fits in a
record. -/
theorem commit_exec_ok {order : IterOrder} {r : Except CndbError Reply} (h : Handle e l log)
    (hlen : e.dirty = false ∨ e.index.encodedLen ≤ maxRecordLen.toNat)
    (hr : ((Op.commit order).prog e).exec d = some ((r, e'), d')) : r = .ok .done := by
  obtain ⟨tr, hruns⟩ := runs_of_exec hr
  obtain ⟨y, hc, hy⟩ := (commit_serve_safe (F := .never) h order).runs hruns
  cases hc with
  | clean | done => exact hy
  | refused hd hg hmax =>
    rw [commitPayload, MasterIndex.length_serialize] at hmax
    rcases hlen with hclean | hlen
    · rw [hd] at hclean
      cases hclean
    · omega
  | early _ _ hf => exact (Faults.not_canFail_never hf).elim
  | orphaned _ _ hf => exact hf.elim
  | torn _ _ _ hcut => exact (hcut.elim And.right id).elim

end Any

/-- The log of a clean handle is live. -/
theorem Handle.live {e : StorageEngine} {v : Bytes} {l : Log} (h : Handle e l l)
    (hb : Backed v e.liveSlot e.header l l) : Live v e.liveSlot e.header l :=
  hb.live_of_older h.valid h.describes h.committed fun _ hh' => hb.older_of_clean hh'

/-! ### Settled sessions -/

/-- **A settled session**: the handle is backed, and no failed commit has left a
newer header in the other slot. -/
structure Settled (e : StorageEngine) (v : Bytes) (l log : Log) : Prop where
  /-- The handle accounts for the logs. -/
  handle : Handle e l log
  /-- The image backs it. -/
  backed : Backed v e.liveSlot e.header l log
  /-- The other slot holds nothing newer. -/
  older : ∀ h', decodedSlots v e.liveSlot.other = some h' →
    h'.generation.toNat < e.header.generation.toNat

namespace Settled

variable {F : Faults} {e e' : StorageEngine} {l log : Log} {d d' : Disk} {tr : Trace}
  {v : Bytes} {s : Slot} {h : Header}

/-- The committed log of a settled session is live. -/
theorem live (hs : Settled e v l log) : Live v e.liveSlot e.header l :=
  hs.backed.live_of_older hs.handle.valid hs.handle.describes hs.handle.committed hs.older

/-- A freshly opened handle. -/
theorem of_live (hl : Live v s h l) : Settled (opened (decodedSlots v) s h l) v l l where
  handle := Handle.of_live hl
  backed := Backed.of_live hl
  older h' hh' := (hl.older h' hh').2.1

/-- Reopening a settled session recovers its committed log. -/
theorem reopen_exec (hs : Settled e d.volatile l log) : openFile.run.exec d =
    some (.ok (opened (decodedSlots d.volatile) e.liveSlot e.header l), d) :=
  hs.live.open_exec

/-- What a settled handle shows: the documents of its current log. -/
theorem docState (hs : Settled e v l log) : e.docState v = (tableOf log).state :=
  docState_eq hs.handle.valid hs.handle.index hs.backed.holds

/-- Writing to the log keeps a session settled. -/
theorem grow (hs : Settled e d.volatile l log) (hg : Disk.Grows (tail log) d d') :
    Settled e d'.volatile l log where
  handle := hs.handle
  backed := hs.backed.grow hg
  older h' hh' := by
    rw [decodedSlots_congr (slotBytes_grows (le_tail log) hs.backed.length_le hg _)] at hh'
    exact hs.older h' hh'

/-- **A commit that goes through** settles the session on its log. -/
theorem publish (hs : Settled e d.volatile l log) {order : IterOrder} {d₁ : Disk}
    (hp : Prepared e order d tr d₁) :
    Settled ((commitAppended e order).published (commitHeaderOf e order))
      (d₁.write (64 * commitSlot e) (commitHeaderOf e order).encode).sync.volatile
      (commitLog e order log) (commitLog e order log) := by
  have hb := backed_published hs.handle hs.backed hp
  exact ⟨hs.handle.publish hp.length_le hp.fits, hb, fun h' hh' => hb.older_of_clean hh'⟩

/-- **Every request but a commit** keeps a session settled. -/
theorem serve [Bson] (hs : Settled e d.volatile l log) {op : Op} (hop : op.isCommit = false)
    {r : Except CndbError Reply} (hr : Runs F (op.prog e) d tr (r, e') d') :
    LogGrows (tail log) d tr d' ∧
      ∃ log', Serves F e log op r e' log' ∧ Settled e' d'.volatile l log' := by
  obtain ⟨hg, log', hsv, hb⟩ := (serve_safe hs.handle hs.backed hop).steps hr
  rw [List.nil_append] at hg
  simp only at hsv hb
  obtain ⟨hhdr, -, hlive⟩ := hsv.header_eq
  have hold := (hs.grow hg.2).older
  rw [← hhdr, ← hlive] at hb hold
  exact ⟨hg, log', hsv, hsv.handle hs.handle, hb, hold⟩

/-- **How a commit ends** where nothing fails from the master record on: it
leaves the session alone, or publishes its log. -/
theorem commit [Bson] (hs : Settled e d.volatile l log) (hF : Steady F) {order : IterOrder}
    {r : Except CndbError Reply}
    (hr : Runs F ((Op.commit order).prog e) d tr (r, e') d') :
    (LogGrows (tail log) d tr d' ∧ e' = e ∧ Settled e' d'.volatile l log) ∨
      ∃ tr₁ d₁, Prepared e order d tr₁ d₁ ∧
        tr = tr₁ ++ [⟨64 * commitSlot e, (commitHeaderOf e order).encode, 64⟩] ∧
        r = .ok .done ∧ e' = (commitAppended e order).published (commitHeaderOf e order) ∧
        d' = (d₁.write (64 * commitSlot e) (commitHeaderOf e order).encode).sync ∧
        Settled e' d'.volatile (commitLog e order log) (commitLog e order log) := by
  obtain ⟨y, hc, hy⟩ := (commit_serve_safe hs.handle order).runs hr
  simp only at hc hy
  rcases hc.steady hF with ⟨hg, rfl⟩ | ⟨tr₁, d₁, hp, rfl, rfl, rfl, rfl⟩
  · rw [hs.handle.endOffset] at hg
    exact Or.inl ⟨hg, rfl, hs.grow hg.2⟩
  · exact Or.inr ⟨tr₁, d₁, hp, rfl, hy, rfl, rfl, hs.publish hp⟩

end Settled

end ContextDb
