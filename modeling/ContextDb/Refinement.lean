import ContextDb.Sequential

/-!
# The engine refines a store of documents

What the engine is for, without a file: a `ContextDb.Store` is a current and a
committed table of documents, a generation and a dirty flag, and a request reads
or changes the current one. No offset, frame, checksum, slot or serialized index
appears in it; the one trace the file leaves in a reply is the offset a
`RecordTooLarge` error reports, which is erased before replies are compared.

The simulation relation (`ContextDb.Refines`) reads both tables off the logs of
a settled session. Every request preserves it and is answered alike
(`ContextDb.Performs.refines`), so whole runs are, with any number of reopenings
that rewind the log and overwrite its tail.
-/

namespace ContextDb

open ByteFile FileProg Prog StorageEngine

/-! ### The abstract store -/

/-- The live ids of a table. -/
def DocTable.liveIds (t : DocTable) : Finset DocId := t.docs.keys.filter fun id => id ∉ t.dead

/-- **A store of documents.** -/
structure Store where
  /-- The documents a caller sees. -/
  current : DocTable
  /-- The documents a reopening would show. -/
  committed : DocTable
  /-- How many commits have done work. -/
  generation : ℕ
  /-- Whether something was stored or deleted since the last commit. -/
  dirty : Bool

namespace Store

/-- The empty store. -/
def new : Store := ⟨.empty, .empty, 0, false⟩

/-- Store a document under the next id. -/
def append (S : Store) (r : Record) : Except CndbError Reply × Store :=
  if maxRecordLen.toNat < r.payload.length then
    (.error (.recordTooLarge 0 (UInt64.ofNat r.payload.length) maxRecordLen), S)
  else
    (.ok (.id S.current.nextId), { S with current := S.current.add r, dirty := true })

/-- Delete a live document. -/
def tombstone (S : Store) (id : DocId) : Except CndbError Reply × Store :=
  if id ∈ S.current.dead then (.error (.deleted id), S)
  else if id ∉ S.current.docs then (.error (.notFound id), S)
  else (.ok .done, { S with current := S.current.bury id, dirty := true })

/-- Make the current documents the committed ones. -/
def commit (S : Store) : Store :=
  if S.dirty then
    { S with committed := S.current, generation := S.generation + 1, dirty := false }
  else S

/-- **The answer to a request**, and the store it leaves. -/
def serve [Bson] (S : Store) : Op → Except CndbError Reply × Store
  | .append kind payload => S.append ⟨kind, payload⟩
  | .insert doc => match toBsonBytes doc with
    | .error err => (.error err, S)
    | .ok bytes => S.append ⟨.blob, bytes⟩
  | .tombstone id => S.tombstone id
  | .commit _ => (.ok .done, S.commit)
  | .readRecord id => ((S.current.find id).map .record, S)
  | .len => (.ok (.count (UInt64.ofNat S.current.liveIds.card)), S)
  | .liveIds => (.ok (.ids S.current.liveIds), S)

/-- One request, or a reopening: what has not been committed is gone. -/
def perform [Bson] (S : Store) : Request → Except CndbError Reply × Store
  | .op op => S.serve op
  | .reopen => (.ok .done, { S with current := S.committed, dirty := false })

/-- **A sequence of requests**: the replies, and the store it leaves. -/
def run [Bson] : Store → List Request → List (Except CndbError Reply) × Store
  | S, [] => ([], S)
  | S, q :: qs => ((S.perform q).1 :: ((S.perform q).2.run qs).1, ((S.perform q).2.run qs).2)

end Store

/-- A reply without the offset it may report, which the abstract store does not
know. -/
def eraseOffset : Except CndbError Reply → Except CndbError Reply
  | .error (.recordTooLarge _ n limit) => .error (.recordTooLarge 0 n limit)
  | r => r

/-- The index of every commit fits in a record. -/
def WithinLimit (e : StorageEngine) : Request → Prop
  | .op (.commit _) => e.index.encodedLen ≤ maxRecordLen.toNat
  | _ => True

/-! ### The simulation -/

/-- **The engine refines a store**: the tables of the store are those of the two
logs of a settled session. -/
def Refines (x : StorageEngine × Disk) (S : Store) : Prop :=
  ∃ l log, Settled x.1 x.2.volatile l log ∧ S.current = tableOf log ∧ S.committed = tableOf l ∧
    S.generation = x.1.header.generation.toNat ∧ S.dirty = x.1.dirty

theorem refines_newStore : Refines newStore .new :=
  ⟨[], [], settled_created, rfl, rfl, rfl, rfl⟩

section Simulation

variable {e : StorageEngine} {log : Log}

/-- The live ids of a handle are those of its log. -/
theorem liveIds_eq (hv : ValidLog log) (hi : e.index = indexOf log) :
    e.liveIds = (tableOf log).liveIds := by
  have ht := hv.tracks
  rw [StorageEngine.liveIds, hi]
  ext id
  rw [MasterIndex.liveIds, DocTable.liveIds, Finset.mem_filter, Finset.mem_filter,
    Finmap.mem_keys, Finmap.mem_keys, ht.mem_docs, ht.dead]

/-- **`len` is the number of live ids**: the subtraction does not underflow. -/
theorem len_exact (hv : ValidLog log) (hi : e.index = indexOf log) :
    e.index.dead.card ≤ e.index.offsets.keys.card ∧ e.len.toNat = e.liveIds.card := by
  have hoffsets := hv.card_offsets_le
  have hdead := hv.card_dead_le
  have hlog := hv.length_lt
  rw [StorageEngine.len, StorageEngine.liveIds, hi]
  exact (MasterIndex.liveCount_exact_iff (by omega) (by omega)).mpr hv.tracks.dead_sub

theorem len_eq (hv : ValidLog log) (hi : e.index = indexOf log) :
    e.len = UInt64.ofNat (tableOf log).liveIds.card := by
  rw [← liveIds_eq hv hi, ← (len_exact hv hi).2, UInt64.ofNat_toNat]

/-- Refusing a JSON value reports no offset. -/
theorem toBsonBytes_eraseOffset [Bson] {doc : Value} {err : CndbError}
    (h : toBsonBytes doc = .error err) : eraseOffset (.error err) = .error err := by
  rcases toBsonBytes_error h with rfl | ⟨message, rfl⟩ <;> rfl

/-- Nor does asking for a document. -/
theorem find_eraseOffset (t : DocTable) (id : DocId) :
    eraseOffset ((t.find id).map .record) = (t.find id).map .record := by
  rw [DocTable.find]
  split
  · rfl
  · split <;> rfl

end Simulation

section Steps

variable [Bson] {e e' : StorageEngine} {d d' : Disk} {l log log' : Log} {S : Store}

/-- **A request but a commit** is answered as the store answers it. -/
theorem Serves.refines {op : Op} {r : Except CndbError Reply}
    (hsv : Serves .never e log op r e' log') (h : Handle e l log) (hcur : S.current = tableOf log)
    (hdirty : S.dirty = e.dirty) :
    eraseOffset r = (S.serve op).1 ∧ (S.serve op).2.current = tableOf log' ∧
      (S.serve op).2.committed = S.committed ∧ (S.serve op).2.generation = S.generation ∧
      (S.serve op).2.dirty = e'.dirty := by
  have ht := h.valid.tracks
  induction hsv with
  | @appended kind payload hlen hfit =>
    have hid : e.index.allocateId.1 = S.current.nextId := by
      rw [h.index, hcur, ht.allocateId_fst]
    rw [Store.serve, Store.append, if_neg (Nat.not_lt_of_le hlen), hid]
    refine ⟨rfl, ?_, rfl, rfl, rfl⟩
    rw [tableOf_snoc, hcur]
    rfl
  | tooLarge hlen =>
    rw [Store.serve, Store.append, if_pos hlen]
    exact ⟨rfl, hcur, rfl, rfl, hdirty⟩
  | appendFailed hf | buryFailed hf => exact (Faults.not_canFail_never hf).elim
  | inserted hb _ ih =>
    rw [Store.serve, hb]
    exact ih
  | notInserted hb =>
    rw [Store.serve, hb]
    refine ⟨?_, hcur, rfl, rfl, hdirty⟩
    exact toBsonBytes_eraseOffset hb
  | buried hid hd hfit =>
    rw [h.index] at hid hd
    rw [Store.serve, Store.tombstone, hcur, if_neg (by rwa [← ht.dead]),
      if_neg (not_not.mpr ((ht.mem_docs _).mpr hid))]
    refine ⟨rfl, ?_, rfl, rfl, rfl⟩
    rw [tableOf_snoc]
    rfl
  | deleted hd =>
    rw [h.index] at hd
    rw [Store.serve, Store.tombstone, hcur, if_pos (by rwa [← ht.dead])]
    exact ⟨rfl, hcur, rfl, rfl, hdirty⟩
  | notFound hd hid =>
    rw [h.index] at hid hd
    rw [Store.serve, Store.tombstone, hcur, if_neg (by rwa [← ht.dead]),
      if_pos (by rwa [ht.mem_docs])]
    exact ⟨rfl, hcur, rfl, rfl, hdirty⟩
  | read =>
    rw [Store.serve, ← hcur]
    exact ⟨find_eraseOffset _ _, rfl, rfl, rfl, hdirty⟩
  | len =>
    rw [Store.serve, len_eq h.valid h.index, ← hcur]
    exact ⟨rfl, rfl, rfl, rfl, hdirty⟩
  | liveIds =>
    rw [Store.serve, liveIds_eq h.valid h.index, ← hcur]
    exact ⟨rfl, rfl, rfl, rfl, hdirty⟩

/-- **Every request is answered as the store answers it**, and the engine still
refines the store. -/
theorem Performs.refines {x x' : StorageEngine × Disk} {q : Request}
    {r : Except CndbError Reply} (hx : Refines x S) (hq : WithinLimit x.1 q)
    (hp : Performs x q r x') : eraseOffset r = (S.perform q).1 ∧ Refines x' (S.perform q).2 := by
  obtain ⟨l, log, hs, hcur, hcom, hgen, hdirty⟩ := hx
  cases hp with
  | @op e e' d d' op r h =>
    rw [Store.perform]
    cases hop : op.isCommit with
    | false =>
      obtain ⟨log', hsv, hs'⟩ := hs.serve_exec hop h
      obtain ⟨hr, hcur', hcom', hgen', hdirty'⟩ := hsv.refines hs.handle hcur hdirty
      refine ⟨hr, l, log', hs', hcur', hcom'.trans hcom, hgen'.trans ?_, hdirty'⟩
      rw [hgen, hsv.header_eq.1]
    | true =>
      obtain ⟨order, rfl⟩ := Op.eq_commit hop
      rw [Store.serve]
      rcases hs.commit_exec_cases h with ⟨hd, rfl, rfl, rfl⟩ | ⟨-, hmax, -⟩ |
        ⟨hd, -, rfl, rfl, tr₁, d₁, hp, rfl⟩
      · rw [Store.commit, if_neg (by rw [hdirty]; simpa using hd)]
        exact ⟨rfl, l, log, hs, hcur, hcom, hgen, hdirty⟩
      · exact absurd hq (Nat.not_le_of_lt hmax)
      · rw [Store.commit, if_pos (by rw [hdirty]; exact hd)]
        refine ⟨rfl, _, _, hs.publish hp, ?_, ?_, ?_, rfl⟩
        · rw [tableOf_commitLog]
          exact hcur
        · rw [tableOf_commitLog]
          exact hcur
        · change S.generation + 1 = (commitHeaderOf e order).generation.toNat
          rw [hs.handle.generation_succ, hgen]
  | reopen h =>
    have hopen := h
    rw [hs.reopen_exec] at hopen
    cases hopen
    exact ⟨rfl, l, l, Settled.of_live hs.live, hcom, hcom, hgen, rfl⟩

/-- One request whose index fits in a record, if it is a commit. -/
abbrev LimitedRun (x : StorageEngine × Disk) (tr : List (Request × Except CndbError Reply))
    (x' : StorageEngine × Disk) : Prop :=
  Machine.Run (fun x q r x' => WithinLimit x.1 q ∧ Performs x q r x') x tr x'

/-- Without a commit every run is one of these. -/
theorem EngineRun.limited {x x' : StorageEngine × Disk}
    {tr : List (Request × Except CndbError Reply)} (h : EngineRun x tr x')
    (hall : ∀ q ∈ tr, ∀ order, q.1 ≠ .op (.commit order)) : LimitedRun x tr x' := by
  induction h with
  | nil => exact .nil _
  | @cons x y _ q _ _ hp _ ih =>
    obtain ⟨hq, hrest⟩ := List.forall_mem_cons.mp hall
    have hlimit : WithinLimit x.1 q := by
      unfold WithinLimit
      split
      · exact absurd rfl (hq _)
      · trivial
    exact .cons ⟨hlimit, hp⟩ (ih hrest)

/-- **Whole runs are answered as the store answers them.** -/
theorem LimitedRun.refines {x x' : StorageEngine × Disk}
    {tr : List (Request × Except CndbError Reply)} (h : LimitedRun x tr x') (hx : Refines x S) :
    tr.map (fun qr => eraseOffset qr.2) = (S.run (tr.map Prod.fst)).1 ∧
      Refines x' (S.run (tr.map Prod.fst)).2 := by
  induction h generalizing S with
  | nil => exact ⟨rfl, hx⟩
  | cons hstep _ ih =>
    obtain ⟨hr, hx'⟩ := hstep.2.refines hx hstep.1
    obtain ⟨hrs, hend⟩ := ih hx'
    rw [List.map_cons, List.map_cons, Store.run, hr, hrs]
    exact ⟨rfl, hend⟩

/-- **The engine refines a store of documents.** In every run in which nothing
fails and the indexes fit in a record, all replies are those of the abstract
store. At its end the engine shows the store's current documents, has its
generation and its dirty flag, `live_count` does not underflow, and opening the
file again would show the committed documents. -/
theorem engine_refines_store {x : StorageEngine × Disk}
    {tr : List (Request × Except CndbError Reply)} (h : LimitedRun newStore tr x) :
    let replies := (Store.new.run (tr.map Prod.fst)).1
    let S := (Store.new.run (tr.map Prod.fst)).2
    tr.map (fun qr => eraseOffset qr.2) = replies ∧
      x.1.docState x.2.volatile = S.current.state ∧
      x.1.header.generation.toNat = S.generation ∧ x.1.dirty = S.dirty ∧
      x.1.index.dead.card ≤ x.1.index.offsets.keys.card ∧
      x.1.len.toNat = x.1.liveIds.card ∧
      ∃ e, openFile.run.exec x.2 = some (.ok e, x.2) ∧ e.dirty = false ∧
        e.header = x.1.header ∧ e.docState x.2.volatile = S.committed.state := by
  obtain ⟨hrs, l, log, hs, hcur, hcom, hgen, hdirty⟩ := h.refines refines_newStore
  obtain ⟨hcard, hlen⟩ := len_exact hs.handle.valid hs.handle.index
  refine ⟨hrs, ?_, hgen.symm, hdirty.symm, hcard, hlen, _, hs.reopen_exec, rfl, rfl, ?_⟩
  · rw [hcur]
    exact hs.docState
  · rw [hcom]
    exact (Settled.of_live hs.live).docState

end Steps

/-- **A small database** of two documents, of which the first is deleted: it is
committed, and a third document is gone when the file is opened again. -/
theorem engine_refines_store_small :
    letI := emptyDocuments
    ∃ x, LimitedRun newStore [(.op (.append .blob [7]), .ok (.id ⟨1⟩)),
        (.op (.append .blob [8]), .ok (.id ⟨2⟩)), (.op (.tombstone ⟨1⟩), .ok .done),
        (.op (.commit .listed), .ok .done), (.op (.append .blob [9]), .ok (.id ⟨3⟩)),
        (.reopen, .ok .done)] x ∧
      x.1.docState x.2.volatile = (tableOf smallLog).state ∧
      x.1.header.generation.toNat = 1 ∧ x.1.dirty = false := by
  let _ := emptyDocuments
  obtain ⟨d₁, hrun, hs₁, hlen₁⟩ := small_run
  obtain ⟨d₂, hcommit, hs₂, -⟩ := small_commit hs₁ hlen₁
  obtain ⟨d₃, happend, hs₃⟩ := third_append hs₂
  have hlimit : WithinLimit firstBuried (.op (.commit .listed)) := by
    rw [WithinLimit]
    decide
  have hsession := hrun.limited (by simp)
  have hcommitted := hsession.snoc ⟨hlimit, .op hcommit⟩
  have hrest : EngineRun (smallCommitted, d₂) [(.op (.append .blob [9]), .ok (.id ⟨3⟩)),
      (.reopen, .ok .done)] _ := .cons (.op happend) (.cons (.reopen hs₃.reopen_exec) (.nil _))
  have hall := hcommitted.append (hrest.limited (by simp))
  obtain ⟨-, hstate, hgen, hdirty, -⟩ := engine_refines_store hall
  exact ⟨_, hall, hstate, hgen, hdirty⟩

end ContextDb
