import ContextDb.Documents
import ContextDb.Refinement

/-!
# A database of JSON documents

The public handle, from the outside. What a caller of it works with is neither records nor
bytes but JSON documents, and what it sees of them is a shelf (`ContextDb.Shelf`): the n-th
document that was ever put there has the id n, and some have been taken away again. There is
a shelf that the caller sees and one that a reopening would show, and that is all there is
(`ContextDb.Shelves`) – no file, no index, no encoding.

Two things have to come together for this. The engine keeps records, and the crate takes
its own encodings back. The simulation relation says of each document what was stored in
its place and that this decodes to it (`ContextDb.Shelf.Stored`), every method keeps it
(`ContextDb.Cndb.Performs.stored`), and so whole runs are answered as the shelves answer them,
with any number of commits and reopenings (`ContextDb.cndb_is_a_shelf`). This is said of
documents that the crate does not take for Extended JSON; those it refuses may be among them,
and so may those that are too long, and a commit may find its index too long. In each case
the caller is told, and nothing changes.
-/

namespace ContextDb

open ByteFile FileProg Prog StorageEngine

/-! ### The public methods -/

namespace Cndb

/-- Number of live documents. -/
def len (store : StorageEngine) : UInt64 := store.len

/-- True when no live documents remain. -/
def isEmpty (store : StorageEngine) : Bool := store.isEmpty

/-- Every live document id, in no particular order. -/
def ids (store : StorageEngine) : Finset DocId := store.liveIds

end Cndb

/-- **A call of a public method**, or dropping the handle and opening the file again. -/
inductive Cndb.Method where
  | insert (doc : Value)
  | get (id : DocId)
  | delete (id : DocId)
  | commit (order : IterOrder)
  | len
  | isEmpty
  | ids
  | reopen

/-- What it is answered with. -/
inductive Cndb.Answer where
  | done
  | id (id : DocId)
  | document (doc : Value)
  | count (n : UInt64)
  | empty (b : Bool)
  | ids (ids : Finset DocId)

/-- An answer without the offset it may report. -/
def forgetOffset : Except CndbError Cndb.Answer → Except CndbError Cndb.Answer
  | .error (.recordTooLarge _ n limit) => .error (.recordTooLarge 0 n limit)
  | r => r

section Performs

variable [Bson]

/-- **One call**, when nothing fails. -/
inductive Cndb.Performs : StorageEngine × Disk → Cndb.Method → Except CndbError Cndb.Answer →
    StorageEngine × Disk → Prop
  | insert {e e' : StorageEngine} {d d' : Disk} {doc : Value} {y : Except CndbError DocId}
      (h : ((Cndb.insert doc).run.run e).exec d = some ((y, e'), d')) :
      Cndb.Performs (e, d) (.insert doc) (y.map .id) (e', d')
  | get {e : StorageEngine} {d d' : Disk} {id : DocId} {y : Except CndbError Value}
      (h : (Cndb.get e id).run.exec d = some (y, d')) :
      Cndb.Performs (e, d) (.get id) (y.map .document) (e, d')
  | delete {e e' : StorageEngine} {d d' : Disk} {id : DocId} {y : Except CndbError Unit}
      (h : ((Cndb.delete id).run.run e).exec d = some ((y, e'), d')) :
      Cndb.Performs (e, d) (.delete id) (y.map fun _ => .done) (e', d')
  | commit {e e' : StorageEngine} {d d' : Disk} {order : IterOrder} {y : Except CndbError Unit}
      (h : ((Cndb.commit order).run.run e).exec d = some ((y, e'), d')) :
      Cndb.Performs (e, d) (.commit order) (y.map fun _ => .done) (e', d')
  | len {e : StorageEngine} {d : Disk} :
      Cndb.Performs (e, d) .len (.ok (.count (Cndb.len e))) (e, d)
  | isEmpty {e : StorageEngine} {d : Disk} :
      Cndb.Performs (e, d) .isEmpty (.ok (.empty (Cndb.isEmpty e))) (e, d)
  | ids {e : StorageEngine} {d : Disk} :
      Cndb.Performs (e, d) .ids (.ok (.ids (Cndb.ids e))) (e, d)
  | reopen {e e' : StorageEngine} {d d' : Disk}
      (h : openFile.run.exec d = some (.ok e', d')) :
      Cndb.Performs (e, d) .reopen (.ok .done) (e', d')

/-- **The public handle as a machine.** -/
abbrev Cndb.Run (x : StorageEngine × Disk) (tr : List (Cndb.Method × Except CndbError Cndb.Answer))
    (x' : StorageEngine × Disk) : Prop :=
  Machine.Run Cndb.Performs x tr x'

end Performs

/-! ### Shelves -/

/-- **A shelf of documents**: the n-th that was ever put there has the id n. -/
structure Shelf where
  /-- Every document ever put there, in this order. -/
  docs : List Value
  /-- The ids of those that have been taken away. -/
  dead : Finset DocId

namespace Shelf

/-- The empty shelf. -/
def empty : Shelf := ⟨[], ∅⟩

/-- The document that was put there under an id. -/
def doc (S : Shelf) (id : DocId) : Option Value :=
  if id.raw = 0 then none else S.docs[id.raw.toNat - 1]?

/-- The id of the next one. -/
def nextId (S : Shelf) : DocId := ⟨UInt64.ofNat (S.docs.length + 1)⟩

/-- Put a document there. -/
def put (S : Shelf) (v : Value) : Shelf := { S with docs := S.docs ++ [v] }

/-- Take a document away. -/
def take (S : Shelf) (id : DocId) : Shelf := { S with dead := insert id S.dead }

/-- Ask for a document. -/
def find (S : Shelf) (id : DocId) : Except CndbError Value :=
  if id ∈ S.dead then .error (.deleted id)
  else match S.doc id with
    | none => .error (.notFound id)
    | some v => .ok v

theorem find_deleted {S : Shelf} {id : DocId} (hd : id ∈ S.dead) :
    S.find id = .error (.deleted id) := by
  rw [find, if_pos hd]

theorem find_notFound {S : Shelf} {id : DocId} (hd : id ∉ S.dead) (h : S.doc id = none) :
    S.find id = .error (.notFound id) := by
  rw [find, if_neg hd, h]

theorem find_ok {S : Shelf} {id : DocId} {v : Value} (hd : id ∉ S.dead) (h : S.doc id = some v) :
    S.find id = .ok v := by
  rw [find, if_neg hd, h]

/-- The ids that are there. -/
def liveIds (S : Shelf) : Finset DocId :=
  ((Finset.range S.docs.length).image fun n => ⟨UInt64.ofNat (n + 1)⟩).filter fun id => id ∉ S.dead

/-- The bytes an index of the shelf takes. -/
def indexLen (S : Shelf) : ℕ := 24 + 16 * S.docs.length + 8 * S.dead.card

section Doc

variable {S : Shelf} {id : DocId} {v : Value}

theorem doc_empty (id : DocId) : empty.doc id = none := by
  rw [doc]
  split
  · rfl
  · exact List.getElem?_nil

/-- Ids are numbers from one on. -/
theorem doc_isSome : (S.doc id).isSome ↔ 1 ≤ id.raw.toNat ∧ id.raw.toNat ≤ S.docs.length := by
  have hzero : id.raw = 0 ↔ id.raw.toNat = 0 := UInt64.toNat_inj.symm
  rw [doc]
  by_cases h0 : id.raw = 0
  · rw [if_pos h0]
    have := hzero.mp h0
    refine iff_of_false Bool.false_ne_true ?_
    omega
  · rw [if_neg h0, isSome_getElem?]
    have := mt hzero.mpr h0
    omega

theorem toNat_nextId (hlen : S.docs.length + 1 < 2 ^ 64) :
    S.nextId.raw.toNat = S.docs.length + 1 := by
  change (UInt64.ofNat (S.docs.length + 1)).toNat = _
  rw [UInt64.toNat_ofNat']
  exact Nat.mod_eq_of_lt hlen

/-- **One more document** is under the next id. -/
theorem doc_put_nextId (hlen : S.docs.length + 1 < 2 ^ 64) :
    (S.put v).doc S.nextId = some v := by
  have hnext := toNat_nextId hlen
  have hne : ¬S.nextId.raw = 0 := by
    intro h0
    rw [h0] at hnext
    have hzero : (0 : UInt64).toNat = 0 := rfl
    omega
  rw [doc, if_neg hne, hnext]
  exact List.getElem?_concat_length

/-- The others are where they were. -/
theorem doc_put_of_ne (hlen : S.docs.length + 1 < 2 ^ 64) (hne : id ≠ S.nextId) :
    (S.put v).doc id = S.doc id := by
  have hnext := toNat_nextId hlen
  have hraw : id.raw.toNat ≠ S.docs.length + 1 := by
    rw [← hnext]
    exact fun heq => hne (congrArg DocId.mk (UInt64.toNat_inj.mp heq))
  rw [doc, doc]
  by_cases h0 : id.raw = 0
  · rw [if_pos h0, if_pos h0]
  · have hpos : id.raw.toNat ≠ 0 := fun h => h0 (UInt64.toNat_inj.mp h)
    rw [if_neg h0, if_neg h0]
    change (S.docs ++ [v])[id.raw.toNat - 1]? = _
    rcases Nat.lt_or_ge (id.raw.toNat - 1) S.docs.length with hlt | hge
    · exact List.getElem?_append_left hlt
    · -- beyond the end of both
      rw [List.getElem?_eq_none hge, List.getElem?_eq_none]
      rw [List.length_append, List.length_singleton]
      omega

/-- What is there, and was not taken away. -/
theorem mem_liveIds (hlen : S.docs.length < 2 ^ 64) :
    id ∈ S.liveIds ↔ (S.doc id).isSome ∧ id ∉ S.dead := by
  rw [liveIds, Finset.mem_filter, Finset.mem_image, doc_isSome]
  refine and_congr_left fun _ => ?_
  constructor
  · rintro ⟨n, hn, rfl⟩
    rw [Finset.mem_range] at hn
    change 1 ≤ (UInt64.ofNat (n + 1)).toNat ∧ (UInt64.ofNat (n + 1)).toNat ≤ _
    rw [UInt64.toNat_ofNat', Nat.mod_eq_of_lt (by omega)]
    omega
  · rintro ⟨hpos, hle⟩
    refine ⟨id.raw.toNat - 1, Finset.mem_range.mpr (by omega), ?_⟩
    rw [Nat.sub_add_cancel hpos, UInt64.ofNat_toNat]

end Doc

end Shelf

/-- **A database of documents**: what the caller sees, and what a reopening would
show. -/
structure Shelves where
  /-- What the caller sees. -/
  current : Shelf
  /-- What a reopening would show. -/
  committed : Shelf
  /-- Whether there is something to commit. -/
  dirty : Bool

namespace Shelves

/-- A new database. -/
def new : Shelves := ⟨.empty, .empty, false⟩

/-- Store a document, unless the crate refuses it or it is too long. -/
def insert [Bson] (D : Shelves) (v : Value) : Except CndbError Cndb.Answer × Shelves :=
  match toBsonBytes v with
  | .error err => (.error err, D)
  | .ok bytes =>
    if maxRecordLen.toNat < bytes.length then
      (.error (.recordTooLarge 0 (UInt64.ofNat bytes.length) maxRecordLen), D)
    else
      (.ok (.id D.current.nextId), { D with current := D.current.put v, dirty := true })

/-- Delete a document that is there. -/
def delete (D : Shelves) (id : DocId) : Except CndbError Cndb.Answer × Shelves :=
  match D.current.find id with
  | .error err => (.error err, D)
  | .ok _ => (.ok .done, { D with current := D.current.take id, dirty := true })

/-- Make what the caller sees what a reopening would show, unless the index of it is too
long. -/
def commit (D : Shelves) : Except CndbError Cndb.Answer × Shelves :=
  if D.dirty then
    if maxRecordLen.toNat < D.current.indexLen then
      (.error (.recordTooLarge 0 (UInt64.ofNat D.current.indexLen) maxRecordLen), D)
    else (.ok .done, { D with committed := D.current, dirty := false })
  else (.ok .done, D)

/-- **The answer to a call**, and the database it leaves. -/
def answer [Bson] (D : Shelves) : Cndb.Method → Except CndbError Cndb.Answer × Shelves
  | .insert doc => D.insert doc
  | .get id => ((D.current.find id).map .document, D)
  | .delete id => D.delete id
  | .commit _ => D.commit
  | .len => (.ok (.count (UInt64.ofNat D.current.liveIds.card)), D)
  | .isEmpty => (.ok (.empty (D.current.liveIds = ∅)), D)
  | .ids => (.ok (.ids D.current.liveIds), D)
  | .reopen => (.ok .done, { D with current := D.committed, dirty := false })

/-- **A sequence of calls**: the answers, and the database it leaves. -/
def run [Bson] : Shelves → List Cndb.Method → List (Except CndbError Cndb.Answer) × Shelves
  | D, [] => ([], D)
  | D, q :: qs => ((D.answer q).1 :: ((D.answer q).2.run qs).1, ((D.answer q).2.run qs).2)

end Shelves

/-! ### What is stored for a shelf -/

section Stored

variable [Bson]

/-- **A table stores a shelf**: under every id the encoding of the document there, which
decodes to it. -/
structure Shelf.Stored (S : Shelf) (t : DocTable) : Prop where
  /-- Both would hand out the same id. -/
  next : t.nextDocId = S.docs.length + 1
  /-- What is there is stored. -/
  docs : ∀ id v, S.doc id = some v → ∃ bytes, t.docs.lookup id = some ⟨.blob, bytes⟩ ∧
    fromBsonBytes bytes = .ok v
  /-- What is not there is not. -/
  absent : ∀ id, S.doc id = none → t.docs.lookup id = none
  /-- What was taken away is marked deleted. -/
  dead : t.dead = S.dead

namespace Shelf.Stored

variable {S : Shelf} {t : DocTable} {id : DocId}

theorem empty : Shelf.empty.Stored .empty where
  next := rfl
  docs id v h := by
    rw [doc_empty] at h
    cases h
  absent id _ := Finmap.lookup_empty id
  dead := rfl

theorem nextId (h : S.Stored t) : t.nextId = S.nextId := by
  rw [DocTable.nextId, Shelf.nextId, h.next]

theorem mem_docs (h : S.Stored t) (id : DocId) : id ∈ t.docs ↔ (S.doc id).isSome := by
  rw [← Finmap.lookup_isSome]
  cases hdoc : S.doc id with
  | none =>
    rw [h.absent id hdoc]
    exact Iff.rfl
  | some v =>
    obtain ⟨bytes, hlookup, -⟩ := h.docs id v hdoc
    rw [hlookup]
    exact iff_of_true rfl rfl

/-- **One more document is stored.** -/
theorem put (h : S.Stored t) (hlen : S.docs.length + 1 < 2 ^ 64) {v : Value} {bytes : Bytes}
    (hback : fromBsonBytes bytes = .ok v) : (S.put v).Stored (t.add ⟨.blob, bytes⟩) where
  next := by
    change t.nextDocId + 1 = (S.docs ++ [v]).length + 1
    rw [h.next, List.length_append, List.length_singleton]
  docs id w hw := by
    change ∃ bytes', (t.docs.insert t.nextId _).lookup id = _ ∧ _
    rw [h.nextId]
    rcases eq_or_ne id S.nextId with rfl | hne
    · rw [doc_put_nextId hlen] at hw
      cases hw
      exact ⟨bytes, Finmap.lookup_insert _, hback⟩
    · rw [doc_put_of_ne hlen hne] at hw
      rw [Finmap.lookup_insert_of_ne _ hne]
      exact h.docs id w hw
  absent id hid := by
    change (t.docs.insert t.nextId _).lookup id = none
    rw [h.nextId]
    rcases eq_or_ne id S.nextId with rfl | hne
    · rw [doc_put_nextId hlen] at hid
      cases hid
    · rw [doc_put_of_ne hlen hne] at hid
      rw [Finmap.lookup_insert_of_ne _ hne]
      exact h.absent id hid
  dead := h.dead

/-- **One more deletion is marked.** -/
theorem take (h : S.Stored t) (id : DocId) : (S.take id).Stored (t.bury id) where
  next := h.next
  docs := h.docs
  absent := h.absent
  dead := by
    change insert id t.dead = insert id S.dead
    rw [h.dead]

/-- **What is found and decoded** is the document. -/
theorem find (h : S.Stored t) (id : DocId) :
    ((t.find id).bind fun r => fromBsonBytes r.payload) = S.find id := by
  rw [DocTable.find, Shelf.find, h.dead]
  by_cases hd : id ∈ S.dead
  · rw [if_pos hd, if_pos hd]
    rfl
  · rw [if_neg hd, if_neg hd]
    cases hdoc : S.doc id with
    | none =>
      rw [h.absent id hdoc]
      rfl
    | some v =>
      obtain ⟨bytes, hlookup, hback⟩ := h.docs id v hdoc
      rw [hlookup]
      exact hback

/-- The live ids are those that are there. -/
theorem liveIds (h : S.Stored t) (hlen : S.docs.length < 2 ^ 64) : t.liveIds = S.liveIds := by
  ext id
  rw [mem_liveIds hlen, DocTable.liveIds, Finset.mem_filter, Finmap.mem_keys, h.mem_docs, h.dead]

/-- The index of the table is as long as the shelf says. -/
theorem indexLen {l : Log} (h : S.Stored (tableOf l)) (hv : ValidLog l) :
    (indexOf l).encodedLen = S.indexLen := by
  have hcard := hv.tracks.card
  have hnext := h.next
  rw [MasterIndex.encodedLen, Shelf.indexLen, hv.tracks.dead, h.dead]
  omega

end Shelf.Stored

end Stored

/-! ### The simulation -/

/-- **A session stores the shelves**: the one in its current log, and the other in its
committed one. -/
def Shelved [Bson] (x : StorageEngine × Disk) (D : Shelves) : Prop :=
  ∃ l log, Settled x.1 x.2.volatile l log ∧ D.current.Stored (tableOf log) ∧
    D.committed.Stored (tableOf l) ∧ D.dirty = x.1.dirty

theorem shelved_newStore [Bson] : Shelved newStore .new :=
  ⟨[], [], settled_created, .empty, .empty, rfl⟩

section Simulation

variable [Bson] {e e' : StorageEngine} {d d' : Disk} {l log : Log} {D : Shelves}

omit [Bson] in
/-- A method that changes the handle, as a request. -/
theorem reply_exec {α : Type} {x : EngineM α} {f : α → Reply} {y : Except CndbError α}
    (h : (x.run.run e).exec d = some ((y, e'), d')) :
    (EngineM.reply x f e).exec d = some ((y.map f, e'), d') := by
  rw [EngineM.reply, exec_bind, h]
  rfl

/-- **A request for a document** is answered with what is stored, decoded. -/
theorem get_returns (hv : ValidLog log) (hi : e.index = indexOf log) (id : DocId) :
    (Cndb.get e id).run.Returns (fun v => Holds v 128 (logBytes log))
      (((tableOf log).find id).bind fun r => fromBsonBytes r.payload) := by
  have hread := readRecord_returns hv hi id
  cases hf : (tableOf log).find id with
  | error err =>
    rw [hf] at hread
    exact returns_bind_error (returns_bind_error hread)
  | ok r =>
    rw [hf] at hread
    exact returns_bind (returns_bind hread (returns_pure _)) (returns_ofExcept _)

/-- There are fewer documents than 64-bit numbers. -/
theorem Shelf.Stored.length_lt {S : Shelf} (h : S.Stored (tableOf log)) (hv : ValidLog log) :
    S.docs.length + 1 < 2 ^ 64 := by
  have hnext := hv.tracks.next_le
  have hlog := hv.length_lt
  have hS := h.next
  omega

/-- **An insertion** is answered as the shelves answer it. -/
theorem Settled.insert_answer (hs : Settled e d.volatile l log)
    (hcur : D.current.Stored (tableOf log)) (hcom : D.committed.Stored (tableOf l))
    (hdirty : D.dirty = e.dirty) {v : Value} {y : Except CndbError DocId}
    (hv : ∀ bytes, toBsonBytes v = .ok bytes → fromBsonBytes bytes = .ok v)
    (h : ((Cndb.insert v).run.run e).exec d = some ((y, e'), d')) :
    forgetOffset (y.map .id) = (D.insert v).1 ∧ Shelved (e', d') (D.insert v).2 := by
  have hexec : ((Op.insert v).prog e).exec d = some ((y.map .id, e'), d') := reply_exec h
  obtain ⟨log', hsv, hs'⟩ := hs.serve_exec rfl hexec
  generalize hr : y.map Reply.id = r at hsv
  cases hsv with
  | notInserted hb =>
    rw [Shelves.insert, hb]
    cases y with
    | ok id => cases hr
    | error err =>
      cases hr
      refine ⟨?_, l, log, hs', hcur, hcom, hdirty⟩
      rcases toBsonBytes_error hb with rfl | ⟨message, rfl⟩ <;> rfl
  | @inserted _ bytes _ _ _ hb hsv =>
    rw [Shelves.insert, hb]
    cases hsv with
    | appendFailed hf => exact (Faults.not_canFail_never hf).elim
    | tooLarge hlen =>
      simp only
      rw [if_pos hlen]
      cases y with
      | ok id => cases hr
      | error err =>
        cases hr
        exact ⟨rfl, l, log, hs', hcur, hcom, hdirty⟩
    | appended hlen hfit =>
      simp only
      rw [if_neg (Nat.not_lt_of_le hlen)]
      cases y with
      | error err => cases hr
      | ok id =>
        cases hr
        refine ⟨?_, l, _, hs', ?_, hcom, rfl⟩
        · change Except.ok (Cndb.Answer.id e.index.allocateId.1) = .ok (.id D.current.nextId)
          rw [hs.handle.index, hs.handle.valid.tracks.allocateId_fst, hcur.nextId]
        · rw [tableOf_snoc]
          exact hcur.put (hcur.length_lt hs.handle.valid) (hv bytes hb)

/-- **A deletion** is answered as the shelves answer it. -/
theorem Settled.delete_answer (hs : Settled e d.volatile l log)
    (hcur : D.current.Stored (tableOf log)) (hcom : D.committed.Stored (tableOf l))
    (hdirty : D.dirty = e.dirty) {id : DocId} {y : Except CndbError Unit}
    (h : ((Cndb.delete id).run.run e).exec d = some ((y, e'), d')) :
    forgetOffset (y.map fun _ => .done) = (D.delete id).1 ∧ Shelved (e', d') (D.delete id).2 := by
  have hexec : ((Op.tombstone id).prog e).exec d = some ((y.map fun _ => .done, e'), d') :=
    reply_exec h
  obtain ⟨log', hsv, hs'⟩ := hs.serve_exec rfl hexec
  have ht := hs.handle.valid.tracks
  have hdead : e.index.dead = D.current.dead := by rw [hs.handle.index, ht.dead, hcur.dead]
  have hmem : id ∈ e.index.offsets ↔ (D.current.doc id).isSome := by
    rw [hs.handle.index, ← ht.mem_docs, hcur.mem_docs]
  generalize hr : y.map (fun _ => Reply.done) = r at hsv
  rw [Shelves.delete]
  cases hsv with
  | buryFailed hf => exact (Faults.not_canFail_never hf).elim
  | buried hid hd hfit =>
    rw [hdead] at hd
    obtain ⟨v, hv⟩ := Option.isSome_iff_exists.mp (hmem.mp hid)
    rw [Shelf.find_ok hd hv]
    cases y with
    | error err => cases hr
    | ok =>
      refine ⟨rfl, l, _, hs', ?_, hcom, rfl⟩
      rw [tableOf_snoc]
      exact hcur.take id
  | deleted hd =>
    rw [hdead] at hd
    rw [Shelf.find_deleted hd]
    cases y with
    | ok => cases hr
    | error err =>
      cases hr
      exact ⟨rfl, l, log, hs', hcur, hcom, hdirty⟩
  | notFound hd hid =>
    rw [hdead] at hd
    rw [Shelf.find_notFound hd (Option.not_isSome_iff_eq_none.mp (mt hmem.mpr hid))]
    cases y with
    | ok => cases hr
    | error err =>
      cases hr
      exact ⟨rfl, l, log, hs', hcur, hcom, hdirty⟩

/-- **A commit** is answered as the shelves answer it. -/
theorem Settled.commit_answer (hs : Settled e d.volatile l log)
    (hcur : D.current.Stored (tableOf log)) (hcom : D.committed.Stored (tableOf l))
    (hdirty : D.dirty = e.dirty) {order : IterOrder} {y : Except CndbError Unit}
    (h : ((Cndb.commit order).run.run e).exec d = some ((y, e'), d')) :
    forgetOffset (y.map fun _ => .done) = D.commit.1 ∧ Shelved (e', d') D.commit.2 := by
  have hlen : e.index.encodedLen = D.current.indexLen := by
    rw [hs.handle.index]
    exact hcur.indexLen hs.handle.valid
  have hreply : ((Op.commit order).prog e).exec d = some ((y.map fun _ => .done, e'), d') :=
    reply_exec h
  rw [Shelves.commit, hdirty, ← hlen]
  rcases hs.commit_exec_cases hreply with ⟨hd, hr, rfl, rfl⟩ | ⟨hd, hmax, hr, rfl, hg⟩ |
    ⟨hd, hle, hr, rfl, tr₁, d₁, hp, rfl⟩
  · rw [if_neg (by rw [hd]; exact Bool.false_ne_true)]
    cases y with
    | error err => cases hr
    | ok => exact ⟨rfl, l, log, hs, hcur, hcom, hdirty⟩
  · rw [if_pos hd, if_pos hmax]
    cases y with
    | ok => cases hr
    | error err =>
      cases hr
      exact ⟨rfl, l, log, hs.grow hg, hcur, hcom, hdirty⟩
  · rw [if_pos hd, if_neg (Nat.not_lt_of_le hle)]
    cases y with
    | error err => cases hr
    | ok =>
      refine ⟨rfl, _, _, hs.publish hp, ?_, ?_, rfl⟩
      · rw [tableOf_commitLog]
        exact hcur
      · rw [tableOf_commitLog]
        exact hcur

/-- The documents of a call come back, if it stores any. -/
def Cndb.Method.ComesBack : Cndb.Method → Prop
  | .insert v => ∀ bytes, toBsonBytes v = .ok bytes → fromBsonBytes bytes = .ok v
  | _ => True

/-- **Every call is answered as the shelves answer it**, and they are still stored. -/
theorem Cndb.Performs.stored {x x' : StorageEngine × Disk} {q : Cndb.Method}
    {r : Except CndbError Cndb.Answer} (hx : Shelved x D) (hq : q.ComesBack)
    (h : Cndb.Performs x q r x') :
    forgetOffset r = (D.answer q).1 ∧ Shelved x' (D.answer q).2 := by
  obtain ⟨l, log, hs, hcur, hcom, hdirty⟩ := hx
  have hlen := len_exact hs.handle.valid hs.handle.index
  have hids : x.1.liveIds = D.current.liveIds := by
    rw [liveIds_eq hs.handle.valid hs.handle.index]
    exact hcur.liveIds (by have := hcur.length_lt hs.handle.valid; omega)
  cases h with
  | insert h => exact hs.insert_answer hcur hcom hdirty hq h
  | delete h => exact hs.delete_answer hcur hcom hdirty h
  | commit h => exact hs.commit_answer hcur hcom hdirty h
  | @get e d d' id y h =>
    rw [(get_returns hs.handle.valid hs.handle.index id).exec_eq hs.backed.holds, hcur.find] at h
    cases h
    refine ⟨?_, l, log, hs, hcur, hcom, hdirty⟩
    rw [Shelves.answer, Shelf.find]
    split
    · rfl
    · split <;> rfl
  | @len e d =>
    refine ⟨?_, l, log, hs, hcur, hcom, hdirty⟩
    change Except.ok (Cndb.Answer.count e.len) = .ok (.count (UInt64.ofNat D.current.liveIds.card))
    rw [← hids, ← hlen.2, UInt64.ofNat_toNat]
  | @isEmpty e d =>
    refine ⟨?_, l, log, hs, hcur, hcom, hdirty⟩
    have hempty : e.isEmpty = decide (D.current.liveIds = ∅) := by
      rw [StorageEngine.isEmpty, decide_eq_decide, ← UInt64.toNat_inj, ← hids,
        ← Finset.card_eq_zero, ← hlen.2]
      exact Iff.rfl
    change Except.ok (Cndb.Answer.empty e.isEmpty) = _
    rw [hempty]
    rfl
  | ids =>
    refine ⟨?_, l, log, hs, hcur, hcom, hdirty⟩
    change Except.ok (Cndb.Answer.ids _) = _
    rw [Shelves.answer, ← hids]
    rfl
  | reopen h =>
    have hopen := h
    rw [hs.reopen_exec] at hopen
    cases hopen
    exact ⟨rfl, l, l, Settled.of_live hs.live, hcom, hcom, rfl⟩

/-- **Whole runs are answered as the shelves answer them.** -/
theorem Cndb.Run.stored {x x' : StorageEngine × Disk}
    {tr : List (Cndb.Method × Except CndbError Cndb.Answer)} (h : Cndb.Run x tr x')
    (hx : Shelved x D) (hq : ∀ q ∈ tr.map Prod.fst, q.ComesBack) :
    tr.map (fun qr => forgetOffset qr.2) = (D.run (tr.map Prod.fst)).1 ∧
      Shelved x' (D.run (tr.map Prod.fst)).2 := by
  induction h generalizing D with
  | nil => exact ⟨rfl, hx⟩
  | cons hstep _ ih =>
    rw [List.map_cons, List.forall_mem_cons] at hq
    obtain ⟨hr, hx'⟩ := hstep.stored hx hq.1
    obtain ⟨hrs, hend⟩ := ih hx' hq.2
    rw [List.map_cons, List.map_cons, Shelves.run, hr, hrs]
    exact ⟨rfl, hend⟩

end Simulation

end ContextDb
