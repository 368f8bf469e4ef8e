import ContextDb.Refinement

/-!
# What the engine says about itself

`stats`, `is_empty` and `verify` report numbers: documents, deletions, records, bytes.
Each of them is read off another place – the tables of the index, the live header, the
end of the log in memory, the records in the file – and none is kept as a counter.
Nevertheless they add up. A caller who keeps books of its own (`ContextDb.Ledger`), from
nothing but its requests and the replies, finds every one of these numbers in them, after
any run and over any number of reopenings (`ContextDb.stats_account`).

The books are double: a balance of the current log and one of the committed log. A commit
copies the first to the second, and a reopening the second to the first. The one entry that
is not a request of the caller is the master record of a commit, and its size is a function
of the balance: 24 bytes, 16 for every document ever stored and 8 for every deleted one.
-/

namespace ContextDb

open ByteFile FileProg Prog StorageEngine

/-! ### Keeping books -/

/-- **The balance of a log.** -/
@[ext] structure Balance where
  /-- The documents that have been stored. -/
  docs : ℕ
  /-- Those of them that have been deleted. -/
  dead : ℕ
  /-- The records that have been written. -/
  records : ℕ
  /-- Where the last of them ends. -/
  size : ℕ
  deriving DecidableEq

namespace Balance

/-- The balance of a new database: its header region. -/
def new : Balance := ⟨0, 0, 0, 128⟩

/-- A document of `n` bytes is stored. -/
def store (B : Balance) (n : ℕ) : Balance :=
  ⟨B.docs + 1, B.dead, B.records + 1, B.size + (9 + n)⟩

/-- A document is deleted. -/
def delete (B : Balance) : Balance := ⟨B.docs, B.dead + 1, B.records + 1, B.size + (9 + 8)⟩

/-- The index is written. -/
def writeIndex (B : Balance) : Balance :=
  ⟨B.docs, B.dead, B.records + 1, B.size + (9 + (24 + 16 * B.docs + 8 * B.dead))⟩

end Balance

/-- **The books of a caller**: two balances, and two numbers of the handle. -/
structure Ledger where
  /-- What the open handle stands at. -/
  current : Balance
  /-- What a reopening would find. -/
  committed : Balance
  /-- How many commits have done work. -/
  generation : ℕ
  /-- Whether there is something to commit. -/
  dirty : Bool

namespace Ledger

/-- The books of a new database. -/
def new : Ledger := ⟨.new, .new, 0, false⟩

/-- A document of `n` bytes has been stored. -/
def store (L : Ledger) (n : ℕ) : Ledger :=
  { L with current := L.current.store n, dirty := true }

/-- A document has been deleted. -/
def delete (L : Ledger) : Ledger := { L with current := L.current.delete, dirty := true }

/-- A commit has returned. -/
def commit (L : Ledger) : Ledger :=
  if L.dirty then
    { current := L.current.writeIndex, committed := L.current.writeIndex
      generation := L.generation + 1, dirty := false }
  else L

/-- The handle was dropped, and the file opened again. -/
def reopen (L : Ledger) : Ledger := { L with current := L.committed, dirty := false }

/-- **Enter a request**, with its reply. One that was refused is not entered. -/
def book [Bson] (L : Ledger) (q : Request) (r : Except CndbError Reply) : Ledger :=
  match q, r with
  | .op (.append _ payload), .ok _ => L.store payload.length
  | .op (.insert doc), .ok _ => match toBsonBytes doc with
    | .ok bytes => L.store bytes.length
    | .error _ => L
  | .op (.tombstone _), .ok _ => L.delete
  | .op (.commit _), .ok _ => L.commit
  | .reopen, _ => L.reopen
  | _, _ => L

/-- Enter a run, request by request. -/
def run [Bson] (L : Ledger) (tr : List (Request × Except CndbError Reply)) : Ledger :=
  tr.foldl (fun L p => L.book p.1 p.2) L

end Ledger

/-! ### The balance of a log -/

/-- **The balance of a log**, read off its index. -/
def balanceOf (l : Log) : Balance where
  docs := (indexOf l).offsets.keys.card
  dead := (indexOf l).dead.card
  records := l.length
  size := tail l

section Entries

variable {l : Log}

/-- **A document is one more document**: its id is a new one. -/
theorem balanceOf_doc (h : ValidLog l) (r : Record) :
    balanceOf (l ++ [.doc r]) = (balanceOf l).store r.payload.length := by
  have hfresh := h.tracks.fresh
  ext
  · change (indexOf (l ++ [.doc r])).offsets.keys.card = (indexOf l).offsets.keys.card + 1
    rw [indexOf_snoc, MasterIndex.replay]
    change ((indexOf l).offsets.insert (indexOf l).allocateId.1 _).keys.card = _
    rw [keys_insert, Finset.card_insert_of_notMem]
    rwa [Finmap.mem_keys]
  · change (indexOf (l ++ [.doc r])).dead.card = (indexOf l).dead.card
    rw [indexOf_snoc]
    rfl
  · exact List.length_append
  · exact tail_snoc l (.doc r)

/-- **A tombstone is one more deletion**: its document was live. -/
theorem balanceOf_tomb {id : DocId} (hd : id ∉ (indexOf l).dead) :
    balanceOf (l ++ [.tomb id]) = (balanceOf l).delete := by
  have hlen : (Entry.tomb id).record.payload.length = 8 := Bincode.length_putU64 _
  ext
  · change (indexOf (l ++ [.tomb id])).offsets.keys.card = (indexOf l).offsets.keys.card
    rw [indexOf_snoc]
    rfl
  · change (indexOf (l ++ [.tomb id])).dead.card = (indexOf l).dead.card + 1
    rw [indexOf_snoc, MasterIndex.replay]
    change (insert id (indexOf l).dead).card = _
    rw [Finset.card_insert_of_notMem hd]
  · exact List.length_append
  · change tail (l ++ [.tomb id]) = tail l + (9 + 8)
    rw [tail_snoc, hlen]

/-- **A commit writes the index**, and its size is in the balance. -/
theorem balanceOf_commitLog {e : StorageEngine} (order : IterOrder) (hi : e.index = indexOf l) :
    balanceOf (commitLog e order l) = (balanceOf l).writeIndex := by
  have hlen : (Entry.master (commitPayload e order)).record.payload.length =
      24 + 16 * (balanceOf l).docs + 8 * (balanceOf l).dead := by
    change (e.index.serialize order).length = _
    rw [MasterIndex.length_serialize, hi]
    rfl
  have hindex : indexOf (commitLog e order l) = indexOf l := by
    rw [commitLog, indexOf_snoc]
    rfl
  ext
  · exact congrArg (fun m => m.offsets.keys.card) hindex
  · exact congrArg (fun m => m.dead.card) hindex
  · exact List.length_append
  · change tail (commitLog e order l) = tail l + _
    rw [commitLog, tail_snoc, hlen]

end Entries

/-! ### The books agree -/

/-- **Books that agree with a session**: they hold the balances of its two logs. -/
def Agrees (x : StorageEngine × Disk) (L : Ledger) : Prop :=
  ∃ l log, Settled x.1 x.2.volatile l log ∧ L.current = balanceOf log ∧
    L.committed = balanceOf l ∧ L.generation = x.1.header.generation.toNat ∧ L.dirty = x.1.dirty

theorem agrees_newStore : Agrees newStore .new := ⟨[], [], settled_created, rfl, rfl, rfl, rfl⟩

section Steps

variable [Bson] {e e' : StorageEngine} {log log' : Log} {L : Ledger}

/-- **A request but a commit** is entered as it is served. -/
theorem Serves.books {l : Log} {op : Op} {r : Except CndbError Reply}
    (hsv : Serves .never e log op r e' log') (h : Handle e l log) (hcur : L.current = balanceOf log)
    (hdirty : L.dirty = e.dirty) :
    (L.book (.op op) r).current = balanceOf log' ∧
      (L.book (.op op) r).committed = L.committed ∧
      (L.book (.op op) r).generation = L.generation ∧ (L.book (.op op) r).dirty = e'.dirty := by
  induction hsv with
  | @appended kind payload hlen hfit =>
    refine ⟨?_, rfl, rfl, rfl⟩
    rw [balanceOf_doc h.valid, ← hcur]
    rfl
  | @inserted doc bytes r e' log' hb hsv ih =>
    have hbook : L.book (.op (.insert doc)) r = L.book (.op (.append .blob bytes)) r := by
      cases r with
      | error err => rfl
      | ok reply =>
        change (match toBsonBytes doc with
          | .ok bytes => L.store bytes.length
          | .error _ => L) = _
        rw [hb]
        rfl
    rw [hbook]
    exact ih
  | buried hid hd hfit =>
    rw [h.index] at hd
    refine ⟨?_, rfl, rfl, rfl⟩
    rw [balanceOf_tomb hd, ← hcur]
    rfl
  | appendFailed hf | buryFailed hf => exact (Faults.not_canFail_never hf).elim
  | @read id =>
    -- what is read is not entered, whether it was found or not
    cases (tableOf log).find id with
    | ok | error => exact ⟨hcur, rfl, rfl, hdirty⟩
  | tooLarge | notInserted | deleted | notFound | len | liveIds =>
    exact ⟨hcur, rfl, rfl, hdirty⟩

/-- **Every request is entered as it is served**: the books agree after it as before. -/
theorem Performs.books {x x' : StorageEngine × Disk} {q : Request} {r : Except CndbError Reply}
    (hx : Agrees x L) (hp : Performs x q r x') : Agrees x' (L.book q r) := by
  obtain ⟨l, log, hs, hcur, hcom, hgen, hdirty⟩ := hx
  cases hp with
  | @op e e' d d' op r h =>
    cases hop : op.isCommit with
    | false =>
      obtain ⟨log', hsv, hs'⟩ := hs.serve_exec hop h
      obtain ⟨hcur', hcom', hgen', hdirty'⟩ := hsv.books hs.handle hcur hdirty
      refine ⟨l, log', hs', hcur', hcom'.trans hcom, ?_, hdirty'⟩
      rw [hgen', hgen, hsv.header_eq.1]
    | true =>
      obtain ⟨order, rfl⟩ := Op.eq_commit hop
      rcases hs.commit_exec_cases h with ⟨hd, rfl, rfl, rfl⟩ | ⟨-, -, rfl, rfl, hg⟩ |
        ⟨hd, -, rfl, rfl, tr₁, d₁, hprep, rfl⟩
      · have hclean : ¬L.dirty = true := by
          rw [hdirty, hd]
          exact Bool.false_ne_true
        change Agrees _ L.commit
        rw [Ledger.commit, if_neg hclean]
        exact ⟨l, log, hs, hcur, hcom, hgen, hdirty⟩
      · exact ⟨l, log, hs.grow hg, hcur, hcom, hgen, hdirty⟩
      · change Agrees _ L.commit
        rw [Ledger.commit, if_pos (hdirty.trans hd)]
        have hbal := balanceOf_commitLog order hs.handle.index
        refine ⟨_, _, hs.publish hprep, ?_, ?_, ?_, rfl⟩
        · rw [hbal, hcur]
        · rw [hbal, hcur]
        · change L.generation + 1 = (commitHeaderOf e order).generation.toNat
          rw [hs.handle.generation_succ, hgen]
  | reopen h =>
    have hopen := h
    rw [hs.reopen_exec] at hopen
    cases hopen
    exact ⟨l, l, Settled.of_live hs.live, hcom, hcom, hgen, rfl⟩

/-- **Whole runs** are entered as they are served. -/
theorem EngineRun.books {x x' : StorageEngine × Disk}
    {tr : List (Request × Except CndbError Reply)} (h : EngineRun x tr x') (hx : Agrees x L) :
    Agrees x' (L.run tr) := by
  induction h generalizing L with
  | nil => exact hx
  | cons hstep _ ih => exact ih (hstep.books hx)

end Steps

/-! ### What is reported -/

/-- **The numbers add up.** After every run from a new database, in which nothing fails,
everything the engine reports about itself is in the books of its caller: the generation,
the live and the deleted documents – no subtraction underflows – where the committed log
ends and where the current one does, whether there is something to commit, whether there
are no documents, and how many records `verify` reads. The committed log ends no later
than the current one, and at the same place exactly when there is nothing to commit; and
what has been written up to there is in the file. -/
theorem stats_account [Bson] {x : StorageEngine × Disk}
    {tr : List (Request × Except CndbError Reply)} (h : EngineRun newStore tr x) :
    let L := Ledger.new.run tr
    x.1.stats.generation.toNat = L.generation ∧
      x.1.stats.liveDocs.toNat + L.current.dead = L.current.docs ∧
      x.1.stats.deadDocs = L.current.dead ∧
      x.1.stats.committedLen.toNat = L.committed.size ∧
      x.1.stats.pendingLen.toNat = L.current.size ∧
      x.1.dirty = L.dirty ∧
      (x.1.isEmpty = true ↔ L.current.dead = L.current.docs) ∧
      x.1.verify.run.exec x.2 = some (.ok L.committed.records, x.2) ∧
      L.committed.size ≤ L.current.size ∧
      (L.committed.size = L.current.size ↔ L.dirty = false) ∧
      L.current.size ≤ x.2.volatile.length := by
  intro L
  obtain ⟨l, log, hs, hcur, hcom, hgen, hdirty⟩ := h.books agrees_newStore
  change L.current = _ at hcur
  change L.committed = _ at hcom
  change L.generation = _ at hgen
  change L.dirty = _ at hdirty
  have hend := hs.handle.describes.logEnd_toNat
  have hdead : x.1.index.dead.card = (balanceOf log).dead := by rw [hs.handle.index, balanceOf]
  have hlive : x.1.len.toNat + (balanceOf log).dead = (balanceOf log).docs := by
    have hsub := Finset.card_sdiff_add_card_eq_card hs.handle.valid.tracks.dead_sub
    rw [(len_exact hs.handle.valid hs.handle.index).2, StorageEngine.liveIds,
      MasterIndex.liveIds_eq_sdiff, hs.handle.index]
    exact hsub
  rw [hcur, hcom, hgen, hdirty]
  refine ⟨rfl, hlive, hdead, hend, hs.handle.endOffset, rfl, ?_, ?_, ?_, ?_, ?_⟩
  · rw [StorageEngine.isEmpty, decide_eq_true_iff, ← UInt64.toNat_inj]
    change x.1.len.toNat = 0 ↔ _
    omega
  · exact hs.verify_exec
  · exact tail_le_of_isPrefix hs.handle.committed
  · change tail l = tail log ↔ _
    constructor
    · intro heq
      have hsame : l = log :=
        prefix_eq_of_tail_eq hs.handle.committed (List.prefix_refl log) heq
      cases hd : x.1.dirty with
      | false => rfl
      | true => exact absurd hsame (hs.handle.dirty.mp hd)
    · intro hd
      rw [hs.handle.eq_of_clean hd]
  · exact hs.backed.tail_le

/-- The books of a new database in which a document of one byte has been committed. -/
theorem stats_account_committed :
    letI := emptyDocuments
    ∃ x, EngineRun newStore [(.op (.append .blob [7]), .ok (.id ⟨1⟩)),
        (.op (.commit .listed), .ok .done)] x ∧
      x.1.stats.liveDocs.toNat = 1 ∧ x.1.stats.committedLen.toNat = 187 ∧
      x.1.verify.run.exec x.2 = some (.ok 2, x.2) := by
  let _ := emptyDocuments
  obtain ⟨d₁, d₂, h₁, h₂, -⟩ := first_document (d := newStore.2) settled_created
  have hrun : EngineRun newStore [(.op (.append .blob [7]), .ok (.id ⟨1⟩)),
      (.op (.commit .listed), .ok .done)] (firstCommitted, d₂) :=
    .cons (.op h₁) (.cons (.op h₂) (.nil _))
  have hbooks : Ledger.new.run [(.op (.append .blob [7]), .ok (.id ⟨1⟩)),
      (.op (.commit .listed), .ok .done)] = ⟨⟨1, 0, 2, 187⟩, ⟨1, 0, 2, 187⟩, 1, false⟩ := rfl
  have haccount := stats_account hrun
  rw [hbooks] at haccount
  obtain ⟨-, hlive, -, hlen, -, -, -, hverify, -⟩ := haccount
  change _ + 0 = 1 at hlive
  rw [Nat.add_zero] at hlive
  exact ⟨_, hrun, hlive, hlen, hverify⟩

end ContextDb
