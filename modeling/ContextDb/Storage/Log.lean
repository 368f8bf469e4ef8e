import ContextDb.Storage.Index
import ContextDb.Storage.Header
import ContextDb.Storage.Record
import ContextDb.Lib.Disk

/-!
# Logs, and the state a log stands for

The file behind the header region is a log of records. This file says what such
a log is *for*, without a file: a log is a list of entries, its bytes are the
records of its entries one after the other (`ContextDb.logBytes`), and it stands
for a table of documents (`ContextDb.tableOf`) and for an index of offsets into
it (`ContextDb.indexOf`).

An entry remembers why it was appended. The kind of a record does not say so –
`append` takes any kind, that of a tombstone included – and the difference is
what a log stands for.

A log is *valid* (`ContextDb.ValidLog`) when every entry was acceptable where it
was appended: a document within the size limit, a tombstone of a live document,
a master record that serializes the index of the log before it. The main result
is that the two readings of a valid log agree (`ContextDb.ValidLog.tracks`):
the index has exactly the documents of the table, and each at the offset of the
entry that brought it.
-/

namespace ContextDb

open ByteFile FileProg

/-! ### Logs and their bytes -/

/-- **An entry of the log**, with the reason it was appended. -/
inductive Entry where
  /-- A document. -/
  | doc (r : Record)
  /-- The deletion of a document. -/
  | tomb (id : DocId)
  /-- The master index of a commit. -/
  | master (payload : Bytes)
  deriving DecidableEq

/-- The record of an entry. -/
def Entry.record : Entry → Record
  | .doc r => r
  | .tomb id => { kind := .tombstone, payload := Bincode.putU64 id.raw }
  | .master payload => { kind := .masterIndex, payload }

/-- A log: the entries of a file in order. -/
abbrev Log : Type := List Entry

/-- The bytes of a record: its frame and its payload. -/
def Record.bytes (r : Record) : Bytes := encodeFrame r.kind r.payload ++ r.payload

@[simp] theorem Record.length_bytes (r : Record) : r.bytes.length = 9 + r.payload.length := by
  simp [Record.bytes]

/-- The bytes of a log: its records, one after the other. -/
def logBytes (l : Log) : Bytes := l.flatMap fun e => e.record.bytes

/-- The offset behind a log, where its next record goes. -/
def tail (l : Log) : ℕ := logStart.toNat + (logBytes l).length

@[simp] theorem logBytes_nil : logBytes [] = [] := rfl

@[simp] theorem logBytes_append (l l' : Log) : logBytes (l ++ l') = logBytes l ++ logBytes l' := by
  simp [logBytes]

@[simp] theorem logBytes_cons (e : Entry) (l : Log) :
    logBytes (e :: l) = e.record.bytes ++ logBytes l := rfl

theorem tail_nil : tail [] = 128 := rfl

theorem tail_append (l l' : Log) : tail (l ++ l') = tail l + (logBytes l').length := by
  rw [tail, tail, logBytes_append, List.length_append, Nat.add_assoc]

theorem tail_snoc (l : Log) (e : Entry) :
    tail (l ++ [e]) = tail l + (9 + e.record.payload.length) := by
  simp [tail_append]

theorem le_tail (l : Log) : 128 ≤ tail l := Nat.le_add_right _ _

theorem tail_eq (l : Log) : tail l = 128 + (logBytes l).length := rfl

/-- A file in which a log stands covers it. -/
theorem tail_le_length {v : Bytes} {l : Log} (hv : 128 ≤ v.length)
    (hh : Holds v 128 (logBytes l)) : tail l ≤ v.length := by
  rcases eq_or_ne (logBytes l) [] with hnil | hne
  · rw [tail_eq, hnil, List.length_nil]
    exact hv
  · exact hh.length_le hne

/-- A prefix of a log ends no later. -/
theorem tail_le_of_isPrefix {l l' : Log} (h : l <+: l') : tail l ≤ tail l' := by
  obtain ⟨r, rfl⟩ := h
  rw [tail_append]
  exact Nat.le_add_right _ _

/-- A proper prefix of a log ends earlier. -/
theorem tail_lt_of_isPrefix {l l' : Log} (h : l <+: l') (hne : l ≠ l') : tail l < tail l' := by
  obtain ⟨r, rfl⟩ := h
  obtain _ | ⟨e, r⟩ := r
  · simp at hne
  · rw [tail_append, logBytes_cons, List.length_append, Record.length_bytes]
    omega

/-- Two prefixes of a log that end at one offset are equal. -/
theorem prefix_eq_of_tail_eq {l₁ l₂ l : Log} (h₁ : l₁ <+: l) (h₂ : l₂ <+: l)
    (ht : tail l₁ = tail l₂) : l₁ = l₂ := by
  rcases List.prefix_or_prefix_of_prefix h₁ h₂ with h | h
  · by_contra hne
    have := tail_lt_of_isPrefix h hne
    omega
  · by_contra hne
    have := tail_lt_of_isPrefix h (Ne.symm hne)
    omega

/-- An entry lies before every later record boundary. -/
theorem snoc_prefix_of_tail_lt {l pre pre' post : Log} {e : Entry} (hl : l = pre ++ e :: post)
    (hp : pre' <+: l) (hlt : tail pre < tail pre') : pre ++ [e] <+: pre' := by
  have hpre : pre ++ [e] <+: l := ⟨post, by rw [hl]; simp⟩
  rcases List.prefix_or_prefix_of_prefix hpre hp with h | h
  · exact h
  · rcases List.prefix_concat_iff.mp h with heq | h
    · rw [heq]
    · exact absurd (tail_le_of_isPrefix h) (Nat.not_le_of_lt hlt)

/-- Every entry takes at least the nine bytes of its frame. -/
theorem length_le_tail (l : Log) : 128 + 9 * l.length ≤ tail l := by
  induction l with
  | nil => rw [tail_nil, List.length_nil]
  | cons e l ih =>
    rw [tail_eq] at ih ⊢
    rw [logBytes_cons, List.length_append, Record.length_bytes, List.length_cons]
    omega

/-- The bytes of a prefix of a log stand where the log stands. -/
theorem holds_logBytes_of_isPrefix {v : Bytes} {l l' : Log} (h : Holds v 128 (logBytes l'))
    (hp : l <+: l') : Holds v 128 (logBytes l) := by
  obtain ⟨r, rfl⟩ := hp
  rw [logBytes_append] at h
  exact (holds_append_iff.mp h).1

/-- Appending a record behind a standing log. -/
theorem holds_logBytes_snoc {v : Bytes} {l : Log} {e : Entry} (h : Holds v 128 (logBytes l))
    (he : Holds v (tail l) e.record.bytes) : Holds v 128 (logBytes (l ++ [e])) := by
  rw [logBytes_append]
  refine holds_append_iff.mpr ⟨h, ?_⟩
  rw [logBytes_cons, logBytes_nil, List.append_nil]
  exact he

/-- A record of a standing log stands at its offset. -/
theorem holds_record {v : Bytes} {pre post : Log} {e : Entry}
    (h : Holds v 128 (logBytes (pre ++ e :: post))) : Holds v (tail pre) e.record.bytes := by
  rw [logBytes_append, logBytes_cons] at h
  exact (holds_append_iff.mp (holds_append_iff.mp h).2).1

/-! ### The index of a log -/

/-- What an entry at `offset` does to the index. -/
def MasterIndex.replay (m : MasterIndex) (offset : ℕ) : Entry → MasterIndex
  | .doc _ => m.allocateId.2.insert m.allocateId.1 (UInt64.ofNat offset)
  | .tomb id => { m with dead := Insert.insert id m.dead }
  | .master _ => m

/-- Replaying entries that stand from `offset` on. -/
def replayFrom : MasterIndex → ℕ → Log → MasterIndex
  | m, _, [] => m
  | m, offset, e :: l => replayFrom (m.replay offset e) (offset + e.record.bytes.length) l

/-- **The index of a log.** -/
def indexOf (l : Log) : MasterIndex := replayFrom .default logStart.toNat l

theorem replayFrom_append (m : MasterIndex) (offset : ℕ) (l l' : Log) :
    replayFrom m offset (l ++ l') =
      replayFrom (replayFrom m offset l) (offset + (logBytes l).length) l' := by
  induction l generalizing m offset with
  | nil => rfl
  | cons e l ih =>
    rw [List.cons_append, replayFrom, ih, replayFrom, logBytes_cons, List.length_append,
      Nat.add_assoc]

@[simp] theorem indexOf_nil : indexOf [] = .default := rfl

/-- **One more entry** is replayed at the end of the log. -/
theorem indexOf_snoc (l : Log) (e : Entry) : indexOf (l ++ [e]) = (indexOf l).replay (tail l) e :=
  replayFrom_append _ _ _ _

/-! ### The documents of a log -/

/-- **A table of documents**: what the store is for. -/
structure DocTable where
  /-- Every document ever stored, under its id. -/
  docs : Finmap fun _ : DocId => Record
  /-- The ids of the deleted ones. -/
  dead : Finset DocId
  /-- The next id to hand out. -/
  nextDocId : ℕ

namespace DocTable

/-- The empty table. -/
def empty : DocTable where
  docs := ∅
  dead := ∅
  nextDocId := 1

/-- The id the next document will have. -/
def nextId (t : DocTable) : DocId := ⟨UInt64.ofNat t.nextDocId⟩

/-- Store a document under the next id. -/
def add (t : DocTable) (r : Record) : DocTable where
  docs := t.docs.insert t.nextId r
  dead := t.dead
  nextDocId := t.nextDocId + 1

/-- Mark a document deleted. -/
def bury (t : DocTable) (id : DocId) : DocTable := { t with dead := insert id t.dead }

/-- What an entry of a log does to the table. -/
def apply (t : DocTable) : Entry → DocTable
  | .doc r => t.add r
  | .tomb id => t.bury id
  | .master _ => t

/-- What the table answers to a request for a document. -/
def find (t : DocTable) (id : DocId) : Except CndbError Record :=
  if id ∈ t.dead then .error (.deleted id)
  else match t.docs.lookup id with
    | none => .error (.notFound id)
    | some r => .ok r

theorem find_ok {t : DocTable} {id : DocId} {r : Record} :
    t.find id = .ok r ↔ id ∉ t.dead ∧ t.docs.lookup id = some r := by
  rw [find]
  split_ifs with hd
  · simp [hd]
  · cases t.docs.lookup id <;> simp [hd]

theorem find_deleted {t : DocTable} {id : DocId} :
    t.find id = .error (.deleted id) ↔ id ∈ t.dead := by
  rw [find]
  split_ifs with hd
  · simp [hd]
  · cases t.docs.lookup id <;> simp [hd]

/-- A document that is not found was never stored, or has been deleted. -/
theorem find_error {t : DocTable} {id : DocId} {err : CndbError} (h : t.find id = .error err) :
    err = .notFound id ∨ err = .deleted id := by
  rw [find] at h
  split_ifs at h with hd
  · cases h
    exact Or.inr rfl
  · cases hl : t.docs.lookup id with
    | none =>
      rw [hl] at h
      cases h
      exact Or.inl rfl
    | some r =>
      rw [hl] at h
      cases h

end DocTable

/-- **The documents of a log.** -/
def tableOf (l : Log) : DocTable := l.foldl DocTable.apply .empty

@[simp] theorem tableOf_nil : tableOf [] = .empty := rfl

theorem tableOf_append (l l' : Log) : tableOf (l ++ l') = l'.foldl DocTable.apply (tableOf l) :=
  List.foldl_append

@[simp] theorem tableOf_snoc (l : Log) (e : Entry) : tableOf (l ++ [e]) = (tableOf l).apply e :=
  tableOf_append l [e]

/-- **All documents of a log are of some kinds.** -/
def OfKinds (K : RecordKind → Prop) (l : Log) : Prop := ∀ r, .doc r ∈ l → K r.kind

section OfKinds

variable {K : RecordKind → Prop} {l l' : Log}

theorem ofKinds_nil : OfKinds K [] := fun _ h => by cases h

theorem OfKinds.of_isPrefix (h : OfKinds K l') (hp : l <+: l') : OfKinds K l :=
  fun r hr => h r (hp.subset hr)

theorem OfKinds.doc (h : OfKinds K l) {r : Record} (hr : K r.kind) : OfKinds K (l ++ [.doc r]) := by
  intro r' hr'
  rcases List.mem_append.mp hr' with hr' | hr'
  · exact h r' hr'
  · obtain rfl : r' = r := by simpa using hr'
    exact hr

theorem OfKinds.tomb (h : OfKinds K l) (id : DocId) : OfKinds K (l ++ [.tomb id]) := by
  intro r hr
  exact h r (by simpa using hr)

theorem OfKinds.master (h : OfKinds K l) (payload : Bytes) :
    OfKinds K (l ++ [.master payload]) := by
  intro r hr
  exact h r (by simpa using hr)

end OfKinds

/-! ### Valid logs -/

/-- **An entry acceptable behind a log.** -/
def EntryOk (l : Log) : Entry → Prop
  | .doc r => r.payload.length ≤ maxRecordLen.toNat
  | .tomb id => id ∈ (indexOf l).offsets ∧ id ∉ (indexOf l).dead
  | .master payload => payload.length ≤ maxRecordLen.toNat ∧
      ∃ order : IterOrder, payload = (indexOf l).serialize order

/-- **A valid log**: every entry was acceptable where it was appended, and the
log fits in a file. -/
structure ValidLog (l : Log) : Prop where
  /-- Every entry was acceptable behind the ones before it. -/
  entryOk : ∀ pre e post, l = pre ++ e :: post → EntryOk pre e
  /-- The log ends where a file can. -/
  fits : tail l ≤ maxFileLen

theorem validLog_nil : ValidLog [] where
  entryOk pre e post h := by simp at h
  fits := by decide

theorem ValidLog.of_isPrefix {l l' : Log} (h : ValidLog l') (hp : l <+: l') : ValidLog l where
  entryOk pre e post hl := by
    obtain ⟨r, rfl⟩ := hp
    exact h.entryOk pre e (post ++ r) (by rw [hl, List.append_assoc, List.cons_append])
  fits := (tail_le_of_isPrefix hp).trans h.fits

/-- **Appending an acceptable entry.** -/
theorem ValidLog.snoc {l : Log} {e : Entry} (h : ValidLog l) (he : EntryOk l e)
    (hfit : tail (l ++ [e]) ≤ maxFileLen) : ValidLog (l ++ [e]) where
  entryOk pre e' post hl := by
    rcases List.append_eq_append_iff.mp hl with ⟨a, ha, ha'⟩ | ⟨a, ha, ha'⟩
    · obtain _ | ⟨b, a⟩ := a
      · rw [List.nil_append] at ha'
        rw [List.append_nil] at ha
        injection ha' with h1 h2
        rw [← h1, ha]
        exact he
      · simp at ha'
    · obtain _ | ⟨b, a⟩ := a
      · rw [List.nil_append] at ha'
        rw [List.append_nil] at ha
        injection ha' with h1 h2
        rw [h1, ← ha]
        exact he
      · rw [List.cons_append] at ha'
        injection ha' with h1 h2
        exact h.entryOk pre e' a (by rw [ha, h1])
  fits := hfit

/-- The last entry of a valid log was acceptable. -/
theorem ValidLog.last {l : Log} {e : Entry} (h : ValidLog (l ++ [e])) : EntryOk l e :=
  h.entryOk l e [] rfl

/-! ### The index of a valid log is that of its documents -/

/-- **An index tracks a table**: it has its documents, each at the offset of the
entry that brought it. -/
structure Tracks (m : MasterIndex) (t : DocTable) (l : Log) : Prop where
  /-- Both would hand out the same id. -/
  next : m.nextDocId.toNat = t.nextDocId
  /-- Ids are handed out one for each entry at most. -/
  next_le : t.nextDocId ≤ l.length + 1
  /-- As many ids have been handed out as there are documents. -/
  card : m.offsets.keys.card + 1 = t.nextDocId
  /-- The ids are the numbers from one on. -/
  mem : ∀ id, id ∈ m.offsets ↔ 1 ≤ id.raw.toNat ∧ id.raw.toNat < t.nextDocId
  /-- An offset is that of the entry which brought the document. -/
  offset : ∀ id off, m.offsets.lookup id = some off → ∃ r pre post,
    t.docs.lookup id = some r ∧ l = pre ++ .doc r :: post ∧ off.toNat = tail pre
  /-- No two documents are at one offset. -/
  offset_inj : ∀ id id' off, m.offsets.lookup id = some off → m.offsets.lookup id' = some off →
    id = id'
  /-- What has no offset is no document. -/
  absent : ∀ id, m.offsets.lookup id = none → t.docs.lookup id = none
  /-- Both have the same documents marked deleted. -/
  dead : m.dead = t.dead
  /-- Only documents are marked deleted. -/
  dead_sub : m.dead ⊆ m.offsets.keys

theorem tracks_nil : Tracks .default .empty [] where
  next := rfl
  next_le := le_rfl
  card := rfl
  mem id := by
    refine ⟨fun h => (Finmap.notMem_empty h).elim, fun ⟨h1, h2⟩ => ?_⟩
    have : id.raw.toNat < 1 := h2
    omega
  offset id off h := by simp [MasterIndex.default] at h
  offset_inj id id' off h := by simp [MasterIndex.default] at h
  absent id _ := Finmap.lookup_empty id
  dead := rfl
  dead_sub := Finset.empty_subset _

namespace Tracks

variable {m : MasterIndex} {t : DocTable} {l : Log}

/-- The id about to be handed out is that of the table. -/
theorem allocateId_fst (h : Tracks m t l) : m.allocateId.1 = t.nextId := by
  rw [MasterIndex.allocateId, DocTable.nextId, ← h.next, UInt64.ofNat_toNat]

/-- The id about to be handed out is not in use. -/
theorem fresh (h : Tracks m t l) : (⟨m.nextDocId⟩ : DocId) ∉ m.offsets := by
  rw [h.mem]
  rintro ⟨-, hlt⟩
  rw [h.next] at hlt
  exact lt_irrefl _ hlt

/-- Both have the same documents. -/
theorem mem_docs (h : Tracks m t l) (id : DocId) : id ∈ t.docs ↔ id ∈ m.offsets := by
  rw [← Finmap.lookup_isSome, ← Finmap.lookup_isSome]
  cases ho : m.offsets.lookup id with
  | none =>
    rw [h.absent id ho]
    exact Iff.rfl
  | some off =>
    obtain ⟨r, -, -, hr, -⟩ := h.offset id off ho
    rw [hr]
    exact iff_of_true rfl rfl

/-- Entries that bring no document leave the offsets alone. -/
theorem offset_mono (h : Tracks m t l) (l' : Log) (id : DocId) (off : UInt64)
    (ho : m.offsets.lookup id = some off) : ∃ r pre post,
    t.docs.lookup id = some r ∧ l ++ l' = pre ++ .doc r :: post ∧ off.toNat = tail pre := by
  obtain ⟨r, pre, post, hr, hl, hoff⟩ := h.offset id off ho
  exact ⟨r, pre, post ++ l', hr, by rw [hl, List.append_assoc, List.cons_append], hoff⟩

/-- The id about to be handed out is not deleted. -/
theorem fresh_dead (h : Tracks m t l) : (⟨m.nextDocId⟩ : DocId) ∉ m.dead := fun hd =>
  h.fresh (Finmap.mem_keys.mp (h.dead_sub hd))

/-- **No document is at the end of the log.** -/
theorem offset_ne_tail (h : Tracks m t l) (ht : tail l < 2 ^ 64) (id : DocId) :
    m.offsets.lookup id ≠ some (UInt64.ofNat (tail l)) := by
  intro ho
  obtain ⟨r, pre, post, -, hl, hoff⟩ := h.offset id _ ho
  have hlt : tail pre < tail l := by
    rw [hl]
    exact tail_lt_of_isPrefix (List.prefix_append _ _) (by simp)
  rw [← hoff, UInt64.toNat_ofNat', Nat.mod_eq_of_lt ht] at hlt
  exact lt_irrefl _ hlt

/-- **The offsets behind a document**: the new one, and those before. -/
theorem lookup_doc {n : ℕ} {r : Record} {id : DocId} {off : UInt64}
    (ho : (m.replay n (.doc r)).offsets.lookup id = some off) :
    (id = ⟨m.nextDocId⟩ ∧ off = UInt64.ofNat n) ∨
      (id ≠ ⟨m.nextDocId⟩ ∧ m.offsets.lookup id = some off) := by
  change (m.offsets.insert (⟨m.nextDocId⟩ : DocId) (UInt64.ofNat n)).lookup id = some off at ho
  by_cases hid : id = ⟨m.nextDocId⟩
  · rw [hid, Finmap.lookup_insert] at ho
    exact Or.inl ⟨hid, (Option.some.inj ho).symm⟩
  · rw [Finmap.lookup_insert_of_ne _ hid] at ho
    exact Or.inr ⟨hid, ho⟩

/-- The ids behind a document are one more. -/
theorem mem_doc (h : Tracks m t l) {n : ℕ} {r : Record} (id : DocId) :
    id ∈ (m.replay n (.doc r)).offsets ↔ 1 ≤ id.raw.toNat ∧ id.raw.toNat < t.nextDocId + 1 := by
  have hpos : 1 ≤ t.nextDocId := by
    have := h.card
    omega
  change id ∈ m.offsets.insert ⟨m.nextDocId⟩ _ ↔ _
  rw [Finmap.mem_insert, h.mem]
  constructor
  · rintro (rfl | ⟨h1, h2⟩)
    · rw [h.next]
      omega
    · omega
  · rintro ⟨h1, h2⟩
    rcases Nat.lt_or_ge id.raw.toNat t.nextDocId with hlt | hge
    · exact Or.inr ⟨h1, hlt⟩
    · -- the one id that is new is the one handed out
      have heq : id.raw.toNat = m.nextDocId.toNat := by
        rw [h.next]
        omega
      obtain ⟨raw⟩ := id
      exact Or.inl (congrArg DocId.mk (UInt64.toNat_inj.mp heq))

/-- **A document is tracked** at the end of the log. -/
theorem doc (h : Tracks m t l) (r : Record) (hl : l.length + 2 < 2 ^ 64)
    (ht : tail l < 2 ^ 64) :
    Tracks (m.replay (tail l) (.doc r)) (t.add r) (l ++ [.doc r]) where
  next := by
    have hone : (1 : UInt64).toNat = 1 := rfl
    have hle := h.next_le
    change (m.nextDocId + 1).toNat = t.nextDocId + 1
    rw [UInt64.toNat_add, h.next, hone]
    exact Nat.mod_eq_of_lt (by omega)
  next_le := by
    rw [List.length_append, List.length_singleton]
    exact Nat.succ_le_succ h.next_le
  card := by
    change (m.offsets.insert ⟨m.nextDocId⟩ _).keys.card + 1 = t.nextDocId + 1
    rw [← h.card, keys_insert, Finset.card_insert_of_notMem]
    rw [Finmap.mem_keys]
    exact h.fresh
  mem := h.mem_doc
  offset id off ho := by
    have hid : t.nextId = ⟨m.nextDocId⟩ := h.allocateId_fst.symm
    rw [DocTable.add, hid]
    rcases lookup_doc ho with ⟨rfl, rfl⟩ | ⟨hne, ho⟩
    · refine ⟨r, l, [], Finmap.lookup_insert _, rfl, ?_⟩
      rw [UInt64.toNat_ofNat']
      exact Nat.mod_eq_of_lt ht
    · obtain ⟨r', pre, post, hr, hl', hoff⟩ := h.offset_mono [.doc r] id off ho
      exact ⟨r', pre, post, (Finmap.lookup_insert_of_ne _ hne).trans hr, hl', hoff⟩
  offset_inj id id' off ho ho' := by
    rcases lookup_doc ho with ⟨rfl, rfl⟩ | ⟨-, ho⟩
    · rcases lookup_doc ho' with ⟨rfl, -⟩ | ⟨-, ho'⟩
      · rfl
      · exact (h.offset_ne_tail ht _ ho').elim
    · rcases lookup_doc ho' with ⟨-, rfl⟩ | ⟨-, ho'⟩
      · exact (h.offset_ne_tail ht _ ho).elim
      · exact h.offset_inj _ _ _ ho ho'
  absent id ho := by
    have hid : t.nextId = ⟨m.nextDocId⟩ := h.allocateId_fst.symm
    change (m.offsets.insert (⟨m.nextDocId⟩ : DocId) (UInt64.ofNat (tail l))).lookup id =
      none at ho
    rw [DocTable.add, hid]
    by_cases hne : id = (⟨m.nextDocId⟩ : DocId)
    · rw [hne, Finmap.lookup_insert] at ho
      cases ho
    · rw [Finmap.lookup_insert_of_ne _ hne] at ho
      exact (Finmap.lookup_insert_of_ne _ hne).trans (h.absent id ho)
  dead := h.dead
  dead_sub id hmem := by
    have hold : id ∈ m.offsets := Finmap.mem_keys.mp (h.dead_sub hmem)
    exact Finmap.mem_keys.mpr (Finmap.mem_insert.mpr (Or.inr hold))

/-- **A deletion is tracked.** -/
theorem tomb (h : Tracks m t l) {id : DocId} (hid : id ∈ m.offsets) :
    Tracks (m.replay (tail l) (.tomb id)) (t.bury id) (l ++ [.tomb id]) where
  next := h.next
  next_le := by
    rw [List.length_append]
    exact h.next_le.trans (by simp)
  card := h.card
  mem := h.mem
  offset := h.offset_mono [.tomb id]
  offset_inj := h.offset_inj
  absent := h.absent
  dead := by
    change Insert.insert id m.dead = Insert.insert id t.dead
    rw [h.dead]
  dead_sub := by
    intro id' hmem
    rcases Finset.mem_insert.mp hmem with rfl | hmem
    · exact Finmap.mem_keys.mpr hid
    · exact h.dead_sub hmem

/-- **A master record changes nothing.** -/
theorem master (h : Tracks m t l) (payload : Bytes) : Tracks m t (l ++ [.master payload]) where
  next := h.next
  next_le := by
    rw [List.length_append]
    exact h.next_le.trans (by simp)
  card := h.card
  mem := h.mem
  offset := h.offset_mono [.master payload]
  offset_inj := h.offset_inj
  absent := h.absent
  dead := h.dead
  dead_sub := h.dead_sub

end Tracks

namespace ValidLog

variable {l : Log}

/-- The entries of a valid log are few enough to be counted by a machine word. -/
theorem length_lt (h : ValidLog l) : 9 * l.length + 128 < 2 ^ 63 := by
  have h1 := length_le_tail l
  have h2 := h.fits
  have h3 : maxFileLen = 2 ^ 63 - 1 := rfl
  omega

theorem tail_lt (h : ValidLog l) : tail l < 2 ^ 63 := by
  have h2 := h.fits
  have h3 : maxFileLen = 2 ^ 63 - 1 := rfl
  omega

/-- **The index of a valid log tracks its documents.** -/
theorem tracks (h : ValidLog l) : Tracks (indexOf l) (tableOf l) l := by
  induction l using List.reverseRecOn with
  | nil => exact tracks_nil
  | append_singleton l e ih =>
    have hl : ValidLog l := h.of_isPrefix (List.prefix_append _ _)
    have hlen := hl.length_lt
    have htail := hl.tail_lt
    rw [indexOf_snoc, tableOf_snoc]
    cases e with
    | doc r => exact (ih hl).doc r (by omega) (by omega)
    | tomb id => exact (ih hl).tomb h.last.1
    | master payload => exact (ih hl).master payload

/-- There are at most as many documents as entries. -/
theorem card_offsets_le (h : ValidLog l) : (indexOf l).offsets.keys.card ≤ l.length := by
  have h1 := h.tracks.card
  have h2 := h.tracks.next_le
  omega

/-- There are at most as many deletions as documents. -/
theorem card_dead_le (h : ValidLog l) :
    (indexOf l).dead.card ≤ (indexOf l).offsets.keys.card :=
  Finset.card_le_card h.tracks.dead_sub

/-- **A document outlives one more entry**, unless the entry deletes it. -/
theorem find_snoc {e : Entry} (h : ValidLog (l ++ [e])) {id : DocId} {r : Record}
    (hr : (tableOf l).find id = .ok r) :
    (tableOf (l ++ [e])).find id = .ok r ∨ (tableOf (l ++ [e])).find id = .error (.deleted id) := by
  have ht := (h.of_isPrefix (List.prefix_append _ _)).tracks
  rw [tableOf_snoc]
  cases e with
  | doc r' =>
    rw [DocTable.find_ok] at hr
    refine Or.inl (DocTable.find_ok.mpr ⟨hr.1, ?_⟩)
    have hne : id ≠ (tableOf l).nextId := by
      rintro rfl
      refine ht.fresh ?_
      have hmem : (tableOf l).nextId ∈ (tableOf l).docs :=
        Finmap.lookup_isSome.mp (by rw [hr.2]; rfl)
      rw [ht.mem_docs, ← ht.allocateId_fst] at hmem
      exact hmem
    exact (Finmap.lookup_insert_of_ne _ hne).trans hr.2
  | tomb id' =>
    rw [DocTable.find_ok] at hr
    by_cases hid : id = id'
    · subst hid
      exact Or.inr (DocTable.find_deleted.mpr (Finset.mem_insert_self _ _))
    · refine Or.inl (DocTable.find_ok.mpr ⟨fun hmem => ?_, hr.2⟩)
      rcases Finset.mem_insert.mp hmem with heq | hmem
      · exact hid heq
      · exact hr.1 hmem
  | master payload => exact Or.inl hr

/-- A deleted document stays deleted. -/
theorem dead_subset {l' : Log} (hp : l <+: l') : (tableOf l).dead ⊆ (tableOf l').dead := by
  obtain ⟨rest, rfl⟩ := hp
  induction rest using List.reverseRecOn with
  | nil => rw [List.append_nil]
  | append_singleton rest e ih =>
    rw [← List.append_assoc, tableOf_snoc]
    refine ih.trans ?_
    cases e with
    | tomb id => exact Finset.subset_insert _ _
    | doc | master => exact Finset.Subset.refl _

/-- **Documents outlive a longer log**, unless it deletes them. -/
theorem find_of_isPrefix {l' : Log} (h : ValidLog l') (hp : l <+: l') {id : DocId} {r : Record}
    (hr : (tableOf l).find id = .ok r) :
    (tableOf l').find id = .ok r ∨ (tableOf l').find id = .error (.deleted id) := by
  obtain ⟨rest, rfl⟩ := hp
  induction rest using List.reverseRecOn with
  | nil =>
    rw [List.append_nil]
    exact Or.inl hr
  | append_singleton rest e ih =>
    rw [← List.append_assoc] at h ⊢
    rcases ih (h.of_isPrefix (List.prefix_append _ _)) with hok | hdel
    · exact h.find_snoc hok
    · refine Or.inr (DocTable.find_deleted.mpr ?_)
      exact dead_subset (List.prefix_append _ _) (DocTable.find_deleted.mp hdel)

/-- **The index of a valid log comes back** from its serialization. -/
theorem decode_serialize (h : ValidLog l) (order : IterOrder) :
    MasterIndex.decode ((indexOf l).serialize order) = .ok (indexOf l) := by
  have h1 := h.card_offsets_le
  have h2 := h.card_dead_le
  have h3 := h.length_lt
  exact MasterIndex.decode_serialize order (by omega) (by omega)

end ValidLog

end ContextDb
