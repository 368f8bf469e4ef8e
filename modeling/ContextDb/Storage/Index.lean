import ContextDb.Error
import ContextDb.Lib.Bincode
import Mathlib.Data.Finmap

/-!
# The master index

Every in-memory lookup structure, in one committed blob: the offsets of the
documents, the set of tombstoned ones and the identifier allocator. The map and
the set are `Finmap` and `Finset`, so two indexes are equal exactly when they
hold the same entries – the order in which a hash map or a hash set is iterated
is no part of its value. Where that order *is* visible, in the bytes of a
serialized index, it is an argument: a `ContextDb.IterOrder`.

`ContextDb.MasterIndex.decode_serialize` is the round trip, for every order, and
`ContextDb.MasterIndex.length_serialize` the exact size of the blob, which no
order changes.
-/

namespace ContextDb

open ByteFile Bincode

/-- Document id to its byte offset in the log. -/
abbrev Offsets : Type := Finmap fun _ : DocId => UInt64

/-- All indexes, serialized as one record on each commit. -/
structure MasterIndex where
  /-- Document id to its byte offset in the log. -/
  offsets : Offsets
  /-- Documents tombstoned but not yet compacted away. -/
  dead : Finset DocId
  /-- Next id to hand out. Never reused, even after a delete. -/
  nextDocId : UInt64
  deriving DecidableEq

/-- **The order in which the hash tables of an index are iterated.** A list of
the entries of a map, and of the elements of a set, each exactly once. -/
structure IterOrder where
  /-- The entries of the offset map, in some order. -/
  entries : Offsets → List (DocId × UInt64)
  /-- The elements of the dead set, in some order. -/
  ids : Finset DocId → List DocId
  /-- Every entry is listed once. -/
  entries_spec : ∀ m, (((entries m).map fun p => ⟨p.1, p.2⟩ :
    List (Σ _ : DocId, UInt64)) : Multiset _) = m.entries
  /-- Every element is listed once. -/
  ids_spec : ∀ s, (ids s : Multiset DocId) = s.val

/-- Some order: the tables as they are listed. -/
noncomputable def IterOrder.listed : IterOrder where
  entries m := m.entries.toList.map fun p => (p.1, p.2)
  ids s := s.toList
  entries_spec m := by
    rw [List.map_map]
    exact (congrArg _ (List.map_id _)).trans m.entries.coe_toList
  ids_spec s := s.coe_toList

/-- What `bincode` reports when the input runs out. -/
def bincodeEof : String := "io error: unexpected end of file"

/-- A document id is serialized as the number behind it. -/
def putDocId (id : DocId) : Bytes := putU64 id.raw

/-- Take a document id from the front of the input. -/
def getDocId : Decoder DocId := fun bs => (getU64 bs).map fun r => (⟨r.1⟩, r.2)

namespace MasterIndex

/-- The index of an empty database. Ids start at 1 so 0 stays available as a
sentinel. -/
def default : MasterIndex where
  offsets := ∅
  dead := ∅
  nextDocId := 1

/-- Reserve the next document id. -/
def allocateId (self : MasterIndex) : DocId × MasterIndex :=
  (⟨self.nextDocId⟩, { self with nextDocId := self.nextDocId + 1 })

/-- Record where a document landed. -/
def insert (self : MasterIndex) (id : DocId) (offset : UInt64) : MasterIndex :=
  { self with offsets := self.offsets.insert id offset }

/-- Offset of a live document, or `none` if unknown or deleted. -/
def offsetOf (self : MasterIndex) (id : DocId) : Option UInt64 :=
  if id ∈ self.dead then none else self.offsets.lookup id

/-- True if the id exists and has not been deleted. -/
def isLive (self : MasterIndex) (id : DocId) : Bool := id ∈ self.offsets ∧ id ∉ self.dead

/-- Number of live documents, as a machine subtraction. -/
def liveCount (self : MasterIndex) : UInt64 :=
  UInt64.ofNat self.offsets.keys.card - UInt64.ofNat self.dead.card

/-- Number of tombstoned documents awaiting compaction. -/
def deadCount (self : MasterIndex) : ℕ := self.dead.card

/-- Every live document id, in no particular order. -/
def liveIds (self : MasterIndex) : Finset DocId := self.offsets.keys.filter fun id => id ∉ self.dead

/-- The bytes of a serialized index, its tables iterated in the given order. -/
def serialize (order : IterOrder) (self : MasterIndex) : Bytes :=
  putSeq (putPair putDocId putU64) (order.entries self.offsets) ++
    (putSeq putDocId (order.ids self.dead) ++ putU64 self.nextDocId)

/-- **Serialize for the master index record.** Writing these three fields into a
buffer is never refused. -/
def encode (order : IterOrder) (self : MasterIndex) : Except CndbError Bytes :=
  .ok (self.serialize order)

/-- Take the three fields from the front of the input. -/
def deserialize : Decoder MasterIndex := fun bs =>
  (getSeq (getPair getDocId getU64) bs).bind fun r =>
    (getSeq getDocId r.2).bind fun s =>
      (getU64 s.2).map fun t =>
        ({ offsets := r.1.foldl (fun m p => m.insert p.1 p.2) ∅
           dead := s.1.toFinset
           nextDocId := t.1 }, t.2)

/-- **Deserialize from a master index record payload.** Bytes behind the third
field are ignored. -/
def decode (bytes : Bytes) : Except CndbError MasterIndex :=
  match deserialize bytes with
  | some r => .ok r.1
  | none => .error (.corruptIndex bincodeEof)

end MasterIndex

/-! ### The size of a serialized index -/

@[simp] theorem length_putDocId (id : DocId) : (putDocId id).length = 8 := length_putU64 _

@[simp] theorem length_putPair_entry (p : DocId × UInt64) :
    (putPair putDocId putU64 p).length = 16 := by
  simp [putPair]

theorem IterOrder.length_entries (order : IterOrder) (m : Offsets) :
    (order.entries m).length = m.keys.card := by
  have h := congrArg Multiset.card (order.entries_spec m)
  rw [Multiset.coe_card, List.length_map] at h
  rw [h, Finset.card_def]
  exact (Multiset.card_map Sigma.fst m.entries).symm

theorem IterOrder.length_ids (order : IterOrder) (s : Finset DocId) :
    (order.ids s).length = s.card := by
  have h := congrArg Multiset.card (order.ids_spec s)
  rwa [Multiset.coe_card] at h

/-- The number of bytes of a serialized index. -/
def MasterIndex.encodedLen (self : MasterIndex) : ℕ :=
  24 + 16 * self.offsets.keys.card + 8 * self.dead.card

/-- **The size of a serialized index** is fixed by the numbers of its entries. -/
theorem MasterIndex.length_serialize (order : IterOrder) (self : MasterIndex) :
    (self.serialize order).length = self.encodedLen := by
  rw [serialize, List.length_append, List.length_append, length_putSeq length_putPair_entry,
    length_putSeq length_putDocId, length_putU64, order.length_entries, order.length_ids,
    encodedLen]
  omega

/-! ### The round trip -/

theorem inverts_docId : Inverts getDocId putDocId := by
  intro id rest
  rw [getDocId, putDocId, inverts_u64]
  rfl

/-- The keys of a map with one more entry. -/
theorem keys_insert (m : Offsets) (id : DocId) (offset : UInt64) :
    (m.insert id offset).keys = Insert.insert id m.keys := by
  ext x
  rw [Finset.mem_insert, Finmap.mem_keys, Finmap.mem_keys, Finmap.mem_insert]

/-- Inserting fresh entries one by one adds exactly them. -/
theorem entries_foldl_insert (l : List (DocId × UInt64)) (m : Offsets)
    (hnd : (l.map Prod.fst).Nodup) (hfresh : ∀ p ∈ l, p.1 ∉ m) :
    (l.foldl (fun m p => m.insert p.1 p.2) m).entries =
      m.entries + ((l.map fun p => ⟨p.1, p.2⟩ : List (Σ _ : DocId, UInt64)) : Multiset _) := by
  induction l generalizing m with
  | nil => simp
  | cons p l ih =>
    rw [List.map_cons, List.nodup_cons] at hnd
    have hp : p.1 ∉ m := hfresh p (by simp)
    have hrest : ∀ q ∈ l, q.1 ∉ m.insert p.1 p.2 := by
      intro q hq hmem
      rcases Finmap.mem_insert.mp hmem with heq | hmem
      · exact hnd.1 (List.mem_map.mpr ⟨q, hq, heq⟩)
      · exact hfresh q (by simp [hq]) hmem
    rw [List.foldl_cons, ih _ hnd.2 hrest, Finmap.entries_insert_of_notMem hp, List.map_cons,
      Multiset.cons_add, ← Multiset.cons_coe, Multiset.add_cons]

/-- No two entries have one id. -/
theorem IterOrder.nodup_entries (order : IterOrder) (m : Offsets) :
    ((order.entries m).map Prod.fst).Nodup := by
  have h := m.nodupKeys
  rw [← order.entries_spec m, Multiset.coe_nodupKeys, List.NodupKeys, List.keys,
    List.map_map] at h
  exact h

/-- **Refilling a map with its own entries gives it back**, in whatever order
they come. -/
theorem IterOrder.foldl_entries (order : IterOrder) (m : Offsets) :
    (order.entries m).foldl (fun m p => m.insert p.1 p.2) (∅ : Offsets) = m := by
  apply Finmap.ext
  rw [entries_foldl_insert _ _ (order.nodup_entries m) fun _ _ => Finmap.notMem_empty,
    order.entries_spec]
  exact Multiset.zero_add _

/-- Refilling a set with its own elements gives it back. -/
theorem IterOrder.toFinset_ids (order : IterOrder) (s : Finset DocId) :
    (order.ids s).toFinset = s := by
  ext id
  rw [List.mem_toFinset, ← Multiset.mem_coe, order.ids_spec]
  exact Iff.rfl

namespace MasterIndex

/-- Deserializing takes back what serializing wrote, whatever follows. -/
theorem inverts_serialize (order : IterOrder) {self : MasterIndex}
    (ho : self.offsets.keys.card < 2 ^ 64) (hd : self.dead.card < 2 ^ 64) :
    InvertsAt deserialize (serialize order) self := by
  intro rest
  have h1 := (inverts_docId.pair inverts_u64).seq (l := order.entries self.offsets)
    (by rw [order.length_entries]; exact ho)
  have h2 := inverts_docId.seq (l := order.ids self.dead) (by rw [order.length_ids]; exact hd)
  rw [deserialize, serialize, List.append_assoc, List.append_assoc, h1, Option.bind_some, h2,
    Option.bind_some, inverts_u64, Option.map_some, order.foldl_entries, order.toFinset_ids]

/-- The order in which the entries were iterated can be told from the bytes. -/
theorem entries_of_serialize {order order' : IterOrder} {self : MasterIndex}
    (ho : self.offsets.keys.card < 2 ^ 64) (h : self.serialize order = self.serialize order') :
    order.entries self.offsets = order'.entries self.offsets := by
  have hinv := inverts_docId.pair inverts_u64
  have h1 := hinv.seq (l := order.entries self.offsets)
    (by rw [order.length_entries]; exact ho)
  have h2 := hinv.seq (l := order'.entries self.offsets)
    (by rw [order'.length_entries]; exact ho)
  exact (h1.unique h2 h).1

/-- **The master index comes back**, whatever the order its tables were iterated
in, as long as their sizes are 64-bit numbers. -/
theorem decode_serialize (order : IterOrder) {self : MasterIndex}
    (ho : self.offsets.keys.card < 2 ^ 64) (hd : self.dead.card < 2 ^ 64) :
    decode (self.serialize order) = .ok self := by
  have h := inverts_serialize order ho hd []
  rw [List.append_nil] at h
  rw [decode, h]

/-! ### Blobs from elsewhere -/

/-- Filling a map makes no more entries than there are. -/
theorem card_foldl_insert_le (l : List (DocId × UInt64)) (m : Offsets) :
    (l.foldl (fun m p => m.insert p.1 p.2) m).keys.card ≤ m.keys.card + l.length := by
  induction l generalizing m with
  | nil => exact le_rfl
  | cons p l ih =>
    have hone : (m.insert p.1 p.2).keys.card ≤ m.keys.card + 1 := by
      rw [keys_insert]
      exact Finset.card_insert_le _ _
    rw [List.foldl_cons, List.length_cons]
    exact (ih _).trans (by omega)

/-- **No blob holds an index larger than itself**, whoever wrote it. -/
theorem encodedLen_le_of_decode {bytes : Bytes} {m : MasterIndex} (h : decode bytes = .ok m) :
    m.encodedLen ≤ bytes.length := by
  have hid : Consumes getDocId 8 := consumes_u64.map DocId.mk
  rw [decode] at h
  cases hdes : deserialize bytes with
  | none =>
    rw [hdes] at h
    cases h
  | some r =>
    rw [hdes] at h
    obtain ⟨⟨entries, mid⟩, hentries, hdes⟩ := Option.bind_eq_some_iff.mp hdes
    obtain ⟨⟨ids, mid'⟩, hids, hdes⟩ := Option.bind_eq_some_iff.mp hdes
    obtain ⟨⟨next, rest⟩, hnext, rfl⟩ := Option.map_eq_some_iff.mp hdes
    cases h
    have h₁ := (hid.pair consumes_u64).seq hentries
    have h₂ := hid.seq hids
    have h₃ := consumes_u64 _ _ _ hnext
    have hoffsets := card_foldl_insert_le entries ∅
    have hdead := List.toFinset_card_le ids
    rw [Finmap.keys_empty, Finset.card_empty] at hoffsets
    rw [encodedLen]
    simp only at *
    omega

/-! ### Which blobs are accepted -/

theorem exact_docId : Exact getDocId putDocId fun _ => True :=
  exact_u64.map (f := DocId.mk) (g := DocId.raw) (fun _ => rfl) fun _ => rfl

/-- **Of several entries with one id the last one counts.** -/
theorem lookup_foldl_insert (l : List (DocId × UInt64)) (id : DocId) :
    (l.foldl (fun m p => m.insert p.1 p.2) (∅ : Offsets)).lookup id =
      (l.reverse.find? fun p => p.1 = id).map Prod.snd := by
  induction l using List.reverseRecOn with
  | nil => exact Finmap.lookup_empty id
  | append_singleton l p ih =>
    rw [List.foldl_append, List.foldl_cons, List.foldl_nil, List.reverse_append,
      List.reverse_singleton, List.singleton_append, List.find?_cons]
    by_cases hp : p.1 = id
    · subst hp
      rw [decide_eq_true rfl, Finmap.lookup_insert]
      rfl
    · rw [decide_eq_false hp, Finmap.lookup_insert_of_ne _ (Ne.symm hp)]
      exact ih

/-- **What is deserialized**: two sequences and a number, and the rest is left. -/
theorem deserialize_eq_some {bytes rest : Bytes} {m : MasterIndex} :
    deserialize bytes = some (m, rest) ↔ ∃ (entries : List (DocId × UInt64)) (ids : List DocId),
      entries.length < 2 ^ 64 ∧ ids.length < 2 ^ 64 ∧
      bytes = putSeq (putPair putDocId putU64) entries ++
        (putSeq putDocId ids ++ (putU64 m.nextDocId ++ rest)) ∧
      m.offsets = entries.foldl (fun m p => m.insert p.1 p.2) ∅ ∧ m.dead = ids.toFinset := by
  have hentries := (exact_docId.pair exact_u64).seq
  have hids := exact_docId.seq
  constructor
  · intro h
    obtain ⟨⟨entries, mid⟩, hfirst, h⟩ := Option.bind_eq_some_iff.mp h
    obtain ⟨⟨ids, mid'⟩, hsecond, h⟩ := Option.bind_eq_some_iff.mp h
    obtain ⟨⟨next, rest'⟩, hthird, heq⟩ := Option.map_eq_some_iff.mp h
    cases heq
    obtain ⟨⟨hlen, -⟩, rfl⟩ := (hentries _ _ _).mp hfirst
    obtain ⟨⟨hlen', -⟩, rfl⟩ := (hids _ _ _).mp hsecond
    obtain ⟨-, rfl⟩ := (exact_u64 _ _ _).mp hthird
    exact ⟨entries, ids, hlen, hlen', rfl, rfl, rfl⟩
  · obtain ⟨offsets, dead, next⟩ := m
    rintro ⟨entries, ids, hlen, hlen', rfl, rfl, rfl⟩
    rw [deserialize, (hentries _ _ _).mpr ⟨⟨hlen, fun _ _ => ⟨trivial, trivial⟩⟩, rfl⟩,
      Option.bind_some, (hids _ _ _).mpr ⟨⟨hlen', fun _ _ => trivial⟩, rfl⟩, Option.bind_some,
      (exact_u64 _ _ _).mpr ⟨trivial, rfl⟩]
    rfl

/-- **A blob spells an index**: two sequences, of pairs of numbers and of numbers, a number,
and anything behind it. Of several offsets for one id the last one counts, and ids may be
deleted that have none. -/
def Spelled (m : MasterIndex) (bytes : Bytes) : Prop :=
  ∃ (entries : List (DocId × UInt64)) (ids : List DocId) (rest : Bytes),
    entries.length < 2 ^ 64 ∧ ids.length < 2 ^ 64 ∧
    bytes = putSeq (putPair putDocId putU64) entries ++
      (putSeq putDocId ids ++ (putU64 m.nextDocId ++ rest)) ∧
    (∀ id, m.offsets.lookup id = (entries.reverse.find? fun p => p.1 = id).map Prod.snd) ∧
    ∀ id, id ∈ m.dead ↔ id ∈ ids

/-- What decodes was deserialized. -/
theorem decode_ok {bytes : Bytes} {m : MasterIndex} :
    decode bytes = .ok m ↔ ∃ rest, deserialize bytes = some (m, rest) := by
  rw [decode]
  constructor
  · intro h
    cases hdes : deserialize bytes with
    | none =>
      rw [hdes] at h
      cases h
    | some r =>
      rw [hdes] at h
      cases h
      exact ⟨r.2, rfl⟩
  · rintro ⟨rest, hdes⟩
    rw [hdes]

/-- **A blob is decoded to the index it spells.** -/
theorem decode_ok_iff {bytes : Bytes} {m : MasterIndex} :
    decode bytes = .ok m ↔ m.Spelled bytes := by
  rw [decode_ok]
  constructor
  · rintro ⟨rest, hdes⟩
    obtain ⟨entries, ids, hlen, hlen', hbytes, hoffsets, hdead⟩ := deserialize_eq_some.mp hdes
    refine ⟨entries, ids, rest, hlen, hlen', hbytes, fun id => ?_, fun id => ?_⟩
    · rw [hoffsets, lookup_foldl_insert]
    · rw [hdead, List.mem_toFinset]
  · rintro ⟨entries, ids, rest, hlen, hlen', hbytes, hoffsets, hdead⟩
    refine ⟨rest, deserialize_eq_some.mpr ⟨entries, ids, hlen, hlen', hbytes, ?_, ?_⟩⟩
    · refine Finmap.ext_lookup fun id => ?_
      rw [hoffsets, lookup_foldl_insert]
    · ext id
      rw [hdead, List.mem_toFinset]

/-- **Which blobs are accepted**, whoever wrote them: those that spell an index. Any other
one is refused for running out. And what was accepted is an index like any other: encoded
again, in any order, it is no longer than it was and decodes to the same. -/
theorem decode_accepts (bytes : Bytes) :
    (∀ m, decode bytes = .ok m ↔ m.Spelled bytes) ∧
    (∀ err, decode bytes = .error err → err = .corruptIndex bincodeEof) ∧
    ∀ m order, decode bytes = .ok m → ∃ bytes', m.encode order = .ok bytes' ∧
      bytes'.length ≤ bytes.length ∧ decode bytes' = .ok m := by
  refine ⟨fun m => decode_ok_iff, fun err h => ?_, fun m order h => ?_⟩
  · rw [decode] at h
    cases hdes : deserialize bytes with
    | none =>
      rw [hdes] at h
      cases h
      rfl
    | some r =>
      rw [hdes] at h
      cases h
  · obtain ⟨rest, hdes⟩ := decode_ok.mp h
    obtain ⟨entries, ids, hlen, hlen', -, hoffsets, hdead⟩ := deserialize_eq_some.mp hdes
    have hcard := card_foldl_insert_le entries ∅
    rw [← hoffsets, Finmap.keys_empty, Finset.card_empty, Nat.zero_add] at hcard
    have hcard' := List.toFinset_card_le ids
    rw [← hdead] at hcard'
    refine ⟨m.serialize order, rfl, ?_, decode_serialize order (by omega) (by omega)⟩
    rw [length_serialize]
    exact encodedLen_le_of_decode h

/-! ### Counting the live documents -/

theorem liveIds_eq_sdiff (self : MasterIndex) : self.liveIds = self.offsets.keys \ self.dead := by
  ext id
  rw [liveIds, Finset.mem_filter, Finset.mem_sdiff]

/-- **When the live documents are counted right**: the subtraction does not
underflow and gives their number exactly when only documents are deleted. -/
theorem liveCount_exact_iff {self : MasterIndex} (ho : self.offsets.keys.card < 2 ^ 64)
    (hd : self.dead.card < 2 ^ 64) :
    (self.dead.card ≤ self.offsets.keys.card ∧ self.liveCount.toNat = self.liveIds.card) ↔
      self.dead ⊆ self.offsets.keys := by
  have hcount : self.dead.card ≤ self.offsets.keys.card →
      self.liveCount.toNat = self.offsets.keys.card - self.dead.card := by
    intro hle
    rw [liveCount, ← UInt64.ofNat_sub hle, UInt64.toNat_ofNat']
    exact Nat.mod_eq_of_lt (by omega)
  have hlive := Finset.card_sdiff_add_card_inter self.offsets.keys self.dead
  rw [← liveIds_eq_sdiff] at hlive
  constructor
  · rintro ⟨hle, heq⟩
    rw [hcount hle] at heq
    -- all that is deleted is among the documents, for there are as many of both
    have hinter : self.dead.card ≤ (self.offsets.keys ∩ self.dead).card := by omega
    have hall := Finset.eq_of_subset_of_card_le Finset.inter_subset_right hinter
    exact Finset.inter_eq_right.mp hall
  · intro hsub
    have hle := Finset.card_le_card hsub
    rw [Finset.inter_eq_right.mpr hsub] at hlive
    refine ⟨hle, ?_⟩
    rw [hcount hle]
    omega

/-! ### Truncated blobs -/

/-- Deserializing looks at the three fields only. -/
theorem local_deserialize : Local deserialize := by
  have hid : Local getDocId := local_u64.map DocId.mk
  exact (hid.pair local_u64).seq.bind fun entries => hid.seq.bind fun ids =>
    local_u64.map fun next =>
      MasterIndex.mk (entries.foldl (fun m p => m.insert p.1 p.2) ∅) ids.toFinset next

/-- **The master index round-trips and is truncation-proof.** Its encoding
decodes to it, and every strict prefix of the encoding is refused. A collection
counts its elements with a machine word, hence the bounds. -/
theorem encode_roundtrips (order : IterOrder) (self : MasterIndex)
    (ho : self.offsets.keys.card < 2 ^ 64) (hd : self.dead.card < 2 ^ 64) :
    ∃ bytes, self.encode order = .ok bytes ∧ decode bytes = .ok self ∧
      ∀ n < bytes.length, decode (bytes.take n) = .error (.corruptIndex bincodeEof) := by
  refine ⟨self.serialize order, rfl, decode_serialize order ho hd, fun n hn => ?_⟩
  have hne : (self.serialize order).take n ≠ self.serialize order := by
    intro heq
    have hlen := congrArg List.length heq
    rw [List.length_take] at hlen
    omega
  rw [decode, local_deserialize.truncated (inverts_serialize order ho hd)
    (List.take_prefix _ _) hne]

/-- An index with a document, deleted. -/
theorem encode_roundtrips_one :
    ∃ bytes, encode .listed ⟨(∅ : Offsets).insert ⟨1⟩ 128, {⟨1⟩}, 2⟩ = .ok bytes ∧
      decode bytes = .ok ⟨(∅ : Offsets).insert ⟨1⟩ 128, {⟨1⟩}, 2⟩ ∧
      ∀ n < bytes.length, decode (bytes.take n) = .error (.corruptIndex bincodeEof) :=
  encode_roundtrips .listed _ (by decide) (by decide)

end MasterIndex

end ContextDb
