import ContextDb.PingPong
import ContextDb.Storage.Accepting
import ContextDb.Storage.Creation

/-!
# The format of a database file

What a file must look like to be opened, told by its bytes and nothing else: no decoder
appears in it (`ContextDb.IsDatabase`). Two header slots, each spelled by the fields of a
header, a checksum and reserved bytes that are under the checksum and otherwise free
(`ContextDb.Header.Spelled`); a live one among them, by the generation and, where they tie,
by the slot; an end of the log within the file; and, unless the database is empty, a record
with the index, spelled as a blob (`ContextDb.MasterIndex.Spelled`). Of the documents the
format says nothing.

`ContextDb.file_format` states that exactly these files open, and as what.
-/

namespace ContextDb

open ByteFile Bincode FileProg Prog StorageEngine

/-! ### Header slots -/

namespace Header

/-- A slot with some value in its checksum field, and some reserved bytes. -/
def padded (h : Header) (crc : UInt32) (reserved : Bytes) : Bytes :=
  h.fields ++ (leBytes 4 crc.toNat ++ reserved)

/-- **A slot spells a header**: its fields, the checksum of the slot, and any twenty
bytes. -/
def Spelled (h : Header) (buf : Bytes) : Prop :=
  ∃ reserved : Bytes, reserved.length = 20 ∧
    buf = h.padded (Crc32.hash (h.padded 0 reserved)) reserved

/-- The slices of a slot, one after the other. -/
theorem take_append_slice (buf : Bytes) {a b : ℕ} (hab : a ≤ b) :
    buf.take a ++ slice buf a b = buf.take b := by
  rw [slice, ← List.take_add, Nat.add_sub_cancel' hab]

theorem length_slice {buf : Bytes} {a b : ℕ} (hb : b ≤ buf.length) :
    (slice buf a b).length = b - a := by
  rw [slice, List.length_take, List.length_drop]
  omega

/-- A slice of eight bytes is a 64-bit number. -/
theorem putU64_slice (buf : Bytes) (a : ℕ) (ha : a + 8 ≤ buf.length) :
    putU64 (UInt64.ofNat (leNat (slice buf a (a + 8)))) = slice buf a (a + 8) := by
  have hlen := length_slice (a := a) ha
  rw [Nat.add_sub_cancel_left] at hlen
  have hlt := leNat_lt (slice buf a (a + 8))
  have hle := leBytes_leNat (slice buf a (a + 8))
  rw [hlen] at hlt hle
  rw [putU64, UInt64.toNat_ofNat', Nat.mod_eq_of_lt (hlt.trans_le (by decide)), hle]

/-- A slice of four bytes is a 32-bit number. -/
theorem leBytes_slice (buf : Bytes) (a : ℕ) (ha : a + 4 ≤ buf.length) :
    leBytes 4 (UInt32.ofNat (leNat (slice buf a (a + 4)))).toNat = slice buf a (a + 4) := by
  have hlen := length_slice (a := a) ha
  rw [Nat.add_sub_cancel_left] at hlen
  have hlt := leNat_lt (slice buf a (a + 4))
  have hle := leBytes_leNat (slice buf a (a + 4))
  rw [hlen] at hlt hle
  rw [UInt32.toNat_ofNat', Nat.mod_eq_of_lt (hlt.trans_le (by decide)), hle]

/-- **What a slot that is accepted says.** -/
theorem decode_ok_cases {buf : Bytes} {slot : Slot} {h : Header} (hd : decode buf slot = .ok h) :
    slice buf 0 4 = magic ∧
      Crc32.hash (buf.take 40 ++ List.replicate 4 0 ++ buf.drop 44) =
        UInt32.ofNat (leNat (slice buf 40 44)) ∧
      UInt32.ofNat (leNat (slice buf 4 8)) = formatVersion ∧
      h = ⟨UInt64.ofNat (leNat (slice buf 8 16)), UInt64.ofNat (leNat (slice buf 16 24)),
        UInt64.ofNat (leNat (slice buf 24 32)), UInt64.ofNat (leNat (slice buf 32 40))⟩ := by
  rw [decode] at hd
  by_cases hmagic : slice buf 0 4 ≠ magic
  · simp only [if_pos hmagic] at hd
    cases hd
  simp only [if_neg hmagic] at hd
  by_cases hcrc : Crc32.hash (buf.take 40 ++ List.replicate 4 0 ++ buf.drop 44) ≠
      UInt32.ofNat (leNat (slice buf 40 44))
  · simp only [if_pos hcrc] at hd
    cases hd
  simp only [if_neg hcrc] at hd
  by_cases hversion : UInt32.ofNat (leNat (slice buf 4 8)) ≠ formatVersion
  · simp only [if_pos hversion] at hd
    cases hd
  simp only [if_neg hversion] at hd
  cases hd
  exact ⟨not_not.mp hmagic, not_not.mp hcrc, not_not.mp hversion, rfl⟩

/-- The fields of a slot, each where it stands. -/
theorem slice_fields (h : Header) (rest : Bytes) :
    slice (h.fields ++ rest) 0 4 = magic ∧
      slice (h.fields ++ rest) 4 8 = leBytes 4 formatVersion.toNat ∧
      slice (h.fields ++ rest) 8 16 = putU64 h.generation ∧
      slice (h.fields ++ rest) 16 24 = putU64 h.masterPtr ∧
      slice (h.fields ++ rest) 24 32 = putU64 h.masterLen ∧
      slice (h.fields ++ rest) 32 40 = putU64 h.logEnd := by
  rw [fields]
  refine ⟨?_, ?_, ?_, ?_, ?_, ?_⟩
  · simp only [List.append_assoc]
    rfl
  · simp only [List.append_assoc]
    exact slice_append rfl rfl
  · simp only [List.append_assoc]
    rw [← List.append_assoc magic]
    exact slice_append rfl (length_putU64 _)
  · rw [List.append_assoc, List.append_assoc, List.append_assoc]
    exact slice_append (by simp [magic]) (length_putU64 _)
  · rw [List.append_assoc, List.append_assoc]
    exact slice_append (by simp [magic]) (length_putU64 _)
  · rw [List.append_assoc]
    exact slice_append (by simp [magic]) (length_putU64 _)

/-- **A slot that spells a header** is accepted. -/
theorem decode_padded (h : Header) (slot : Slot) (reserved : Bytes) :
    decode (h.padded (Crc32.hash (h.padded 0 reserved)) reserved) slot = .ok h := by
  generalize hcrc : Crc32.hash (h.padded 0 reserved) = crc
  have hlt := crc.toNat_lt
  have hfields := h.slice_fields (leBytes 4 crc.toNat ++ reserved)
  rw [← padded] at hfields
  obtain ⟨hmagic, hversion, hg, hp, hl, he⟩ := hfields
  have hsum : slice (h.padded crc reserved) 40 44 = leBytes 4 crc.toNat :=
    slice_append h.length_fields (length_leBytes 4 _)
  -- what is summed: the slot with the checksum field zeroed
  have hprobe : (h.padded crc reserved).take 40 ++ List.replicate 4 0 ++
      (h.padded crc reserved).drop 44 = h.padded 0 reserved := by
    have h1 : (h.padded crc reserved).take 40 = h.fields := List.take_left' h.length_fields
    have h2 : (h.padded crc reserved).drop 44 = reserved := by
      rw [padded, ← List.append_assoc]
      exact List.drop_left' (by simp)
    rw [h1, h2, List.append_assoc]
    rfl
  have hsumNat : leNat (leBytes 4 crc.toNat) = crc.toNat := by
    rw [leNat_leBytes]
    exact Nat.mod_eq_of_lt (by omega)
  have hversionNat : UInt32.ofNat (leNat (leBytes 4 formatVersion.toNat)) = formatVersion := by
    decide
  simp only [decode, hmagic, hsum, hprobe, hcrc, hversion, hg, hp, hl, he, hsumNat, hversionNat,
    UInt32.ofNat_toNat, ofNat_leNat_putU64, ne_eq, not_true_eq_false, if_false]
  rfl

/-- **Which slots are accepted**: those that spell a header. -/
theorem decode_ok_iff {buf : Bytes} (hlen : buf.length = headerSize) (slot : Slot) {h : Header} :
    decode buf slot = .ok h ↔ h.Spelled buf := by
  rw [headerSize] at hlen
  constructor
  · intro hd
    obtain ⟨hmagic, hcrc, hversion, rfl⟩ := decode_ok_cases hd
    refine ⟨buf.drop 44, by rw [List.length_drop, hlen], ?_⟩
    -- the slot is its slices, and each of them is the encoding of what it was read as
    have hv : leBytes 4 formatVersion.toNat = slice buf 4 8 := by
      rw [← hversion]
      exact leBytes_slice buf 4 (by omega)
    have hg := putU64_slice buf 8 (by omega)
    have hp := putU64_slice buf 16 (by omega)
    have hl := putU64_slice buf 24 (by omega)
    have he := putU64_slice buf 32 (by omega)
    have hs := leBytes_slice buf 40 (by omega)
    have hfields : fields ⟨UInt64.ofNat (leNat (slice buf 8 16)),
        UInt64.ofNat (leNat (slice buf 16 24)), UInt64.ofNat (leNat (slice buf 24 32)),
        UInt64.ofNat (leNat (slice buf 32 40))⟩ = buf.take 40 := by
      rw [fields, hg, hp, hl, he, hv, ← hmagic]
      rw [show slice buf 0 4 = buf.take 4 from rfl, take_append_slice buf (by decide),
        take_append_slice buf (by decide), take_append_slice buf (by decide),
        take_append_slice buf (by decide), take_append_slice buf (by decide)]
    have hzero : leBytes 4 (0 : UInt32).toNat = List.replicate 4 0 := rfl
    rw [List.append_assoc] at hcrc
    rw [padded, padded, hfields, hzero, hcrc, hs, ← List.append_assoc,
      take_append_slice buf (by decide), List.take_append_drop]
  · rintro ⟨reserved, -, rfl⟩
    exact h.decode_padded slot reserved

end Header

/-! ### The live slot -/

/-- **Which header is live**: the one of the greater generation, and of two that tie the one
in the second slot. -/
theorem selectLive_ok_iff {slots : Slots} {h : Header} {s : Slot} :
    selectLive slots = .ok (h, s) ↔ slots s = some h ∧
      ∀ h', slots s.other = some h' → h'.generation < h.generation ∨
        (h'.generation = h.generation ∧ s = 1) := by
  constructor
  · intro hsel
    have hslot := slot_of_selectLive hsel
    refine ⟨hslot, fun h' hh' => ?_⟩
    have hle := le_of_selectLive hsel hh'
    rcases Nat.lt_or_eq_of_le hle with hlt | heq
    · exact Or.inl (UInt64.lt_iff_toNat_lt.mpr hlt)
    · refine Or.inr ⟨UInt64.toNat_inj.mp heq, ?_⟩
      obtain rfl | rfl := s.eq_zero_or_one
      · -- of two that tie the second one would have been selected
        rw [selectLive_some_some hslot hh', if_pos heq.ge] at hsel
        cases hsel
      · rfl
  · rintro ⟨hslot, hother⟩
    by_cases hnew : ∀ h', slots s.other = some h' → h'.generation < h.generation
    · exact selectLive_of_newer hslot fun h' hh' => UInt64.lt_iff_toNat_lt.mp (hnew h' hh')
    · push Not at hnew
      obtain ⟨h', hh', hge⟩ := hnew
      obtain hlt | ⟨heq, rfl⟩ := hother h' hh'
      · exact absurd hlt hge
      · rw [selectLive_some_some hh' hslot, if_pos (by rw [heq])]

/-! ### The file -/

/-- **A database file**, and the handle it spells. -/
structure IsDatabase (v : Bytes) (e : StorageEngine) : Prop where
  /-- The header region is there. -/
  length_le : 128 ≤ v.length
  /-- A slot is decoded if it spells a header. -/
  slots : ∀ s h, e.slots s = some h ↔ h.Spelled (slotBytes v s)
  /-- The live header is in its slot. -/
  live : e.slots e.liveSlot = some e.header
  /-- The other slot holds nothing newer. -/
  newest : ∀ h', e.slots e.liveSlot.other = some h' → h'.generation < e.header.generation ∨
    (h'.generation = e.header.generation ∧ e.liveSlot = 1)
  /-- The log ends within the file. -/
  logEnd_le : e.header.logEnd.toNat ≤ v.length
  /-- The index is empty if the header says so. -/
  index_default : e.header.masterLen = 0 → e.index = .default
  /-- Otherwise a record of its kind spells it. -/
  index_master : e.header.masterLen ≠ 0 → ∃ payload : Bytes,
    payload.length ≤ maxRecordLen.toNat ∧
    Holds v e.header.masterPtr.toNat (encodeFrame .masterIndex payload ++ payload) ∧
    e.index.Spelled payload
  /-- The next record goes to the end of the log. -/
  endOffset : e.endOffset = e.header.logEnd
  /-- There is nothing to commit. -/
  clean : e.dirty = false

/-- What a slot decodes to. -/
theorem decodedSlots_eq_some {v : Bytes} (hlen : 128 ≤ v.length) {s : Slot} {h : Header} :
    decodedSlots v s = some h ↔ h.Spelled (slotBytes v s) := by
  rw [decodedSlots_eq, ← Header.decode_ok_iff (length_slotBytes hlen s) s]
  cases Header.decode (slotBytes v s) s with
  | error err =>
    refine iff_of_false ?_ ?_
    · rintro ⟨⟩
    · rintro ⟨⟩
  | ok h' => exact (Option.some.injEq _ _).to_iff.trans (Except.ok.injEq _ _).to_iff.symm

/-- **The format of a database file.** Whoever wrote it, a file that is not empty opens
exactly when it is spelled like a database, and as the handle that it spells. -/
theorem file_format {v : Bytes} (hne : v ≠ []) (hv : v.length ≤ maxFileLen)
    (e : StorageEngine) : Opens v e ↔ IsDatabase v e := by
  rw [opens_iff_accepted hne hv]
  constructor
  · intro h
    obtain ⟨hlive, hnewest⟩ := selectLive_ok_iff.mp h.selected
    refine ⟨h.length_le, fun s hdr => ?_, ?_, ?_, h.logEnd_le, h.index_default, fun h0 => ?_,
      h.endOffset, h.clean⟩
    · rw [h.slots, decodedSlots_eq_some h.length_le]
    · rw [h.slots]
      exact hlive
    · rw [h.slots]
      exact hnewest
    · obtain ⟨payload, hmax, hholds, hdec⟩ := h.index_master h0
      exact ⟨payload, hmax, hholds, MasterIndex.decode_ok_iff.mp hdec⟩
  · intro h
    have hslots : e.slots = decodedSlots v := by
      funext s
      refine Option.ext fun hdr => ?_
      rw [h.slots, decodedSlots_eq_some h.length_le]
    refine ⟨h.length_le, hslots, ?_, h.logEnd_le, h.index_default, fun h0 => ?_, h.endOffset,
      h.clean⟩
    · rw [← hslots]
      exact selectLive_ok_iff.mpr ⟨h.live, h.newest⟩
    · obtain ⟨payload, hmax, hholds, hspelled⟩ := h.index_master h0
      exact ⟨payload, hmax, hholds, MasterIndex.decode_ok_iff.mpr hspelled⟩

/-- A committed file, with its master index. -/
theorem file_format_committed :
    letI := emptyDocuments
    ∃ v e, Opens v e ∧ IsDatabase v e ∧ e.header.masterLen = 64 ∧
      ∃ payload, Holds v 165 (encodeFrame .masterIndex payload ++ payload) ∧
        e.index.Spelled payload := by
  let _ := emptyDocuments
  obtain ⟨d, -, hs, hlen⟩ := small_run
  obtain ⟨d', -, hs', hlen'⟩ := small_commit hs hlen
  have hl := hs'.live
  obtain ⟨e, hopens, hheader⟩ : ∃ e, Opens d'.volatile e ∧ e.header = smallCommitted.header :=
    ⟨_, ⟨_, Live.open_exec (d := .ofImage d'.volatile) hl⟩, rfl⟩
  have hdb := (file_format hl.ne_nil (hlen'.trans (by decide)) e).mp hopens
  have hmaster : e.header.masterLen = 64 := by rw [hheader, smallCommitted_master.2]
  obtain ⟨payload, -, hholds, hspelled⟩ := hdb.index_master (by rw [hmaster]; decide)
  rw [hheader, smallCommitted_master.1] at hholds
  exact ⟨_, e, hopens, hdb, hmaster, payload, hholds, hspelled⟩

end ContextDb
