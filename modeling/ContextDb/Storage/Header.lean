import ContextDb.Error
import ContextDb.Lib.Bincode
import ContextDb.Lib.Crc32

/-!
# The file header and its two-slot commit protocol

A file opens with two fixed 64-byte header slots. A commit writes a header with
an incremented generation into whichever slot is *older*, so the previous
generation's header stays intact for the entire write. On open both slots are
read and the valid one with the highest generation wins.

The two selectors, `ContextDb.selectLive` and `ContextDb.victimSlot`, are
written independently of each other in the engine, one with `max_by_key` and one
with `min_by_key`. What the rest of the development needs of them is here: a
slot whose header is strictly newer than the other one's is live, and the other
one is the victim (`ContextDb.selectLive_of_newer`,
`ContextDb.victimSlot_of_newer`).
-/

namespace ContextDb

open ByteFile Bincode

/-- Magic bytes opening every cndb file: `"CNDB"`. -/
def magic : Bytes := [0x43, 0x4E, 0x44, 0x42]

/-- On-disk format version, `0.3.0`. -/
def formatVersion : UInt32 := 0x00030000

/-- Size of a single header slot. -/
def headerSize : ℕ := 64

/-- Number of header slots. -/
def headerSlots : ℕ := 2

/-- Bytes reserved for headers; also the offset of the first log record. -/
def logStart : UInt64 := 128

/-- The index of a header slot: one of `headerSlots`. -/
abbrev Slot : Type := Fin 2

/-- There is a slot 0, so that slots can be written as numerals. -/
instance neZero_headerSlots : NeZero 2 := ⟨two_ne_zero⟩

/-- A decoded header slot. On disk, little-endian: magic in `0..4`, version in
`4..8`, the four fields in `8..40`, a CRC-32 in `40..44` and zeros in `44..64`. -/
structure Header where
  /-- Monotonic commit counter. The highest valid one is the live database. -/
  generation : UInt64
  /-- Offset of the master index record, or 0 when none has been written. -/
  masterPtr : UInt64
  /-- Length of the master index payload, or 0 when none has been written. -/
  masterLen : UInt64
  /-- First free byte of the log. The next append starts here. -/
  logEnd : UInt64
  deriving DecidableEq

/-- Both decoded slots. -/
abbrev Slots : Type := Slot → Option Header

namespace Header

/-- The header of a freshly created, empty database. -/
def initial : Header where
  generation := 0
  masterPtr := 0
  masterLen := 0
  logEnd := logStart

/-- The buffer of a slot before the checksum goes in. -/
def fields (h : Header) : Bytes :=
  magic ++ leBytes 4 formatVersion.toNat ++ putU64 h.generation ++ putU64 h.masterPtr ++
    putU64 h.masterLen ++ putU64 h.logEnd

/-- The buffer of a slot with a given value in its checksum field. -/
def withCrc (h : Header) (crc : UInt32) : Bytes :=
  h.fields ++ (leBytes 4 crc.toNat ++ List.replicate 20 0)

/-- **Serialize to the fixed 64-byte on-disk form**, checksum included. The
checksum is taken over the whole slot with its own field zeroed. -/
def encode (h : Header) : Bytes := h.withCrc (Crc32.hash (h.withCrc 0))

/-- The bytes `a..b` of a buffer. -/
def slice (buf : Bytes) (a b : ℕ) : Bytes := (buf.drop a).take (b - a)

/-- **Parse a header slot**, validating magic, checksum and version. `slot` only
labels errors. -/
def decode (buf : Bytes) (slot : Slot) : Except CndbError Header := do
  let found := slice buf 0 4
  if found ≠ magic then
    throw (.badMagic magic found)
  let storedCrc := UInt32.ofNat (leNat (slice buf 40 44))
  let probe := buf.take 40 ++ List.replicate 4 0 ++ buf.drop 44
  if Crc32.hash probe ≠ storedCrc then
    throw (.headerChecksum slot)
  let version := UInt32.ofNat (leNat (slice buf 4 8))
  if version ≠ formatVersion then
    throw (.unsupportedVersion version formatVersion)
  return {
    generation := UInt64.ofNat (leNat (slice buf 8 16))
    masterPtr := UInt64.ofNat (leNat (slice buf 16 24))
    masterLen := UInt64.ofNat (leNat (slice buf 24 32))
    logEnd := UInt64.ofNat (leNat (slice buf 32 40)) }

/-- Byte offset of a header slot. -/
def slotOffset (slot : Slot) : UInt64 := UInt64.ofNat (slot * headerSize)

theorem slotOffset_toNat (slot : Slot) : (slotOffset slot).toNat = 64 * (slot : ℕ) := by
  revert slot
  decide

/-! ### The bytes of a header -/

@[simp] theorem length_fields (h : Header) : h.fields.length = 40 := by
  simp [fields, magic]

@[simp] theorem length_withCrc (h : Header) (crc : UInt32) : (h.withCrc crc).length = 64 := by
  simp [withCrc]

@[simp] theorem length_encode (h : Header) : h.encode.length = headerSize := length_withCrc h _

/-- A slice that is one of three consecutive pieces. -/
theorem slice_append {as bs cs : Bytes} {a b : ℕ} (ha : as.length = a) (hb : bs.length = b - a) :
    slice (as ++ (bs ++ cs)) a b = bs := by
  rw [slice, List.drop_left' ha, List.take_left' hb]

/-- **A header comes back**, whatever its fields. -/
theorem decode_encode (h : Header) (slot : Slot) : decode h.encode slot = .ok h := by
  have hcrc := (Crc32.hash (h.withCrc 0)).toNat_lt
  -- the fields, each where it was written
  have hmagic : slice h.encode 0 4 = magic := by
    rw [encode, withCrc, fields]
    simp only [List.append_assoc]
    rfl
  have hver : slice h.encode 4 8 = leBytes 4 formatVersion.toNat := by
    rw [encode, withCrc, fields]
    simp only [List.append_assoc]
    exact slice_append rfl rfl
  have hgen : slice h.encode 8 16 = putU64 h.generation := by
    rw [encode, withCrc, fields]
    simp only [List.append_assoc]
    rw [← List.append_assoc magic]
    exact slice_append rfl (length_putU64 _)
  have hptr : slice h.encode 16 24 = putU64 h.masterPtr := by
    rw [encode, withCrc, fields, List.append_assoc, List.append_assoc, List.append_assoc]
    exact slice_append (by simp [magic]) (length_putU64 _)
  have hlen : slice h.encode 24 32 = putU64 h.masterLen := by
    rw [encode, withCrc, fields, List.append_assoc, List.append_assoc]
    exact slice_append (by simp [magic]) (length_putU64 _)
  have hend : slice h.encode 32 40 = putU64 h.logEnd := by
    rw [encode, withCrc, fields, List.append_assoc]
    exact slice_append (by simp [magic]) (length_putU64 _)
  have hsum : slice h.encode 40 44 = leBytes 4 (Crc32.hash (h.withCrc 0)).toNat := by
    rw [encode, withCrc]
    exact slice_append (length_fields h) (length_leBytes 4 _)
  -- what is summed: the header with the checksum field zeroed
  have hprobe : h.encode.take 40 ++ List.replicate 4 0 ++ h.encode.drop 44 = h.withCrc 0 := by
    have h1 : h.encode.take 40 = h.fields := by
      rw [encode, withCrc]
      exact List.take_left' (length_fields h)
    have h2 : h.encode.drop 44 = List.replicate 20 0 := by
      rw [encode, withCrc, ← List.append_assoc]
      exact List.drop_left' (by simp)
    rw [h1, h2, withCrc, List.append_assoc]
    rfl
  have hsumNat : leNat (leBytes 4 (Crc32.hash (h.withCrc 0)).toNat) =
      (Crc32.hash (h.withCrc 0)).toNat := by
    rw [leNat_leBytes]
    exact Nat.mod_eq_of_lt (by omega)
  have hverNat : UInt32.ofNat (leNat (leBytes 4 formatVersion.toNat)) = formatVersion := by
    decide
  simp only [decode, hmagic, hsum, hprobe, hver, hgen, hptr, hlen, hend, hsumNat, hverNat,
    UInt32.ofNat_toNat, ofNat_leNat_putU64, ne_eq, not_true_eq_false, if_false]
  rfl

end Header

/-! ### The slot selectors -/

/-- The element of greatest key, the last one of several. -/
def maxByKey {α : Type} (key : α → ℕ) : List α → Option α
  | [] => none
  | a :: l => some (l.foldl (fun best x => if key best ≤ key x then x else best) a)

/-- The element of least key, the first one of several. -/
def minByKey {α : Type} (key : α → ℕ) : List α → Option α
  | [] => none
  | a :: l => some (l.foldl (fun best x => if key x < key best then x else best) a)

/-- The slots in order, each with its index. -/
def enumerate (slots : Slots) : List (Slot × Option Header) := [(0, slots 0), (1, slots 1)]

/-- **Pick the live header** from the decoded slots: the valid slot with the
highest generation. It fails only when every slot failed to decode. -/
def selectLive (slots : Slots) : Except CndbError (Header × Slot) :=
  let valid := (enumerate slots).filterMap fun p => p.2.map fun h => (h, p.1)
  match maxByKey (fun p => p.1.generation.toNat) valid with
  | some p => .ok p
  | none => .error .noValidHeader

/-- **The slot a commit should overwrite**: any invalid slot, else the oldest. -/
def victimSlot (slots : Slots) : Slot :=
  match (enumerate slots).find? fun p => p.2.isNone with
  | some p => p.1
  | none =>
    -- every slot is valid here, so the default generation is never looked at
    match minByKey (fun p => (p.2.elim 0 Header.generation).toNat) (enumerate slots) with
    | some p => p.1
    | none => 0

/-- The other slot. -/
def Slot.other (s : Slot) : Slot := 1 - s

theorem Slot.eq_zero_or_one (s : Slot) : s = 0 ∨ s = 1 := by
  revert s
  decide

@[simp] theorem Slot.other_other (s : Slot) : s.other.other = s := by
  revert s
  decide

@[simp] theorem Slot.other_ne (s : Slot) : s.other ≠ s := by
  revert s
  decide

theorem Slot.eq_or_other (s t : Slot) : t = s ∨ t = s.other := by
  revert s t
  decide

/-- Two distinct slots are each other's other. -/
theorem Slot.eq_other_of_ne {s t : Slot} (h : t ≠ s) : t = s.other :=
  (Slot.eq_or_other s t).resolve_left h

/-- **A strictly newer slot is live.** -/
theorem selectLive_of_newer {slots : Slots} {s : Slot} {h : Header} (hs : slots s = some h)
    (hnew : ∀ h', slots s.other = some h' → h'.generation.toNat < h.generation.toNat) :
    selectLive slots = .ok (h, s) := by
  obtain rfl | rfl := s.eq_zero_or_one
  · rcases h1 : slots 1 with _ | h'
    · simp [selectLive, enumerate, hs, h1, maxByKey]
    · have hlt : h'.generation.toNat < h.generation.toNat := hnew h' h1
      simp [selectLive, enumerate, hs, h1, maxByKey, Nat.not_le.mpr hlt]
  · rcases h0 : slots 0 with _ | h'
    · simp [selectLive, enumerate, hs, h0, maxByKey]
    · have hlt : h'.generation.toNat < h.generation.toNat := hnew h' h0
      simp [selectLive, enumerate, hs, h0, maxByKey, hlt.le]

/-- **The slot opposite a strictly newer one is the victim.** -/
theorem victimSlot_of_newer {slots : Slots} {s : Slot} {h : Header} (hs : slots s = some h)
    (hnew : ∀ h', slots s.other = some h' → h'.generation.toNat < h.generation.toNat) :
    victimSlot slots = s.other := by
  obtain rfl | rfl := s.eq_zero_or_one
  · rcases h1 : slots 1 with _ | h'
    · simp [victimSlot, enumerate, hs, h1, Slot.other]
    · have hlt : h'.generation.toNat < h.generation.toNat := hnew h' h1
      simp [victimSlot, enumerate, hs, h1, minByKey, hlt, Slot.other]
  · rcases h0 : slots 0 with _ | h'
    · simp [victimSlot, enumerate, hs, h0, Slot.other]
    · have hlt : h'.generation.toNat < h.generation.toNat := hnew h' h0
      simp [victimSlot, enumerate, hs, h0, minByKey, Nat.not_lt.mpr hlt.le, Slot.other]

end ContextDb
