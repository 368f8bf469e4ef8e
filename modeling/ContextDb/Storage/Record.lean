import ContextDb.Error
import ContextDb.Lib.Bincode
import ContextDb.Lib.Crc32

/-!
# Record framing

Every record of the log is `[len: u32][kind: u8][crc32: u32][payload]`, with the
checksum taken over the payload alone. `ContextDb.encodeFrame` builds the nine
bytes before a payload, `ContextDb.decodeFrame` parses them and
`ContextDb.verifyPayload` checks a payload against them. They undo each other in
both directions: the frame of every payload within the limit comes back
(`ContextDb.decodeFrame_encodeFrame`), and nothing but the frame of a payload is
accepted with it (`ContextDb.encodeFrame_of_decodeFrame`). So records are told
apart where they begin (`ContextDb.encodeFrame_inj`).
-/

namespace ContextDb

open ByteFile

/-- Bytes of framing preceding every payload. -/
def recordHeaderSize : UInt64 := 9

/-- Largest payload accepted, a guard against absurd allocations when framing is
corrupt. -/
def maxRecordLen : UInt64 := 64 * 1024 * 1024

/-- What a record holds. -/
inductive RecordKind where
  /-- A graph node. -/
  | node
  /-- A graph edge. -/
  | edge
  /-- An unstructured document. -/
  | blob
  /-- Marks an earlier record dead. The payload is the target's identifier. -/
  | tombstone
  /-- A serialized master index, written by every commit. -/
  | masterIndex
  deriving DecidableEq

namespace RecordKind

/-- The tag of a kind on disk. -/
def tag : RecordKind → UInt8
  | node => 0
  | edge => 1
  | blob => 2
  | tombstone => 3
  | masterIndex => 4

/-- Parse a kind tag. `offset` only labels errors. -/
def fromTag (tag : UInt8) (offset : UInt64) : Except CndbError RecordKind :=
  match tag with
  | 0 => .ok node
  | 1 => .ok edge
  | 2 => .ok blob
  | 3 => .ok tombstone
  | 4 => .ok masterIndex
  | kind => .error (.unknownRecordKind kind offset)

/-- True for records that carry user data rather than engine bookkeeping. -/
def isDocument : RecordKind → Bool
  | node | edge | blob => true
  | tombstone | masterIndex => false

@[simp] theorem fromTag_tag (k : RecordKind) (offset : UInt64) : fromTag k.tag offset = .ok k := by
  cases k <;> rfl

/-- A tag that is accepted is that of the kind it is parsed to. -/
theorem tag_of_fromTag {t : UInt8} {offset : UInt64} {k : RecordKind}
    (h : fromTag t offset = .ok k) : t = k.tag := by
  unfold fromTag at h
  split at h <;> first | (cases h; rfl) | cases h

end RecordKind

/-- A record read back out of the log. -/
structure Record where
  /-- What the record holds. -/
  kind : RecordKind
  /-- Its contents. -/
  payload : Bytes
  deriving DecidableEq

/-- Build the 9-byte frame preceding `payload`. -/
def encodeFrame (kind : RecordKind) (payload : Bytes) : Bytes :=
  leBytes 4 payload.length ++ [kind.tag] ++ leBytes 4 (Crc32.hash payload).toNat

/-- A parsed frame, before its payload is read. -/
structure Frame where
  /-- Length of the payload. -/
  len : UInt64
  /-- What the record holds. -/
  kind : RecordKind
  /-- Checksum of the payload. -/
  crc : UInt32
  deriving DecidableEq

/-- Total on-disk size of the record, framing included. -/
def Frame.totalLen (frame : Frame) : UInt64 := recordHeaderSize + frame.len

/-- Parse a frame read from `offset`. -/
def decodeFrame (buf : Bytes) (offset : UInt64) : Except CndbError Frame := do
  let len : UInt64 := UInt64.ofNat (leNat (buf.take 4))
  if len > maxRecordLen then
    throw (.recordTooLarge offset len maxRecordLen)
  let kind ← RecordKind.fromTag (buf.getD 4 0) offset
  return { len, kind, crc := UInt32.ofNat (leNat ((buf.drop 5).take 4)) }

/-- Verify a payload against the checksum in its frame. -/
def verifyPayload (frame : Frame) (payload : Bytes) (offset : UInt64) : Except CndbError Unit :=
  if Crc32.hash payload ≠ frame.crc then .error (.recordChecksum offset) else .ok ()

/-! ### The bytes of a record -/

@[simp] theorem length_encodeFrame (kind : RecordKind) (payload : Bytes) :
    (encodeFrame kind payload).length = 9 := by
  simp [encodeFrame]

theorem maxRecordLen_toNat : maxRecordLen.toNat = 67108864 := by decide

theorem recordHeaderSize_toNat : recordHeaderSize.toNat = 9 := rfl

/-- **A frame comes back**, for every payload within the limit. -/
theorem decodeFrame_encodeFrame (kind : RecordKind) {payload : Bytes}
    (hlen : payload.length ≤ maxRecordLen.toNat) (offset : UInt64) :
    decodeFrame (encodeFrame kind payload) offset =
      .ok ⟨UInt64.ofNat payload.length, kind, Crc32.hash payload⟩ := by
  have hmax := maxRecordLen_toNat
  have hcrc := (Crc32.hash payload).toNat_lt
  have h1 : (encodeFrame kind payload).take 4 = leBytes 4 payload.length := by
    rw [encodeFrame, List.append_assoc]
    exact List.take_left' (length_leBytes 4 _)
  have h2 : (encodeFrame kind payload).getD 4 0 = kind.tag := by
    rw [encodeFrame, List.append_assoc, List.getD_eq_getElem?_getD,
      List.getElem?_append_right (by simp)]
    simp
  have h3 : ((encodeFrame kind payload).drop 5).take 4 =
      leBytes 4 (Crc32.hash payload).toNat := by
    rw [encodeFrame, List.drop_left' (by simp)]
    exact List.take_of_length_le (by simp)
  have hn : leNat (leBytes 4 payload.length) = payload.length := by
    rw [leNat_leBytes]
    exact Nat.mod_eq_of_lt (by omega)
  have hc : leNat (leBytes 4 (Crc32.hash payload).toNat) = (Crc32.hash payload).toNat := by
    rw [leNat_leBytes]
    exact Nat.mod_eq_of_lt (by omega)
  have hle : ¬UInt64.ofNat payload.length > maxRecordLen := by
    rw [gt_iff_lt, UInt64.lt_iff_toNat_lt, UInt64.toNat_ofNat', hmax]
    omega
  simp only [decodeFrame, h1, h2, h3, hn, hc, if_neg hle, RecordKind.fromTag_tag,
    UInt32.ofNat_toNat]
  rfl

/-- A payload passes the check of its own frame. -/
theorem verifyPayload_self (len : UInt64) (kind : RecordKind) (payload : Bytes) (offset : UInt64) :
    verifyPayload ⟨len, kind, Crc32.hash payload⟩ payload offset = .ok () := by
  simp [verifyPayload]

/-- What a frame that is accepted says. -/
theorem decodeFrame_ok {buf : Bytes} {offset : UInt64} {frame : Frame}
    (h : decodeFrame buf offset = .ok frame) :
    frame.len.toNat = leNat (buf.take 4) ∧ frame.len.toNat ≤ maxRecordLen.toNat ∧
      buf.getD 4 0 = frame.kind.tag ∧
      frame.crc.toNat = leNat ((buf.drop 5).take 4) := by
  have hfour : ∀ bs : Bytes, leNat (bs.take 4) < 2 ^ 32 := by
    intro bs
    exact (leNat_lt _).trans_le (Nat.pow_le_pow_right (n := 256) (by decide)
      (List.length_take_le 4 bs))
  rw [decodeFrame] at h
  by_cases hmax : UInt64.ofNat (leNat (buf.take 4)) > maxRecordLen
  · simp only [if_pos hmax] at h
    cases h
  simp only [if_neg hmax] at h
  cases hk : RecordKind.fromTag (buf.getD 4 0) offset with
  | error e =>
    rw [hk] at h
    cases h
  | ok kind =>
    rw [hk] at h
    cases h
    refine ⟨?_, ?_, RecordKind.tag_of_fromTag hk, ?_⟩
    · have := hfour buf
      rw [UInt64.toNat_ofNat']
      exact Nat.mod_eq_of_lt (by omega)
    · rw [gt_iff_lt, UInt64.lt_iff_toNat_lt] at hmax
      exact Nat.le_of_not_lt hmax
    · rw [UInt32.toNat_ofNat']
      exact Nat.mod_eq_of_lt (hfour _)

/-- **Only the bytes of a record are read as one**: what decodes as a frame that a
payload passes is the frame of that payload. -/
theorem encodeFrame_of_decodeFrame {buf payload : Bytes} {offset : UInt64} {frame : Frame}
    (hbuf : buf.length = 9) (hd : decodeFrame buf offset = .ok frame)
    (hp : payload.length = frame.len.toNat) (hv : verifyPayload frame payload offset = .ok ()) :
    payload.length ≤ maxRecordLen.toNat ∧ buf = encodeFrame frame.kind payload := by
  obtain ⟨hlen, hmax, htag, hcrc⟩ := decodeFrame_ok hd
  have hsum : Crc32.hash payload = frame.crc := by
    by_contra hne
    rw [verifyPayload, if_pos hne] at hv
    cases hv
  have h4 : (buf.take 4).length = 4 := by
    rw [List.length_take]
    omega
  have h5 : ((buf.drop 5).take 4).length = 4 := by
    rw [List.length_take, List.length_drop]
    omega
  have hfirst : buf.take 4 = leBytes 4 payload.length := by
    rw [← leBytes_leNat (buf.take 4), h4, ← hlen, hp]
  have hlast : buf.drop 5 = leBytes 4 (Crc32.hash payload).toNat := by
    rw [← List.take_of_length_le (l := buf.drop 5) (i := 4) (by rw [List.length_drop]; omega),
      ← leBytes_leNat ((buf.drop 5).take 4), h5, ← hcrc, hsum]
  have hmid : buf.drop 4 = buf.getD 4 0 :: buf.drop 5 := by
    rw [← List.getElem_eq_getD 0 (h := by omega)]
    exact (List.drop_eq_getElem_cons (by omega))
  refine ⟨hp ▸ hmax, ?_⟩
  rw [encodeFrame, ← List.take_append_drop 4 buf, hmid, hfirst, hlast, htag, List.append_assoc]
  rfl

/-- **A frame determines** the kind, the length and the checksum. -/
theorem encodeFrame_eq {k k' : RecordKind} {p p' : Bytes} (hp : p.length ≤ maxRecordLen.toNat)
    (hp' : p'.length ≤ maxRecordLen.toNat) (h : encodeFrame k p = encodeFrame k' p') :
    k = k' ∧ p.length = p'.length ∧ Crc32.hash p = Crc32.hash p' := by
  have hd := decodeFrame_encodeFrame k hp 0
  rw [h, decodeFrame_encodeFrame k' hp' 0] at hd
  obtain ⟨hlen, hk, hcrc⟩ : UInt64.ofNat p'.length = UInt64.ofNat p.length ∧ k' = k ∧
      Crc32.hash p' = Crc32.hash p := by simpa using hd
  have hmax := maxRecordLen_toNat
  have hlen' := congrArg UInt64.toNat hlen
  rw [UInt64.toNat_ofNat', UInt64.toNat_ofNat'] at hlen'
  exact ⟨hk.symm, by omega, hcrc.symm⟩

/-- **Records are told apart where they begin**: from the same bytes, no two
records can be read. -/
theorem encodeFrame_inj {k k' : RecordKind} {p p' q q' : Bytes}
    (hp : p.length ≤ maxRecordLen.toNat) (hp' : p'.length ≤ maxRecordLen.toNat)
    (h : encodeFrame k p ++ p ++ q = encodeFrame k' p' ++ p' ++ q') : k = k' ∧ p = p' ∧ q = q' := by
  rw [List.append_assoc, List.append_assoc] at h
  obtain ⟨hframe, hrest⟩ := List.append_inj h (by simp)
  obtain ⟨hk, hlen, -⟩ := encodeFrame_eq hp hp' hframe
  obtain ⟨hpayload, hq⟩ := List.append_inj hrest hlen
  exact ⟨hk, hpayload, hq⟩

end ContextDb
