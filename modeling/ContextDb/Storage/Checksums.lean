import ContextDb.Storage.Header
import ContextDb.Storage.Record

/-!
# What the checksums detect

Headers and payloads carry a CRC-32 each, and both detect every change within four
consecutive bytes (`ContextDb.checksums_catch_bursts`). For a payload that is the
property of the checksum, since the sum stands elsewhere. A header contains its
own sum, so a change is one of the sum or one of what is summed; the windows of
four bytes that touch both are the ones left out.
-/

namespace ContextDb

open ByteFile

open Crc32 (AgreeOutside hash_ne_of_agreeOutside)

/-! ### Headers -/

namespace Header

/-- What the checksum of a slot is taken over: the slot, with the checksum's own
field zeroed. -/
def probe (buf : Bytes) : Bytes := buf.take 40 ++ List.replicate 4 0 ++ buf.drop 44

/-- The checksum stored in a slot. -/
def storedCrc (buf : Bytes) : UInt32 := UInt32.ofNat (leNat (slice buf 40 44))

/-- **What decodes carries its checksum.** -/
theorem hash_probe_of_decode {buf : Bytes} {slot : Slot} {h : Header}
    (hd : decode buf slot = .ok h) : Crc32.hash (probe buf) = storedCrc buf := by
  by_contra hne
  rw [decode] at hd
  by_cases hmagic : slice buf 0 4 ≠ magic
  · simp only [if_pos hmagic] at hd
    cases hd
  · change Crc32.hash (buf.take 40 ++ List.replicate 4 0 ++ buf.drop 44) ≠
      UInt32.ofNat (leNat (slice buf 40 44)) at hne
    simp only [if_neg hmagic, if_pos hne] at hd
    cases hd

/-- Outside the checksum field a slot and its probe are the same. -/
theorem getElem?_probe {buf : Bytes} (hlen : buf.length = headerSize) {j : ℕ} :
    (probe buf)[j]? = if 40 ≤ j ∧ j < 44 then some 0 else buf[j]? := by
  have hsize : headerSize = 64 := rfl
  have h40 : (buf.take 40).length = 40 := by
    rw [List.length_take]
    omega
  have h44 : (buf.take 40 ++ List.replicate 4 0).length = 44 := by
    rw [List.length_append, h40, List.length_replicate]
  rw [probe]
  rcases Nat.lt_or_ge j 40 with hj | hj
  · rw [List.append_assoc, List.getElem?_append_left (by omega), List.getElem?_take_of_lt hj,
      if_neg (by omega)]
  rcases Nat.lt_or_ge j 44 with hj' | hj'
  · rw [List.getElem?_append_left (by omega), List.getElem?_append_right (by omega), h40,
      List.getElem?_replicate, if_pos (by omega), if_pos ⟨hj, hj'⟩]
  · rw [List.getElem?_append_right (by omega), h44, List.getElem?_drop, if_neg (by omega)]
    congr 1
    omega

theorem getElem?_slice (buf : Bytes) {j : ℕ} (hj : 40 ≤ j) (hj' : j < 44) :
    (slice buf 40 44)[j - 40]? = buf[j]? := by
  rw [slice, List.getElem?_take_of_lt (by omega), List.getElem?_drop]
  congr 1
  omega

/-- A slot is determined by its probe and its checksum field. -/
theorem eq_of_probe {buf buf' : Bytes} (hlen : buf.length = headerSize)
    (hlen' : buf'.length = headerSize) (hprobe : probe buf = probe buf')
    (hslice : slice buf 40 44 = slice buf' 40 44) : buf = buf' := by
  refine List.ext_getElem? fun j => ?_
  by_cases hj : 40 ≤ j ∧ j < 44
  · rw [← getElem?_slice buf hj.1 hj.2, hslice, getElem?_slice buf' hj.1 hj.2]
  · have h := congrArg (fun bs : Bytes => bs[j]?) hprobe
    simp only [getElem?_probe hlen, getElem?_probe hlen', if_neg hj] at h
    exact h

/-- The checksum field is what it denotes. -/
theorem slice_inj {buf buf' : Bytes} (hlen : buf.length = headerSize)
    (hlen' : buf'.length = headerSize) (h : storedCrc buf = storedCrc buf') :
    slice buf 40 44 = slice buf' 40 44 := by
  have hfour : ∀ bs : Bytes, bs.length = headerSize → (slice bs 40 44).length = 4 := by
    intro bs hbs
    rw [slice, List.length_take, List.length_drop, hbs]
    rfl
  have hlt : ∀ bs : Bytes, bs.length = headerSize → leNat (slice bs 40 44) < 2 ^ 32 := by
    intro bs hbs
    have := leNat_lt (slice bs 40 44)
    rwa [hfour bs hbs] at this
  have hnat := congrArg UInt32.toNat h
  rw [storedCrc, storedCrc, UInt32.toNat_ofNat', UInt32.toNat_ofNat', Nat.mod_eq_of_lt (hlt _ hlen),
    Nat.mod_eq_of_lt (hlt _ hlen')] at hnat
  exact leNat_inj (by rw [hfour _ hlen, hfour _ hlen']) hnat

/-- **Two slots that both decode** and agree outside four consecutive bytes, none
of them or all of them in the checksum field, are the same. -/
theorem eq_of_agreeOutside {buf buf' : Bytes} {slot : Slot} {h h' : Header} {i : ℕ}
    (hd : decode buf slot = .ok h) (hd' : decode buf' slot = .ok h')
    (hlen : buf.length = headerSize) (ha : AgreeOutside i buf buf')
    (hi : i = 40 ∨ i + 4 ≤ 40 ∨ 44 ≤ i) : buf = buf' := by
  have hlen' : buf'.length = headerSize := ha.1.symm.trans hlen
  have hcrc := hash_probe_of_decode hd
  have hcrc' := hash_probe_of_decode hd'
  have hprobe : AgreeOutside i (probe buf) (probe buf') := by
    refine ⟨?_, fun j hj => ?_⟩
    · rw [probe, probe]
      simp only [List.length_append, List.length_take, List.length_drop, hlen, hlen']
    · rw [getElem?_probe hlen, getElem?_probe hlen', ha.2 j hj]
  rcases hi with rfl | hout
  · -- the change is one of the checksum: what is summed is the same
    have hsame : probe buf = probe buf' := by
      refine List.ext_getElem? fun j => ?_
      rw [getElem?_probe hlen, getElem?_probe hlen']
      split
      · rfl
      · exact ha.2 j (by omega)
    refine eq_of_probe hlen hlen' hsame (slice_inj hlen hlen' ?_)
    rw [← hcrc, ← hcrc', hsame]
  · -- the change is one of what is summed: the checksum is the same
    have hslice : slice buf 40 44 = slice buf' 40 44 := by
      refine List.ext_getElem? fun j => ?_
      rw [slice, slice, List.getElem?_take, List.getElem?_take]
      split
      · rw [List.getElem?_drop, List.getElem?_drop]
        exact ha.2 _ (by omega)
      · rfl
    refine eq_of_probe hlen hlen' ?_ hslice
    by_contra hne
    refine hash_ne_of_agreeOutside hprobe hne ?_
    rw [hcrc, hcrc', storedCrc, hslice]
    rfl

end Header

/-! ### Headers and payloads -/

/-- **The checksums catch every short burst.** A header comes back, and a slot
that differs from it within four consecutive bytes, all of them in the checksum
field or none, is refused. The frame of a payload comes back, the payload passes
its check, and one of the same length that differs within four consecutive bytes
does not. -/
theorem checksums_catch_bursts (slot : Slot) (offset : UInt64) :
    (∀ h : Header, Header.decode h.encode slot = .ok h ∧
      ∀ buf i, AgreeOutside i h.encode buf → (i = 40 ∨ i + 4 ≤ 40 ∨ 44 ≤ i) → buf ≠ h.encode →
        ∃ e, Header.decode buf slot = .error e) ∧
    ∀ kind payload, payload.length ≤ maxRecordLen.toNat →
      ∃ frame, decodeFrame (encodeFrame kind payload) offset = .ok frame ∧
        frame.len.toNat = payload.length ∧ frame.kind = kind ∧
        verifyPayload frame payload offset = .ok () ∧
        ∀ payload' i, AgreeOutside i payload payload' → payload' ≠ payload →
          verifyPayload frame payload' offset = .error (.recordChecksum offset) := by
  constructor
  · intro h
    refine ⟨Header.decode_encode h slot, ?_⟩
    intro buf i ha hi hne
    rcases hd : Header.decode buf slot with e | h'
    · exact ⟨e, rfl⟩
    · exact absurd (Header.eq_of_agreeOutside (Header.decode_encode h slot) hd
        (Header.length_encode h) ha hi).symm hne
  · intro kind payload hlen
    refine ⟨_, decodeFrame_encodeFrame kind hlen offset, ?_, rfl, verifyPayload_self _ _ _ _, ?_⟩
    · have hmax := maxRecordLen_toNat
      change (UInt64.ofNat payload.length).toNat = _
      rw [UInt64.toNat_ofNat']
      exact Nat.mod_eq_of_lt (by omega)
    · intro payload' i ha hne
      rw [verifyPayload, if_pos (hash_ne_of_agreeOutside ha hne.symm).symm]

/-- The header of a new database with its last reserved byte set, and a payload
with its only byte changed. -/
theorem checksums_catch_bursts_small :
    (∃ e, Header.decode (Header.initial.encode.set 63 1) 0 = .error e) ∧
      ∃ frame, decodeFrame (encodeFrame .blob [7]) 128 = .ok frame ∧
        verifyPayload frame [8] 128 = .error (.recordChecksum 128) := by
  obtain ⟨hheader, hframe⟩ := checksums_catch_bursts 0 128
  refine ⟨(hheader .initial).2 _ 60 ⟨(List.length_set ..).symm, fun j hj => ?_⟩ ?_ ?_, ?_⟩
  · rw [List.getElem?_set_ne (by omega)]
  · decide
  · intro heq
    have hlast := congrArg (fun bs : Bytes => bs[63]?) heq
    simp [Header.encode, Header.withCrc] at hlast
  · obtain ⟨frame, hdecode, -, -, -, hburst⟩ := hframe .blob [7] (by decide)
    refine ⟨frame, hdecode, hburst [8] 0 ⟨rfl, fun j hj => ?_⟩ (by decide)⟩
    rw [List.getElem?_eq_none (by simp; omega), List.getElem?_eq_none (by simp; omega)]

end ContextDb
