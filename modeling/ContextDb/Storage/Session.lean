import ContextDb.Api
import ContextDb.Storage.Image
import ContextDb.Storage.Writing

/-!
# An open handle and its file

The invariant of a session, in two halves. `ContextDb.Handle` is about the
handle alone: the committed log and the current one, of which the header and the
index in memory are an account. `ContextDb.Backed` is about the image behind it:
the current log stands in the file, the live slot holds the live header, and the
other slot is damaged, older, or – after a commit that failed too late – exactly
one generation newer, with a log that the current one extends.

The two halves are kept apart because the first one evolves on its own: what a
handle answers, and what it becomes, does not depend on the image
(`ContextDb.Serves`). Two files may back one and the same handle.

* `ContextDb.Handle.append_doc`, `ContextDb.Handle.bury`,
  `ContextDb.Handle.append_master`, `ContextDb.Handle.publish` – one lemma for
  each change of a handle.
* `ContextDb.Backed.grow`, `ContextDb.Backed.snoc`,
  `ContextDb.Backed.write_header` – one lemma for each change of an image.
* `ContextDb.serve_safe` – every request but a commit keeps both.
* `ContextDb.Backed.live` – whatever a session leaves behind has a live log
  extending the committed one.
-/

namespace ContextDb

open ByteFile FileProg Prog StorageEngine

/-! ### Writes of a header that are cut short -/

/-- **A header write that is cut short is detected**: where the slot decodes at
all, it holds what it held before, or the whole new header. Other writes may be
cut short anywhere. -/
def TornSafe (v : Bytes) (off : ℕ) (bs : Bytes) (n : ℕ) : Prop :=
  ∀ (s : Slot) (h : Header), off = 64 * (s : ℕ) → bs.length = 64 →
    decodedSlots (writeAt v off (bs.take n)) s = some h →
    slotBytes (writeAt v off (bs.take n)) s = slotBytes v s ∨
      slotBytes (writeAt v off (bs.take n)) s = bs

/-- Every write that may be cut short is detected. -/
def Detected (F : Faults) : Prop :=
  ∀ v off bs n, bs.length = 64 → off + 64 ≤ 128 → F.write v off bs n ∨ F.cut v off bs n →
    TornSafe v off bs n

/-- What a slot holds after a header has been written to it, wholly or in part:
what it held before, or the header. -/
theorem slotBytes_cut {v : Bytes} {t : Slot} {hdr h' : Header} {n : ℕ}
    (hsafe : n = 64 ∨ TornSafe v (64 * (t : ℕ)) hdr.encode n)
    (hh' : decodedSlots (writeAt v (64 * (t : ℕ)) (hdr.encode.take n)) t = some h') :
    slotBytes (writeAt v (64 * (t : ℕ)) (hdr.encode.take n)) t = slotBytes v t ∨
      slotBytes (writeAt v (64 * (t : ℕ)) (hdr.encode.take n)) t = hdr.encode := by
  rcases hsafe with rfl | hsafe
  · rw [take_encode]
    exact Or.inr (slotBytes_of_holds (holds_writeAt _ _ _) (Header.length_encode hdr))
  · exact hsafe t h' rfl (Header.length_encode hdr) hh'

/-- A header write is no write to the log. -/
theorem not_logOnly_header {tr : Trace} {s : Slot} {bs : Bytes} {n : ℕ} :
    ¬LogOnly (tr ++ [⟨64 * (s : ℕ), bs, n⟩]) := by
  intro h
  have h1 : 128 ≤ 64 * (s : ℕ) := h _ (List.mem_append_right _ (List.mem_singleton_self _))
  have h2 := slot_le s
  omega

/-! ### The handle -/

/-- **A handle accounts for two logs**: the committed one, which its header
describes, and the current one, which its index indexes. -/
structure Handle (e : StorageEngine) (l log : Log) : Prop where
  /-- The committed log is where the current one comes from. -/
  committed : l <+: log
  /-- The current log is valid. -/
  valid : ValidLog log
  /-- The header describes the committed log. -/
  describes : Describes e.header l
  /-- The next record goes behind the current log. -/
  endOffset : e.endOffset.toNat = tail log
  /-- The index is that of the current log. -/
  index : e.index = indexOf log
  /-- The handle is dirty when there is something to commit. -/
  dirty : e.dirty = true ↔ l ≠ log
  /-- The live slot holds the header. -/
  slot : e.slots e.liveSlot = some e.header
  /-- The other slot holds nothing newer. -/
  older : ∀ h', e.slots e.liveSlot.other = some h' →
    h'.generation.toNat < e.header.generation.toNat

/-- The current log with the master record a commit appends. -/
def commitLog (e : StorageEngine) (order : IterOrder) (log : Log) : Log :=
  log ++ [.master (commitPayload e order)]

theorem prefix_commitLog (e : StorageEngine) (order : IterOrder) (log : Log) :
    log <+: commitLog e order log := List.prefix_append _ _

/-- A commit stores no document. -/
theorem tableOf_commitLog (e : StorageEngine) (order : IterOrder) (log : Log) :
    tableOf (commitLog e order log) = tableOf log := by
  rw [commitLog, tableOf_snoc]
  rfl

namespace Handle

variable {e : StorageEngine} {l log : Log}

/-- The victim is the slot that is not live. -/
theorem victim (h : Handle e l log) : commitSlot e = e.liveSlot.other :=
  victimSlot_of_newer h.slot h.older

theorem le_endOffset (h : Handle e l log) : 128 ≤ e.endOffset.toNat := by
  rw [h.endOffset]
  exact le_tail log

theorem endOffset_le (h : Handle e l log) : e.endOffset.toNat ≤ maxFileLen := by
  rw [h.endOffset]
  exact h.valid.fits

theorem ofNat_tail (h : Handle e l log) : UInt64.ofNat (tail log) = e.endOffset := by
  rw [← h.endOffset, UInt64.ofNat_toNat]

theorem committed_valid (h : Handle e l log) : ValidLog l := h.valid.of_isPrefix h.committed

/-- A clean handle has committed everything. -/
theorem eq_of_clean (h : Handle e l log) (hd : e.dirty = false) : l = log := by
  by_contra hne
  rw [h.dirty.mpr hne] at hd
  cases hd

theorem ne_snoc (h : Handle e l log) (x : Entry) : l ≠ log ++ [x] := by
  intro heq
  have hle := h.committed.length_le
  rw [heq, List.length_append, List.length_singleton] at hle
  omega

/-- A freshly opened handle. -/
theorem of_live {v : Bytes} {s : Slot} {h : Header} (hl : Live v s h l) :
    Handle (opened (decodedSlots v) s h l) l l where
  committed := List.prefix_refl l
  valid := hl.valid
  describes := hl.describes
  endOffset := hl.describes.logEnd_toNat
  index := rfl
  dirty := by simp [opened]
  slot := hl.decoded
  older h' hh' := (hl.older h' hh').2.1

/-- The log with one more entry, when there is room for it. -/
theorem valid_snoc (h : Handle e l log) {x : Entry} (hx : EntryOk log x)
    (hfit : e.endOffset.toNat + (9 + x.record.payload.length) ≤ maxFileLen) :
    ValidLog (log ++ [x]) := by
  refine h.valid.snoc hx ?_
  rw [tail_snoc, ← h.endOffset]
  exact hfit

/-- A handle after an append, once its index has followed. -/
theorem append (h : Handle e l log) {x : Entry} {n : ℕ} (hn : x.record.payload.length = n)
    (hx : EntryOk log x) (hfit : e.endOffset.toNat + (9 + n) ≤ maxFileLen) {m : MasterIndex}
    (hm : m = indexOf (log ++ [x])) : Handle { e.appended n with index := m } l (log ++ [x]) where
  committed := h.committed.trans (List.prefix_append _ _)
  valid := h.valid_snoc hx (by rw [hn]; exact hfit)
  describes := h.describes
  endOffset := by
    change (e.appended n).endOffset.toNat = _
    rw [appended_endOffset hfit, h.endOffset, tail_snoc, hn]
  index := hm
  dirty := ⟨fun _ => h.ne_snoc x, fun _ => rfl⟩
  slot := h.slot
  older := h.older

/-- **A document has been appended.** -/
theorem append_doc (h : Handle e l log) {r : Record} (hlen : r.payload.length ≤ maxRecordLen.toNat)
    (hfit : e.endOffset.toNat + (9 + r.payload.length) ≤ maxFileLen) :
    Handle ((e.appended r.payload.length).inserted e.endOffset) l (log ++ [.doc r]) := by
  refine h.append (x := .doc r) rfl hlen hfit ?_
  rw [indexOf_snoc, MasterIndex.replay, h.ofNat_tail, ← h.index]
  rfl

/-- **A document has been deleted.** -/
theorem bury (h : Handle e l log) {id : DocId} (hid : id ∈ e.index.offsets)
    (hd : id ∉ e.index.dead) (hfit : e.endOffset.toNat + (9 + 8) ≤ maxFileLen) :
    Handle ((e.appended 8).buried id) l (log ++ [.tomb id]) := by
  have hok : EntryOk log (.tomb id) := by
    rw [h.index] at hid hd
    exact ⟨hid, hd⟩
  refine h.append (x := .tomb id) (Bincode.length_putU64 _) hok hfit ?_
  rw [indexOf_snoc, MasterIndex.replay, ← h.index]
  rfl

/-- **A master record has been appended.** -/
theorem append_master (h : Handle e l log) {order : IterOrder}
    (hlen : (commitPayload e order).length ≤ maxRecordLen.toNat)
    (hfit : e.endOffset.toNat + (9 + (commitPayload e order).length) ≤ maxFileLen) :
    Handle (commitAppended e order) l (commitLog e order log) := by
  have hok : EntryOk log (.master (commitPayload e order)) :=
    ⟨hlen, order, by rw [commitPayload, h.index]⟩
  have happ := h.append (x := .master (commitPayload e order)) rfl hok hfit
    (m := e.index) (by rw [indexOf_snoc, MasterIndex.replay, h.index])
  exact happ

/-- Generations do not wrap around. -/
theorem generation_succ (h : Handle e l log) (order : IterOrder) :
    (commitHeaderOf e order).generation.toNat = e.header.generation.toNat + 1 := by
  have h1 := h.describes.generation_le
  have h2 := h.committed_valid.length_lt
  have h3 : (1 : UInt64).toNat = 1 := rfl
  change (e.header.generation + 1).toNat = _
  rw [UInt64.toNat_add, h3]
  exact Nat.mod_eq_of_lt (by omega)

/-- **The header of a commit describes the log with its master record.** -/
theorem describes_next (h : Handle e l log) {order : IterOrder}
    (hlen : (commitPayload e order).length ≤ maxRecordLen.toNat)
    (hfit : e.endOffset.toNat + (9 + (commitPayload e order).length) ≤ maxFileLen) :
    Describes (commitHeaderOf e order) (commitLog e order log) := by
  have hgen := h.generation_succ order
  have h1 := h.describes.generation_le
  have h2 := h.committed.length_le
  exact .commit h.endOffset (ofNat_length_toNat hlen) (h.append_master hlen hfit).endOffset
    (by omega) (by omega)

/-- **A commit has gone through.** -/
theorem publish (h : Handle e l log) {order : IterOrder}
    (hlen : (commitPayload e order).length ≤ maxRecordLen.toNat)
    (hfit : e.endOffset.toNat + (9 + (commitPayload e order).length) ≤ maxFileLen) :
    Handle ((commitAppended e order).published (commitHeaderOf e order))
      (commitLog e order log) (commitLog e order log) := by
  have ha := h.append_master hlen hfit
  have hlive : ((commitAppended e order).published (commitHeaderOf e order)).liveSlot =
      e.liveSlot.other := h.victim
  have hslots : ((commitAppended e order).published (commitHeaderOf e order)).slots =
      Function.update e.slots e.liveSlot.other (some (commitHeaderOf e order)) := by
    change Function.update e.slots (commitSlot e) _ = _
    rw [h.victim]
  refine ⟨List.prefix_refl _, ha.valid, h.describes_next hlen hfit, ha.endOffset, ha.index, ?_,
    ?_, fun h' hh' => ?_⟩
  · simp [published]
  · rw [hlive, hslots, Function.update_self]
    rfl
  · rw [hlive, hslots, Slot.other_other, Function.update_of_ne (Slot.other_ne e.liveSlot).symm,
      h.slot] at hh'
    cases hh'
    change e.header.generation.toNat < (commitHeaderOf e order).generation.toNat
    rw [h.generation_succ]
    exact Nat.lt_succ_self _

end Handle

/-! ### The image -/

/-- **An image backs a handle**: the current log stands in it, the live slot
holds the live header, and the other slot is damaged, or older, or one
generation newer with a log that the current one extends. -/
structure Backed (v : Bytes) (s : Slot) (h : Header) (l log : Log) : Prop where
  /-- The header region is there. -/
  length_le : 128 ≤ v.length
  /-- The live slot holds the live header. -/
  slot : slotBytes v s = h.encode
  /-- The current log stands in the file. -/
  holds : Holds v 128 (logBytes log)
  /-- The other slot. -/
  other : ∀ h', decodedSlots v s.other = some h' → slotBytes v s.other = h'.encode ∧
    ∃ l', Describes h' l' ∧
      ((h'.generation.toNat < h.generation.toNat ∧ l' <+: l ∧ l' ≠ l) ∨
       (h'.generation.toNat = h.generation.toNat + 1 ∧ l <+: l' ∧ l ≠ l' ∧ l' <+: log))

/-- Writes above the header region keep the bytes of its slots. -/
theorem slotBytes_grows {n : ℕ} {d d' : Disk} (hn : 128 ≤ n) (hlen : 128 ≤ d.volatile.length)
    (hg : Disk.Grows n d d') (s : Slot) :
    slotBytes d'.volatile s = slotBytes d.volatile s := by
  refine slotBytes_keep hlen (hg.holds (holds_slotBytes _ _) ?_)
  have := slot_le s
  rw [length_slotBytes hlen]
  omega

namespace Backed

variable {v : Bytes} {s : Slot} {h hdr : Header} {l log log' : Log}

/-- The file covers the current log. -/
theorem tail_le (hb : Backed v s h l log) : tail log ≤ v.length :=
  tail_le_length hb.length_le hb.holds

/-- **Writes behind the current log** change nothing. -/
theorem grow {d d' : Disk} (hb : Backed d.volatile s h l log)
    (hg : Disk.Grows (tail log) d d') : Backed d'.volatile s h l log where
  length_le := hb.length_le.trans hg.length_le
  slot := (slotBytes_grows (le_tail log) hb.length_le hg s).trans hb.slot
  holds := hg.holds hb.holds (by rw [tail_eq])
  other h' hh' := by
    have hother := slotBytes_grows (le_tail log) hb.length_le hg s.other
    rw [decodedSlots_congr hother] at hh'
    rw [hother]
    exact hb.other h' hh'

/-- **A record stands behind the current log.** -/
theorem snoc (hb : Backed v s h l log) {x : Entry} (hx : Holds v (tail log) x.record.bytes) :
    Backed v s h l (log ++ [x]) where
  length_le := hb.length_le
  slot := hb.slot
  holds := holds_logBytes_snoc hb.holds hx
  other h' hh' := by
    obtain ⟨henc, l', hd, hcase⟩ := hb.other h' hh'
    refine ⟨henc, l', hd, hcase.imp_right fun ⟨hgen, hp, hne, hp'⟩ => ?_⟩
    exact ⟨hgen, hp, hne, hp'.trans (List.prefix_append _ _)⟩

/-- **A header describing the current log has been written to the other slot**,
wholly or in part. -/
theorem write_header (hb : Backed v s h l log) (hd : Describes hdr log)
    (hgen : hdr.generation.toNat = h.generation.toNat + 1) (hp : l <+: log) (hne : l ≠ log)
    {n : ℕ} (hn : n ≤ 64) (hsafe : n = 64 ∨ TornSafe v (64 * (s.other : ℕ)) hdr.encode n) :
    Backed (writeAt v (64 * (s.other : ℕ)) (hdr.encode.take n)) s h l log where
  length_le := hb.length_le.trans (length_le_length_writeAt _ _ _)
  slot := by
    rw [slotBytes_writeAt_other hb.length_le (Slot.other_ne s).symm
      (by rw [List.length_take]; omega)]
    exact hb.slot
  holds := holds_log_writeAt_slot (by rw [List.length_take]; omega) hb.holds
  other h' hh' := by
    rcases slotBytes_cut hsafe hh' with hold | hnew
    · rw [decodedSlots_congr hold] at hh'
      rw [hold]
      exact hb.other h' hh'
    · rw [decodedSlots_of_encode hnew] at hh'
      cases hh'
      exact ⟨hnew, log, hd, Or.inr ⟨hgen, hp, hne, List.prefix_refl _⟩⟩

/-- **The current log has become the committed one.** -/
theorem publish (hb : Backed v s h l log) (hd : Describes h l) (hp : l <+: log) (hne : l ≠ log)
    (hgen : hdr.generation.toNat = h.generation.toNat + 1) :
    Backed (writeAt v (64 * (s.other : ℕ)) hdr.encode) s.other hdr log log where
  length_le := hb.length_le.trans (length_le_length_writeAt _ _ _)
  slot := slotBytes_of_holds (holds_writeAt _ _ _) (Header.length_encode hdr)
  holds := holds_log_writeAt_slot (Header.length_encode hdr).le hb.holds
  other h' hh' := by
    have hkeep : slotBytes (writeAt v (64 * (s.other : ℕ)) hdr.encode) s = h.encode := by
      rw [slotBytes_writeAt_other hb.length_le (Slot.other_ne s).symm
        (Header.length_encode hdr).le]
      exact hb.slot
    rw [Slot.other_other] at hh' ⊢
    rw [decodedSlots_of_encode hkeep] at hh'
    cases hh'
    exact ⟨hkeep, l, hd, Or.inl ⟨by omega, hp, hne⟩⟩

/-- While the other slot holds nothing newer, the committed log is live. -/
theorem live_of_older (hb : Backed v s h l log) (hv : ValidLog log) (hd : Describes h l)
    (hp : l <+: log)
    (hold : ∀ h', decodedSlots v s.other = some h' → h'.generation.toNat < h.generation.toNat) :
    Live v s h l where
  length_le := hb.length_le
  slot := hb.slot
  describes := hd
  valid := hv.of_isPrefix hp
  holds := holds_logBytes_of_isPrefix hb.holds hp
  older h' hh' := by
    have hlt := hold h' hh'
    obtain ⟨henc, l', hd', ⟨hgen, hp', hne⟩ | ⟨hgen, -⟩⟩ := hb.other h' hh'
    · exact ⟨henc, hgen, l', hd', hp', hne⟩
    · omega

/-- **Whatever a session leaves behind has a live log**: the committed one, or
that of a commit which failed too late. -/
theorem live (hb : Backed v s h l log) (hv : ValidLog log) (hd : Describes h l)
    (hp : l <+: log) :
    Live v s h l ∨ ∃ h' l', Live v s.other h' l' ∧
      h'.generation.toNat = h.generation.toNat + 1 ∧ l <+: l' ∧ l ≠ l' ∧ l' <+: log := by
  by_cases hold : ∀ h', decodedSlots v s.other = some h' →
      h'.generation.toNat < h.generation.toNat
  · exact Or.inl (hb.live_of_older hv hd hp hold)
  · push Not at hold
    obtain ⟨h', hh', hge⟩ := hold
    obtain ⟨henc, l', hd', ⟨hgen, -⟩ | ⟨hgen, hp', hne, hlog⟩⟩ := hb.other h' hh'
    · omega
    · refine Or.inr ⟨h', l', ⟨hb.length_le, henc, hd', hv.of_isPrefix hlog,
        holds_logBytes_of_isPrefix hb.holds hlog, fun h'' hh'' => ?_⟩, hgen, hp', hne, hlog⟩
      rw [Slot.other_other, decodedSlots_of_encode hb.slot] at hh''
      cases hh''
      rw [Slot.other_other]
      exact ⟨hb.slot, by omega, l, hd, hp', hne⟩

/-- Behind a clean handle the other slot holds nothing newer. -/
theorem older_of_clean (hb : Backed v s h l l) {h' : Header}
    (hh' : decodedSlots v s.other = some h') :
    h'.generation.toNat < h.generation.toNat := by
  obtain ⟨-, l', -, ⟨hgen, -⟩ | ⟨-, hp, hne, hp'⟩⟩ := hb.other h' hh'
  · exact hgen
  · exact absurd (hp.eq_of_length_le hp'.length_le) hne

/-- A log described by the other slot is a part of the current one as soon as it
is a part of any extension. -/
theorem prefix_of_other (hb : Backed v s h l log) (hp : l <+: log) (hlog : log <+: log')
    {h' : Header} {l' : Log} (hh' : decodedSlots v s.other = some h') (hd : Describes h' l')
    (hl' : l' <+: log') : l' <+: log := by
  obtain ⟨-, l'', hd'', hcase⟩ := hb.other h' hh'
  have hl'' : l'' <+: log := by
    rcases hcase with ⟨-, hp', -⟩ | ⟨-, -, -, hp'⟩
    · exact hp'.trans hp
    · exact hp'
  have heq : l' = l'' := by
    refine prefix_eq_of_tail_eq hl' (hl''.trans hlog) ?_
    rw [← hd.logEnd_toNat, ← hd''.logEnd_toNat]
  rw [heq]
  exact hl''

/-- A freshly opened image. -/
theorem of_live (hl : Live v s h l) : Backed v s h l l where
  length_le := hl.length_le
  slot := hl.slot
  holds := hl.holds
  other h' hh' := by
    obtain ⟨henc, hgen, l', hd, hp, hne⟩ := hl.older h' hh'
    exact ⟨henc, l', hd, Or.inl ⟨hgen, hp, hne⟩⟩

end Backed

end ContextDb
