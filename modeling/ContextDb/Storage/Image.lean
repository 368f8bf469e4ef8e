import ContextDb.Storage.Reading

/-!
# Images of a database file

What a file must look like for the engine to recover a log from it. A header
*describes* a log (`ContextDb.Describes`) when it is the initial one and the log
is empty, or when the log ends with the master record it points at. A log is
*live* in an image (`ContextDb.Live`) when one slot holds a header describing
it, its records stand behind the header region, and the other slot is damaged or
holds the header of a shorter log and a smaller generation.

* `ContextDb.openFile_returns` – opening an image recovers its live log.
* `ContextDb.Live.of_damage` – when the live slot is damaged and the other one
  is not, the log of the other one is live.

The bytes of a slot are kept apart from what they decode to: a slot nobody
writes keeps its bytes, decodable or not (`ContextDb.slotBytes_keep`,
`ContextDb.slotBytes_writeAt_other`).
-/

namespace ContextDb

open ByteFile FileProg Prog StorageEngine

/-! ### The slots of an image -/

/-- The bytes of a header slot. -/
def slotBytes (v : Bytes) (s : Slot) : Bytes :=
  Header.slice v (s * headerSize) ((s + 1) * headerSize)

theorem decodedSlots_eq (v : Bytes) (s : Slot) :
    decodedSlots v s = (Header.decode (slotBytes v s) s).toOption := rfl

/-- Slots with the same bytes decode alike. -/
theorem decodedSlots_congr {v w : Bytes} {s : Slot} (h : slotBytes v s = slotBytes w s) :
    decodedSlots v s = decodedSlots w s := by
  rw [decodedSlots_eq, decodedSlots_eq, h]

/-- A slot that holds a header decodes to it. -/
theorem decodedSlots_of_encode {v : Bytes} {s : Slot} {h : Header}
    (hs : slotBytes v s = h.encode) : decodedSlots v s = some h := by
  rw [decodedSlots_eq, hs, Header.decode_encode]
  rfl

theorem slotBytes_def (v : Bytes) (s : Slot) : slotBytes v s = (v.drop (64 * s)).take 64 := by
  have hn : ((s : ℕ) + 1) * 64 - (s : ℕ) * 64 = 64 := by omega
  rw [slotBytes, Header.slice, headerSize, hn, Nat.mul_comm]

theorem slot_le (s : Slot) : 64 * (s : ℕ) + 64 ≤ 128 := by
  have := s.isLt
  omega

theorem length_slotBytes {v : Bytes} (h : 128 ≤ v.length) (s : Slot) :
    (slotBytes v s).length = 64 := by
  have := slot_le s
  rw [slotBytes_def, List.length_take, List.length_drop]
  omega

/-- The bytes of a slot stand there. -/
theorem holds_slotBytes (v : Bytes) (s : Slot) : Holds v (64 * s) (slotBytes v s) := by
  intro i b hb
  rw [slotBytes_def] at hb
  have hi : i < 64 := by
    have := (List.getElem?_eq_some_iff.mp hb).1
    rw [List.length_take] at this
    omega
  rwa [List.getElem?_take_of_lt hi, List.getElem?_drop] at hb

/-- Sixty-four bytes that stand at a slot are its bytes. -/
theorem slotBytes_of_holds {v : Bytes} {s : Slot} {bs : Bytes} (h : Holds v (64 * s) bs)
    (hl : bs.length = 64) : slotBytes v s = bs := by
  have hne : bs ≠ [] := by
    rintro rfl
    simp at hl
  have hle := h.length_le hne
  have hlen : (slotBytes v s).length = bs.length := by
    rw [slotBytes_def, List.length_take, List.length_drop]
    omega
  exact (holds_slotBytes v s).unique h hlen

/-- Where the bytes of a slot still stand, they are still its bytes. -/
theorem slotBytes_keep {v w : Bytes} {s : Slot} (hv : 128 ≤ v.length)
    (h : Holds w (64 * s) (slotBytes v s)) : slotBytes w s = slotBytes v s :=
  slotBytes_of_holds h (length_slotBytes hv s)

/-- Two slots lie apart. -/
theorem slot_disjoint {s t : Slot} (h : s ≠ t) :
    64 * (s : ℕ) + 64 ≤ 64 * (t : ℕ) ∨ 64 * (t : ℕ) + 64 ≤ 64 * (s : ℕ) := by
  have hne : (s : ℕ) ≠ (t : ℕ) := fun heq => h (Fin.ext heq)
  omega

/-- **A write to one slot** leaves the other one alone. -/
theorem slotBytes_writeAt_other {v : Bytes} (hv : 128 ≤ v.length) {s t : Slot} (hst : s ≠ t)
    {bs : Bytes} (hl : bs.length ≤ 64) :
    slotBytes (writeAt v (64 * t) bs) s = slotBytes v s := by
  refine slotBytes_keep hv ((holds_slotBytes v s).writeAt_of_disjoint ?_)
  rw [length_slotBytes hv]
  rcases slot_disjoint hst with hlt | hlt
  · exact Or.inl hlt
  · exact Or.inr (by omega)

/-- A write to a slot leaves the log alone. -/
theorem holds_log_writeAt_slot {v : Bytes} {t : Slot} {bs ls : Bytes} (hl : bs.length ≤ 64)
    (h : Holds v 128 ls) : Holds (writeAt v (64 * t) bs) 128 ls := by
  refine h.writeAt_of_disjoint (Or.inr ?_)
  have := slot_le t
  omega

/-! ### Headers and the logs they describe -/

/-- **A header describes a log**: it is the initial header and the log is empty,
or the log ends with the master record the header points at. Generations count
commits, and so do not outgrow the log. -/
inductive Describes : Header → Log → Prop
  /-- A new database. -/
  | initial : Describes .initial []
  /-- What a commit leaves. -/
  | commit {h : Header} {pre : Log} {payload : Bytes}
      (hptr : h.masterPtr.toNat = tail pre) (hlen : h.masterLen.toNat = payload.length)
      (hend : h.logEnd.toNat = tail (pre ++ [.master payload])) (hpos : 0 < h.generation.toNat)
      (hgen : h.generation.toNat ≤ pre.length + 1) : Describes h (pre ++ [.master payload])

namespace Describes

variable {h : Header} {l : Log}

/-- The header says where its log ends. -/
theorem logEnd_toNat (hd : Describes h l) : h.logEnd.toNat = tail l := by
  cases hd with
  | initial => rfl
  | commit _ _ hend _ _ => exact hend

/-- There are at least as many entries as there were commits. -/
theorem generation_le (hd : Describes h l) : h.generation.toNat ≤ l.length := by
  cases hd with
  | initial => exact Nat.zero_le _
  | commit _ _ _ _ hgen =>
    rw [List.length_append, List.length_singleton]
    exact hgen

/-- Generation 0 is the empty database. -/
theorem eq_nil_of_generation (hd : Describes h l) (h0 : h.generation.toNat = 0) : l = [] := by
  cases hd with
  | initial => rfl
  | commit _ _ _ hpos _ => omega

end Describes

/-- The payload of a valid master record is not empty. -/
theorem EntryOk.master_pos {l : Log} {payload : Bytes} (h : EntryOk l (.master payload)) :
    0 < payload.length := by
  obtain ⟨-, order, rfl⟩ := h
  rw [MasterIndex.length_serialize, MasterIndex.encodedLen]
  omega

/-- **The master index of a described log** is the index of the log. -/
theorem loadIndex_returns {h : Header} {l : Log} (hd : Describes h l) (hv : ValidLog l) :
    (loadIndex h).run.Returns (fun v => Holds v 128 (logBytes l)) (.ok (indexOf l)) := by
  cases hd with
  | initial =>
    have h0 : Header.initial.masterLen = 0 := rfl
    rw [loadIndex, if_pos h0]
    exact returns_pure _
  | @commit _ pre payload hptr hlen hend hpos hgen =>
    have hok : EntryOk pre (.master payload) := hv.last
    have hne : ¬h.masterLen = 0 := by
      intro h0
      have hpos := hok.master_pos
      rw [h0] at hlen
      have h00 : (0 : UInt64).toNat = 0 := rfl
      omega
    have hdec : MasterIndex.decode payload = .ok (indexOf (pre ++ [.master payload])) := by
      obtain ⟨-, order, rfl⟩ := hok
      rw [indexOf_snoc]
      exact (hv.of_isPrefix (List.prefix_append _ _)).decode_serialize order
    rw [loadIndex, if_neg hne]
    refine returns_bind (entry_returns hv hptr) ?_
    simp only [Entry.record, ne_eq, not_true_eq_false, if_false]
    rw [hdec]
    exact returns_ofExcept _

/-! ### Live logs -/

/-- **A log is live in an image**: one slot holds a header describing it, its
records stand behind the header region, and the other slot is damaged or holds
the header of a shorter log and a smaller generation. -/
structure Live (v : Bytes) (s : Slot) (h : Header) (l : Log) : Prop where
  /-- The header region is there. -/
  length_le : 128 ≤ v.length
  /-- The live slot holds the live header. -/
  slot : slotBytes v s = h.encode
  /-- The header describes the log. -/
  describes : Describes h l
  /-- The log is valid. -/
  valid : ValidLog l
  /-- The log stands behind the header region. -/
  holds : Holds v 128 (logBytes l)
  /-- The other slot holds nothing newer. -/
  older : ∀ h', decodedSlots v s.other = some h' → slotBytes v s.other = h'.encode ∧
    h'.generation.toNat < h.generation.toNat ∧
    ∃ l', Describes h' l' ∧ l' <+: l ∧ l' ≠ l

namespace Live

variable {v : Bytes} {s : Slot} {h : Header} {l : Log}

theorem ne_nil (hl : Live v s h l) : v ≠ [] :=
  List.ne_nil_of_length_pos (Nat.lt_of_lt_of_le (by decide) hl.length_le)

theorem decoded (hl : Live v s h l) : decodedSlots v s = some h := decodedSlots_of_encode hl.slot

/-- **The live header is selected.** -/
theorem selectLive_eq (hl : Live v s h l) : selectLive (decodedSlots v) = .ok (h, s) :=
  selectLive_of_newer hl.decoded fun h' hh' => (hl.older h' hh').2.1

/-- The file covers the live log. -/
theorem tail_le (hl : Live v s h l) : tail l ≤ v.length := tail_le_length hl.length_le hl.holds

/-- **When the live slot is damaged**, the log of the other one is live. -/
theorem of_damage {w : Bytes} {h' : Header} (hl : Live v s h l)
    (hh' : decodedSlots v s.other = some h') (hlen : 128 ≤ w.length)
    (hdamage : decodedSlots w s = none) (hother : slotBytes w s.other = slotBytes v s.other)
    (hlog : Holds w 128 (logBytes l)) : ∃ l', Live w s.other h' l' ∧ l' <+: l := by
  obtain ⟨henc, -, l', hd, hp, -⟩ := hl.older h' hh'
  refine ⟨l', ⟨hlen, hother.trans henc, hd, hl.valid.of_isPrefix hp,
    holds_logBytes_of_isPrefix hlog hp, fun h'' hh'' => ?_⟩, hp⟩
  rw [Slot.other_other, hdamage] at hh''
  cases hh''

end Live

/-! ### Opening -/

/-- The rest of opening, once the header region has been read. -/
def recover (fileLen : ℕ) (region : Bytes) : FileM StorageEngine :=
  match selectLive (decodedSlots region) with
  | .error fallback => throw ((firstError region).getD fallback)
  | .ok (header, liveSlot) =>
    if fileLen < header.logEnd.toNat then
      throw (.unexpectedEof (UInt64.ofNat fileLen) header.logEnd)
    else do
      let index ← loadIndex header
      return { header, slots := decodedSlots region, liveSlot, index, endOffset := header.logEnd,
               dirty := false }

theorem load_run (fileLen : ℕ) :
    (load fileLen).run = if fileLen < 128 then .ret (.error (.unexpectedEof 0 logStart)) else
      .read 0 128 fun
        | some region => (recover fileLen region).run
        | none => .ret (.error (.io .unexpectedEof)) := by
  by_cases hlen : fileLen < 128
  · rw [load, if_pos hlen, if_pos (show fileLen < logStart.toNat from hlen)]
    rfl
  · rw [load, if_neg hlen, if_neg (show ¬fileLen < logStart.toNat from hlen)]
    refine congrArg (Prog.read 0 128) (funext fun region => ?_)
    cases region with
    | none => rfl
    | some region =>
      change ExceptT.bindCont _ (.ok region) = (recover fileLen region).run
      rw [recover]
      simp only [ExceptT.bindCont]
      cases hsel : selectLive (decodedSlots region) with
      | error fallback => rfl
      | ok p =>
        simp only
        by_cases hlt : fileLen < p.1.logEnd.toNat
        · rw [if_pos hlt, if_pos hlt]
          rfl
        · rw [if_neg hlt, if_neg hlt]
          rfl

/-- The handle of a freshly opened file: its slots, and the live log. -/
def opened (slots : Slots) (s : Slot) (h : Header) (l : Log) : StorageEngine where
  header := h
  slots := slots
  liveSlot := s
  index := indexOf l
  endOffset := h.logEnd
  dirty := false

/-- **Recovery from a header region**, whatever becomes of the rest of the file
behind the live log. -/
theorem recover_returns {fileLen : ℕ} {region : Bytes} {s : Slot} {h : Header} {l : Log}
    (hsel : selectLive (decodedSlots region) = .ok (h, s)) (hd : Describes h l)
    (hv : ValidLog l) (hlen : tail l ≤ fileLen) :
    (recover fileLen region).run.Returns (fun v => Holds v 128 (logBytes l))
      (.ok (opened (decodedSlots region) s h l)) := by
  have hlt : ¬fileLen < h.logEnd.toNat := by
    rw [hd.logEnd_toNat]
    omega
  rw [recover, hsel]
  simp only
  rw [if_neg hlt]
  exact returns_bind (loadIndex_returns hd hv) (returns_pure _)

/-- A length taken before the live log was written refuses the file. -/
theorem recover_eof {fileLen : ℕ} {region : Bytes} {s : Slot} {h : Header}
    (hsel : selectLive (decodedSlots region) = .ok (h, s)) (hlt : fileLen < h.logEnd.toNat) :
    (recover fileLen region).run =
      .ret (.error (.unexpectedEof (UInt64.ofNat fileLen) h.logEnd)) := by
  rw [recover, hsel]
  simp only
  rw [if_pos hlt]
  rfl

/-- The header region of a file that has one. -/
theorem readAt_region {v : Bytes} (h : 128 ≤ v.length) : readAt v 0 128 = some (v.take 128) := by
  rw [readAt, if_neg (by omega), if_pos (by omega), List.drop_zero]

/-- A file cut off behind its header region keeps its slots. -/
theorem slotBytes_take {n : ℕ} (hn : 128 ≤ n) (v : Bytes) (s : Slot) :
    slotBytes (v.take n) s = slotBytes v s := by
  have := slot_le s
  rw [slotBytes_def, slotBytes_def, List.drop_take, List.take_take]
  congr 1
  omega

theorem decodedSlots_take_of_le {n : ℕ} (hn : 128 ≤ n) (v : Bytes) :
    decodedSlots (v.take n) = decodedSlots v :=
  funext fun s => decodedSlots_congr (slotBytes_take hn v s)

theorem decodedSlots_take (v : Bytes) : decodedSlots (v.take 128) = decodedSlots v :=
  decodedSlots_take_of_le le_rfl v

theorem openFile_run : openFile.run =
    .len fun n => if n > 0 then (load n).run else (initializeRegion blank).run := by
  refine congrArg Prog.len (funext fun n => ?_)
  change ExceptT.run (if n > 0 then load n else initializeRegion blank) = _
  by_cases hn : n > 0
  · rw [if_pos hn, if_pos hn]
  · rw [if_neg hn, if_neg hn]

/-- **Opening an image recovers its live log.** -/
theorem openFile_returns {v : Bytes} {s : Slot} {h : Header} {l : Log} (hl : Live v s h l) :
    openFile.run.Returns (fun w => w = v) (.ok (opened (decodedSlots v) s h l)) := by
  have hlen := hl.length_le
  rw [openFile_run]
  rintro w rfl
  simp only
  rw [if_pos (show w.length > 0 by omega), load_run, if_neg (by omega)]
  rintro x rfl
  rw [readAt_region hlen]
  have hsel : selectLive (decodedSlots (x.take 128)) = .ok (h, s) := by
    rw [decodedSlots_take]
    exact hl.selectLive_eq
  have hret := recover_returns hsel hl.describes hl.valid hl.tail_le
  rw [decodedSlots_take] at hret
  refine hret.mono fun w hw => ?_
  rw [hw]
  exact hl.holds

/-- **Opening a file at rest** succeeds and changes nothing. -/
theorem Live.open_exec {d : Disk} {s : Slot} {h : Header} {l : Log} (hl : Live d.volatile s h l) :
    openFile.run.exec d = some (.ok (opened (decodedSlots d.volatile) s h l), d) :=
  (openFile_returns hl).exec_eq rfl

/-- What opening an image shows: the documents of its live log. -/
theorem Live.docState {v : Bytes} {s : Slot} {h : Header} {l : Log} (hl : Live v s h l)
    (slots : Slots) : (opened slots s h l).docState v = (tableOf l).state :=
  docState_eq hl.valid rfl hl.holds

end ContextDb
