import ContextDb.Lib.Logic
import ContextDb.Storage.Reading

/-!
# What the writing methods do to the disk

The methods that write, judged by `FileProg.Prog.Safe`: what holds at every
point where they may be stopped, and what has been done when they return.
Nothing here supposes that the file is in order – only that the handle's end of
the log lies where a file can have it.

* `ContextDb.appendRaw_safe` – a record is appended by writes at or above the
  end of the log, and when the method fails the handle is as it was.
* `ContextDb.commit_safe` – **the commit protocol**. A commit that does work goes
  through three stages (`ContextDb.CommitPoint`): it writes to the log only;
  then, *with everything before it durable*, it writes its header into the
  victim slot; then it has synced the header.

The header region is the business of the last two stages alone: everything else
an open handle does writes to the log (`ContextDb.LogOnly`).
-/

namespace ContextDb

open ByteFile FileProg Prog StorageEngine

/-! ### Writes to the log -/

/-- No write of a trace lies in the header region. -/
def LogOnly (tr : Trace) : Prop := ∀ ev ∈ tr, logStart.toNat ≤ ev.off

instance (tr : Trace) : Decidable (LogOnly tr) :=
  inferInstanceAs (Decidable (∀ ev ∈ tr, logStart.toNat ≤ ev.off))

theorem logOnly_nil : LogOnly [] := by simp [LogOnly]

theorem LogOnly.append {tr tr' : Trace} (h : LogOnly tr) (h' : LogOnly tr') :
    LogOnly (tr ++ tr') := by
  intro ev hev
  rcases List.mem_append.mp hev with hev | hev
  · exact h ev hev
  · exact h' ev hev

theorem LogOnly.snoc {tr : Trace} (h : LogOnly tr) {off : ℕ} (ho : 128 ≤ off) (bs : Bytes)
    (n : ℕ) : LogOnly (tr ++ [⟨off, bs, n⟩]) :=
  h.append fun ev hev => by
    obtain rfl : ev = ⟨off, bs, n⟩ := by simpa using hev
    exact ho

/-- **Only the log has been written**, from `n` on. -/
def LogGrows (n : ℕ) (d : Disk) (tr : Trace) (d' : Disk) : Prop := LogOnly tr ∧ Disk.Grows n d d'

namespace LogGrows

variable {n : ℕ} {d d' d'' : Disk} {tr tr' : Trace}

theorem refl (n : ℕ) (d : Disk) : LogGrows n d [] d := ⟨logOnly_nil, .refl⟩

theorem write (h : LogGrows n d tr d') (hn : 128 ≤ n) {off : ℕ} (ho : n ≤ off) (bs cs : Bytes)
    (k : ℕ) : LogGrows n d (tr ++ [⟨off, bs, k⟩]) (d'.write off cs) :=
  ⟨h.1.snoc (hn.trans ho) bs k, h.2.write off cs ho⟩

theorem sync (h : LogGrows n d tr d') : LogGrows n d tr d'.sync := ⟨h.1, h.2.sync⟩

theorem trans {m : ℕ} (h : LogGrows n d tr d') (h' : LogGrows m d' tr' d'') (hm : n ≤ m) :
    LogGrows n d (tr ++ tr') d'' :=
  ⟨h.1.append h'.1, h.2.trans (h'.2.mono hm)⟩

end LogGrows

/-! ### Appending a record -/

/-- **How appending a record may end.** -/
inductive Appended (F : Faults) (r : Record) (e : StorageEngine) :
    Except CndbError UInt64 × StorageEngine → Disk → Prop
  /-- The payload is over the limit, and nothing was asked of the file. -/
  | refused {d : Disk} (h : maxRecordLen.toNat < r.payload.length) :
      Appended F r e (.error (.recordTooLarge e.endOffset (UInt64.ofNat r.payload.length)
        maxRecordLen), e) d
  /-- A write failed. -/
  | failed {d : Disk} (h : F.CanFail) : Appended F r e (.error (.io .fault), e) d
  /-- The record stands at the old end of the log. -/
  | done {d : Disk} (hlen : r.payload.length ≤ maxRecordLen.toNat)
      (hfit : e.endOffset.toNat + (9 + r.payload.length) ≤ maxFileLen)
      (hend : (e.appended r.payload.length).endOffset.toNat =
        e.endOffset.toNat + (9 + r.payload.length))
      (hh : Holds d.volatile e.endOffset.toNat r.bytes) :
      Appended F r e (.ok e.endOffset, e.appended r.payload.length) d

/-- The end of the log behind one more record. -/
theorem appended_endOffset {e : StorageEngine} {n : ℕ}
    (hfit : e.endOffset.toNat + (9 + n) ≤ maxFileLen) :
    (e.appended n).endOffset.toNat = e.endOffset.toNat + (9 + n) := by
  have hmax : maxFileLen = 2 ^ 63 - 1 := rfl
  rw [appended, UInt64.toNat_add, add_recordHeaderSize_toNat (by omega), UInt64.toNat_ofNat']
  have h1 : n % 2 ^ 64 = n := Nat.mod_eq_of_lt (by omega)
  rw [h1]
  omega

/-- **Appending a record** writes to the log only; when it fails, the handle is
as it was. -/
theorem appendRaw_safe (F : Faults) (r : Record) {e : StorageEngine} (d : Disk)
    (hlo : 128 ≤ e.endOffset.toNat) (hhi : e.endOffset.toNat ≤ maxFileLen) :
    ((appendRaw r.kind r.payload).run.run e).Safe F
      (fun tr d' => LogGrows e.endOffset.toNat d tr d')
      (fun _ x d' => Appended F r e x d') [] d := by
  rw [appendRaw_run]
  have h0 : LogGrows e.endOffset.toNat d [] d := .refl _ _
  by_cases hlen : maxRecordLen.toNat < r.payload.length
  · rw [if_pos hlen]
    exact ⟨h0, .refused hlen⟩
  · rw [if_neg hlen, add_recordHeaderSize_toNat hhi]
    -- the frame, at the end of the log
    refine ⟨h0, fun n _ _ => h0.write hlo le_rfl _ _ n, fun hfit => ?_,
      fun n _ hf => ⟨h0.write hlo le_rfl _ _ n, .failed (Or.inl ⟨_, _, _, _, hf⟩)⟩⟩
    have h1 := h0.write hlo le_rfl (encodeFrame r.kind r.payload) (encodeFrame r.kind r.payload)
      (encodeFrame r.kind r.payload).length
    have hle : e.endOffset.toNat ≤ e.endOffset.toNat + 9 := Nat.le_add_right _ _
    -- the payload, behind it
    refine ⟨h1, fun n _ _ => h1.write hlo hle _ _ n, fun hfit' => ?_,
      fun n _ hf => ⟨h1.write hlo hle _ _ n, .failed (Or.inl ⟨_, _, _, _, hf⟩)⟩⟩
    have hend : e.endOffset.toNat + (9 + r.payload.length) ≤ maxFileLen := by
      rcases hfit with hnil | hfit
      · have hl := length_encodeFrame r.kind r.payload
        rw [hnil] at hl
        simp at hl
      rw [length_encodeFrame] at hfit
      rcases hfit' with hnil | hfit'
      · rw [hnil, List.length_nil]
        omega
      · omega
    refine ⟨h1.write hlo hle _ _ _, .done (Nat.le_of_not_lt hlen) hend (appended_endOffset hend) ?_⟩
    rw [Disk.volatile_write, Disk.volatile_write]
    refine holds_append_iff.mpr ⟨?_, ?_⟩
    · refine (holds_writeAt _ _ _).writeAt_of_disjoint (Or.inl ?_)
      rw [length_encodeFrame]
    · rw [length_encodeFrame]
      exact holds_writeAt _ _ _

/-! ### The commit protocol -/

section Commit

variable (F : Faults) (e : StorageEngine) (order : IterOrder) (d : Disk)

/-- The payload of the master record a commit appends. -/
def commitPayload : Bytes := e.index.serialize order

/-- The master record a commit appends. -/
def commitRecord : Record := ⟨.masterIndex, commitPayload e order⟩

/-- The handle once the master record has been appended. -/
def commitAppended : StorageEngine := e.appended (commitPayload e order).length

/-- The header a commit writes. -/
def commitHeaderOf : Header :=
  (commitAppended e order).nextHeader e.endOffset (commitPayload e order)

/-- The slot a commit writes it to. -/
def commitSlot : Slot := victimSlot e.slots

/-- **The disk just before the header is written**: the log has grown by the
master record, and all of it is durable. -/
structure Prepared (tr : Trace) (d' : Disk) : Prop where
  /-- Only the log has been written. -/
  grows : LogGrows e.endOffset.toNat d tr d'
  /-- Nothing waits to be synced. -/
  synced : d'.unsynced = []
  /-- The master record is within the limit. -/
  length_le : (commitPayload e order).length ≤ maxRecordLen.toNat
  /-- It fits in a file. -/
  fits : e.endOffset.toNat + (9 + (commitPayload e order).length) ≤ maxFileLen
  /-- It stands at the old end of the log. -/
  holds : Holds d'.volatile e.endOffset.toNat (commitRecord e order).bytes

/-- **The points of a commit that does work.** -/
inductive CommitPoint : Trace → Disk → Prop
  /-- Only the log has been written. -/
  | logging {tr : Trace} {d' : Disk} (h : LogGrows e.endOffset.toNat d tr d') : CommitPoint tr d'
  /-- `n` bytes of the header have been written. -/
  | writing {tr : Trace} {d₁ : Disk} {n : ℕ} (h : Prepared e order d tr d₁) (hn : n ≤ 64)
      (hcut : n = 64 ∨
        F.write d₁.volatile (64 * commitSlot e) (commitHeaderOf e order).encode n ∨
        F.cut d₁.volatile (64 * commitSlot e) (commitHeaderOf e order).encode n) :
      CommitPoint (tr ++ [⟨64 * commitSlot e, (commitHeaderOf e order).encode, n⟩])
        (d₁.write (64 * commitSlot e) ((commitHeaderOf e order).encode.take n))
  /-- The header is durable. -/
  | synced {tr : Trace} {d₁ : Disk} (h : Prepared e order d tr d₁) :
      CommitPoint (tr ++ [⟨64 * commitSlot e, (commitHeaderOf e order).encode, 64⟩])
        (d₁.write (64 * commitSlot e) (commitHeaderOf e order).encode).sync

/-- **How a commit may end.** -/
inductive Committed : Trace → Except CndbError Unit × StorageEngine → Disk → Prop
  /-- There was nothing to commit. -/
  | clean (h : e.dirty = false) : Committed [] (.ok (), e) d
  /-- The index does not fit in a record. -/
  | refused {tr : Trace} {d' : Disk} (hd : e.dirty = true)
      (h : LogGrows e.endOffset.toNat d tr d')
      (hlen : maxRecordLen.toNat < (commitPayload e order).length) :
      Committed tr (.error (.recordTooLarge e.endOffset
        (UInt64.ofNat (commitPayload e order).length) maxRecordLen), e) d'
  /-- A request failed before the master record stood. -/
  | early {tr : Trace} {d' : Disk} (hd : e.dirty = true)
      (h : LogGrows e.endOffset.toNat d tr d') (hf : F.CanFail) :
      Committed tr (.error (.io .fault), e) d'
  /-- The sync behind the master record failed. -/
  | orphaned {tr : Trace} {d' : Disk} (hd : e.dirty = true)
      (h : LogGrows e.endOffset.toNat d tr d') (hf : F.sync)
      (hlen : (commitPayload e order).length ≤ maxRecordLen.toNat)
      (hfit : e.endOffset.toNat + (9 + (commitPayload e order).length) ≤ maxFileLen)
      (hh : Holds d'.volatile e.endOffset.toNat (commitRecord e order).bytes) :
      Committed tr (.error (.io .fault), commitAppended e order) d'
  /-- The write of the header failed, or the sync behind it. -/
  | torn {tr : Trace} {d₁ : Disk} {n : ℕ} (hd : e.dirty = true)
      (h : Prepared e order d tr d₁) (hn : n ≤ 64) (hcut : (n = 64 ∧ F.sync) ∨
        F.write d₁.volatile (64 * commitSlot e) (commitHeaderOf e order).encode n) :
      Committed (tr ++ [⟨64 * commitSlot e, (commitHeaderOf e order).encode, n⟩])
        (.error (.io .fault), commitAppended e order)
        (d₁.write (64 * commitSlot e) ((commitHeaderOf e order).encode.take n))
  /-- The commit went through. -/
  | done {tr : Trace} {d₁ : Disk} (hd : e.dirty = true) (h : Prepared e order d tr d₁) :
      Committed (tr ++ [⟨64 * commitSlot e, (commitHeaderOf e order).encode, 64⟩])
        (.ok (), (commitAppended e order).published (commitHeaderOf e order))
        (d₁.write (64 * commitSlot e) (commitHeaderOf e order).encode).sync

/-- The slots are those of the handle the commit started with. -/
@[simp] theorem commitAppended_slots : (commitAppended e order).slots = e.slots := rfl

theorem take_encode (h : Header) : h.encode.take 64 = h.encode :=
  List.take_of_length_le (by rw [Header.length_encode]; exact le_rfl)

/-- The last stage of a commit, from the standing master record on. -/
theorem commitHeader_safe {tr : Trace} {d' : Disk} (hd : e.dirty = true)
    (h : LogGrows e.endOffset.toNat d tr d')
    (hlen : (commitPayload e order).length ≤ maxRecordLen.toNat)
    (hfit : e.endOffset.toNat + (9 + (commitPayload e order).length) ≤ maxFileLen)
    (hh : Holds d'.volatile e.endOffset.toNat (commitRecord e order).bytes) :
    (commitHeader (commitPayload e order) e.endOffset (commitAppended e order)).Safe F
      (CommitPoint F e order d) (Committed F e order d) tr d' := by
  have hprep : Prepared e order d tr d'.sync := ⟨h.sync, rfl, hlen, hfit, hh⟩
  have hslot : (Header.slotOffset (victimSlot (commitAppended e order).slots)).toNat =
      64 * (commitSlot e : ℕ) := Header.slotOffset_toNat _
  rw [commitHeader]
  refine ⟨.logging h, ?_, fun hs => ⟨.logging h, .orphaned hd h hs hlen hfit hh⟩⟩
  rw [hslot]
  change Safe F _ _ (.write _ (commitHeaderOf e order).encode _) tr d'.sync
  refine ⟨.logging h.sync, fun n hn hcut => ?_, fun _ => ?_, fun n hn hf => ?_⟩
  · rw [Header.length_encode] at hn
    exact .writing hprep hn (Or.inr (Or.inr hcut))
  · have hwriting := CommitPoint.writing (F := F) hprep le_rfl (Or.inl rfl)
    rw [take_encode] at hwriting
    refine ⟨hwriting, ⟨.synced hprep, .done hd hprep⟩, fun hs => ⟨hwriting, ?_⟩⟩
    have htorn := Committed.torn (F := F) hd hprep le_rfl (Or.inl ⟨rfl, hs⟩)
    rwa [take_encode] at htorn
  · rw [Header.length_encode] at hn
    exact ⟨.writing hprep hn (Or.inr (Or.inl hf)),
      .torn hd hprep hn (Or.inr hf)⟩

/-- **The commit protocol**: wherever a commit is stopped, it is at one of its
points, and it ends in one of its ways. -/
theorem commit_safe (hlo : 128 ≤ e.endOffset.toNat) (hhi : e.endOffset.toNat ≤ maxFileLen) :
    ((commit order).run.run e).Safe F (CommitPoint F e order d) (Committed F e order d) [] d := by
  rw [commit_run]
  have h0 : LogGrows e.endOffset.toNat d [] d := .refl _ _
  cases hd : e.dirty with
  | false =>
    rw [if_neg (by simp)]
    exact ⟨.logging h0, .clean hd⟩
  | true =>
    rw [if_pos rfl]
    refine ⟨.logging h0, ?_, fun hs => ⟨.logging h0, .early hd h0 (Or.inr hs)⟩⟩
    have happ := appendRaw_safe F (commitRecord e order) d.sync hlo hhi
    refine Safe.bind (happ.mono (fun tr d' h => .logging (h0.sync.trans h le_rfl)) ?_)
    rintro tr x d' hg hx
    have hg' : LogGrows e.endOffset.toNat d tr d' := h0.sync.trans hg le_rfl
    cases hx with
    | refused hlen => exact ⟨.logging hg', .refused hd hg' hlen⟩
    | failed hf => exact ⟨.logging hg', .early hd hg' hf⟩
    | done hlen hfit hend hh => exact commitHeader_safe F e order d hd hg' hlen hfit hh

/-- **Nothing fails from the master record on**: syncs succeed, and so do the
writes of header slots. -/
def Steady : Prop :=
  ¬F.sync ∧ ∀ v off bs n, bs.length = 64 → off + 64 ≤ 128 → ¬F.write v off bs n

variable {F e order d}

/-- **Where nothing fails from the master record on**, a commit either writes to
the log only and leaves the handle alone, or goes through. -/
theorem Committed.steady (hF : Steady F) {tr : Trace} {y : Except CndbError Unit}
    {e' : StorageEngine} {d' : Disk} (hc : Committed F e order d tr (y, e') d') :
    (LogGrows e.endOffset.toNat d tr d' ∧ e' = e) ∨
      ∃ tr₁ d₁, Prepared e order d tr₁ d₁ ∧
        tr = tr₁ ++ [⟨64 * commitSlot e, (commitHeaderOf e order).encode, 64⟩] ∧ y = .ok () ∧
        e' = (commitAppended e order).published (commitHeaderOf e order) ∧
        d' = (d₁.write (64 * commitSlot e) (commitHeaderOf e order).encode).sync := by
  cases hc with
  | clean => exact Or.inl ⟨.refl _ _, rfl⟩
  | refused _ hg | early _ hg => exact Or.inl ⟨hg, rfl⟩
  | orphaned _ _ hs => exact (hF.1 hs).elim
  | torn _ _ _ hcut =>
    rcases hcut with ⟨-, hs⟩ | hw
    · exact (hF.1 hs).elim
    · refine (hF.2 _ _ _ _ (Header.length_encode _) ?_ hw).elim
      have := (commitSlot e).isLt
      omega
  | done _ hp => exact Or.inr ⟨_, _, hp, rfl, rfl, rfl, rfl⟩

end Commit

end ContextDb
