import ContextDb.Arithmetic
import ContextDb.Documents

/-!
# How much is read

A length that stands in a file is read into a buffer of that length. So nothing that is
read may be trusted with it: `MAX_RECORD_LEN` is a guard against absurd allocations, and
it has to hold against every file there is – and, with nobody locking it, against a file
that changes between two reads.

The statements here are about programs whose reads are answered anyhow
(`FileProg.Prog.Asks`). Opening makes three reads at most and every request two, none of
them longer than the largest record. `verify` has a loop to go through, whose rounds are
as long as the file says. It reads the log in one sweep, each read where the last one
ended (`ContextDb.Sweeps`); so it does not read a byte twice, and it comes to an end on
any file.
-/

namespace ContextDb

open ByteFile FileProg Prog StorageEngine

/-! ### Few reads -/

/-- **At most `k` reads**, none of them longer than a record may be. -/
def Few (k : ℕ) (rs : List (ℕ × ℕ)) : Prop :=
  rs.length ≤ k ∧ ∀ r ∈ rs, r.2 ≤ maxRecordLen.toNat

theorem few_nil : Few 0 [] := ⟨le_rfl, fun _ h => absurd h List.not_mem_nil⟩

section Few

variable {α β : Type} {k n : ℕ} {rs rs' : List (ℕ × ℕ)}

theorem Few.mono {k' : ℕ} (h : Few k rs) (hk : k ≤ k') : Few k' rs := ⟨h.1.trans hk, h.2⟩

theorem Few.snoc (h : Few k rs) (hn : n ≤ maxRecordLen.toNat) (off : ℕ) :
    Few (k + 1) (rs ++ [(off, n)]) := by
  refine ⟨?_, fun r hr => ?_⟩
  · rw [List.length_append, List.length_singleton]
    exact Nat.succ_le_succ h.1
  · rcases List.mem_append.mp hr with hr | hr
    · exact h.2 r hr
    · cases List.mem_singleton.mp hr
      exact hn

theorem Few.of_prefix (h : Few k rs') (hp : rs <+: rs') : Few k rs :=
  ⟨hp.length_le.trans h.1, fun r hr => h.2 r (hp.subset hr)⟩

/-- A method after another: it goes on only if the first has succeeded. -/
theorem reads_bind {x : FileM α} {f : α → FileM β} {Q : List (ℕ × ℕ) → Except CndbError α → Prop}
    {T : List (ℕ × ℕ) → Except CndbError β → Prop} (hx : x.run.Reads Q rs)
    (hok : ∀ rs a, Q rs (.ok a) → (f a).run.Reads T rs)
    (herr : ∀ rs err, Q rs (.error err) → T rs (.error err)) : (x >>= f).run.Reads T rs := by
  refine Reads.bind hx fun rs r hr => ?_
  cases r with
  | error err => exact herr rs err hr
  | ok a => exact hok rs a hr

/-- What follows a method matters only for what the method can return. -/
theorem bind_congr_of_reads {x : FileM α} {f g : α → FileM β}
    {Q : List (ℕ × ℕ) → Except CndbError α → Prop} (hx : x.run.Reads Q rs)
    (hfg : ∀ rs a, Q rs (.ok a) → f a = g a) : x >>= f = x >>= g := by
  refine Reads.bind_congr hx fun rs r hr => ?_
  cases r with
  | error err => rfl
  | ok a => exact hfg rs a hr

/-- Reading bytes is one read. -/
theorem readExactAt_reads (n : ℕ) (offset : UInt64) :
    (readExactAt n offset).run.Reads (fun rs' _ => rs' = rs ++ [(offset.toNat, n)]) rs := by
  rintro (_ | buf)
  · exact rfl
  · exact rfl

/-- **Reading a frame** is one read, and the length it declares is within the limit. -/
theorem readFrameAt_reads (rs : List (ℕ × ℕ)) (offset : UInt64) :
    (readFrameAt offset).run.Reads (fun rs' r => rs' = rs ++ [(offset.toNat, 9)] ∧
      ∀ frame, r = .ok frame → frame.len.toNat ≤ maxRecordLen.toNat) rs := by
  refine reads_bind (readExactAt_reads recordHeaderSize.toNat offset) ?_ ?_
  · rintro rs' buf rfl
    exact ⟨rfl, fun frame hframe => (decodeFrame_ok hframe).2.1⟩
  · rintro rs' err rfl
    exact ⟨rfl, fun frame hframe => by cases hframe⟩

/-- Reading a record is two reads, at most. -/
theorem readRecordAt_few (h : Few k rs) (offset : UInt64) :
    (readRecordAt offset).run.Reads (fun rs' _ => Few (k + 2) rs') rs := by
  have hframe : Few (k + 1) (rs ++ [(offset.toNat, 9)]) := h.snoc (by decide) _
  refine reads_bind (readFrameAt_reads rs offset) ?_ ?_
  · rintro rs' frame ⟨rfl, hlen⟩
    have hpayload : Few (k + 2) (rs ++ [(offset.toNat, 9)] ++
        [((offset + recordHeaderSize).toNat, frame.len.toNat)]) := hframe.snoc (hlen frame rfl) _
    refine reads_bind (readExactAt_reads _ _) ?_ ?_
    · rintro rs' payload rfl
      exact reads_bind (x := ofExcept _) (Q := fun rs' _ => Few (k + 2) rs') hpayload
        (fun _ _ h => h) fun _ _ h => h
    · rintro rs' err rfl
      exact hpayload
  · rintro rs' err ⟨rfl, -⟩
    exact hframe.mono (Nat.le_succ _)

end Few

/-! ### Opening and requests -/

section Requests

variable {k : ℕ} {rs : List (ℕ × ℕ)} {e : StorageEngine}

theorem loadIndex_few (h : Few k rs) (header : Header) :
    (loadIndex header).run.Reads (fun rs' _ => Few (k + 2) rs') rs := by
  by_cases h0 : header.masterLen = 0
  · rw [loadIndex, if_pos h0]
    exact h.mono (Nat.le_add_right _ _)
  · rw [loadIndex_eq h0]
    refine reads_bind (readRecordAt_few h _) (fun rs' record hr => ?_) fun _ _ h => h
    split
    · exact hr
    · exact hr

/-- The postcondition of opening: few reads, and a handle that appends where the committed
log ends. -/
def Opening (k : ℕ) (rs : List (ℕ × ℕ)) (r : Except CndbError StorageEngine) : Prop :=
  Few k rs ∧ ∀ e, r = .ok e → e.endOffset = e.header.logEnd

theorem Few.refused (h : Few k rs) (err : CndbError) : Opening k rs (.error err) :=
  ⟨h, fun e he => by cases he⟩

theorem recover_reads (h : Few k rs) (n : ℕ) (region : Bytes) :
    (recover n region).run.Reads (Opening (k + 2)) rs := by
  have hmore : Few (k + 2) rs := h.mono (Nat.le_add_right _ _)
  rw [recover]
  split
  · exact hmore.refused _
  · split
    · exact hmore.refused _
    · refine reads_bind (loadIndex_few h _) (fun rs' index h' => ⟨h', ?_⟩) fun _ err h' =>
        h'.refused err
      rintro e ⟨⟩
      rfl

/-- **Opening** reads the header region and, if there is one, the master record. -/
theorem openFile_reads : openFile.run.Reads (Opening 3) [] := by
  have hnil : Few 3 [] := few_nil.mono (Nat.zero_le _)
  have hregion : Few 1 [(0, 128)] := few_nil.snoc (by decide) 0
  rw [openFile_run]
  intro n
  simp only
  split
  · rw [load_run]
    split
    · exact hnil.refused _
    · rintro (_ | region)
      · exact Few.refused (hregion.mono (by decide)) _
      · exact recover_reads hregion n region
  · rw [initializeRegion_run]
    rintro (_ | _)
    · exact hnil.refused _
    · rintro (_ | _)
      · exact hnil.refused _
      · refine ⟨hnil, ?_⟩
        rintro e ⟨⟩
        rfl

/-- Appending a record reads nothing. -/
theorem appendRaw_few (h : Few k rs) (kind : RecordKind) (payload : Bytes) :
    ((appendRaw kind payload).run.run e).Reads (fun rs' _ => Few k rs') rs := by
  rw [appendRaw_run]
  split
  · exact h
  · rintro (_ | _)
    · exact h
    · rintro (_ | _)
      · exact h
      · exact h

theorem append_few (h : Few k rs) (kind : RecordKind) (payload : Bytes) :
    ((append kind payload).run.run e).Reads (fun rs' _ => Few k rs') rs := by
  rw [append_run]
  refine Reads.bind (appendRaw_few h kind payload) ?_
  rintro rs' ⟨r, e'⟩ h'
  cases r with
  | error err => exact h'
  | ok offset => exact h'

theorem tombstone_few (h : Few k rs) (id : DocId) :
    ((tombstone id).run.run e).Reads (fun rs' _ => Few k rs') rs := by
  rw [tombstone_run]
  split
  · exact h
  split
  · exact h
  refine Reads.bind (appendRaw_few h _ _) ?_
  rintro rs' ⟨r, e'⟩ h'
  cases r with
  | error err => exact h'
  | ok offset => exact h'

theorem commit_few (h : Few k rs) (order : IterOrder) :
    ((commit order).run.run e).Reads (fun rs' _ => Few k rs') rs := by
  rw [commit_run]
  split
  · rintro (_ | _)
    · exact h
    · refine Reads.bind (appendRaw_few h _ _) ?_
      rintro rs' ⟨r, e'⟩ h'
      cases r with
      | error err => exact h'
      | ok masterPtr =>
        rintro (_ | _)
        · exact h'
        · rintro (_ | _)
          · exact h'
          · rintro (_ | _)
            · exact h'
            · exact h'
  · exact h

theorem readRecord_few (h : Few k rs) (id : DocId) :
    (e.readRecord id).run.Reads (fun rs' _ => Few (k + 2) rs') rs := by
  by_cases hd : id ∈ e.index.dead
  · rw [readRecord, if_pos hd]
    exact h.mono (Nat.le_add_right _ _)
  · rw [readRecord, if_neg hd]
    cases e.index.offsets.lookup id with
    | none => exact h.mono (Nat.le_add_right _ _)
    | some offset => exact readRecordAt_few h offset

/-- **A request** makes two reads at most: a record is read, or nothing is. -/
theorem op_few [Bson] (op : Op) : (op.prog e).Reads (fun rs _ => Few 2 rs) [] := by
  have hnil : Few 2 [] := few_nil.mono (Nat.zero_le _)
  cases op with
  | append kind payload => exact Reads.bind (append_few hnil kind payload) fun _ _ h => h
  | insert doc =>
    rw [Op.prog, EngineM.reply, Cndb.insert_run]
    refine Reads.bind (Q := fun rs _ => Few 2 rs) ?_ fun _ _ h => h
    split
    · exact hnil
    · exact append_few hnil _ _
  | tombstone id => exact Reads.bind (tombstone_few hnil id) fun _ _ h => h
  | commit order => exact Reads.bind (commit_few hnil order) fun _ _ h => h
  | readRecord id => exact Reads.bind (readRecord_few few_nil id) fun _ _ h => h
  | len => exact hnil
  | liveIds => exact hnil

end Requests

/-! ### One sweep -/

/-- **A sweep**: reads one behind the other, from `start` on. -/
def Sweeps (start : ℕ) : List (ℕ × ℕ) → Prop
  | [] => True
  | r :: rs => r.1 = start ∧ Sweeps (start + r.2) rs

/-- How many bytes are read. -/
def total (rs : List (ℕ × ℕ)) : ℕ := (rs.map Prod.snd).sum

section Sweeps

variable {start n L : ℕ} {rs rs' : List (ℕ × ℕ)}

theorem total_append : total (rs ++ rs') = total rs + total rs' := by
  rw [total, List.map_append, List.sum_append]
  rfl

theorem total_snoc (off : ℕ) : total (rs ++ [(off, n)]) = total rs + n := by
  rw [total_append]
  exact congrArg (total rs + ·) (Nat.add_zero n)

theorem Sweeps.snoc (h : Sweeps start rs) : Sweeps start (rs ++ [(start + total rs, n)]) := by
  induction rs generalizing start with
  | nil => exact ⟨rfl, trivial⟩
  | cons r rs ih =>
    refine ⟨h.1, ?_⟩
    have htotal : start + total (r :: rs) = start + r.2 + total rs := (Nat.add_assoc _ _ _).symm
    rw [htotal]
    exact ih h.2

theorem Sweeps.left (h : Sweeps start (rs ++ rs')) : Sweeps start rs := by
  induction rs generalizing start with
  | nil => trivial
  | cons r rs ih => exact ⟨h.1, ih h.2⟩

/-- **What `verify` may have read** of a log that ends at `L`. -/
structure Scanned (L : ℕ) (rs : List (ℕ × ℕ)) : Prop where
  /-- It has gone over the log in one sweep. -/
  sweeps : Sweeps 128 rs
  /-- No read was longer than a record may be. -/
  limit : ∀ r ∈ rs, r.2 ≤ maxRecordLen.toNat
  /-- There were two for each nine bytes of the log, rounded up. -/
  count : 9 * rs.length ≤ 2 * (L - 128 + 8)
  /-- Only the last record may have reached beyond the log. -/
  bytes : total rs ≤ L - 128 + (8 + maxRecordLen.toNat)

/-- What has been read when it has read a part of that. -/
theorem Scanned.of_prefix (h : Scanned L rs') (hp : rs <+: rs') : Scanned L rs := by
  obtain ⟨rest, rfl⟩ := hp
  refine ⟨h.sweeps.left, fun r hr => h.limit r (List.mem_append_left _ hr), ?_, ?_⟩
  · have hcount := h.count
    rw [List.length_append] at hcount
    omega
  · have hbytes := h.bytes
    rw [total_append] at hbytes
    omega

/-- **Between two rounds** of the loop: what has been read are whole records. -/
structure Between (L : ℕ) (rs : List (ℕ × ℕ)) (offset : ℕ) : Prop where
  /-- It may have been read. -/
  scanned : Scanned L rs
  /-- It ends here. -/
  ends : 128 + total rs = offset
  /-- Each of them has a frame. -/
  frames : 9 * rs.length ≤ 2 * total rs

/-- **A frame** is read where the last record ended. -/
theorem Between.frame {offset : ℕ} (h : Between L rs offset) (hlt : offset < L) :
    Scanned L (rs ++ [(offset, 9)]) := by
  obtain ⟨⟨hs, hl, -, -⟩, rfl, hframes⟩ := h
  have hmax := maxRecordLen_toNat
  refine ⟨hs.snoc, fun r hr => ?_, ?_, ?_⟩
  · rcases List.mem_append.mp hr with hr | hr
    · exact hl r hr
    · cases List.mem_singleton.mp hr
      change 9 ≤ maxRecordLen.toNat
      decide
  · rw [List.length_append, List.length_singleton]
    omega
  · rw [total_snoc]
    omega

/-- **A payload** is read behind its frame, and ends the round. -/
theorem Between.payload {offset : ℕ} (h : Between L rs offset) (hlt : offset < L)
    (hn : n ≤ maxRecordLen.toNat) :
    Between L (rs ++ [(offset, 9)] ++ [(offset + 9, n)]) (offset + (9 + n)) := by
  have hframe := h.frame hlt
  obtain ⟨-, rfl, hframes⟩ := h
  have htotal : 128 + total rs + 9 = 128 + total (rs ++ [(128 + total rs, 9)]) := by
    rw [total_snoc, Nat.add_assoc]
  refine ⟨⟨?_, fun r hr => ?_, ?_, ?_⟩, ?_, ?_⟩
  · rw [htotal]
    exact hframe.sweeps.snoc
  · rcases List.mem_append.mp hr with hr | hr
    · exact hframe.limit r hr
    · cases List.mem_singleton.mp hr
      exact hn
  · simp only [List.length_append, List.length_singleton]
    omega
  · rw [total_snoc, total_snoc]
    omega
  · rw [total_snoc, total_snoc]
    omega
  · simp only [total_snoc, List.length_append, List.length_singleton]
    omega

end Sweeps

/-! ### Verifying -/

section Verify

variable {logEnd offset : UInt64} {rs : List (ℕ × ℕ)} {e : StorageEngine}

/-- The offset of the next round. -/
theorem next_toNat {frame : Frame} (hoff : offset.toNat ≤ maxFileLen)
    (hlen : frame.len.toNat ≤ maxRecordLen.toNat) :
    (offset + frame.totalLen).toNat = offset.toNat + (9 + frame.len.toNat) := by
  have hmax := maxRecordLen_toNat
  have hfile : maxFileLen = 2 ^ 63 - 1 := rfl
  rw [UInt64.toNat_add, totalLen_toNat hlen]
  exact Nat.mod_eq_of_lt (by omega)

/-- **The loop of `verify`** reads in one sweep, whatever it is answered. -/
theorem verifyLoop_reads (hend : logEnd.toNat ≤ maxFileLen) (fuel count : ℕ)
    (h : Between logEnd.toNat rs offset.toNat) :
    (verifyLoop logEnd fuel offset count).run.Reads (fun rs' _ => Scanned logEnd.toNat rs') rs := by
  induction fuel generalizing offset count rs with
  | zero => exact h.scanned
  | succ fuel ih =>
    rw [verifyLoop]
    by_cases hlt : offset < logEnd
    · have hlt' := UInt64.lt_iff_toNat_lt.mp hlt
      have hoff := hlt'.le.trans hend
      rw [if_pos hlt]
      refine reads_bind (readFrameAt_reads rs offset) ?_ ?_
      · rintro rs' frame ⟨rfl, hlen⟩
        have hround := h.payload hlt' (hlen frame rfl)
        refine reads_bind (readExactAt_reads _ _) ?_ ?_
        · rintro rs' payload rfl
          rw [add_recordHeaderSize_toNat hoff]
          refine reads_bind (x := ofExcept _) (Q := fun rs' _ => Between logEnd.toNat rs'
            (offset + frame.totalLen).toNat) ?_ (fun rs' _ h' => ih _ h') fun _ _ h' => h'.scanned
          rw [next_toNat hoff (hlen frame rfl)]
          exact hround
        · rintro rs' err rfl
          rw [add_recordHeaderSize_toNat hoff]
          exact hround.scanned
      · rintro rs' err ⟨rfl, -⟩
        exact h.frame hlt'
    · rw [if_neg hlt]
      exact h.scanned

/-- **The fuel of the loop** runs out on no file. -/
theorem verifyLoop_fuel (hend : logEnd.toNat ≤ maxFileLen) {fuel fuel' : ℕ} (count : ℕ)
    (h : logEnd.toNat ≤ offset.toNat + fuel) (h' : logEnd.toNat ≤ offset.toNat + fuel') :
    verifyLoop logEnd fuel offset count = verifyLoop logEnd fuel' offset count := by
  induction fuel generalizing fuel' offset count with
  | zero =>
    have hlt : ¬offset < logEnd := fun hlt => by
      have := UInt64.lt_iff_toNat_lt.mp hlt
      omega
    cases fuel' with
    | zero => rfl
    | succ fuel' => rw [verifyLoop, verifyLoop, if_neg hlt]
  | succ fuel ih =>
    by_cases hlt : offset < logEnd
    · have hlt' := UInt64.lt_iff_toNat_lt.mp hlt
      obtain ⟨fuel', rfl⟩ : ∃ m, fuel' = m + 1 := ⟨fuel' - 1, by omega⟩
      rw [verifyLoop, verifyLoop, if_pos hlt, if_pos hlt]
      refine bind_congr_of_reads (readFrameAt_reads [] offset) fun rs' frame hframe => ?_
      have hnext := next_toNat (hlt'.le.trans hend) (hframe.2 frame rfl)
      have hrest : verifyLoop logEnd fuel (offset + frame.totalLen) (count + 1) =
          verifyLoop logEnd fuel' (offset + frame.totalLen) (count + 1) :=
        ih (count + 1) (by omega) (by omega)
      rw [hrest]
    · cases fuel' with
      | zero => rw [verifyLoop, verifyLoop, if_neg hlt]
      | succ fuel' => rw [verifyLoop, verifyLoop, if_neg hlt, if_neg hlt]

/-- Before the first round. -/
theorem between_start (L : ℕ) : Between L [] logStart.toNat :=
  ⟨⟨trivial, fun _ h => absurd h List.not_mem_nil, Nat.zero_le _, Nat.zero_le _⟩, rfl,
    Nat.zero_le _⟩

theorem verify_reads (hend : e.header.logEnd.toNat ≤ maxFileLen) :
    e.verify.run.Reads (fun rs _ => Scanned e.header.logEnd.toNat rs) [] := by
  refine reads_bind (verifyLoop_reads hend _ _ (between_start _)) (fun rs r hr => ?_)
    fun _ _ h => h
  simp only
  split
  · exact hr
  · exact hr

end Verify

/-! ### Every handle -/

section Reached

variable [Bson] {x x' : StorageEngine × Disk}

/-- **The committed log ends where a file can**, as the file the header came from did. -/
theorem Executes.logEnd_le {e e' : StorageEngine} {d d' : Disk} {op : Op}
    {r : Except CndbError Reply} (h : Executes e d op r e' d')
    (hl : e.header.logEnd.toNat ≤ maxFileLen) : e'.header.logEnd.toNat ≤ maxFileLen := by
  cases h with
  | committed _ _ hfit => exact (appended_endOffset hfit).trans_le hfit
  | documented | buried | clean | refused | read => exact hl

omit [Bson] in
/-- So does that of a handle just opened. -/
theorem logEnd_of_openFile {d d' : Disk} {e : StorageEngine} (hd : d.volatile.length ≤ maxFileLen)
    (h : openFile.run.exec d = some (.ok e, d')) : e.header.logEnd.toNat ≤ maxFileLen := by
  obtain ⟨tr, hr⟩ := runs_of_exec (F := .never) h
  obtain ⟨rs, -, hend⟩ := openFile_reads.runs hr
  rw [← hend e rfl]
  exact (inRange_of_openFile hd h).2

/-- **One request** keeps it so. -/
theorem logEnd_step {q : Request} {r : Except CndbError Reply}
    (hx : InRange x ∧ x.1.header.logEnd.toNat ≤ maxFileLen) (h : Performs x q r x') :
    InRange x' ∧ x'.1.header.logEnd.toNat ≤ maxFileLen := by
  refine ⟨hx.1.step h, ?_⟩
  cases h with
  | op hexec => exact (executes_of_exec hx.1.2 hexec).logEnd_le hx.2
  | reopen hopen => exact logEnd_of_openFile hx.1.1 hopen

theorem Reached.logEnd_le (hx : Reached x) : x.1.header.logEnd.toNat ≤ maxFileLen := by
  obtain ⟨d, d₀, e₀, tr, hd, hopen, hrun⟩ := hx
  have hstart : InRange (e₀, d₀) ∧ e₀.header.logEnd.toNat ≤ maxFileLen :=
    ⟨inRange_of_openFile hd hopen, logEnd_of_openFile hd hopen⟩
  exact (Machine.Run.invariant
    (I := fun x => InRange x ∧ x.1.header.logEnd.toNat ≤ maxFileLen)
    (fun _ _ _ _ hx h => logEnd_step hx h) hrun hstart).2

end Reached

/-- **What is read is bounded, whatever the file holds.** Take any file that opens, any
requests to the handle, and any answers to the reads – those of a file that is changed
meanwhile among them. Wherever it is stopped, opening has made three reads at most and a
request two, none of them longer than the largest record. `verify` has gone over its log in
one sweep, with two such reads for each nine bytes; and its loop ends by itself. -/
theorem reads_are_bounded [Bson] {x : StorageEngine × Disk} (hx : Reached x) :
    (∀ rs q, Asks openFile.run rs q → Few 3 rs) ∧
      (∀ op rs q, Asks (Op.prog x.1 op) rs q → Few 2 rs) ∧
      (∀ rs q, Asks x.1.verify.run rs q → Scanned x.1.header.logEnd.toNat rs) ∧
      ∀ fuel, x.1.header.logEnd.toNat ≤ fuel → verifyLoop x.1.header.logEnd fuel logStart 0 =
        verifyLoop x.1.header.logEnd x.1.header.logEnd.toNat logStart 0 := by
  have hend := hx.logEnd_le
  refine ⟨fun rs q ha => ?_, fun op rs q ha => ?_, fun rs q ha => ?_, fun fuel hfuel => ?_⟩
  · obtain ⟨rs', r, hp, h, -⟩ := openFile_reads.anywhere ha
    exact h.of_prefix hp
  · obtain ⟨rs', r, hp, h⟩ := (op_few op).anywhere ha
    exact h.of_prefix hp
  · obtain ⟨rs', r, hp, h⟩ := (verify_reads hend).anywhere ha
    exact h.of_prefix hp
  · exact verifyLoop_fuel hend 0 (by omega) (by omega)

/-- A log that has been changed under the handle: its first record is said to be as long as a
record may be. -/
theorem reads_are_bounded_changed :
    letI := emptyDocuments
    ∃ q, Asks firstCommitted.verify.run [(128, 9), (137, 67108864)] q ∧
      Scanned 187 [(128, 9), (137, 67108864)] := by
  let _ := emptyDocuments
  obtain ⟨d₁, d₂, h₁, h₂, -⟩ := first_document (d := newStore.2) settled_created
  have hrun : EngineRun newStore [(.op (.append .blob [7]), .ok (.id ⟨1⟩)),
      (.op (.commit .listed), .ok .done)] (firstCommitted, d₂) :=
    .cons (.op h₁) (.cons (.op h₂) (.nil _))
  have hasks : ∃ q, Asks firstCommitted.verify.run [(128, 9), (137, 67108864)] q := by
    rw [verify, firstCommitted_logEnd]
    exact ⟨_, .read (some [0, 0, 0, 4, 2, 0, 0, 0, 0]) (.read none (.refl _))⟩
  obtain ⟨q, hq⟩ := hasks
  obtain ⟨-, -, hverify, -⟩ := reads_are_bounded hrun.reached
  have hscanned := hverify _ _ hq
  simp only at hscanned
  rw [firstCommitted_logEnd] at hscanned
  exact ⟨q, hq, hscanned⟩

end ContextDb
