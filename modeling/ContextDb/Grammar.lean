import ContextDb.Files

/-!
# The grammar of the log

`verify` walks the log from the header region to the end the header names, without
looking at the index. Over any file whatever, what it accepts is exactly a
concatenation of records that ends where the header says
(`ContextDb.verify_accepts_grammar`): `ContextDb.Spells` is that grammar, and it is
unambiguous, since records are told apart where they begin.

The loop may read behind the end of the log – its last frame may straddle it, and
what lies there may look like records. It is the comparison behind the loop that
rules such a walk out.
-/

namespace ContextDb

open ByteFile FileProg Prog StorageEngine

/-- **The log is spelled by some records**: they stand one after the other behind
the header region, and end at `logEnd`. -/
structure Spells (v : Bytes) (logEnd : UInt64) (rs : List Record) : Prop where
  /-- All of them are within the limit. -/
  acceptable : Acceptable rs
  /-- They stand behind the header region. -/
  holds : Holds v logStart.toNat (recordsBytes rs)
  /-- They end at the end of the log. -/
  ends : logStart.toNat + (recordsBytes rs).length = logEnd.toNat

/-! ### The grammar is unambiguous -/

/-- **Different records have different bytes**, in any number. -/
theorem recordsBytes_inj {rs rs' : List Record} (hrs : Acceptable rs) (hrs' : Acceptable rs')
    (h : recordsBytes rs = recordsBytes rs') : rs = rs' := by
  induction rs generalizing rs' with
  | nil =>
    have hlen := length_le_recordsBytes rs'
    rw [← h, recordsBytes_nil, List.length_nil] at hlen
    exact (List.eq_nil_of_length_eq_zero (by omega)).symm
  | cons r rs ih =>
    obtain _ | ⟨r', rs'⟩ := rs'
    · have hlen := length_le_recordsBytes (r :: rs)
      rw [h, recordsBytes_nil, List.length_nil, List.length_cons] at hlen
      omega
    · rw [recordsBytes_cons, recordsBytes_cons] at h
      obtain ⟨hkind, hpayload, hrest⟩ :=
        encodeFrame_inj (hrs r (by simp)) (hrs' r' (by simp)) h
      have hrs₁ : Acceptable rs := fun x hx => hrs x (by simp [hx])
      have hrs₁' : Acceptable rs' := fun x hx => hrs' x (by simp [hx])
      rw [ih hrs₁ hrs₁' hrest]
      congr 1
      obtain ⟨k, p⟩ := r
      obtain ⟨k', p'⟩ := r'
      obtain rfl : k = k' := hkind
      obtain rfl : p = p' := hpayload
      rfl

/-- **At most one record stands at an offset.** -/
theorem record_unique {v : Bytes} {off : ℕ} {r r' : Record}
    (hr : r.payload.length ≤ maxRecordLen.toNat) (hr' : r'.payload.length ≤ maxRecordLen.toNat)
    (h : Holds v off r.bytes) (h' : Holds v off r'.bytes) : r = r' := by
  obtain ⟨hf, hp⟩ := holds_append_iff.mp h
  obtain ⟨hf', hp'⟩ := holds_append_iff.mp h'
  obtain ⟨hk, hlen, -⟩ := encodeFrame_eq hr hr' (hf.unique hf' (by simp))
  rw [length_encodeFrame] at hp hp'
  obtain ⟨k, p⟩ := r
  obtain ⟨k', p'⟩ := r'
  obtain rfl : k = k' := hk
  obtain rfl : p = p' := hp.unique hp' hlen
  rfl

/-- **Records that reach behind others** begin with these, and go on with a
record. -/
theorem exists_record_behind {v : Bytes} {off : ℕ} {pre rs : List Record} (hpre : Acceptable pre)
    (hrs : Acceptable rs) (h : Holds v off (recordsBytes pre)) (h' : Holds v off (recordsBytes rs))
    (hlt : (recordsBytes pre).length < (recordsBytes rs).length) :
    ∃ r : Record, r.payload.length ≤ maxRecordLen.toNat ∧
      Holds v (off + (recordsBytes pre).length) r.bytes := by
  induction pre generalizing off rs with
  | nil =>
    obtain _ | ⟨r, rs⟩ := rs
    · exact absurd hlt (Nat.lt_irrefl _)
    · exact ⟨r, hrs r (by simp), (holds_append_iff.mp h').1⟩
  | cons p pre ih =>
    obtain _ | ⟨r, rs⟩ := rs
    · exact absurd hlt (Nat.not_lt_zero _)
    · rw [recordsBytes_cons] at h h'
      obtain ⟨hp, hpre'⟩ := holds_append_iff.mp h
      obtain ⟨hr, hrs'⟩ := holds_append_iff.mp h'
      obtain rfl : p = r := record_unique (hpre p (by simp)) (hrs r (by simp)) hp hr
      rw [recordsBytes_cons, recordsBytes_cons, List.length_append, List.length_append] at hlt
      obtain ⟨r', hmax, hr'⟩ := ih (fun x hx => hpre x (by simp [hx]))
        (fun x hx => hrs x (by simp [hx])) hpre' hrs' (by omega)
      refine ⟨r', hmax, ?_⟩
      rw [recordsBytes_cons, List.length_append, ← Nat.add_assoc]
      exact hr'

/-- **A log is spelled in one way only.** -/
theorem Spells.unique {v : Bytes} {logEnd : UInt64} {rs rs' : List Record}
    (h : Spells v logEnd rs) (h' : Spells v logEnd rs') : rs = rs' := by
  have hlen : (recordsBytes rs).length = (recordsBytes rs').length := by
    have h1 := h.ends
    have h2 := h'.ends
    omega
  exact recordsBytes_inj h.acceptable h'.acceptable (h.holds.unique h'.holds hlen)

/-! ### What the scan accepts -/

section Scan

variable {v : Bytes} {logEnd : UInt64}

/-- **A scan that goes through has read records**, one after the other. And as it
was given enough fuel, it went on until it was at the end of the log, or behind. -/
theorem verifyLoop_over_ok (hv : v.length ≤ maxFileLen) :
    ∀ (fuel : ℕ) (offset : UInt64) (count : ℕ) (o : UInt64) (c : ℕ),
      (verifyLoop logEnd fuel offset count).over v = .ok (o, c) →
      (∃ rs, Acceptable rs ∧ Holds v offset.toNat (recordsBytes rs) ∧
        offset.toNat + (recordsBytes rs).length = o.toNat ∧ c = count + rs.length) ∧
      (logEnd.toNat ≤ offset.toNat + fuel → ¬o < logEnd) := by
  have hstop : ∀ (offset : UInt64) (count : ℕ), ∃ rs, Acceptable rs ∧
      Holds v offset.toNat (recordsBytes rs) ∧
      offset.toNat + (recordsBytes rs).length = offset.toNat ∧ count = count + rs.length :=
    fun offset count => ⟨[], nofun, holds_nil _ _, rfl, rfl⟩
  intro fuel
  induction fuel with
  | zero =>
    -- out of fuel: there was as much of it as bytes, so the end has been reached
    intro offset count o c h
    cases h
    refine ⟨hstop _ _, fun hle => ?_⟩
    rw [UInt64.lt_iff_toNat_lt]
    omega
  | succ fuel ih =>
    intro offset count o c h
    rw [verifyLoop] at h
    by_cases hlt : offset < logEnd
    · rw [if_pos hlt] at h
      obtain ⟨frame, hframe, h⟩ := over_bind_ok.mp h
      obtain ⟨buf, hbuf, hd⟩ := over_bind_ok.mp hframe
      obtain ⟨payload, hp, h⟩ := over_bind_ok.mp h
      obtain ⟨⟨⟩, hc, h⟩ := over_bind_ok.mp h
      obtain ⟨hmax, hlen, hholds⟩ :=
        holds_of_checked hv (readExactAt_over_ok.mp hbuf) hd (readExactAt_over_ok.mp hp) hc
      have hle := hholds.length_le
        (List.ne_nil_of_length_pos (by rw [Record.length_bytes]; omega))
      rw [Record.length_bytes] at hle
      simp only at hle
      have hnext : (offset + frame.totalLen).toNat = offset.toNat + (9 + payload.length) := by
        have hframe : frame.len = UInt64.ofNat payload.length := by
          rw [hlen, UInt64.ofNat_toNat]
        rw [Frame.totalLen, hframe]
        exact add_totalLen_toNat (by omega)
      -- the records behind this one are those the rest of the loop has read
      obtain ⟨⟨rs, hrs, hholds', hend, hcount⟩, hfuel⟩ := ih _ _ _ _ h
      rw [hnext] at hholds' hend hfuel
      refine ⟨⟨⟨frame.kind, payload⟩ :: rs, ?_, ?_, ?_, ?_⟩, fun hle => hfuel (by omega)⟩
      · intro r hr
        rcases List.mem_cons.mp hr with rfl | hr
        · exact hmax
        · exact hrs r hr
      · rw [recordsBytes_cons]
        refine holds_append_iff.mpr ⟨hholds, ?_⟩
        rw [Record.length_bytes]
        exact hholds'
      · rw [recordsBytes_cons, List.length_append, Record.length_bytes]
        simp only
        omega
      · rw [List.length_cons, hcount]
        omega
    · rw [if_neg hlt] at h
      cases h
      exact ⟨hstop _ _, fun _ => hlt⟩

/-- **`verify` accepts exactly the grammar.** -/
theorem verify_over_ok (hv : v.length ≤ maxFileLen) {e : StorageEngine} {n : ℕ} :
    e.verify.over v = .ok n ↔ ∃ rs, Spells v e.header.logEnd rs ∧ rs.length = n := by
  constructor
  · intro h
    obtain ⟨⟨o, c⟩, hloop, h⟩ := over_bind_ok.mp h
    obtain ⟨⟨rs, hrs, hholds, hend, hcount⟩, -⟩ := verifyLoop_over_ok hv _ _ _ _ _ hloop
    by_cases ho : o ≠ e.header.logEnd
    · simp only [if_pos ho] at h
      cases h
    · simp only [if_neg ho] at h
      cases h
      rw [not_not.mp ho] at hend
      exact ⟨rs, ⟨hrs, hholds, hend⟩, by rw [hcount, Nat.zero_add]⟩
  · rintro ⟨rs, ⟨hrs, hholds, hend⟩, rfl⟩
    have hfits : e.header.logEnd.toNat ≤ maxFileLen := by
      rcases eq_or_ne (recordsBytes rs) [] with hnil | hne
      · rw [← hend, hnil]
        decide
      · have := hholds.length_le hne
        omega
    exact over_of_returns (S := fun w => w = v)
      (verify_counts hfits hrs hend fun w hw => by rw [hw]; exact hholds) rfl

end Scan

/-! ### Reachable files -/

section Reachable

variable [Bson] {R : Regime} {w : World} {e : StorageEngine}

/-- **The committed log of a reachable file** is in order, whether the handle is
an open one or that of the file opened anew. -/
theorem Reachable.committed (hR : R.Covered) (hw : Reachable R w)
    (he : w.handle = some e ∨ Opens w.disk.volatile e) :
    ∃ l, ValidLog l ∧ Describes e.header l ∧ Holds w.disk.volatile 128 (logBytes l) := by
  rcases he with he | he
  · obtain ⟨l, log, h, hholds⟩ := hw.open_handle hR he
    exact ⟨l, h.committed_valid, h.describes, holds_logBytes_of_isPrefix hholds h.committed⟩
  · rcases hw.live_or_unreadable hR with ⟨s, h, l, hl⟩ | hu
    · obtain rfl := hl.opens_iff.mp he
      exact ⟨l, hl.valid, hl.describes, hl.holds⟩
    · rcases eq_or_ne w.disk.volatile [] with hnil | hne
      · rw [hnil] at he ⊢
        obtain ⟨d, hd⟩ := he
        rw [openFile_exec_new] at hd
        cases hd
        exact ⟨[], validLog_nil, .initial, holds_nil _ _⟩
      · obtain ⟨err, hret⟩ := hu.returns hne
        exact absurd he (not_opens_of_returns hret)

end Reachable

/-- **`verify` accepts exactly the log grammar.** Over any file it leaves its loop
by the loop's own test, or fails; it returns a number if and only if the log is
spelled by that many records, which are then the only ones; otherwise it fails. And
in every file a history leaves, it counts the entries of the committed log. -/
theorem verify_accepts_grammar [Bson] :
    (∀ v e, v.length ≤ maxFileLen → Opens v e → logStart.toNat ≤ e.header.logEnd.toNat →
      (∀ o c, (verifyLoop e.header.logEnd e.header.logEnd.toNat logStart 0).over v = .ok (o, c) →
        ¬o < e.header.logEnd) ∧
      (∀ n, e.verify.run.exec (.ofImage v) = some (.ok n, .ofImage v) ↔
        ∃ rs, Spells v e.header.logEnd rs ∧ rs.length = n) ∧
      (∀ rs rs', Spells v e.header.logEnd rs → Spells v e.header.logEnd rs' → rs = rs') ∧
      ((¬∃ rs, Spells v e.header.logEnd rs) →
        ∃ err, e.verify.run.exec (.ofImage v) = some (.error err, .ofImage v))) ∧
    ∀ (R : Regime) (w : World) (e : StorageEngine), R.Covered → Reachable R w →
      (w.handle = some e ∨ Opens w.disk.volatile e) →
      ∃ l, ValidLog l ∧ Describes e.header l ∧ Spells w.disk.volatile e.header.logEnd l.records ∧
        e.verify.run.exec w.disk = some (.ok l.length, w.disk) := by
  constructor
  · intro v e hv _ _
    have hexec := exec_of_reader (reader_verify e) (.ofImage v)
    rw [Disk.volatile_ofImage] at hexec
    refine ⟨?_, ?_, fun _ _ h h' => h.unique h', ?_⟩
    · intro o c h
      exact (verifyLoop_over_ok hv _ _ _ _ _ h).2 (Nat.le_add_left _ _)
    · intro n
      rw [hexec, ← verify_over_ok hv]
      exact ⟨fun h => congrArg Prod.fst (Option.some.inj h), fun h => by rw [h]⟩
    · intro hno
      cases h : e.verify.over v with
      | error err => exact ⟨err, by rw [hexec, h]⟩
      | ok n =>
        obtain ⟨rs, hrs, -⟩ := (verify_over_ok hv).mp h
        exact absurd ⟨rs, hrs⟩ hno
  · intro R w e hR hw he
    obtain ⟨l, hv, hd, hholds⟩ := hw.committed hR he
    refine ⟨l, hv, hd, ⟨hv.acceptable, ?_, ?_⟩, ?_⟩
    · rw [recordsBytes_records]
      exact hholds
    · rw [recordsBytes_records, hd.logEnd_toNat]
      exact (tail_eq l).symm
    · exact (verify_returns hv hd.logEnd_toNat).exec_eq hholds

/-- The log of a small database is spelled by four records: two documents, a tombstone
and a master record. -/
theorem verify_accepts_grammar_committed :
    letI := emptyDocuments
    ∃ v e, Opens v e ∧ Spells v e.header.logEnd smallCommittedLog.records ∧
      e.verify.run.exec (.ofImage v) = some (.ok 4, .ofImage v) ∧
      (∀ rs, Spells v e.header.logEnd rs → rs = smallCommittedLog.records) ∧
      ∃ l, ValidLog l ∧ Describes e.header l ∧ l.records = smallCommittedLog.records := by
  let _ := emptyDocuments
  obtain ⟨d, cs, hw, hs, hlen⟩ := reachable_small (R := crashes) trivial
  have hopen := hs.live.opens_iff.mpr rfl
  have hend := hs.handle.describes.logEnd_toNat
  have hspells : Spells d.volatile smallCommitted.header.logEnd smallCommittedLog.records := by
    refine ⟨hs.handle.valid.acceptable, ?_, ?_⟩
    · rw [recordsBytes_records]
      exact hs.backed.holds
    · rw [recordsBytes_records, hend]
      exact (tail_eq smallCommittedLog).symm
  obtain ⟨-, hverify, hunique, -⟩ := verify_accepts_grammar.1 d.volatile _ (hlen.trans (by decide))
    hopen ((le_tail smallCommittedLog).trans_eq hend.symm)
  obtain ⟨l, hv, hd, hl, -⟩ := verify_accepts_grammar.2 crashes _ _ (Or.inr rfl) hw (Or.inr hopen)
  exact ⟨d.volatile, _, hopen, hspells, (hverify 4).mpr ⟨_, hspells, rfl⟩,
    fun rs hrs => hunique _ _ hrs hspells, l, hv, hd, hunique _ _ hl hspells⟩

end ContextDb
