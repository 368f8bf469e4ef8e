import ContextDb.Sharing

/-!
# Opening next to a writer

Opening a file is four requests: the length, the header region, and the frame
and the payload of the master record. Once the header region is read the rest
cannot fail, because the log of the live header keeps standing. But the region is
checked against a length that was taken before it, and the writer may have
committed in between. Opening succeeds exactly if the log of the header that is
live when the region is read ends within the length taken before
(`ContextDb.open_next_to_writer_iff`), and it fails if a commit has lengthened
the file meanwhile (`ContextDb.open_fails_next_to_commit`).
-/

namespace ContextDb

open ByteFile FileProg Prog StorageEngine

section Opening

variable [Bson] {x y : Writer × Disk} {vs : List Bytes} {r : Except CndbError StorageEngine}
  {l : Log}

/-- The rest of opening, once the length has been taken. -/
theorem Writing.load_beside (hw : Writing x l) {n : ℕ} (hn : 128 ≤ n)
    (h : Beside Writes (load n).run x vs (.ret r) y) :
    ∃ v rest s h l', vs = v :: rest ∧ Live v s h l' ∧
      r = if n < h.logEnd.toNat then .error (.unexpectedEof (UInt64.ofNat n) h.logEnd)
        else .ok (opened (decodedSlots v) s h l') := by
  rw [load_run, if_neg (Nat.not_lt_of_le hn)] at h
  obtain ⟨z, rest, hsteps, hvs, h⟩ := h.first_read
  obtain ⟨l', -, hw'⟩ := hw.steps hsteps
  obtain ⟨s, hdr, hl⟩ := hw'.live
  have hsel : selectLive (decodedSlots (z.2.volatile.take 128)) = .ok (hdr, s) := by
    rw [decodedSlots_take]
    exact hl.selectLive_eq
  refine ⟨_, rest, s, hdr, l', hvs, hl, ?_⟩
  rw [readAt_region hl.length_le] at h
  by_cases hlt : n < hdr.logEnd.toNat
  · rw [if_pos hlt]
    simp only at h
    rw [recover_eof hsel hlt] at h
    exact h.of_ret.1
  · rw [if_neg hlt]
    have hlen : tail l' ≤ n := by
      rw [← hl.describes.logEnd_toNat]
      exact Nat.le_of_not_lt hlt
    have hret := recover_returns hsel hl.describes hl.valid hlen
    rw [decodedSlots_take] at hret
    exact (h.returns (I := Relies l') (fun _ _ hx h => hx.step h) (fun _ hx => hx.holds) hret
      ⟨l', List.prefix_refl l', hw'⟩).1

end Opening

/-- **When opening next to a writer succeeds.** A reader opens an existing
database while the writer works on it. It gets the state that was live at one of
its requests if and only if the header that is live when it reads the header
region describes a log that ends within the length it has taken before. -/
theorem open_next_to_writer_iff [Bson] {R : Regime} (hR : R.Covered) {w : World}
    (hw : Reachable R w) {x y : Writer × Disk}
    (hx : Relation.ReflTransGen Writes (.closed, w.disk) x) (hne : x.2.volatile ≠ [])
    {e₀ : StorageEngine} {d : Disk} (hopen : openFile.run.exec x.2 = some (.ok e₀, d))
    {vs : List Bytes} {r : Except CndbError StorageEngine}
    (h : Beside Writes openFile.run x vs (.ret r) y) :
    (∃ e, r = .ok e ∧ ∃ v ∈ vs, Opens v e) ↔
      ∀ v₁ v₂ rest e, vs = v₁ :: v₂ :: rest → Opens v₂ e → e.header.logEnd.toNat ≤ v₁.length := by
  obtain ⟨s, hdr, l, hl, hwr, -⟩ := writing_of_open hR hw hx hne hopen
  rw [openFile_run] at h
  obtain ⟨z, vs', hsteps, rfl, hload⟩ := h.first_len
  obtain ⟨l', -, hwr'⟩ := hwr.steps hsteps
  obtain ⟨s', hdr', hl'⟩ := hwr'.live
  have hlen := hl'.length_le
  rw [if_pos (show z.2.volatile.length > 0 by omega)] at hload
  obtain ⟨v, rest, s₂, h₂, l₂, rfl, hl₂, rfl⟩ := hwr'.load_beside hlen hload
  constructor
  · rintro ⟨e, he, -⟩ v₁ v₂ rest' e' hvs hopens
    injection hvs with hv₁ hvs
    injection hvs with hv₂ hvs
    subst hv₁ hv₂
    obtain rfl := hl₂.opens_iff.mp hopens
    by_contra hle
    have hlt : z.2.volatile.length < h₂.logEnd.toNat := Nat.lt_of_not_le hle
    rw [if_pos hlt] at he
    cases he
  · intro hall
    have hle := hall _ _ _ _ rfl (hl₂.opens_iff.mpr rfl)
    refine ⟨_, if_neg (Nat.not_lt_of_le hle), v, ?_, hl₂.opens_iff.mpr rfl⟩
    exact List.mem_cons_of_mem _ List.mem_cons_self

/-! ### A commit in between -/

section Commit

variable [Bson]

/-- The writer of a new database stores a document and commits. -/
theorem writes_first : ∃ d, Relation.ReflTransGen Writes (.idle created, .ofImage newRegion)
    (.idle firstCommitted, d) := by
  obtain ⟨d₁, d₂, happend, hcommit, -⟩ := first_document (d := .ofImage newRegion) settled_created
  exact ⟨d₂, (writes_of_exec happend).trans (writes_of_exec hcommit)⟩

/-- **A commit may come between the length and the header region.** A reader has
taken the length of a new database; the writer stores a document and commits; the
reader reads the header region. -/
theorem open_beside_commit : ∃ vs y,
    Relation.ReflTransGen Writes (.closed, .ofImage newRegion) (.idle created, .ofImage newRegion) ∧
      Beside Writes openFile.run (.idle created, .ofImage newRegion) vs
        (.ret (.error (.unexpectedEof 128 187))) y := by
  have hopened : Relation.ReflTransGen Writes (.closed, .ofImage newRegion)
      (.idle created, .ofImage newRegion) := writes_of_open open_newRegion
  obtain ⟨d, hsteps⟩ := writes_first
  have hstart : Writing (.closed, .ofImage newRegion) [] := .closed live_newRegion
  obtain ⟨l, -, hw⟩ := hstart.steps (hopened.trans hsteps)
  cases hw with
  | idle hs =>
    have hsel : selectLive (decodedSlots (d.volatile.take 128)) =
        .ok (firstCommitted.header, firstCommitted.liveSlot) := by
      rw [decodedSlots_take]
      exact hs.live.selectLive_eq
    have hlt : 128 < firstCommitted.header.logEnd.toNat := by
      rw [firstCommitted_logEnd]
      decide
    have hload : Beside Writes (load 128).run (.idle created, .ofImage newRegion) [d.volatile]
        (.ret (.error (.unexpectedEof 128 187))) (.idle firstCommitted, d) := by
      rw [load_run, if_neg (Nat.lt_irrefl 128)]
      refine .env_steps hsteps (.request (.read 0 128 _ d) ?_)
      rw [readAt_region hs.backed.length_le]
      simp only
      rw [recover_eof hsel hlt, firstCommitted_logEnd]
      exact .refl _ _
    refine ⟨newRegion :: [d.volatile], (.idle firstCommitted, d), hopened, ?_⟩
    rw [openFile_run]
    refine .request (.len _ _) ?_
    rw [Disk.volatile_ofImage, length_newRegion, if_pos (by decide)]
    exact hload

end Commit

/-- The condition fails there. -/
theorem open_next_to_writer_iff_commit :
    letI := emptyDocuments
    ∃ vs y, Beside Writes openFile.run (.idle created, .ofImage newRegion) vs
        (.ret (.error (.unexpectedEof 128 187))) y ∧
      ¬∀ v₁ v₂ rest e, vs = v₁ :: v₂ :: rest → Opens v₂ e → e.header.logEnd.toNat ≤ v₁.length := by
  let _ := emptyDocuments
  obtain ⟨vs, y, hx, h⟩ := open_beside_commit
  have hne : (Disk.ofImage newRegion).volatile ≠ [] := live_newRegion.ne_nil
  have hiff := open_next_to_writer_iff (R := crashes) (Or.inr rfl) (reachable_created crashes) hx
    hne open_newRegion h
  refine ⟨vs, y, h, fun hall => ?_⟩
  obtain ⟨e, he, -⟩ := hiff.mpr hall
  cases he

/-- **Opening may fail next to a writer**: the length is taken, a commit
lengthens the file, and the header region is checked against the old length. -/
theorem open_fails_next_to_commit :
    letI := emptyDocuments
    ∃ x vs y, Relation.ReflTransGen Writes (.closed, .ofImage newRegion) x ∧
      (∃ e, openFile.run.exec x.2 = some (.ok e, x.2)) ∧
      Beside Writes openFile.run x vs (.ret (.error (.unexpectedEof 128 187))) y := by
  let _ := emptyDocuments
  obtain ⟨vs, y, hx, h⟩ := open_beside_commit
  exact ⟨_, vs, y, hx, ⟨created, open_newRegion⟩, h⟩

end ContextDb
