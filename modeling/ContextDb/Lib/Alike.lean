import ContextDb.Lib.Logic

/-!
# Disks that cannot be told apart

A request to write many bytes may reach the disk as several writes of a few bytes
each. The disk it leaves is another one – its list of unsynced writes is longer –
and yet nothing can tell the two apart: readers see one image, one image is
durable, and a loss of power has the same bytes to choose from
(`FileProg.Disk.Alike`). Programs do not notice either
(`FileProg.Prog.Steps.alike`).

Writing in pieces is a fact about writes (`FileProg.Disk.alike_write_append`).
Reading in pieces is one about images: if others write in the meantime, the pieces
come from different images, and what has been put together is found in neither. It
is found in the image spliced from the two (`ByteFile.splice`), and so a property of
images that admits splicing (`ByteFile.Spliceable`) – that some bytes stand
somewhere is one – may be relied on as if the read had been made at one go.
-/

namespace ByteFile

/-! ### Writing in pieces -/

/-- **Writing two pieces**, one behind the other, is writing both at once. -/
theorem writeAt_append (f : Bytes) (off : ℕ) (as bs : Bytes) :
    writeAt (writeAt f off as) (off + as.length) bs = writeAt f off (as ++ bs) := by
  rcases eq_or_ne as [] with rfl | ha
  · rfl
  rcases eq_or_ne bs [] with rfl | hb
  · rw [writeAt_nil, List.append_nil]
  have hlen : off + as.length ≤ (writeAt f off as).length := by
    rw [length_writeAt ha]
    exact le_max_right _ _
  have hgap : off + as.length - (writeAt f off as).length = 0 := Nat.sub_eq_zero_of_le hlen
  have hne : as ++ bs ≠ [] := fun h => ha (List.append_eq_nil_iff.mp h).1
  have hfront := length_take_gap f off
  have hboth : ((f ++ List.replicate (off - f.length) 0).take off ++ as).length =
      off + as.length := by
    rw [List.length_append, hfront]
  -- the second write finds the first one in front of it
  rw [writeAt, if_neg hb, hgap, List.replicate_zero, List.append_nil]
  rw [writeAt, if_neg ha, writeAt, if_neg hne]
  rw [List.take_append_of_le_length hboth.ge, List.take_of_length_le hboth.le]
  rw [List.drop_append, hboth, Nat.add_sub_cancel_left, List.drop_drop, List.length_append,
    List.drop_eq_nil_of_le (by omega), List.nil_append]
  simp only [List.append_assoc, Nat.add_assoc]

/-! ### Reading in pieces -/

/-- **Two images spliced** at `j`: the bytes in front of it come from the first, those
behind it from the second. -/
def splice (v w : Bytes) (j : ℕ) : Bytes := v.take j ++ w.drop j

theorem getElem?_splice {v : Bytes} (w : Bytes) {j : ℕ} (hj : j ≤ v.length) (i : ℕ) :
    (splice v w j)[i]? = if i < j then v[i]? else w[i]? := by
  have hlen : (v.take j).length = j := by
    rw [List.length_take]
    exact min_eq_left hj
  rw [splice]
  split
  · rw [List.getElem?_append_left (by omega), List.getElem?_take_of_lt ‹_›]
  · rw [List.getElem?_append_right (by omega), hlen, List.getElem?_drop]
    congr 1
    omega

/-- What stands in front of the splice in the first image. -/
theorem Holds.splice_left {v w bs : Bytes} {off j : ℕ} (h : Holds v off bs) (hj : j ≤ v.length)
    (hle : off + bs.length ≤ j) : Holds (splice v w j) off bs := by
  intro i b hb
  have hi := (List.getElem?_eq_some_iff.mp hb).1
  rw [getElem?_splice w hj, if_pos (by omega)]
  exact h i b hb

/-- What stands behind it in the second. -/
theorem Holds.splice_right {v w bs : Bytes} {off j : ℕ} (h : Holds w off bs) (hj : j ≤ v.length)
    (hle : j ≤ off) : Holds (splice v w j) off bs := by
  intro i b hb
  rw [getElem?_splice w hj, if_neg (by omega)]
  exact h i b hb

/-- **A property of images that admits splicing.** -/
def Spliceable (S : Bytes → Prop) : Prop :=
  ∀ v w j, S v → S w → j ≤ v.length → S (splice v w j)

/-- An image spliced with itself is itself. -/
theorem spliceable_eq (v : Bytes) : Spliceable (fun w => w = v) := by
  rintro w x j rfl rfl -
  exact List.take_append_drop j _

/-- **That some bytes stand somewhere admits splicing.** -/
theorem spliceable_holds (off : ℕ) (bs : Bytes) : Spliceable (fun v => Holds v off bs) := by
  intro v w j hv hw hj i b hb
  rw [getElem?_splice w hj]
  split
  · exact hv i b hb
  · exact hw i b hb

end ByteFile

namespace FileProg

open ByteFile

namespace Disk

/-! ### Alike -/

/-- A byte that waits to be synced. -/
def Pending (d : Disk) (i : ℕ) (b : UInt8) : Prop :=
  ∃ w ∈ d.unsynced, w.1 ≤ i ∧ w.2[i - w.1]? = some b

theorem pending_write {d : Disk} {off : ℕ} {bs : Bytes} {i : ℕ} {b : UInt8} :
    (d.write off bs).Pending i b ↔ d.Pending i b ∨ (off ≤ i ∧ bs[i - off]? = some b) := by
  simp only [Pending, unsynced_write, List.mem_append, List.mem_singleton, or_and_right,
    exists_or, exists_eq_left]

/-- **Disks that cannot be told apart.** -/
structure Alike (d e : Disk) : Prop where
  /-- The same is durable. -/
  durable : d.durable = e.durable
  /-- Readers see the same. -/
  volatile : d.volatile = e.volatile
  /-- The same bytes wait to be synced. -/
  pending : ∀ i b, d.Pending i b ↔ e.Pending i b

namespace Alike

variable {d e f : Disk}

theorem refl (d : Disk) : d.Alike d := ⟨rfl, rfl, fun _ _ => Iff.rfl⟩

theorem symm (h : d.Alike e) : e.Alike d :=
  ⟨h.durable.symm, h.volatile.symm, fun i b => (h.pending i b).symm⟩

theorem trans (h : d.Alike e) (h' : e.Alike f) : d.Alike f :=
  ⟨h.durable.trans h'.durable, h.volatile.trans h'.volatile,
    fun i b => (h.pending i b).trans (h'.pending i b)⟩

theorem write (h : d.Alike e) (off : ℕ) (bs : Bytes) : (d.write off bs).Alike (e.write off bs) where
  durable := h.durable
  volatile := by rw [volatile_write, volatile_write, h.volatile]
  pending i b := by rw [pending_write, pending_write, h.pending]

theorem sync (h : d.Alike e) : d.sync.Alike e.sync := by
  rw [Disk.sync, Disk.sync, h.volatile]
  exact .refl _

/-- **A loss of power leaves the same.** -/
theorem crash (h : d.Alike e) {img : Bytes} (hc : d.Crash img) : e.Crash img where
  durable_le := h.durable ▸ hc.durable_le
  le_volatile := h.volatile ▸ hc.le_volatile
  byte i b hb := by
    rw [← h.durable]
    exact (hc.byte i b hb).imp_right (h.pending i b).mp

end Alike

/-- A write of no bytes. -/
theorem alike_write_nil (d : Disk) (off : ℕ) : (d.write off []).Alike d where
  durable := rfl
  volatile := by rw [volatile_write, writeAt_nil]
  pending i b := by simp [pending_write]

/-- **Two writes of two pieces are one write of both.** -/
theorem alike_write_append (d : Disk) (off : ℕ) (as bs : Bytes) :
    ((d.write off as).write (off + as.length) bs).Alike (d.write off (as ++ bs)) where
  durable := rfl
  volatile := by rw [volatile_write, volatile_write, volatile_write, writeAt_append]
  pending i b := by
    rw [pending_write, pending_write, pending_write, or_assoc]
    refine or_congr_right ?_
    rcases Nat.lt_or_ge i (off + as.length) with hi | hi
    · -- in the first piece
      rw [or_iff_left (fun h => absurd h.1 (Nat.not_le_of_lt hi))]
      refine and_congr_right fun hle => ?_
      rw [List.getElem?_append_left (by omega)]
    · have hnone : as[i - off]? = none := List.getElem?_eq_none (by omega)
      rw [hnone, List.getElem?_append_right (by omega), Nat.sub_sub]
      simp only [reduceCtorEq, and_false, false_or, hi, true_and]
      exact (and_iff_right (by omega)).symm

end Disk

/-! ### Programs do not notice -/

namespace Prog

variable {α : Type} {F : Faults} {p q : Prog α} {d d' e : Disk} {tr : Trace}

/-- **One request** on disks that are alike. -/
theorem Step.alike (h : Step F p d tr q d') (ha : d.Alike e) :
    ∃ e', Step F p e tr q e' ∧ d'.Alike e' := by
  cases h with
  | len k d =>
    rw [ha.volatile]
    exact ⟨e, .len k e, ha⟩
  | read off n k d =>
    rw [ha.volatile]
    exact ⟨e, .read off n k e, ha⟩
  | write k d hfit => exact ⟨_, .write k e hfit, ha.write _ _⟩
  | writeFails k d hn hf =>
    rw [ha.volatile] at hf
    exact ⟨_, .writeFails k e hn hf, ha.write _ _⟩
  | sync k d => exact ⟨_, .sync k e, ha.sync⟩
  | syncFails k d hf => exact ⟨e, .syncFails k e hf, ha⟩

/-- **Any number of requests** on disks that are alike. -/
theorem Steps.alike (h : Steps F p d tr q d') (ha : d.Alike e) :
    ∃ e', Steps F p e tr q e' ∧ d'.Alike e' := by
  induction h generalizing e with
  | refl p d => exact ⟨e, .refl p e, ha⟩
  | head hs _ ih =>
    obtain ⟨e₁, hs₁, ha₁⟩ := hs.alike ha
    obtain ⟨e₂, hs₂, ha₂⟩ := ih ha₁
    exact ⟨e₂, .head hs₁ hs₂, ha₂⟩

end Prog

end FileProg
