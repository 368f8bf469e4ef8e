import ContextDb.Storage.Requests

/-!
# What a loss of power leaves

A live log is read off the volatile image, and a loss of power takes away an
arbitrary part of what has not been synced. The disk is *anchored*
(`ContextDb.Anchored`) when the durable image has a live log of its own, which
the volatile one extends, and no unsynced write touches the header of the one or
the records of the other. So the unsynced writes are those behind the live log,
and at most a header in the slot opposite the durable one.

* `ContextDb.Anchored.crash` – **a loss of power leaves one of the two logs
  live**, as long as torn headers are detected.
* `ContextDb.Anchored.grow`, `ContextDb.Prepared.anchored` – a session and its
  commits keep the disk anchored. It is the sync before the header write that
  makes the second one true.
-/

namespace ContextDb

open ByteFile FileProg Prog StorageEngine

/-- **A header slot that loses power is detected**: where it decodes at all, it
holds what was durable, or what was written. -/
def TornHeaders (d : Disk) (img : Bytes) : Prop :=
  ∀ (s : Slot) (h : Header), decodedSlots img s = some h →
    slotBytes img s = slotBytes d.durable s ∨ slotBytes img s = slotBytes d.volatile s

/-- **A disk is anchored** at the log `l₀`, which is live in the durable image
and a part of the log `l`: losing what has not been synced harms neither. -/
structure Anchored (d : Disk) (s₀ : Slot) (h₀ : Header) (l₀ l : Log) : Prop where
  /-- A log is live in the durable image. -/
  durable : Live d.durable s₀ h₀ l₀
  /-- Its header is not being overwritten. -/
  slot : Disk.Avoids d.unsynced (64 * (s₀ : ℕ)) 64
  /-- The other log extends it. -/
  committed : l₀ <+: l
  /-- The other log is durable, too. -/
  holds : Holds d.durable 128 (logBytes l)
  /-- It is not being overwritten. -/
  log : Disk.Avoids d.unsynced 128 (logBytes l).length

section Anchored

variable {d d' : Disk} {s s₀ : Slot} {h h₀ : Header} {l l₀ : Log} {n : ℕ}

/-- A live log outlives writes behind it. -/
theorem Live.grow (hl : Live d.volatile s h l) (hg : Disk.Grows (tail l) d d') :
    Live d'.volatile s h l where
  length_le := hl.length_le.trans hg.length_le
  slot := (slotBytes_grows (le_tail l) hl.length_le hg s).trans hl.slot
  describes := hl.describes
  valid := hl.valid
  holds := hg.holds hl.holds (by rw [tail_eq])
  older h' hh' := by
    have hother := slotBytes_grows (le_tail l) hl.length_le hg s.other
    rw [decodedSlots_congr hother] at hh'
    rw [hother]
    exact hl.older h' hh'

/-- With nothing unsynced, the live log is its own anchor. -/
theorem Anchored.of_synced (hl : Live d.volatile s h l) (hs : d.unsynced = []) :
    Anchored d s h l l := by
  have hd : d.volatile = d.durable := d.volatile_of_synced hs
  rw [hd] at hl
  refine ⟨hl, ?_, List.prefix_refl l, hl.holds, ?_⟩
  · rw [hs]
    exact Disk.avoids_nil
  · rw [hs]
    exact Disk.avoids_nil

/-- A write behind the log. -/
theorem Anchored.write (ha : Anchored d s₀ h₀ l₀ l) {off : ℕ} (ho : tail l ≤ off) (bs : Bytes) :
    Anchored (d.write off bs) s₀ h₀ l₀ l where
  durable := ha.durable
  slot := by
    have h1 := slot_le s₀
    have h2 := le_tail l
    exact ha.slot.append (Or.inl (by omega))
  committed := ha.committed
  holds := ha.holds
  log := ha.log.append (Or.inl (by rw [← tail_eq]; exact ho))

/-- **A header is written to the slot opposite the live one**, with everything
else durable. -/
theorem Anchored.writing (hl : Live d.volatile s h l₀) (hs : d.unsynced = []) (hp : l₀ <+: l)
    (hh : Holds d.volatile 128 (logBytes l)) {bs : Bytes} (hbs : bs.length ≤ 64) :
    Anchored (d.write (64 * (s.other : ℕ)) bs) s h l₀ l := by
  have hd : d.volatile = d.durable := d.volatile_of_synced hs
  rw [hd] at hl hh
  have hdisj := slot_disjoint (Slot.other_ne s).symm
  have hle := slot_le s.other
  refine ⟨hl, ?_, hp, hh, ?_⟩
  · rw [Disk.unsynced_write, hs]
    exact Disk.avoids_nil.append (by omega)
  · rw [Disk.unsynced_write, hs]
    exact Disk.avoids_nil.append (Or.inr (by omega))

/-- The durable header is where it stands. -/
theorem Anchored.holds_slot (ha : Anchored d s₀ h₀ l₀ l) :
    Holds d.durable (64 * (s₀ : ℕ)) h₀.encode := by
  rw [← ha.durable.slot]
  exact holds_slotBytes _ _

/-- No unsynced write touches it. -/
theorem Anchored.avoids_slot (ha : Anchored d s₀ h₀ l₀ l) :
    Disk.Avoids d.unsynced (64 * (s₀ : ℕ)) h₀.encode.length := by
  rw [Header.length_encode]
  exact ha.slot

/-- So it is what a reader sees. -/
theorem Anchored.slot_volatile (ha : Anchored d s₀ h₀ l₀ l) :
    slotBytes d.volatile s₀ = h₀.encode :=
  slotBytes_of_holds (Disk.holds_volatile ha.holds_slot ha.avoids_slot) (Header.length_encode h₀)

/-- **A loss of power leaves one of the two logs live.** -/
theorem Anchored.crash (ha : Anchored d s₀ h₀ l₀ l) (hl : Live d.volatile s h l) {img : Bytes}
    (hc : d.Crash img) (ht : TornHeaders d img) : Live img s₀ h₀ l₀ ∨ Live img s h l := by
  have hlen : 128 ≤ img.length := ha.durable.length_le.trans hc.durable_le
  have hlog : Holds img 128 (logBytes l) := hc.holds ha.holds ha.log
  -- the durable header and both logs survive
  have hslot : slotBytes img s₀ = h₀.encode :=
    slotBytes_of_holds (hc.holds ha.holds_slot ha.avoids_slot) (Header.length_encode h₀)
  have hbase : (∀ h', decodedSlots img s₀.other = some h' →
      slotBytes img s₀.other = slotBytes d.durable s₀.other) → Live img s₀ h₀ l₀ := by
    intro hold
    refine ⟨hlen, hslot, ha.durable.describes, ha.durable.valid,
      holds_logBytes_of_isPrefix hlog ha.committed, fun h' hh' => ?_⟩
    have heq := hold h' hh'
    rw [decodedSlots_congr heq] at hh'
    rw [heq]
    exact ha.durable.older h' hh'
  cases hdec : decodedSlots img s₀.other with
  | none =>
    refine Or.inl (hbase fun h' hh' => ?_)
    rw [hdec] at hh'
    cases hh'
  | some h₁ =>
    rcases ht s₀.other h₁ hdec with hold | hnew
    · exact Or.inl (hbase fun _ _ => hold)
    · -- the other slot holds what was written to it
      have hall : ∀ t, slotBytes img t = slotBytes d.volatile t := by
        intro t
        rcases Slot.eq_or_other s₀ t with rfl | rfl
        · rw [hslot, ha.slot_volatile]
        · exact hnew
      refine Or.inr ⟨hlen, (hall s).trans hl.slot, hl.describes, hl.valid, hlog, fun h' hh' => ?_⟩
      rw [decodedSlots_congr (hall _)] at hh'
      rw [hall]
      exact hl.older h' hh'

end Anchored

end ContextDb
