import ContextDb.History
import ContextDb.Sequential

/-!
# Both generations on disk

A commit leaves the previous generation's header alone, and a loss of the newer
slot falls back to it. That is of use only if the older generation is *complete*:
if nothing written since – abandoned tails, superseded master records, commits
after an earlier rollback, which reuse generation numbers and log space – has
touched a byte its header depends on.

The invariant ties every header that decodes to the commit that wrote it
(`ContextDb.AllWritten`): the log it describes, as a part of the live one, is
what that commit captured. Losing a slot changes which log is live and nothing
else.
-/

namespace ContextDb

open ByteFile FileProg Prog StorageEngine

/-- **Sessions between which header slots are lost.** Nothing fails but a write
that does not fit in a file. -/
def slotLosses : Regime where
  faults := fullDisk
  kill := False
  powerLoss := False
  slotLoss := True
  kinds _ := True

/-- **What was current when a header was written**: what the latest commit to
its slot captured – and that commit wrote exactly this header – or the empty
database, if there was none. -/
def WrittenBy (cs : List Issued) (s : Slot) (h : Header) (st : DocState) : Prop :=
  match cs.find? fun c => c.off = 64 * (s : ℕ) with
  | some c => c.ok = true ∧ c.bytes = h.encode ∧ st = c.captured
  | none => h = .initial ∧ st = .empty

/-- **Every header of an image stands for what its commit captured.** -/
def AllWritten (v : Bytes) (l : Log) (cs : List Issued) : Prop :=
  ∀ s h l', decodedSlots v s = some h → Describes h l' → l' <+: l →
    WrittenBy cs s h (tableOf l').state

/-- **The headers of a world stand for their commits**, and the live one is the
newest. -/
inductive Provenance : World → Prop
  /-- A handle is open. -/
  | session {d : Disk} {cs : List Issued} {e : StorageEngine} {l log : Log}
      (hs : Settled e d.volatile l log) (hw : AllWritten d.volatile l cs) :
      Provenance ⟨d, some e, cs⟩
  /-- The file is at rest. -/
  | rest {d : Disk} {cs : List Issued} {s : Slot} {h : Header} {l : Log}
      (hl : Live d.volatile s h l) (hw : AllWritten d.volatile l cs) : Provenance ⟨d, none, cs⟩
  /-- The file has not been created. -/
  | unborn {d : Disk} (hu : Unborn d.volatile) : Provenance ⟨d, none, []⟩

section Provenance

variable {F : Faults} {e e' : StorageEngine} {l l' log : Log} {d d' : Disk} {tr : Trace}
  {cs : List Issued} {s t : Slot} {h h' : Header} {v w : Bytes}

/-- A commit to one slot is not the latest one to the other. -/
theorem WrittenBy.cons_other {c : Issued} {st : DocState} (hw : WrittenBy cs s h st)
    (hc : c.off = 64 * (t : ℕ)) (hst : s ≠ t) : WrittenBy (c :: cs) s h st := by
  have hne : ¬c.off = 64 * (s : ℕ) := by
    intro heq
    exact hst (Fin.ext (by omega))
  rw [WrittenBy, List.find?_cons_of_neg (by simpa using hne)]
  exact hw

/-- The empty database stands for itself. -/
theorem allWritten_newRegion : AllWritten newRegion [] [] := by
  intro s h l' hh hd hl'
  obtain rfl := List.prefix_nil.mp hl'
  obtain rfl | rfl := s.eq_zero_or_one
  · rw [live_newRegion.decoded] at hh
    cases hh
    exact ⟨rfl, rfl⟩
  · rw [decodedSlots_newRegion_one] at hh
    cases hh

/-- **A live image with damage to one slot** still has its headers stand for
their commits. -/
theorem AllWritten.of_slotLoss {junk : Bytes} (hw : AllWritten v l cs) (hlen : 128 ≤ v.length)
    (hjunk : decodedSlots (writeAt v (64 * t) junk) t = none) (hjl : junk.length = 64)
    (hp : l' <+: l) : AllWritten (writeAt v (64 * t) junk) l' cs := by
  intro s h l'' hh hd hl''
  by_cases hst : s = t
  · subst hst
    rw [hjunk] at hh
    cases hh
  · rw [decodedSlots_congr (slotBytes_writeAt_other hlen hst hjl.le)] at hh
    exact hw s h l'' hh hd (hl''.trans hp)

/-- **A freshly opened handle** has the provenance of its file. -/
theorem Provenance.of_live (hl : Live d.volatile s h l) (hw : AllWritten d.volatile l cs) :
    Provenance ⟨d, some (opened (decodedSlots d.volatile) s h l), cs⟩ :=
  .session (Settled.of_live hl) hw

/-- Writing to the log changes nothing. -/
theorem AllWritten.grow {n : ℕ} (hw : AllWritten d.volatile l cs) (hn : 128 ≤ n)
    (hlen : 128 ≤ d.volatile.length) (hg : Disk.Grows n d d') : AllWritten d'.volatile l cs := by
  intro s h l' hh
  rw [decodedSlots_congr (slotBytes_grows hn hlen hg s)] at hh
  exact hw s h l' hh

/-- **A commit that goes through** has its header stand for what it captured. -/
theorem AllWritten.publish {tr₁ : Trace} {d₁ : Disk} {order : IterOrder}
    (hse : Settled e d.volatile l log) (hw : AllWritten d.volatile l cs)
    (hp : Prepared e order d tr₁ d₁) :
    AllWritten (d₁.write (64 * commitSlot e) (commitHeaderOf e order).encode).sync.volatile
      (commitLog e order log)
      (⟨e.docState d.volatile, 64 * commitSlot e, (commitHeaderOf e order).encode, true⟩ ::
        cs) := by
  have h := hse.handle
  have hb₁ := backed_prepared h hse.backed hp
  have hnext := h.describes_next hp.length_le hp.fits
  intro s h' l' hh' hd hl'
  rw [Disk.volatile_sync, Disk.volatile_write] at hh'
  by_cases hs : s = commitSlot e
  · -- the slot the commit has written
    subst hs
    have hnew : slotBytes (writeAt d₁.volatile (64 * (commitSlot e : ℕ))
        (commitHeaderOf e order).encode) (commitSlot e) = (commitHeaderOf e order).encode :=
      slotBytes_of_holds (holds_writeAt _ _ _) (Header.length_encode _)
    rw [decodedSlots_of_encode hnew] at hh'
    cases hh'
    have heq : l' = commitLog e order log := by
      refine prefix_eq_of_tail_eq hl' (List.prefix_refl _) ?_
      rw [← hd.logEnd_toNat, ← hnext.logEnd_toNat]
    rw [heq, tableOf_commitLog, ← hse.docState, WrittenBy,
      List.find?_cons_of_pos (by simp)]
    exact ⟨rfl, rfl, rfl⟩
  · -- the slot of the generation before
    have hlive : s = e.liveSlot := by
      rw [h.victim] at hs
      exact (Slot.eq_or_other e.liveSlot s).resolve_right hs
    subst hlive
    rw [decodedSlots_congr (slotBytes_writeAt_other hb₁.length_le hs
      (Header.length_encode _).le), decodedSlots_of_encode hb₁.slot] at hh'
    cases hh'
    have heq : l' = l := by
      refine prefix_eq_of_tail_eq hl' (h.committed.trans (prefix_commitLog e order log)) ?_
      rw [← hd.logEnd_toNat, ← h.describes.logEnd_toNat]
    rw [heq]
    refine WrittenBy.cons_other ?_ rfl hs
    exact hw _ _ _ (decodedSlots_of_encode hse.backed.slot) h.describes (List.prefix_refl _)

/-- **Every request keeps the provenance.** -/
theorem serve_provenance [Bson] (hF : Steady F) (hse : Settled e d.volatile l log)
    (hw : AllWritten d.volatile l cs) {op : Op} {r : Except CndbError Reply}
    (hr : Runs F (op.prog e) d tr (r, e') d') :
    Provenance ⟨d', some e', issued (e.docState d.volatile) r.isOk tr ++ cs⟩ := by
  have hlen := hse.backed.length_le
  cases hop : op.isCommit with
  | false =>
    obtain ⟨hg, log', hsv, hse'⟩ := hse.serve hop hr
    rw [issued_logOnly hg.1]
    exact .session hse' (hw.grow (le_tail log) hlen hg.2)
  | true =>
    obtain ⟨order, rfl⟩ := Op.eq_commit hop
    rcases hse.commit hF hr with ⟨hg, -, hse'⟩ | ⟨tr₁, d₁, hp, rfl, rfl, rfl, rfl, hse'⟩
    · rw [issued_logOnly hg.1]
      exact .session hse' (hw.grow (le_tail log) hlen hg.2)
    · rw [issued_snoc hp.grows.1]
      exact .session hse' (AllWritten.publish hse hw hp)

/-- **In every world that has been created a log is live**, whose headers stand
for their commits. -/
theorem Provenance.live {handle : Option StorageEngine} (hw : Provenance ⟨d, handle, cs⟩)
    (hborn : 128 ≤ d.volatile.length) :
    ∃ s h l, Live d.volatile s h l ∧ AllWritten d.volatile l cs := by
  cases hw with
  | session hs hw => exact ⟨_, _, _, hs.live, hw⟩
  | rest hl hw => exact ⟨_, _, _, hl, hw⟩
  | unborn hu => exact (Nat.not_le_of_lt hu hborn).elim

end Provenance

/-- **Every step of a history with lost slots keeps the provenance.** -/
theorem World.Step.provenance [Bson] {w w' : World} (hw : Provenance w)
    (hs : World.Step slotLosses w w') : Provenance w' := by
  cases hs with
  | opens hr =>
    cases hw with
    | rest hl hw =>
      obtain ⟨rfl, hx⟩ := opens_live hl hr
      cases hx
      exact .of_live hl hw
    | unborn hu =>
      obtain ⟨hnew, -, rfl⟩ := opens_unborn hu hr
      refine .of_live (live_of_newRegion hnew) ?_
      rw [hnew]
      exact allWritten_newRegion
  | openFails hr =>
    cases hw with
    | rest hl =>
      obtain ⟨-, hx⟩ := opens_live hl hr
      cases hx
    | unborn hu =>
      rcases ((openFile_short_safe _ hu).steps hr).inv.volatile hu with hshort | hnew
      · exact .unborn hshort
      · refine .rest (live_of_newRegion hnew) ?_
        rw [hnew]
        exact allWritten_newRegion
  | openKilled hk => exact hk.elim
  | serve hop hr =>
    cases hw with
    | session hse hw => exact serve_provenance steady_fullDisk hse hw hr
  | drop =>
    cases hw with
    | session hse hw => exact .rest hse.live hw
  | kill hk => exact hk.elim
  | powerLoss hp => exact hp.elim
  | slotLoss hsl hregion hother hlen hjunk =>
    cases hw with
    | rest hl hw =>
      -- the slot that is left is live, and its log is a prefix of what was
      obtain ⟨s', h', l', -, -, hl', hp⟩ := hl.of_slotLoss hother hlen hjunk
      exact .rest hl' (hw.of_slotLoss hregion hjunk hlen hp)
    | unborn hu => exact (Nat.not_le_of_lt hu hregion).elim

/-- **Every reachable world has its provenance.** -/
theorem Reachable.provenance [Bson] {w : World} (hw : Reachable slotLosses w) :
    Provenance w := by
  induction hw with
  | refl => exact .unborn (by rw [Unborn]; decide)
  | tail _ hs ih => exact hs.provenance ih

/-- After a commit that had something to commit both headers decode. -/
theorem Settled.decoded_of_commit [Bson] {F : Faults} {e e' : StorageEngine} {l log : Log}
    {d d' : Disk} {tr : Trace} {order : IterOrder} {r : Except CndbError Reply}
    (hs : Settled e d.volatile l log) (hF : Steady F)
    (hr : Runs F ((Op.commit order).prog e) d tr (r, e') d') (hd : e.dirty = true)
    (hd' : e'.dirty = false) (t : Slot) : (decodedSlots d'.volatile t).isSome := by
  rcases hs.commit hF hr with ⟨-, rfl, -⟩ | ⟨tr₁, d₁, hp, -, -, -, rfl, -⟩
  · rw [hd] at hd'
    cases hd'
  · have hb := backed_prepared hs.handle hs.backed hp
    rw [Disk.volatile_sync, Disk.volatile_write]
    by_cases ht : t = commitSlot e
    · subst ht
      rw [decodedSlots_of_encode (slotBytes_of_holds (holds_writeAt _ _ _)
        (Header.length_encode _))]
      rfl
    · have hlive : t = e.liveSlot := by
        rw [hs.handle.victim] at ht
        exact (Slot.eq_or_other e.liveSlot t).resolve_right ht
      subst hlive
      rw [decodedSlots_congr (slotBytes_writeAt_other hb.length_le ht (Header.length_encode _).le),
        decodedSlots_of_encode hb.slot]
      rfl

/-- **The master record of a live header ends exactly at the end of its log.** -/
theorem Live.master_end {v : Bytes} {s : Slot} {h : Header} {l : Log} (hl : Live v s h l)
    (hgen : 0 < h.generation.toNat) :
    h.masterPtr.toNat + 9 + h.masterLen.toNat = h.logEnd.toNat ∧
      ∃ payload, payload.length = h.masterLen.toNat ∧
        (readRecordAt h.masterPtr).run.answer v = .ok ⟨.masterIndex, payload⟩ := by
  have hhold := hl.holds
  have hv := hl.valid
  have hd := hl.describes
  clear hl
  cases hd with
  | initial => cases hgen
  | @commit _ pre payload hptr hlen hend hpos hle =>
    refine ⟨?_, payload, hlen.symm, ?_⟩
    · rw [hend, tail_snoc, hptr, hlen]
      exact Nat.add_assoc _ _ _
    · exact (entry_returns hv hptr).answer_eq hhold

/-- **Both generations on disk stay complete.** Whenever both header slots of a
file decode, damage to either one makes opening fall back to the other: its
header, and exactly what was current when the commit that wrote it ran. The two
generations differ, the larger one has the longer log, and the master record of
the live one ends exactly where its log does. -/
theorem both_generations_complete [Bson] {w : World} (hw : Reachable slotLosses w)
    (hregion : 128 ≤ w.disk.volatile.length)
    (hboth : ∀ t, (decodedSlots w.disk.volatile t).isSome) :
    (∀ (t : Slot) (h : Header) (junk : Bytes), decodedSlots w.disk.volatile t.other = some h →
      junk.length = 64 → decodedSlots (writeAt w.disk.volatile (64 * t) junk) t = none →
      ∃ e n, openFile.run.exec (.ofImage (writeAt w.disk.volatile (64 * t) junk)) =
          some (.ok e, .ofImage (writeAt w.disk.volatile (64 * t) junk)) ∧
        e.header = h ∧
        WrittenBy w.commits t.other h
          (e.docState (writeAt w.disk.volatile (64 * t) junk)) ∧
        (h.generation = 0 →
          e.docState (writeAt w.disk.volatile (64 * t) junk) = .empty) ∧
        e.verify.run.exec (.ofImage (writeAt w.disk.volatile (64 * t) junk)) =
          some (.ok n, .ofImage (writeAt w.disk.volatile (64 * t) junk))) ∧
    (∀ h₀ h₁, decodedSlots w.disk.volatile 0 = some h₀ → decodedSlots w.disk.volatile 1 = some h₁ →
      h₀.generation ≠ h₁.generation ∧
        (h₀.generation < h₁.generation ↔ h₀.logEnd < h₁.logEnd)) ∧
    ∀ h s, selectLive (decodedSlots w.disk.volatile) = .ok (h, s) →
      h.masterPtr.toNat + 9 + h.masterLen.toNat = h.logEnd.toNat ∧
        ∃ payload, payload.length = h.masterLen.toNat ∧
          (readRecordAt h.masterPtr).run.answer w.disk.volatile =
            .ok ⟨.masterIndex, payload⟩ := by
  obtain ⟨d, handle, cs⟩ := w
  obtain ⟨s, h, l, hl, hwritten⟩ := (Reachable.provenance hw).live hregion
  obtain ⟨h', hh'⟩ := Option.isSome_iff_exists.mp (hboth s.other)
  obtain ⟨henc, hgen, l', hd', hp, hne⟩ := hl.older h' hh'
  refine ⟨?_, ?_, ?_⟩
  · intro t ht junk hht hjunk hbad
    obtain ⟨s', hs', ls, hts, hdec, hl', hpre⟩ := hl.of_slotLoss (hboth _) hjunk hbad
    obtain rfl : s' = t.other := Slot.eq_other_of_ne hts.symm
    obtain rfl : hs' = ht := Option.some.inj (hdec.symm.trans hht)
    refine ⟨_, ls.length, Live.open_exec (d := .ofImage _) hl', rfl, ?_, fun h0 => ?_, ?_⟩
    · change WrittenBy cs _ _ ((opened _ _ _ _).docState _)
      rw [Disk.volatile_ofImage, hl'.docState]
      exact hwritten _ _ _ hht hl'.describes hpre
    · have hnil := hl'.describes.eq_nil_of_generation (by rw [h0]; rfl)
      subst hnil
      exact hl'.docState _
    · exact (verify_returns hl'.valid hl'.describes.logEnd_toNat).exec_eq hl'.holds
  · -- the older log is a proper prefix, so it ends earlier
    have hlt : h'.logEnd.toNat < h.logEnd.toNat := by
      rw [hd'.logEnd_toNat, hl.describes.logEnd_toNat]
      exact tail_lt_of_isPrefix hp hne
    intro h₀ h₁ hh₀ hh₁
    have hdec := hl.decoded
    rw [UInt64.lt_iff_toNat_lt, UInt64.lt_iff_toNat_lt, ne_eq, ← UInt64.toNat_inj]
    obtain rfl | rfl := s.eq_zero_or_one
    · obtain rfl : h = h₀ := Option.some.inj (hdec.symm.trans hh₀)
      obtain rfl : h' = h₁ := Option.some.inj (hh'.symm.trans hh₁)
      omega
    · obtain rfl : h = h₁ := Option.some.inj (hdec.symm.trans hh₁)
      obtain rfl : h' = h₀ := Option.some.inj (hh'.symm.trans hh₀)
      omega
  · intro h'' s'' hsel
    rw [hl.selectLive_eq] at hsel
    cases hsel
    exact hl.master_end (by omega)

/-- A new database in which one document has been committed. -/
theorem both_generations_complete_committed :
    letI := emptyDocuments
    ∃ w, Reachable slotLosses w ∧ (∀ t, (decodedSlots w.disk.volatile t).isSome) ∧
      ∀ h₀ h₁, decodedSlots w.disk.volatile 0 = some h₀ →
        decodedSlots w.disk.volatile 1 = some h₁ →
        h₀.generation ≠ h₁.generation ∧
          (h₀.generation < h₁.generation ↔ h₀.logEnd < h₁.logEnd) := by
  let _ := emptyDocuments
  obtain ⟨d₁, h₁⟩ := append_exec (e := created) (d := .ofImage newRegion) .blob [7] (by decide)
    (by decide)
  obtain ⟨log, -, hs⟩ := Settled.serve_exec (d := .ofImage newRegion) settled_created rfl h₁
  obtain ⟨d₂, h₂⟩ := commit_exec (e := (created.appended 1).inserted created.endOffset) (d := d₁)
    .listed rfl (by decide) (by decide)
  obtain ⟨tr₁, hr₁⟩ := runs_of_exec h₁
  obtain ⟨tr₂, hr₂⟩ := runs_of_exec h₂
  have hw := ((reachable_created slotLosses).tail
    (.serve (show Op.Allowed _ (.append .blob [7]) from trivial) hr₁.of_never)).tail
    (.serve (show Op.Allowed _ (.commit .listed) from trivial) hr₂.of_never)
  have hboth := hs.decoded_of_commit steady_never hr₂ rfl rfl
  obtain ⟨_, _, hs'⟩ := Performs.settled ⟨_, _, hs⟩ (.op h₂)
  obtain ⟨-, hne, -⟩ := both_generations_complete hw hs'.backed.length_le hboth
  exact ⟨_, hw, hboth, hne⟩

end ContextDb
