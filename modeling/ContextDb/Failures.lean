import ContextDb.History

/-!
# Failed requests

Any write may fail after any number of its bytes, any sync may fail, and a
request may be refused: such a request leaves no trace in the handle. After a
failed commit the handle and the file disagree on purpose – the victim slot may
be torn, old, or already hold the next generation, and the log may have moved
past an orphaned master record – so the invariant of a session has to be carried
through every continuation: more appends, another failing commit, a retry, a
reopening.

What is recovered is told from the commits of the history. In a session the
state of the committed log is attested for the live slot, and that of a newer
log for the other slot, if a failed commit has left one
(`ContextDb.Accounted`). Every step keeps this, and it is what reopening finds.
-/

namespace ContextDb

open ByteFile FileProg Prog StorageEngine

/-- **Histories with failures**: any write and any sync may fail. -/
def failures : Regime where
  faults := failingDisk
  kill := False
  powerLoss := False
  slotLoss := False
  kinds _ := True

/-! ### What a failed request leaves -/

section Error

variable [Bson] {F : Faults} {e e' : StorageEngine} {l log : Log} {d d' : Disk} {tr : Trace}
  {op : Op} {err : CndbError}

/-- **A failed request leaves no trace**: the index, the header and the slots of
the handle are as they were, and what is dirty stays dirty. -/
theorem serve_error (h : Handle e l log) (hb : Backed d.volatile e.liveSlot e.header l log)
    (hr : Runs F (op.prog e) d tr (.error err, e') d') :
    e'.index = e.index ∧ e'.header = e.header ∧ e'.slots = e.slots ∧
      e'.liveSlot = e.liveSlot ∧ (e.dirty = true → e'.dirty = true) := by
  cases hop : op.isCommit with
  | false =>
    obtain ⟨log', hs, -⟩ := (serve_safe h hb hop).runs hr
    obtain ⟨rfl, -⟩ := hs.eq_of_error rfl
    exact ⟨rfl, rfl, rfl, rfl, id⟩
  | true =>
    obtain ⟨order, rfl⟩ := Op.eq_commit hop
    obtain ⟨y, hc, hy⟩ := (commit_serve_safe h order).runs hr
    cases hc with
    | clean => cases hy
    | refused | early => exact ⟨rfl, rfl, rfl, rfl, id⟩
    | orphaned | torn => exact ⟨rfl, rfl, rfl, rfl, fun _ => rfl⟩
    | done => cases hy

/-- **Documents outlive a failed request.** -/
theorem records_error (hF : Detected F) (h : Handle e l log)
    (hb : Backed d.volatile e.liveSlot e.header l log)
    (hr : Runs F (op.prog e) d tr (.error err, e') d') :
    (e'.docState d'.volatile).records = (e.docState d.volatile).records := by
  obtain ⟨l', log', -, hp, h', hb', -⟩ := serve_backed hF h hb hr
  obtain ⟨hi, -⟩ := serve_error h hb hr
  have hold : Holds d'.volatile 128 (logBytes log) := holds_logBytes_of_isPrefix hb'.holds hp
  have h1 := docState_eq h.valid (hi.trans h.index) hold
  rw [h1, docState_eq h.valid h.index hb.holds]

end Error

/-! ### The commits of a history with failures -/

/-- **The commits account for a newer header** in the slot opposite `s`, if there
is one. -/
def NewerAttested (v : Bytes) (s : Slot) (h : Header) (log : Log) (cs : List Issued) : Prop :=
  ∀ h' l', decodedSlots v s.other = some h' → Describes h' l' → l' <+: log →
    h.generation.toNat < h'.generation.toNat →
    Attested (tableOf l').state s.other h'.encode cs

/-- **The commits account for a world**: those of an open handle for its
committed log, and for a newer one in the other slot if there is one; those of a
file at rest for its live log. -/
inductive Accounted : World → Prop
  /-- A handle is open. -/
  | session {d : Disk} {cs : List Issued} {e : StorageEngine} {l log : Log}
      (h : Handle e l log) (hb : Backed d.volatile e.liveSlot e.header l log)
      (ha : Attested (tableOf l).state e.liveSlot e.header.encode cs)
      (hn : NewerAttested d.volatile e.liveSlot e.header log cs) : Accounted ⟨d, some e, cs⟩
  /-- The file is at rest. -/
  | rest {d : Disk} {cs : List Issued} {s : Slot} {h : Header} {l : Log}
      (hl : Live d.volatile s h l) (ha : Attested (tableOf l).state s h.encode cs) :
      Accounted ⟨d, none, cs⟩
  /-- The file has not been created. -/
  | unborn {d : Disk} (hu : Unborn d.volatile) : Accounted ⟨d, none, []⟩

section Accounted

variable {F : Faults} {e e' : StorageEngine} {l log log' : Log} {d d' : Disk} {tr : Trace}
  {cs : List Issued}

/-- A freshly opened handle is accounted for. -/
theorem Accounted.of_live {s : Slot} {h : Header} (hl : Live d.volatile s h l)
    (ha : Attested (tableOf l).state s h.encode cs) :
    Accounted ⟨d, some (opened (decodedSlots d.volatile) s h l), cs⟩ := by
  refine .session (Handle.of_live hl) (Backed.of_live hl) ha fun h' l' hh' _ _ hgen => ?_
  have hlt := (hl.older h' hh').2.1
  exact absurd hgen (Nat.lt_asymm hlt)

/-- **What a session leaves behind is accounted for.** -/
theorem Accounted.drop (hw : Accounted ⟨d, some e, cs⟩) : Accounted ⟨d, none, cs⟩ := by
  cases hw with
  | session h hb ha hn =>
    rcases hb.live h.valid h.describes h.committed with hl | ⟨h', l', hl, hgen, -, -, hp⟩
    · exact .rest hl ha
    · exact .rest hl (hn h' l' hl.decoded hl.describes hp (by omega))

/-- Writing to the log changes nothing. -/
theorem NewerAttested.grow (hn : NewerAttested d.volatile e.liveSlot e.header log cs)
    (h : Handle e l log) (hb : Backed d.volatile e.liveSlot e.header l log)
    (hg : Disk.Grows (tail log) d d') (hp : log <+: log') :
    NewerAttested d'.volatile e.liveSlot e.header log' cs := by
  intro h' l' hh' hd hl' hgen
  have hother := slotBytes_grows (le_tail log) hb.length_le hg e.liveSlot.other
  rw [decodedSlots_congr hother] at hh'
  exact hn h' l' hh' hd (hb.prefix_of_other h.committed hp hh' hd hl') hgen

/-- **A commit keeps the account**, however it ends. -/
theorem Committed.accounted (hF : Detected F) (h : Handle e l log)
    (hb : Backed d.volatile e.liveSlot e.header l log)
    (ha : Attested (tableOf l).state e.liveSlot e.header.encode cs)
    (hn : NewerAttested d.volatile e.liveSlot e.header log cs)
    {order : IterOrder} {y : Except CndbError Unit}
    (hc : Committed F e order d tr (y, e') d') :
    Accounted ⟨d', some e', issued (e.docState d.volatile) y.isOk tr ++ cs⟩ := by
  have hstate : e.docState d.volatile = (tableOf (commitLog e order log)).state := by
    rw [docState_eq h.valid h.index hb.holds, tableOf_commitLog]
  have hp := prefix_commitLog e order log
  cases hc with
  | clean => exact .session h hb ha hn
  | refused hd hg | early hd hg =>
    -- the log has grown, behind all that is accounted for
    rw [issued_logOnly hg.1]
    rw [h.endOffset] at hg
    exact .session h (hb.grow hg.2) ha (hn.grow h hb hg.2 (List.prefix_refl _))
  | orphaned hd hg hf hlen hfit hh =>
    rw [issued_logOnly hg.1]
    rw [h.endOffset] at hg hh
    have hn' := hn.grow h hb hg.2 hp
    exact .session (h.append_master hlen hfit) ((hb.grow hg.2).snoc hh) ha hn'
  | torn hdirty hprep hk hcut =>
    rw [issued_snoc hprep.grows.1]
    have hsafe := hcut.imp And.left fun hw => tornSafe_commit hF (Or.inl hw)
    have hb' := backed_writing h hb hprep hk hsafe
    refine .session (h.append_master hprep.length_le hprep.fits) hb' (Or.inr ⟨rfl, ha⟩) ?_
    intro h' l' hh' hd hl' hgen
    change decodedSlots _ e.liveSlot.other = some h' at hh'
    change Attested _ e.liveSlot.other _ _
    rw [Disk.volatile_write] at hh'
    rw [h.victim] at hh' hsafe ⊢
    rcases slotBytes_cut hsafe hh' with hold | hnew
    · -- the slot still holds what it held before
      rw [decodedSlots_congr hold] at hh'
      have hg := hprep.grows.2
      rw [h.endOffset] at hg
      exact Or.inr ⟨rfl, hn.grow h hb hg hp h' l' hh' hd hl' hgen⟩
    · -- the slot holds the header of this commit
      rw [decodedSlots_of_encode hnew] at hh'
      cases hh'
      have hnext := h.describes_next hprep.length_le hprep.fits
      have heq : l' = commitLog e order log := by
        refine prefix_eq_of_tail_eq hl' (List.prefix_refl _) ?_
        rw [← hd.logEnd_toNat, ← hnext.logEnd_toNat]
      rw [heq]
      exact Or.inl ⟨hstate.symm, Or.inr ⟨rfl, rfl⟩⟩
  | done hd hprep =>
    -- the header of this commit is the newest of all
    rw [issued_snoc hprep.grows.1]
    have hpub := h.publish hprep.length_le hprep.fits
    have hb' := backed_published h hb hprep
    refine .session hpub hb' (Or.inl ⟨hstate.symm, Or.inl rfl⟩) ?_
    intro h' l' hh' _ _ hgen
    exact absurd hgen (Nat.lt_asymm (hb'.older_of_clean hh'))

/-- **Every request keeps the account.** -/
theorem serve_accounted [Bson] (hF : Detected F) (h : Handle e l log)
    (hb : Backed d.volatile e.liveSlot e.header l log)
    (ha : Attested (tableOf l).state e.liveSlot e.header.encode cs)
    (hn : NewerAttested d.volatile e.liveSlot e.header log cs) {op : Op}
    {r : Except CndbError Reply} (hr : Runs F (op.prog e) d tr (r, e') d') :
    Accounted ⟨d', some e', issued (e.docState d.volatile) r.isOk tr ++ cs⟩ := by
  cases hop : op.isCommit with
  | false =>
    obtain ⟨hg, log', hs, hb'⟩ := (serve_safe h hb hop).steps hr
    rw [List.nil_append] at hg
    simp only at hs hb'
    obtain ⟨hhdr, -, hlive⟩ := hs.header_eq
    have hn' := hn.grow h hb hg.2 hs.prefix_log
    rw [← hhdr, ← hlive] at hb' hn'
    rw [← hhdr, ← hlive] at ha
    rw [issued_logOnly hg.1]
    exact .session (hs.handle h) hb' ha hn'
  | true =>
    obtain ⟨order, rfl⟩ := Op.eq_commit hop
    obtain ⟨y, hc, hy⟩ := (commit_serve_safe h order).runs hr
    have hacc := hc.accounted hF h hb ha hn
    cases y with
    | ok u =>
      obtain rfl : r = .ok .done := hy
      exact hacc
    | error err =>
      obtain rfl : r = .error err := hy
      exact hacc

end Accounted

/-- **Every step of a history with failures keeps the account.** -/
theorem World.Step.accounted [Bson] {w w' : World} (hw : Accounted w)
    (hs : World.Step failures w w') : Accounted w' := by
  cases hs with
  | opens hr =>
    cases hw with
    | rest hl ha =>
      obtain ⟨rfl, hx⟩ := opens_live hl hr
      cases hx
      exact .of_live hl ha
    | unborn hu =>
      obtain ⟨hnew, -, rfl⟩ := opens_unborn hu hr
      exact .of_live (live_of_newRegion hnew) (attested_new 0 _)
  | openFails hr =>
    cases hw with
    | rest hl =>
      obtain ⟨-, hx⟩ := opens_live hl hr
      cases hx
    | unborn hu =>
      rcases ((openFile_short_safe _ hu).steps hr).inv.volatile hu with hshort | hnew
      · exact .unborn hshort
      · exact .rest (live_of_newRegion hnew) (attested_new 0 _)
  | openKilled hk => exact hk.elim
  | serve hop hr =>
    cases hw with
    | session h hb ha hn => exact serve_accounted detected_failingDisk h hb ha hn hr
  | drop => exact hw.drop
  | kill hk => exact hk.elim
  | powerLoss hp => exact hp.elim
  | slotLoss hl => exact hl.elim

/-- **Every world of a history with failures is accounted for.** -/
theorem Reachable.accounted [Bson] {w : World} (hw : Reachable failures w) : Accounted w := by
  induction hw with
  | refl => exact .unborn (by rw [Unborn]; decide)
  | tail _ hs ih => exact hs.accounted ih

/-- **Reopening an accounted world** recovers what its commits say. -/
theorem Accounted.reopen {d : Disk} {cs : List Issued} (hw : Accounted ⟨d, none, cs⟩)
    (hborn : ¬Unborn d.volatile) :
    ∃ e, openFile.run.exec d = some (.ok e, d) ∧
      Recovers d.volatile (e.docState d.volatile) cs := by
  cases hw with
  | rest hl ha =>
    refine ⟨_, hl.open_exec, ?_⟩
    rw [hl.docState]
    exact ha.recovers hl.slot
  | unborn hu => exact (hborn hu).elim

/-- **Failed requests are atomic and retryable.** Whenever a request fails, the
index, the header and the slots of the handle are unchanged, every document
reads back the same, and what is dirty stays dirty. A commit that returns `Ok`
publishes exactly the current index, and one that meets no failure returns `Ok`
if there is nothing to commit or the index fits in a record. At any point,
reopening shows what the last successful commit captured, or what a later failed
one captured whose header stands exactly where it was written. -/
theorem failed_requests_atomic [Bson] {w : World} (hw : Reachable failures w)
    {e : StorageEngine} (he : w.handle = some e) :
    (∀ (op : Op) tr err e' d', Runs failingDisk (op.prog e) w.disk tr (.error err, e') d' →
      e'.index = e.index ∧ e'.header = e.header ∧ e'.slots = e.slots ∧
        e'.liveSlot = e.liveSlot ∧
        (e'.docState d'.volatile).records = (e.docState w.disk.volatile).records ∧
        (e.dirty = true → e'.dirty = true)) ∧
    (∀ order tr e' d', Runs failingDisk ((Op.commit order).prog e) w.disk tr (.ok .done, e') d' →
      ∃ e'', openFile.run.exec d' = some (.ok e'', d') ∧ e''.index = e.index ∧
        e''.header = e'.header ∧ e''.docState d'.volatile = e.docState w.disk.volatile) ∧
    (∀ order r e' d', ((Op.commit order).prog e).exec w.disk = some ((r, e'), d') →
      e.dirty = false ∨ e.index.encodedLen ≤ maxRecordLen.toNat → r = .ok .done) ∧
    ∃ e'', openFile.run.exec w.disk = some (.ok e'', w.disk) ∧
      Recovers w.disk.volatile (e''.docState w.disk.volatile) w.commits := by
  obtain ⟨d, handle, cs⟩ := w
  obtain rfl : handle = some e := he
  have hacc := Reachable.accounted hw
  have hborn : ¬Unborn d.volatile := by
    cases hacc with
    | session h hb => exact Nat.not_lt_of_le hb.length_le
  refine ⟨?_, ?_, ?_, hacc.drop.reopen hborn⟩
  · intro op tr err e' d' hr
    cases hacc with
    | session h hb =>
      obtain ⟨hi, hh, hs, hl, hd⟩ := serve_error h hb hr
      exact ⟨hi, hh, hs, hl, records_error detected_failingDisk h hb hr, hd⟩
  · intro order tr e' d' hr
    cases hacc with
    | session h hb =>
      obtain ⟨l', h', hb', -, htable, hi⟩ := commit_ok h hb hr
      have hl := h'.live hb'
      refine ⟨_, hl.open_exec, h'.index.symm.trans hi, rfl, ?_⟩
      rw [hl.docState, docState_eq h.valid h.index hb.holds, htable]
  · intro order r e' d' hr hlen
    cases hacc with
    | session h hb => exact commit_exec_ok h hlen hr

/-- **A commit may fail in its last flush**, with its header written. -/
theorem commit_flush_fails [Bson] {F : Faults} (hF : F.sync) {e : StorageEngine} {l log : Log}
    {d : Disk} (order : IterOrder) (h : Handle e l log) (hd : e.dirty = true)
    (hlen : e.index.encodedLen ≤ maxRecordLen.toNat)
    (hfit : e.endOffset.toNat + (9 + e.index.encodedLen) ≤ maxFileLen) :
    ∃ tr d₁, Prepared e order d tr d₁ ∧
      Runs F ((Op.commit order).prog e) d
        (tr ++ [⟨64 * commitSlot e, (commitHeaderOf e order).encode, 64⟩])
        (.error (.io .fault), commitAppended e order)
        (d₁.write (64 * commitSlot e) (commitHeaderOf e order).encode) := by
  obtain ⟨tr, d₁, hprep, hsteps⟩ :=
    commit_written_steps (F := F) d order hd h.le_endOffset hlen hfit
  have hflush := hsteps.trans (Step.steps (.syncFails _ _ hF))
  rw [List.append_nil] at hflush
  exact ⟨tr, d₁, hprep, hflush⟩

/-- A commit of a small database fails in its last flush. Its header stands in its slot,
so reopening would show what it captured; the handle still shows it too, and when the
commit is tried again it goes through. -/
theorem failed_requests_atomic_retried :
    letI := emptyDocuments
    ∃ d d₁ d₂ tr cs e₁ e₂, Runs failingDisk ((Op.commit .listed).prog firstBuried) d tr
        (.error (.io .fault), e₁) d₁ ∧
      (e₁.index = firstBuried.index ∧ e₁.header = firstBuried.header ∧ e₁.dirty = true ∧
        (e₁.docState d₁.volatile).records = (firstBuried.docState d.volatile).records) ∧
      (∃ e, openFile.run.exec d₁ = some (.ok e, d₁) ∧ e.header.generation = 1 ∧
        Recovers d₁.volatile (e.docState d₁.volatile) (⟨firstBuried.docState d.volatile,
          64 * commitSlot firstBuried, (commitHeaderOf firstBuried .listed).encode, false⟩ :: cs)) ∧
      ((Op.commit .listed).prog e₁).exec d₁ = some ((.ok .done, e₂), d₂) ∧
      ∃ e, openFile.run.exec d₂ = some (.ok e, d₂) ∧ e.index = firstBuried.index ∧
        (e.docState d₂.volatile).records = (firstBuried.docState d.volatile).records := by
  let _ := emptyDocuments
  obtain ⟨d, cs, hsteps, hs, -⟩ := small_steps (R := failures) trivial
  have hw := (reachable_created failures).trans hsteps
  -- the commit, whose last flush fails
  obtain ⟨tr, d₀, hp, hfails⟩ := commit_flush_fails (F := failingDisk) (d := d) trivial .listed
    hs.handle rfl (by decide) (by decide)
  have hw₁ := hw.tail (.serve (show Op.Allowed _ (.commit .listed) from trivial) hfails)
  obtain ⟨hindex, hheader₁, -, -, hrecords, hdirty⟩ :=
    (failed_requests_atomic hw rfl).1 _ _ _ _ _ hfails
  obtain ⟨-, hpublished, -, e, hopen, hrec⟩ := failed_requests_atomic hw₁ rfl
  -- the header stands in its slot
  have hl := (hs.publish hp).live
  rw [Disk.volatile_sync] at hl
  have hgeneration : e.header.generation = 1 := by
    have hopen' := hl.open_exec
    rw [hopen] at hopen'
    cases hopen'
    rfl
  simp only [Except.isOk, Except.toBool] at hrec
  rw [issued_snoc hp.grows.1] at hrec
  -- the second attempt
  have hend : (commitAppended firstBuried .listed).endOffset.toNat = 238 :=
    smallCommitted_endOffset
  obtain ⟨d₂, hretry⟩ := commit_exec (e := commitAppended firstBuried .listed) (d := _) .listed rfl
    (by decide) (by rw [hend]; decide)
  obtain ⟨tr₂, hr₂⟩ := runs_of_exec hretry
  obtain ⟨e', hopen', hindex', -, hstate⟩ := hpublished _ _ _ _ hr₂.of_never
  exact ⟨d, _, d₂, _, cs, _, _, hfails, ⟨hindex, hheader₁, hdirty rfl, hrecords⟩,
    ⟨e, hopen, hgeneration, hrec⟩, hretry, e', hopen', hindex', by rw [hstate]; exact hrecords⟩

end ContextDb
