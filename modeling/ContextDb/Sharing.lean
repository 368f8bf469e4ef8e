import ContextDb.Files
import ContextDb.Lib.Beside

/-!
# One writer, many readers

The engine promises one writer at a time and any number of readers. This file is
the writer, cut into its requests to the file: it opens the file, serves
requests, and may be dropped or killed between any two requests, commits under
way included, and open the file again (`ContextDb.Writes`). A reader opens the
same file between any two of these steps and keeps its handle.

What a reader depends on is the log that was live when it opened, as the writer
left it at that moment – in the middle of a commit that may be the old log or
the new one. The invariant is `ContextDb.Writing`: which log is live *now*. One
step of the writer lets that log grow and nothing else
(`ContextDb.Writing.step`), so the log of a reader keeps standing where it
stands, and everything the reader asks for is answered as at the moment it opened
(`ContextDb.open_reader_is_stable`).
-/

namespace ContextDb

open ByteFile FileProg Prog StorageEngine

/-! ### The writer -/

/-- **What the writer is doing.** -/
inductive Writer where
  /-- It has no handle. -/
  | closed
  /-- It is opening the file. -/
  | opening (p : Prog (Except CndbError StorageEngine))
  /-- It holds a handle. -/
  | idle (e : StorageEngine)
  /-- It is serving a request. -/
  | busy (p : Prog (Except CndbError Reply × StorageEngine))

/-- **One step of the writer.** Nothing fails but a write that does not fit in a
file. -/
inductive Writes [Bson] : Writer × Disk → Writer × Disk → Prop
  /-- It begins to open the file. -/
  | opens (d : Disk) : Writes (.closed, d) (.opening openFile.run, d)
  /-- A request of opening. -/
  | openRequest {p q : Prog (Except CndbError StorageEngine)} {d d' : Disk} {tr : Trace}
      (h : Prog.Step fullDisk p d tr q d') : Writes (.opening p, d) (.opening q, d')
  /-- The file has been opened. -/
  | opened (e : StorageEngine) (d : Disk) : Writes (.opening (.ret (.ok e)), d) (.idle e, d)
  /-- The file could not be opened. -/
  | refused (err : CndbError) (d : Disk) : Writes (.opening (.ret (.error err)), d) (.closed, d)
  /-- It is asked for something. -/
  | asked (op : Op) (e : StorageEngine) (d : Disk) : Writes (.idle e, d) (.busy (op.prog e), d)
  /-- A request to the file. -/
  | request {p q : Prog (Except CndbError Reply × StorageEngine)} {d d' : Disk} {tr : Trace}
      (h : Prog.Step fullDisk p d tr q d') : Writes (.busy p, d) (.busy q, d')
  /-- It answers. -/
  | answers (r : Except CndbError Reply) (e : StorageEngine) (d : Disk) :
      Writes (.busy (.ret (r, e)), d) (.idle e, d)
  /-- It is dropped, or killed, whatever it is doing. -/
  | dropped (w : Writer) (d : Disk) : Writes (w, d) (.closed, d)

section Writes

variable [Bson] {e e' : StorageEngine} {d d' : Disk}

/-- The requests of the writer, one after the other. -/
theorem writes_of_steps {p q : Prog (Except CndbError Reply × StorageEngine)} {tr : Trace}
    (h : Steps fullDisk p d tr q d') :
    Relation.ReflTransGen Writes (.busy p, d) (.busy q, d') := by
  induction h with
  | refl => exact .refl
  | head hstep _ ih => exact .head (.request hstep) ih

/-- A request that meets no failure, as steps of the writer. -/
theorem writes_of_exec {op : Op} {r : Except CndbError Reply}
    (h : (op.prog e).exec d = some ((r, e'), d')) :
    Relation.ReflTransGen Writes (.idle e, d) (.idle e', d') := by
  obtain ⟨tr, hr⟩ := runs_of_exec (F := .never) h
  exact .head (.asked op e d) ((writes_of_steps hr.of_never).tail (.answers r e' d'))

/-- Opening a file at rest, as steps of the writer. -/
theorem writes_of_open (h : openFile.run.exec d = some (.ok e, d')) :
    Relation.ReflTransGen Writes (.closed, d) (.idle e, d') := by
  obtain ⟨tr, hr⟩ := runs_of_exec (F := .never) h
  have hsteps : ∀ {p q : Prog (Except CndbError StorageEngine)} {d d' : Disk} {tr : Trace},
      Steps fullDisk p d tr q d' →
        Relation.ReflTransGen Writes (.opening p, d) (.opening q, d') := by
    intro p q d d' tr h
    induction h with
    | refl => exact .refl
    | head hstep _ ih => exact .head (.openRequest hstep) ih
  exact .head (.opens d) ((hsteps hr.of_never).tail (.opened e d'))

/-- A run in which nothing fails, as steps of the writer. -/
theorem EngineRun.writes {x y : StorageEngine × Disk}
    {tr : List (Request × Except CndbError Reply)} (h : EngineRun x tr y) :
    Relation.ReflTransGen Writes (.idle x.1, x.2) (.idle y.1, y.2) := by
  induction h with
  | nil => exact .refl
  | cons hstep _ ih =>
    cases hstep with
    | op hx => exact (writes_of_exec hx).trans ih
    | reopen hx => exact .head (.dropped _ _) ((writes_of_open hx).trans ih)

end Writes

/-! ### Which log is live -/

/-- The log that is live during a request: one before its header is written, and
another one from then on. -/
def stage (tr : Trace) (base next : Log) : Log := if LogOnly tr then base else next

/-- Where a request stands: the log of its stage is live. -/
def StagePoint (base next : Log) (tr : Trace) (d : Disk) : Prop :=
  ∃ s h, Live d.volatile s h (stage tr base next)

/-- How a request ends: settled on the log of its stage. -/
def StageEnd (base next : Log) (tr : Trace) (x : Except CndbError Reply × StorageEngine)
    (d : Disk) : Prop :=
  ∃ log, Settled x.2 d.volatile (stage tr base next) log

/-- **The log `l` is live**, and the writer is in order. -/
inductive Writing : Writer × Disk → Log → Prop
  /-- There is no handle. -/
  | closed {d : Disk} {s : Slot} {h : Header} {l : Log} (hl : Live d.volatile s h l) :
      Writing (.closed, d) l
  /-- The file is being opened. -/
  | opening {p : Prog (Except CndbError StorageEngine)} {d : Disk} {s : Slot} {h : Header} {l : Log}
      (hl : Live d.volatile s h l)
      (hp : p.Returns (fun v => v = d.volatile) (.ok (opened (decodedSlots d.volatile) s h l))) :
      Writing (.opening p, d) l
  /-- The file is being created, and its header region is written. -/
  | creating {p : Prog (Except CndbError StorageEngine)} {d : Disk} {tr : Trace}
      (hp : p.Safe fullDisk (fun _ d' => d'.volatile = newRegion)
        (fun _ x _ => ∀ e, x = .ok e → e = created) tr d) : Writing (.opening p, d) []
  /-- A handle is open. -/
  | idle {e : StorageEngine} {d : Disk} {l log : Log} (hs : Settled e d.volatile l log) :
      Writing (.idle e, d) l
  /-- A request is being served. -/
  | busy {p : Prog (Except CndbError Reply × StorageEngine)} {d : Disk} {tr : Trace}
      {base next : Log} (hp : base <+: next)
      (h : p.Safe fullDisk (StagePoint base next) (StageEnd base next) tr d) :
      Writing (.busy p, d) (stage tr base next)

theorem stage_of_logOnly {tr : Trace} (h : LogOnly tr) (base next : Log) :
    stage tr base next = base := if_pos h

theorem stage_of_header {tr : Trace} (h : ¬LogOnly tr) (base next : Log) :
    stage tr base next = next := if_neg h

theorem stage_self (tr : Trace) (l : Log) : stage tr l l = l := ite_self l

/-- More writes take a request to a later stage only. -/
theorem stage_mono {base next : Log} (hp : base <+: next) (tr tr' : Trace) :
    stage tr base next <+: stage (tr ++ tr') base next := by
  by_cases h : LogOnly tr
  · rw [stage_of_logOnly h]
    by_cases h' : LogOnly (tr ++ tr')
    · rw [stage_of_logOnly h']
    · rw [stage_of_header h']
      exact hp
  · have h' : ¬LogOnly (tr ++ tr') := fun hall =>
      h fun ev hev => hall ev (List.mem_append_left _ hev)
    rw [stage_of_header h, stage_of_header h']

section Writing

variable {x y : Writer × Disk} {e : StorageEngine} {d : Disk} {l log : Log}

/-- The log is live. -/
theorem Writing.live (hw : Writing x l) : ∃ s h, Live x.2.volatile s h l := by
  cases hw with
  | closed hl | opening hl => exact ⟨_, _, hl⟩
  | creating hp => exact ⟨_, _, live_of_newRegion hp.inv⟩
  | idle hs => exact ⟨_, _, hs.live⟩
  | busy hp h => exact h.inv

/-- **Serving a request but a commit** goes through one stage. -/
theorem Settled.stage_serve [Bson] (hs : Settled e d.volatile l log) {op : Op}
    (hop : op.isCommit = false) :
    (op.prog e).Safe fullDisk (StagePoint l l) (StageEnd l l) [] d := by
  refine (serve_safe hs.handle hs.backed hop).mono (fun tr d' hg => ?_) ?_
  · rw [StagePoint, stage_self]
    exact ⟨_, _, (hs.grow hg.2).live⟩
  · rintro tr ⟨r, e'⟩ d' hg ⟨log', hsv, hb⟩
    obtain ⟨hhdr, -, hlive⟩ := hsv.header_eq
    have hold := (hs.grow hg.2).older
    simp only at hhdr hlive hsv
    rw [← hhdr, ← hlive] at hb hold
    rw [StageEnd, stage_self]
    exact ⟨log', hsv.handle hs.handle, hb, hold⟩

/-- Nothing but what does not fit fails, so a header is written whole. -/
theorem cut_eq_of_fullDisk {v : Bytes} {t : Slot} {hdr : Header} {n : ℕ}
    (hcut : n = 64 ∨ fullDisk.write v (64 * (t : ℕ)) hdr.encode n ∨
      fullDisk.cut v (64 * (t : ℕ)) hdr.encode n) : n = 64 := by
  rcases hcut with hn | ⟨hfit, -⟩ | hcut
  · exact hn
  · exact absurd (fits_slot (Header.length_encode hdr) (slot_le t)) hfit
  · exact hcut.elim

/-- **A commit** goes through two stages. -/
theorem Settled.stage_commit [Bson] (hs : Settled e d.volatile l log) (order : IterOrder) :
    ((Op.commit order).prog e).Safe fullDisk (StagePoint l (commitLog e order log))
      (StageEnd l (commitLog e order log)) [] d := by
  refine (commit_serve_safe hs.handle order).mono (fun tr d' hp => ?_) ?_
  · cases hp with
    | logging hg =>
      rw [hs.handle.endOffset] at hg
      rw [StagePoint, stage_of_logOnly hg.1]
      exact ⟨_, _, (hs.grow hg.2).live⟩
    | writing hp _ hcut =>
      obtain rfl := cut_eq_of_fullDisk hcut
      rw [StagePoint, stage_of_header not_logOnly_header, take_encode]
      exact ⟨_, _, (hs.publish hp).live⟩
    | synced hp =>
      rw [StagePoint, stage_of_header not_logOnly_header]
      exact ⟨_, _, (hs.publish hp).live⟩
  · rintro tr ⟨r, e'⟩ d' - ⟨y, hc, -⟩
    rw [StageEnd]
    cases hc with
    | clean => exact ⟨log, hs⟩
    | refused _ hg | early _ hg =>
      rw [hs.handle.endOffset] at hg
      rw [stage_of_logOnly hg.1]
      exact ⟨log, hs.grow hg.2⟩
    | orphaned _ _ hsync => exact hsync.elim
    | torn _ _ _ hcut =>
      rcases hcut with ⟨-, hsync⟩ | hw
      · exact hsync.elim
      · exact (steady_fullDisk.2 _ _ _ _ (Header.length_encode _) (slot_le _) hw).elim
    | done _ hp =>
      rw [stage_of_header not_logOnly_header]
      exact ⟨_, hs.publish hp⟩

/-- **One step of the writer** lets the live log grow, and nothing else happens
to it. -/
theorem Writing.step [Bson] (hw : Writing x l) (h : Writes x y) :
    ∃ l', l <+: l' ∧ Writing y l' := by
  cases h with
  | opens d =>
    cases hw with
    | closed hl => exact ⟨l, List.prefix_refl l, .opening hl (openFile_returns hl)⟩
  | openRequest hreq =>
    cases hw with
    | opening hl hp =>
      obtain ⟨hq, -, rfl⟩ := hp.step rfl hreq
      exact ⟨l, List.prefix_refl l, .opening hl hq⟩
    | creating hp => exact ⟨[], List.prefix_refl _, .creating (hp.step hreq)⟩
  | opened e d =>
    cases hw with
    | opening hl hp =>
      obtain rfl := Except.ok.inj hp
      exact ⟨l, List.prefix_refl l, .idle (Settled.of_live hl)⟩
    | creating hp =>
      obtain rfl := hp.2 e rfl
      have hs : Settled created d.volatile [] [] := by
        rw [hp.inv, created_eq]
        exact Settled.of_live live_newRegion
      exact ⟨[], List.prefix_refl _, .idle hs⟩
  | refused err d =>
    cases hw with
    | opening hl hp => cases hp
    | creating hp => exact ⟨[], List.prefix_refl _, .closed (live_of_newRegion hp.inv)⟩
  | asked op e d =>
    cases hw with
    | @idle _ _ _ log hs =>
      cases hop : op.isCommit with
      | false =>
        refine ⟨l, List.prefix_refl l, ?_⟩
        have hbusy := Writing.busy (List.prefix_refl l) (hs.stage_serve hop)
        rwa [stage_self] at hbusy
      | true =>
        obtain ⟨order, rfl⟩ := Op.eq_commit hop
        refine ⟨l, List.prefix_refl l, ?_⟩
        have hp : l <+: commitLog e order log :=
          hs.handle.committed.trans (prefix_commitLog e order log)
        have hbusy := Writing.busy hp (hs.stage_commit order)
        rwa [stage_of_logOnly logOnly_nil] at hbusy
  | @request _ _ _ _ tr' hreq =>
    cases hw with
    -- the header is the only write that lets the live log grow
    | @busy _ _ tr base next hp hsafe =>
      exact ⟨_, stage_mono hp tr tr', .busy hp (hsafe.step hreq)⟩
  | answers r e d =>
    cases hw with
    | busy hp hsafe =>
      obtain ⟨log, hs⟩ := hsafe.2
      exact ⟨_, List.prefix_refl _, .idle hs⟩
  | dropped w d =>
    -- whatever it was about, what it leaves is live
    obtain ⟨s, h, hl⟩ := hw.live
    exact ⟨l, List.prefix_refl l, .closed hl⟩

/-- **Any number of steps** let the live log grow. -/
theorem Writing.steps [Bson] (hw : Writing x l) (h : Relation.ReflTransGen Writes x y) :
    ∃ l', l <+: l' ∧ Writing y l' := by
  induction h with
  | refl => exact ⟨l, List.prefix_refl l, hw⟩
  | tail _ hstep ih =>
    obtain ⟨l', hp, hw'⟩ := ih
    obtain ⟨l'', hp', hw''⟩ := hw'.step hstep
    exact ⟨l'', hp.trans hp', hw''⟩

/-- **What a reader relies on**: its log is a part of the one that is live. -/
def Relies (l : Log) (x : Writer × Disk) : Prop := ∃ l', l <+: l' ∧ Writing x l'

/-- The writer keeps what a reader relies on. -/
theorem Relies.step [Bson] (hx : Relies l x) (h : Writes x y) : Relies l y := by
  obtain ⟨l', hp, hw⟩ := hx
  obtain ⟨l'', hp', hw'⟩ := hw.step h
  exact ⟨l'', hp.trans hp', hw'⟩

/-- The log of a reader stands in the file. -/
theorem Relies.holds (hx : Relies l x) : Holds x.2.volatile 128 (logBytes l) := by
  obtain ⟨l', hp, hw⟩ := hx
  obtain ⟨s, h, hl⟩ := hw.live
  exact holds_logBytes_of_isPrefix hl.holds hp

/-- **A writer before a file it cannot open** does nothing. -/
inductive Locked : Writer × Disk → Prop
  /-- There is no handle. -/
  | closed {d : Disk} (hu : Unreadable d.volatile) (hne : d.volatile ≠ []) : Locked (.closed, d)
  /-- The file is being opened. -/
  | opening {p : Prog (Except CndbError StorageEngine)} {d : Disk} {err : CndbError}
      (hu : Unreadable d.volatile) (hne : d.volatile ≠ [])
      (hp : p.Returns (fun v => v = d.volatile) (.error err)) : Locked (.opening p, d)

theorem Locked.unreadable (hx : Locked x) : Unreadable x.2.volatile ∧ x.2.volatile ≠ [] := by
  cases hx with
  | closed hu hne | opening hu hne => exact ⟨hu, hne⟩

/-- It stays so. -/
theorem Locked.step [Bson] (hx : Locked x) (h : Writes x y) : Locked y := by
  obtain ⟨hu, hne⟩ := hx.unreadable
  cases h with
  | opens d =>
    obtain ⟨err, hp⟩ := hu.returns hne
    exact .opening hu hne hp
  | openRequest hreq =>
    cases hx with
    | opening hu hne hp =>
      obtain ⟨hq, -, rfl⟩ := hp.step rfl hreq
      exact .opening hu hne hq
  | opened e d =>
    cases hx with
    | opening _ _ hp => cases hp
  | refused | dropped => exact .closed hu hne
  | asked | request | answers => cases hx

/-- **A writer before an empty file** that it has not written to. -/
inductive Fresh : Writer × Disk → Prop
  /-- There is no handle. -/
  | closed {d : Disk} (hd : d.volatile = []) : Fresh (.closed, d)
  /-- The file is about to be opened. -/
  | opening {d : Disk} (hd : d.volatile = []) : Fresh (.opening openFile.run, d)
  /-- The header region is about to be written. -/
  | region {d : Disk} (hd : d.volatile = []) : Fresh (.opening (initializeRegion blank).run, d)

theorem Fresh.empty (hx : Fresh x) : x.2.volatile = [] := by
  cases hx with
  | closed hd | opening hd | region hd => exact hd

/-- It stays so until it creates the database. -/
theorem Fresh.step [Bson] (hx : Fresh x) (h : Writes x y) : Fresh y ∨ Writing y [] := by
  cases hx with
  | closed hd =>
    cases h with
    | opens d => exact Or.inl (.opening hd)
    | dropped w d => exact Or.inl (.closed hd)
  | @opening d hd =>
    rw [openFile_run] at h
    cases h with
    | openRequest hreq =>
      cases hreq with
      | len =>
        have hlen : ¬d.volatile.length > 0 := by
          rw [hd]
          exact Nat.lt_irrefl 0
        simp only
        rw [if_neg hlen]
        exact Or.inl (.region hd)
    | dropped w d => exact Or.inl (.closed hd)
  | @region d hd =>
    rw [initializeRegion_run] at h
    cases h with
    | openRequest hreq =>
      cases hreq with
      | write _ _ hfit =>
        have hnew : (d.write 0 newRegion).volatile = newRegion := volatile_create hd _
        refine Or.inr (@Writing.creating _ _ [] ⟨hnew, ⟨hnew, fun e he => ?_⟩, fun hf => hf.elim⟩)
        cases he
        rfl
      | writeFails _ _ hn hf =>
        refine absurd (Or.inr ?_) hf.1
        rw [length_newRegion]
        decide
    | dropped w d => exact Or.inl (.closed hd)

/-- **Next to any reachable file**, the writer is in order, or there is no
database for it to work on. -/
theorem writing_or_idle [Bson] {R : Regime} (hR : R.Covered) {w : World} (hw : Reachable R w)
    (hx : Relation.ReflTransGen Writes (.closed, w.disk) x) :
    (∃ l, Writing x l) ∨ Locked x ∨ Fresh x := by
  have hstart : (∃ l, Writing (.closed, w.disk) l) ∨ Locked (.closed, w.disk) ∨
      Fresh (.closed, w.disk) := by
    rcases hw.live_or_unreadable hR with ⟨s, h, l, hl⟩ | hu
    · exact Or.inl ⟨l, .closed hl⟩
    · rcases eq_or_ne w.disk.volatile [] with hd | hne
      · exact Or.inr (Or.inr (.closed hd))
      · exact Or.inr (Or.inl (.closed hu hne))
  clear hw
  induction hx with
  | refl => exact hstart
  | tail _ hstep ih =>
    rcases ih with ⟨l, hwr⟩ | hlocked | hfresh
    · obtain ⟨l', -, hwr'⟩ := hwr.step hstep
      exact Or.inl ⟨l', hwr'⟩
    · exact Or.inr (Or.inl (hlocked.step hstep))
    · rcases hfresh.step hstep with hfresh' | hwr
      · exact Or.inr (Or.inr hfresh')
      · exact Or.inl ⟨[], hwr⟩

/-- **Wherever a file that is not empty opens**, the writer next to it is in
order. -/
theorem writing_of_open [Bson] {R : Regime} (hR : R.Covered) {w : World} (hw : Reachable R w)
    (hx : Relation.ReflTransGen Writes (.closed, w.disk) x) (hne : x.2.volatile ≠ []) {d : Disk}
    (hopen : openFile.run.exec x.2 = some (.ok e, d)) :
    ∃ s h l, Live x.2.volatile s h l ∧ Writing x l ∧
      e = opened (decodedSlots x.2.volatile) s h l := by
  rcases writing_or_idle hR hw hx with ⟨l, hwr⟩ | hlocked | hfresh
  · obtain ⟨s, h, hl⟩ := hwr.live
    rw [hl.open_exec] at hopen
    cases hopen
    exact ⟨s, h, l, hl, hwr, rfl⟩
  · obtain ⟨hu, -⟩ := hlocked.unreadable
    obtain ⟨err, hret⟩ := hu.returns hne
    rw [hret.exec_eq rfl] at hopen
    cases hopen
  · exact absurd hfresh.empty hne

end Writing

/-! ### The reader -/

/-- What a reader may ask of its handle. -/
inductive Call where
  /-- The payload of a document. -/
  | read (id : DocId)
  /-- A document with its kind. -/
  | readRecord (id : DocId)
  /-- The number of live documents. -/
  | len
  /-- The live ids. -/
  | liveIds
  /-- A check of the whole log. -/
  | verify

/-- What it is answered. -/
inductive Answer where
  | payload (r : Except CndbError Bytes)
  | record (r : Except CndbError Record)
  | count (n : UInt64)
  | ids (ids : Finset DocId)
  | verified (r : Except CndbError ℕ)

/-- The program of a call. -/
def Call.prog (e : StorageEngine) : Call → Prog Answer
  | .read id => (e.read id).run.bind fun r => .ret (.payload r)
  | .readRecord id => (e.readRecord id).run.bind fun r => .ret (.record r)
  | .len => .ret (.count e.len)
  | .liveIds => .ret (.ids e.liveIds)
  | .verify => e.verify.run.bind fun r => .ret (.verified r)

section Reader

variable {e : StorageEngine} {l : Log}

/-- **What a reader is answered**, as its log says. -/
def Log.answer (l : Log) (e : StorageEngine) : Call → Answer
  | .read id => .payload (((tableOf l).find id).map Record.payload)
  | .readRecord id => .record ((tableOf l).find id)
  | .len => .count e.len
  | .liveIds => .ids e.liveIds
  | .verify => .verified (.ok l.length)

/-- **Every call of a reader** is answered from its log alone. -/
theorem Call.returns (hv : ValidLog l) (hi : e.index = indexOf l)
    (hend : e.header.logEnd.toNat = tail l) (c : Call) :
    (c.prog e).Returns (fun v => Holds v 128 (logBytes l)) (Log.answer l e c) := by
  cases c with
  | read id => exact (read_returns hv hi id).bind rfl
  | readRecord id => exact (readRecord_returns hv hi id).bind rfl
  | len | liveIds => exact rfl
  | verify => exact (verify_returns hv hend).bind rfl

end Reader

/-- **An open reader is stable.** A reader opens a file that is not empty, at any
instant of the work of a writer. Whatever steps of the writer come between its
requests from then on, every call is answered as it would have been at the moment
of opening. In particular a document is never answered with a damaged record. -/
theorem open_reader_is_stable [Bson] {R : Regime} (hR : R.Covered) {w : World}
    (hw : Reachable R w) {x y : Writer × Disk}
    (hx : Relation.ReflTransGen Writes (.closed, w.disk) x) (hne : x.2.volatile ≠ [])
    {e : StorageEngine} {d : Disk} (hopen : openFile.run.exec x.2 = some (.ok e, d))
    {tr : List (Call × Answer)} (hcalls : Machine.Run (CallBeside Writes (Call.prog e)) x tr y) :
    (∀ q ∈ tr, (q.1.prog e).exec x.2 = some (q.2, x.2)) ∧
      ∀ id err, (.readRecord id, .record (.error err)) ∈ tr →
        err = .notFound id ∨ err = .deleted id := by
  obtain ⟨s, h, l, hl, hwr, rfl⟩ := writing_of_open hR hw hx hne hopen
  have hret := Call.returns (e := opened (decodedSlots x.2.volatile) s h l) hl.valid rfl
    hl.describes.logEnd_toNat
  have hall := calls_answered (I := Relies l) (fun _ _ hx h => hx.step h) (fun _ hx => hx.holds)
    hret hcalls ⟨l, List.prefix_refl l, hwr⟩
  refine ⟨fun q hq => ?_, fun id err hq => ?_⟩
  · rw [hall q hq]
    exact (hret q.1).exec_eq hl.holds
  · have hans : Answer.record (.error err) = .record ((tableOf l).find id) := hall _ hq
    injection hans with hans
    exact DocTable.find_error hans.symm

/-- The writer of a small database: it has committed it, and it stores another document
and commits again. -/
theorem small_writes [Bson] : ∃ d d',
    Relation.ReflTransGen Writes (.closed, .ofImage newRegion) (.idle smallCommitted, d) ∧
    Relation.ReflTransGen Writes (.idle smallCommitted, d) (.idle thirdCommitted, d') ∧
    Settled smallCommitted d.volatile smallCommittedLog smallCommittedLog ∧
    Settled thirdCommitted d'.volatile thirdLog thirdLog := by
  obtain ⟨d₁, hrun, hs, hlen⟩ := small_run
  obtain ⟨d, hcommit, hs₁, -⟩ := small_commit hs hlen
  obtain ⟨d₂, happend, hs₂⟩ := third_append hs₁
  obtain ⟨d', hcommit', hs'⟩ := third_commit hs₂
  refine ⟨d, d', ?_, (writes_of_exec happend).trans (writes_of_exec hcommit'), hs₁, hs'⟩
  exact (writes_of_open open_newRegion).trans (hrun.writes.trans (writes_of_exec hcommit))

/-- A reader of a small database. Between the two reads of its first request the writer
stores another document and commits; then it checks the log. -/
theorem open_reader_is_stable_committed :
    letI := emptyDocuments
    ∃ d d' e, openFile.run.exec d = some (.ok e, d) ∧
      Machine.Run (CallBeside Writes (Call.prog e)) (.idle smallCommitted, d)
        [(.readRecord ⟨2⟩, .record (.ok ⟨.blob, [8]⟩)), (.verify, .verified (.ok 4))]
        (.idle thirdCommitted, d') ∧
      ((Call.readRecord ⟨2⟩).prog e).exec d = some (.record (.ok ⟨.blob, [8]⟩), d) ∧
      (Call.verify.prog e).exec d = some (.verified (.ok 4), d) := by
  let _ := emptyDocuments
  obtain ⟨d, d', hx, hwriter, hs, hs'⟩ := small_writes
  have hl := hs.live
  have hholds := holds_logBytes_of_isPrefix hs'.backed.holds smallCommittedLog_prefix
  have hret := Call.returns (e := opened (decodedSlots d.volatile) smallCommitted.liveSlot
    smallCommitted.header smallCommittedLog) hl.valid rfl hl.describes.logEnd_toNat
  have hread := hret (.readRecord ⟨2⟩)
  rw [Log.answer, tableOf_smallCommittedLog, find_small.2.1] at hread
  have hfirst : CallBeside Writes (Call.prog _) _ (.readRecord ⟨2⟩) _ _ :=
    hread.overtaken hl.holds hholds hwriter
  have hsecond : CallBeside Writes (Call.prog _) (.idle thirdCommitted, d') .verify
      (.verified (.ok 4)) (.idle thirdCommitted, d') := (hret .verify).overtaken hholds hholds .refl
  have hrun := Machine.Run.cons hfirst (.cons hsecond (.nil _))
  obtain ⟨hstable, -⟩ := open_reader_is_stable (R := crashes) (Or.inr rfl)
    (reachable_created crashes) hx hl.ne_nil hl.open_exec hrun
  exact ⟨d, d', _, hl.open_exec, hrun, hstable _ List.mem_cons_self,
    hstable _ (List.mem_cons_of_mem _ List.mem_cons_self)⟩

end ContextDb
