import ContextDb.Executing

/-!
# Abandoned sessions

A session that is dropped without a commit leaves bytes behind the log and
nothing else. Its bytes lie under and after what later sessions write, and no
reply depends on them: a history and the same history with abandoned sessions
inserted between its own are answered alike, and end with the same handle, the
same header slots and the same log (`ContextDb.abandoned_sessions_leave_no_trace`).

The file gets no longer than the logs of its sessions. The end of the log counts
here as the handle knows it – except where a commit was interrupted. Its master
record may stand, in part or in full, behind an end that has not been moved.
-/

namespace ContextDb

open ByteFile FileProg Prog StorageEngine

/-! ### Visits -/

/-- **A visit to the file**: a session, or one that is abandoned – it may do
anything but commit, and may end in a commit that is interrupted before it has
written its header. -/
inductive Visit where
  /-- A session. -/
  | session (tasks : List Task)
  /-- A session that is abandoned. -/
  | abandoned (tasks : List Task) (interrupted : Option IterOrder)

/-- A visit that is a session. -/
def Visit.isSession : Visit → Bool
  | .session _ => true
  | .abandoned _ _ => false

/-- **What a visit shows**: the replies, the values `end` took in memory, and the
value an interrupted commit would have moved it to. -/
structure Outcome where
  /-- The replies. -/
  replies : List (Except CndbError TaskReply)
  /-- The end of the log, on opening and after each task. -/
  ends : List UInt64
  /-- Where an interrupted commit would have ended the log. -/
  aimed : Option ℕ

/-- What a visit shows, from the handle it opened and the answers to its
tasks. -/
def Outcome.of (e : StorageEngine) (answers : List (Except CndbError TaskReply × UInt64))
    (aimed : Option ℕ) : Outcome :=
  ⟨answers.map Prod.fst, e.endOffset :: answers.map Prod.snd, aimed⟩

/-- A program that may be stopped anywhere, and in the middle of any write. -/
def stoppedAnywhere : Faults := { Faults.never with cut := fun _ _ _ _ => True }

section Visits

variable [Bson]

/-- **One task**, with its reply and the end of the log it leaves. -/
def Serving (x : StorageEngine × Disk) (q : Task) (p : Except CndbError TaskReply × UInt64)
    (x' : StorageEngine × Disk) : Prop :=
  Performing x q p.1 x' ∧ p.2 = x'.1.endOffset

/-- The same, for a task that is not a commit. -/
def Staging (x : StorageEngine × Disk) (q : Task) (p : Except CndbError TaskReply × UInt64)
    (x' : StorageEngine × Disk) : Prop :=
  q.commits = false ∧ Serving x q p x'

/-- A request that is made as a task, with the end of the log it leaves. -/
theorem serving_op {e e' : StorageEngine} {d d' : Disk} {op : Op} {y : Except CndbError Reply}
    (h : (op.prog e).exec d = some ((y, e'), d')) :
    Serving (e, d) (.op op) (y.map .reply, e'.endOffset) (e', d') :=
  ⟨performing_op h, rfl⟩

/-- A task that leaves everything as it was. -/
theorem serving_look {x : StorageEngine × Disk} {q : Task} {r : Except CndbError TaskReply}
    (h : Performing x q r x) : Serving x q (r, x.1.endOffset) x := ⟨h, rfl⟩

/-- A request that is staged. -/
theorem staging_op {e e' : StorageEngine} {d d' : Disk} {op : Op} {y : Except CndbError Reply}
    (hop : op.isCommit = false) (h : (op.prog e).exec d = some ((y, e'), d')) :
    Staging (e, d) (.op op) (y.map .reply, e'.endOffset) (e', d') :=
  ⟨(Task.commits_op op).trans hop, serving_op h⟩

/-- **One visit**, in which nothing fails. -/
inductive Visits : Disk → Visit → Outcome → Disk → Prop
  /-- A session. -/
  | session {d d₁ d' : Disk} {e e' : StorageEngine}
      {tr : List (Task × Except CndbError TaskReply × UInt64)}
      (hopen : openFile.run.exec d = some (.ok e, d₁))
      (hrun : Machine.Run Serving (e, d₁) tr (e', d')) :
      Visits d (.session (tr.map Prod.fst)) (.of e (tr.map Prod.snd) none) d'
  /-- A session that is dropped without a commit. -/
  | dropped {d d₁ d' : Disk} {e e' : StorageEngine}
      {tr : List (Task × Except CndbError TaskReply × UInt64)}
      (hopen : openFile.run.exec d = some (.ok e, d₁))
      (hrun : Machine.Run Staging (e, d₁) tr (e', d')) :
      Visits d (.abandoned (tr.map Prod.fst) none) (.of e (tr.map Prod.snd) none) d'
  /-- A session whose commit is interrupted before it has written its header. -/
  | interrupted {d d₁ d₂ d' : Disk} {e e' : StorageEngine} {order : IterOrder} {wr : Trace}
      {tr : List (Task × Except CndbError TaskReply × UInt64)}
      (hopen : openFile.run.exec d = some (.ok e, d₁))
      (hrun : Machine.Run Staging (e, d₁) tr (e', d₂))
      (hstop : Stops stoppedAnywhere ((Op.commit order).prog e') d₂ wr d') (hlog : LogOnly wr) :
      Visits d (.abandoned (tr.map Prod.fst) (some order))
        (.of e (tr.map Prod.snd) (some (e'.endOffset.toNat + (9 + e'.index.encodedLen)))) d'

end Visits

/-! ### Twins -/

/-- **Two files of one database**: the same log is live in both, and their header
slots are equal. -/
def SameDatabase (d₁ d₂ : Disk) : Prop :=
  ∃ s h l, Live d₁.volatile s h l ∧ Live d₂.volatile s h l ∧
    ∀ t, slotBytes d₁.volatile t = slotBytes d₂.volatile t

/-- **Twins**: two sessions with one handle, over two files of which both are
settled on it. -/
def Twins (x y : StorageEngine × Disk) : Prop :=
  x.1 = y.1 ∧ ∃ l log, Settled x.1 x.2.volatile l log ∧ Settled x.1 y.2.volatile l log ∧
    ∀ t, slotBytes x.2.volatile t = slotBytes y.2.volatile t

/-- What twins leave behind is one database. -/
theorem Twins.same {x y : StorageEngine × Disk} (h : Twins x y) : SameDatabase x.2 y.2 := by
  obtain ⟨-, l, log, h₁, h₂, hslots⟩ := h
  exact ⟨_, _, l, h₁.live, h₂.live, hslots⟩

/-- Opening two files of one database gives twins. -/
theorem SameDatabase.opens {d₁ d₂ : Disk} (h : SameDatabase d₁ d₂) :
    ∃ e, openFile.run.exec d₁ = some (.ok e, d₁) ∧ openFile.run.exec d₂ = some (.ok e, d₂) ∧
      Twins (e, d₁) (e, d₂) := by
  obtain ⟨s, hdr, l, h₁, h₂, hslots⟩ := h
  have hdec : decodedSlots d₂.volatile = decodedSlots d₁.volatile :=
    funext fun t => decodedSlots_congr (hslots t).symm
  have hopen₂ := h₂.open_exec
  have hs₂ := Settled.of_live h₂
  rw [hdec] at hopen₂ hs₂
  exact ⟨_, h₁.open_exec, hopen₂, rfl, l, l, Settled.of_live h₁, hs₂, hslots⟩

section Twins

variable [Bson] {e e₁ e₂ : StorageEngine} {log log₁ log₂ : Log} {d d₁ d₂ : Disk}

/-- **A handle is served in one way** when nothing fails. -/
theorem Serves.unique {op : Op} {r₁ r₂ : Except CndbError Reply}
    (h₁ : Serves .never e log op r₁ e₁ log₁) (h₂ : Serves .never e log op r₂ e₂ log₂) :
    r₁ = r₂ ∧ e₁ = e₂ ∧ log₁ = log₂ := by
  induction h₁ with
  | appended hlen hfit =>
    cases h₂ with
    | appended => exact ⟨rfl, rfl, rfl⟩
    | tooLarge hlen' => exact absurd hlen (Nat.not_le_of_lt hlen')
    | appendFailed hf => exact (Faults.not_canFail_never hf).elim
  | tooLarge hlen =>
    cases h₂ with
    | appended hlen' => exact absurd hlen' (Nat.not_le_of_lt hlen)
    | tooLarge => exact ⟨rfl, rfl, rfl⟩
    | appendFailed hf => exact (Faults.not_canFail_never hf).elim
  | appendFailed hf | buryFailed hf => exact (Faults.not_canFail_never hf).elim
  | inserted hb _ ih =>
    cases h₂ with
    | inserted hb' h₂ =>
      obtain rfl := Except.ok.inj (hb.symm.trans hb')
      exact ih h₂
    | notInserted hb' =>
      rw [hb] at hb'
      cases hb'
  | notInserted hb =>
    cases h₂ with
    | inserted hb' =>
      rw [hb] at hb'
      cases hb'
    | notInserted hb' =>
      obtain rfl := Except.error.inj (hb.symm.trans hb')
      exact ⟨rfl, rfl, rfl⟩
  | buried hid hd =>
    cases h₂ with
    | buried => exact ⟨rfl, rfl, rfl⟩
    | deleted hd' => exact absurd hd' hd
    | notFound _ hid' => exact absurd hid hid'
    | buryFailed hf => exact (Faults.not_canFail_never hf).elim
  | deleted hd =>
    cases h₂ with
    | deleted => exact ⟨rfl, rfl, rfl⟩
    | buried _ hd' | notFound hd' _ => exact absurd hd hd'
    | buryFailed hf => exact (Faults.not_canFail_never hf).elim
  | notFound hd hid =>
    cases h₂ with
    | notFound => exact ⟨rfl, rfl, rfl⟩
    | buried hid' => exact absurd hid' hid
    | deleted hd' => exact absurd hd' hd
    | buryFailed hf => exact (Faults.not_canFail_never hf).elim
  | read | len | liveIds =>
    cases h₂
    exact ⟨rfl, rfl, rfl⟩

/-- **A request but a commit** is answered alike by twins, and keeps the header
slots and the committed log of either. -/
theorem Settled.stage {l : Log} (hs : Settled e d.volatile l log) {op : Op}
    (hop : op.isCommit = false) {r : Except CndbError Reply} {e' : StorageEngine} {d' : Disk}
    (hr : (op.prog e).exec d = some ((r, e'), d')) :
    ∃ log', Serves .never e log op r e' log' ∧ Settled e' d'.volatile l log' ∧
      e'.header = e.header ∧ e'.liveSlot = e.liveSlot ∧
      ∀ t, slotBytes d'.volatile t = slotBytes d.volatile t := by
  obtain ⟨tr, hruns⟩ := runs_of_exec (F := .never) hr
  obtain ⟨hg, log', hsv, hs'⟩ := hs.serve hop hruns
  obtain ⟨hhdr, -, hlive⟩ := hsv.header_eq
  exact ⟨log', hsv, hs', hhdr, hlive,
    slotBytes_grows (le_tail log) hs.backed.length_le hg.2⟩

/-- **Requests of twins** are answered alike, and leave twins. -/
theorem Twins.executes {x y x' y' : StorageEngine × Disk} (h : Twins x y) {op : Op}
    {r r' : Except CndbError Reply} (hx : (op.prog x.1).exec x.2 = some ((r, x'.1), x'.2))
    (hy : (op.prog y.1).exec y.2 = some ((r', y'.1), y'.2)) : r = r' ∧ Twins x' y' := by
  obtain ⟨e, d₁⟩ := x
  obtain ⟨e₂, d₂⟩ := y
  obtain ⟨e₁', d₁'⟩ := x'
  obtain ⟨e₂', d₂'⟩ := y'
  obtain ⟨rfl, l, log, h₁, h₂, hslots⟩ := h
  simp only at hx hy h₁ h₂ hslots ⊢
  cases hop : op.isCommit with
  | false =>
    obtain ⟨log₁, hsv₁, hs₁, -, -, hk₁⟩ := h₁.stage hop hx
    obtain ⟨log₂, hsv₂, hs₂, -, -, hk₂⟩ := h₂.stage hop hy
    obtain ⟨rfl, rfl, rfl⟩ := hsv₁.unique hsv₂
    refine ⟨rfl, rfl, l, log₁, hs₁, hs₂, fun t => ?_⟩
    rw [hk₁, hk₂]
    exact hslots t
  | true =>
    obtain ⟨order, rfl⟩ := Op.eq_commit hop
    rcases h₁.commit_exec_cases hx with ⟨hd, rfl, rfl, rfl⟩ | ⟨hd, hmax, rfl, rfl, hg₁⟩ |
      ⟨hd, hle, rfl, rfl, tr₁, c₁, hp₁, rfl⟩
    · rcases h₂.commit_exec_cases hy with ⟨-, rfl, rfl, rfl⟩ | ⟨hd', -⟩ | ⟨hd', -⟩
      · exact ⟨rfl, rfl, l, log, h₁, h₂, hslots⟩
      · rw [hd] at hd'
        cases hd'
      · rw [hd] at hd'
        cases hd'
    · -- both indexes are the same, so both are too large or neither is
      rcases h₂.commit_exec_cases hy with ⟨hd', -⟩ | ⟨-, -, rfl, rfl, hg₂⟩ | ⟨-, hle', -⟩
      · rw [hd] at hd'
        cases hd'
      · refine ⟨rfl, rfl, l, log, h₁.grow hg₁, h₂.grow hg₂, fun t => ?_⟩
        rw [slotBytes_grows (le_tail log) h₁.backed.length_le hg₁,
          slotBytes_grows (le_tail log) h₂.backed.length_le hg₂]
        exact hslots t
      · exact absurd hle' (Nat.not_le_of_lt hmax)
    · rcases h₂.commit_exec_cases hy with ⟨hd', -⟩ | ⟨-, hmax', -⟩ |
        ⟨-, -, rfl, rfl, tr₂, c₂, hp₂, rfl⟩
      · rw [hd] at hd'
        cases hd'
      · exact absurd hle (Nat.not_le_of_lt hmax')
      · refine ⟨rfl, rfl, _, _, h₁.publish hp₁, h₂.publish hp₂, fun t => ?_⟩
        rw [slotBytes_published h₁.handle h₁.backed hp₁,
          slotBytes_published h₂.handle h₂.backed hp₂, hslots]

/-- **A task that only looks** is answered from the log. -/
theorem Handle.looks {l : Log} (h : Handle e l log) {q : Task} (hq : ∀ op, q ≠ .op op) :
    ∃ r, (q.prog e).Returns (fun v => Holds v 128 (logBytes log)) (r, e) := by
  cases q with
  | op op => exact absurd rfl (hq op)
  | read id => exact ⟨_, (read_returns h.valid h.index id).bind rfl⟩
  | isEmpty | stats => exact ⟨_, rfl⟩
  | verify =>
    -- the committed log is where the current one begins
    have hret := (verify_returns h.committed_valid h.describes.logEnd_toNat).mono
      fun v hv => holds_logBytes_of_isPrefix hv h.committed
    exact ⟨_, hret.bind rfl⟩

/-- **Twins are served alike** and stay twins. -/
theorem Twins.serving {x y x' y' : StorageEngine × Disk} (h : Twins x y) {q : Task}
    {p p' : Except CndbError TaskReply × UInt64} (hx : Serving x q p x') (hy : Serving y q p' y') :
    p = p' ∧ Twins x' y' := by
  obtain ⟨r, end₁⟩ := p
  obtain ⟨r', end₂⟩ := p'
  obtain ⟨hx, rfl⟩ := hx
  obtain ⟨hy, rfl⟩ := hy
  simp only at hx hy ⊢
  rcases performing_cases hx with ⟨op, z, rfl, rfl, hop⟩ | ⟨hlook, rfl⟩
  · rcases performing_cases hy with ⟨op', z', heq, rfl, hop'⟩ | ⟨hlook, -⟩
    · cases heq
      obtain ⟨rfl, htwins⟩ := h.executes hop hop'
      exact ⟨by rw [htwins.1], htwins⟩
    · exact absurd rfl (hlook op)
  · rcases performing_cases hy with ⟨op', -, rfl, -⟩ | ⟨-, rfl⟩
    · exact absurd rfl (hlook op')
    · obtain ⟨hhandle, l, log, h₁, h₂, -⟩ := id h
      obtain ⟨z, hret⟩ := h₁.handle.looks hlook
      rw [Performing, hret.exec_eq h₁.backed.holds] at hx
      rw [Performing, ← hhandle, hret.exec_eq h₂.backed.holds] at hy
      cases hx
      cases hy
      exact ⟨by rw [hhandle], h⟩

/-- **Tasks that are not committed** leave the database as it was. -/
theorem staging_run {x x' : StorageEngine × Disk}
    {tr : List (Task × Except CndbError TaskReply × UInt64)} (h : Machine.Run Staging x tr x')
    {l : Log} (hs : Settled x.1 x.2.volatile l log) :
    ∃ log', Settled x'.1 x'.2.volatile l log' ∧ x'.1.header = x.1.header ∧
      x'.1.liveSlot = x.1.liveSlot ∧
      ∀ t, slotBytes x'.2.volatile t = slotBytes x.2.volatile t := by
  refine Machine.Run.invariant (I := fun y => ∃ log', Settled y.1 y.2.volatile l log' ∧
    y.1.header = x.1.header ∧ y.1.liveSlot = x.1.liveSlot ∧
    ∀ t, slotBytes y.2.volatile t = slotBytes x.2.volatile t) ?_ h ⟨log, hs, rfl, rfl, fun _ => rfl⟩
  rintro y q p y' ⟨log₁, hs₁, hhdr, hlive, hslots⟩ ⟨hq, hserve, -⟩
  rcases performing_cases hserve with ⟨op, z, rfl, -, hop⟩ | ⟨-, rfl⟩
  · obtain ⟨log₂, -, hs₂, hhdr', hlive', hslots'⟩ := hs₁.stage (Task.commits_op op ▸ hq) hop
    exact ⟨log₂, hs₂, hhdr'.trans hhdr, hlive'.trans hlive,
      fun t => (hslots' t).trans (hslots t)⟩
  · exact ⟨log₁, hs₁, hhdr, hlive, hslots⟩

/-- **A commit that is interrupted before its header write** leaves the database
as it was. -/
theorem Settled.interrupted {l : Log} (hs : Settled e d.volatile l log) {order : IterOrder}
    {d' : Disk} {wr : Trace} (hstop : Stops stoppedAnywhere ((Op.commit order).prog e) d wr d')
    (hlog : LogOnly wr) : Disk.Grows (tail log) d d' := by
  have hpoint : CommitPoint stoppedAnywhere e order d wr d' :=
    (commit_serve_safe hs.handle order).stops hstop
  cases hpoint with
  | logging hg =>
    rw [hs.handle.endOffset] at hg
    exact hg.2
  | writing | synced => exact (not_logOnly_header hlog).elim

/-- **Sessions over two files of one database** show the same, and leave files of
one database. -/
theorem Visits.same {v v' : Visit} {o₁ o₂ : Outcome} {d₁' d₂' : Disk} (hsame : SameDatabase d₁ d₂)
    (hv : v.isSession = true) (hvv : v = v') (h₁ : Visits d₁ v o₁ d₁') (h₂ : Visits d₂ v' o₂ d₂') :
    o₁ = o₂ ∧ SameDatabase d₁' d₂' := by
  obtain ⟨e, hopen₁, hopen₂, htwins⟩ := hsame.opens
  cases h₁ with
  | dropped | interrupted => cases hv
  | session hopen hrun =>
    cases h₂ with
    | dropped | interrupted => cases hvv
    | session hopen' hrun' =>
      rw [hopen₁] at hopen
      rw [hopen₂] at hopen'
      cases hopen
      cases hopen'
      injection hvv with hops
      obtain ⟨hall, hend⟩ := Machine.Run.lockstep (M := Serving) (N := Serving) (R := Twins)
        (P := Eq) (fun _ _ _ _ _ _ _ h hx hy => h.serving hx hy) hrun hrun' hops htwins
      rw [List.forall₂_eq_eq_eq] at hall
      rw [hall]
      exact ⟨rfl, hend.same⟩

/-- **An abandoned session** leaves a file of the same database. -/
theorem Visits.abandoned {v : Visit} {o : Outcome} {d₂' : Disk} (hsame : SameDatabase d₁ d₂)
    (hv : v.isSession = false) (h : Visits d₂ v o d₂') : SameDatabase d₁ d₂' := by
  obtain ⟨s, hdr, l, h₁, h₂, hslots⟩ := hsame
  have hopen₂ := h₂.open_exec
  cases h with
  | session => cases hv
  | dropped hopen hrun =>
    rw [hopen₂] at hopen
    cases hopen
    obtain ⟨log', hs, hhdr, hlive, hslots'⟩ := staging_run hrun (Settled.of_live h₂)
    have hl := hs.live
    rw [hhdr, hlive] at hl
    exact ⟨s, hdr, l, h₁, hl, fun t => (hslots t).trans (hslots' t).symm⟩
  | interrupted hopen hrun hstop hlog =>
    rw [hopen₂] at hopen
    cases hopen
    obtain ⟨log', hs, hhdr, hlive, hslots'⟩ := staging_run hrun (Settled.of_live h₂)
    have hg := hs.interrupted hstop hlog
    have hl := (hs.grow hg).live
    rw [hhdr, hlive] at hl
    refine ⟨s, hdr, l, h₁, hl, fun t => ?_⟩
    rw [slotBytes_grows (le_tail log') hs.backed.length_le hg]
    exact (hslots t).trans (hslots' t).symm

/-- Every visit leaves a database. -/
theorem Visits.same_self {v : Visit} {o : Outcome} {d' : Disk} (h : Visits d v o d')
    (hsame : SameDatabase d d) : SameDatabase d' d' := by
  cases hv : v.isSession with
  | true => exact (Visits.same hsame hv rfl h h).2
  | false =>
    obtain ⟨s, hdr, l, -, hl, -⟩ := Visits.abandoned hsame hv h
    exact ⟨s, hdr, l, hl, hl, fun _ => rfl⟩

end Twins

/-! ### How long the file gets -/

section Length

variable [Bson] {e e' : StorageEngine} {l log : Log} {d d' : Disk} {n : ℕ}

/-- An append lengthens the file to the end of the log it leaves, at most. -/
theorem Settled.length_append (hs : Settled e d.volatile l log) {kind : RecordKind}
    {payload : Bytes} {r : Except CndbError Reply}
    (hr : ((Op.append kind payload).prog e).exec d = some ((r, e'), d'))
    (hd : d.volatile.length ≤ n) (hn : e'.endOffset.toNat ≤ n) : d'.volatile.length ≤ n := by
  obtain ⟨tr, hruns⟩ := runs_of_exec (F := .never) hr
  refine ((append_within hs.handle.endOffset_le fun hlen => ?_).steps hd hruns).2
  obtain ⟨log', hsv, -⟩ := hs.stage rfl hr
  cases hsv with
  | appended _ hfit => rwa [← appended_endOffset hfit]
  | tooLarge hlen' => exact absurd hlen (Nat.not_le_of_lt hlen')
  | appendFailed hf => exact (Faults.not_canFail_never hf).elim

/-- **A request lengthens the file** to the end of the log it leaves, at most. -/
theorem Settled.length_serving (hs : Settled e d.volatile l log) {op : Op}
    {r : Except CndbError Reply} (hr : (op.prog e).exec d = some ((r, e'), d'))
    (hd : d.volatile.length ≤ n) (hn : e'.endOffset.toNat ≤ n) : d'.volatile.length ≤ n := by
  have hhi := hs.handle.endOffset_le
  obtain ⟨tr, hruns⟩ := runs_of_exec (F := .never) hr
  cases op with
  | append kind payload => exact hs.length_append hr hd hn
  | insert doc =>
    cases hdoc : toBsonBytes doc with
    | ok bytes =>
      rw [insert_prog e hdoc] at hr
      exact hs.length_append hr hd hn
    | error err =>
      rw [Op.prog, EngineM.reply, Cndb.insert_run, hdoc] at hr
      cases hr
      exact hd
  | tombstone id =>
    obtain ⟨log', hsv, -⟩ := hs.stage rfl hr
    cases hsv with
    | buried hid hdead hfit =>
      -- the file ends with the tombstone at most
      refine ((tombstone_within hhi ?_).steps hd hruns).2
      rwa [← appended_endOffset hfit]
    | deleted hdead =>
      rw [Op.prog, EngineM.reply, tombstone_run, if_pos hdead] at hr
      cases hr
      exact hd
    | notFound hdead hid =>
      rw [Op.prog, EngineM.reply, tombstone_run, if_neg hdead, if_pos hid] at hr
      cases hr
      exact hd
    | buryFailed hf => exact (Faults.not_canFail_never hf).elim
  | commit order =>
    have h128 : 128 ≤ n := hs.backed.length_le.trans hd
    rcases hs.commit_exec_cases hr with ⟨-, -, -, rfl⟩ | ⟨-, hmax, -⟩ |
      ⟨-, -, -, rfl, tr₁, d₁, hp, -⟩
    · exact hd
    · refine ((commit_within hhi h128 fun hlen => ?_).steps hd hruns).2
      exact absurd hlen (Nat.not_le_of_lt hmax)
    · refine ((commit_within hhi h128 fun _ => ?_).steps hd hruns).2
      have hend : (e.appended (commitPayload e order).length).endOffset.toNat ≤ n := hn
      rwa [appended_endOffset hp.fits, commitPayload, MasterIndex.length_serialize] at hend
  | readRecord id =>
    have hret := readRecord_returns hs.handle.valid hs.handle.index id
    have hprog : ((Op.readRecord id).prog e).Returns (fun v => Holds v 128 (logBytes log))
        (((tableOf log).find id).map .record, e) := hret.bind rfl
    obtain ⟨-, -, rfl⟩ := hprog.of_runs hs.backed.holds hruns
    exact hd
  | len | liveIds =>
    cases hr
    exact hd

/-- **A run of tasks** lengthens the file to the largest end it leaves, at most. -/
theorem serving_length {x x' : StorageEngine × Disk}
    {tr : List (Task × Except CndbError TaskReply × UInt64)} (h : Machine.Run Serving x tr x')
    (hs : SettledState x) (hd : x.2.volatile.length ≤ n)
    (hn : ∀ p ∈ tr.map Prod.snd, p.2.toNat ≤ n) : x'.2.volatile.length ≤ n := by
  induction h with
  | nil => exact hd
  | @cons x₁ x₂ x₃ q p tr hserve _ ih =>
    obtain ⟨hq, hend⟩ := hserve
    have hrest : ∀ p' ∈ tr.map Prod.snd, p'.2.toNat ≤ n :=
      fun p' hp' => hn p' (List.mem_cons_of_mem _ hp')
    rcases performing_cases hq with ⟨op, z, -, -, hexec⟩ | ⟨-, rfl⟩
    · obtain ⟨l, log, hs₁⟩ := hs
      have hp : p.2.toNat ≤ n := hn p List.mem_cons_self
      rw [hend] at hp
      exact ih (Performs.settled ⟨l, log, hs₁⟩ (.op hexec)) (hs₁.length_serving hexec hd hp) hrest
    · exact ih hs hd hrest

/-- **A visit lengthens the file** to the largest end of its log, at most. -/
theorem Visits.length_le {v : Visit} {o : Outcome} {s : Slot} {h : Header}
    (hv : Visits d v o d') (hl : Live d.volatile s h l) (hd : d.volatile.length ≤ n)
    (hends : ∀ x ∈ o.ends, x.toNat ≤ n) (haimed : ∀ x ∈ o.aimed, x ≤ n) :
    d'.volatile.length ≤ n := by
  have hopen' := hl.open_exec
  have hset := Settled.of_live hl
  have hanswers : ∀ (answers : List (Except CndbError TaskReply × UInt64)),
      (∀ x ∈ answers.map Prod.snd, x.toNat ≤ n) → ∀ p ∈ answers, p.2.toNat ≤ n :=
    fun _ hall p hp => hall p.2 (List.mem_map_of_mem hp)
  cases hv with
  | session hopen hrun =>
    rw [hopen'] at hopen
    cases hopen
    exact serving_length hrun ⟨l, l, hset⟩ hd
      (hanswers _ fun x hx => hends x (List.mem_cons_of_mem _ hx))
  | dropped hopen hrun =>
    rw [hopen'] at hopen
    cases hopen
    exact serving_length (hrun.mono fun _ _ _ _ hst => hst.2) ⟨l, l, hset⟩ hd
      (hanswers _ fun x hx => hends x (List.mem_cons_of_mem _ hx))
  | interrupted hopen hrun hstop hlog =>
    rw [hopen'] at hopen
    cases hopen
    obtain ⟨log', hs, -⟩ := staging_run hrun hset
    have hd₂ := serving_length (hrun.mono fun _ _ _ _ hst => hst.2) ⟨l, l, hset⟩ hd
      (hanswers _ fun x hx => hends x (List.mem_cons_of_mem _ hx))
    refine (commit_within hs.handle.endOffset_le (hs.backed.length_le.trans hd₂) fun _ => ?_).stops
      hd₂ hstop
    exact haimed _ rfl

/-- **A history lengthens the file** to the largest end of a log in any of its
visits, at most. -/
theorem history_length {ext : List (Visit × Outcome)} (h : Machine.Run Visits d ext d')
    (hsame : SameDatabase d d) (hd : d.volatile.length ≤ n)
    (hn : ∀ q ∈ ext, (∀ x ∈ q.2.ends, x.toNat ≤ n) ∧ ∀ x ∈ q.2.aimed, x ≤ n) :
    d'.volatile.length ≤ n := by
  induction h with
  | nil => exact hd
  | @cons d₁ d₂ d₃ v o ext hv _ ih =>
    obtain ⟨hends, haimed⟩ := hn _ List.mem_cons_self
    have hlen : d₂.volatile.length ≤ n := by
      obtain ⟨s, hdr, l, hl, -⟩ := hsame
      exact hv.length_le hl hd hends haimed
    exact ih (hv.same_self hsame) hlen fun q hq => hn q (List.mem_cons_of_mem _ hq)

end Length

/-! ### The two histories -/

/-- A file in which a log is live is a database. -/
theorem sameDatabase_of_live {d : Disk} {s : Slot} {h : Header} {l : Log}
    (hl : Live d.volatile s h l) : SameDatabase d d :=
  ⟨s, h, l, hl, hl, fun _ => rfl⟩

/-- **Abandoned sessions leave no trace.** Take a history of sessions on a
database and a second one with abandoned sessions inserted between them. What
the sessions show is the same in both. Both end with the same handle, the same
header slots and the same bytes of the log. And the file of the second gets no
longer than the largest value `end` took in any of its sessions – or would have
taken, where a commit was interrupted. -/
theorem abandoned_sessions_leave_no_trace [Bson] {d d₁ d₂ : Disk} {s : Slot} {h : Header} {l : Log}
    {base ext : List (Visit × Outcome)} (hl : Live d.volatile s h l)
    (h₁ : Machine.Run Visits d base d₁) (h₂ : Machine.Run Visits d ext d₂)
    (hsub : base.map Prod.fst = (ext.filter fun q => q.1.isSession).map Prod.fst) :
    base.map Prod.snd = (ext.filter fun q => q.1.isSession).map Prod.snd ∧
    (∃ e bytes, openFile.run.exec d₁ = some (.ok e, d₁) ∧
      openFile.run.exec d₂ = some (.ok e, d₂) ∧
      (∀ t, slotBytes d₁.volatile t = slotBytes d₂.volatile t) ∧
      logStart.toNat + bytes.length = e.header.logEnd.toNat ∧
      readAt d₁.volatile logStart.toNat bytes.length = some bytes ∧
      readAt d₂.volatile logStart.toNat bytes.length = some bytes) ∧
    ∀ n, d.volatile.length ≤ n →
      (∀ q ∈ ext, (∀ x ∈ q.2.ends, x.toNat ≤ n) ∧ ∀ x ∈ q.2.aimed, x ≤ n) →
      d₂.volatile.length ≤ n := by
  have hstart := sameDatabase_of_live hl
  obtain ⟨hall, hsame⟩ := Machine.Run.stutter (M := Visits) (N := Visits) (R := SameDatabase)
    (P := Eq) (fun _ _ _ _ _ _ _ hs hv hx hy => Visits.same hs hv rfl hx hy)
    (fun _ _ _ _ _ hs hv hy => Visits.abandoned hs hv hy) h₁ h₂ hsub hstart
  rw [List.forall₂_eq_eq_eq] at hall
  refine ⟨hall, ?_, fun n hn hext => history_length h₂ hstart hn hext⟩
  obtain ⟨e, hopen₁, hopen₂, -⟩ := hsame.opens
  obtain ⟨s', h', l', hl₁, hl₂, hslots⟩ := hsame
  have he := hl₁.open_exec.symm.trans hopen₁
  cases he
  refine ⟨_, logBytes l', hopen₁, hopen₂, hslots, hl₁.describes.logEnd_toNat.symm, ?_, ?_⟩
  · exact hl₁.holds.readAt
  · exact hl₂.holds.readAt

/-- A first document may be staged in a new database. -/
theorem staging_first [Bson] : ∃ d, Staging (created, .ofImage newRegion)
    (.op (.append .blob [7])) (.ok (.reply (.id ⟨1⟩)), firstAppended.endOffset)
    (firstAppended, d) := by
  obtain ⟨d, hd⟩ := append_exec (e := created) (d := .ofImage newRegion) .blob [7] (by decide)
    (by decide)
  exact ⟨d, staging_op (y := .ok (.id ⟨1⟩)) rfl hd⟩

/-- A session that stores a document, commits, and looks at everything. -/
noncomputable def firstTasks : List Task :=
  [.op (.append .blob [7]), .op (.commit .listed), .read ⟨1⟩, .verify, .isEmpty, .stats]

/-- **A first session** on an empty database, whatever lies behind its log. -/
theorem first_session [Bson] {d : Disk} (hopen : openFile.run.exec d = some (.ok created, d))
    (hs : Settled created d.volatile [] []) : ∃ o d', Visits d (.session firstTasks) o d' ∧
      o.replies = [.ok (.reply (.id ⟨1⟩)), .ok (.reply .done), .ok (.payload [7]), .ok (.records 2),
        .ok (.empty false), .ok (.stats firstCommitted.stats)] ∧
      (∀ x ∈ o.ends, x.toNat ≤ 187) ∧ o.aimed = none := by
  obtain ⟨d₁, d₂, h₁, h₂, -, hs₂⟩ := first_document hs
  have hread := (read_returns hs₂.handle.valid hs₂.handle.index ⟨1⟩).exec_eq hs₂.backed.holds
  have hpayload : Performing (firstCommitted, d₂) (.read ⟨1⟩) (.ok (.payload [7]))
      (firstCommitted, d₂) := by
    rw [Performing, Task.prog, exec_bind, hread]
    rfl
  have hrecords : Performing (firstCommitted, d₂) .verify (.ok (.records 2))
      (firstCommitted, d₂) := performing_verify (x := (_, d₂)) hs₂
  have hempty : Performing (firstCommitted, d₂) .isEmpty (.ok (.empty false))
      (firstCommitted, d₂) := by
    have hsome : firstCommitted.isEmpty = false := by
      change firstAppended.isEmpty = false
      decide
    rw [Performing, Task.prog, hsome]
    rfl
  have hstats : Performing (firstCommitted, d₂) .stats (.ok (.stats firstCommitted.stats))
      (firstCommitted, d₂) := rfl
  have hvisit := Visits.session hopen (.cons (serving_op h₁) (.cons (serving_op h₂)
    (.cons (serving_look hpayload) (.cons (serving_look hrecords) (.cons (serving_look hempty)
      (.cons (serving_look hstats) (.nil _)))))))
  refine ⟨_, d₂, hvisit, rfl, fun x hx => ?_, rfl⟩
  have hend : firstCommitted.endOffset.toNat = 187 := congrArg UInt64.toNat firstCommitted_logEnd
  have hmem : x = created.endOffset ∨ x = firstAppended.endOffset ∨
      x = firstCommitted.endOffset := by
    simpa [Outcome.of] using hx
  rcases hmem with rfl | rfl | rfl
  · decide
  · decide
  · exact hend.le

/-- The ends of the log around a first document of one byte. -/
theorem le_ends_first : ∀ x ∈ [created.endOffset, firstAppended.endOffset], x.toNat ≤ 138 := by
  intro x hx
  rcases List.mem_pair.mp hx with rfl | rfl
  · decide
  · decide

/-- A first session, and before it one that is abandoned: it has stored a document that is
longer than all that the first session writes. -/
theorem abandoned_sessions_leave_no_trace_first :
    letI := emptyDocuments
    ∃ o o₀ o' d₁ d₂ e bytes,
      Machine.Run Visits (.ofImage newRegion) [(.session firstTasks, o)] d₁ ∧
      Machine.Run Visits (.ofImage newRegion)
        [(.abandoned [.op (.append .blob (List.replicate 100 8))] none, o₀),
          (.session firstTasks, o')] d₂ ∧
      o₀.replies = [.ok (.reply (.id ⟨1⟩))] ∧
      o.replies = [.ok (.reply (.id ⟨1⟩)), .ok (.reply .done), .ok (.payload [7]), .ok (.records 2),
        .ok (.empty false), .ok (.stats firstCommitted.stats)] ∧
      o = o' ∧ openFile.run.exec d₁ = some (.ok e, d₁) ∧ openFile.run.exec d₂ = some (.ok e, d₂) ∧
      logStart.toNat + bytes.length = e.header.logEnd.toNat ∧
      readAt d₁.volatile 128 bytes.length = some bytes ∧
      readAt d₂.volatile 128 bytes.length = some bytes ∧ d₂.volatile.length ≤ 237 := by
  let _ := emptyDocuments
  have hlive : Live (Disk.ofImage newRegion).volatile 0 .initial [] := live_newRegion
  -- the history without the abandoned session
  obtain ⟨o, d₁, hsession, hreplies, -⟩ :=
    first_session (d := .ofImage newRegion) open_newRegion settled_created
  -- the abandoned session, behind which the database is still empty
  obtain ⟨d, happend⟩ := append_exec (e := created) (d := .ofImage newRegion) .blob
    (List.replicate 100 8) (by decide) (by decide)
  have hstaged := Machine.Run.cons (staging_op rfl happend) (.nil _)
  have habandoned := Visits.dropped open_newRegion hstaged
  obtain ⟨log, hs, -, -, hslots⟩ := staging_run (x := newStore) hstaged settled_created
  have hdec : decodedSlots d.volatile = decodedSlots newRegion :=
    funext fun t => decodedSlots_congr (hslots t)
  have hopen := hs.reopen_exec
  have hempty := Settled.of_live hs.live
  change openFile.run.exec d =
    some (.ok (opened (decodedSlots d.volatile) 0 .initial []), d) at hopen
  change Settled (opened (decodedSlots d.volatile) 0 .initial []) d.volatile [] [] at hempty
  rw [hdec, ← created_eq] at hopen hempty
  -- the other history
  obtain ⟨o', d₂, hsession', hreplies', hends, haimed⟩ := first_session hopen hempty
  have hbase := Machine.Run.cons hsession (.nil _)
  have hext := Machine.Run.cons habandoned (.cons hsession' (.nil _))
  obtain ⟨hsame, ⟨e, bytes, hopen₁, hopen₂, -, hlen, hread₁, hread₂⟩, hlength⟩ :=
    abandoned_sessions_leave_no_trace hlive hbase hext rfl
  refine ⟨o, _, o', d₁, d₂, e, bytes, hbase, hext, rfl, hreplies, List.singleton_inj.mp hsame,
    hopen₁, hopen₂, hlen, hread₁, hread₂, hlength 237 ?_ fun q hq => ?_⟩
  · rw [Disk.volatile_ofImage, length_newRegion]
    decide
  · rcases List.mem_pair.mp hq with rfl | rfl
    · refine ⟨fun x hx => ?_, nofun⟩
      rcases List.mem_pair.mp hx with rfl | rfl
      · decide
      · decide
    · exact ⟨fun x hx => (hends x hx).trans (by decide), by rw [haimed]; nofun⟩

/-- A commit that has written the frame of its master record, and nothing else. -/
theorem commit_frame_steps [Bson] {F : Faults} {e : StorageEngine} {d : Disk} (order : IterOrder)
    (hd : e.dirty = true) (hlen : (commitPayload e order).length ≤ maxRecordLen.toNat)
    (hfit : Fits e.endOffset.toNat (encodeFrame .masterIndex (commitPayload e order))) :
    ∃ q, Steps F ((Op.commit order).prog e) d
      [⟨e.endOffset.toNat, encodeFrame .masterIndex (commitPayload e order), 9⟩] q
      (d.sync.write e.endOffset.toNat (encodeFrame .masterIndex (commitPayload e order))) := by
  have hraw := appendRaw_run .masterIndex (commitPayload e order) e
  rw [if_neg (Nat.not_lt_of_le hlen)] at hraw
  obtain ⟨q, hframe⟩ : ∃ q, Steps F ((appendRaw .masterIndex (commitPayload e order)).run.run e)
      d.sync [⟨e.endOffset.toNat, encodeFrame .masterIndex (commitPayload e order), 9⟩] q
      (d.sync.write e.endOffset.toNat (encodeFrame .masterIndex (commitPayload e order))) := by
    rw [hraw]
    exact ⟨_, Step.steps (.write _ _ hfit)⟩
  rw [Op.prog, EngineM.reply, commit_run, if_pos hd]
  have hrest := fun f g => (hframe.bind (β := Except CndbError Unit × StorageEngine) f).bind
    (β := Except CndbError Reply × StorageEngine) g
  exact ⟨_, .head (.sync _ _) (hrest _ _)⟩

/-- **An interrupted commit may leave more than `end` says**: stopped between the
frame of its master record and the payload, it has lengthened the file, and the
end of the log in memory has not moved. -/
theorem interrupted_commit_exceeds_end :
    letI := emptyDocuments
    ∃ o d, Machine.Run Visits (.ofImage newRegion)
        [(.abandoned [.op (.append .blob [7])] (some .listed), o)] d ∧
      (∀ x ∈ o.ends, x.toNat ≤ 138) ∧ 138 < d.volatile.length := by
  let _ := emptyDocuments
  obtain ⟨d, hstage⟩ := staging_first
  have hend : firstAppended.endOffset.toNat = 138 := by decide
  have hlen : (commitPayload firstAppended .listed).length ≤ maxRecordLen.toNat := by
    rw [commitPayload, MasterIndex.length_serialize]
    decide
  have hfit : Fits firstAppended.endOffset.toNat
      (encodeFrame .masterIndex (commitPayload firstAppended .listed)) := by
    refine Or.inr ?_
    rw [hend, length_encodeFrame]
    decide
  have hsteps := commit_frame_steps (F := stoppedAnywhere) (d := d) .listed rfl hlen hfit
  have hlog : LogOnly [⟨firstAppended.endOffset.toNat,
      encodeFrame .masterIndex (commitPayload firstAppended .listed), 9⟩] := by
    intro ev hev
    rw [List.mem_singleton.mp hev]
    decide
  have hvisit := Visits.interrupted open_newRegion (.cons hstage (.nil _)) (Or.inl hsteps) hlog
  refine ⟨_, _, .cons hvisit (.nil _), ?_, ?_⟩
  · exact le_ends_first
  · have hle := (holds_writeAt d.sync.volatile firstAppended.endOffset.toNat
      (encodeFrame .masterIndex (commitPayload firstAppended .listed))).length_le
      (List.ne_nil_of_length_pos (by rw [length_encodeFrame]; decide))
    rw [hend, length_encodeFrame] at hle
    rw [Disk.volatile_write, hend]
    omega

end ContextDb
