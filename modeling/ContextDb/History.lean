import ContextDb.Sequential
import ContextDb.Storage.Anchor
import Mathlib.Logic.Relation

/-!
# Histories of a database file

A file, the handle that is open on it if there is one, and the commits that
have issued a header: a `ContextDb.World`. What may happen to it is one step
relation (`ContextDb.World.Step`) – opening, requests, dropping the handle, a
killed process, a loss of power, a lost header slot – and a
`ContextDb.Regime` says which of these a history may contain, which requests may
fail, and what `append` is called with. A request runs as a program, so a kill
may come between any two of its requests to the file and inside any of its
writes.

Every statement about histories is about what is reachable under some regime
from a file that does not exist yet (`ContextDb.Reachable`).

As long as no power is lost, one invariant covers every regime in which torn
headers are detected (`ContextDb.Reachable.sound`): an open handle is backed by
its file, and a file without a handle has a live log, or has not been created.
-/

namespace ContextDb

open ByteFile FileProg Prog StorageEngine

/-! ### Regimes -/

/-- **What a history may contain.** -/
structure Regime where
  /-- Which requests to the file may fail, and which writes may be cut short. -/
  faults : Faults
  /-- The process may be killed. -/
  kill : Prop
  /-- The power may be lost. -/
  powerLoss : Prop
  /-- A header slot may be lost between two sessions. -/
  slotLoss : Prop
  /-- The kinds documents are appended under. -/
  kinds : RecordKind → Prop

/-- A write fails only where it does not fit in a file. -/
def fullDisk : Faults where
  write _ off bs n := ¬Fits off bs ∧ Fits off (bs.take n)
  sync := False
  cut _ _ _ _ := False

/-- Any write may fail after any number of its bytes, and any sync may fail. -/
def failingDisk : Faults where
  write := TornSafe
  sync := True
  cut _ _ _ _ := False

/-- Nothing fails but a write that does not fit, and the process may be stopped
in the middle of a write. -/
def killedProcess : Faults where
  write := fullDisk.write
  sync := False
  cut := TornSafe

theorem detected_failingDisk : Detected failingDisk := by
  rintro v off bs n - - (hw | hcut)
  · exact hw
  · exact hcut.elim

theorem detected_killedProcess : Detected killedProcess := by
  rintro v off bs n hl ho (⟨hfit, -⟩ | hcut)
  · exact (hfit (fits_slot hl ho)).elim
  · exact hcut

theorem steady_fullDisk : Steady fullDisk :=
  ⟨id, fun _ _ _ _ hl ho hw => hw.1 (fits_slot hl ho)⟩

theorem steady_killedProcess : Steady killedProcess := steady_fullDisk

/-! ### Worlds and their steps -/

/-- **A commit that has issued its header**: what it captured, the write it
issued, and whether it returned `Ok`. -/
structure Issued where
  /-- What the handle showed when the commit was called. -/
  captured : DocState
  /-- Where the header was written. -/
  off : ℕ
  /-- The bytes of the header. -/
  bytes : Bytes
  /-- Whether the commit returned `Ok`. -/
  ok : Bool

/-- A file, the handle open on it, and the commits that have issued a header,
latest first. -/
structure World where
  /-- The file. -/
  disk : Disk
  /-- The open handle, if there is one. -/
  handle : Option StorageEngine
  /-- The commits so far. -/
  commits : List Issued

/-- A file that does not exist yet. -/
def World.new : World := ⟨.ofImage [], none, []⟩

/-- The commits of a run: its writes to the header region. -/
def issued (captured : DocState) (ok : Bool) (tr : Trace) : List Issued :=
  (tr.filter fun ev => ev.off < 128).map fun ev => ⟨captured, ev.off, ev.bytes, ok⟩

/-- **One step of a history.** -/
inductive World.Step [Bson] (R : Regime) : World → World → Prop
  /-- The file is opened. -/
  | opens {d d' : Disk} {cs : List Issued} {tr : Trace} {e : StorageEngine}
      (hr : Runs R.faults openFile.run d tr (.ok e) d') :
      Step R ⟨d, none, cs⟩ ⟨d', some e, cs⟩
  /-- Opening fails. -/
  | openFails {d d' : Disk} {cs : List Issued} {tr : Trace} {err : CndbError}
      (hr : Runs R.faults openFile.run d tr (.error err) d') :
      Step R ⟨d, none, cs⟩ ⟨d', none, cs⟩
  /-- The process is killed while opening. -/
  | openKilled {d d' : Disk} {cs : List Issued} {tr : Trace} (hk : R.kill)
      (hs : Stops R.faults openFile.run d tr d') : Step R ⟨d, none, cs⟩ ⟨d', none, cs⟩
  /-- A request is made and answered. -/
  | serve {d d' : Disk} {cs : List Issued} {tr : Trace} {e e' : StorageEngine} {op : Op}
      {r : Except CndbError Reply} (hop : op.Allowed R.kinds)
      (hr : Runs R.faults (op.prog e) d tr (r, e') d') :
      Step R ⟨d, some e, cs⟩ ⟨d', some e', issued (e.docState d.volatile) r.isOk tr ++ cs⟩
  /-- The handle is dropped. -/
  | drop {d : Disk} {cs : List Issued} {e : StorageEngine} :
      Step R ⟨d, some e, cs⟩ ⟨d, none, cs⟩
  /-- The process is killed in the middle of a request. -/
  | kill {d d' : Disk} {cs : List Issued} {tr : Trace} {e : StorageEngine} {op : Op}
      (hk : R.kill) (hop : op.Allowed R.kinds) (hs : Stops R.faults (op.prog e) d tr d') :
      Step R ⟨d, some e, cs⟩ ⟨d', none, issued (e.docState d.volatile) false tr ++ cs⟩
  /-- The power is lost – in the middle of a request, after a kill there. -/
  | powerLoss {d : Disk} {img : Bytes} {cs : List Issued} {handle : Option StorageEngine}
      (hp : R.powerLoss) (hc : d.Crash img) (ht : TornHeaders d img) :
      Step R ⟨d, handle, cs⟩ ⟨.ofImage img, none, cs⟩
  /-- A header slot is lost between two sessions, and the other one decodes. -/
  | slotLoss {d : Disk} {cs : List Issued} {s : Slot} {junk : Bytes} (hs : R.slotLoss)
      (hregion : 128 ≤ d.volatile.length) (hother : (decodedSlots d.volatile s.other).isSome)
      (hlen : junk.length = 64)
      (hjunk : decodedSlots (writeAt d.volatile (64 * s) junk) s = none) :
      Step R ⟨d, none, cs⟩ ⟨.ofImage (writeAt d.volatile (64 * s) junk), none, cs⟩

/-- **What some history under a regime leads to.** -/
def Reachable [Bson] (R : Regime) : World → Prop :=
  Relation.ReflTransGen (World.Step R) World.new

/-- **A new database** is reachable under every regime. -/
theorem reachable_created [Bson] (R : Regime) :
    Reachable R ⟨.ofImage newRegion, some created, []⟩ := by
  obtain ⟨tr, hr⟩ := runs_of_exec openFile_exec_new
  exact .single (.opens hr.of_never)

/-! ### What a history should recover -/

/-- **What reopening should show after some commits**: what the latest commit
captured that returned `Ok`, or a later one captured whose header stands exactly
where it was written; without any, the empty database. -/
def Recovers (v : Bytes) (st : DocState) : List Issued → Prop
  | [] => st = .empty
  | c :: cs => (st = c.captured ∧ (c.ok = true ∨ Holds v c.off c.bytes)) ∨
      (c.ok = false ∧ Recovers v st cs)

/-- **The same, told of one header slot** and of its bytes. -/
def Attested (st : DocState) (s : Slot) (bytes : Bytes) : List Issued → Prop
  | [] => st = .empty
  | c :: cs => (st = c.captured ∧ (c.ok = true ∨ (c.off = 64 * s ∧ c.bytes = bytes))) ∨
      (c.ok = false ∧ Attested st s bytes cs)

/-- Without any commit the empty database is attested. -/
theorem attested_new (s : Slot) (bytes : Bytes) :
    Attested (tableOf []).state s bytes [] := by
  rw [Attested, tableOf_nil, DocState.empty]

/-- A state attested for what a slot holds is what reopening should show. -/
theorem Attested.recovers {st : DocState} {s : Slot} {bytes v : Bytes} {cs : List Issued}
    (h : Attested st s bytes cs) (hs : slotBytes v s = bytes) : Recovers v st cs := by
  induction cs with
  | nil => exact h
  | cons c cs ih =>
    rcases h with ⟨hst, hok | ⟨hoff, hbytes⟩⟩ | ⟨hok, h⟩
    · exact Or.inl ⟨hst, Or.inl hok⟩
    · refine Or.inl ⟨hst, Or.inr ?_⟩
      rw [hoff, hbytes, ← hs]
      exact holds_slotBytes v s
    · exact Or.inr ⟨hok, ih h⟩

/-- Writing to the log issues no commit. -/
theorem issued_logOnly {st : DocState} {ok : Bool} {tr : Trace} (h : LogOnly tr) :
    issued st ok tr = [] := by
  have hnil : (tr.filter fun ev => ev.off < 128) = [] := by
    refine List.filter_eq_nil_iff.mpr fun ev hev => ?_
    have hle : 128 ≤ ev.off := h ev hev
    simpa using hle
  rw [issued, hnil]
  rfl

/-- A commit that has issued its header. -/
theorem issued_snoc {st : DocState} {ok : Bool} {tr : Trace} (h : LogOnly tr) (s : Slot)
    (bytes : Bytes) (n : ℕ) :
    issued st ok (tr ++ [⟨64 * (s : ℕ), bytes, n⟩]) = [⟨st, 64 * (s : ℕ), bytes, ok⟩] := by
  have hlt : 64 * (s : ℕ) < 128 := by
    have := slot_le s
    omega
  have hsplit : issued st ok (tr ++ [⟨64 * (s : ℕ), bytes, n⟩]) =
      issued st ok tr ++ issued st ok [⟨64 * (s : ℕ), bytes, n⟩] := by
    rw [issued, List.filter_append, List.map_append]
    rfl
  rw [hsplit, issued_logOnly h, issued, List.filter_cons_of_pos (by simpa using hlt)]
  rfl

/-- **The commits a request counts for** when it returns `Ok`: one, if it is a
commit and there was something to commit. -/
def Op.counted (e : StorageEngine) (st : DocState) : Op → List Issued
  | .commit order =>
    if e.dirty then [⟨st, 64 * commitSlot e, (commitHeaderOf e order).encode, true⟩] else []
  | _ => []

/-- **Every commit that did work and returned `Ok` is counted**, and nothing else
is that returned `Ok`. -/
theorem issued_of_ok [Bson] {F : Faults} {e e' : StorageEngine} {l log : Log} {d d' : Disk}
    {tr : Trace} {op : Op} {r : Except CndbError Reply} (h : Handle e l log)
    (hb : Backed d.volatile e.liveSlot e.header l log)
    (hr : Runs F (op.prog e) d tr (r, e') d') (hok : r.isOk = true) (st : DocState) :
    issued st true tr = op.counted e st := by
  cases hop : op.isCommit with
  | false =>
    obtain ⟨hg, -⟩ := (serve_safe h hb hop).steps hr
    rw [List.nil_append] at hg
    rw [issued_logOnly hg.1]
    cases op with
    | commit order => cases hop
    | _ => rfl
  | true =>
    obtain ⟨order, rfl⟩ := Op.eq_commit hop
    obtain ⟨y, hc, hy⟩ := (commit_serve_safe h order).runs hr
    simp only at hc hy
    cases hc with
    | clean hd =>
      rw [Op.counted, if_neg (by rw [hd]; exact Bool.false_ne_true)]
      rfl
    | refused | early | orphaned | torn =>
      subst hy
      cases hok
    | done hd hp => rw [Op.counted, if_pos hd, issued_snoc hp.grows.1]

/-! ### Runs in which nothing fails -/

/-- The kinds of documents a request appends are allowed. -/
def Request.Allowed (kinds : RecordKind → Prop) : Request → Prop
  | .op q => q.Allowed kinds
  | .reopen => True

/-- **Requests in which nothing fails** are steps of a history. -/
theorem EngineRun.steps [Bson] {R : Regime} {x y : StorageEngine × Disk}
    {tr : List (Request × Except CndbError Reply)} (h : EngineRun x tr y)
    (hall : ∀ q ∈ tr, q.1.Allowed R.kinds) (cs : List Issued) :
    ∃ cs', Relation.ReflTransGen (World.Step R) ⟨x.2, some x.1, cs⟩ ⟨y.2, some y.1, cs'⟩ := by
  induction h generalizing cs with
  | nil => exact ⟨cs, .refl⟩
  | cons hstep _ ih =>
    obtain ⟨hq, hrest⟩ := List.forall_mem_cons.mp hall
    cases hstep with
    | op hx =>
      obtain ⟨tr, hr⟩ := runs_of_exec (F := .never) hx
      obtain ⟨cs', hsteps⟩ := ih hrest _
      exact ⟨cs', .head (.serve hq hr.of_never) hsteps⟩
    | reopen hx =>
      obtain ⟨tr, hr⟩ := runs_of_exec (F := .never) hx
      obtain ⟨cs', hsteps⟩ := ih hrest _
      exact ⟨cs', .head .drop (.head (.opens hr.of_never) hsteps)⟩

/-- **A small database** is reached from a new one under every regime that allows
documents of its kind. -/
theorem small_steps [Bson] {R : Regime} (hR : R.kinds .blob) : ∃ d cs,
    Relation.ReflTransGen (World.Step R) ⟨.ofImage newRegion, some created, []⟩
      ⟨d, some firstBuried, cs⟩ ∧
    Settled firstBuried d.volatile [] smallLog ∧ d.volatile.length ≤ 165 := by
  obtain ⟨d, hrun, hs, hlen⟩ := small_run
  obtain ⟨cs, hsteps⟩ := hrun.steps (R := R) (by
    simp only [List.forall_mem_cons]
    exact ⟨hR, hR, trivial, nofun⟩) []
  exact ⟨d, cs, hsteps, hs, hlen⟩

/-- The same once it is committed. -/
theorem reachable_small [Bson] {R : Regime} (hR : R.kinds .blob) : ∃ d cs,
    Reachable R ⟨d, some smallCommitted, cs⟩ ∧
    Settled smallCommitted d.volatile smallCommittedLog smallCommittedLog ∧
    d.volatile.length ≤ 238 := by
  obtain ⟨d, cs, hsteps, hs, hlen⟩ := small_steps hR
  obtain ⟨d', hcommit, hs', hlen'⟩ := small_commit hs hlen
  obtain ⟨tr, hr⟩ := runs_of_exec (F := .never) hcommit
  exact ⟨d', _, ((reachable_created R).trans hsteps).tail
    (.serve (show Op.Allowed _ (.commit .listed) from trivial) hr.of_never), hs', hlen'⟩

/-- And the same with a third document behind the committed log. -/
theorem reachable_third [Bson] {R : Regime} (hR : R.kinds .blob) : ∃ d cs,
    Reachable R ⟨d, some thirdAppended, cs⟩ ∧
    Settled thirdAppended d.volatile smallCommittedLog
      (smallCommittedLog ++ [.doc ⟨.blob, [9]⟩]) := by
  obtain ⟨d, cs, hw, hs, -⟩ := reachable_small hR
  obtain ⟨d', happend, hs'⟩ := third_append hs
  obtain ⟨tr, hr⟩ := runs_of_exec (F := .never) happend
  exact ⟨d', _, hw.tail (.serve (show Op.Allowed _ (.append .blob [9]) from hR) hr.of_never), hs'⟩

/-! ### The invariant of histories without a loss of power -/

/-- The file has not been created: it is shorter than the header region. -/
def Unborn (v : Bytes) : Prop := v.length < 128

/-- **A sound world**: an open handle is backed by its file, and a file without
a handle has a live log, or has not been created. The documents are of the kinds
that are allowed. -/
inductive Sound (K : RecordKind → Prop) : World → Prop
  /-- A handle is open. -/
  | session {d : Disk} {cs : List Issued} {e : StorageEngine} {l log : Log}
      (h : Handle e l log) (hb : Backed d.volatile e.liveSlot e.header l log)
      (hk : OfKinds K log) : Sound K ⟨d, some e, cs⟩
  /-- The file is at rest. -/
  | rest {d : Disk} {cs : List Issued} {s : Slot} {h : Header} {l : Log}
      (hl : Live d.volatile s h l) (hk : OfKinds K l) : Sound K ⟨d, none, cs⟩
  /-- The file has not been created. -/
  | unborn {d : Disk} {cs : List Issued} (hu : Unborn d.volatile) : Sound K ⟨d, none, cs⟩

section Opening

variable {F : Faults} {d d' : Disk} {tr : Trace} {s : Slot} {h : Header} {l : Log}

/-- Opening a file at rest changes nothing and recovers its live log. -/
theorem opens_live (hl : Live d.volatile s h l) {x : Except CndbError StorageEngine}
    (hr : Runs F openFile.run d tr x d') :
    d' = d ∧ x = .ok (opened (decodedSlots d.volatile) s h l) := by
  obtain ⟨-, hx, hd⟩ := (openFile_returns hl).of_runs rfl hr
  exact ⟨hd, hx⟩

/-- Opening an unborn file successfully is creating it. -/
theorem opens_unborn (hu : Unborn d.volatile) {e : StorageEngine}
    (hr : Runs F openFile.run d tr (.ok e) d') :
    d'.volatile = newRegion ∧ d'.unsynced = [] ∧
      e = opened (decodedSlots d'.volatile) 0 .initial [] := by
  obtain ⟨rfl, hnil, rfl⟩ := (openFile_short_safe F hu).runs hr e rfl
  have hnew : (d.write 0 newRegion).sync.volatile = newRegion := volatile_create hnil _
  rw [hnew]
  exact ⟨rfl, rfl, created_eq⟩

/-- The file that is left is the empty database. -/
theorem live_of_newRegion (hd : d.volatile = newRegion) : Live d.volatile 0 .initial [] := by
  rw [hd]
  exact live_newRegion

/-- A process killed while opening a file at rest has changed nothing. -/
theorem openKilled_live (hl : Live d.volatile s h l) (hs : Stops F openFile.run d tr d') :
    d' = d :=
  (openFile_returns hl).stops_eq rfl hs

end Opening

section Sound

variable {K : RecordKind → Prop} {d d' : Disk} {cs cs' : List Issued} {e : StorageEngine}
  {l log : Log}

/-- **What a session leaves behind is at rest.** -/
theorem Sound.of_backed {s : Slot} {h : Header} (hb : Backed d.volatile s h l log)
    (hv : ValidLog log) (hd : Describes h l) (hp : l <+: log) (hk : OfKinds K log) :
    Sound K ⟨d, none, cs⟩ := by
  rcases hb.live hv hd hp with hl | ⟨h', l', hl, -, -, -, hp'⟩
  · exact .rest hl (hk.of_isPrefix hp)
  · exact .rest hl (hk.of_isPrefix hp')

/-- A creation leaves an unborn file or a new database. -/
theorem Sound.of_creation (hc : CreationPoint d d') (hu : Unborn d.volatile) :
    Sound K ⟨d', none, cs⟩ := by
  rcases hc.volatile hu with hshort | hnew
  · exact .unborn hshort
  · exact .rest (live_of_newRegion hnew) ofKinds_nil

end Sound

/-- The live log outlives the loss of either slot. -/
theorem Live.of_slotLoss {v : Bytes} {s t : Slot} {h : Header} {l : Log} {junk : Bytes}
    (hl : Live v s h l) (hother : (decodedSlots v t.other).isSome) (hlen : junk.length = 64)
    (hjunk : decodedSlots (writeAt v (64 * t) junk) t = none) :
    ∃ s' h' l', t ≠ s' ∧ decodedSlots v s' = some h' ∧ Live (writeAt v (64 * t) junk) s' h' l' ∧
      l' <+: l := by
  have hlog : Holds (writeAt v (64 * t) junk) 128 (logBytes l) :=
    holds_log_writeAt_slot hlen.le hl.holds
  have hlen' : 128 ≤ (writeAt v (64 * t) junk).length :=
    hl.length_le.trans (length_le_length_writeAt _ _ _)
  rcases Slot.eq_or_other s t with rfl | rfl
  · obtain ⟨h', hh'⟩ := Option.isSome_iff_exists.mp hother
    have hkeep := slotBytes_writeAt_other hl.length_le (Slot.other_ne t) hlen.le
    obtain ⟨l', hl', hp⟩ := hl.of_damage hh' hlen' hjunk hkeep hlog
    exact ⟨t.other, h', l', (Slot.other_ne t).symm, hh', hl', hp⟩
  · have hkeep := slotBytes_writeAt_other hl.length_le (Slot.other_ne s).symm hlen.le
    refine ⟨s, h, l, Slot.other_ne s, hl.decoded, ⟨hlen', hkeep.trans hl.slot, hl.describes,
      hl.valid, hlog, fun h' hh' => ?_⟩, List.prefix_refl _⟩
    rw [hjunk] at hh'
    cases hh'

/-- **Every step of a history keeps a world sound**, as long as no power is lost
and torn headers are detected. -/
theorem World.Step.sound [Bson] {R : Regime} (hF : Detected R.faults) (hR : ¬R.powerLoss)
    {w w' : World} (hw : Sound R.kinds w) (hs : World.Step R w w') : Sound R.kinds w' := by
  cases hs with
  | opens hr =>
    cases hw with
    | rest hl hk =>
      obtain ⟨rfl, hx⟩ := opens_live hl hr
      cases hx
      exact .session (Handle.of_live hl) (Backed.of_live hl) hk
    | unborn hu =>
      obtain ⟨hnew, -, rfl⟩ := opens_unborn hu hr
      have hl := live_of_newRegion hnew
      exact .session (Handle.of_live hl) (Backed.of_live hl) ofKinds_nil
  | openFails hr =>
    cases hw with
    | rest hl =>
      obtain ⟨-, hx⟩ := opens_live hl hr
      cases hx
    | unborn hu => exact .of_creation ((openFile_short_safe R.faults hu).steps hr).inv hu
  | openKilled hk hst =>
    cases hw with
    | rest hl hkinds =>
      rw [openKilled_live hl hst]
      exact .rest hl hkinds
    | unborn hu => exact .of_creation ((openFile_short_safe R.faults hu).stops hst) hu
  | serve hop hr =>
    cases hw with
    | session h hb hk =>
      obtain ⟨l', log', -, -, h', hb', hk'⟩ := serve_backed hF h hb hr
      exact .session h' hb' (hk' _ hop hk)
  | drop =>
    cases hw with
    | session h hb hk => exact .of_backed hb h.valid h.describes h.committed hk
  | kill hkill hop hst =>
    cases hw with
    | session h hb hk =>
      -- wherever the process stops, the committed log is still backed
      obtain ⟨log', hp, hv, hb', hk'⟩ := stops_backed hF h hb hst
      exact .of_backed hb' hv h.describes (h.committed.trans hp) (hk' _ hk)
  | powerLoss hp => exact (hR hp).elim
  | slotLoss hsl hregion hother hlen hjunk =>
    cases hw with
    | rest hl hk =>
      obtain ⟨s', h', l', -, -, hl', hp⟩ := hl.of_slotLoss hother hlen hjunk
      exact .rest hl' (hk.of_isPrefix hp)
    | unborn hu => exact (Nat.not_le_of_lt hu hregion).elim

/-- **Every reachable world is sound.** -/
theorem Reachable.sound [Bson] {R : Regime} (hF : Detected R.faults) (hR : ¬R.powerLoss)
    {w : World} (hw : Reachable R w) : Sound R.kinds w := by
  induction hw with
  | refl => exact .unborn (by rw [Unborn]; decide)
  | tail _ hs ih => exact hs.sound hF hR ih

end ContextDb
