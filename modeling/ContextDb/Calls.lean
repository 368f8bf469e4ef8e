import ContextDb.Crash
import ContextDb.Storage.PosIo

/-!
# Histories, call by call

Everything else speaks of requests: a program asks for so many bytes at an offset and
is given all of them, or writes so many at one go. Here the requests are carried out by
the loops of `ContextDb.PosIo`, call by call; a process may be killed between any two
calls, and a loss of power may find any of them.

The two levels are connected in both directions. Whatever a program does call by call
it may do request by request, and the disks cannot be told apart
(`ContextDb.CallSteps.refines`) – being killed between two calls of a write is being
killed in the middle of the request. And a run in which nothing fails is a run call by
call (`ContextDb.callSteps_of_never`). So the histories of a database are the same on
both levels (`ContextDb.calls_refine_requests`), and what holds of all histories of
requests holds of all histories of calls.
-/

namespace ContextDb

open ByteFile FileProg Prog StorageEngine PosIo

variable {α : Type} {F : Faults}

/-! ### Programs, call by call -/

/-- **One request of a program**, carried out call by call. A write fails, having
placed some of its bytes, only where the faults let it. -/
inductive CallStep (F : Faults) : Prog α → Disk → Trace → Prog α → Disk → Prop
  /-- The length of the file is asked for at one go. -/
  | len (k : ℕ → Prog α) (d : Disk) : CallStep F (.len k) d [] (k d.volatile.length) d
  /-- A read returns, with bytes or without. -/
  | read {off n : ℕ} {answers : List ReadAnswer} {r : Except Error Bytes}
      (k : Option Bytes → Prog α) (d : Disk)
      (ha : ReadAnswers (fun v => v = d.volatile) n off [] answers)
      (hr : PosIo.readExactAt n [] answers = some r) :
      CallStep F (.read off n k) d [] (k r.toOption) d
  /-- A write returns `Ok`. -/
  | write {off m : ℕ} {bs : Bytes} {answers : List WriteAnswer} {d' : Disk} (k : Bool → Prog α)
      (d : Disk) (ha : WriteAnswers bs.length off 0 answers)
      (hr : PosIo.writeAllAt bs off 0 answers d = (some (.ok ()), m, d')) :
      CallStep F (.write off bs k) d [⟨off, bs, m⟩] (k true) d'
  /-- A write fails. -/
  | writeFails {off m : ℕ} {bs : Bytes} {answers : List WriteAnswer} {d' : Disk} {err : Error}
      (k : Bool → Prog α) (d : Disk) (ha : WriteAnswers bs.length off 0 answers)
      (hr : PosIo.writeAllAt bs off 0 answers d = (some (.error err), m, d'))
      (hf : F.write d.volatile off bs m) :
      CallStep F (.write off bs k) d [⟨off, bs, m⟩] (k false) d'
  /-- A sync succeeds. -/
  | sync (k : Bool → Prog α) (d : Disk) : CallStep F (.sync k) d [] (k true) d.sync
  /-- A sync fails. -/
  | syncFails (k : Bool → Prog α) (d : Disk) (hf : F.sync) : CallStep F (.sync k) d [] (k false) d

/-- **Any number of requests**, call by call. -/
inductive CallSteps (F : Faults) : Prog α → Disk → Trace → Prog α → Disk → Prop
  /-- No request. -/
  | refl (p : Prog α) (d : Disk) : CallSteps F p d [] p d
  /-- One request and the rest. -/
  | head {p q r : Prog α} {d d' d'' : Disk} {tr tr' : Trace} :
      CallStep F p d tr q d' → CallSteps F q d' tr' r d'' → CallSteps F p d (tr ++ tr') r d''

/-- A run to the end, call by call. -/
abbrev CallRuns (F : Faults) (p : Prog α) (d : Disk) (tr : Trace) (a : α) (d' : Disk) : Prop :=
  CallSteps F p d tr (.ret a) d'

/-- **A run that is stopped**, between two requests or between two calls of a write. -/
def CallStops (F : Faults) (p : Prog α) (d : Disk) (tr : Trace) (d' : Disk) : Prop :=
  (∃ q, CallSteps F p d tr q d') ∨
    ∃ off bs k answers m d₁ tr₁, CallSteps F p d tr₁ (.write off bs k) d₁ ∧
      WriteAnswers bs.length off 0 answers ∧
      PosIo.writeAllAt bs off 0 answers d₁ = (none, m, d') ∧ F.cut d₁.volatile off bs m ∧
      tr = tr₁ ++ [⟨off, bs, m⟩]

section Refines

variable {p q : Prog α} {d d' e : Disk} {tr : Trace} {a : α}

/-- **One request, call by call, is the request**, on disks that are alike. -/
theorem CallStep.refines (h : CallStep F p d tr q d') (ha : d.Alike e) :
    ∃ e', Step F p e tr q e' ∧ d'.Alike e' := by
  cases h with
  | len k d =>
    rw [ha.volatile]
    exact ⟨e, .len k e, ha⟩
  | @read off n answers r k d hans hr =>
    obtain ⟨v, rfl, rfl⟩ := readExactAt_spliced (spliceable_eq _) hans (Nat.zero_le _)
      ⟨_, rfl, holds_nil _ _⟩ hr
    refine ⟨e, ?_, ha⟩
    have hread : ((readAt d.volatile off n).elim (.error failedToFill) .ok :
        Except Error Bytes).toOption = readAt e.volatile off n := by
      rw [ha.volatile]
      cases readAt e.volatile off n <;> rfl
    rw [hread]
    exact .read off n k e
  | write k d hans hr =>
    obtain ⟨hplaced, hall, -⟩ := writeAllAt_alike hans (placed_zero _ _ d) hr
    obtain rfl := hall rfl
    have halike := hplaced.alike
    rw [List.take_length] at halike
    exact ⟨_, .write k e (hplaced.fits.imp_left List.length_eq_zero_iff.mp),
      halike.trans (ha.write _ _)⟩
  | writeFails k d hans hr hf =>
    obtain ⟨hplaced, -, -⟩ := writeAllAt_alike hans (placed_zero _ _ d) hr
    rw [ha.volatile] at hf
    exact ⟨_, .writeFails k e hplaced.le hf, hplaced.alike.trans (ha.write _ _)⟩
  | sync k d => exact ⟨_, .sync k e, ha.sync⟩
  | syncFails k d hf => exact ⟨e, .syncFails k e hf, ha⟩

/-- **Any number of requests.** -/
theorem CallSteps.refines (h : CallSteps F p d tr q d') (ha : d.Alike e) :
    ∃ e', Steps F p e tr q e' ∧ d'.Alike e' := by
  induction h generalizing e with
  | refl p d => exact ⟨e, .refl p e, ha⟩
  | head hs _ ih =>
    obtain ⟨e₁, hs₁, ha₁⟩ := hs.refines ha
    obtain ⟨e₂, hs₂, ha₂⟩ := ih ha₁
    exact ⟨e₂, .head hs₁ hs₂, ha₂⟩

/-- **Being stopped between two calls** is being stopped in the middle of the request. -/
theorem CallStops.refines (h : CallStops F p d tr d') (ha : d.Alike e) :
    ∃ e', Stops F p e tr e' ∧ d'.Alike e' := by
  rcases h with ⟨q, hs⟩ | ⟨off, bs, k, answers, m, d₁, tr₁, hs, hans, hr, hcut, rfl⟩
  · obtain ⟨e', hs', ha'⟩ := hs.refines ha
    exact ⟨e', Or.inl ⟨q, hs'⟩, ha'⟩
  · obtain ⟨e₁, hs₁, ha₁⟩ := hs.refines ha
    obtain ⟨hplaced, -, -⟩ := writeAllAt_alike hans (placed_zero _ _ d₁) hr
    rw [ha₁.volatile] at hcut
    exact ⟨_, Or.inr ⟨off, bs, k, m, e₁, tr₁, hs₁, hplaced.le, hcut, rfl, rfl⟩,
      hplaced.alike.trans (ha₁.write _ _)⟩

/-! ### Every request may be carried out call by call -/

/-- A read may be answered at one go; at the end of the file a second call finds
nothing. -/
theorem exists_readAnswers (v : Bytes) (off n : ℕ) : ∃ answers r,
    ReadAnswers (fun w => w = v) n off [] answers ∧ PosIo.readExactAt n [] answers = some r ∧
      r.toOption = readAt v off n := by
  have hend : ∀ bs : Bytes, bs.length ≤ n → Holds v off bs → v.length ≤ off + bs.length →
      ReadAnswers (fun w => w = v) n off bs [.ok []] := fun bs hle hh hlen =>
    ⟨⟨by simpa using hle, v, rfl, holds_nil _ _, fun _ => hlen⟩, trivial⟩
  by_cases hn : n = 0
  · subst hn
    exact ⟨[], _, trivial, rfl, rfl⟩
  have hpos : ([] : Bytes).length < n := Nat.pos_of_ne_zero hn
  have hfront : Holds v off ((v.drop off).take n) := holds_take_drop v off n
  have hlen : ((v.drop off).take n).length = min n (v.length - off) := by
    rw [List.length_take, List.length_drop]
  by_cases hcover : off + n ≤ v.length
  · have hfull : ((v.drop off).take n).length = n := by omega
    have hne : (v.drop off).take n ≠ [] := fun hnil => by
      rw [hnil] at hfull
      exact hn hfull.symm
    refine ⟨[.ok ((v.drop off).take n)], .ok ((v.drop off).take n),
      ⟨⟨by simp [hfull], v, rfl, hfront, fun hnil => absurd hnil hne⟩, trivial⟩, ?_, ?_⟩
    · rw [readExactAt_cons, if_pos hpos]
      obtain ⟨b, bs, hbs⟩ := List.exists_cons_of_ne_nil hne
      rw [hbs] at hfull ⊢
      change PosIo.readExactAt n (b :: bs) [] = _
      rw [PosIo.readExactAt, if_neg (by omega)]
    · rw [readAt, if_neg hn, if_pos hcover]
      rfl
  · have hnone : readAt v off n = none := by rw [readAt, if_neg hn, if_neg hcover]
    rw [hnone]
    cases hbs : (v.drop off).take n with
    | nil =>
      rw [hbs, List.length_nil] at hlen
      refine ⟨[.ok []], .error failedToFill, hend [] (Nat.zero_le _) (holds_nil _ _) ?_, ?_, rfl⟩
      · rw [List.length_nil]
        omega
      · rw [readExactAt_cons, if_pos hpos]
    | cons b bs =>
      rw [hbs] at hfront hlen
      have hlt : (b :: bs).length < n := by omega
      refine ⟨[.ok (b :: bs), .ok []], .error failedToFill, ⟨⟨?_, v, rfl, hfront, ?_⟩,
        hend (b :: bs) hlt.le hfront (by omega)⟩, ?_, rfl⟩
      · rw [List.length_nil, Nat.zero_add]
        exact hlt.le
      · rintro ⟨⟩
      · rw [readExactAt_cons, if_pos hpos]
        change PosIo.readExactAt n (b :: bs) [.ok []] = _
        rw [readExactAt_cons, if_pos hlt]

/-- A write may be taken at one go; a write of no bytes makes no call. -/
theorem exists_writeAnswers {off : ℕ} {bs : Bytes} (hfit : Fits off bs) (d : Disk) :
    ∃ answers d', WriteAnswers bs.length off 0 answers ∧
      PosIo.writeAllAt bs off 0 answers d = (some (.ok ()), bs.length, d') ∧
      (d.write off bs).Alike d' := by
  cases bs with
  | nil => exact ⟨[], d, trivial, rfl, d.alike_write_nil off⟩
  | cons b bs =>
    have hlen : off + (b :: bs).length ≤ maxFileLen := hfit.resolve_left (List.cons_ne_nil _ _)
    have hall : ((b :: bs).drop 0).take (b :: bs).length = b :: bs := List.take_length
    refine ⟨[.ok (b :: bs).length], d.write off (b :: bs), ⟨⟨by omega, Or.inr (by omega)⟩, trivial⟩,
      ?_, .refl _⟩
    have hpos : 0 < (b :: bs).length := Nat.zero_lt_succ _
    rw [writeAllAt_piece hpos hpos, hall, Nat.zero_add, Nat.add_zero]
    exact writeAllAt_done

/-- **One request in which nothing fails** may be carried out call by call. -/
theorem CallStep.of_never (h : Step .never p d tr q d') :
    ∃ e, CallStep F p d tr q e ∧ d'.Alike e := by
  cases h with
  | len k d => exact ⟨d, .len k d, .refl d⟩
  | read off n k d =>
    obtain ⟨answers, r, ha, hr, hread⟩ := exists_readAnswers d.volatile off n
    rw [← hread]
    exact ⟨d, .read k d ha hr, .refl d⟩
  | write k d hfit =>
    obtain ⟨answers, e, ha, hr, halike⟩ := exists_writeAnswers hfit d
    exact ⟨e, .write k d ha hr, halike⟩
  | writeFails k d hn hf => exact hf.elim
  | sync k d => exact ⟨_, .sync k d, .refl _⟩
  | syncFails k d hf => exact hf.elim

/-- **A run in which nothing fails** is one call by call. -/
theorem callSteps_of_never (h : Steps .never p d tr q d') (ha : d.Alike e) :
    ∃ e', CallSteps F p e tr q e' ∧ d'.Alike e' := by
  induction h generalizing e with
  | refl p d => exact ⟨e, .refl p e, ha⟩
  | head hs _ ih =>
    obtain ⟨e₁, hs₁, ha₁⟩ := hs.alike ha
    obtain ⟨e₂, hs₂, ha₂⟩ := CallStep.of_never hs₁
    obtain ⟨e', hs', ha'⟩ := ih (ha₁.trans ha₂)
    exact ⟨e', .head hs₂ hs', ha'⟩

/-- The same of a run to the end. -/
theorem callRuns_of_exec (h : p.exec d = some (a, d')) (ha : d.Alike e) :
    ∃ tr e', CallRuns F p e tr a e' ∧ d'.Alike e' := by
  obtain ⟨tr, hr⟩ := runs_of_exec (F := .never) h
  obtain ⟨e', hr', ha'⟩ := callSteps_of_never hr ha
  exact ⟨tr, e', hr', ha'⟩

end Refines

/-! ### Histories, call by call -/

/-- **Worlds that cannot be told apart.** -/
structure World.Alike (w u : World) : Prop where
  /-- Their files cannot. -/
  disk : w.disk.Alike u.disk
  /-- The same handle is open. -/
  handle : w.handle = u.handle
  /-- The same commits have been issued. -/
  commits : w.commits = u.commits

/-- **One step of a history, call by call.** -/
inductive World.CallStep [Bson] (R : Regime) : World → World → Prop
  /-- The file is opened. -/
  | opens {d d' : Disk} {cs : List Issued} {tr : Trace} {e : StorageEngine}
      (hr : CallRuns R.faults openFile.run d tr (.ok e) d') :
      CallStep R ⟨d, none, cs⟩ ⟨d', some e, cs⟩
  /-- Opening fails. -/
  | openFails {d d' : Disk} {cs : List Issued} {tr : Trace} {err : CndbError}
      (hr : CallRuns R.faults openFile.run d tr (.error err) d') :
      CallStep R ⟨d, none, cs⟩ ⟨d', none, cs⟩
  /-- The process is killed while opening. -/
  | openKilled {d d' : Disk} {cs : List Issued} {tr : Trace} (hk : R.kill)
      (hs : CallStops R.faults openFile.run d tr d') : CallStep R ⟨d, none, cs⟩ ⟨d', none, cs⟩
  /-- A request is made and answered. -/
  | serve {d d' : Disk} {cs : List Issued} {tr : Trace} {e e' : StorageEngine} {op : Op}
      {r : Except CndbError Reply} (hop : op.Allowed R.kinds)
      (hr : CallRuns R.faults (op.prog e) d tr (r, e') d') :
      CallStep R ⟨d, some e, cs⟩ ⟨d', some e', issued (e.docState d.volatile) r.isOk tr ++ cs⟩
  /-- The handle is dropped. -/
  | drop {d : Disk} {cs : List Issued} {e : StorageEngine} :
      CallStep R ⟨d, some e, cs⟩ ⟨d, none, cs⟩
  /-- The process is killed in the middle of a request. -/
  | kill {d d' : Disk} {cs : List Issued} {tr : Trace} {e : StorageEngine} {op : Op}
      (hk : R.kill) (hop : op.Allowed R.kinds) (hs : CallStops R.faults (op.prog e) d tr d') :
      CallStep R ⟨d, some e, cs⟩ ⟨d', none, issued (e.docState d.volatile) false tr ++ cs⟩
  /-- The power is lost. -/
  | powerLoss {d : Disk} {img : Bytes} {cs : List Issued} {handle : Option StorageEngine}
      (hp : R.powerLoss) (hc : d.Crash img) (ht : TornHeaders d img) :
      CallStep R ⟨d, handle, cs⟩ ⟨.ofImage img, none, cs⟩
  /-- A header slot is lost between two sessions, and the other one decodes. -/
  | slotLoss {d : Disk} {cs : List Issued} {s : Slot} {junk : Bytes} (hs : R.slotLoss)
      (hregion : 128 ≤ d.volatile.length) (hother : (decodedSlots d.volatile s.other).isSome)
      (hlen : junk.length = 64)
      (hjunk : decodedSlots (writeAt d.volatile (64 * s) junk) s = none) :
      CallStep R ⟨d, none, cs⟩ ⟨.ofImage (writeAt d.volatile (64 * s) junk), none, cs⟩

section Histories

variable [Bson] {R : Regime} {w w' u : World}

/-- **One step, call by call, is a step**, on worlds that are alike. -/
theorem World.CallStep.refines (h : World.CallStep R w w') (ha : w.Alike u) :
    ∃ u', World.Step R u u' ∧ w'.Alike u' := by
  obtain ⟨d, handle, cs⟩ := u
  obtain ⟨hdisk, hhandle, hcommits⟩ := ha
  simp only at hdisk hhandle hcommits
  subst hhandle hcommits
  cases h with
  | opens hr =>
    obtain ⟨e', hs, ha'⟩ := hr.refines hdisk
    exact ⟨_, .opens hs, ha', rfl, rfl⟩
  | openFails hr =>
    obtain ⟨e', hs, ha'⟩ := hr.refines hdisk
    exact ⟨_, .openFails hs, ha', rfl, rfl⟩
  | openKilled hk hs =>
    obtain ⟨e', hs', ha'⟩ := hs.refines hdisk
    exact ⟨_, .openKilled hk hs', ha', rfl, rfl⟩
  | serve hop hr =>
    obtain ⟨e', hs, ha'⟩ := hr.refines hdisk
    refine ⟨_, .serve hop hs, ha', rfl, ?_⟩
    simp only
    rw [hdisk.volatile]
  | drop => exact ⟨_, .drop, hdisk, rfl, rfl⟩
  | kill hk hop hs =>
    obtain ⟨e', hs', ha'⟩ := hs.refines hdisk
    refine ⟨_, .kill hk hop hs', ha', rfl, ?_⟩
    simp only
    rw [hdisk.volatile]
  | powerLoss hp hc ht =>
    refine ⟨_, .powerLoss hp (hdisk.crash hc) ?_, .refl _, rfl, rfl⟩
    rw [TornHeaders, hdisk.durable, hdisk.volatile] at ht
    exact ht
  | slotLoss hs hregion hother hlen hjunk =>
    rw [hdisk.volatile] at hregion hother hjunk ⊢
    exact ⟨_, .slotLoss hs hregion hother hlen hjunk, .refl _, rfl, rfl⟩

/-- **Any number of steps.** -/
theorem World.CallStep.steps_refine (h : Relation.ReflTransGen (World.CallStep R) w w')
    (ha : w.Alike u) : ∃ u', Relation.ReflTransGen (World.Step R) u u' ∧ w'.Alike u' := by
  induction h with
  | refl => exact ⟨u, .refl, ha⟩
  | tail _ hs ih =>
    obtain ⟨u₁, hsteps, ha₁⟩ := ih
    obtain ⟨u', hs', ha'⟩ := hs.refines ha₁
    exact ⟨u', hsteps.tail hs', ha'⟩

/-- **Requests in which nothing fails** may be carried out call by call. -/
theorem EngineRun.calls {x y : StorageEngine × Disk} {d : Disk}
    {tr : List (Request × Except CndbError Reply)} (h : EngineRun x tr y)
    (hall : ∀ q ∈ tr, q.1.Allowed R.kinds) (ha : x.2.Alike d) (cs : List Issued) :
    ∃ d' cs', Relation.ReflTransGen (World.CallStep R) ⟨d, some x.1, cs⟩ ⟨d', some y.1, cs'⟩ ∧
      y.2.Alike d' := by
  induction h generalizing d cs with
  | nil => exact ⟨d, cs, .refl, ha⟩
  | cons hstep _ ih =>
    obtain ⟨hq, hrest⟩ := List.forall_mem_cons.mp hall
    cases hstep with
    | op hx =>
      obtain ⟨tr, d₁, hr, ha₁⟩ := callRuns_of_exec hx ha
      obtain ⟨d', cs', hsteps, ha'⟩ := ih hrest ha₁ _
      exact ⟨d', cs', .head (.serve hq hr) hsteps, ha'⟩
    | reopen hx =>
      obtain ⟨tr, d₁, hr, ha₁⟩ := callRuns_of_exec hx ha
      obtain ⟨d', cs', hsteps, ha'⟩ := ih hrest ha₁ _
      exact ⟨d', cs', .head .drop (.head (.opens hr) hsteps), ha'⟩

/-- **A new database** may be created call by call. -/
theorem create_by_calls (R : Regime) : ∃ d, World.CallStep R .new ⟨d, some created, []⟩ ∧
    newStore.2.Alike d := by
  obtain ⟨tr, d, hr, ha⟩ := callRuns_of_exec (F := R.faults) openFile_exec_new (.refl _)
  exact ⟨d, .opens hr, ha⟩

end Histories

/-! ### An append, call by call -/

/-- **Everything at once**: requests fail, processes are killed, and the power is lost. -/
def hardships : Regime where
  faults := { write := TornSafe, sync := True, cut := TornSafe }
  kill := True
  powerLoss := True
  slotLoss := True
  kinds _ := True

/-- **An append is two writes**, of the frame and of the payload. -/
theorem append_prog [Bson] {e : StorageEngine} {kind : RecordKind} {payload : Bytes}
    (hlen : payload.length ≤ maxRecordLen.toNat) :
    (Op.append kind payload).prog e = .write e.endOffset.toNat (encodeFrame kind payload) fun
      | true => .write (e.endOffset + recordHeaderSize).toNat payload fun
        | true => .ret (.ok (.id e.index.allocateId.1),
            (e.appended payload.length).inserted e.endOffset)
        | false => .ret (.error (.io .fault), e)
      | false => .ret (.error (.io .fault), e) := by
  rw [Op.prog, EngineM.reply, append_run, appendRaw_run, if_neg (Nat.not_lt_of_le hlen)]
  refine congrArg (Prog.write _ _) (funext fun b => ?_)
  cases b with
  | false => rfl
  | true =>
    refine congrArg (Prog.write _ _) (funext fun b => ?_)
    cases b <;> rfl

/-- A write to the log may be cut short anywhere. -/
theorem tornSafe_log {v bs : Bytes} {off n : ℕ} (hoff : 128 ≤ off) : TornSafe v off bs n := by
  intro s h hs
  have hle := slot_le s
  omega

section Appends

variable [Bson] {e : StorageEngine} {kind : RecordKind} {payload : Bytes} {m : ℕ}

/-- **An append may fail** when a part of its frame has been placed. -/
theorem append_calls_fail (hlen : payload.length ≤ maxRecordLen.toNat) (hm : 0 < m) (hm' : m < 9)
    (hoff : 128 ≤ e.endOffset.toNat) (hfit : e.endOffset.toNat + 9 ≤ maxFileLen) (d : Disk) :
    CallRuns hardships.faults ((Op.append kind payload).prog e) d
      [⟨e.endOffset.toNat, encodeFrame kind payload, m⟩] (.error (.io .fault), e)
      (d.write e.endOffset.toNat ((encodeFrame kind payload).take m)) := by
  have hframe := length_encodeFrame kind payload
  have hans : WriteAnswers (encodeFrame kind payload).length e.endOffset.toNat 0
      [.ok m, .error ⟨.other, "no space left on device"⟩] := by
    rw [hframe]
    exact ⟨⟨by omega, Or.inr (by omega)⟩, trivial⟩
  have hcalls : PosIo.writeAllAt (encodeFrame kind payload) e.endOffset.toNat 0
      [.ok m, .error ⟨.other, "no space left on device"⟩] d =
      (some (.error ⟨.other, "no space left on device"⟩), m,
        d.write e.endOffset.toNat ((encodeFrame kind payload).take m)) := by
    rw [writeAllAt_piece (by omega) hm, writeAllAt_error (by omega), if_neg (by decide),
      Nat.zero_add, Nat.add_zero, List.drop_zero]
  rw [append_prog hlen]
  exact .head (.writeFails _ d hans hcalls (tornSafe_log hoff)) (.refl _ _)

/-- **The frame of an append may be written in two calls**, and one between them be
interrupted. -/
theorem append_calls_split (hlen : payload.length ≤ maxRecordLen.toNat) (hne : payload ≠ [])
    (hm : 0 < m) (hm' : m < 9) (hfit : e.endOffset.toNat + (9 + payload.length) ≤ maxFileLen)
    (d : Disk) :
    CallRuns hardships.faults ((Op.append kind payload).prog e) d
      [⟨e.endOffset.toNat, encodeFrame kind payload, 9⟩,
        ⟨e.endOffset.toNat + 9, payload, payload.length⟩]
      (.ok (.id e.index.allocateId.1), (e.appended payload.length).inserted e.endOffset)
      (((d.write e.endOffset.toNat ((encodeFrame kind payload).take m)).write
        (e.endOffset.toNat + m) ((encodeFrame kind payload).drop m)).write
        (e.endOffset.toNat + 9) payload) := by
  have hframe := length_encodeFrame kind payload
  have hpos := List.length_pos_of_ne_nil hne
  have hend := @add_recordHeaderSize_toNat e.endOffset (by omega)
  have hans : WriteAnswers (encodeFrame kind payload).length e.endOffset.toNat 0
      [.ok m, .error ⟨.interrupted, "interrupted system call"⟩, .ok (9 - m)] := by
    rw [hframe]
    exact ⟨⟨by omega, Or.inr (by omega)⟩, ⟨by omega, Or.inr (by omega)⟩, trivial⟩
  have hcalls : PosIo.writeAllAt (encodeFrame kind payload) e.endOffset.toNat 0
      [.ok m, .error ⟨.interrupted, "interrupted system call"⟩, .ok (9 - m)] d =
      (some (.ok ()), 9, (d.write e.endOffset.toNat ((encodeFrame kind payload).take m)).write
        (e.endOffset.toNat + m) ((encodeFrame kind payload).drop m)) := by
    have hrest : ((encodeFrame kind payload).drop m).take (9 - m) =
        (encodeFrame kind payload).drop m :=
      List.take_of_length_le (by rw [List.length_drop]; omega)
    have hall : 0 + m + (9 - m) = (encodeFrame kind payload).length := by omega
    rw [writeAllAt_piece (by omega) hm, writeAllAt_error (by omega), if_pos rfl,
      writeAllAt_piece (by omega) (by omega), hall, writeAllAt_done, hframe, Nat.zero_add,
      Nat.add_zero, List.drop_zero, hrest]
  have hans' : WriteAnswers payload.length (e.endOffset.toNat + 9) 0 [.ok payload.length] :=
    ⟨⟨by omega, Or.inr (by omega)⟩, trivial⟩
  have hcalls' (d : Disk) : PosIo.writeAllAt payload (e.endOffset.toNat + 9) 0
      [.ok payload.length] d =
        (some (.ok ()), payload.length, d.write (e.endOffset.toNat + 9) payload) := by
    rw [writeAllAt_piece hpos hpos, Nat.zero_add, writeAllAt_done, Nat.add_zero, List.drop_zero,
      List.take_length]
  rw [append_prog hlen, hend]
  exact .head (.write _ d hans hcalls) (.head (.write _ _ hans' (hcalls' _)) (.refl _ _))

/-- **An append may be killed** when a part of its frame has been placed. -/
theorem append_calls_stop (hlen : payload.length ≤ maxRecordLen.toNat) (hm : 0 < m) (hm' : m < 9)
    (hoff : 128 ≤ e.endOffset.toNat) (hfit : e.endOffset.toNat + 9 ≤ maxFileLen) (d : Disk) :
    CallStops hardships.faults ((Op.append kind payload).prog e) d
      [⟨e.endOffset.toNat, encodeFrame kind payload, m⟩]
      (d.write e.endOffset.toNat ((encodeFrame kind payload).take m)) := by
  have hframe := length_encodeFrame kind payload
  have hans : WriteAnswers (encodeFrame kind payload).length e.endOffset.toNat 0 [.ok m] := by
    rw [hframe]
    exact ⟨⟨by omega, Or.inr (by omega)⟩, trivial⟩
  have hcalls : PosIo.writeAllAt (encodeFrame kind payload) e.endOffset.toNat 0 [.ok m] d =
      (none, m, d.write e.endOffset.toNat ((encodeFrame kind payload).take m)) := by
    rw [writeAllAt_piece (by omega) hm, writeAllAt_waits (by omega), Nat.zero_add, Nat.add_zero,
      List.drop_zero]
  rw [append_prog hlen]
  exact Or.inr ⟨_, _, _, _, m, d, [], .refl _ _, hans, hcalls, tornSafe_log hoff, rfl⟩

end Appends

/-! ### What holds of all histories of calls -/

/-- **Histories of calls are histories of requests.** Whatever a history whose requests
are carried out call by call leads to – files, the open handle, the commits that were
issued – a history of requests leads to as well, but for the way the unsynced bytes are
divided into writes. -/
theorem calls_refine_requests [Bson] {R : Regime} {w : World}
    (hw : Relation.ReflTransGen (World.CallStep R) .new w) :
    ∃ u, Reachable R u ∧ w.Alike u :=
  World.CallStep.steps_refine hw ⟨.refl _, rfl, rfl⟩

/-- A first append fails when four bytes of its frame have been placed. The frame of the
second one is written in two calls, with an interruption in between. A third one is
killed after two bytes of its frame. -/
theorem calls_refine_requests_interrupted :
    letI := emptyDocuments
    ∃ d d₁ d₂ d₃ u, World.CallStep hardships .new ⟨d, some created, []⟩ ∧ newStore.2.Alike d ∧
      d₁ = d.write 128 ((encodeFrame .blob [7]).take 4) ∧
      World.CallStep hardships ⟨d, some created, []⟩ ⟨d₁, some created, []⟩ ∧
      d₂ = ((d₁.write 128 ((encodeFrame .blob [7]).take 4)).write 132
        ((encodeFrame .blob [7]).drop 4)).write 137 [7] ∧
      World.CallStep hardships ⟨d₁, some created, []⟩ ⟨d₂, some firstAppended, []⟩ ∧
      d₃ = d₂.write 138 ((encodeFrame .blob [8]).take 2) ∧
      World.CallStep hardships ⟨d₂, some firstAppended, []⟩ ⟨d₃, none, []⟩ ∧
      Reachable hardships u ∧ d₃.Alike u.disk ∧ u.handle = none := by
  let _ := emptyDocuments
  obtain ⟨d, hcreate, hnew⟩ := create_by_calls hardships
  have hop (b : UInt8) : (Op.append .blob [b]).Allowed hardships.kinds := trivial
  have hfails : World.CallStep hardships ⟨d, some created, []⟩
      ⟨d.write 128 ((encodeFrame .blob [7]).take 4), some created, []⟩ :=
    .serve (hop 7) (append_calls_fail (by decide) (by decide) (by decide) (by decide) (by decide) d)
  have hruns : World.CallStep hardships
      ⟨d.write 128 ((encodeFrame .blob [7]).take 4), some created, []⟩
      ⟨(((d.write 128 ((encodeFrame .blob [7]).take 4)).write 128
        ((encodeFrame .blob [7]).take 4)).write 132 ((encodeFrame .blob [7]).drop 4)).write 137 [7],
        some firstAppended, []⟩ :=
    .serve (hop 7)
      (append_calls_split (by decide) (by decide) (by decide) (by decide) (by decide) _)
  have hkill (d : Disk) : World.CallStep hardships ⟨d, some firstAppended, []⟩
      ⟨d.write 138 ((encodeFrame .blob [8]).take 2), none, []⟩ :=
    .kill trivial (hop 8)
      (append_calls_stop (by decide) (by decide) (by decide) (by decide) (by decide) d)
  obtain ⟨u, hu, ha⟩ := calls_refine_requests
    ((((Relation.ReflTransGen.single hcreate).tail hfails).tail hruns).tail (hkill _))
  exact ⟨d, _, _, _, u, hcreate, hnew, rfl, hfails, rfl, hruns, rfl, hkill _, hu, ha.disk,
    ha.handle.symm⟩

/-- **Crash atomicity, call by call.** After a successful creation, in any history of
sessions that are dropped, killed between any two calls or lose power, opening the file
call by call returns, and whatever its calls are answered it returns one and the same
handle. This shows what the last commit captured that did work and returned `Ok`, or
what a later commit captured whose header stands in the file. And every commit is
counted that has something to commit and returns `Ok`. -/
theorem crash_atomicity_by_calls [Bson] {w : World} {d : Disk} {e : StorageEngine}
    {cs : List Issued} (hcreate : World.CallStep crashes .new ⟨d, some e, cs⟩)
    (hw : Relation.ReflTransGen (World.CallStep crashes) ⟨d, some e, cs⟩ w) :
    (∃ e', (∃ tr d', CallRuns .never openFile.run w.disk tr (.ok e') d') ∧
      (∀ F tr x d', CallRuns F openFile.run w.disk tr x d' → x = .ok e' ∧ d'.Alike w.disk) ∧
      Recovers w.disk.volatile (e'.docState w.disk.volatile) w.commits) ∧
    ∀ e₁, w.handle = some e₁ → ∀ (op : Op) tr r e₂ d₂,
      CallRuns killedProcess (op.prog e₁) w.disk tr (r, e₂) d₂ → r.isOk = true →
      issued (e₁.docState w.disk.volatile) true tr =
        op.counted e₁ (e₁.docState w.disk.volatile) := by
  obtain ⟨⟨d₁, handle₁, cs₁⟩, hcreate', ha₁⟩ := hcreate.refines ⟨.refl _, rfl, rfl⟩
  obtain ⟨-, hhandle, hcommits⟩ := id ha₁
  simp only at hhandle hcommits
  subst hhandle hcommits
  obtain ⟨⟨d₂, handle₂, cs₂⟩, hsteps, ha₂⟩ := World.CallStep.steps_refine hw ha₁
  obtain ⟨hdisk, hhandle, hcommits⟩ := ha₂
  simp only at hdisk hhandle hcommits
  have hguarded := (guarded_of_create hcreate').steps hsteps
  refine ⟨?_, fun e₁ he op tr r e₂ d₃ hr hok => ?_⟩
  · obtain ⟨s, h, l, hl, hworthy⟩ := hguarded.recovers
    refine ⟨opened (decodedSlots d₂.volatile) s h l, ?_, fun F tr x d' hr => ?_, ?_⟩
    · obtain ⟨tr, e', hr', -⟩ := callRuns_of_exec hl.open_exec hdisk.symm
      exact ⟨tr, e', hr'⟩
    · obtain ⟨e', hr', ha'⟩ := hr.refines hdisk
      obtain ⟨rfl, rfl⟩ := opens_live hl hr'
      exact ⟨rfl, ha'.trans hdisk.symm⟩
    · rw [hdisk.volatile, hcommits, hl.docState]
      exact hworthy.attested.recovers hl.slot
  · obtain ⟨e', hr', -⟩ := hr.refines hdisk
    rw [he] at hhandle
    subst hhandle
    cases hguarded with
    | session hs => exact issued_of_ok hs.handle hs.backed hr' hok _

/-- A small database is committed call by call, and another document is appended. The
power is lost, and with it the document: what opening shows is what the commit captured. -/
theorem crash_atomicity_by_calls_committed :
    letI := emptyDocuments
    ∃ d d₁ d₂ tr₁ tr₂ e', CallRuns killedProcess ((Op.commit .listed).prog firstBuried) d tr₁
        (.ok .done, smallCommitted) d₁ ∧
      CallRuns killedProcess ((Op.append .blob [9]).prog smallCommitted) d₁ tr₂
        (.ok (.id ⟨3⟩), thirdAppended) d₂ ∧
      (thirdAppended.docState d₂.volatile).records ⟨3⟩ = .ok ⟨.blob, [9]⟩ ∧ d₂.Crash d₂.durable ∧
      (∃ tr d', CallRuns .never openFile.run (.ofImage d₂.durable) tr (.ok e') d') ∧
      e'.docState d₂.durable = firstBuried.docState d.volatile ∧
      (e'.docState d₂.durable).records ⟨1⟩ = .error (.deleted ⟨1⟩) ∧
      (e'.docState d₂.durable).records ⟨2⟩ = .ok ⟨.blob, [8]⟩ ∧
      (e'.docState d₂.durable).records ⟨3⟩ = .error (.notFound ⟨3⟩) := by
  let _ := emptyDocuments
  obtain ⟨d₀, hcreate, hnew⟩ := create_by_calls crashes
  -- the history by requests, and the disks it leaves call by call
  obtain ⟨x, hrun, hs, hlen⟩ := small_run
  obtain ⟨x₁, hcommit, hs₁, -⟩ := small_commit hs hlen
  obtain ⟨x₂, happend, hs₂⟩ := third_append hs₁
  obtain ⟨d, cs, hsteps, ha⟩ := hrun.calls (R := crashes) (by
    simp only [List.forall_mem_cons]
    exact ⟨trivial, trivial, trivial, nofun⟩) hnew []
  obtain ⟨tr₁, d₁, hr₁, ha₁⟩ := callRuns_of_exec (F := killedProcess) hcommit ha
  obtain ⟨tr₂, d₂, hr₂, ha₂⟩ := callRuns_of_exec (F := killedProcess) happend ha₁
  have hsteps₁ := hsteps.tail (.serve (show Op.Allowed _ (.commit .listed) from trivial) hr₁)
  have hsteps₂ := hsteps₁.tail (.serve (show Op.Allowed _ (.append .blob [9]) from trivial) hr₂)
  have hloss := hsteps₂.tail (.powerLoss trivial d₂.crash_durable fun _ _ _ => Or.inl rfl)
  have hcounted₁ := (crash_atomicity_by_calls hcreate hsteps).2 _ rfl _ _ _ _ _ hr₁ rfl
  have hcounted₂ := (crash_atomicity_by_calls hcreate hsteps₁).2 _ rfl _ _ _ _ _ hr₂ rfl
  obtain ⟨⟨e', hopen, -, hrec⟩, -⟩ := crash_atomicity_by_calls hcreate hloss
  have hstate : e'.docState d₂.durable = firstBuried.docState d.volatile := by
    change Recovers _ _ (issued _ true tr₂ ++ (issued _ true tr₁ ++ cs)) at hrec
    rw [hcounted₂, hcounted₁] at hrec
    rcases hrec with ⟨hst, -⟩ | ⟨hok, -⟩
    · exact hst
    · cases hok
  refine ⟨d, d₁, d₂, tr₁, tr₂, e', hr₁, hr₂, ?_, d₂.crash_durable, hopen, hstate, ?_⟩
  · rw [← ha₂.volatile, hs₂.docState, tableOf_snoc, tableOf_smallCommittedLog]
    rfl
  · rw [hstate, ← ha.volatile, hs.docState]
    exact find_small

end ContextDb
