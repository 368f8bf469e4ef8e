import ContextDb.History

/-!
# Crashes

The process may be killed between any two requests to the file and inside any
write, and the power may be lost at any time; nothing else fails. What must
survive is told twice: in terms of the commits of the history
(`ContextDb.Attested`), and in terms of a *base* (`ContextDb.Beyond`) – a header
and its log which no recovery may fall behind. The first is crash atomicity. The
second is what makes an `Ok` from commit mean durable.

One invariant carries both (`ContextDb.Guarded`): the live log and the log a loss
of power would fall back to are both worth recovering. It also follows a creation
that has not been synced. There is nothing to fall back to then, and losing the
power may leave a file that is too short to be a database, or without a readable
header.
-/

namespace ContextDb

open ByteFile FileProg Prog StorageEngine

/-- **Histories with crashes**: the process may be killed and the power may be
lost. Nothing fails but a write that does not fit in a file. -/
def crashes : Regime where
  faults := killedProcess
  kill := True
  powerLoss := True
  slotLoss := False
  kinds _ := True

/-! ### What is worth recovering -/

/-- **A log that does not fall behind a base**: it extends the log of the base,
and is equal to it or of a later generation. -/
def Beyond : Option (Header × Log) → Header → Log → Prop
  | none, _, _ => True
  | some (H, L), h, l => L <+: l ∧
      ((h = H ∧ l = L) ∨ H.generation.toNat < h.generation.toNat)

/-- **A log worth recovering**: the commits account for it, and it does not fall
behind the base. -/
structure Worthy (base : Option (Header × Log)) (cs : List Issued) (s : Slot) (h : Header)
    (l : Log) : Prop where
  /-- The commits account for its state. -/
  attested : Attested (tableOf l).state s h.encode cs
  /-- It does not fall behind the base. -/
  beyond : Beyond base h l

/-- **What a loss of power would fall back to**: an anchored log, or, if a
creation has not been synced, nothing. -/
inductive Rooted (base : Option (Header × Log)) (cs : List Issued) (d : Disk) (l : Log) : Prop
  /-- The disk is anchored. -/
  | anchored {s₀ : Slot} {h₀ : Header} {l₀ : Log} (ha : Anchored d s₀ h₀ l₀ l)
      (hw : Worthy base cs s₀ h₀ l₀) : Rooted base cs d l
  /-- The creation has not been synced. -/
  | fresh (hb : base = none) (hcs : cs = []) (hd : d.durable = []) (hl : l = []) :
      Rooted base cs d l

/-- **A guarded world**: what is live, and what a loss of power would fall back
to, is worth recovering. Without a base a creation may have been undone, or have
become unreadable. -/
inductive Guarded (base : Option (Header × Log)) : World → Prop
  /-- A handle is open. -/
  | session {d : Disk} {cs : List Issued} {e : StorageEngine} {l log : Log}
      (hs : Settled e d.volatile l log) (hw : Worthy base cs e.liveSlot e.header l)
      (hr : Rooted base cs d l) : Guarded base ⟨d, some e, cs⟩
  /-- The file is at rest. -/
  | rest {d : Disk} {cs : List Issued} {s : Slot} {h : Header} {l : Log}
      (hl : Live d.volatile s h l) (hw : Worthy base cs s h l) (hr : Rooted base cs d l) :
      Guarded base ⟨d, none, cs⟩
  /-- The file has not been created. -/
  | unborn {d : Disk} (hb : base = none) (hu : Unborn d.volatile) : Guarded base ⟨d, none, []⟩
  /-- The creation has become unreadable. -/
  | broken {d : Disk} (hb : base = none) (hs : d.unsynced = []) (hlen : 128 ≤ d.volatile.length)
      (hbad : ∀ t, decodedSlots d.volatile t = none) : Guarded base ⟨d, none, []⟩

section Worthy

variable {base : Option (Header × Log)} {cs : List Issued} {s : Slot} {h : Header} {l : Log}

/-- The empty database is worth recovering while there is no base. -/
theorem worthy_new : Worthy none [] s .initial [] := ⟨attested_new _ _, trivial⟩

/-- A commit that has not returned `Ok` takes nothing away. -/
theorem Worthy.cons (hw : Worthy base cs s h l) {c : Issued} (hc : c.ok = false) :
    Worthy base (c :: cs) s h l :=
  ⟨Or.inr ⟨hc, hw.attested⟩, hw.beyond⟩

/-- **The log of a commit is worth recovering** once its header is issued. -/
theorem Worthy.commit {e : StorageEngine} {log : Log} {v : Bytes} (hw : Worthy base cs s e.header l)
    (hs : Settled e v l log) (order : IterOrder) (ok : Bool) :
    Worthy base (⟨e.docState v, 64 * commitSlot e, (commitHeaderOf e order).encode, ok⟩ :: cs)
      (commitSlot e) (commitHeaderOf e order) (commitLog e order log) := by
  refine ⟨Or.inl ⟨?_, Or.inr ⟨rfl, rfl⟩⟩, ?_⟩
  · rw [tableOf_commitLog, hs.docState]
  · have hgen := hs.handle.generation_succ order
    cases base with
    | none => trivial
    | some B =>
      obtain ⟨hp, hcase⟩ := hw.beyond
      refine ⟨hp.trans (hs.handle.committed.trans (prefix_commitLog e order log)), Or.inr ?_⟩
      rcases hcase with ⟨heq, -⟩ | hlt
      · rw [hgen, heq]
        exact Nat.lt_succ_self _
      · omega

end Worthy

/-! ### Requests keep the guard -/

section Requests

variable {base : Option (Header × Log)} {F : Faults} {cs : List Issued} {e e' : StorageEngine}
  {s : Slot} {h : Header} {l log : Log} {d d' d₁ : Disk} {tr : Trace} {order : IterOrder} {n : ℕ}

/-- With nothing unsynced, the live log is what a loss of power falls back to. -/
theorem Rooted.of_synced (hl : Live d.volatile s h l) (hw : Worthy base cs s h l)
    (hs : d.unsynced = []) : Rooted base cs d l :=
  .anchored (.of_synced hl hs) hw

/-- **Writes behind the live log**, and syncs. -/
theorem Rooted.grow (hr : Rooted base cs d l) (hl : Live d.volatile s h l)
    (hw : Worthy base cs s h l) (hg : Disk.Grows (tail l) d d') : Rooted base cs d' l := by
  induction hg with
  | refl => exact hr
  | write off bs _ ho ih =>
    cases ih with
    | anchored ha hw₀ => exact .anchored (ha.write ho bs) hw₀
    | fresh hb hcs hd hnil => exact .fresh hb hcs hd hnil
  | sync hg _ => exact .of_synced (hl.grow hg.sync) hw rfl

/-- Behind a settled handle only the log has been written. -/
theorem Rooted.grow_log (hr : Rooted base cs d l) (hs : Settled e d.volatile l log)
    (hw : Worthy base cs e.liveSlot e.header l) (hg : Disk.Grows (tail log) d d') :
    Rooted base cs d' l :=
  hr.grow hs.live hw (hg.mono (tail_le_of_isPrefix hs.handle.committed))

/-- **The header of a commit is on its way**: the committed log is live still,
or the log of the commit is. -/
theorem live_writing (hs : Settled e d.volatile l log) (hp : Prepared e order d tr d₁)
    (hn : n ≤ 64) (hsafe : n = 64 ∨
      TornSafe d₁.volatile (64 * commitSlot e) (commitHeaderOf e order).encode n) :
    let d' := d₁.write (64 * commitSlot e) ((commitHeaderOf e order).encode.take n)
    Live d'.volatile e.liveSlot e.header l ∨
      Live d'.volatile (commitSlot e) (commitHeaderOf e order) (commitLog e order log) := by
  have hh := hs.handle
  have hb := backed_writing hh hs.backed hp hn hsafe
  have hv := (hh.append_master hp.length_le hp.fits).valid
  have hpre := hh.committed.trans (prefix_commitLog e order log)
  rw [Disk.volatile_write, hh.victim] at hb
  simp only [Disk.volatile_write]
  rw [hh.victim] at hsafe ⊢
  by_cases hnew : slotBytes (writeAt d₁.volatile (64 * (e.liveSlot.other : ℕ))
      ((commitHeaderOf e order).encode.take n)) e.liveSlot.other = (commitHeaderOf e order).encode
  · refine Or.inr ⟨hb.length_le, hnew, hh.describes_next hp.length_le hp.fits, hv, hb.holds,
      fun h' hh' => ?_⟩
    rw [Slot.other_other] at hh' ⊢
    rw [decodedSlots_of_encode hb.slot] at hh'
    cases hh'
    have hgen := hh.generation_succ order
    exact ⟨hb.slot, by omega, l, hh.describes, hpre, hh.ne_snoc _⟩
  · refine Or.inl (hb.live_of_older hv hh.describes hpre fun h' hh' => ?_)
    rcases slotBytes_cut hsafe hh' with hold | hnew'
    · rw [decodedSlots_congr hold] at hh'
      have hg := hp.grows.2
      rw [hh.endOffset] at hg
      exact (hs.grow hg).older h' hh'
    · exact absurd hnew' hnew

/-- **The header of a commit is on its way**, and what is live is worth
recovering, before and after a loss of power. -/
theorem Guarded.writing (hs : Settled e d.volatile l log)
    (hw : Worthy base cs e.liveSlot e.header l) (hp : Prepared e order d tr d₁) (hn : n ≤ 64)
    (hsafe : n = 64 ∨
      TornSafe d₁.volatile (64 * commitSlot e) (commitHeaderOf e order).encode n) :
    Guarded base ⟨d₁.write (64 * commitSlot e) ((commitHeaderOf e order).encode.take n), none,
      ⟨e.docState d.volatile, 64 * commitSlot e, (commitHeaderOf e order).encode, false⟩ ::
        cs⟩ := by
  have hb₁ := backed_prepared hs.handle hs.backed hp
  have hg := hp.grows.2
  rw [hs.handle.endOffset] at hg
  have hl₁ : Live d₁.volatile e.liveSlot e.header l := (hs.grow hg).live
  have hpre := hs.handle.committed.trans (prefix_commitLog e order log)
  have hlen : ((commitHeaderOf e order).encode.take n).length ≤ 64 := by
    rw [List.length_take]
    omega
  have hold : ∀ l', l <+: l' → l' <+: commitLog e order log → Anchored
      (d₁.write (64 * commitSlot e) ((commitHeaderOf e order).encode.take n)) e.liveSlot e.header
      l l' := by
    intro l' hl' hl''
    rw [hs.handle.victim]
    exact .writing hl₁ hp.synced hl' (holds_logBytes_of_isPrefix hb₁.holds hl'') hlen
  rcases live_writing hs hp hn hsafe with hl | hl
  · exact .rest hl (hw.cons rfl) (.anchored (hold l (List.prefix_refl l) hpre) (hw.cons rfl))
  · exact .rest hl (hw.commit hs order false)
      (.anchored (hold _ hpre (List.prefix_refl _)) (hw.cons rfl))

/-- **Wherever a commit is killed**, the world is guarded. -/
theorem CommitPoint.guarded (hF : Detected F) (hs : Settled e d.volatile l log)
    (hw : Worthy base cs e.liveSlot e.header l) (hr : Rooted base cs d l)
    (hp : CommitPoint F e order d tr d') :
    Guarded base ⟨d', none, issued (e.docState d.volatile) false tr ++ cs⟩ := by
  cases hp with
  | logging hg =>
    rw [issued_logOnly hg.1]
    rw [hs.handle.endOffset] at hg
    exact .rest (hs.grow hg.2).live hw (hr.grow_log hs hw hg.2)
  | writing hp hn hcut =>
    rw [issued_snoc hp.grows.1]
    exact .writing hs hw hp hn (hcut.imp_right (tornSafe_commit hF))
  | synced hp =>
    rw [issued_snoc hp.grows.1]
    have hl := (hs.publish hp).live
    exact .rest hl (hw.commit hs order false) (.of_synced hl (hw.commit hs order false) rfl)

/-- **Every request keeps the guard**, if it is not killed. -/
theorem serve_guarded [Bson] (hF : Steady F) (hs : Settled e d.volatile l log)
    (hw : Worthy base cs e.liveSlot e.header l) (hr : Rooted base cs d l) {op : Op}
    {r : Except CndbError Reply} (hruns : Runs F (op.prog e) d tr (r, e') d') :
    Guarded base ⟨d', some e', issued (e.docState d.volatile) r.isOk tr ++ cs⟩ := by
  cases hop : op.isCommit with
  | false =>
    obtain ⟨hg, log', hsv, hs'⟩ := hs.serve hop hruns
    obtain ⟨hhdr, -, hlive⟩ := hsv.header_eq
    rw [issued_logOnly hg.1]
    refine .session hs' ?_ (hr.grow_log hs hw hg.2)
    rw [hhdr, hlive]
    exact hw
  | true =>
    obtain ⟨order, rfl⟩ := Op.eq_commit hop
    rcases hs.commit hF hruns with ⟨hg, rfl, hs'⟩ | ⟨tr₁, d₁, hp, rfl, rfl, rfl, rfl, hs'⟩
    · rw [issued_logOnly hg.1]
      exact .session hs' hw (hr.grow_log hs hw hg.2)
    · rw [issued_snoc hp.grows.1]
      have hw' := hw.commit hs order true
      exact .session hs' hw' (.of_synced hs'.live hw' rfl)

/-- **Wherever a request is killed**, the world is guarded. -/
theorem stops_guarded [Bson] (hF : Detected F) (hs : Settled e d.volatile l log)
    (hw : Worthy base cs e.liveSlot e.header l) (hr : Rooted base cs d l) {op : Op}
    (hst : Stops F (op.prog e) d tr d') :
    Guarded base ⟨d', none, issued (e.docState d.volatile) false tr ++ cs⟩ := by
  cases hop : op.isCommit with
  | false =>
    have hg : LogGrows (tail log) d tr d' := (serve_safe hs.handle hs.backed hop).stops hst
    rw [issued_logOnly hg.1]
    exact .rest (hs.grow hg.2).live hw (hr.grow_log hs hw hg.2)
  | true =>
    obtain ⟨order, rfl⟩ := Op.eq_commit hop
    have hp : CommitPoint F e order d tr d' := (commit_serve_safe hs.handle order).stops hst
    exact hp.guarded hF hs hw hr

end Requests

/-! ### Losing power -/

section PowerLoss

variable {base : Option (Header × Log)} {cs : List Issued} {d : Disk} {s : Slot} {h : Header}
  {l : Log} {img : Bytes}

/-- A creation that has not been synced leaves nothing, or something
unreadable, or the new database. -/
theorem fresh_crash (hl : Live d.volatile s h l) (hd : d.durable = []) (hnil : l = [])
    (ht : TornHeaders d img) (hlen : 128 ≤ img.length) :
    (∀ t, decodedSlots img t = none) ∨ Live img s h l := by
  have hnew : ∀ t h', decodedSlots img t = some h' → slotBytes img t = slotBytes d.volatile t := by
    intro t h' hh'
    refine (ht t h' hh').resolve_left fun heq => ?_
    have hlt := length_slotBytes hlen t
    rw [heq, hd] at hlt
    simp [slotBytes_def] at hlt
  have hother : decodedSlots img s.other = none := by
    cases hdec : decodedSlots img s.other with
    | none => rfl
    | some h' =>
      rw [decodedSlots_congr (hnew _ _ hdec)] at hdec
      obtain ⟨-, -, l', -, hp, hne⟩ := hl.older h' hdec
      rw [hnil] at hp hne
      exact absurd (List.prefix_nil.mp hp) hne
  cases hdec : decodedSlots img s with
  | none =>
    refine Or.inl fun t => ?_
    rcases Slot.eq_or_other s t with rfl | rfl
    · exact hdec
    · exact hother
  | some h' =>
    refine Or.inr ⟨hlen, (hnew s h' hdec).trans hl.slot, hl.describes, hl.valid, ?_, ?_⟩
    · rw [hnil]
      exact holds_nil _ _
    · intro h'' hh''
      rw [hother] at hh''
      cases hh''

/-- **A loss of power keeps a world guarded.** -/
theorem Rooted.crash (hr : Rooted base cs d l) (hl : Live d.volatile s h l)
    (hw : Worthy base cs s h l) (hc : d.Crash img) (ht : TornHeaders d img) :
    Guarded base ⟨.ofImage img, none, cs⟩ := by
  cases hr with
  | anchored ha hw₀ =>
    rcases ha.crash hl hc ht with hl' | hl'
    · exact .rest hl' hw₀ (.of_synced hl' hw₀ rfl)
    · exact .rest hl' hw (.of_synced hl' hw rfl)
  | fresh hb hcs hd hnil =>
    subst hcs
    rcases Nat.lt_or_ge img.length 128 with hlt | hge
    · exact .unborn hb hlt
    · rcases fresh_crash hl hd hnil ht hge with hbad | hl'
      · exact .broken hb rfl hge hbad
      · exact .rest hl' hw (.of_synced hl' hw rfl)

end PowerLoss

/-! ### The invariant of histories with crashes -/

/-- A freshly opened handle is guarded. -/
theorem Guarded.of_live {base : Option (Header × Log)} {cs : List Issued} {d : Disk} {s : Slot}
    {h : Header} {l : Log} (hl : Live d.volatile s h l) (hw : Worthy base cs s h l)
    (hr : Rooted base cs d l) :
    Guarded base ⟨d, some (opened (decodedSlots d.volatile) s h l), cs⟩ :=
  .session (Settled.of_live hl) hw hr

/-- A creation that is stopped leaves an unborn file or a new database. -/
theorem Guarded.of_creation {d d' : Disk} (hu : Unborn d.volatile) (hc : CreationPoint d d') :
    Guarded none ⟨d', none, []⟩ := by
  cases hc with
  | untouched => exact .unborn rfl hu
  | @writing n hnil hn =>
    rcases Nat.lt_or_ge n 128 with hlt | hge
    · refine .unborn rfl ?_
      rw [volatile_create hnil, Unborn, List.length_take]
      omega
    · obtain rfl : n = 128 := le_antisymm hn hge
      rw [take_newRegion]
      have hdur : d.durable = [] := by
        refine List.length_eq_zero_iff.mp (Nat.le_zero.mp ?_)
        rw [← List.length_nil (α := UInt8), ← hnil]
        exact d.length_durable_le
      exact .rest (live_of_newRegion (volatile_create hnil newRegion)) worthy_new
        (.fresh rfl rfl hdur rfl)
  | synced hnil =>
    have hl := live_of_newRegion (d := (d.write 0 newRegion).sync) (volatile_create hnil newRegion)
    exact .rest hl worthy_new (.of_synced hl worthy_new rfl)

/-- **Opening an unreadable file fails** and changes nothing. -/
theorem openFile_broken {v : Bytes} (hlen : 128 ≤ v.length)
    (hbad : ∀ t, decodedSlots v t = none) :
    ∃ err, openFile.run.Returns (fun w => w = v) (.error err) := by
  have hsel : selectLive (decodedSlots (v.take 128)) = .error .noValidHeader := by
    rw [decodedSlots_take, funext hbad]
    rfl
  refine ⟨(firstError (v.take 128)).getD .noValidHeader, ?_⟩
  rw [openFile_run]
  rintro w rfl
  simp only
  rw [if_pos (show w.length > 0 by omega), load_run, if_neg (by omega)]
  rintro x rfl
  rw [readAt_region hlen]
  simp only
  rw [recover, hsel]
  rfl

/-- **Every step of a history with crashes keeps the guard.** -/
theorem World.Step.guarded [Bson] {base : Option (Header × Log)} {w w' : World}
    (hw : Guarded base w) (hs : World.Step crashes w w') : Guarded base w' := by
  cases hs with
  | opens hr =>
    cases hw with
    | rest hl hw hroot =>
      obtain ⟨rfl, hx⟩ := opens_live hl hr
      cases hx
      exact .of_live hl hw hroot
    | unborn hb hu =>
      subst hb
      obtain ⟨hnew, hsync, rfl⟩ := opens_unborn hu hr
      have hl := live_of_newRegion hnew
      exact .of_live hl worthy_new (.of_synced hl worthy_new hsync)
    | broken hb hs hlen hbad =>
      obtain ⟨err, hret⟩ := openFile_broken hlen hbad
      obtain ⟨-, hx, -⟩ := hret.of_runs rfl hr
      cases hx
  | openFails hr =>
    cases hw with
    | rest hl =>
      obtain ⟨-, hx⟩ := opens_live hl hr
      cases hx
    | unborn hb hu =>
      subst hb
      exact .of_creation hu ((openFile_short_safe _ hu).steps hr).inv
    | broken hb hs hlen hbad =>
      obtain ⟨err, hret⟩ := openFile_broken hlen hbad
      obtain ⟨-, -, rfl⟩ := hret.of_runs rfl hr
      exact .broken hb hs hlen hbad
  | openKilled hk hst =>
    cases hw with
    | rest hl hw hroot =>
      rw [openKilled_live hl hst]
      exact .rest hl hw hroot
    | unborn hb hu =>
      subst hb
      exact .of_creation hu ((openFile_short_safe _ hu).stops hst)
    | broken hb hs hlen hbad =>
      obtain ⟨err, hret⟩ := openFile_broken hlen hbad
      rw [hret.stops_eq rfl hst]
      exact .broken hb hs hlen hbad
  | serve hop hr =>
    cases hw with
    | session hs hw hroot => exact serve_guarded steady_killedProcess hs hw hroot hr
  | drop =>
    cases hw with
    | session hs hw hroot => exact .rest hs.live hw hroot
  | kill hk hop hst =>
    cases hw with
    | session hs hw hroot => exact stops_guarded detected_killedProcess hs hw hroot hst
  | powerLoss hp hc ht =>
    cases hw with
    | session hs hw hroot => exact hroot.crash hs.live hw hc ht
    | rest hl hw hroot => exact hroot.crash hl hw hc ht
    | unborn hb hu => exact .unborn hb (lt_of_le_of_lt hc.le_volatile hu)
    | broken hb hs hlen hbad =>
      -- nothing is waiting to be synced, so a loss of power changes nothing
      rw [hc.eq_of_synced hs]
      rw [Disk.volatile_of_synced _ hs] at hlen hbad
      exact .broken hb rfl hlen hbad
  | slotLoss hl => exact hl.elim

/-- **Whatever a history with crashes leads to is guarded.** -/
theorem Guarded.steps [Bson] {base : Option (Header × Log)} {w w' : World} (hw : Guarded base w)
    (hs : Relation.ReflTransGen (World.Step crashes) w w') : Guarded base w' := by
  induction hs with
  | refl => exact hw
  | tail _ h ih => exact h.guarded ih

/-- **Every reachable world is guarded**, without a base. -/
theorem Reachable.guarded [Bson] {w : World} (hw : Reachable crashes w) : Guarded none w :=
  Guarded.steps (.unborn rfl (by rw [Unborn]; decide)) hw

/-- Where there is a base, opening recovers what is worth recovering. -/
theorem Guarded.recovers {B : Header × Log} {d : Disk} {handle : Option StorageEngine}
    {cs : List Issued} (hw : Guarded (some B) ⟨d, handle, cs⟩) :
    ∃ s h l, Live d.volatile s h l ∧ Worthy (some B) cs s h l := by
  cases hw with
  | session hs hw => exact ⟨_, _, _, hs.live, hw⟩
  | rest hl hw => exact ⟨_, _, _, hl, hw⟩
  | unborn hb => cases hb
  | broken hb => cases hb

/-- A database that has been created is guarded. -/
theorem guarded_of_create [Bson] {d : Disk} {e : StorageEngine} {cs : List Issued}
    (h : World.Step crashes .new ⟨d, some e, cs⟩) :
    Guarded (some (.initial, [])) ⟨d, some e, cs⟩ := by
  cases h with
  | opens hr =>
    obtain ⟨hnew, hsync, rfl⟩ := opens_unborn (by rw [Unborn]; decide) hr
    have hl := live_of_newRegion hnew
    have hw : Worthy (some (.initial, [])) [] 0 .initial [] :=
      ⟨attested_new _ _, List.prefix_refl _, Or.inl ⟨rfl, rfl⟩⟩
    exact .of_live hl hw (.of_synced hl hw hsync)

/-- **Crash atomicity.** After a successful creation, in any history of sessions
that are dropped, killed or lose power anywhere, opening succeeds. It shows what
the last commit captured that did work and returned `Ok` – the empty database if
there was none – or what a later commit captured whose header stands in the
file. And every commit is counted that has something to commit and returns
`Ok`. -/
theorem crash_atomicity [Bson] {d : Disk} {e : StorageEngine} {cs : List Issued} {w : World}
    (hcreate : World.Step crashes .new ⟨d, some e, cs⟩)
    (hw : Relation.ReflTransGen (World.Step crashes) ⟨d, some e, cs⟩ w) :
    (∃ e', openFile.run.exec w.disk = some (.ok e', w.disk) ∧
      Recovers w.disk.volatile (e'.docState w.disk.volatile) w.commits) ∧
    ∀ e₁, w.handle = some e₁ → ∀ (op : Op) tr r e₂ d₂,
      Runs killedProcess (op.prog e₁) w.disk tr (r, e₂) d₂ → r.isOk = true →
      issued (e₁.docState w.disk.volatile) true tr =
        op.counted e₁ (e₁.docState w.disk.volatile) := by
  obtain ⟨d', handle, cs'⟩ := w
  have hguard := (guarded_of_create hcreate).steps hw
  refine ⟨?_, fun e₁ he op tr r e₂ d₂ hr hok => ?_⟩
  · obtain ⟨s, h, l, hl, hworthy⟩ := hguard.recovers
    refine ⟨_, hl.open_exec, ?_⟩
    rw [hl.docState]
    exact hworthy.attested.recovers hl.slot
  · cases hguard with
    | session hs =>
      cases he
      exact issued_of_ok hs.handle hs.backed hr hok _
    | rest | unborn | broken => cases he

/-- A small database is committed, and another document is appended. The power is lost,
and with it what was not synced: what is recovered is what the commit captured. -/
theorem crash_atomicity_committed :
    letI := emptyDocuments
    ∃ d d₁ d₂, ((Op.commit .listed).prog firstBuried).exec d =
        some ((.ok .done, smallCommitted), d₁) ∧
      ((Op.append .blob [9]).prog smallCommitted).exec d₁ =
        some ((.ok (.id ⟨3⟩), thirdAppended), d₂) ∧
      (thirdAppended.docState d₂.volatile).records ⟨3⟩ = .ok ⟨.blob, [9]⟩ ∧ d₂.Crash d₂.durable ∧
      ∃ e', openFile.run.exec (.ofImage d₂.durable) = some (.ok e', .ofImage d₂.durable) ∧
        e'.docState d₂.durable = firstBuried.docState d.volatile ∧
        (e'.docState d₂.durable).records ⟨1⟩ = .error (.deleted ⟨1⟩) ∧
        (e'.docState d₂.durable).records ⟨2⟩ = .ok ⟨.blob, [8]⟩ ∧
        (e'.docState d₂.durable).records ⟨3⟩ = .error (.notFound ⟨3⟩) := by
  let _ := emptyDocuments
  obtain ⟨tr₀, hr₀⟩ := runs_of_exec openFile_exec_new
  have hcreate : World.Step crashes .new ⟨.ofImage newRegion, some created, []⟩ := .opens hr₀
  obtain ⟨d, cs, hsteps, hs, hlen⟩ := small_steps (R := crashes) trivial
  obtain ⟨d₁, hcommit, hs₁, -⟩ := small_commit hs hlen
  obtain ⟨d₂, happend, hs₂⟩ := third_append hs₁
  obtain ⟨tr₁, hr₁⟩ := runs_of_exec (F := killedProcess) hcommit
  obtain ⟨tr₂, hr₂⟩ := runs_of_exec (F := killedProcess) happend
  -- the history: the commit, the append, and the loss of power
  have hsteps₁ := hsteps.tail (.serve (show Op.Allowed _ (.commit .listed) from trivial) hr₁)
  have hsteps₂ := hsteps₁.tail (.serve (show Op.Allowed _ (.append .blob [9]) from trivial) hr₂)
  have hloss := hsteps₂.tail (.powerLoss trivial d₂.crash_durable fun _ _ _ => Or.inl rfl)
  have hcounted₁ := (crash_atomicity hcreate hsteps).2 _ rfl _ _ _ _ _ hr₁ rfl
  have hcounted₂ := (crash_atomicity hcreate hsteps₁).2 _ rfl _ _ _ _ _ hr₂ rfl
  obtain ⟨⟨e', hopen, hrec⟩, -⟩ := crash_atomicity hcreate hloss
  have hstate : e'.docState d₂.durable = firstBuried.docState d.volatile := by
    change Recovers _ _ (issued _ true tr₂ ++ (issued _ true tr₁ ++ cs)) at hrec
    rw [hcounted₂, hcounted₁] at hrec
    rcases hrec with ⟨hst, -⟩ | ⟨hok, -⟩
    · exact hst
    · cases hok
  refine ⟨d, d₁, d₂, hcommit, happend, ?_, d₂.crash_durable, e', hopen, hstate, ?_⟩
  · rw [hs₂.docState, tableOf_snoc, tableOf_smallCommittedLog]
    rfl
  · rw [hstate, hs.docState]
    exact find_small

end ContextDb
