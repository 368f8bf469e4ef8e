import ContextDb.Calls
import ContextDb.Sharing

/-!
# A reader next to a writer, call by call

A read of the loop in `ContextDb.PosIo` is several calls, and the writer may work
between any two of them. So the pieces of one read may come from different images of
the file (`ContextDb.ReadsDuring`), and what the reader is given may be what no image
ever held.

It does not matter to a reader that relies on nothing but bytes that stand where they
stand: that property of images admits splicing, so every read is one that some image
with the property answers (`ContextDb.BesideCalls.reader`). An open reader of a database
relies on its log only, and is therefore as stable call by call as it is request by
request (`ContextDb.open_reader_is_stable_by_calls`).
-/

namespace ContextDb

open ByteFile FileProg Prog StorageEngine PosIo

variable {α : Type}

/-! ### A reader next to an environment -/

section Beside

variable {σ : Type} {E : σ × Disk → σ × Disk → Prop} {I : σ × Disk → Prop} {S : Bytes → Prop}

/-- **The calls of one read**, between which the environment takes steps. -/
inductive ReadsDuring (E : σ × Disk → σ × Disk → Prop) (len offset : ℕ) :
    Bytes → σ × Disk → List ReadAnswer → σ × Disk → Prop
  /-- No more calls are made. -/
  | nil (done : Bytes) (x : σ × Disk) : ReadsDuring E len offset done x [] x
  /-- The environment takes a step. -/
  | env {done : Bytes} {x y z : σ × Disk} {answers : List ReadAnswer} (h : E x y)
      (rest : ReadsDuring E len offset done y answers z) : ReadsDuring E len offset done x answers z
  /-- A call hands out bytes of the file as it is now. -/
  | got {done bs : Bytes} {s : σ} {d : Disk} {z : σ × Disk} {answers : List ReadAnswer}
      (hle : done.length + bs.length ≤ len) (hh : Holds d.volatile (offset + done.length) bs)
      (hend : bs = [] → d.volatile.length ≤ offset + done.length)
      (rest : ReadsDuring E len offset (done ++ bs) (s, d) answers z) :
      ReadsDuring E len offset done (s, d) (.ok bs :: answers) z
  /-- A call is interrupted. -/
  | interrupted {done : Bytes} {x z : σ × Disk} {answers : List ReadAnswer} {e : Error}
      (he : e.kind = .interrupted) (rest : ReadsDuring E len offset done x answers z) :
      ReadsDuring E len offset done x (.error e :: answers) z

/-- **A reader next to an environment, call by call.** -/
inductive BesideCalls (E : σ × Disk → σ × Disk → Prop) :
    Prog α → σ × Disk → Prog α → σ × Disk → Prop
  /-- Nothing more happens. -/
  | refl (p : Prog α) (x : σ × Disk) : BesideCalls E p x p x
  /-- The environment takes a step. -/
  | env {p q : Prog α} {x y z : σ × Disk} (h : E x y) (rest : BesideCalls E p y q z) :
      BesideCalls E p x q z
  /-- The length of the file is asked for. -/
  | len {k : ℕ → Prog α} {q : Prog α} {x z : σ × Disk}
      (rest : BesideCalls E (k x.2.volatile.length) x q z) : BesideCalls E (.len k) x q z
  /-- A read is carried out. -/
  | read {off n : ℕ} {k : Option Bytes → Prog α} {q : Prog α} {x y z : σ × Disk}
      {answers : List ReadAnswer} {r : Except Error Bytes}
      (h : ReadsDuring E n off [] x answers y) (hr : PosIo.readExactAt n [] answers = some r)
      (rest : BesideCalls E (k r.toOption) y q z) : BesideCalls E (.read off n k) x q z

/-- The answers to the calls come from images the environment may show. -/
theorem ReadsDuring.answers (hE : ∀ x y, I x → E x y → I y) (hS : ∀ x, I x → S x.2.volatile)
    {len offset : ℕ} {done : Bytes} {x y : σ × Disk} {answers : List ReadAnswer}
    (h : ReadsDuring E len offset done x answers y) (hx : I x) :
    ReadAnswers S len offset done answers ∧ I y := by
  induction h with
  | nil => exact ⟨trivial, hx⟩
  | env hstep _ ih => exact ih (hE _ _ hx hstep)
  | got hle hh hend _ ih =>
    obtain ⟨hrest, hy⟩ := ih hx
    exact ⟨⟨⟨hle, _, hS _ hx, hh, hend⟩, hrest⟩, hy⟩
  | interrupted he _ ih =>
    obtain ⟨hrest, hy⟩ := ih hx
    exact ⟨⟨he, hrest⟩, hy⟩

/-- **A reader returns what it would return alone**, even if the pieces of its reads come
from different images, as long as what it relies on admits splicing. -/
theorem BesideCalls.reader (hSp : Spliceable S) (hE : ∀ x y, I x → E x y → I y)
    (hS : ∀ x, I x → S x.2.volatile) {p q : Prog α} {x y : σ × Disk} {a : α}
    (h : BesideCalls E p x q y) (hp : p.Returns S a) (hx : I x) : q.Returns S a ∧ I y := by
  induction h with
  | refl => exact ⟨hp, hx⟩
  | env hstep _ ih => exact ih hp (hE _ _ hx hstep)
  | len _ ih => exact ih (hp _ (hS _ hx)) hx
  | @read off n k q x y z answers r hreads hr _ ih =>
    obtain ⟨hans, hy⟩ := hreads.answers hE hS hx
    obtain ⟨v, hv, rfl⟩ := readExactAt_spliced hSp hans (Nat.zero_le _)
      ⟨_, hS _ hx, holds_nil _ _⟩ hr
    refine ih ?_ hy
    have hread := hp v hv
    cases hv' : readAt v off n <;> rw [hv'] at hread <;> exact hread

/-- **A client that only reads** is answered as if it were alone, in every call it
makes. -/
theorem answered_by_calls {ι ρ : Type} {prog : ι → Prog ρ} {answer : ι → ρ} {x y : σ × Disk}
    {tr : List (ι × ρ)} (hSp : Spliceable S) (hE : ∀ x y, I x → E x y → I y)
    (hS : ∀ x, I x → S x.2.volatile) (hp : ∀ i, (prog i).Returns S (answer i))
    (h : Machine.Run (fun x i r y => BesideCalls E (prog i) x (.ret r) y) x tr y) (hx : I x) :
    ∀ q ∈ tr, q.2 = answer q.1 := by
  induction h with
  | nil =>
    rintro q ⟨⟩
  | cons hcall _ ih =>
    obtain ⟨hr, hy⟩ := hcall.reader hSp hE hS (hp _) hx
    intro q hq
    rcases List.mem_cons.mp hq with rfl | hq
    · exact hr
    · exact ih hy q hq

end Beside

/-! ### A reader that is overtaken in the middle of a read -/

section Overtaken

variable {σ : Type} {E : σ × Disk → σ × Disk → Prop} {S : Bytes → Prop} {p q : Prog α} {a : α}
  {s t : σ} {d d' : Disk}

/-- The environment may run ahead between two calls. -/
theorem ReadsDuring.env_steps {len offset : ℕ} {done : Bytes} {x y z : σ × Disk}
    {answers : List ReadAnswer} (h : Relation.ReflTransGen E x y)
    (rest : ReadsDuring E len offset done y answers z) :
    ReadsDuring E len offset done x answers z := by
  induction h using Relation.ReflTransGen.head_induction_on with
  | refl => exact rest
  | head hstep _ ih => exact .env hstep ih

/-- The environment may as well leave a read alone. -/
theorem ReadsDuring.alone {len offset : ℕ} {done : Bytes} {answers : List ReadAnswer}
    (h : ReadAnswers (fun v => v = d.volatile) len offset done answers) :
    ReadsDuring E len offset done (s, d) answers (s, d) := by
  induction answers generalizing done with
  | nil => exact .nil _ _
  | cons answer answers ih =>
    cases answer with
    | ok bs =>
      obtain ⟨⟨hle, v, rfl, hh, hend⟩, hrest⟩ := h
      exact .got hle hh hend (ih hrest)
    | error e => exact .interrupted h.1 (ih h.2)

/-- A program that returns may be left alone. -/
theorem BesideCalls.alone (hp : p.Returns S a) (hd : S d.volatile) :
    BesideCalls E p (s, d) (.ret a) (s, d) := by
  induction p with
  | ret b =>
    obtain rfl : b = a := hp
    exact .refl _ _
  | len k ih => exact .len (ih _ (hp _ hd))
  | read off n k ih =>
    obtain ⟨answers, r, hans, hr, hread⟩ := exists_readAnswers d.volatile off n
    refine .read (.alone hans) hr ?_
    rw [hread]
    exact ih _ (hp _ hd)
  | write off bs k => exact hp.elim
  | sync k => exact hp.elim

/-- **The calls of a read that is overtaken**: some bytes, an interruption, all that the
environment does in the meantime, and the other bytes. -/
theorem ReadsDuring.overtaken {off : ℕ} {as bs : Bytes} (ha : as ≠ []) (hb : bs ≠ [])
    (hd : Holds d.volatile off (as ++ bs)) (hd' : Holds d'.volatile off (as ++ bs))
    (hsteps : Relation.ReflTransGen E (s, d) (t, d')) :
    ReadsDuring E (as ++ bs).length off [] (s, d)
      [.ok as, .error ⟨.interrupted, "interrupted system call"⟩, .ok bs] (t, d') := by
  refine .got (by simp) (holds_append_iff.mp hd).1 (fun h => absurd h ha) ?_
  refine .interrupted rfl (.env_steps hsteps ?_)
  exact .got (by simp) (holds_append_iff.mp hd').2 (fun h => absurd h hb) (.nil _ _)

/-- What they fill the buffer with. -/
theorem readExactAt_overtaken {as bs : Bytes} (ha : as ≠ []) (hb : bs ≠ []) :
    PosIo.readExactAt (as ++ bs).length []
        [.ok as, .error ⟨.interrupted, "interrupted system call"⟩, .ok bs] =
      some (.ok (as ++ bs)) := by
  have hlen : (as ++ bs).length = as.length + bs.length := List.length_append
  have hpos := List.length_pos_of_ne_nil ha
  have hpos' := List.length_pos_of_ne_nil hb
  rw [readExactAt_piece (by simp only [List.length_nil]; omega) ha, List.nil_append,
    readExactAt_interrupted (by omega) rfl, readExactAt_piece (by omega) hb, readExactAt_done]

/-- **A reader may be overtaken** in the middle of its first read. -/
theorem BesideCalls.overtaken {off : ℕ} {as bs : Bytes} {k : Option Bytes → Prog α} (ha : as ≠ [])
    (hb : bs ≠ []) (hp : (Prog.read off (as ++ bs).length k).Returns S a)
    (hS : ∀ v, S v → Holds v off (as ++ bs)) (hd : S d.volatile) (hd' : S d'.volatile)
    (hsteps : Relation.ReflTransGen E (s, d) (t, d')) :
    BesideCalls E (.read off (as ++ bs).length k) (s, d) (.ret a) (t, d') := by
  refine .read (.overtaken ha hb (hS _ hd) (hS _ hd') hsteps) (readExactAt_overtaken ha hb) ?_
  have hk := hp _ hd'
  rw [(hS _ hd').readAt] at hk
  exact .alone hk hd'

end Overtaken

/-! ### A reader of a database -/

/-- **An open reader is stable, call by call.** A reader opens a file that is not empty,
at any instant of the work of a writer. Its reads are carried out in pieces, and the
writer takes any steps between any two of them: every call of the reader is answered as
it would have been at the moment of opening. -/
theorem open_reader_is_stable_by_calls [Bson] {R : Regime} (hR : R.Covered) {w : World}
    (hw : Reachable R w) {x y : Writer × Disk}
    (hx : Relation.ReflTransGen Writes (.closed, w.disk) x) (hne : x.2.volatile ≠ [])
    {e : StorageEngine} {d : Disk} (hopen : openFile.run.exec x.2 = some (.ok e, d))
    {tr : List (Call × Answer)}
    (hcalls : Machine.Run (fun x c a y => BesideCalls Writes (Call.prog e c) x (.ret a) y) x tr y) :
    ∀ q ∈ tr, (q.1.prog e).exec x.2 = some (q.2, x.2) := by
  obtain ⟨s, h, l, hl, hwr, rfl⟩ := writing_of_open hR hw hx hne hopen
  have hret := Call.returns (e := opened (decodedSlots x.2.volatile) s h l) hl.valid rfl
    hl.describes.logEnd_toNat
  have hall := answered_by_calls (I := Relies l) (spliceable_holds 128 (logBytes l))
    (fun _ _ hx h => hx.step h) (fun _ hx => hx.holds) hret hcalls ⟨l, List.prefix_refl l, hwr⟩
  intro q hq
  rw [hall q hq]
  exact (hret q.1).exec_eq hl.holds

/-- A request for a document begins with a read of its frame. -/
theorem readRecord_prog {e : StorageEngine} {id : DocId} {offset : UInt64} (hd : id ∉ e.index.dead)
    (ho : e.index.offsets.lookup id = some offset) :
    ∃ k, (Call.readRecord id).prog e = .read offset.toNat 9 k := by
  rw [Call.prog, readRecord, if_neg hd, ho]
  exact ⟨_, rfl⟩

/-- The frame of the second document of a small database. -/
theorem holds_secondFrame {v : Bytes} (h : Holds v 128 (logBytes smallCommittedLog)) :
    Holds v 138 (encodeFrame .blob [8]) := by
  have hrecord : Holds v (tail [.doc ⟨.blob, [7]⟩]) (Entry.doc ⟨.blob, [8]⟩).record.bytes :=
    holds_record h
  exact (holds_append_iff.mp hrecord).1

/-- A reader of a small database asks for its second document. Between the two calls that
read its frame the writer stores another document and commits. -/
theorem open_reader_is_stable_by_calls_split :
    letI := emptyDocuments
    ∃ d d' e, openFile.run.exec d = some (.ok e, d) ∧
      ReadsDuring Writes 9 138 [] (.idle smallCommitted, d)
        [.ok ((encodeFrame .blob [8]).take 4), .error ⟨.interrupted, "interrupted system call"⟩,
          .ok ((encodeFrame .blob [8]).drop 4)] (.idle thirdCommitted, d') ∧
      Machine.Run (fun x c a y => BesideCalls Writes (Call.prog e c) x (.ret a) y)
        (.idle smallCommitted, d) [(.readRecord ⟨2⟩, .record (.ok ⟨.blob, [8]⟩))]
        (.idle thirdCommitted, d') ∧
      ((Call.readRecord ⟨2⟩).prog e).exec d = some (.record (.ok ⟨.blob, [8]⟩), d) := by
  let _ := emptyDocuments
  obtain ⟨d, d', hx, hwriter, hs, hs'⟩ := small_writes
  have hl := hs.live
  have hholds := holds_logBytes_of_isPrefix hs'.backed.holds smallCommittedLog_prefix
  obtain ⟨e, hopen, hi, hend⟩ : ∃ e, openFile.run.exec d = some (.ok e, d) ∧
      e.index = indexOf smallCommittedLog ∧ e.header.logEnd.toNat = tail smallCommittedLog :=
    ⟨_, hl.open_exec, rfl, hl.describes.logEnd_toNat⟩
  have hret := Call.returns hl.valid hi hend (.readRecord ⟨2⟩)
  rw [Log.answer, tableOf_smallCommittedLog, find_small.2.1] at hret
  -- the frame of the second document, in two pieces
  have hframe : (encodeFrame .blob [8]).take 4 ++ (encodeFrame .blob [8]).drop 4 =
      encodeFrame .blob [8] := List.take_append_drop 4 _
  have hlen : (encodeFrame .blob [8]).length = 9 := length_encodeFrame _ _
  have has : (encodeFrame .blob [8]).take 4 ≠ [] :=
    List.ne_nil_of_length_pos (by rw [List.length_take, hlen]; decide)
  have hbs : (encodeFrame .blob [8]).drop 4 ≠ [] :=
    List.ne_nil_of_length_pos (by rw [List.length_drop, hlen]; decide)
  have hS : ∀ v, Holds v 128 (logBytes smallCommittedLog) → Holds v 138
      ((encodeFrame .blob [8]).take 4 ++ (encodeFrame .blob [8]).drop 4) := by
    intro v hv
    rw [hframe]
    exact holds_secondFrame hv
  have hindex : e.index = firstBuried.index := hi.trans hs.handle.index.symm
  obtain ⟨k, hk⟩ : ∃ k, (Call.readRecord ⟨2⟩).prog e = .read (138 : UInt64).toNat 9 k :=
    readRecord_prog (by rw [hindex]; decide) (by rw [hindex]; decide)
  have hnine : 9 = ((encodeFrame .blob [8]).take 4 ++ (encodeFrame .blob [8]).drop 4).length := by
    rw [hframe, hlen]
  have hpieces := ReadsDuring.overtaken has hbs (hS _ hl.holds) (hS _ hholds) hwriter
  rw [hk, hnine] at hret
  have hcall := BesideCalls.overtaken has hbs hret hS hl.holds hholds hwriter
  rw [← hnine] at hpieces hcall
  rw [← hk] at hcall
  have hrun : Machine.Run (fun x c a y => BesideCalls Writes (Call.prog e c) x (.ret a) y)
      (.idle smallCommitted, d) [(.readRecord ⟨2⟩, .record (.ok ⟨.blob, [8]⟩))]
      (.idle thirdCommitted, d') := .cons hcall (.nil _)
  have hstable := open_reader_is_stable_by_calls (R := crashes) (Or.inr rfl)
    (reachable_created crashes) hx hl.ne_nil hopen hrun
  exact ⟨d, d', e, hopen, hpieces, hrun, hstable _ (List.mem_singleton_self _)⟩

end ContextDb
