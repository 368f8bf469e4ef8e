import ContextDb.Lib.Alike

/-!
# Positioned file I/O, call by call

Where the platform has no positioned reads and writes of a whole buffer, they are
loops over calls that move a part of it. A call may be interrupted, and is made
again; it may move no byte, which is an error; and it may fail
(`ContextDb.PosIo.readExactAt`, `ContextDb.PosIo.writeAllAt`).

The calls are answered by the operating system, and a loop is a function of the
answers it has been given so far: it returns, or it waits for one more. What the
answers may be is the contract of the platform (`ContextDb.PosIo.ReadAnswers`,
`ContextDb.PosIo.WriteAnswers`): a read hands out bytes that stand in the file, and
none only at its end; a write takes a part of what it is given.

* `ContextDb.PosIo.readExactAt_spliced` – a read that has returned has read one
  image, even if the image changed between its calls.
* `ContextDb.PosIo.writeAllAt_alike` – a write, however far it got, cannot be told
  apart from one write of the bytes it has placed.
* `ContextDb.PosIo.loops_exact` – both return as soon as sufficiently many calls
  were not interrupted, with what a transfer at one go returns.
-/

namespace ContextDb

open ByteFile FileProg

namespace PosIo

/-- The kinds of errors the loops tell apart. -/
inductive ErrorKind where
  | interrupted
  | unexpectedEof
  | writeZero
  | other
  deriving DecidableEq

/-- An error, of a call or of a loop. -/
structure Error where
  /-- What kind of error it is. -/
  kind : ErrorKind
  /-- What it says. -/
  message : String
  deriving DecidableEq

/-- What `seek_read` answers: the bytes it has put into the buffer. -/
abbrev ReadAnswer : Type := Except Error Bytes

/-- What `seek_write` answers: how many bytes it has taken from the buffer. -/
abbrev WriteAnswer : Type := Except Error ℕ

/-- The file has ended. -/
def failedToFill : Error := ⟨.unexpectedEof, "failed to fill whole buffer"⟩

/-- The file takes nothing more. -/
def failedToWrite : Error := ⟨.writeZero, "failed to write whole buffer"⟩

/-- **Fill a buffer of `len` bytes**, `done` of which are there, from the answers to
`seek_read`. Without a result it waits for one more answer. -/
def readExactAt (len : ℕ) : Bytes → List ReadAnswer → Option (Except Error Bytes)
  | done, [] => if done.length < len then none else some (.ok done)
  | done, answer :: answers =>
    if done.length < len then
      match answer with
      | .ok [] => some (.error failedToFill)
      | .ok bs => readExactAt len (done ++ bs) answers
      | .error e =>
        if e.kind = .interrupted then readExactAt len done answers else some (.error e)
    else some (.ok done)

/-- **Write a buffer at `offset`**, `done` bytes of which have been written, with the
answers to `seek_write`: the result, how many bytes have been written, and the file.
Without a result it waits for one more answer. -/
def writeAllAt (buf : Bytes) (offset : ℕ) :
    ℕ → List WriteAnswer → Disk → Option (Except Error Unit) × ℕ × Disk
  | done, [], file => (if done < buf.length then none else some (.ok ()), done, file)
  | done, answer :: answers, file =>
    if done < buf.length then
      match answer with
      | .ok 0 => (some (.error failedToWrite), done, file)
      | .ok n => writeAllAt buf offset (done + n) answers
          (file.write (offset + done) ((buf.drop done).take n))
      | .error e =>
        if e.kind = .interrupted then writeAllAt buf offset done answers file
        else (some (.error e), done, file)
    else (some (.ok ()), done, file)

/-- One more answer to a read. -/
theorem readExactAt_cons (len : ℕ) (done : Bytes) (answer : ReadAnswer)
    (answers : List ReadAnswer) : readExactAt len done (answer :: answers) =
      if done.length < len then
        match answer with
        | .ok [] => some (.error failedToFill)
        | .ok bs => readExactAt len (done ++ bs) answers
        | .error e =>
          if e.kind = .interrupted then readExactAt len done answers else some (.error e)
      else some (.ok done) := rfl

/-- One more answer to a write. -/
theorem writeAllAt_cons (buf : Bytes) (offset done : ℕ) (answer : WriteAnswer)
    (answers : List WriteAnswer) (file : Disk) :
    writeAllAt buf offset done (answer :: answers) file =
      if done < buf.length then
        match answer with
        | .ok 0 => (some (.error failedToWrite), done, file)
        | .ok n => writeAllAt buf offset (done + n) answers
            (file.write (offset + done) ((buf.drop done).take n))
        | .error e =>
          if e.kind = .interrupted then writeAllAt buf offset done answers file
          else (some (.error e), done, file)
      else (some (.ok ()), done, file) := rfl

/-- A call that hands out some bytes. -/
theorem readExactAt_piece {len : ℕ} {done bs : Bytes} {answers : List ReadAnswer}
    (hlt : done.length < len) (hbs : bs ≠ []) :
    readExactAt len done (.ok bs :: answers) = readExactAt len (done ++ bs) answers := by
  obtain ⟨b, bs, rfl⟩ := List.exists_cons_of_ne_nil hbs
  rw [readExactAt_cons, if_pos hlt]

/-- A call that is interrupted is made again. -/
theorem readExactAt_interrupted {len : ℕ} {done : Bytes} {answers : List ReadAnswer} {e : Error}
    (hlt : done.length < len) (he : e.kind = .interrupted) :
    readExactAt len done (.error e :: answers) = readExactAt len done answers := by
  rw [readExactAt_cons, if_pos hlt]
  exact if_pos he

/-- The buffer is full. -/
theorem readExactAt_done {done : Bytes} : readExactAt done.length done [] = some (.ok done) := by
  rw [readExactAt, if_neg (lt_irrefl _)]

/-- A call that takes some bytes. -/
theorem writeAllAt_piece {buf : Bytes} {offset done n : ℕ} {answers : List WriteAnswer}
    {file : Disk} (hlt : done < buf.length) (hn : 0 < n) :
    writeAllAt buf offset done (.ok n :: answers) file =
      writeAllAt buf offset (done + n) answers
        (file.write (offset + done) ((buf.drop done).take n)) := by
  obtain ⟨n, rfl⟩ := Nat.exists_eq_add_one_of_ne_zero hn.ne'
  rw [writeAllAt_cons, if_pos hlt]
  rfl

/-- A call that fails is made again if it was interrupted, and else it is the end. -/
theorem writeAllAt_error {buf : Bytes} {offset done : ℕ} {answers : List WriteAnswer}
    {file : Disk} {e : Error} (hlt : done < buf.length) :
    writeAllAt buf offset done (.error e :: answers) file =
      if e.kind = .interrupted then writeAllAt buf offset done answers file
      else (some (.error e), done, file) := by
  rw [writeAllAt_cons, if_pos hlt]

/-- All bytes have been written. -/
theorem writeAllAt_done {buf : Bytes} {offset : ℕ} {file : Disk} :
    writeAllAt buf offset buf.length [] file = (some (.ok ()), buf.length, file) := by
  rw [writeAllAt, if_neg (lt_irrefl _)]

/-- Some have not. -/
theorem writeAllAt_waits {buf : Bytes} {offset done : ℕ} {file : Disk} (hlt : done < buf.length) :
    writeAllAt buf offset done [] file = (none, done, file) := by
  rw [writeAllAt, if_pos hlt]

/-! ### What the platform promises -/

/-- **What calls that read may be answered with**, each by an image of its own: bytes
that stand in it, no more than were asked for, and none only at its end. They do not
fail but by an interruption. -/
def ReadAnswers (S : Bytes → Prop) (len offset : ℕ) : Bytes → List ReadAnswer → Prop
  | _, [] => True
  | done, .ok bs :: answers =>
    (done.length + bs.length ≤ len ∧ ∃ v, S v ∧ Holds v (offset + done.length) bs ∧
      (bs = [] → v.length ≤ offset + done.length)) ∧
      ReadAnswers S len offset (done ++ bs) answers
  | done, .error e :: answers =>
    e.kind = .interrupted ∧ ReadAnswers S len offset done answers

/-- **What calls that write may be answered with**: they take no more than they are
given, and nothing behind the largest end of a file. -/
def WriteAnswers (len offset : ℕ) : ℕ → List WriteAnswer → Prop
  | _, [] => True
  | done, .ok n :: answers =>
    (done + n ≤ len ∧ (n = 0 ∨ offset + (done + n) ≤ maxFileLen)) ∧
      WriteAnswers len offset (done + n) answers
  | done, .error _ :: answers => WriteAnswers len offset done answers

/-- Answers from some images are answers from more of them. -/
theorem ReadAnswers.mono {S S' : Bytes → Prop} {len offset : ℕ} (hS : ∀ v, S v → S' v)
    {done : Bytes} {answers : List ReadAnswer} (h : ReadAnswers S len offset done answers) :
    ReadAnswers S' len offset done answers := by
  induction answers generalizing done with
  | nil => trivial
  | cons answer answers ih =>
    cases answer with
    | ok bs =>
      obtain ⟨⟨hle, v, hv, hh⟩, hrest⟩ := h
      exact ⟨⟨hle, v, hS v hv, hh⟩, ih hrest⟩
    | error e => exact ⟨h.1, ih h.2⟩

/-! ### Reading -/

section Reading

variable {S : Bytes → Prop} {len offset : ℕ} {done : Bytes} {answers : List ReadAnswer}

/-- One more piece of a read: some image has both what was there and the new bytes. -/
theorem exists_spliced (hS : Spliceable S) {w bs : Bytes} (hdone : ∃ v, S v ∧ Holds v offset done)
    (hw : S w) (hbs : Holds w (offset + done.length) bs) :
    ∃ v, S v ∧ Holds v offset (done ++ bs) ∧
      (w.length ≤ offset + done.length → v.length ≤ offset + done.length) := by
  obtain ⟨v, hv, hh⟩ := hdone
  rcases eq_or_ne done [] with rfl | hne
  · exact ⟨w, hw, hbs, id⟩
  · have hj : offset + done.length ≤ v.length := hh.length_le hne
    refine ⟨splice v w (offset + done.length), hS v w _ hv hw hj, ?_, fun hend => ?_⟩
    · exact holds_append_iff.mpr ⟨hh.splice_left hj le_rfl, hbs.splice_right hj le_rfl⟩
    · rw [splice, List.drop_eq_nil_of_le hend, List.append_nil, List.length_take]
      exact min_le_left _ _

/-- **A read that has returned has read one image**, spliced from those its calls met
if they were not the same, and it has read it as a read at one go would have. -/
theorem readExactAt_spliced (hS : Spliceable S) (ha : ReadAnswers S len offset done answers)
    (hlen : done.length ≤ len) (hdone : ∃ v, S v ∧ Holds v offset done)
    {r : Except Error Bytes} (hr : readExactAt len done answers = some r) :
    ∃ v, S v ∧ r = (readAt v offset len).elim (.error failedToFill) .ok := by
  induction answers generalizing done with
  | nil =>
    rw [readExactAt] at hr
    split at hr
    · cases hr
    · cases hr
      obtain ⟨v, hv, hh⟩ := hdone
      obtain rfl : done.length = len := by omega
      exact ⟨v, hv, by rw [hh.readAt]; rfl⟩
  | cons answer answers ih =>
    rw [readExactAt_cons] at hr
    by_cases hlt : done.length < len
    · rw [if_pos hlt] at hr
      cases answer with
      | error e =>
        obtain ⟨hkind, hrest⟩ := ha
        simp only [if_pos hkind] at hr
        exact ih hrest hlen hdone hr
      | ok bs =>
        obtain ⟨⟨hle, w, hw, hbs, hend⟩, hrest⟩ := ha
        obtain ⟨v, hv, hh, hshort⟩ := exists_spliced hS hdone hw hbs
        cases bs with
        | nil =>
          -- the image ends in front of what was asked for
          cases hr
          refine ⟨v, hv, ?_⟩
          have hvlen := hshort (hend rfl)
          rw [readAt, if_neg (by omega), if_neg (by omega)]
          rfl
        | cons b bs =>
          refine ih hrest ?_ ⟨v, hv, hh⟩ hr
          rw [List.length_append]
          exact hle
    · rw [if_neg hlt] at hr
      cases hr
      obtain ⟨v, hv, hh⟩ := hdone
      obtain rfl : done.length = len := by omega
      exact ⟨v, hv, by rw [hh.readAt]; rfl⟩

end Reading

/-! ### Writing -/

section Writing

variable {buf : Bytes} {offset done m : ℕ} {answers : List WriteAnswer} {d d' e : Disk}
  {r : Option (Except Error Unit)}

/-- **How far a write has got**: the file cannot be told apart from one to which the
first `m` bytes were written at one go. -/
structure Placed (buf : Bytes) (offset : ℕ) (e : Disk) (m : ℕ) (d : Disk) : Prop where
  /-- No more than there is. -/
  le : m ≤ buf.length
  /-- What has been written fits in a file. -/
  fits : m = 0 ∨ offset + m ≤ maxFileLen
  /-- The file. -/
  alike : d.Alike (e.write offset (buf.take m))

/-- One more piece. -/
theorem Placed.write (h : Placed buf offset e m d) {n : ℕ} (hn : m + n ≤ buf.length)
    (hfit : n = 0 ∨ offset + (m + n) ≤ maxFileLen) :
    Placed buf offset e (m + n) (d.write (offset + m) ((buf.drop m).take n)) where
  le := hn
  fits := by
    rcases hfit with rfl | hfit
    · exact h.fits
    · exact Or.inr hfit
  alike := by
    have hlen : (buf.take m).length = m := by
      rw [List.length_take]
      exact min_eq_left h.le
    have happend := e.alike_write_append offset (buf.take m) ((buf.drop m).take n)
    rw [hlen, ← List.take_add] at happend
    exact (h.alike.write _ _).trans happend

/-- Nothing has been written yet. -/
theorem placed_zero (buf : Bytes) (offset : ℕ) (e : Disk) : Placed buf offset e 0 e where
  le := Nat.zero_le _
  fits := Or.inl rfl
  alike := (e.alike_write_nil offset).symm

/-- **However far a write gets**, it has placed the first bytes of the buffer; it
returns `Ok` when it has placed all of them, and waits only before that. -/
theorem writeAllAt_alike (ha : WriteAnswers buf.length offset done answers)
    (hd : Placed buf offset e done d) (hr : writeAllAt buf offset done answers d = (r, m, d')) :
    Placed buf offset e m d' ∧ (r = some (.ok ()) → m = buf.length) ∧
      (r = none → m < buf.length) := by
  induction answers generalizing done d with
  | nil =>
    rw [writeAllAt] at hr
    obtain ⟨rfl, rfl, rfl⟩ : (if done < buf.length then none else some (.ok ())) = r ∧ done = m ∧
        d = d' := by simpa using hr
    refine ⟨hd, fun hok => ?_, fun hnone => ?_⟩
    · split at hok
      · cases hok
      · exact le_antisymm hd.le (Nat.le_of_not_lt ‹_›)
    · split at hnone
      · assumption
      · cases hnone
  | cons answer answers ih =>
    rw [writeAllAt_cons] at hr
    by_cases hlt : done < buf.length
    · rw [if_pos hlt] at hr
      cases answer with
      | error err =>
        by_cases hkind : err.kind = .interrupted
        · simp only [if_pos hkind] at hr
          exact ih ha hd hr
        · simp only [if_neg hkind] at hr
          cases hr
          refine ⟨hd, ?_, ?_⟩
          · rintro ⟨⟩
          · rintro ⟨⟩
      | ok n =>
        obtain ⟨⟨hle, hfit⟩, hrest⟩ := ha
        cases n with
        | zero =>
          cases hr
          refine ⟨hd, ?_, ?_⟩
          · rintro ⟨⟩
          · rintro ⟨⟩
        | succ n => exact ih hrest (hd.write hle hfit) hr
    · rw [if_neg hlt] at hr
      cases hr
      refine ⟨hd, fun _ => le_antisymm hd.le (Nat.le_of_not_lt hlt), ?_⟩
      rintro ⟨⟩

end Writing

/-! ### The loops return -/

/-- An answer that is no interruption. -/
def effective {α : Type} : Except Error α → Bool
  | .ok _ => true
  | .error e => decide (e.kind ≠ .interrupted)

section Progress

/-- An interruption is no answer. -/
theorem filter_effective_interrupted {α : Type} {e : Error} {answers : List (Except Error α)}
    (h : e.kind = .interrupted) :
    (.error e :: answers).filter effective = answers.filter effective := by
  rw [List.filter_cons_of_neg]
  simp [effective, h]

/-- **A read returns** once sufficiently many of its calls were not interrupted: each
of them brings a byte, or the end. -/
theorem readExactAt_isSome {len : ℕ} {done : Bytes} {answers : List ReadAnswer}
    (h : len ≤ done.length + (answers.filter effective).length) :
    ∃ r, readExactAt len done answers = some r := by
  induction answers generalizing done with
  | nil =>
    have hlen : ¬done.length < len := Nat.not_lt_of_le h
    exact ⟨_, by rw [readExactAt, if_neg hlen]⟩
  | cons answer answers ih =>
    rw [readExactAt_cons]
    by_cases hlt : done.length < len
    · rw [if_pos hlt]
      cases answer with
      | ok bs =>
        cases bs with
        | nil => exact ⟨_, rfl⟩
        | cons b bs =>
          refine ih ?_
          rw [List.filter_cons_of_pos rfl, List.length_cons] at h
          rw [List.length_append, List.length_cons]
          omega
      | error e =>
        by_cases hkind : e.kind = .interrupted
        · simp only [if_pos hkind]
          rw [filter_effective_interrupted hkind] at h
          exact ih h
        · simp only [if_neg hkind]
          exact ⟨_, rfl⟩
    · rw [if_neg hlt]
      exact ⟨_, rfl⟩

/-- **A write returns** once sufficiently many of its calls were not interrupted. -/
theorem writeAllAt_isSome {buf : Bytes} {offset done : ℕ} {answers : List WriteAnswer} {d : Disk}
    (h : buf.length ≤ done + (answers.filter effective).length) :
    ∃ r, (writeAllAt buf offset done answers d).1 = some r := by
  induction answers generalizing done d with
  | nil =>
    have hlen : ¬done < buf.length := Nat.not_lt_of_le h
    exact ⟨_, by rw [writeAllAt, if_neg hlen]⟩
  | cons answer answers ih =>
    rw [writeAllAt_cons]
    by_cases hlt : done < buf.length
    · rw [if_pos hlt]
      cases answer with
      | ok n =>
        cases n with
        | zero => exact ⟨_, rfl⟩
        | succ n =>
          refine ih ?_
          rw [List.filter_cons_of_pos rfl, List.length_cons] at h
          omega
      | error e =>
        by_cases hkind : e.kind = .interrupted
        · simp only [if_pos hkind]
          rw [filter_effective_interrupted hkind] at h
          exact ih h
        · simp only [if_neg hkind]
          exact ⟨_, rfl⟩
    · rw [if_neg hlt]
      exact ⟨_, rfl⟩

/-- A write whose calls neither fail nor take nothing does not fail. -/
theorem writeAllAt_ok {buf : Bytes} {offset done : ℕ} {answers : List WriteAnswer} {d : Disk}
    (h : ∀ a ∈ answers, a ≠ .ok 0 ∧ ∀ e, a = .error e → e.kind = .interrupted)
    {err : Error} : (writeAllAt buf offset done answers d).1 ≠ some (.error err) := by
  induction answers generalizing done d with
  | nil =>
    rw [writeAllAt]
    split
    · rintro ⟨⟩
    · rintro ⟨⟩
  | cons answer answers ih =>
    obtain ⟨hzero, hkind⟩ := h answer (List.mem_cons_self ..)
    have hrest := fun a ha => h a (List.mem_cons_of_mem _ ha)
    rw [writeAllAt_cons]
    by_cases hlt : done < buf.length
    · rw [if_pos hlt]
      cases answer with
      | ok n =>
        cases n with
        | zero => exact absurd rfl hzero
        | succ n => exact ih hrest
      | error e =>
        simp only [if_pos (hkind e rfl)]
        exact ih hrest
    · rw [if_neg hlt]
      rintro ⟨⟩

end Progress

end PosIo

end ContextDb
