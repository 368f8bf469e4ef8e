import ContextDb.Lib.Disk

/-!
# Programs over one file

A program that talks to a file is a tree of requests (`FileProg.Prog`): it asks
for the length, for a positioned read or write or for a sync, and continues with
the answer. Writing the program down as a tree rather than as a function of the
file is what makes its *interior* visible – a program can be stopped between two
requests, or in the middle of a write, and other programs can run in between.

Three readings of a program are used.

* `FileProg.Prog.Step` and `FileProg.Prog.Steps` – one request, and any number
  of them, against a `FileProg.Disk`. Which requests may fail, and where a
  program may be stopped, is the parameter `FileProg.Faults`. The writes are
  recorded in a `FileProg.Trace`, complete or not.
* `FileProg.Prog.exec` – the run in which nothing fails. It is a function, and
  it stops short only where a write does not fit in a file.
* `FileProg.Prog.answer` – what a program that only reads returns over a fixed
  image. A program that asks for more is refused there.
-/

namespace FileProg

open ByteFile

/-- **A program over a file**: it returns, or it makes a request and continues
with the answer. A read answers `none` when the file does not cover its range; a
write and a sync answer whether they succeeded. -/
inductive Prog (α : Type) : Type where
  /-- Return a value. -/
  | ret (a : α) : Prog α
  /-- Ask for the length of the file. -/
  | len (k : ℕ → Prog α) : Prog α
  /-- Read exactly `n` bytes at an offset. -/
  | read (off n : ℕ) (k : Option Bytes → Prog α) : Prog α
  /-- Write all of some bytes at an offset. -/
  | write (off : ℕ) (bs : Bytes) (k : Bool → Prog α) : Prog α
  /-- Make everything written durable. -/
  | sync (k : Bool → Prog α) : Prog α

namespace Prog

variable {α β : Type}

/-- Continue with the value a program returns. -/
def bind : Prog α → (α → Prog β) → Prog β
  | ret a, f => f a
  | len k, f => len fun n => (k n).bind f
  | read off n k, f => read off n fun r => (k r).bind f
  | write off bs k, f => write off bs fun b => (k b).bind f
  | sync k, f => sync fun b => (k b).bind f

instance : Monad Prog where
  pure := ret
  bind := bind

@[simp] theorem pure_eq (a : α) : (pure a : Prog α) = ret a := rfl

@[simp] theorem bind_eq (p : Prog α) (f : α → Prog β) : p >>= f = p.bind f := rfl

end Prog

/-! ### What may go wrong -/

/-- **What a run may meet**: which writes may fail and after how many bytes,
whether a sync may fail, and in the middle of which writes the process may be
stopped. The first argument is the volatile image the write meets. -/
structure Faults where
  /-- A write may fail, having placed this many of its bytes. -/
  write : Bytes → ℕ → Bytes → ℕ → Prop
  /-- A sync may fail. -/
  sync : Prop
  /-- The process may be stopped having placed this many bytes of a write. -/
  cut : Bytes → ℕ → Bytes → ℕ → Prop

namespace Faults

/-- Nothing fails, and a program is only stopped between two requests. -/
def never : Faults where
  write _ _ _ _ := False
  sync := False
  cut _ _ _ _ := False

/-- Some request may fail. -/
def CanFail (F : Faults) : Prop := (∃ v off bs n, F.write v off bs n) ∨ F.sync

@[simp] theorem not_canFail_never : ¬never.CanFail := by
  rintro (⟨_, _, _, _, h⟩ | h) <;> exact h

end Faults

/-- A write a program has asked for, with the number of its bytes that have been
placed. -/
structure WriteEvent where
  /-- Where the write was asked for. -/
  off : ℕ
  /-- The bytes asked for. -/
  bytes : Bytes
  /-- How many of them were placed. -/
  done : ℕ
  deriving DecidableEq

/-- The writes of a run, oldest first. -/
abbrev Trace : Type := List WriteEvent

namespace Prog

variable {α β : Type} {F : Faults}

/-! ### Steps -/

/-- **One request of a program.** -/
inductive Step (F : Faults) : Prog α → Disk → Trace → Prog α → Disk → Prop
  /-- The length of the file is that of the volatile image. -/
  | len (k : ℕ → Prog α) (d : Disk) : Step F (.len k) d [] (k d.volatile.length) d
  /-- A read sees the volatile image. -/
  | read (off n : ℕ) (k : Option Bytes → Prog α) (d : Disk) :
      Step F (.read off n k) d [] (k (readAt d.volatile off n)) d
  /-- A write that fits succeeds. -/
  | write {off : ℕ} {bs : Bytes} (k : Bool → Prog α) (d : Disk) (hfit : Fits off bs) :
      Step F (.write off bs k) d [⟨off, bs, bs.length⟩] (k true) (d.write off bs)
  /-- A write may fail half-way. -/
  | writeFails {off : ℕ} {bs : Bytes} {n : ℕ} (k : Bool → Prog α) (d : Disk)
      (hn : n ≤ bs.length) (hf : F.write d.volatile off bs n) :
      Step F (.write off bs k) d [⟨off, bs, n⟩] (k false) (d.write off (bs.take n))
  /-- A sync succeeds. -/
  | sync (k : Bool → Prog α) (d : Disk) : Step F (.sync k) d [] (k true) d.sync
  /-- A sync may fail, and then nothing is known to be durable. -/
  | syncFails (k : Bool → Prog α) (d : Disk) (hf : F.sync) : Step F (.sync k) d [] (k false) d

/-- **Any number of requests**, with the writes made on the way. -/
inductive Steps (F : Faults) : Prog α → Disk → Trace → Prog α → Disk → Prop
  /-- No request. -/
  | refl (p : Prog α) (d : Disk) : Steps F p d [] p d
  /-- One request and the rest. -/
  | head {p q r : Prog α} {d d' d'' : Disk} {tr tr' : Trace} :
      Step F p d tr q d' → Steps F q d' tr' r d'' → Steps F p d (tr ++ tr') r d''

/-- **A run to the end.** -/
abbrev Runs (F : Faults) (p : Prog α) (d : Disk) (tr : Trace) (a : α) (d' : Disk) : Prop :=
  Steps F p d tr (.ret a) d'

/-- **A run that is stopped**, between two requests or in the middle of a
write. -/
def Stops (F : Faults) (p : Prog α) (d : Disk) (tr : Trace) (d' : Disk) : Prop :=
  (∃ q, Steps F p d tr q d') ∨
    ∃ off bs k n d₁ tr₁, Steps F p d tr₁ (.write off bs k) d₁ ∧ n ≤ bs.length ∧
      F.cut d₁.volatile off bs n ∧ tr = tr₁ ++ [⟨off, bs, n⟩] ∧ d' = d₁.write off (bs.take n)

theorem Step.steps {p q : Prog α} {d d' : Disk} {tr : Trace} (h : Step F p d tr q d') :
    Steps F p d tr q d' := by
  simpa using Steps.head h (.refl q d')

theorem Steps.trans {p q r : Prog α} {d d' d'' : Disk} {tr tr' : Trace}
    (h : Steps F p d tr q d') (h' : Steps F q d' tr' r d'') : Steps F p d (tr ++ tr') r d'' := by
  induction h with
  | refl => exact h'
  | head hs _ ih =>
    rw [List.append_assoc]
    exact .head hs (ih h')

/-- What happens without faults may happen with them. -/
theorem Steps.of_never {p q : Prog α} {d d' : Disk} {tr : Trace}
    (h : Steps Faults.never p d tr q d') : Steps F p d tr q d' := by
  induction h with
  | refl => exact .refl _ _
  | head hs _ ih =>
    refine .head ?_ ih
    cases hs with
    | len => exact .len _ _
    | read => exact .read _ _ _ _
    | write _ _ hfit => exact .write _ _ hfit
    | writeFails _ _ _ hf => exact hf.elim
    | sync => exact .sync _ _
    | syncFails _ _ hf => exact hf.elim

/-- The requests of a program are the first ones of a longer one. -/
theorem Step.bind {p q : Prog α} {d d' : Disk} {tr : Trace} (h : Step F p d tr q d')
    (f : α → Prog β) : Step F (p.bind f) d tr (q.bind f) d' := by
  cases h with
  | len => exact .len _ _
  | read => exact .read _ _ _ _
  | write _ _ hfit => exact .write _ _ hfit
  | writeFails _ _ hn hf => exact .writeFails _ _ hn hf
  | sync => exact .sync _ _
  | syncFails _ _ hf => exact .syncFails _ _ hf

theorem Steps.bind {p q : Prog α} {d d' : Disk} {tr : Trace} (h : Steps F p d tr q d')
    (f : α → Prog β) : Steps F (p.bind f) d tr (q.bind f) d' := by
  induction h with
  | refl => exact .refl _ _
  | head hs _ ih => exact .head (hs.bind f) ih

/-- A program that has returned makes no request. -/
theorem Steps.of_ret {a : α} {q : Prog α} {d d' : Disk} {tr : Trace}
    (h : Steps F (.ret a) d tr q d') : tr = [] ∧ q = .ret a ∧ d' = d := by
  cases h with
  | refl => exact ⟨rfl, rfl, rfl⟩
  | head hs _ => cases hs

/-! ### The run in which nothing fails -/

/-- **The run in which nothing fails**; it stops short only where a write does
not fit in a file. -/
def exec : Prog α → Disk → Option (α × Disk)
  | ret a, d => some (a, d)
  | len k, d => (k d.volatile.length).exec d
  | read off n k, d => (k (readAt d.volatile off n)).exec d
  | write off bs k, d => if Fits off bs then (k true).exec (d.write off bs) else none
  | sync k, d => (k true).exec d.sync

/-- **The run in which nothing fails is a run without faults.** -/
theorem runs_of_exec {p : Prog α} {d d' : Disk} {a : α} (h : p.exec d = some (a, d')) :
    ∃ tr, Runs F p d tr a d' := by
  induction p generalizing d with
  | ret b =>
    obtain ⟨rfl, rfl⟩ : b = a ∧ d = d' := by simpa [exec] using h
    exact ⟨[], .refl _ _⟩
  | len k ih =>
    obtain ⟨tr, hr⟩ := ih _ h
    exact ⟨_, .head (.len k d) hr⟩
  | read off n k ih =>
    obtain ⟨tr, hr⟩ := ih _ h
    exact ⟨_, .head (.read off n k d) hr⟩
  | write off bs k ih =>
    rw [exec] at h
    split at h
    · rename_i hfit
      obtain ⟨tr, hr⟩ := ih _ h
      exact ⟨_, .head (.write k d hfit) hr⟩
    · cases h
  | sync k ih =>
    obtain ⟨tr, hr⟩ := ih _ h
    exact ⟨_, .head (.sync k d) hr⟩

@[simp] theorem exec_bind (p : Prog α) (f : α → Prog β) (d : Disk) :
    (p.bind f).exec d = (p.exec d).bind fun r => (f r.1).exec r.2 := by
  induction p generalizing d with
  | ret a => rfl
  | len k ih => exact ih _ _
  | read off n k ih => exact ih _ _
  | write off bs k ih =>
    by_cases hfit : Fits off bs
    · simp only [bind, exec, if_pos hfit]
      exact ih _ _
    · simp only [bind, exec, if_neg hfit, Option.bind_none]
  | sync k ih => exact ih _ _

/-- **A file never outgrows the largest length.** -/
theorem exec_length_le {p : Prog α} {d d' : Disk} {a : α} (h : p.exec d = some (a, d'))
    (hd : d.volatile.length ≤ maxFileLen) : d'.volatile.length ≤ maxFileLen := by
  induction p generalizing d with
  | ret b =>
    cases h
    exact hd
  | len k ih => exact ih _ h hd
  | read off n k ih => exact ih _ h hd
  | write off bs k ih =>
    rw [exec] at h
    by_cases hfit : Fits off bs
    · rw [if_pos hfit] at h
      refine ih _ h ?_
      rw [Disk.volatile_write]
      rcases hfit with rfl | hfit
      · rwa [writeAt_nil]
      · exact (length_writeAt_le _ _ _).trans (max_le hd hfit)
    · rw [if_neg hfit] at h
      cases h
  | sync k ih => exact ih _ h hd

/-! ### What a reader returns over a fixed image -/

/-- **What a reading program returns over a fixed image.** Requests to change
the file are refused. -/
def answer : Prog α → Bytes → α
  | ret a, _ => a
  | len k, v => (k v.length).answer v
  | read off n k, v => (k (readAt v off n)).answer v
  | write _ _ k, v => (k false).answer v
  | sync k, v => (k false).answer v

@[simp] theorem answer_ret (a : α) (v : Bytes) : (ret a).answer v = a := rfl

theorem answer_bind (p : Prog α) (f : α → Prog β) (v : Bytes) :
    (p.bind f).answer v = (f (p.answer v)).answer v := by
  induction p with
  | ret a => rfl
  | len k ih => exact ih _
  | read off n k ih => exact ih _
  | write off bs k ih => exact ih _
  | sync k ih => exact ih _

end Prog

end FileProg
