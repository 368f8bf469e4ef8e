import ContextDb.Lib.Program

/-!
# Rules for file programs

Judgments about a program over a file, each with the rules that prove it
along the program's own structure.

* `FileProg.Prog.Safe F I Q p tr d` – started on `d` with the writes `tr` behind
  it, `p` satisfies `I` at *every* point where it may be stopped, and `Q` when it
  returns. Both speak of the writes made so far. It is what a crash argument
  needs: `I` is claimed between any two requests and inside every write.
* `FileProg.Prog.Returns S a p` – `p` only reads, and it returns `a` whatever
  images satisfying `S` answer its reads, *a different one each time*. It is what
  an argument about a reader next to a writer needs, and it contains the
  ordinary statement about one fixed image.
* `FileProg.Prog.Reader p` – `p` only reads. Over one fixed image it returns its
  answer, whatever the image is (`FileProg.Prog.Reader.returns`).
* `FileProg.Prog.Within n p` – no write of `p` ends behind `n`, whatever the file
  answers. It bounds the length of the file, wherever `p` is stopped.
* `FileProg.Prog.Issues F W p d` – started on `d`, every write `p` asks for is one of
  `W`, which is told the disk the write meets. It is what an argument about the order
  of writes and syncs needs.
* `FileProg.Prog.Reads Q p rs` – when `p` returns, the reads it has asked for, those in
  `rs` before it, satisfy `Q`, *whatever its requests are answered*. It is what bounds the
  work on a file that nobody vouches for. The runs it speaks of are those of
  `FileProg.Prog.Asks`.

The second is a case of the first (`FileProg.Prog.Returns.safe`).
-/

namespace FileProg

open ByteFile

namespace Prog

variable {α β : Type} {F : Faults}

/-! ### What holds wherever a program may be stopped -/

section Safe

/-- **Safety of a program**: `I` at every point where it may be stopped, `Q` at
its end. -/
def Safe (F : Faults) (I : Trace → Disk → Prop) (Q : Trace → α → Disk → Prop) :
    Prog α → Trace → Disk → Prop
  | ret a, tr, d => I tr d ∧ Q tr a d
  | len k, tr, d => I tr d ∧ Safe F I Q (k d.volatile.length) tr d
  | read off n k, tr, d => I tr d ∧ Safe F I Q (k (readAt d.volatile off n)) tr d
  | write off bs k, tr, d => I tr d ∧
      (∀ n ≤ bs.length, F.cut d.volatile off bs n →
        I (tr ++ [⟨off, bs, n⟩]) (d.write off (bs.take n))) ∧
      (Fits off bs → Safe F I Q (k true) (tr ++ [⟨off, bs, bs.length⟩]) (d.write off bs)) ∧
      ∀ n ≤ bs.length, F.write d.volatile off bs n →
        Safe F I Q (k false) (tr ++ [⟨off, bs, n⟩]) (d.write off (bs.take n))
  | sync k, tr, d => I tr d ∧ Safe F I Q (k true) tr d.sync ∧ (F.sync → Safe F I Q (k false) tr d)

variable {I J : Trace → Disk → Prop} {Q : Trace → α → Disk → Prop} {R : Trace → β → Disk → Prop}

/-- A safe program satisfies the invariant where it stands. -/
theorem Safe.inv {p : Prog α} {tr : Trace} {d : Disk} (h : p.Safe F I Q tr d) : I tr d := by
  cases p <;> exact h.1

/-- **One request preserves safety.** -/
theorem Safe.step {p q : Prog α} {tr tr' : Trace} {d d' : Disk} (h : p.Safe F I Q tr d)
    (hs : Step F p d tr' q d') : q.Safe F I Q (tr ++ tr') d' := by
  cases hs with
  | len k d =>
    rw [List.append_nil]
    exact h.2
  | read off n k d =>
    rw [List.append_nil]
    exact h.2
  | write k d hfit => exact h.2.2.1 hfit
  | writeFails k d hn hf => exact h.2.2.2 _ hn hf
  | sync k d =>
    rw [List.append_nil]
    exact h.2.1
  | syncFails k d hf =>
    rw [List.append_nil]
    exact h.2.2 hf

/-- **Any number of requests preserve safety.** -/
theorem Safe.steps {p q : Prog α} {tr tr' : Trace} {d d' : Disk} (h : p.Safe F I Q tr d)
    (hs : Steps F p d tr' q d') : q.Safe F I Q (tr ++ tr') d' := by
  induction hs generalizing tr with
  | refl =>
    rw [List.append_nil]
    exact h
  | head hstep _ ih =>
    rw [← List.append_assoc]
    exact ih (h.step hstep)

/-- **What a safe program has established when it returns.** -/
theorem Safe.runs {p : Prog α} {tr : Trace} {d d' : Disk} {a : α} (h : p.Safe F I Q [] d)
    (hr : Runs F p d tr a d') : Q tr a d' :=
  (h.steps hr).2

/-- **What holds where a safe program is stopped.** -/
theorem Safe.stops {p : Prog α} {tr : Trace} {d d' : Disk} (h : p.Safe F I Q [] d)
    (hr : Stops F p d tr d') : I tr d' := by
  rcases hr with ⟨q, hs⟩ | ⟨off, bs, k, n, d₁, tr₁, hs, hn, hcut, rfl, rfl⟩
  · exact (h.steps hs).inv
  · exact (h.steps hs).2.1 n hn hcut

/-- **Consequence.** -/
theorem Safe.mono {p : Prog α} {Q' : Trace → α → Disk → Prop} {tr : Trace} {d : Disk}
    (h : p.Safe F I Q tr d) (hI : ∀ tr d, I tr d → J tr d)
    (hQ : ∀ tr a d, I tr d → Q tr a d → Q' tr a d) : p.Safe F J Q' tr d := by
  induction p generalizing tr d with
  | ret a => exact ⟨hI _ _ h.1, hQ _ _ _ h.1 h.2⟩
  | len k ih => exact ⟨hI _ _ h.1, ih _ h.2⟩
  | read off n k ih => exact ⟨hI _ _ h.1, ih _ h.2⟩
  | write off bs k ih =>
    exact ⟨hI _ _ h.1, fun n hn hc => hI _ _ (h.2.1 n hn hc), fun hf => ih _ (h.2.2.1 hf),
      fun n hn hf => ih _ (h.2.2.2 n hn hf)⟩
  | sync k ih => exact ⟨hI _ _ h.1, ih _ h.2.1, fun hf => ih _ (h.2.2 hf)⟩

/-- **Sequencing**: the rest of a program takes over where its first part
returns. -/
theorem Safe.bind {p : Prog α} {f : α → Prog β} {tr : Trace} {d : Disk}
    (h : p.Safe F I (fun tr a d => (f a).Safe F I R tr d) tr d) :
    (p.bind f).Safe F I R tr d := by
  induction p generalizing tr d with
  | ret a => exact h.2
  | len k ih => exact ⟨h.1, ih _ h.2⟩
  | read off n k ih => exact ⟨h.1, ih _ h.2⟩
  | write off bs k ih =>
    exact ⟨h.1, h.2.1, fun hf => ih _ (h.2.2.1 hf), fun n hn hf => ih _ (h.2.2.2 n hn hf)⟩
  | sync k ih => exact ⟨h.1, ih _ h.2.1, fun hf => ih _ (h.2.2 hf)⟩

end Safe

/-! ### What a reader returns, whoever writes meanwhile -/

section Returns

/-- **A reader returns `a`** whatever images in `S` answer its reads. -/
def Returns (S : Bytes → Prop) (a : α) : Prog α → Prop
  | ret b => b = a
  | len k => ∀ v, S v → Returns S a (k v.length)
  | read off n k => ∀ v, S v → Returns S a (k (readAt v off n))
  | write _ _ _ => False
  | sync _ => False

variable {S S' : Bytes → Prop} {a : α} {b : β}

theorem Returns.mono {p : Prog α} (h : p.Returns S a) (hS : ∀ v, S' v → S v) :
    p.Returns S' a := by
  induction p with
  | ret b => exact h
  | len k ih => exact fun v hv => ih _ (h v (hS v hv))
  | read off n k ih => exact fun v hv => ih _ (h v (hS v hv))
  | write off bs k => exact h
  | sync k => exact h

theorem Returns.bind {p : Prog α} {f : α → Prog β} (h : p.Returns S a)
    (hf : (f a).Returns S b) : (p.bind f).Returns S b := by
  induction p with
  | ret c =>
    obtain rfl : c = a := h
    exact hf
  | len k ih => exact fun v hv => ih _ (h v hv)
  | read off n k ih => exact fun v hv => ih _ (h v hv)
  | write off bs k => exact h.elim
  | sync k => exact h.elim

/-- In particular it returns `a` over one fixed image. -/
theorem Returns.answer_eq {p : Prog α} (h : p.Returns S a) {v : Bytes} (hv : S v) :
    p.answer v = a := by
  induction p with
  | ret b => exact h
  | len k ih => exact ih _ (h v hv)
  | read off n k ih => exact ih _ (h v hv)
  | write off bs k => exact h.elim
  | sync k => exact h.elim

/-- Its run in which nothing fails goes through, and changes nothing. -/
theorem Returns.exec_eq {p : Prog α} (h : p.Returns S a) {d : Disk} (hd : S d.volatile) :
    p.exec d = some (a, d) := by
  induction p with
  | ret b =>
    obtain rfl : b = a := h
    rfl
  | len k ih => exact ih _ (h _ hd)
  | read off n k ih => exact ih _ (h _ hd)
  | write off bs k => exact h.elim
  | sync k => exact h.elim

/-- A reader leaves the disk alone and stays a reader. -/
theorem Returns.step {p q : Prog α} {d d' : Disk} {tr : Trace} (h : p.Returns S a)
    (hd : S d.volatile) (hs : Step F p d tr q d') : q.Returns S a ∧ tr = [] ∧ d' = d := by
  cases hs with
  | len k d => exact ⟨h _ hd, rfl, rfl⟩
  | read off n k d => exact ⟨h _ hd, rfl, rfl⟩
  | write | writeFails | sync | syncFails => exact h.elim

/-- **A reader is safe** wherever the disk it meets is. -/
theorem Returns.safe {I : Trace → Disk → Prop} {Q : Trace → α → Disk → Prop} {p : Prog α}
    {tr : Trace} {d : Disk} (h : p.Returns S a) (hd : S d.volatile) (hI : I tr d)
    (hQ : Q tr a d) : p.Safe F I Q tr d := by
  induction p with
  | ret b =>
    obtain rfl : b = a := h
    exact ⟨hI, hQ⟩
  | len k ih => exact ⟨hI, ih _ (h _ hd)⟩
  | read off n k ih => exact ⟨hI, ih _ (h _ hd)⟩
  | write off bs k => exact h.elim
  | sync k => exact h.elim

/-- **A reader running alone** returns its answer and changes nothing. -/
theorem Returns.of_runs {p : Prog α} {d d' : Disk} {tr : Trace} {b : α} (h : p.Returns S a)
    (hd : S d.volatile) (hr : Runs F p d tr b d') : tr = [] ∧ b = a ∧ d' = d := by
  have hsafe : p.Safe F (fun tr e => tr = [] ∧ e = d) (fun tr c e => tr = [] ∧ c = a ∧ e = d)
      [] d :=
    h.safe hd ⟨rfl, rfl⟩ ⟨rfl, rfl, rfl⟩
  exact hsafe.runs hr

/-- A reader that is stopped has changed nothing. -/
theorem Returns.stops_eq {p : Prog α} {d d' : Disk} {tr : Trace} (h : p.Returns S a)
    (hd : S d.volatile) (hs : Stops F p d tr d') : d' = d := by
  have hsafe : p.Safe F (fun _ e => e = d) (fun _ _ _ => True) [] d := h.safe hd rfl trivial
  exact hsafe.stops hs

end Returns

/-! ### Programs that only read -/

section Reader

/-- **A program that only reads.** -/
def Reader : Prog α → Prop
  | ret _ => True
  | len k => ∀ n, Reader (k n)
  | read _ _ k => ∀ r, Reader (k r)
  | write _ _ _ => False
  | sync _ => False

theorem Reader.bind {p : Prog α} {f : α → Prog β} (h : p.Reader) (hf : ∀ a, (f a).Reader) :
    (p.bind f).Reader := by
  induction p with
  | ret a => exact hf a
  | len k ih => exact fun n => ih n (h n)
  | read off n k ih => exact fun r => ih r (h r)
  | write off bs k => exact h
  | sync k => exact h

/-- **Over one fixed image a reader returns its answer.** -/
theorem Reader.returns {p : Prog α} (h : p.Reader) (v : Bytes) :
    p.Returns (fun w => w = v) (p.answer v) := by
  induction p with
  | ret a => exact rfl
  | len k ih =>
    rintro w rfl
    exact ih _ (h _)
  | read off n k ih =>
    rintro w rfl
    exact ih _ (h _)
  | write off bs k => exact h.elim
  | sync k => exact h.elim

end Reader

/-! ### How long the file gets -/

section Within

variable {n : ℕ}

/-- **No write ends behind `n`.** -/
def Within (n : ℕ) : Prog α → Prop
  | ret _ => True
  | len k => ∀ m, Within n (k m)
  | read _ _ k => ∀ r, Within n (k r)
  | write off bs k => off + bs.length ≤ n ∧ ∀ b, Within n (k b)
  | sync k => ∀ b, Within n (k b)

theorem Within.bind {p : Prog α} {f : α → Prog β} (h : p.Within n) (hf : ∀ a, (f a).Within n) :
    (p.bind f).Within n := by
  induction p with
  | ret a => exact hf a
  | len k ih => exact fun m => ih m (h m)
  | read off m k ih => exact fun r => ih r (h r)
  | write off bs k ih => exact ⟨h.1, fun b => ih b (h.2 b)⟩
  | sync k ih => exact fun b => ih b (h b)

/-- A write that ends before `n`, in full or in part. -/
theorem length_write_le {d : Disk} {off k : ℕ} {bs : Bytes} (hd : d.volatile.length ≤ n)
    (hw : off + bs.length ≤ n) : (d.write off (bs.take k)).volatile.length ≤ n := by
  have hle := length_writeAt_le d.volatile off (bs.take k)
  rw [List.length_take] at hle
  rw [Disk.volatile_write]
  omega

/-- **The file stays within the bound.** -/
theorem Within.steps {p q : Prog α} {d d' : Disk} {tr : Trace} (h : p.Within n)
    (hd : d.volatile.length ≤ n) (hs : Steps F p d tr q d') :
    q.Within n ∧ d'.volatile.length ≤ n := by
  induction hs with
  | refl => exact ⟨h, hd⟩
  | head hstep _ ih =>
    cases hstep with
    | len k d => exact ih (h _) hd
    | read off m k d => exact ih (h _) hd
    | @write off bs k d hfit =>
      have hw := length_write_le (k := bs.length) hd h.1
      rw [List.take_length] at hw
      exact ih (h.2 _) hw
    | writeFails k d hn hf => exact ih (h.2 _) (length_write_le hd h.1)
    | sync k d => exact ih (h _) hd
    | syncFails k d hf => exact ih (h _) hd

/-- Also where the program is stopped. -/
theorem Within.stops {p : Prog α} {d d' : Disk} {tr : Trace} (h : p.Within n)
    (hd : d.volatile.length ≤ n) (hs : Stops F p d tr d') : d'.volatile.length ≤ n := by
  rcases hs with ⟨q, hs⟩ | ⟨off, bs, k, m, d₁, tr₁, hs, hm, hcut, rfl, rfl⟩
  · exact (h.steps hd hs).2
  · obtain ⟨hq, hd₁⟩ := h.steps hd hs
    exact length_write_le hd₁ hq.1

end Within

/-! ### What is written, and when -/

section Issues

/-- **Every write a program asks for is in `W`**, with the disk it meets. -/
def Issues (F : Faults) (W : Disk → ℕ → Bytes → Prop) : Prog α → Disk → Prop
  | ret _, _ => True
  | len k, d => Issues F W (k d.volatile.length) d
  | read off n k, d => Issues F W (k (readAt d.volatile off n)) d
  | write off bs k, d => W d off bs ∧ (Fits off bs → Issues F W (k true) (d.write off bs)) ∧
      ∀ n ≤ bs.length, F.write d.volatile off bs n →
        Issues F W (k false) (d.write off (bs.take n))
  | sync k, d => Issues F W (k true) d.sync ∧ (F.sync → Issues F W (k false) d)

variable {W W' : Disk → ℕ → Bytes → Prop} {p q : Prog α} {f : α → Prog β} {d d' : Disk}

/-- **One request** issues no other writes. -/
theorem Issues.step {tr : Trace} (h : p.Issues F W d) (hs : Step F p d tr q d') :
    q.Issues F W d' := by
  cases hs with
  | len k d => exact h
  | read off n k d => exact h
  | write k d hfit => exact h.2.1 hfit
  | writeFails k d hn hf => exact h.2.2 _ hn hf
  | sync k d => exact h.1
  | syncFails k d hf => exact h.2 hf

/-- **Whenever the program stands at a write**, it is one of `W`. -/
theorem Issues.at_write {tr : Trace} {off : ℕ} {bs : Bytes} {k : Bool → Prog α}
    (h : p.Issues F W d) (hs : Steps F p d tr (.write off bs k) d') : W d' off bs := by
  generalize hr : (Prog.write off bs k : Prog α) = r at hs
  induction hs with
  | refl =>
    subst hr
    exact h.1
  | head hstep _ ih => exact ih (h.step hstep) hr

/-- **Sequencing**: what the first part establishes may be used for the rest. -/
theorem Issues.bind {I : Trace → Disk → Prop} {Q : Trace → α → Disk → Prop} {tr : Trace}
    (h : p.Issues F W d) (hs : p.Safe F I Q tr d)
    (hf : ∀ tr a d, I tr d → Q tr a d → (f a).Issues F W d) : (p.bind f).Issues F W d := by
  induction p generalizing tr d with
  | ret a => exact hf tr a d hs.1 hs.2
  | len k ih => exact ih _ h hs.2
  | read off n k ih => exact ih _ h hs.2
  | write off bs k ih =>
    exact ⟨h.1, fun hfit => ih _ (h.2.1 hfit) (hs.2.2.1 hfit),
      fun n hn hw => ih _ (h.2.2 n hn hw) (hs.2.2.2 n hn hw)⟩
  | sync k ih => exact ⟨ih _ h.1 hs.2.1, fun hsync => ih _ (h.2 hsync) (hs.2.2 hsync)⟩

/-- What a program does with its value changes no write. -/
theorem Issues.map {g : α → β} (h : p.Issues F W d) :
    (p.bind fun a => .ret (g a)).Issues F W d := by
  induction p generalizing d with
  | ret a => trivial
  | len k ih => exact ih _ h
  | read off n k ih => exact ih _ h
  | write off bs k ih =>
    exact ⟨h.1, fun hfit => ih _ (h.2.1 hfit), fun n hn hw => ih _ (h.2.2 n hn hw)⟩
  | sync k ih => exact ⟨ih _ h.1, fun hsync => ih _ (h.2 hsync)⟩

/-- A reader writes nothing. -/
theorem Reader.issues (h : p.Reader) : p.Issues F W d := by
  induction p with
  | ret a => trivial
  | len k ih => exact ih _ (h _)
  | read off n k ih => exact ih _ (h _)
  | write off bs k => exact h.elim
  | sync k => exact h.elim

end Issues

/-! ### What is read, whatever the answers are -/

section Reads

/-- **How a program comes to a point** when its requests are answered anyhow, with the
reads it has asked for on the way: where, and how many bytes. -/
inductive Asks : Prog α → List (ℕ × ℕ) → Prog α → Prop
  /-- No request. -/
  | refl (p : Prog α) : Asks p [] p
  /-- The length of the file. -/
  | len {k : ℕ → Prog α} {q : Prog α} {rs : List (ℕ × ℕ)} (n : ℕ) (h : Asks (k n) rs q) :
      Asks (.len k) rs q
  /-- A read. -/
  | read {off n : ℕ} {k : Option Bytes → Prog α} {q : Prog α} {rs : List (ℕ × ℕ)}
      (r : Option Bytes) (h : Asks (k r) rs q) : Asks (.read off n k) ((off, n) :: rs) q
  /-- A write. -/
  | write {off : ℕ} {bs : Bytes} {k : Bool → Prog α} {q : Prog α} {rs : List (ℕ × ℕ)}
      (b : Bool) (h : Asks (k b) rs q) : Asks (.write off bs k) rs q
  /-- A sync. -/
  | sync {k : Bool → Prog α} {q : Prog α} {rs : List (ℕ × ℕ)} (b : Bool) (h : Asks (k b) rs q) :
      Asks (.sync k) rs q

/-- **What a program has read when it returns**, whatever its requests are answered. -/
def Reads (Q : List (ℕ × ℕ) → α → Prop) : Prog α → List (ℕ × ℕ) → Prop
  | ret a, rs => Q rs a
  | len k, rs => ∀ n, Reads Q (k n) rs
  | read off n k, rs => ∀ r, Reads Q (k r) (rs ++ [(off, n)])
  | write _ _ k, rs => ∀ b, Reads Q (k b) rs
  | sync k, rs => ∀ b, Reads Q (k b) rs

variable {Q Q' : List (ℕ × ℕ) → α → Prop} {T : List (ℕ × ℕ) → β → Prop} {p q : Prog α}
  {f g : α → Prog β} {rs rs' : List (ℕ × ℕ)}

/-- A weaker postcondition. -/
theorem Reads.mono (h : p.Reads Q rs) (hQ : ∀ rs a, Q rs a → Q' rs a) : p.Reads Q' rs := by
  induction p generalizing rs with
  | ret a => exact hQ rs a h
  | len k ih => exact fun n => ih n (h n)
  | read off n k ih => exact fun r => ih r (h r)
  | write off bs k ih => exact fun b => ih b (h b)
  | sync k ih => exact fun b => ih b (h b)

/-- **Sequencing.** -/
theorem Reads.bind (h : p.Reads Q rs) (hf : ∀ rs a, Q rs a → (f a).Reads T rs) :
    (p.bind f).Reads T rs := by
  induction p generalizing rs with
  | ret a => exact hf rs a h
  | len k ih => exact fun n => ih n (h n)
  | read off n k ih => exact fun r => ih r (h r)
  | write off bs k ih => exact fun b => ih b (h b)
  | sync k ih => exact fun b => ih b (h b)

/-- What a program is followed by matters only for the values it can return. -/
theorem Reads.bind_congr (h : p.Reads Q rs) (hf : ∀ rs a, Q rs a → f a = g a) :
    p.bind f = p.bind g := by
  induction p generalizing rs with
  | ret a => exact hf rs a h
  | len k ih => exact congrArg Prog.len (funext fun n => ih n (h n))
  | read off n k ih => exact congrArg (Prog.read off n) (funext fun r => ih r (h r))
  | write off bs k ih => exact congrArg (Prog.write off bs) (funext fun b => ih b (h b))
  | sync k ih => exact congrArg Prog.sync (funext fun b => ih b (h b))

/-- **Wherever the program comes**, the rest of it is bound by the judgment. -/
theorem Reads.asks (h : p.Reads Q rs) (ha : Asks p rs' q) : q.Reads Q (rs ++ rs') := by
  induction ha generalizing rs with
  | refl =>
    rw [List.append_nil]
    exact h
  | len n _ ih => exact ih (h n)
  | read r _ ih =>
    rw [List.append_cons]
    exact ih (h r)
  | write b _ ih => exact ih (h b)
  | sync b _ ih => exact ih (h b)

/-- Every program has an end to come to. -/
theorem Reads.ends (h : p.Reads Q rs) : ∃ rs' a, rs <+: rs' ∧ Q rs' a := by
  induction p generalizing rs with
  | ret a => exact ⟨rs, a, List.prefix_refl rs, h⟩
  | len k ih => exact ih 0 (h 0)
  | read off n k ih =>
    obtain ⟨rs', a, hp, hQ⟩ := ih none (h none)
    exact ⟨rs', a, (List.prefix_append rs _).trans hp, hQ⟩
  | write off bs k ih => exact ih false (h false)
  | sync k ih => exact ih false (h false)

/-- A run answers the requests in some way. -/
theorem Asks.of_steps {d d' : Disk} {tr : Trace} (h : Steps F p d tr q d') : ∃ rs, Asks p rs q := by
  induction h with
  | refl => exact ⟨[], .refl _⟩
  | head hstep _ ih =>
    obtain ⟨rs, ha⟩ := ih
    cases hstep with
    | len k d => exact ⟨rs, .len _ ha⟩
    | read off n k d => exact ⟨(off, n) :: rs, .read _ ha⟩
    | write k d hfit => exact ⟨rs, .write _ ha⟩
    | writeFails k d hn hf => exact ⟨rs, .write _ ha⟩
    | sync k d => exact ⟨rs, .sync _ ha⟩
    | syncFails k d hf => exact ⟨rs, .sync _ ha⟩

/-- **What a run returns** is bound by the judgment. -/
theorem Reads.runs {d d' : Disk} {tr : Trace} {a : α} (h : p.Reads Q [])
    (hr : Runs F p d tr a d') : ∃ rs, Q rs a := by
  obtain ⟨rs, ha⟩ := Asks.of_steps hr
  exact ⟨rs, h.asks ha⟩

/-- **Wherever the program is stopped**, it has read a part of what it may have read when it
returns. -/
theorem Reads.anywhere (h : p.Reads Q []) (ha : Asks p rs q) : ∃ rs' a, rs <+: rs' ∧ Q rs' a :=
  (h.asks ha).ends

end Reads

end Prog

end FileProg
