import ContextDb.Lib.Logic
import ContextDb.Lib.Machine
import Mathlib.Logic.Relation

/-!
# A program next to others

A program whose requests are served while others work on the same file. The
others are an arbitrary step relation on their own state and the disk, the
*environment*; between any two requests of the program it may take any number of
steps. `FileProg.Beside` is the interleaving, and it records the image that each
request of the program meets.

The rule is that of rely and guarantee, cut down to what a reader needs
(`FileProg.Beside.returns`): if an invariant survives every step of the
environment and puts every image it meets into `S`, then a program that returns
`a` over all images in `S` returns `a` here. The judgment `Prog.Returns` was made
for this – it lets a different image answer each request.
-/

namespace FileProg

open ByteFile

variable {σ α ι ρ : Type}

/-- **A program next to an environment**: it makes requests, and between them the
environment takes steps. The list holds the images its requests meet, in
order. -/
inductive Beside (E : σ × Disk → σ × Disk → Prop) :
    Prog α → σ × Disk → List Bytes → Prog α → σ × Disk → Prop
  /-- Nothing more happens. -/
  | refl (p : Prog α) (x : σ × Disk) : Beside E p x [] p x
  /-- The environment takes a step. -/
  | env {p q : Prog α} {x y z : σ × Disk} {vs : List Bytes} (h : E x y)
      (rest : Beside E p y vs q z) : Beside E p x vs q z
  /-- The program makes a request. -/
  | request {p q r : Prog α} {s : σ} {d d' : Disk} {z : σ × Disk} {tr : Trace} {vs : List Bytes}
      (h : Prog.Step .never p d tr q d') (rest : Beside E q (s, d') vs r z) :
      Beside E p (s, d) (d.volatile :: vs) r z

section Rules

variable {E : σ × Disk → σ × Disk → Prop} {I : σ × Disk → Prop} {S : Bytes → Prop}
  {p q : Prog α} {x y : σ × Disk} {vs : List Bytes} {a b : α}

/-- **A reader next to an environment** stays a reader, and whatever the
environment preserves it preserves. -/
theorem Beside.reader (hE : ∀ x y, I x → E x y → I y) (hS : ∀ x, I x → S x.2.volatile)
    (h : Beside E p x vs q y) (hp : p.Returns S a) (hx : I x) : q.Returns S a ∧ I y := by
  induction h with
  | refl => exact ⟨hp, hx⟩
  | env hstep _ ih => exact ih hp (hE _ _ hx hstep)
  | request hreq _ ih =>
    obtain ⟨hq, -, rfl⟩ := hp.step (hS _ hx) hreq
    exact ih hq hx

/-- **A reader returns what it would return alone**, whatever the environment
does meanwhile. -/
theorem Beside.returns (hE : ∀ x y, I x → E x y → I y) (hS : ∀ x, I x → S x.2.volatile)
    (h : Beside E p x vs (.ret b) y) (hp : p.Returns S a) (hx : I x) : b = a ∧ I y :=
  h.reader hE hS hp hx

/-- The environment may run ahead. -/
theorem Beside.env_steps (h : Relation.ReflTransGen E x y) {z : σ × Disk}
    (rest : Beside E p y vs q z) : Beside E p x vs q z := by
  induction h using Relation.ReflTransGen.head_induction_on with
  | refl => exact rest
  | head hstep _ ih => exact .env hstep ih

/-- **The first request of a program that returns**: the environment runs ahead,
then the request is made. -/
theorem Beside.first (h : Beside E p x vs (.ret a) y) :
    (p = .ret a ∧ vs = [] ∧ Relation.ReflTransGen E x y) ∨
      ∃ s d q d' tr vs', Relation.ReflTransGen E x (s, d) ∧ Prog.Step .never p d tr q d' ∧
        vs = d.volatile :: vs' ∧ Beside E q (s, d') vs' (.ret a) y := by
  generalize hr : (Prog.ret a : Prog α) = r at h
  induction h with
  | refl =>
    subst hr
    exact Or.inl ⟨rfl, rfl, .refl⟩
  | env hstep _ ih =>
    rcases ih hr with ⟨hp, hvs, hsteps⟩ | ⟨s, d, q, d', tr, vs', hsteps, hreq⟩
    · exact Or.inl ⟨hp, hvs, .head hstep hsteps⟩
    · exact Or.inr ⟨s, d, q, d', tr, vs', .head hstep hsteps, hreq⟩
  | request hreq rest =>
    subst hr
    exact Or.inr ⟨_, _, _, _, _, _, .refl, hreq, rfl, rest⟩

/-- A program that asks for the length of the file. -/
theorem Beside.first_len {k : ℕ → Prog α} (h : Beside E (.len k) x vs (.ret a) y) :
    ∃ z vs', Relation.ReflTransGen E x z ∧ vs = z.2.volatile :: vs' ∧
      Beside E (k z.2.volatile.length) z vs' (.ret a) y := by
  rcases h.first with ⟨hp, -⟩ | ⟨s, d, q, d', tr, vs', hsteps, hreq, hvs, rest⟩
  · cases hp
  · cases hreq with
    | len => exact ⟨(s, d), vs', hsteps, hvs, rest⟩

/-- A program that reads. -/
theorem Beside.first_read {off n : ℕ} {k : Option Bytes → Prog α}
    (h : Beside E (.read off n k) x vs (.ret a) y) :
    ∃ z vs', Relation.ReflTransGen E x z ∧ vs = z.2.volatile :: vs' ∧
      Beside E (k (readAt z.2.volatile off n)) z vs' (.ret a) y := by
  rcases h.first with ⟨hp, -⟩ | ⟨s, d, q, d', tr, vs', hsteps, hreq, hvs, rest⟩
  · cases hp
  · cases hreq with
    | read => exact ⟨(s, d), vs', hsteps, hvs, rest⟩

/-- A program that has returned. -/
theorem Beside.of_ret (h : Beside E (.ret b) x vs (.ret a) y) :
    a = b ∧ vs = [] ∧ Relation.ReflTransGen E x y := by
  rcases h.first with ⟨hp, hvs, hsteps⟩ | ⟨s, d, q, d', tr, vs', -, hreq, -⟩
  · cases hp
    exact ⟨rfl, hvs, hsteps⟩
  · cases hreq

end Rules

/-! ### A reader that is overtaken -/

section Overtaken

variable {E : σ × Disk → σ × Disk → Prop} {S : Bytes → Prop} {p q : Prog α} {a : α} {s t : σ}
  {d d' : Disk}

/-- A program may be left alone. -/
theorem Beside.of_steps {tr : Trace} (h : Prog.Steps .never p d tr q d') :
    ∃ vs, Beside E p (s, d) vs q (s, d') := by
  induction h with
  | refl => exact ⟨_, .refl _ _⟩
  | head hreq _ ih =>
    obtain ⟨vs, hrest⟩ := ih
    exact ⟨_, .request hreq hrest⟩

/-- **A reader may be overtaken** between its first request and the second. -/
theorem Prog.Returns.overtaken (hp : p.Returns S a) (hd : S d.volatile) (hd' : S d'.volatile)
    (hsteps : Relation.ReflTransGen E (s, d) (t, d')) :
    ∃ vs, Beside E p (s, d) vs (.ret a) (t, d') := by
  have hrest : ∀ {q : Prog α}, q.Returns S a → ∃ vs, Beside E q (s, d) vs (.ret a) (t, d') :=
    fun hq => by
      obtain ⟨tr, hruns⟩ := Prog.runs_of_exec (F := .never) (hq.exec_eq hd')
      obtain ⟨vs, h⟩ := Beside.of_steps (E := E) (s := t) hruns
      exact ⟨vs, .env_steps hsteps h⟩
  cases p with
  | ret b => exact hrest hp
  | len k =>
    obtain ⟨vs, h⟩ := hrest (hp _ hd)
    exact ⟨_, .request (.len k d) h⟩
  | read off n k =>
    obtain ⟨vs, h⟩ := hrest (hp _ hd)
    exact ⟨_, .request (.read off n k d) h⟩
  | write off bs k => exact hp.elim
  | sync k => exact hp.elim

end Overtaken

/-! ### A client of many calls -/

/-- **One call of a client**, made next to an environment. -/
def CallBeside (E : σ × Disk → σ × Disk → Prop) (prog : ι → Prog ρ) (x : σ × Disk) (i : ι) (r : ρ)
    (y : σ × Disk) : Prop :=
  ∃ vs, Beside E (prog i) x vs (.ret r) y

section Calls

variable {E : σ × Disk → σ × Disk → Prop} {I : σ × Disk → Prop} {S : Bytes → Prop}
  {prog : ι → Prog ρ} {answer : ι → ρ} {x y : σ × Disk} {tr : List (ι × ρ)}

/-- **A client that only reads** is answered as if it were alone, in every call
it makes. -/
theorem calls_answered (hE : ∀ x y, I x → E x y → I y) (hS : ∀ x, I x → S x.2.volatile)
    (hp : ∀ i, (prog i).Returns S (answer i)) (h : Machine.Run (CallBeside E prog) x tr y)
    (hx : I x) : ∀ q ∈ tr, q.2 = answer q.1 := by
  induction h with
  | nil =>
    rintro q ⟨⟩
  | cons hcall _ ih =>
    obtain ⟨vs, hbeside⟩ := hcall
    obtain ⟨rfl, hy⟩ := hbeside.returns hE hS (hp _) hx
    intro q hq
    rcases List.mem_cons.mp hq with rfl | hq
    · rfl
    · exact ih hy q hq

end Calls

end FileProg
