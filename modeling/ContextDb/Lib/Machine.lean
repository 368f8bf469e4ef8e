import Mathlib.Data.List.Basic

/-!
# Machines that answer requests

A machine is a relation between a state, a request, the reply to it and the next
state; a run (`Machine.Run`) is a sequence of requests with their replies. There
are two rules about runs:

* an invariant of one step is an invariant of a run (`Machine.Run.invariant`);
* two machines that stay related while they are given the same requests, and
  reply alike, reply alike along whole runs (`Machine.Run.lockstep`). It is a
  simulation if one of the two is the specification of the other, and a
  comparison of two runs if they are the same machine. One of them may be given
  further requests, if these keep the two related (`Machine.Run.stutter`).
-/

namespace Machine

variable {σ τ ι ρ π : Type}

/-- **A run**: requests with their replies, in order. -/
inductive Run (M : σ → ι → ρ → σ → Prop) : σ → List (ι × ρ) → σ → Prop
  /-- No request. -/
  | nil (s : σ) : Run M s [] s
  /-- One request and the rest. -/
  | cons {s s' s'' : σ} {i : ι} {r : ρ} {tr : List (ι × ρ)} :
      M s i r s' → Run M s' tr s'' → Run M s ((i, r) :: tr) s''

variable {M : σ → ι → ρ → σ → Prop} {N : τ → ι → π → τ → Prop}

namespace Run

theorem append {s s' s'' : σ} {tr tr' : List (ι × ρ)} (h : Run M s tr s')
    (h' : Run M s' tr' s'') : Run M s (tr ++ tr') s'' := by
  induction h with
  | nil => exact h'
  | cons hs _ ih => exact .cons hs (ih h')

/-- One more request at the end of a run. -/
theorem snoc {s s' s'' : σ} {tr : List (ι × ρ)} {i : ι} {r : ρ} (h : Run M s tr s')
    (hs : M s' i r s'') : Run M s (tr ++ [(i, r)]) s'' :=
  h.append (.cons hs (.nil s''))

/-- Runs of one machine are runs of every machine that allows more. -/
theorem mono {M' : σ → ι → ρ → σ → Prop} (hM : ∀ s i r s', M s i r s' → M' s i r s') {s s' : σ}
    {tr : List (ι × ρ)} (h : Run M s tr s') : Run M' s tr s' := by
  induction h with
  | nil s => exact .nil s
  | cons hs _ ih => exact .cons (hM _ _ _ _ hs) ih

/-- **Invariants of a step are invariants of a run.** -/
theorem invariant {I : σ → Prop} (hI : ∀ s i r s', I s → M s i r s' → I s') {s s' : σ}
    {tr : List (ι × ρ)} (h : Run M s tr s') (hs : I s) : I s' := by
  induction h with
  | nil => exact hs
  | cons hstep _ ih => exact ih (hI _ _ _ _ hs hstep)

/-- **A run with invisible requests**: if the visible requests are answered alike
and keep two machines related, and the invisible ones of the second machine keep
them related on their own, then the visible requests of two runs are answered
alike. -/
theorem stutter {R : σ → τ → Prop} {P : ρ → π → Prop} {V : ι → Bool}
    (hvis : ∀ s t i r p s' t', R s t → V i = true → M s i r s' → N t i p t' →
      P r p ∧ R s' t')
    (hinv : ∀ s t i p t', R s t → V i = false → N t i p t' → R s t')
    {s s' : σ} {t t' : τ} {tr : List (ι × ρ)} {tr' : List (ι × π)} (h : Run M s tr s')
    (h' : Run N t tr' t')
    (hreq : tr.map Prod.fst = (tr'.filter fun q => V q.1).map Prod.fst) (hst : R s t) :
    List.Forall₂ P (tr.map Prod.snd) ((tr'.filter fun q => V q.1).map Prod.snd) ∧
      R s' t' := by
  induction h' generalizing s tr with
  | nil =>
    obtain rfl : tr = [] := by simpa using hreq
    cases h
    exact ⟨.nil, hst⟩
  | @cons t₁ t₂ t₃ i p tr' hstep' _ ih =>
    cases hi : V i with
    | false =>
      rw [List.filter_cons_of_neg (by simp [hi])] at hreq ⊢
      exact ih h hreq (hinv _ _ _ _ _ hst hi hstep')
    | true =>
      rw [List.filter_cons_of_pos (by simp [hi])] at hreq ⊢
      cases h with
      | nil => simp at hreq
      | cons hstep h =>
        rw [List.map_cons, List.map_cons] at hreq
        injection hreq with hfst hreq
        obtain rfl : _ = i := hfst
        obtain ⟨hP, hst'⟩ := hvis _ _ _ _ _ _ _ hst hi hstep hstep'
        obtain ⟨hall, hend⟩ := ih h hreq hst'
        exact ⟨.cons hP hall, hend⟩

/-- **Two machines in lockstep**: given the same requests they reply alike and
stay related. -/
theorem lockstep {R : σ → τ → Prop} {P : ρ → π → Prop}
    (hR : ∀ s t i r p s' t', R s t → M s i r s' → N t i p t' → P r p ∧ R s' t')
    {s s' : σ} {t t' : τ} {tr : List (ι × ρ)} {tr' : List (ι × π)} (h : Run M s tr s')
    (h' : Run N t tr' t') (hreq : tr.map Prod.fst = tr'.map Prod.fst) (hst : R s t) :
    List.Forall₂ P (tr.map Prod.snd) (tr'.map Prod.snd) ∧ R s' t' := by
  have hall := stutter (V := fun _ => true) (R := R) (P := P)
    (fun s t i r p s' t' hst _ => hR s t i r p s' t' hst)
    (fun _ _ _ _ _ _ hf => Bool.noConfusion hf) h h'
    (by rw [List.filter_true]; exact hreq) hst
  rwa [List.filter_true] at hall

end Run

end Machine
