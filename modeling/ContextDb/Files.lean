import ContextDb.Crash
import ContextDb.Storage.Accepting

/-!
# The files that histories leave

A history leaves one of two kinds of file (`ContextDb.Reachable.live_or_unreadable`).
Either a log is live in it – whether a handle is open or not, and whatever
abandoned bytes lie behind the log – or it holds no database: it is shorter than
the header region, or no slot of it decodes. Opening a file of the second kind
fails, unless it is empty.

This is what the statements below about every reachable file start from. It
covers every regime without a loss of power in which torn headers are detected,
and the regime with kills and losses of power in which nothing else fails.
-/

namespace ContextDb

open ByteFile FileProg Prog StorageEngine

/-- **The regimes whose files are in order**: no power is lost and torn headers
are detected, or nothing fails but processes and the power. -/
def Regime.Covered (R : Regime) : Prop := (Detected R.faults ∧ ¬R.powerLoss) ∨ R = crashes

/-- **A file without a database**: it is too short for one, or no slot of its
header region decodes. -/
def Unreadable (v : Bytes) : Prop := v.length < 128 ∨ ∀ t, decodedSlots v t = none

section Sound

variable {K : RecordKind → Prop} {w : World}

/-- The file of a sound world. -/
theorem Sound.live_or_unreadable (hw : Sound K w) :
    (∃ s h l, Live w.disk.volatile s h l) ∨ Unreadable w.disk.volatile := by
  cases hw with
  | session h hb hk =>
    refine Or.inl ?_
    rcases hb.live h.valid h.describes h.committed with hl | ⟨h', l', hl, -⟩
    · exact ⟨_, _, _, hl⟩
    · exact ⟨_, _, _, hl⟩
  | rest hl hk => exact Or.inl ⟨_, _, _, hl⟩
  | unborn hu => exact Or.inr (Or.inl hu)

/-- The file of a guarded world. -/
theorem Guarded.live_or_unreadable {base : Option (Header × Log)} (hw : Guarded base w) :
    (∃ s h l, Live w.disk.volatile s h l) ∨ Unreadable w.disk.volatile := by
  cases hw with
  | session hs => exact Or.inl ⟨_, _, _, hs.live⟩
  | rest hl => exact Or.inl ⟨_, _, _, hl⟩
  | unborn _ hu => exact Or.inr (Or.inl hu)
  | broken _ _ _ hbad => exact Or.inr (Or.inr hbad)

end Sound

/-- **Every reachable file** has a live log, or holds no database. -/
theorem Reachable.live_or_unreadable [Bson] {R : Regime} (hR : R.Covered) {w : World}
    (hw : Reachable R w) :
    (∃ s h l, Live w.disk.volatile s h l) ∨ Unreadable w.disk.volatile := by
  rcases hR with ⟨hF, hp⟩ | rfl
  · exact (hw.sound hF hp).live_or_unreadable
  · exact hw.guarded.live_or_unreadable

/-- **Every open handle** accounts for a log that stands in its file. -/
theorem Reachable.open_handle [Bson] {R : Regime} (hR : R.Covered) {w : World}
    (hw : Reachable R w) {e : StorageEngine} (he : w.handle = some e) :
    ∃ l log, Handle e l log ∧ Holds w.disk.volatile 128 (logBytes log) := by
  rcases hR with ⟨hF, hp⟩ | rfl
  · have hs := hw.sound hF hp
    cases hs with
    | session h hb =>
      cases he
      exact ⟨_, _, h, hb.holds⟩
    | rest | unborn => cases he
  · have hg := hw.guarded
    cases hg with
    | session hs =>
      cases he
      exact ⟨_, _, hs.handle, hs.backed.holds⟩
    | rest | unborn | broken => cases he

section Opening

variable {d d' : Disk} {v : Bytes} {e : StorageEngine} {s : Slot} {h : Header} {l : Log}

/-- **A file without a database is refused**, unless it is empty. -/
theorem Unreadable.returns (hu : Unreadable v) (hne : v ≠ []) :
    ∃ err, openFile.run.Returns (fun w => w = v) (.error err) := by
  by_cases hlen : v.length < 128
  · refine ⟨.unexpectedEof 0 logStart, ?_⟩
    have hpos : 0 < v.length := List.length_pos_iff.mpr hne
    rw [openFile_run]
    rintro w rfl
    simp only
    rw [if_pos hpos, load_run, if_pos hlen]
    exact rfl
  · exact openFile_broken (Nat.le_of_not_lt hlen) (hu.resolve_left hlen)

/-- Nothing opens that is refused. -/
theorem not_opens_of_returns {e : StorageEngine} {err : CndbError}
    (h : openFile.run.Returns (fun w => w = v) (.error err)) : ¬Opens v e := by
  rintro ⟨d, hd⟩
  rw [h.exec_eq (d := .ofImage v) rfl] at hd
  cases hd

/-- A file with a live log opens, and with one handle only. -/
theorem Live.opens_iff (hl : Live v s h l) : Opens v e ↔ e = opened (decodedSlots v) s h l := by
  have hopen := hl.open_exec (d := .ofImage v)
  constructor
  · rintro ⟨d, hd⟩
    rw [hopen] at hd
    cases hd
    rfl
  · rintro rfl
    exact ⟨_, hopen⟩

end Opening

end ContextDb
