import ContextDb.Lib.Machine
import ContextDb.Sequential

/-!
# The ping-pong of the header slots

Two selectors decide over the header slots. `ContextDb.selectLive` takes the last
of the slots of greatest generation, `ContextDb.victimSlot` an invalid slot or
else the first of least generation. They are written independently of each other,
and nothing but an assertion says that they never agree. They never do: what the
first one selects the second one does not return, ties included
(`ContextDb.victimSlot_of_selectLive`).

So the slots take turns. A turn (`ContextDb.Turn`) is a commit that succeeds, on a
handle that may have been used for anything else since the last one, and whose
other slot may have been lost. After every turn of any run the header the commit
wrote is live, in the slot it was written to, and the header before it stands in
the other one (`ContextDb.slots_take_turns`). Nothing is supposed of the file, or
of the log: this is a law of the selectors, and of the bookkeeping of a commit.
-/

namespace ContextDb

open ByteFile FileProg Prog StorageEngine

/-! ### The two selectors -/

/-- The later one of two headers, the second one if they tie. -/
theorem selectLive_some_some {slots : Slots} {a b : Header} (h0 : slots 0 = some a)
    (h1 : slots 1 = some b) :
    selectLive slots =
      .ok (if a.generation.toNat ≤ b.generation.toNat then (b, 1) else (a, 0)) := by
  by_cases h : a.generation.toNat ≤ b.generation.toNat
  · simp [selectLive, enumerate, h0, h1, maxByKey, h]
  · simp [selectLive, enumerate, h0, h1, maxByKey, h]

/-- The earlier one of two headers, the first one if they tie. -/
theorem victimSlot_some_some {slots : Slots} {a b : Header} (h0 : slots 0 = some a)
    (h1 : slots 1 = some b) :
    victimSlot slots = if b.generation.toNat < a.generation.toNat then 1 else 0 := by
  by_cases h : b.generation.toNat < a.generation.toNat
  · simp [victimSlot, enumerate, h0, h1, minByKey, h]
  · simp [victimSlot, enumerate, h0, h1, minByKey, h]

/-- A live header stands in its slot. -/
theorem slot_of_selectLive {slots : Slots} {h : Header} {s : Slot}
    (hs : selectLive slots = .ok (h, s)) : slots s = some h := by
  rcases h0 : slots 0 with _ | a <;> rcases h1 : slots 1 with _ | b
  · simp [selectLive, enumerate, h0, h1, maxByKey] at hs
  · obtain ⟨rfl, rfl⟩ : b = h ∧ 1 = s := by
      simpa [selectLive, enumerate, h0, h1, maxByKey] using hs
    exact h1
  · obtain ⟨rfl, rfl⟩ : a = h ∧ 0 = s := by
      simpa [selectLive, enumerate, h0, h1, maxByKey] using hs
    exact h0
  · rw [selectLive_some_some h0 h1] at hs
    split at hs
    · cases hs
      exact h1
    · cases hs
      exact h0

/-- Nothing is newer than the live header. -/
theorem le_of_selectLive {slots : Slots} {h h' : Header} {s : Slot}
    (hs : selectLive slots = .ok (h, s)) (hh' : slots s.other = some h') :
    h'.generation.toNat ≤ h.generation.toNat := by
  have hslot := slot_of_selectLive hs
  obtain rfl | rfl := s.eq_zero_or_one
  · rw [selectLive_some_some hslot hh'] at hs
    split at hs
    · cases hs
    · omega
  · rw [selectLive_some_some hh' hslot] at hs
    split at hs
    · assumption
    · cases hs

/-- **The two selectors disagree**: the victim is the slot that is not live,
whether the other one is missing, older, or of the same generation. -/
theorem victimSlot_of_selectLive {slots : Slots} {h : Header} {s : Slot}
    (hs : selectLive slots = .ok (h, s)) : victimSlot slots = s.other := by
  have hslot := slot_of_selectLive hs
  rcases hother : slots s.other with _ | h'
  · exact victimSlot_of_newer hslot fun h' hh' => by
      rw [hother] at hh'
      cases hh'
  · obtain rfl | rfl := s.eq_zero_or_one
    · rw [victimSlot_some_some hslot hother]
      rw [selectLive_some_some hslot hother] at hs
      split at hs
      · cases hs
      · exact if_pos (by omega)
    · rw [victimSlot_some_some hother hslot]
      exact if_neg (Nat.not_lt.mpr (le_of_selectLive hs hother))

/-- **What is written to the other slot with a greater generation is live.** -/
theorem selectLive_update {slots : Slots} {h next : Header} {s : Slot}
    (hs : selectLive slots = .ok (h, s))
    (hgen : h.generation.toNat < next.generation.toNat) :
    selectLive (Function.update slots s.other (some next)) = .ok (next, s.other) := by
  refine selectLive_of_newer (Function.update_self _ _ _) fun h' hh' => ?_
  rw [Slot.other_other, Function.update_of_ne (Slot.other_ne s).symm, slot_of_selectLive hs] at hh'
  cases hh'
  exact hgen

/-- **A lost slot changes nothing** if it is not the live one. -/
theorem selectLive_lost {slots : Slots} {h : Header} {s : Slot}
    (hs : selectLive slots = .ok (h, s)) :
    selectLive (Function.update slots s.other none) = .ok (h, s) := by
  refine selectLive_of_newer ?_ fun h' hh' => ?_
  · rw [Function.update_of_ne (Slot.other_ne s).symm]
    exact slot_of_selectLive hs
  · rw [Function.update_self] at hh'
    cases hh'

/-! ### The commit point -/

/-- **What a successful commit has done**: its last write placed the header in
the victim slot, and the handle has followed. -/
theorem commit_publishes (F : Faults) (e : StorageEngine) (order : IterOrder)
    (hdirty : e.dirty = true) (d : Disk) :
    ((commit order).run.run e).Safe F (fun _ _ => True) (fun tr x _ => x.1 = .ok () →
      tr.getLast? = some ⟨64 * commitSlot e, (commitHeaderOf e order).encode, 64⟩ ∧
        x.2 = (commitAppended e order).published (commitHeaderOf e order)) [] d := by
  rw [commit_run, if_pos hdirty, appendRaw_run]
  refine ⟨trivial, ?_, fun _ => ⟨trivial, nofun⟩⟩
  by_cases hlen : maxRecordLen.toNat < (e.index.serialize order).length
  · rw [if_pos hlen]
    exact ⟨trivial, nofun⟩
  rw [if_neg hlen]
  -- the frame, the payload, the sync behind them
  refine ⟨trivial, fun _ _ _ => trivial, fun _ => ?_, fun _ _ _ => ⟨trivial, nofun⟩⟩
  refine ⟨trivial, fun _ _ _ => trivial, fun _ => ?_, fun _ _ _ => ⟨trivial, nofun⟩⟩
  refine ⟨trivial, ?_, fun _ => ⟨trivial, nofun⟩⟩
  -- the header, the sync behind it
  refine ⟨trivial, fun _ _ _ => trivial, fun _ => ?_, fun _ _ _ => ⟨trivial, nofun⟩⟩
  refine ⟨trivial, ⟨trivial, fun _ => ⟨?_, rfl⟩⟩, fun _ => ⟨trivial, nofun⟩⟩
  rw [List.getLast?_concat, Header.slotOffset_toNat, Header.length_encode]
  rfl

/-! ### Turns -/

/-- The slots before a turn: those of the handle, or only its live one. -/
def slotsBefore (e : StorageEngine) (lost : Bool) : Slots :=
  if lost then Function.update e.slots e.liveSlot.other none else e.slots

/-- **A turn**: a commit that succeeds and does something. Since the last one
everything about the handle may have changed but its header and its slots, and of
these the one that is not live may have been lost. The turn is answered with the
last write of the commit: a slot, and the header written to it. -/
inductive Turn (e : StorageEngine) : Bool → Slot × Header → StorageEngine → Prop
  /-- The commit of some handle with the same header and slots. -/
  | commit {lost : Bool} {e₁ e' : StorageEngine} {order : IterOrder} {F : Faults} {d d' : Disk}
      {tr : Trace} {s : Slot} {h : Header} (hheader : e₁.header = e.header)
      (hlive : e₁.liveSlot = e.liveSlot) (hslots : e₁.slots = slotsBefore e lost)
      (hdirty : e₁.dirty = true)
      (hrun : Runs F ((commit order).run.run e₁) d tr (.ok (), e') d')
      (hlast : tr.getLast? = some ⟨64 * (s : ℕ), h.encode, 64⟩) :
      Turn e lost (s, h) e'

/-- **The header of the handle is the live one**, with `k` turns left before the
generations run out. -/
def TurnsLeft (k : ℕ) (e : StorageEngine) : Prop :=
  selectLive e.slots = .ok (e.header, e.liveSlot) ∧ e.header.generation.toNat + k < 2 ^ 64

/-- The selectors do not see the loss of the other slot. -/
theorem selectLive_slotsBefore {e : StorageEngine}
    (hs : selectLive e.slots = .ok (e.header, e.liveSlot)) (lost : Bool) :
    selectLive (slotsBefore e lost) = .ok (e.header, e.liveSlot) := by
  cases lost with
  | false => exact hs
  | true => exact selectLive_lost hs

/-- Headers are told apart by their bytes. -/
theorem Header.encode_injective : Function.Injective Header.encode := by
  intro h h' heq
  have hd := Header.decode_encode h 0
  rw [heq, Header.decode_encode] at hd
  exact (Except.ok.inj hd).symm

/-- **One turn**: what was written is live where it was written, one generation
on, and the header before it stands in the other slot. -/
theorem Turn.live {e e' : StorageEngine} {lost : Bool} {s : Slot} {h : Header} {k : ℕ}
    (ht : Turn e lost (s, h) e') (he : TurnsLeft (k + 1) e) :
    (s = e.liveSlot.other ∧ h.generation.toNat = e.header.generation.toNat + 1 ∧
      selectLive e'.slots = .ok (h, s) ∧ e'.slots s.other = some e.header) ∧
      e'.header = h ∧ e'.liveSlot = s ∧ TurnsLeft k e' := by
  obtain ⟨hsel, hgen⟩ := he
  cases ht with
  | @commit e₁ _ order F d d' tr _ _ hheader hlive hslots hdirty hrun hlast =>
    obtain ⟨htr, he'⟩ := (commit_publishes F e₁ order hdirty d).runs hrun rfl
    dsimp only at he'
    have hoff : 64 * (s : ℕ) = 64 * (commitSlot e₁ : ℕ) ∧
        h.encode = (commitHeaderOf e₁ order).encode := by
      simpa using Option.some.inj (hlast.symm.trans htr)
    obtain rfl : s = commitSlot e₁ := Fin.ext (by omega)
    obtain rfl : h = commitHeaderOf e₁ order := Header.encode_injective hoff.2
    -- losing the slot that is not live does not change which one is
    have hbefore := selectLive_slotsBefore hsel lost
    rw [← hslots] at hbefore
    have hvictim : commitSlot e₁ = e.liveSlot.other := victimSlot_of_selectLive hbefore
    have hnext : (commitHeaderOf e₁ order).generation.toNat = e.header.generation.toNat + 1 := by
      change (e₁.header.generation + 1).toNat = _
      rw [hheader, UInt64.toNat_add]
      exact Nat.mod_eq_of_lt (by change _ + 1 < _; omega)
    have hslots' : e'.slots =
        Function.update e₁.slots e.liveSlot.other (some (commitHeaderOf e₁ order)) := by
      rw [he', ← hvictim]
      rfl
    have hsel' : selectLive e'.slots = .ok (commitHeaderOf e₁ order, commitSlot e₁) := by
      rw [hslots', hvictim]
      exact selectLive_update hbefore (by omega)
    have hheader' : e'.header = commitHeaderOf e₁ order := congrArg StorageEngine.header he'
    have hlive' : e'.liveSlot = commitSlot e₁ := congrArg StorageEngine.liveSlot he'
    refine ⟨⟨hvictim, hnext, hsel', ?_⟩, hheader', hlive', ?_, ?_⟩
    · rw [hvictim, Slot.other_other, hslots', Function.update_of_ne (Slot.other_ne _).symm]
      exact slot_of_selectLive hbefore
    · rw [hheader', hlive']
      exact hsel'
    · rw [hheader', hnext]
      omega

/-- **Any number of turns** use up as many generations. -/
theorem TurnsLeft.run {e e' : StorageEngine} {tr : List (Bool × (Slot × Header))} {k : ℕ}
    (hr : Machine.Run Turn e tr e') (he : TurnsLeft (tr.length + k) e) :
    TurnsLeft k e' ∧ e'.header.generation.toNat = e.header.generation.toNat + tr.length := by
  induction hr with
  | nil => simpa using he
  | cons hstep _ ih =>
    rw [List.length_cons] at he ⊢
    obtain ⟨⟨-, hgen, -⟩, hheader, -, hleft⟩ :=
      hstep.live (by rwa [Nat.add_right_comm] at he)
    obtain ⟨hk, hrun⟩ := ih hleft
    refine ⟨hk, ?_⟩
    rw [hrun, hheader, hgen]
    omega

/-- **The slots take turns.** The two selectors never agree; and along any run of
commits, as long as the generations do not run out, every single one is live
where it was written, in the slot that was not live before, with the header
before it in the other one. -/
theorem slots_take_turns :
    (∀ slots h s, selectLive slots = .ok (h, s) → victimSlot slots ≠ s) ∧
      ∀ {e e' e'' : StorageEngine} {tr : List (Bool × (Slot × Header))} {lost : Bool} {s : Slot}
        {h : Header}, selectLive e.slots = .ok (e.header, e.liveSlot) →
        e.header.generation.toNat + tr.length + 1 < 2 ^ 64 →
        Machine.Run Turn e tr e' → Turn e' lost (s, h) e'' →
          h.generation.toNat = e.header.generation.toNat + tr.length + 1 ∧
          e''.header = h ∧ e''.liveSlot = s ∧ selectLive e''.slots = .ok (h, s) ∧
          s = e'.liveSlot.other ∧ e''.slots e'.liveSlot = some e'.header := by
  refine ⟨fun slots h s hs => ?_, fun {e e' e'' tr lost s h} hsel hgen hr ht => ?_⟩
  · rw [victimSlot_of_selectLive hs]
    exact Slot.other_ne s
  · have hleft : TurnsLeft (tr.length + 1) e := ⟨hsel, by omega⟩
    obtain ⟨hleft', hcount⟩ := TurnsLeft.run hr hleft
    obtain ⟨⟨hs, hnext, hsel', hslot⟩, hheader, hlive, -⟩ := ht.live hleft'
    refine ⟨by omega, hheader, hlive, hsel', hs, ?_⟩
    rw [hs, Slot.other_other] at hslot
    exact hslot

/-- The first commit of a new database, a document having been appended and the
slot that holds no header lost once more. -/
theorem slots_take_turns_created : ∃ e, Turn created true (1, ⟨1, 138, 40, 187⟩) e ∧
    selectLive e.slots = .ok (⟨1, 138, 40, 187⟩, 1) ∧ e.slots 0 = some .initial := by
  obtain ⟨d', hexec⟩ := commit_run_exec (e := firstAppended) (d := .ofImage newRegion) .listed rfl
    (by decide) (by decide)
  obtain ⟨tr, hrun⟩ := runs_of_exec (F := .never) hexec
  obtain ⟨hlast, -⟩ := (commit_publishes .never firstAppended .listed rfl _).runs hrun rfl
  have hnext : commitHeaderOf firstAppended .listed = ⟨1, 138, 40, 187⟩ := by
    have hpl : (commitPayload firstAppended .listed).length = 40 :=
      MasterIndex.length_serialize .listed firstAppended.index
    rw [commitHeaderOf, commitAppended, hpl, nextHeader, hpl]
    rfl
  rw [hnext] at hlast
  have hslots : firstAppended.slots = slotsBefore created true := by
    funext s
    revert s
    decide
  have ht : Turn created true (1, ⟨1, 138, 40, 187⟩) _ :=
    Turn.commit (show firstAppended.header = created.header from rfl) rfl hslots rfl hrun hlast
  obtain ⟨-, -, -, hsel, -, hslot⟩ :=
    slots_take_turns.2 (by decide) (by decide) (.nil created) ht
  exact ⟨_, ht, hsel, hslot⟩

end ContextDb
