import ContextDb.Storage.Session

/-!
# Creating a database

Opening an empty file writes the header region and syncs it. A creation that
does not go through leaves a file that is still shorter than the header region –
opening it fails, unless it is empty, and then it is created again – or the
whole region, which is a new database (`ContextDb.openFile_short_safe`).
-/

namespace ContextDb

open ByteFile FileProg Prog StorageEngine

/-- The header region of a new database. -/
def newRegion : Bytes := Header.initial.encode ++ List.replicate headerSize 0

/-- The handle of a new database. -/
def created : StorageEngine := { blank with slots := ![some .initial, none], liveSlot := 0 }

/-- A header region with one header, in the first slot. The second one is zeroed. -/
def regionWith (h : Header) : Bytes := h.encode ++ List.replicate headerSize 0

@[simp] theorem length_regionWith (h : Header) : (regionWith h).length = 128 := by
  rw [regionWith, List.length_append, Header.length_encode, List.length_replicate]
  rfl

theorem holds_regionWith (h : Header) (rest : Bytes) :
    Holds (regionWith h ++ rest) 0 (h.encode ++ List.replicate headerSize 0) := by
  have hall : Holds (regionWith h ++ rest) 0 (regionWith h ++ rest) := fun i b hb => by
    rwa [Nat.zero_add]
  exact (holds_append_iff.mp hall).1

theorem slotBytes_regionWith_zero (h : Header) (rest : Bytes) :
    slotBytes (regionWith h ++ rest) 0 = h.encode :=
  slotBytes_of_holds (s := 0) (holds_append_iff.mp (holds_regionWith h rest)).1
    (Header.length_encode _)

/-- A zeroed slot decodes as invalid. -/
theorem decodedSlots_regionWith_one (h : Header) (rest : Bytes) :
    decodedSlots (regionWith h ++ rest) 1 = none := by
  have hslot : slotBytes (regionWith h ++ rest) 1 = List.replicate 64 0 := by
    refine slotBytes_of_holds (s := 1) ?_ List.length_replicate
    have h2 := (holds_append_iff.mp (holds_regionWith h rest)).2
    rwa [Header.length_encode] at h2
  rw [decodedSlots_eq, hslot]
  rfl

theorem decodedSlots_regionWith (h : Header) (rest : Bytes) :
    decodedSlots (regionWith h ++ rest) = ![some h, none] := by
  funext s
  obtain rfl | rfl := s.eq_zero_or_one
  · exact decodedSlots_of_encode (slotBytes_regionWith_zero h rest)
  · exact decodedSlots_regionWith_one h rest

@[simp] theorem length_newRegion : newRegion.length = 128 := length_regionWith .initial

theorem newRegion_eq : newRegion = regionWith .initial ++ [] := (List.append_nil _).symm

theorem slotBytes_newRegion_zero : slotBytes newRegion 0 = Header.initial.encode := by
  rw [newRegion_eq, slotBytes_regionWith_zero]

/-- The second slot of a new database decodes as invalid. -/
theorem decodedSlots_newRegion_one : decodedSlots newRegion 1 = none := by
  rw [newRegion_eq, decodedSlots_regionWith_one]

/-- **A new database is the empty one.** -/
theorem live_newRegion : Live newRegion 0 .initial [] where
  length_le := by rw [length_newRegion]
  slot := slotBytes_newRegion_zero
  describes := .initial
  valid := validLog_nil
  holds := holds_nil _ _
  older h' hh' := by
    have hother : Slot.other 0 = 1 := rfl
    rw [hother, decodedSlots_newRegion_one] at hh'
    cases hh'

/-- The handle of a new database is what opening it again would give. -/
theorem created_eq : created = opened (decodedSlots newRegion) 0 .initial [] := by
  rw [newRegion_eq, created, opened, decodedSlots_regionWith]
  rfl

theorem initializeRegion_run : (initializeRegion blank).run =
    .write 0 newRegion fun
      | true => .sync fun
        | true => .ret (.ok created)
        | false => .ret (.error (.io .fault))
      | false => .ret (.error (.io .fault)) := by
  refine congrArg (Prog.write _ _) (funext fun b => ?_)
  cases b with
  | false => rfl
  | true =>
    refine congrArg Prog.sync (funext fun b => ?_)
    cases b <;> rfl

/-- **The points of opening a file without a header region.** -/
inductive CreationPoint (d : Disk) : Disk → Prop
  /-- Nothing has been written. -/
  | untouched : CreationPoint d d
  /-- `n` bytes of the header region have been written. -/
  | writing {n : ℕ} (hd : d.volatile = []) (hn : n ≤ 128) :
      CreationPoint d (d.write 0 (newRegion.take n))
  /-- The header region is durable. -/
  | synced (hd : d.volatile = []) : CreationPoint d (d.write 0 newRegion).sync

theorem take_newRegion : newRegion.take 128 = newRegion :=
  List.take_of_length_le (by rw [length_newRegion])

/-- **Opening a file without a header region** creates a database if the file is
empty, and fails otherwise. -/
theorem openFile_short_safe (F : Faults) {d : Disk} (hd : d.volatile.length < 128) :
    openFile.run.Safe F (fun _ d' => CreationPoint d d')
      (fun _ x d' => ∀ e, x = .ok e →
        e = created ∧ d.volatile = [] ∧ d' = (d.write 0 newRegion).sync) [] d := by
  rw [openFile_run]
  refine ⟨.untouched, ?_⟩
  simp only
  rcases Nat.eq_zero_or_pos d.volatile.length with h0 | hpos
  · have hnil : d.volatile = [] := List.length_eq_zero_iff.mp h0
    have hfull : CreationPoint d (d.write 0 newRegion) := by
      have h := CreationPoint.writing hnil le_rfl
      rwa [take_newRegion] at h
    rw [if_neg (by omega), initializeRegion_run]
    refine ⟨.untouched, fun n hn _ => .writing hnil (by rwa [length_newRegion] at hn),
      fun _ => ⟨hfull, ⟨.synced hnil, ?_⟩, fun _ => ⟨hfull, fun e he => by cases he⟩⟩,
      fun n hn _ => ⟨.writing hnil (by rwa [length_newRegion] at hn), fun e he => by cases he⟩⟩
    rintro e he
    cases he
    exact ⟨rfl, hnil, rfl⟩
  · rw [if_pos hpos, load_run, if_pos hd]
    exact ⟨.untouched, fun e he => by cases he⟩

/-- What is written to an empty file is the file. -/
theorem volatile_create {d : Disk} (hd : d.volatile = []) (bs : Bytes) :
    (d.write 0 bs).volatile = bs := by
  rw [Disk.volatile_write, hd]
  rcases eq_or_ne bs [] with rfl | hne
  · rfl
  · rw [writeAt, if_neg hne]
    simp

/-- **Creating a database**, when nothing fails. -/
theorem openFile_exec_new :
    openFile.run.exec (.ofImage []) = some (.ok created, .ofImage newRegion) := by
  have hfit : Fits 0 newRegion := Or.inr (by rw [length_newRegion]; decide)
  have hsync : ((Disk.ofImage []).write 0 newRegion).sync = .ofImage newRegion := by
    rw [Disk.sync, volatile_create rfl]
    rfl
  rw [openFile_run]
  simp only [exec, Disk.volatile_ofImage, List.length_nil, gt_iff_lt, lt_irrefl, if_false]
  rw [initializeRegion_run]
  simp only [exec, if_pos hfit, hsync]

/-- Opening a new database gives its handle. -/
theorem open_newRegion :
    openFile.run.exec (.ofImage newRegion) = some (.ok created, .ofImage newRegion) := by
  have hopen := live_newRegion.open_exec (d := .ofImage newRegion)
  rwa [Disk.volatile_ofImage, ← created_eq] at hopen

/-- A creation leaves a file without a header region, or a new database. -/
theorem CreationPoint.volatile {d d' : Disk} (h : CreationPoint d d')
    (hd : d.volatile.length < 128) :
    d'.volatile.length < 128 ∨ d'.volatile = newRegion := by
  cases h with
  | untouched => exact Or.inl hd
  | @writing n hnil hn =>
    rw [volatile_create hnil]
    rcases Nat.lt_or_ge n 128 with hlt | hge
    · refine Or.inl ?_
      rw [List.length_take]
      omega
    · rw [show n = 128 by omega, take_newRegion]
      exact Or.inr rfl
  | synced hnil =>
    rw [Disk.volatile_sync, volatile_create hnil]
    exact Or.inr rfl

end ContextDb
