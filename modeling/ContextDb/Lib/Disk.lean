import ContextDb.Lib.Bytes

/-!
# A file with a write-back cache

What a file is to a program that may be interrupted: a *durable* image together
with the writes that have been issued and not yet synced. A reader sees the
`FileProg.Disk.volatile` image, where every write has been applied; a sync makes
it durable; and a loss of power (`FileProg.Disk.Crash`) leaves the durable image
with an arbitrary selection of the bytes of the unsynced writes, cut off
anywhere between the two lengths.

Two facts carry the arguments about crashes.

* `FileProg.Disk.Crash.holds` – durable bytes that no unsynced write touches
  survive the loss of power.
* `FileProg.Disk.Grows.holds` – a disk that has only been written at or above a
  floor still holds what stood below it.
-/

namespace FileProg

open ByteFile

/-- The largest length of a file, and so the largest end of a positioned write:
offsets are signed 64-bit numbers. -/
def maxFileLen : ℕ := 2 ^ 63 - 1

/-- **The range of a write fits in a file.** -/
def Fits (off : ℕ) (bs : Bytes) : Prop := bs = [] ∨ off + bs.length ≤ maxFileLen

instance (off : ℕ) (bs : Bytes) : Decidable (Fits off bs) :=
  inferInstanceAs (Decidable (_ ∨ _))

/-- A file behind a write-back cache: the image on the medium, and the writes
that have not been synced, oldest first. -/
structure Disk where
  /-- What a loss of power cannot take away. -/
  durable : Bytes
  /-- Offsets and bytes of the writes since the last sync. -/
  unsynced : List (ℕ × Bytes)
  deriving DecidableEq

namespace Disk

/-- Applying a list of writes to an image, in order. -/
def applyAll (f : Bytes) (ws : List (ℕ × Bytes)) : Bytes :=
  ws.foldl (fun f w => writeAt f w.1 w.2) f

/-- **The volatile image**: what every reader of the file sees. -/
def volatile (d : Disk) : Bytes := applyAll d.durable d.unsynced

/-- Issuing a write. -/
def write (d : Disk) (off : ℕ) (bs : Bytes) : Disk :=
  { d with unsynced := d.unsynced ++ [(off, bs)] }

/-- Syncing: everything written becomes durable. -/
def sync (d : Disk) : Disk := ⟨d.volatile, []⟩

/-- A file at rest, with nothing waiting to be synced. -/
def ofImage (f : Bytes) : Disk := ⟨f, []⟩

@[simp] theorem volatile_ofImage (f : Bytes) : (ofImage f).volatile = f := rfl

@[simp] theorem durable_ofImage (f : Bytes) : (ofImage f).durable = f := rfl

@[simp] theorem unsynced_ofImage (f : Bytes) : (ofImage f).unsynced = [] := rfl

@[simp] theorem volatile_write (d : Disk) (off : ℕ) (bs : Bytes) :
    (d.write off bs).volatile = writeAt d.volatile off bs := by
  simp [volatile, write, applyAll]

@[simp] theorem durable_write (d : Disk) (off : ℕ) (bs : Bytes) :
    (d.write off bs).durable = d.durable := rfl

@[simp] theorem unsynced_write (d : Disk) (off : ℕ) (bs : Bytes) :
    (d.write off bs).unsynced = d.unsynced ++ [(off, bs)] := rfl

@[simp] theorem volatile_sync (d : Disk) : d.sync.volatile = d.volatile := rfl

@[simp] theorem durable_sync (d : Disk) : d.sync.durable = d.volatile := rfl

@[simp] theorem unsynced_sync (d : Disk) : d.sync.unsynced = [] := rfl

/-- With nothing unsynced, a reader sees what is durable. -/
theorem volatile_of_synced (d : Disk) (hs : d.unsynced = []) : d.volatile = d.durable := by
  rw [volatile, hs]
  rfl

/-- A range that no write of a list touches. -/
def Avoids (ws : List (ℕ × Bytes)) (off n : ℕ) : Prop :=
  ∀ w ∈ ws, off + n ≤ w.1 ∨ w.1 + w.2.length ≤ off

theorem avoids_nil {off n : ℕ} : Avoids [] off n := fun _ hw => by cases hw

theorem Avoids.append {ws : List (ℕ × Bytes)} {off n o : ℕ} {bs : Bytes} (h : Avoids ws off n)
    (hd : off + n ≤ o ∨ o + bs.length ≤ off) : Avoids (ws ++ [(o, bs)]) off n := by
  intro w hw
  rcases List.mem_append.mp hw with hw | hw
  · exact h w hw
  · obtain rfl : w = (o, bs) := by simpa using hw
    exact hd

theorem holds_applyAll {f : Bytes} {off : ℕ} {bs : Bytes} {ws : List (ℕ × Bytes)}
    (h : Holds f off bs) (hws : Avoids ws off bs.length) : Holds (applyAll f ws) off bs := by
  induction ws generalizing f with
  | nil => exact h
  | cons w ws ih =>
    exact ih (h.writeAt_of_disjoint (hws w (by simp))) fun w' hw' => hws w' (by simp [hw'])

theorem length_le_length_applyAll (f : Bytes) (ws : List (ℕ × Bytes)) :
    f.length ≤ (applyAll f ws).length := by
  induction ws generalizing f with
  | nil => exact le_rfl
  | cons w ws ih => exact (length_le_length_writeAt f w.1 w.2).trans (ih _)

/-- Durable bytes that no unsynced write touches are what a reader sees. -/
theorem holds_volatile {d : Disk} {off : ℕ} {bs : Bytes} (h : Holds d.durable off bs)
    (hd : Avoids d.unsynced off bs.length) : Holds d.volatile off bs :=
  holds_applyAll h hd

theorem length_durable_le (d : Disk) : d.durable.length ≤ d.volatile.length :=
  length_le_length_applyAll _ _

/-! ### Losing power -/

/-- **What a loss of power may leave behind**: an image no shorter than the
durable one and no longer than the volatile one, each of whose bytes is the
durable one or comes from an unsynced write. -/
structure Crash (d : Disk) (img : Bytes) : Prop where
  /-- Nothing durable is cut off. -/
  durable_le : d.durable.length ≤ img.length
  /-- Nothing is made up behind the end of the file. -/
  le_volatile : img.length ≤ d.volatile.length
  /-- Every byte is old, or written since the last sync. -/
  byte : ∀ i b, img[i]? = some b →
    b = d.durable.getD i 0 ∨ ∃ w ∈ d.unsynced, w.1 ≤ i ∧ w.2[i - w.1]? = some b

/-- Nothing written since the last sync may have reached the medium. -/
theorem crash_durable (d : Disk) : d.Crash d.durable where
  durable_le := le_rfl
  le_volatile := d.length_durable_le
  byte i b hb := Or.inl (by rw [List.getD_eq_getElem?_getD, hb]; rfl)

/-- **Untouched durable bytes survive.** -/
theorem Crash.holds {d : Disk} {img : Bytes} (hc : d.Crash img) {off : ℕ} {bs : Bytes}
    (h : Holds d.durable off bs) (hd : Avoids d.unsynced off bs.length) : Holds img off bs := by
  intro i b hb
  have hi : i < bs.length := (List.getElem?_eq_some_iff.mp hb).1
  have hdur := h i b hb
  have hlt : off + i < img.length :=
    lt_of_lt_of_le (List.getElem?_eq_some_iff.mp hdur).1 hc.durable_le
  rw [List.getElem?_eq_getElem hlt]
  rcases hc.byte (off + i) _ (List.getElem?_eq_getElem hlt) with hold | ⟨w, hw, hle, hwb⟩
  · rw [hold, List.getD_eq_getElem?_getD, hdur]
    rfl
  · have hwl : off + i - w.1 < w.2.length := (List.getElem?_eq_some_iff.mp hwb).1
    rcases hd w hw with hlo | hhi <;> omega

/-- With nothing unsynced, a loss of power changes nothing. -/
theorem Crash.eq_of_synced {d : Disk} {img : Bytes} (hc : d.Crash img) (hs : d.unsynced = []) :
    img = d.durable := by
  have hv : d.volatile = d.durable := d.volatile_of_synced hs
  have hlen : img.length = d.durable.length :=
    le_antisymm (hv ▸ hc.le_volatile) hc.durable_le
  refine List.ext_getElem hlen fun i h1 h2 => ?_
  rcases hc.byte i _ (List.getElem?_eq_getElem h1) with hold | ⟨w, hw, -⟩
  · rw [hold, List.getD_eq_getElem?_getD, List.getElem?_eq_getElem h2]
    rfl
  · simp [hs] at hw

/-! ### Writing above a floor -/

/-- **A disk reached by writing above a floor**: any number of writes at or above
`n`, and any number of syncs. -/
inductive Grows (n : ℕ) (d : Disk) : Disk → Prop
  /-- Nothing has happened. -/
  | refl : Grows n d d
  /-- A write at or above the floor. -/
  | write {d' : Disk} (off : ℕ) (bs : Bytes) : Grows n d d' → n ≤ off → Grows n d (d'.write off bs)
  /-- A sync. -/
  | sync {d' : Disk} : Grows n d d' → Grows n d d'.sync

theorem Grows.trans {n : ℕ} {d d' d'' : Disk} (h : Grows n d d') (h' : Grows n d' d'') :
    Grows n d d'' := by
  induction h' with
  | refl => exact h
  | write off bs _ hle ih => exact ih.write off bs hle
  | sync _ ih => exact ih.sync

theorem Grows.mono {m n : ℕ} {d d' : Disk} (hmn : m ≤ n) (h : Grows n d d') : Grows m d d' := by
  induction h with
  | refl => exact .refl
  | write off bs _ hle ih => exact ih.write off bs (hmn.trans hle)
  | sync _ ih => exact ih.sync

/-- **What stands below the floor keeps standing.** -/
theorem Grows.holds {n : ℕ} {d d' : Disk} (h : Grows n d d') {off : ℕ} {bs : Bytes}
    (hh : Holds d.volatile off bs) (hle : off + bs.length ≤ n) : Holds d'.volatile off bs := by
  induction h with
  | refl => exact hh
  | write o cs _ hno ih =>
    rw [volatile_write]
    exact ih.writeAt_of_disjoint (Or.inl (hle.trans hno))
  | sync _ ih => exact ih

theorem Grows.length_le {n : ℕ} {d d' : Disk} (h : Grows n d d') :
    d.volatile.length ≤ d'.volatile.length := by
  induction h with
  | refl => exact le_rfl
  | write o cs _ _ ih =>
    rw [volatile_write]
    exact ih.trans (length_le_length_writeAt _ _ _)
  | sync _ ih => exact ih

end Disk

end FileProg
