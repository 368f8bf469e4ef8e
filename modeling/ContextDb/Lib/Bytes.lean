import Mathlib.Data.List.Basic
import Mathlib.Tactic.Ring

/-!
# Bytes at positions: little-endian numbers and positioned reads and writes

What a file is to a program that only ever reads and writes at explicit
offsets: a list of bytes, `ByteFile.readAt` and `ByteFile.writeAt`, and the two
facts every argument about such a program comes down to –

* a write leaves every byte outside its range alone
  (`ByteFile.Holds.writeAt_of_disjoint`);
* a write puts its own bytes where it was told to (`ByteFile.holds_writeAt`).

Both are stated for `ByteFile.Holds f off bs`, “the bytes `bs` stand in `f` at
offset `off`”, which says nothing about the rest of the file. That is the shape
a log wants: a record stays readable because its own bytes stay, whatever
happens behind them.

The semantics is that of positioned I/O on a regular file: a read that is not
covered by the file fails as a whole, a write past the end fills the gap with
zeros, and a transfer of no bytes touches nothing.
-/

namespace ByteFile

/-- A string of bytes: the contents of a file, or of a buffer. -/
abbrev Bytes : Type := List UInt8

/-! ### Little-endian numbers -/

/-- The `k` low bytes of `n`, least significant first. -/
def leBytes : ℕ → ℕ → Bytes
  | 0, _ => []
  | k + 1, n => UInt8.ofNat n :: leBytes k (n / 256)

/-- The number a string of bytes denotes, least significant byte first. -/
def leNat : Bytes → ℕ
  | [] => 0
  | b :: bs => b.toNat + 256 * leNat bs

@[simp] theorem length_leBytes (k n : ℕ) : (leBytes k n).length = k := by
  induction k generalizing n with
  | zero => rfl
  | succ k ih => simp [leBytes, ih]

/-- **Reading back a little-endian number** gives its low bytes. -/
theorem leNat_leBytes (k n : ℕ) : leNat (leBytes k n) = n % 256 ^ k := by
  induction k generalizing n with
  | zero => simp [leBytes, leNat, Nat.mod_one]
  | succ k ih =>
    have hb : (UInt8.ofNat n).toNat = n % 256 := by simp
    rw [leBytes, leNat, ih, hb, pow_succ']
    exact (Nat.mod_mul).symm

/-- A string of `k` bytes denotes a number below `256 ^ k`. -/
theorem leNat_lt (bs : Bytes) : leNat bs < 256 ^ bs.length := by
  induction bs with
  | nil => simp [leNat]
  | cons b bs ih =>
    have hb : b.toNat < 256 := b.toNat_lt
    rw [leNat, List.length_cons, pow_succ']
    omega

/-- **A string of bytes is determined by its length and the number it
denotes.** -/
theorem leBytes_leNat (bs : Bytes) : leBytes bs.length (leNat bs) = bs := by
  induction bs with
  | nil => rfl
  | cons b bs ih =>
    have hb := b.toNat_lt
    have hlow : UInt8.ofNat (b.toNat + 256 * leNat bs) = b := by
      refine UInt8.toNat_inj.mp ?_
      rw [UInt8.toNat_ofNat']
      omega
    have hhigh : (b.toNat + 256 * leNat bs) / 256 = leNat bs := by omega
    rw [List.length_cons, leBytes, leNat, hlow, hhigh, ih]

theorem leNat_inj {as bs : Bytes} (hlen : as.length = bs.length) (h : leNat as = leNat bs) :
    as = bs := by
  rw [← leBytes_leNat as, ← leBytes_leNat bs, hlen, h]

/-- Small numbers are told apart by their bytes. -/
theorem leBytes_inj {k m n : ℕ} (hm : m < 256 ^ k) (hn : n < 256 ^ k)
    (h : leBytes k m = leBytes k n) : m = n := by
  have hnat := congrArg leNat h
  rwa [leNat_leBytes, leNat_leBytes, Nat.mod_eq_of_lt hm, Nat.mod_eq_of_lt hn] at hnat

/-! ### Positioned reads and writes -/

/-- **A positioned read** of exactly `n` bytes: it fails unless the file covers
the whole range. A read of no bytes asks nothing of the file. -/
def readAt (f : Bytes) (off n : ℕ) : Option Bytes :=
  if n = 0 then some []
  else if off + n ≤ f.length then some ((f.drop off).take n)
  else none

/-- **A positioned write**: the bytes replace what stood in their range, and a
gap between the old end of the file and `off` is filled with zeros. A write of
no bytes leaves the file as it is. -/
def writeAt (f : Bytes) (off : ℕ) (bs : Bytes) : Bytes :=
  if bs = [] then f
  else (f ++ List.replicate (off - f.length) 0).take off ++ bs ++ f.drop (off + bs.length)

@[simp] theorem readAt_zero (f : Bytes) (off : ℕ) : readAt f off 0 = some [] := rfl

@[simp] theorem writeAt_nil (f : Bytes) (off : ℕ) : writeAt f off [] = f := rfl

theorem length_take_gap (f : Bytes) (off : ℕ) :
    ((f ++ List.replicate (off - f.length) 0).take off).length = off := by
  simp only [List.length_take, List.length_append, List.length_replicate]
  omega

/-- A write makes the file cover its range, and never shortens it. -/
theorem length_writeAt {f : Bytes} {off : ℕ} {bs : Bytes} (h : bs ≠ []) :
    (writeAt f off bs).length = max f.length (off + bs.length) := by
  rw [writeAt, if_neg h, List.length_append, List.length_append, length_take_gap,
    List.length_drop]
  omega

theorem length_le_length_writeAt (f : Bytes) (off : ℕ) (bs : Bytes) :
    f.length ≤ (writeAt f off bs).length := by
  rcases eq_or_ne bs [] with rfl | h
  · simp
  · rw [length_writeAt h]
    exact le_max_left _ _

theorem length_writeAt_le (f : Bytes) (off : ℕ) (bs : Bytes) :
    (writeAt f off bs).length ≤ max f.length (off + bs.length) := by
  rcases eq_or_ne bs [] with rfl | h
  · simp
  · rw [length_writeAt h]

/-- Below its range, a write keeps the bytes of the file. -/
theorem getElem?_writeAt_of_lt {f : Bytes} {off i : ℕ} (bs : Bytes) (hi : i < off)
    (hf : i < f.length) : (writeAt f off bs)[i]? = f[i]? := by
  rcases eq_or_ne bs [] with rfl | h
  · simp
  rw [writeAt, if_neg h, List.append_assoc,
    List.getElem?_append_left (by rw [length_take_gap]; exact hi),
    List.getElem?_take_of_lt hi, List.getElem?_append_left hf]

/-- In its range, a write reads as the bytes written. -/
theorem getElem?_writeAt_of_mem (f : Bytes) {off i : ℕ} {bs : Bytes} (hi : off ≤ i)
    (hlt : i < off + bs.length) : (writeAt f off bs)[i]? = bs[i - off]? := by
  have h : bs ≠ [] := by
    rintro rfl
    simp only [List.length_nil] at hlt
    omega
  rw [writeAt, if_neg h, List.append_assoc,
    List.getElem?_append_right (by rw [length_take_gap]; exact hi), length_take_gap,
    List.getElem?_append_left (by omega)]

/-- Above its range, a write keeps the bytes of the file. -/
theorem getElem?_writeAt_of_ge (f : Bytes) {off i : ℕ} {bs : Bytes}
    (hi : off + bs.length ≤ i) : (writeAt f off bs)[i]? = f[i]? := by
  rcases eq_or_ne bs [] with rfl | h
  · simp
  rw [writeAt, if_neg h, List.getElem?_append_right
    (by rw [List.length_append, length_take_gap]; exact hi), List.length_append,
    length_take_gap, List.getElem?_drop]
  congr 1
  omega

/-! ### Bytes standing at an offset -/

/-- **The bytes `bs` stand in `f` at `off`.** -/
def Holds (f : Bytes) (off : ℕ) (bs : Bytes) : Prop :=
  ∀ i b, bs[i]? = some b → f[off + i]? = some b

instance (f : Bytes) (off : ℕ) (bs : Bytes) : Decidable (Holds f off bs) :=
  decidable_of_iff (∀ i < bs.length, f[off + i]? = bs[i]?) <| by
    constructor
    · intro h i b hb
      have hi : i < bs.length := (List.getElem?_eq_some_iff.mp hb).1
      rw [h i hi, hb]
    · intro h i hi
      rw [List.getElem?_eq_getElem hi]
      exact h i _ (List.getElem?_eq_getElem hi)

@[simp] theorem holds_nil (f : Bytes) (off : ℕ) : Holds f off [] := by
  intro i b hb
  simp at hb

/-- Bytes that stand in a file lie inside it. -/
theorem Holds.length_le {f : Bytes} {off : ℕ} {bs : Bytes} (h : Holds f off bs)
    (hbs : bs ≠ []) : off + bs.length ≤ f.length := by
  have hpos : 0 < bs.length := List.length_pos_iff.mpr hbs
  have hlast : bs.length - 1 < bs.length := by omega
  have := h (bs.length - 1) _ (List.getElem?_eq_getElem hlast)
  have := (List.getElem?_eq_some_iff.mp this).1
  omega

/-- The bytes at an offset are those that stand there. -/
theorem Holds.take_drop {f : Bytes} {off : ℕ} {bs : Bytes} (h : Holds f off bs) :
    (f.drop off).take bs.length = bs := by
  refine List.ext_getElem? fun i => ?_
  rcases Nat.lt_or_ge i bs.length with hi | hi
  · rw [List.getElem?_take_of_lt hi, List.getElem?_drop, List.getElem?_eq_getElem hi]
    exact h i _ (List.getElem?_eq_getElem hi)
  · rw [List.getElem?_eq_none hi, List.getElem?_eq_none]
    exact (List.length_take_le _ _).trans hi

/-- The bytes of a file stand in it. -/
theorem holds_take_drop (f : Bytes) (off n : ℕ) : Holds f off ((f.drop off).take n) := by
  intro i b hb
  have hi := (List.getElem?_eq_some_iff.mp hb).1
  rw [List.length_take] at hi
  rwa [List.getElem?_take_of_lt (by omega), List.getElem?_drop] at hb

/-- **What stands at an offset is what a read of it returns.** -/
theorem Holds.readAt {f : Bytes} {off : ℕ} {bs : Bytes} (h : Holds f off bs) :
    readAt f off bs.length = some bs := by
  rcases eq_or_ne bs [] with rfl | hbs
  · rfl
  · have hpos : bs.length ≠ 0 := by simpa using hbs
    rw [ByteFile.readAt, if_neg hpos, if_pos (h.length_le hbs), h.take_drop]

/-- The bytes of a successful read stand where they were read. -/
theorem holds_of_readAt {f : Bytes} {off n : ℕ} {bs : Bytes} (h : readAt f off n = some bs) :
    Holds f off bs ∧ bs.length = n := by
  rw [ByteFile.readAt] at h
  split at h
  · cases h
    exact ⟨holds_nil _ _, by simp_all⟩
  · split at h
    · cases h
      refine ⟨holds_take_drop _ _ _, ?_⟩
      rw [List.length_take, List.length_drop]
      omega
    · cases h

/-- Bytes stand at an offset exactly when they stand there piece by piece. -/
theorem holds_append_iff {f : Bytes} {off : ℕ} {as bs : Bytes} :
    Holds f off (as ++ bs) ↔ Holds f off as ∧ Holds f (off + as.length) bs := by
  constructor
  · refine fun h => ⟨fun i b hb => h i b ?_, fun i b hb => ?_⟩
    · rw [List.getElem?_append_left (List.getElem?_eq_some_iff.mp hb).1]
      exact hb
    · have := h (as.length + i) b (by
        rw [List.getElem?_append_right (by omega), Nat.add_sub_cancel_left]
        exact hb)
      rwa [← Nat.add_assoc] at this
  · rintro ⟨h1, h2⟩ i b hb
    rcases Nat.lt_or_ge i as.length with hi | hi
    · rw [List.getElem?_append_left hi] at hb
      exact h1 i b hb
    · rw [List.getElem?_append_right hi] at hb
      have := h2 (i - as.length) b hb
      rwa [show off + as.length + (i - as.length) = off + i by omega] at this

/-- A prefix of what stands at an offset stands there too. -/
theorem Holds.of_isPrefix {f : Bytes} {off : ℕ} {as bs : Bytes} (h : Holds f off bs)
    (hp : as <+: bs) : Holds f off as := by
  obtain ⟨cs, rfl⟩ := hp
  exact (holds_append_iff.mp h).1

/-- What stands in a file stands in it when it is cut off behind. -/
theorem Holds.take {f : Bytes} {off n : ℕ} {bs : Bytes} (h : Holds f off bs)
    (hn : off + bs.length ≤ n) : Holds (f.take n) off bs := by
  intro i b hb
  have hi : i < bs.length := (List.getElem?_eq_some_iff.mp hb).1
  rw [List.getElem?_take_of_lt (by omega)]
  exact h i b hb

/-- A changed byte matters to what contains it only. -/
theorem holds_set_iff {v bs : Bytes} {off p : ℕ} {b : UInt8}
    (hp : p < off ∨ off + bs.length ≤ p) : Holds (v.set p b) off bs ↔ Holds v off bs := by
  refine forall_congr' fun i => forall_congr' fun c => imp_congr_right fun hc => ?_
  have hi := (List.getElem?_eq_some_iff.mp hc).1
  rw [List.getElem?_set_ne (by omega)]

/-- What contains the changed byte is changed there. -/
theorem Holds.set {v bs : Bytes} {off i : ℕ} {b : UInt8} (h : Holds v off bs) :
    Holds (v.set (off + i) b) off (bs.set i b) := by
  intro j c hc
  rcases eq_or_ne i j with rfl | hne
  · have hi : i < bs.length := by
      have := (List.getElem?_eq_some_iff.mp hc).1
      rwa [List.length_set] at this
    have hlt : off + i < v.length :=
      (List.getElem?_eq_some_iff.mp (h i _ (List.getElem?_eq_getElem hi))).1
    rw [List.getElem?_set_self hi] at hc
    rw [List.getElem?_set_self hlt]
    exact hc
  · rw [List.getElem?_set_ne hne] at hc
    rw [List.getElem?_set_ne (by omega)]
    exact h j c hc

/-- **A write outside the range keeps what stands there.** -/
theorem Holds.writeAt_of_disjoint {f : Bytes} {off o : ℕ} {bs cs : Bytes} (h : Holds f off bs)
    (hd : off + bs.length ≤ o ∨ o + cs.length ≤ off) : Holds (writeAt f o cs) off bs := by
  intro i b hb
  have hi : i < bs.length := (List.getElem?_eq_some_iff.mp hb).1
  have hf := h i b hb
  have hlt : off + i < f.length := (List.getElem?_eq_some_iff.mp hf).1
  rcases hd with hd | hd
  · rw [getElem?_writeAt_of_lt cs (by omega) hlt]
    exact hf
  · rw [getElem?_writeAt_of_ge f (by omega)]
    exact hf

/-- **A write puts its bytes where it was told to.** -/
theorem holds_writeAt (f : Bytes) (off : ℕ) (bs : Bytes) : Holds (writeAt f off bs) off bs := by
  intro i b hb
  have hi : i < bs.length := (List.getElem?_eq_some_iff.mp hb).1
  rw [getElem?_writeAt_of_mem f (by omega) (by omega), Nat.add_sub_cancel_left]
  exact hb

/-- Two strings of one length that stand at one offset are equal. -/
theorem Holds.unique {f : Bytes} {off : ℕ} {as bs : Bytes} (ha : Holds f off as)
    (hb : Holds f off bs) (hlen : as.length = bs.length) : as = bs := by
  have h1 := ha.readAt
  rw [hlen, hb.readAt] at h1
  exact (Option.some.inj h1).symm

end ByteFile
