import ContextDb.Lib.Bytes
import Mathlib.Logic.Function.Iterate

/-!
# CRC-32

The checksum of ISO-HDLC, computed bit by bit: the reflected polynomial
`0xEDB88320`, a register that starts with all bits set and is complemented at
the end. `Crc32.shift` moves the register by one bit, `Crc32.update` feeds it
one byte, `Crc32.hash` is the checksum of a string of bytes.

The checksum detects every change of at most four consecutive bytes
(`Crc32.hash_ne_of_agreeOutside`). The division is linear, so two strings are
told apart by the register their difference leaves. And one bit of it can be
undone: the top bit of the polynomial is set, so a register whose top bit is clear
was only moved down. Backwards from a register that is zero at the end, four bytes
move no difference out of its 32 bits – they all remain to be seen
(`Crc32.foldl_update_inj`).
-/

namespace Crc32

open ByteFile

/-- The reflected polynomial of CRC-32. -/
def polynomial : UInt32 := 0xEDB88320

/-- One bit of the division: shift the register down, and subtract the
polynomial when a bit falls out. -/
def shift (c : UInt32) : UInt32 :=
  if c &&& 1 = 1 then (c >>> 1) ^^^ polynomial else c >>> 1

/-- Feed one byte to the register. -/
def update (c : UInt32) (b : UInt8) : UInt32 := shift^[8] (c ^^^ b.toUInt32)

/-- **The checksum** of a string of bytes. -/
def hash (bs : Bytes) : UInt32 := bs.foldl update 0xFFFFFFFF ^^^ 0xFFFFFFFF

/-- The check value of the standard: the checksum of `"123456789"`. -/
example : hash [0x31, 0x32, 0x33, 0x34, 0x35, 0x36, 0x37, 0x38, 0x39] = 0xCBF43926 := by
  decide +kernel

/-! ### Linearity -/

/-- A register is odd when its lowest bit is set. -/
theorem and_one_eq_one_iff (c : UInt32) : c &&& 1 = 1 ↔ c.toNat % 2 = 1 := by
  rw [← UInt32.toNat_inj, UInt32.toNat_and]
  exact Eq.congr (Nat.and_one_is_mod _) rfl

/-- **One bit of the division is linear.** -/
theorem shift_xor (a b : UInt32) : shift (a ^^^ b) = shift a ^^^ shift b := by
  have hcancel : ∀ x y : UInt32, x ^^^ y = (x ^^^ polynomial) ^^^ (y ^^^ polynomial) := by
    intro x y
    rw [UInt32.xor_comm y, UInt32.xor_assoc, ← UInt32.xor_assoc polynomial, UInt32.xor_self,
      UInt32.zero_xor]
  simp only [shift, and_one_eq_one_iff, UInt32.toNat_xor, Nat.xor_mod_two_eq_one,
    UInt32.shiftRight_xor]
  by_cases ha : a.toNat % 2 = 1 <;> by_cases hb : b.toNat % 2 = 1
  · simp only [ha, hb, not_true_eq_false, if_true, if_false, iff_self]
    exact hcancel _ _
  · simp only [ha, hb, iff_false, not_true_eq_false, not_false_eq_true, if_true, if_false]
    rw [UInt32.xor_assoc, UInt32.xor_assoc, UInt32.xor_comm polynomial]
  · simp only [ha, hb, iff_true, not_false_eq_true, if_true, if_false]
    rw [UInt32.xor_assoc]
  · simp only [ha, hb, iff_self, not_true_eq_false, if_false]

theorem shift_iterate_xor (k : ℕ) (a b : UInt32) :
    shift^[k] (a ^^^ b) = shift^[k] a ^^^ shift^[k] b := by
  induction k generalizing a b with
  | zero => rfl
  | succ k ih => rw [Function.iterate_succ_apply, shift_xor, ih]; rfl

/-- Two registers fed two bytes differ by what their difference becomes. -/
theorem update_xor (c c' : UInt32) (b b' : UInt8) :
    update c b ^^^ update c' b' =
      shift^[8] ((c ^^^ c') ^^^ (b.toUInt32 ^^^ b'.toUInt32)) := by
  rw [update, update, ← shift_iterate_xor]
  congr 1
  rw [UInt32.xor_assoc, UInt32.xor_assoc, ← UInt32.xor_assoc b.toUInt32, UInt32.xor_comm b.toUInt32,
    UInt32.xor_assoc]

/-! ### No difference is lost -/

/-- **One bit of the division loses nothing**: the top bit of the polynomial is
set, so a register whose top bit is clear afterwards was only moved. -/
theorem toNat_of_shift_lt {c : UInt32} (h : (shift c).toNat < 2 ^ 31) :
    c.toNat = 2 * (shift c).toNat := by
  have hhalf : (c >>> 1).toNat = c.toNat / 2 := by
    rw [UInt32.toNat_shiftRight]
    exact Nat.shiftRight_one _
  have hlt := c.toNat_lt
  simp only [shift, and_one_eq_one_iff] at h ⊢
  by_cases hodd : c.toNat % 2 = 1
  · rw [if_pos hodd, UInt32.toNat_xor, hhalf] at h
    have hbit : (c.toNat / 2 ^^^ polynomial.toNat).testBit 31 = true := by
      rw [Nat.testBit_xor, Nat.testBit_lt_two_pow (by omega)]
      decide
    have := Nat.ge_two_pow_of_testBit hbit
    omega
  · rw [if_neg hodd, hhalf]
    omega

/-- The same for any number of bits. -/
theorem toNat_of_iterate_lt {k : ℕ} (hk : k ≤ 32) {c : UInt32}
    (h : (shift^[k] c).toNat < 2 ^ (32 - k)) : c.toNat = 2 ^ k * (shift^[k] c).toNat := by
  induction k generalizing c with
  | zero => simp
  | succ k ih =>
    rw [Function.iterate_succ_apply] at h ⊢
    have hpow : (2 : ℕ) ^ (32 - k) = 2 * 2 ^ (32 - (k + 1)) := by
      rw [← pow_succ']
      congr 1
      omega
    have hc : (shift c).toNat = 2 ^ k * (shift^[k] (shift c)).toNat := by
      refine ih (by omega) ?_
      omega
    have hlt : (shift c).toNat < 2 ^ 31 := by
      rw [hc]
      calc 2 ^ k * (shift^[k] (shift c)).toNat < 2 ^ k * 2 ^ (32 - (k + 1)) :=
            Nat.mul_lt_mul_of_pos_left h (Nat.two_pow_pos k)
        _ = 2 ^ 31 := by rw [← pow_add]; congr 1; omega
    rw [toNat_of_shift_lt hlt, hc, pow_succ]
    ring

/-- **What the difference of two registers was** before a byte, while it is
small. -/
theorem toNat_of_update_lt {c c' : UInt32} {b b' : UInt8}
    (h : (update c b ^^^ update c' b').toNat < 2 ^ 24) :
    ((c ^^^ c') ^^^ (b.toUInt32 ^^^ b'.toUInt32)).toNat =
      256 * (update c b ^^^ update c' b').toNat := by
  rw [update_xor] at h ⊢
  exact toNat_of_iterate_lt (by decide) h

/-- Two bytes differ in the low eight bits only. -/
theorem toUInt32_xor_lt (b b' : UInt8) : (b.toUInt32 ^^^ b'.toUInt32).toNat < 2 ^ 8 := by
  rw [UInt32.toNat_xor, UInt8.toNat_toUInt32, UInt8.toNat_toUInt32]
  exact Nat.xor_lt_two_pow b.toNat_lt b'.toNat_lt

/-- **Four bytes lose nothing.** Two registers that agree after at most four bytes
differed, before these, by no more than the bytes can undo; and if they agreed
before, the bytes are the same. -/
theorem foldl_update_inj {w w' : Bytes} (hlen : w.length = w'.length) (h4 : w.length ≤ 4)
    {c c' : UInt32} (h : w.foldl update c = w'.foldl update c') :
    (c ^^^ c').toNat < 2 ^ (8 * w.length) ∧ (c = c' → w = w') := by
  induction w generalizing w' c c' with
  | nil =>
    obtain rfl : w' = [] := List.eq_nil_of_length_eq_zero hlen.symm
    obtain rfl : c = c' := h
    simp
  | cons b w ih =>
    obtain _ | ⟨b', w'⟩ := w'
    · simp at hlen
    rw [List.length_cons, List.length_cons, Nat.succ_inj] at hlen
    rw [List.length_cons] at h4
    obtain ⟨hsmall, hsame⟩ := ih hlen (by omega) h
    have hlt : (update c b ^^^ update c' b').toNat < 2 ^ 24 :=
      hsmall.trans_le (Nat.pow_le_pow_right (by decide) (by omega))
    have hback := toNat_of_update_lt hlt
    have hbytes := toUInt32_xor_lt b b'
    constructor
    · -- the difference is the one that was moved, less the two bytes
      have hsplit : c ^^^ c' = ((c ^^^ c') ^^^ (b.toUInt32 ^^^ b'.toUInt32)) ^^^
          (b.toUInt32 ^^^ b'.toUInt32) := by
        rw [UInt32.xor_assoc (c ^^^ c'), UInt32.xor_self, UInt32.xor_zero]
      have hpow : (2 : ℕ) ^ (8 * (w.length + 1)) = 256 * 2 ^ (8 * w.length) := by
        rw [Nat.mul_succ, pow_add]
        exact Nat.mul_comm _ _
      have hpow8 : (2 : ℕ) ^ 8 ≤ 2 ^ (8 * (w.length + 1)) :=
        Nat.pow_le_pow_right (by decide) (by omega)
      rw [List.length_cons, hsplit, UInt32.toNat_xor]
      exact Nat.xor_lt_two_pow (by rw [hback, hpow]; omega) (hbytes.trans_le hpow8)
    · rintro rfl
      -- a multiple of 256 below 256
      rw [UInt32.xor_self, UInt32.zero_xor] at hback
      have hzero : update c b ^^^ update c b' = 0 := UInt32.toNat_inj.mp (by
        change _ = 0
        omega)
      have hbzero : b.toUInt32 ^^^ b'.toUInt32 = 0 := UInt32.toNat_inj.mp (by
        rw [hback, hzero]
        rfl)
      obtain rfl : b = b' := UInt8.toUInt32_inj.mp (UInt32.xor_eq_zero_iff.mp hbzero)
      rw [hsame rfl]

/-- Any number of bytes lose nothing that is there before them. -/
theorem foldl_update_left_inj (q : Bytes) {c c' : UInt32}
    (h : q.foldl update c = q.foldl update c') : c = c' := by
  induction q generalizing c c' with
  | nil => exact h
  | cons b q ih =>
    have hu : update c b = update c' b := ih h
    have hback := @toNat_of_update_lt c c' b b (by
      rw [hu, UInt32.xor_self]
      decide)
    rw [UInt32.xor_self, UInt32.xor_zero, hu, UInt32.xor_self] at hback
    exact UInt32.xor_eq_zero_iff.mp (UInt32.toNat_inj.mp hback)

/-- **Two strings that agree outside four consecutive bytes.** -/
def AgreeOutside (i : ℕ) (bs bs' : Bytes) : Prop :=
  bs.length = bs'.length ∧ ∀ j, j < i ∨ i + 4 ≤ j → bs[j]? = bs'[j]?

/-- **CRC-32 detects every burst of at most four bytes.** -/
theorem hash_ne_of_agreeOutside {i : ℕ} {bs bs' : Bytes} (h : AgreeOutside i bs bs')
    (hne : bs ≠ bs') : hash bs ≠ hash bs' := by
  obtain ⟨hlen, hout⟩ := h
  have hpre : bs.take i = bs'.take i := by
    refine List.ext_getElem? fun j => ?_
    rw [List.getElem?_take, List.getElem?_take]
    split
    · exact hout j (Or.inl ‹_›)
    · rfl
  have hsuf : bs.drop (i + 4) = bs'.drop (i + 4) := by
    refine List.ext_getElem? fun j => ?_
    rw [List.getElem?_drop, List.getElem?_drop]
    exact hout _ (Or.inr (Nat.le_add_right _ _))
  have hsplit : ∀ xs : Bytes, xs = xs.take i ++ ((xs.drop i).take 4 ++ xs.drop (i + 4)) := by
    intro xs
    rw [← List.drop_drop, List.take_append_drop, List.take_append_drop]
  intro heq
  rw [hash, hash, UInt32.xor_left_inj, hsplit bs, hsplit bs', hpre, hsuf, List.foldl_append,
    List.foldl_append, List.foldl_append, List.foldl_append] at heq
  have hwlen : ((bs.drop i).take 4).length = ((bs'.drop i).take 4).length := by
    rw [List.length_take, List.length_take, List.length_drop, List.length_drop, hlen]
  have hw := (foldl_update_inj hwlen (List.length_take_le _ _) (foldl_update_left_inj _ heq)).2 rfl
  refine hne ?_
  rw [hsplit bs, hsplit bs', hpre, hsuf, hw]

end Crc32
