import ContextDb.Lib.Bytes

/-!
# A fixed-width binary encoding of numbers and sequences

The part of the `bincode` wire format that a record of 64-bit numbers and
collections of such numbers needs: a number is eight bytes, least significant
first, and a collection is the number of its elements followed by the elements.

A decoder consumes a front part of its input and returns the rest. The relation
between an encoder and a decoder is `Bincode.Inverts`: the decoder takes back
exactly what the encoder wrote, whatever follows. It passes from the elements to
the sequence (`Bincode.Inverts.seq`).

The other half is that a decoder does not look behind what it consumes
(`Bincode.Local`). A decoder that is local and inverts an encoder refuses every
truncated encoding (`Bincode.Local.truncated`): whatever it made of a shorter
input it would also make of the whole one.

And where all values take equally many bytes (`Bincode.Consumes`), an input has no
more elements than it has room for (`Bincode.Consumes.seq`), whoever wrote it.

All three say something of an input that is not an encoding. The whole answer is
`Bincode.Exact`: a decoder that accepts what the encoder writes, and nothing else. Numbers
are decoded so, and sequences of what is (`Bincode.Exact.seq`).
-/

namespace Bincode

open ByteFile

/-- A decoder: it consumes a front part of the input, or fails when the input
runs out. -/
abbrev Decoder (α : Type) : Type := Bytes → Option (α × Bytes)

variable {α β : Type}

/-- **The decoder takes back what the encoder writes**, for one value. -/
def InvertsAt (dec : Decoder α) (enc : α → Bytes) (a : α) : Prop :=
  ∀ rest, dec (enc a ++ rest) = some (a, rest)

/-- **The decoder takes back whatever the encoder writes.** -/
def Inverts (dec : Decoder α) (enc : α → Bytes) : Prop := ∀ a, InvertsAt dec enc a

/-- Two values whose encodings begin the same bytes are the same, and so is what
follows them. -/
theorem InvertsAt.unique {dec : Decoder α} {enc : α → Bytes} {a b : α} {rest rest' : Bytes}
    (ha : InvertsAt dec enc a) (hb : InvertsAt dec enc b)
    (h : enc a ++ rest = enc b ++ rest') : a = b ∧ rest = rest' := by
  have h1 := ha rest
  rw [h, hb rest'] at h1
  cases h1
  exact ⟨rfl, rfl⟩

/-! ### Numbers -/

/-- A 64-bit number, as eight bytes. -/
def putU64 (x : UInt64) : Bytes := leBytes 8 x.toNat

/-- Take a 64-bit number from the front of the input. -/
def getU64 : Decoder UInt64 := fun bs =>
  if bs.length < 8 then none else some (UInt64.ofNat (leNat (bs.take 8)), bs.drop 8)

@[simp] theorem length_putU64 (x : UInt64) : (putU64 x).length = 8 := length_leBytes 8 _

/-- The bytes of a 64-bit number denote it. -/
theorem leNat_putU64 (x : UInt64) : leNat (putU64 x) = x.toNat := by
  rw [putU64, leNat_leBytes]
  exact Nat.mod_eq_of_lt x.toNat_lt

theorem ofNat_leNat_putU64 (x : UInt64) : UInt64.ofNat (leNat (putU64 x)) = x := by
  rw [leNat_putU64, UInt64.ofNat_toNat]

theorem inverts_u64 : Inverts getU64 putU64 := by
  intro x rest
  have hlen : (putU64 x ++ rest).length = 8 + rest.length := by simp
  rw [getU64, if_neg (by omega), List.take_left' (length_putU64 x),
    List.drop_left' (length_putU64 x), ofNat_leNat_putU64]

/-! ### Pairs and sequences -/

/-- Two values, one after the other. -/
def putPair (f : α → Bytes) (g : β → Bytes) (p : α × β) : Bytes := f p.1 ++ g p.2

/-- Take two values from the front of the input. -/
def getPair (f : Decoder α) (g : Decoder β) : Decoder (α × β) := fun bs =>
  (f bs).bind fun r => (g r.2).map fun s => ((r.1, s.1), s.2)

theorem Inverts.pair {f : Decoder α} {f' : α → Bytes} {g : Decoder β} {g' : β → Bytes}
    (hf : Inverts f f') (hg : Inverts g g') : Inverts (getPair f g) (putPair f' g') := by
  rintro ⟨a, b⟩ rest
  rw [putPair, getPair, List.append_assoc, hf a, Option.bind_some, hg b]
  rfl

/-- Take `n` values from the front of the input. -/
def getMany (dec : Decoder α) : ℕ → Decoder (List α)
  | 0, bs => some ([], bs)
  | n + 1, bs => (dec bs).bind fun r => (getMany dec n r.2).map fun s => (r.1 :: s.1, s.2)

theorem getMany_flatMap {dec : Decoder α} {enc : α → Bytes} (h : Inverts dec enc) (l : List α)
    (rest : Bytes) : getMany dec l.length (l.flatMap enc ++ rest) = some (l, rest) := by
  induction l with
  | nil => rfl
  | cons a l ih =>
    rw [List.length_cons, List.flatMap_cons, getMany, List.append_assoc, h a, Option.bind_some, ih]
    rfl

/-- A sequence: its length, then its elements. -/
def putSeq (enc : α → Bytes) (l : List α) : Bytes :=
  putU64 (UInt64.ofNat l.length) ++ l.flatMap enc

/-- Take a sequence from the front of the input. -/
def getSeq (dec : Decoder α) : Decoder (List α) := fun bs =>
  (getU64 bs).bind fun r => getMany dec r.1.toNat r.2

/-- **Sequences come back**, as long as their length is a 64-bit number. -/
theorem Inverts.seq {dec : Decoder α} {enc : α → Bytes} (h : Inverts dec enc) {l : List α}
    (hl : l.length < 2 ^ 64) : InvertsAt (getSeq dec) (putSeq enc) l := by
  intro rest
  have hlen : (UInt64.ofNat l.length).toNat = l.length := by
    rw [UInt64.toNat_ofNat']
    exact Nat.mod_eq_of_lt hl
  rw [getSeq, putSeq, List.append_assoc, inverts_u64, Option.bind_some, hlen]
  exact getMany_flatMap h l rest

/-- The length of a sequence of elements of one width. -/
theorem length_putSeq {enc : α → Bytes} {w : ℕ} (h : ∀ a, (enc a).length = w) (l : List α) :
    (putSeq enc l).length = 8 + w * l.length := by
  have hf : (l.flatMap enc).length = w * l.length := by
    induction l with
    | nil => simp
    | cons a l ih =>
      rw [List.flatMap_cons, List.length_append, ih, h a, List.length_cons, Nat.mul_succ]
      exact Nat.add_comm _ _
  rw [putSeq, List.length_append, length_putU64, hf]

/-! ### Truncated input -/

/-- **A decoder looks at what it consumes only.** -/
def Local (dec : Decoder α) : Prop :=
  ∀ bs a rest, dec bs = some (a, rest) →
    ∃ used, bs = used ++ rest ∧ ∀ rest', dec (used ++ rest') = some (a, rest')

/-- **A truncated encoding is refused.** -/
theorem Local.truncated {dec : Decoder α} {enc : α → Bytes} {a : α} (hl : Local dec)
    (hi : InvertsAt dec enc a) {bs : Bytes} (hp : bs <+: enc a) (hne : bs ≠ enc a) :
    dec bs = none := by
  cases h : dec bs with
  | none => rfl
  | some r =>
    obtain ⟨used, hbs, hused⟩ := hl bs r.1 r.2 h
    obtain ⟨cut, hcut⟩ := hp
    have hwhole : dec (enc a) = some (r.1, r.2 ++ cut) := by
      rw [← hcut, hbs, List.append_assoc]
      exact hused _
    have hall := hi []
    rw [List.append_nil, hwhole] at hall
    have hrest : r.2 ++ cut = [] := congrArg Prod.snd (Option.some.inj hall)
    rw [(List.append_eq_nil_iff.mp hrest).2, List.append_nil] at hcut
    exact absurd hcut hne

theorem local_u64 : Local getU64 := by
  intro bs a rest h
  rw [getU64] at h
  split at h
  · cases h
  · rename_i hlen
    cases h
    refine ⟨bs.take 8, (List.take_append_drop 8 bs).symm, fun rest' => ?_⟩
    have h8 : (bs.take 8).length = 8 := by
      rw [List.length_take]
      omega
    have hlong : ¬(bs.take 8 ++ rest').length < 8 := by
      rw [List.length_append]
      omega
    rw [getU64, if_neg hlong, List.take_left' h8, List.drop_left' h8]

/-- **One decoder after another.** -/
theorem Local.bind {dec : Decoder α} {k : α → Decoder β} (hd : Local dec) (hk : ∀ a, Local (k a)) :
    Local fun bs => (dec bs).bind fun r => k r.1 r.2 := by
  intro bs b rest h
  obtain ⟨⟨a, mid⟩, ha, hb⟩ := Option.bind_eq_some_iff.mp h
  obtain ⟨used, rfl, hused⟩ := hd bs a mid ha
  obtain ⟨used', rfl, hused'⟩ := hk a mid b rest hb
  refine ⟨used ++ used', (List.append_assoc _ _ _).symm, fun rest' => ?_⟩
  simp only
  rw [List.append_assoc, hused, Option.bind_some]
  exact hused' rest'

/-- A decoder that consumes nothing. -/
theorem local_pure (b : β) : Local fun bs => some (b, bs) := by
  intro bs b' rest h
  cases h
  exact ⟨[], rfl, fun _ => rfl⟩

/-- A function of what was decoded. -/
theorem Local.map {dec : Decoder α} (hd : Local dec) (f : α → β) :
    Local fun bs => (dec bs).map fun r => (f r.1, r.2) := by
  have h := hd.bind fun a => local_pure (f a)
  simpa only [Option.map_eq_bind, Function.comp_def] using h

theorem Local.pair {f : Decoder α} {g : Decoder β} (hf : Local f) (hg : Local g) :
    Local (getPair f g) :=
  hf.bind fun a => hg.map fun b => (a, b)

theorem Local.many {dec : Decoder α} (hd : Local dec) (n : ℕ) : Local (getMany dec n) := by
  induction n with
  | zero => exact local_pure []
  | succ n ih => exact hd.bind fun a => ih.map fun l => a :: l

theorem Local.seq {dec : Decoder α} (hd : Local dec) : Local (getSeq dec) :=
  local_u64.bind fun n => hd.many n.toNat

/-! ### How much is consumed -/

/-- **A decoder of width `w`**: every value takes `w` bytes. -/
def Consumes (dec : Decoder α) (w : ℕ) : Prop :=
  ∀ bs a rest, dec bs = some (a, rest) → bs.length = w + rest.length

theorem consumes_u64 : Consumes getU64 8 := by
  intro bs a rest h
  rw [getU64] at h
  split at h
  · cases h
  · cases h
    rw [List.length_drop]
    omega

theorem Consumes.map {dec : Decoder α} {w : ℕ} (hd : Consumes dec w) (f : α → β) :
    Consumes (fun bs => (dec bs).map fun r => (f r.1, r.2)) w := by
  intro bs b rest h
  obtain ⟨⟨a, rest'⟩, ha, heq⟩ := Option.map_eq_some_iff.mp h
  cases heq
  exact hd bs a rest' ha

theorem Consumes.pair {f : Decoder α} {g : Decoder β} {w w' : ℕ} (hf : Consumes f w)
    (hg : Consumes g w') : Consumes (getPair f g) (w + w') := by
  intro bs p rest h
  obtain ⟨⟨a, mid⟩, ha, h⟩ := Option.bind_eq_some_iff.mp h
  obtain ⟨⟨b, rest'⟩, hb, heq⟩ := Option.map_eq_some_iff.mp h
  cases heq
  rw [hf bs a mid ha, hg mid b rest' hb, Nat.add_assoc]

theorem Consumes.many {dec : Decoder α} {w : ℕ} (hd : Consumes dec w) {n : ℕ} {bs : Bytes}
    {l : List α} {rest : Bytes} (h : getMany dec n bs = some (l, rest)) :
    bs.length = w * l.length + rest.length := by
  induction n generalizing bs l with
  | zero =>
    cases h
    rw [List.length_nil, Nat.mul_zero, Nat.zero_add]
  | succ n ih =>
    obtain ⟨⟨a, mid⟩, ha, h⟩ := Option.bind_eq_some_iff.mp h
    obtain ⟨⟨l', rest'⟩, hl, heq⟩ := Option.map_eq_some_iff.mp h
    cases heq
    have hmid : mid.length = w * l'.length + rest'.length := ih hl
    rw [hd bs a mid ha, hmid, List.length_cons, Nat.mul_succ]
    simp only
    omega

/-- **The input of a sequence** has a place for each element. -/
theorem Consumes.seq {dec : Decoder α} {w : ℕ} (hd : Consumes dec w) {bs : Bytes} {l : List α}
    {rest : Bytes} (h : getSeq dec bs = some (l, rest)) :
    bs.length = 8 + w * l.length + rest.length := by
  obtain ⟨⟨n, mid⟩, hn, h⟩ := Option.bind_eq_some_iff.mp h
  have hmid : mid.length = w * l.length + rest.length := hd.many h
  rw [consumes_u64 bs n mid hn, hmid, Nat.add_assoc]

/-! ### Which inputs are accepted -/

/-- **A decoder accepts exactly what the encoder writes**, for the values of some kind,
whatever follows. -/
def Exact (dec : Decoder α) (enc : α → Bytes) (P : α → Prop) : Prop :=
  ∀ bs a rest, dec bs = some (a, rest) ↔ P a ∧ bs = enc a ++ rest

theorem exact_u64 : Exact getU64 putU64 fun _ => True := by
  intro bs x rest
  rw [true_and]
  constructor
  · intro h
    rw [getU64] at h
    split at h
    · cases h
    · rename_i hlen
      cases h
      have h8 : (bs.take 8).length = 8 := by
        rw [List.length_take]
        omega
      have hlt : leNat (bs.take 8) < 2 ^ 64 := by
        have h256 := leNat_lt (bs.take 8)
        rwa [h8] at h256
      have hle := leBytes_leNat (bs.take 8)
      rw [h8] at hle
      rw [putU64, UInt64.toNat_ofNat', Nat.mod_eq_of_lt hlt, hle, List.take_append_drop]
  · rintro rfl
    exact inverts_u64 x rest

/-- Another name for the values. -/
theorem Exact.map {dec : Decoder α} {enc : α → Bytes} {P : α → Prop} (h : Exact dec enc P)
    {f : α → β} {g : β → α} (hfg : ∀ b, f (g b) = b) (hgf : ∀ a, g (f a) = a) :
    Exact (fun bs => (dec bs).map fun r => (f r.1, r.2)) (fun b => enc (g b)) fun b => P (g b) := by
  intro bs b rest
  rw [Option.map_eq_some_iff, ← h]
  constructor
  · rintro ⟨⟨a, rest'⟩, ha, heq⟩
    cases heq
    rw [hgf]
    exact ha
  · intro hb
    refine ⟨_, hb, ?_⟩
    rw [hfg]

/-- **One decoder after another.** -/
theorem Exact.bind {dec : Decoder α} {enc : α → Bytes} {P : α → Prop} (h : Exact dec enc P)
    {k : α → Decoder β} {bs : Bytes} {b : β} {rest : Bytes} :
    ((dec bs).bind fun r => k r.1 r.2) = some (b, rest) ↔
      ∃ a mid, P a ∧ bs = enc a ++ mid ∧ k a mid = some (b, rest) := by
  rw [Option.bind_eq_some_iff]
  constructor
  · rintro ⟨⟨a, mid⟩, ha, hb⟩
    obtain ⟨hP, hbs⟩ := (h bs a mid).mp ha
    exact ⟨a, mid, hP, hbs, hb⟩
  · rintro ⟨a, mid, hP, hbs, hb⟩
    exact ⟨(a, mid), (h bs a mid).mpr ⟨hP, hbs⟩, hb⟩

theorem Exact.pair {f : Decoder α} {f' : α → Bytes} {P : α → Prop} {g : Decoder β}
    {g' : β → Bytes} {Q : β → Prop} (hf : Exact f f' P) (hg : Exact g g' Q) :
    Exact (getPair f g) (putPair f' g') fun p => P p.1 ∧ Q p.2 := by
  rintro bs ⟨a, b⟩ rest
  refine (hf.bind (k := fun a mid => (g mid).map fun s => ((a, s.1), s.2))).trans ?_
  constructor
  · rintro ⟨a', mid, hP, rfl, h⟩
    obtain ⟨⟨b', rest'⟩, hb, heq⟩ := Option.map_eq_some_iff.mp h
    cases heq
    obtain ⟨hQ, rfl⟩ := (hg _ _ _).mp hb
    exact ⟨⟨hP, hQ⟩, (List.append_assoc _ _ _).symm⟩
  · rintro ⟨⟨hP, hQ⟩, rfl⟩
    refine ⟨a, g' b ++ rest, hP, List.append_assoc _ _ _, ?_⟩
    rw [(hg _ _ _).mpr ⟨hQ, rfl⟩]
    rfl

theorem Exact.many {dec : Decoder α} {enc : α → Bytes} {P : α → Prop} (h : Exact dec enc P)
    {n : ℕ} {bs : Bytes} {l : List α} {rest : Bytes} :
    getMany dec n bs = some (l, rest) ↔
      l.length = n ∧ (∀ a ∈ l, P a) ∧ bs = l.flatMap enc ++ rest := by
  induction n generalizing bs l with
  | zero =>
    rw [getMany, Option.some.injEq, Prod.mk.injEq]
    constructor
    · rintro ⟨rfl, rfl⟩
      exact ⟨rfl, fun _ ha => absurd ha List.not_mem_nil, rfl⟩
    · rintro ⟨hlen, -, hbs⟩
      obtain rfl := List.eq_nil_of_length_eq_zero hlen
      exact ⟨rfl, hbs⟩
  | succ n ih =>
    refine (h.bind (k := fun a mid => (getMany dec n mid).map fun s => (a :: s.1, s.2))).trans ?_
    constructor
    · rintro ⟨a, mid, hP, rfl, hmany⟩
      obtain ⟨⟨l', rest'⟩, hl, heq⟩ := Option.map_eq_some_iff.mp hmany
      cases heq
      obtain ⟨hlen, hall, rfl⟩ := ih.mp hl
      refine ⟨congrArg Nat.succ hlen, List.forall_mem_cons.mpr ⟨hP, hall⟩, ?_⟩
      rw [List.flatMap_cons, List.append_assoc]
    · rintro ⟨hlen, hall, rfl⟩
      obtain ⟨a, l', rfl⟩ := List.exists_cons_of_length_eq_add_one hlen
      obtain ⟨hP, hall⟩ := List.forall_mem_cons.mp hall
      refine ⟨a, l'.flatMap enc ++ rest, hP, ?_, ?_⟩
      · rw [List.flatMap_cons, List.append_assoc]
      · rw [ih.mpr ⟨Nat.succ.inj hlen, hall, rfl⟩]
        rfl

/-- **Sequences are decoded exactly**, if their elements are. -/
theorem Exact.seq {dec : Decoder α} {enc : α → Bytes} {P : α → Prop} (h : Exact dec enc P) :
    Exact (getSeq dec) (putSeq enc) fun l => l.length < 2 ^ 64 ∧ ∀ a ∈ l, P a := by
  intro bs l rest
  rw [getSeq, exact_u64.bind (k := fun n => getMany dec n.toNat)]
  constructor
  · rintro ⟨n, mid, -, rfl, hmany⟩
    obtain ⟨hlen, hall, rfl⟩ := h.many.mp hmany
    refine ⟨⟨?_, hall⟩, ?_⟩
    · rw [hlen]
      exact n.toNat_lt
    · rw [putSeq, hlen, UInt64.ofNat_toNat, List.append_assoc]
  · rintro ⟨⟨hlt, hall⟩, rfl⟩
    refine ⟨UInt64.ofNat l.length, l.flatMap enc ++ rest, trivial, ?_, h.many.mpr ⟨?_, hall, rfl⟩⟩
    · rw [putSeq, List.append_assoc]
    · rw [UInt64.toNat_ofNat', Nat.mod_eq_of_lt hlt]

end Bincode
