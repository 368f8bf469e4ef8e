import ContextDb.Files
import ContextDb.Format

/-!
# Creations that are torn

A new database is one write of 128 bytes and one sync. Until the sync, a loss of power may
leave any of these bytes and not the others – and then there is no older generation to fall
back to. The statements about histories begin after a creation that succeeded; this one is
about those that did not.

All that can be told from the first slot is told by its magic, its version and its checksum.
They are enough: of the images that a torn creation can leave, only the whole region decodes
(`ContextDb.Header.eq_of_kept`). For this one header that is a computation, not an assumption
on checksums. So after any number of attempts the file is empty, or it is a new database, or
it is refused by every further attempt (`ContextDb.creation_is_all_or_nothing`).
-/

namespace ContextDb

open ByteFile Bincode FileProg Prog StorageEngine

/-! ### Bytes that are there or not -/

/-- **A byte that may not have been written**: it is still zero, or it is there. -/
def Kept (b r : UInt8) : Prop := b = 0 ∨ b = r

instance : DecidableRel Kept := fun _ _ => inferInstanceAs (Decidable (_ ∨ _))

/-- Lists are compared piece by piece. -/
theorem kept_append_iff {a b c d : Bytes} (h : a.length = c.length) :
    List.Forall₂ Kept (a ++ b) (c ++ d) ↔ List.Forall₂ Kept a c ∧ List.Forall₂ Kept b d := by
  constructor
  · intro hk
    have htake := List.forall₂_take a.length hk
    have hdrop := List.forall₂_drop a.length hk
    rw [List.take_left, h, List.take_left] at htake
    rw [List.drop_left, h, List.drop_left] at hdrop
    exact ⟨htake, hdrop⟩
  · rintro ⟨hac, hbd⟩
    exact List.rel_append hac hbd

/-- What should be zero is zero. -/
theorem eq_replicate_of_kept {bs : Bytes} {n : ℕ} (h : List.Forall₂ Kept bs (List.replicate n 0)) :
    bs = List.replicate n 0 := by
  induction n generalizing bs with
  | zero =>
    cases h
    rfl
  | succ n ih =>
    rw [List.replicate_succ] at h
    cases h with
    | cons hb hrest =>
      rw [List.replicate_succ, ih hrest, hb.elim id id]

/-- A number that should be zero is zero. -/
theorem eq_zero_of_kept {x : UInt64} (h : List.Forall₂ Kept (putU64 x) (putU64 0)) : x = 0 := by
  have hzero : putU64 0 = List.replicate 8 0 := rfl
  rw [hzero] at h
  rw [← ofNat_leNat_putU64 x, eq_replicate_of_kept h]
  rfl

/-- A number that should be 128 is that, or zero. -/
theorem eq_logStart_of_kept {x : UInt64} (h : List.Forall₂ Kept (putU64 x) (putU64 logStart)) :
    x = 0 ∨ x = logStart := by
  have hstart : putU64 logStart = 128 :: List.replicate 7 0 := rfl
  rw [hstart] at h
  rw [← ofNat_leNat_putU64 x]
  generalize putU64 x = bs at h
  cases h with
  | cons hb hrest =>
    rw [eq_replicate_of_kept hrest]
    rcases hb with rfl | rfl
    · exact Or.inl rfl
    · exact Or.inr rfl

/-- A checksum is computed piece by piece. -/
theorem hash_append (a b c d : Bytes) : Crc32.hash (a ++ b ++ c ++ d) =
    d.foldl Crc32.update (c.foldl Crc32.update (b.foldl Crc32.update
      (a.foldl Crc32.update 0xFFFFFFFF))) ^^^ 0xFFFFFFFF := by
  rw [Crc32.hash, List.foldl_append, List.foldl_append, List.foldl_append]

/-- The register behind the first half of the initial header. -/
theorem update_front : (List.replicate 16 0).foldl Crc32.update
    ((magic ++ leBytes 4 formatVersion.toNat ++ List.replicate 8 0).foldl Crc32.update
      0xFFFFFFFF) = 0xAF530EEB := by
  have hmagic : (magic ++ leBytes 4 formatVersion.toNat ++ List.replicate 8 0).foldl Crc32.update
      0xFFFFFFFF = 0x5D8972A3 := by decide +kernel
  rw [hmagic]
  decide +kernel

/-- The checksum of the initial header. -/
theorem hash_initial : Crc32.hash (Header.initial.withCrc 0) = 0x80F8D3A5 := by
  have hpieces : Header.initial.withCrc 0 = magic ++ leBytes 4 formatVersion.toNat ++
      List.replicate 8 0 ++ List.replicate 16 0 ++ (128 :: List.replicate 15 0) ++
      List.replicate 16 0 := rfl
  have hthird : (128 :: List.replicate 15 0 : Bytes).foldl Crc32.update 0xAF530EEB =
      0xE1E7EBDE := by decide +kernel
  rw [hpieces, hash_append, update_front, hthird]
  decide +kernel

/-- It is another one without its last field. -/
theorem hash_zero :
    Crc32.hash ((⟨0, 0, 0, 0⟩ : Header).padded 0 (List.replicate 20 0)) = 0x6A33A4ED := by
  have hpieces : (⟨0, 0, 0, 0⟩ : Header).padded 0 (List.replicate 20 0) =
      magic ++ leBytes 4 formatVersion.toNat ++ List.replicate 8 0 ++ List.replicate 16 0 ++
        List.replicate 16 0 ++ List.replicate 16 0 := rfl
  have hthird : (List.replicate 16 0 : Bytes).foldl Crc32.update 0xAF530EEB = 0xBD1A062A := by
    decide +kernel
  rw [hpieces, hash_append, update_front, hthird]
  decide +kernel

/-- **A torn initial header decodes only if it is whole.** What has been lost of it shows in
its checksum. -/
theorem Header.eq_of_kept {h : Header} {buf : Bytes} (hs : h.Spelled buf)
    (hk : List.Forall₂ Kept buf Header.initial.encode) : buf = Header.initial.encode := by
  obtain ⟨reserved, -, rfl⟩ := hs
  rw [padded, Header.encode, withCrc,
    kept_append_iff (by rw [length_fields, length_fields]),
    kept_append_iff (by rw [length_leBytes, length_leBytes])] at hk
  obtain ⟨hfields, hcrc, hreserved⟩ := hk
  obtain rfl := eq_replicate_of_kept hreserved
  -- the fields, from the last one on
  rw [fields, fields, initial, kept_append_iff (by simp), kept_append_iff (by simp),
    kept_append_iff (by simp), kept_append_iff (by simp)] at hfields
  obtain ⟨⟨⟨⟨-, hg⟩, hp⟩, hl⟩, he⟩ := hfields
  obtain ⟨generation, masterPtr, masterLen, logEnd⟩ := h
  obtain rfl := eq_zero_of_kept hg
  obtain rfl := eq_zero_of_kept hp
  obtain rfl := eq_zero_of_kept hl
  rcases eq_logStart_of_kept he with rfl | rfl
  · -- the checksum of this one does not come from the other
    rw [hash_zero, hash_initial] at hcrc
    exact absurd hcrc (by decide)
  · rfl

/-! ### Torn header regions -/

/-- **A torn header region**: some of its bytes, the others not written or cut off. -/
structure Torn (img : Bytes) : Prop where
  /-- It is no longer than the region. -/
  length_le : img.length ≤ 128
  /-- Every byte is there or still zero. -/
  byte : ∀ (i : ℕ) (b : UInt8), img[i]? = some b → b = 0 ∨ newRegion[i]? = some b

theorem torn_take (n : ℕ) : Torn (newRegion.take n) where
  length_le := by
    rw [List.length_take, length_newRegion]
    exact Nat.min_le_right _ _
  byte i b hb := by
    rw [List.getElem?_take] at hb
    split at hb
    · exact Or.inr hb
    · cases hb

section Torn

variable {img : Bytes}

/-- Of its full length, it is compared with the region byte by byte. -/
theorem Torn.kept (h : Torn img) (hlen : img.length = 128) : List.Forall₂ Kept img newRegion := by
  refine List.forall₂_iff_get.mpr ⟨by rw [hlen, length_newRegion], fun i h₁ h₂ => ?_⟩
  rw [List.get_eq_getElem, List.get_eq_getElem]
  rcases h.byte i _ (List.getElem?_eq_getElem h₁) with h0 | hr
  · exact Or.inl h0
  · rw [List.getElem?_eq_getElem h₂] at hr
    exact Or.inr (Option.some.inj hr).symm

/-- **What decodes of it.** Nothing, unless it is the whole region. -/
theorem Torn.cases (h : Torn img) :
    img.length < 128 ∨ img = newRegion ∨ (128 ≤ img.length ∧ ∀ t, decodedSlots img t = none) := by
  rcases Nat.lt_or_ge img.length 128 with hlt | hge
  · exact Or.inl hlt
  have hlen := le_antisymm h.length_le hge
  -- the two slots
  obtain ⟨first, second, rfl, hfirst⟩ : ∃ a b : Bytes, img = a ++ b ∧ a.length = 64 :=
    ⟨img.take 64, img.drop 64, (List.take_append_drop 64 img).symm, by
      rw [List.length_take]; omega⟩
  have hk := h.kept hlen
  rw [newRegion, kept_append_iff (hfirst.trans (Header.length_encode _).symm)] at hk
  obtain ⟨hk, hzero⟩ := hk
  obtain rfl := eq_replicate_of_kept hzero
  have hslot : slotBytes (first ++ List.replicate headerSize 0) 0 = first := by
    rw [slotBytes_def]
    exact List.take_left' hfirst
  have hsecond : decodedSlots (first ++ List.replicate headerSize 0) 1 = none := by
    have hbytes : slotBytes (first ++ List.replicate headerSize 0) 1 = List.replicate 64 0 := by
      rw [slotBytes_def]
      change ((first ++ List.replicate headerSize 0).drop 64).take 64 = _
      rw [List.drop_left' hfirst]
      rfl
    rw [decodedSlots_eq, hbytes]
    rfl
  cases hdec : decodedSlots (first ++ List.replicate headerSize 0) 0 with
  | some hdr =>
    rw [decodedSlots_eq_some hge, hslot] at hdec
    rw [Header.eq_of_kept hdec hk]
    exact Or.inr (Or.inl rfl)
  | none =>
    refine Or.inr (Or.inr ⟨hge, fun t => ?_⟩)
    obtain rfl | rfl := t.eq_zero_or_one
    · exact hdec
    · exact hsecond

/-- **What opening makes of it**, if it is not empty. -/
theorem Torn.returns (h : Torn img) (hne : img ≠ []) :
    (img = newRegion ∧ openFile.run.Returns (fun w => w = img) (.ok created)) ∨
      (img ≠ newRegion ∧ ∃ err, openFile.run.Returns (fun w => w = img) (.error err)) := by
  rcases h.cases with hlt | rfl | ⟨hlen, hbad⟩
  · refine Or.inr ⟨?_, Unreadable.returns (Or.inl hlt) hne⟩
    rintro rfl
    rw [length_newRegion] at hlt
    exact lt_irrefl _ hlt
  · refine Or.inl ⟨rfl, ?_⟩
    rw [created_eq]
    exact openFile_returns live_newRegion
  · refine Or.inr ⟨?_, openFile_broken hlen hbad⟩
    rintro rfl
    have hdec := hbad 0
    rw [newRegion_eq, decodedSlots_regionWith] at hdec
    cases hdec

end Torn

/-! ### Attempts -/

/-- **An attempt to create a database**, which is stopped or fails, or a loss of power. -/
inductive Attempt (F : Faults) : Disk → Disk → Prop
  /-- Somebody opens the file and gets this far. -/
  | stopped {d d' : Disk} {tr : Trace} (h : Stops F openFile.run d tr d') : Attempt F d d'
  /-- The power is lost. -/
  | powerLoss {d : Disk} {img : Bytes} (h : d.Crash img) : Attempt F d (.ofImage img)

/-- **A disk on which a database is being created.** -/
structure Creating (d : Disk) : Prop where
  /-- What is durable is a torn region. -/
  durable : Torn d.durable
  /-- So is what a reader sees. -/
  volatile : Torn d.volatile
  /-- What waits to be synced are fronts of the region. -/
  unsynced : ∀ w ∈ d.unsynced, w.1 = 0 ∧ ∃ n, w.2 = newRegion.take n

section Attempts

variable {F : Faults} {d d' : Disk}

theorem creating_ofImage {img : Bytes} (h : Torn img) : Creating (.ofImage img) :=
  ⟨h, h, fun _ hw => absurd hw List.not_mem_nil⟩

/-- A front of the region is written to an empty file. -/
theorem Creating.write (h : Creating d) (hd : d.volatile = []) (n : ℕ) :
    Creating (d.write 0 (newRegion.take n)) := by
  refine ⟨h.durable, ?_, fun w hw => ?_⟩
  · rw [volatile_create hd]
    exact torn_take n
  · rcases List.mem_append.mp hw with hw | hw
    · exact h.unsynced w hw
    · cases List.mem_singleton.mp hw
      exact ⟨rfl, n, rfl⟩

theorem Creating.sync (h : Creating d) : Creating d.sync :=
  ⟨h.volatile, h.volatile, fun _ hw => absurd hw List.not_mem_nil⟩

theorem Creating.point (h : Creating d) (hp : CreationPoint d d') : Creating d' := by
  cases hp with
  | untouched => exact h
  | writing hd _ => exact h.write hd _
  | synced hd =>
    have hw := h.write hd 128
    rw [take_newRegion] at hw
    exact hw.sync

/-- **A loss of power** leaves a torn region. -/
theorem Creating.crash (h : Creating d) {img : Bytes} (hc : d.Crash img) : Torn img where
  length_le := hc.le_volatile.trans h.volatile.length_le
  byte i b hb := by
    rcases hc.byte i b hb with rfl | ⟨w, hw, -, hwb⟩
    · -- a byte that is still durable, or behind the end of the durable image
      rw [List.getD_eq_getElem?_getD]
      cases hdur : d.durable[i]? with
      | none => exact Or.inl rfl
      | some b => exact h.durable.byte i b hdur
    · obtain ⟨h0, n, hn⟩ := h.unsynced w hw
      rw [h0, hn, Nat.sub_zero] at hwb
      exact (torn_take n).byte i b hwb

/-- An attempt on a file that is not empty changes nothing. -/
theorem Creating.idle (h : Creating d) (hne : d.volatile ≠ []) :
    ∃ x, openFile.run.Returns (fun w => w = d.volatile) x := by
  rcases h.volatile.returns hne with ⟨-, hret⟩ | ⟨-, err, hret⟩
  · exact ⟨_, hret⟩
  · exact ⟨_, hret⟩

/-- **One attempt.** -/
theorem Creating.attempt (h : Creating d) (ha : Attempt F d d') : Creating d' := by
  cases ha with
  | powerLoss hc => exact creating_ofImage (h.crash hc)
  | stopped hs =>
    by_cases hd : d.volatile = []
    · have hlen : d.volatile.length < 128 := by rw [hd]; decide
      exact h.point ((openFile_short_safe F hlen).stops hs)
    · obtain ⟨x, hret⟩ := h.idle hd
      rwa [hret.stops_eq rfl hs]

/-- **An attempt that is not disturbed**, on an empty file. -/
theorem openFile_exec_empty (hd : d.volatile = []) :
    openFile.run.exec d = some (.ok created, (d.write 0 newRegion).sync) := by
  have hfit : Fits 0 newRegion := Or.inr (by rw [length_newRegion]; decide)
  rw [openFile_run, exec, hd, if_neg (by decide), initializeRegion_run, exec, if_pos hfit, exec,
    exec]

/-- **An attempt that goes through** has created a new database, or found one. -/
theorem Creating.opened (h : Creating d) {tr : Trace} {e : StorageEngine}
    (hr : Runs F openFile.run d tr (.ok e) d') : e = created ∧ d'.volatile = newRegion := by
  by_cases hd : d.volatile = []
  · have hlen : d.volatile.length < 128 := by rw [hd]; decide
    obtain ⟨rfl, -, rfl⟩ := (openFile_short_safe F hlen).runs hr e rfl
    exact ⟨rfl, volatile_create hd newRegion⟩
  · rcases h.volatile.returns hd with ⟨hnew, hret⟩ | ⟨-, err, hret⟩
    · obtain ⟨-, he, rfl⟩ := hret.of_runs rfl hr
      cases he
      exact ⟨rfl, hnew⟩
    · obtain ⟨-, he, -⟩ := hret.of_runs rfl hr
      cases he

/-- A file at rest that is not empty stays what it is. -/
theorem Creating.rests (h : Creating d) (hs : d.unsynced = []) (hne : d.volatile ≠ [])
    (ha : Attempt F d d') : d' = d := by
  cases ha with
  | stopped hst =>
    obtain ⟨x, hret⟩ := h.idle hne
    exact hret.stops_eq rfl hst
  | powerLoss hc =>
    rw [hc.eq_of_synced hs]
    obtain ⟨durable, unsynced⟩ := d
    obtain rfl : unsynced = [] := hs
    rfl

end Attempts

/-- **Creating a database is all or nothing.** Take any number of attempts to create one, all
of them stopped anywhere or failing, and losses of power between them that may keep any bytes
of what was not synced. Then the file is empty or a whole new database, and opening it gives
the handle of a new database; or it is neither, and opening it fails. Nothing else is ever
opened. And once nothing waits to be synced, a file that is not empty stays what it is. -/
theorem creation_is_all_or_nothing {F : Faults} {d : Disk}
    (h : Relation.ReflTransGen (Attempt F) (.ofImage []) d) :
    (((d.volatile = [] ∨ d.volatile = newRegion) ∧
        ∃ d', openFile.run.exec d = some (.ok created, d') ∧ d'.volatile = newRegion) ∨
      (d.volatile ≠ [] ∧ d.volatile ≠ newRegion ∧
        ∃ err, openFile.run.exec d = some (.error err, d))) ∧
    (∀ F' tr e d', Runs F' openFile.run d tr (.ok e) d' → e = created ∧ d'.volatile = newRegion) ∧
    (d.unsynced = [] → d.volatile ≠ [] →
      ∀ F' d', Relation.ReflTransGen (Attempt F') d d' → d' = d) := by
  have hd : Creating d := by
    induction h with
    | refl => exact creating_ofImage (torn_take 0)
    | tail _ ha ih => exact ih.attempt ha
  refine ⟨?_, fun F' tr e d' hr => hd.opened hr, fun hs hne F' d' hsteps => ?_⟩
  · by_cases hempty : d.volatile = []
    · exact Or.inl ⟨Or.inl hempty, _, openFile_exec_empty hempty, volatile_create hempty _⟩
    · rcases hd.volatile.returns hempty with ⟨hnew, hret⟩ | ⟨hne, err, hret⟩
      · exact Or.inl ⟨Or.inr hnew, d, hret.exec_eq rfl, hnew⟩
      · exact Or.inr ⟨hempty, hne, err, hret.exec_eq rfl⟩
  · induction hsteps with
    | refl => rfl
    | tail _ ha ih =>
      subst ih
      exact hd.rests hs hne ha

/-- A creation of which the file system has kept the length and nothing else. -/
theorem creation_is_all_or_nothing_lost :
    Relation.ReflTransGen (Attempt .never) (.ofImage []) (.ofImage (List.replicate 128 0)) ∧
      ∃ err, openFile.run.exec (.ofImage (List.replicate 128 0)) =
        some (.error err, .ofImage (List.replicate 128 0)) := by
  have hfit : Fits 0 newRegion := Or.inr (by rw [length_newRegion]; decide)
  have hwrite : ∃ q, Steps .never (initializeRegion blank).run (.ofImage [])
      [⟨0, newRegion, newRegion.length⟩] q ((Disk.ofImage []).write 0 newRegion) := by
    rw [initializeRegion_run]
    exact ⟨_, Step.steps (.write _ _ hfit)⟩
  obtain ⟨q, hwrite⟩ := hwrite
  have hstop : Stops .never openFile.run (.ofImage []) [⟨0, newRegion, newRegion.length⟩]
      ((Disk.ofImage []).write 0 newRegion) := by
    rw [openFile_run]
    exact Or.inl ⟨q, .head (.len _ _) hwrite⟩
  have hcrash : ((Disk.ofImage []).write 0 newRegion).Crash (List.replicate 128 0) := by
    refine ⟨Nat.zero_le _, ?_, fun i b hb => Or.inl ?_⟩
    · rw [volatile_create rfl, List.length_replicate, length_newRegion]
    · rw [List.getElem?_replicate] at hb
      split at hb
      · cases hb
        rfl
      · cases hb
  have hattempts : Relation.ReflTransGen (Attempt .never) (.ofImage [])
      (.ofImage (List.replicate 128 0)) := .tail (.single (.stopped hstop)) (.powerLoss hcrash)
  obtain ⟨⟨hfile, -⟩ | ⟨-, -, herr⟩, -, -⟩ := creation_is_all_or_nothing hattempts
  · exact absurd hfile (by decide)
  · exact ⟨hattempts, herr⟩

end ContextDb
