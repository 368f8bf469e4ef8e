import ContextDb.Sessions

/-!
# The order in which hash tables are iterated

A commit serializes a hash map and a hash set, and writes them in the order in which
they happen to be iterated. So two runs of the same requests may leave different files.
Nobody can tell: the order is in the payload of master records and nowhere else. It is
neither in their length, and so in no offset, nor in an index that has been loaded from
them (`ContextDb.iteration_order_is_invisible`).

The argument follows two sessions in lockstep. They hold one and the same handle, their
header slots are equal, and their logs are different – but stand for the same documents
and for the same index (`ContextDb.Shuffled`).
-/

namespace ContextDb

open ByteFile FileProg Prog StorageEngine

/-- **A request without an order of iteration**: every commit is taken to iterate its
tables in the order in which they are listed. -/
noncomputable def Request.plain : Request → Request
  | .op (.commit _) => .op (.commit .listed)
  | q => q

/-- A request other than a commit has no order to forget. -/
theorem Request.eq_of_plain {op : Op} {q : Request} (hop : op.isCommit = false)
    (h : (Request.op op).plain = q.plain) : q = .op op := by
  have hself : (Request.op op).plain = .op op := by
    cases op with
    | commit order => cases hop
    | _ => rfl
  rw [hself] at h
  cases q with
  | reopen => cases h
  | op op' =>
    cases op' with
    | commit order =>
      cases h
      cases hop
    | _ => exact h.symm

/-- A commit is a commit in any order. -/
theorem Request.commit_of_plain {order : IterOrder} {q : Request}
    (h : (Request.op (.commit order)).plain = q.plain) : ∃ order', q = .op (.commit order') := by
  cases q with
  | reopen => cases h
  | op op' =>
    cases op' with
    | commit order' => exact ⟨order', rfl⟩
    | _ => cases h

/-- **Two sessions that differ in the order of iteration only**: they have one handle and
the same header slots, and their logs stand for the same documents and the same index. -/
structure Shuffled (x y : StorageEngine × Disk) : Prop where
  /-- The handles are the same. -/
  handle : x.1 = y.1
  /-- So are the header slots. -/
  slots : ∀ t, slotBytes x.2.volatile t = slotBytes y.2.volatile t
  /-- The logs stand for the same. -/
  logs : ∃ l log l' log', Settled x.1 x.2.volatile l log ∧ Settled y.1 y.2.volatile l' log' ∧
    tableOf l = tableOf l' ∧ indexOf l = indexOf l' ∧ tableOf log = tableOf log'

/-- A new database, next to itself. -/
theorem shuffled_newStore : Shuffled newStore newStore :=
  ⟨rfl, fun _ => rfl, [], [], [], [], settled_created, settled_created, rfl, rfl, rfl⟩

/-- The payload of a master record has one length in every order of iteration. -/
theorem length_commitPayload (e : StorageEngine) (order order' : IterOrder) :
    (commitPayload e order).length = (commitPayload e order').length := by
  rw [commitPayload, commitPayload, MasterIndex.length_serialize, MasterIndex.length_serialize]

/-- The header and the handle a commit leaves do not depend on the order of iteration. -/
theorem commit_order_eq (e : StorageEngine) (order order' : IterOrder) :
    commitHeaderOf e order = commitHeaderOf e order' ∧
      commitAppended e order = commitAppended e order' := by
  have hlen := length_commitPayload e order order'
  have happ : commitAppended e order = commitAppended e order' := by
    rw [commitAppended, commitAppended, hlen]
  refine ⟨?_, happ⟩
  rw [commitHeaderOf, commitHeaderOf, happ, nextHeader, nextHeader, hlen]

section Shuffled

variable [Bson] {x x' y y' : StorageEngine × Disk} {r r' : Except CndbError Reply}

/-- **How a request is served** depends on the handle and the documents. -/
theorem Serves.of_table {F : Faults} {e e' : StorageEngine} {log log' log₂ : Log} {op : Op}
    (h : Serves F e log op r e' log') (ht : tableOf log = tableOf log₂) :
    ∃ log₂', Serves F e log₂ op r e' log₂' ∧ tableOf log' = tableOf log₂' := by
  induction h with
  | appended hlen hfit => exact ⟨_, .appended hlen hfit, by rw [tableOf_snoc, tableOf_snoc, ht]⟩
  | tooLarge hlen => exact ⟨log₂, .tooLarge hlen, ht⟩
  | appendFailed hf => exact ⟨log₂, .appendFailed hf, ht⟩
  | inserted hb _ ih =>
    obtain ⟨log₂', h', ht'⟩ := ih
    exact ⟨log₂', .inserted hb h', ht'⟩
  | notInserted hb => exact ⟨log₂, .notInserted hb, ht⟩
  | buried hid hd hfit => exact ⟨_, .buried hid hd hfit, by rw [tableOf_snoc, tableOf_snoc, ht]⟩
  | deleted hd => exact ⟨log₂, .deleted hd, ht⟩
  | notFound hd hid => exact ⟨log₂, .notFound hd hid, ht⟩
  | buryFailed hf => exact ⟨log₂, .buryFailed hf, ht⟩
  | read =>
    refine ⟨log₂, ?_, ht⟩
    rw [ht]
    exact .read
  | len => exact ⟨log₂, .len, ht⟩
  | liveIds => exact ⟨log₂, .liveIds, ht⟩

omit [Bson] in
/-- **Opening both files again** gives one handle. -/
theorem Shuffled.reopens (h : Shuffled x y) : ∃ e, openFile.run.exec x.2 = some (.ok e, x.2) ∧
    openFile.run.exec y.2 = some (.ok e, y.2) ∧ Shuffled (e, x.2) (e, y.2) := by
  obtain ⟨hhandle, hslots, l, log, l', log', hs, hs', htl, hil, -⟩ := h
  have hdec : decodedSlots y.2.volatile = decodedSlots x.2.volatile :=
    funext fun t => decodedSlots_congr (hslots t).symm
  have hopened : opened (decodedSlots y.2.volatile) y.1.liveSlot y.1.header l' =
      opened (decodedSlots x.2.volatile) x.1.liveSlot x.1.header l := by
    rw [opened, opened, hdec, hil, hhandle]
  have hopen' := hs'.reopen_exec
  have hsettled := Settled.of_live hs'.live
  rw [hopened] at hopen' hsettled
  exact ⟨_, hs.reopen_exec, hopen', rfl, hslots, l, l, l', l', Settled.of_live hs.live, hsettled,
    htl, hil, htl⟩

/-- **A commit, in two orders of iteration.** Both do nothing, both refuse an index that is
too long, or both publish a header. -/
theorem Shuffled.commit {e e' e₂' : StorageEngine} {d d' d₂ d₂' : Disk} {order order' : IterOrder}
    (hxy : Shuffled (e, d) (e, d₂))
    (hx : ((Op.commit order).prog e).exec d = some ((r, e'), d'))
    (hy : ((Op.commit order').prog e).exec d₂ = some ((r', e₂'), d₂')) :
    r = r' ∧ Shuffled (e', d') (e₂', d₂') := by
  obtain ⟨-, hslots, l, log, l₂, log₂, hs, hs₂, htl, hil, ht⟩ := id hxy
  simp only at hslots hs hs₂
  rcases hs.commit_exec_cases hx with ⟨hd, rfl, rfl, rfl⟩ | ⟨hd, hmax, rfl, rfl, hg⟩ |
    ⟨hd, hle, rfl, rfl, tr, d₁, hp, rfl⟩
  · rcases hs₂.commit_exec_cases hy with ⟨-, rfl, rfl, rfl⟩ | ⟨hd', -⟩ | ⟨hd', -⟩
    · exact ⟨rfl, hxy⟩
    · exact absurd hd' (by simpa using hd)
    · exact absurd hd' (by simpa using hd)
  · rcases hs₂.commit_exec_cases hy with ⟨hd', -⟩ | ⟨-, -, rfl, rfl, hg₂⟩ | ⟨-, hle, -⟩
    · exact absurd hd (by simpa using hd')
    · refine ⟨rfl, rfl, fun t => ?_, l, log, l₂, log₂, hs.grow hg, hs₂.grow hg₂, htl, hil,
        ht⟩
      simp only
      rw [slotBytes_grows (le_tail log) hs.backed.length_le hg,
        slotBytes_grows (le_tail log₂) hs₂.backed.length_le hg₂]
      exact hslots t
    · exact absurd hle (Nat.not_le_of_lt hmax)
  · rcases hs₂.commit_exec_cases hy with ⟨hd', -⟩ | ⟨-, hmax, -⟩ |
      ⟨-, -, rfl, rfl, tr₂, d₃, hp₂, rfl⟩
    · exact absurd hd (by simpa using hd')
    · exact absurd hle (Nat.not_le_of_lt hmax)
    · -- both logs have grown by a master record, and nothing but its payload differs
      obtain ⟨hhdr, happ⟩ := commit_order_eq e order order'
      have ht' : tableOf (commitLog e order log) = tableOf (commitLog e order' log₂) := by
        rw [tableOf_commitLog, tableOf_commitLog, ht]
      have hi : indexOf (commitLog e order log) = indexOf (commitLog e order' log₂) := by
        rw [← (hs.publish hp).handle.index, ← (hs₂.publish hp₂).handle.index, hhdr, happ]
      refine ⟨rfl, by simp only; rw [hhdr, happ], fun t => ?_, _, _, _, _, hs.publish hp,
        hs₂.publish hp₂, ht', hi, ht'⟩
      simp only
      rw [slotBytes_published hs.handle hs.backed hp,
        slotBytes_published hs₂.handle hs₂.backed hp₂, hslots, hhdr]

/-- **One request, in two orders of iteration.** -/
theorem Shuffled.performs {q q' : Request} (hxy : Shuffled x y) (hq : q.plain = q'.plain)
    (hx : Performs x q r x') (hy : Performs y q' r' y') : r = r' ∧ Shuffled x' y' := by
  obtain ⟨e, d⟩ := x
  obtain ⟨e₂, d₂⟩ := y
  obtain ⟨rfl, hslots, l, log, l₂, log₂, hs, hs₂, htl, hil, ht⟩ := id hxy
  simp only at hslots hs hs₂
  cases hx with
  | @op _ e' _ d' op r hx =>
    cases hop : op.isCommit with
    | false =>
      obtain rfl := Request.eq_of_plain hop hq
      cases hy with
      | op hy =>
        obtain ⟨log', hsv, hs', -, -, hk⟩ := hs.stage hop hx
        obtain ⟨log₂', hsv₂, hs₂', -, -, hk₂⟩ := hs₂.stage hop hy
        obtain ⟨log₃, hsv₃, ht'⟩ := hsv.of_table ht
        obtain ⟨rfl, rfl, rfl⟩ := hsv₃.unique hsv₂
        refine ⟨rfl, rfl, fun t => ?_, l, log', l₂, log₃, hs', hs₂', htl, hil, ht'⟩
        simp only
        rw [hk, hk₂]
        exact hslots t
    | true =>
      obtain ⟨order, rfl⟩ := Op.eq_commit hop
      obtain ⟨order', rfl⟩ := Request.commit_of_plain hq
      cases hy with
      | op hy => exact hxy.commit hx hy
  | reopen hopen =>
    obtain rfl : q' = .reopen := by
      cases q' with
      | reopen => rfl
      | op op => cases op <;> cases hq
    cases hy with
    | reopen hopen₂ =>
      obtain ⟨e', h₁, h₂, hsame⟩ := hxy.reopens
      rw [h₁] at hopen
      rw [h₂] at hopen₂
      cases hopen
      cases hopen₂
      exact ⟨rfl, hsame⟩

/-- **One request to the engine, in some order of iteration.** -/
def PlainPerforms (x : StorageEngine × Disk) (i : Request) (r : Except CndbError Reply)
    (x' : StorageEngine × Disk) : Prop := ∃ q, q.plain = i ∧ Performs x q r x'

/-- A run is a run in some orders of iteration. -/
theorem EngineRun.plain {tr : List (Request × Except CndbError Reply)} (h : EngineRun x tr x') :
    Machine.Run PlainPerforms x (tr.map fun p => (p.1.plain, p.2)) x' := by
  induction h with
  | nil => exact .nil _
  | cons hstep _ ih => exact .cons ⟨_, rfl, hstep⟩ ih

end Shuffled

/-- **The order of iteration is invisible.** Two runs on a new database, in which nothing
fails, are given the same requests; only the orders in which the commits iterate their
hash tables differ. Then all replies are the same – ids, records, offsets in errors – and
so are the handles at the end, what they show, the header slots in the file, and the
handles that opening the files again would give. -/
theorem iteration_order_is_invisible [Bson] {x x' : StorageEngine × Disk}
    {tr tr' : List (Request × Except CndbError Reply)} (h : EngineRun newStore tr x)
    (h' : EngineRun newStore tr' x')
    (hreq : tr.map (fun p => p.1.plain) = tr'.map fun p => p.1.plain) :
    tr.map Prod.snd = tr'.map Prod.snd ∧ x.1 = x'.1 ∧
      x.1.docState x.2.volatile = x'.1.docState x'.2.volatile ∧
      (∀ t, slotBytes x.2.volatile t = slotBytes x'.2.volatile t) ∧
      ∃ e, openFile.run.exec x.2 = some (.ok e, x.2) ∧
        openFile.run.exec x'.2 = some (.ok e, x'.2) := by
  obtain ⟨hall, hend⟩ := Machine.Run.lockstep (M := PlainPerforms) (N := PlainPerforms)
    (R := Shuffled) (P := Eq)
    (fun x y i r r' x₁ y₁ hxy hx hy => by
      obtain ⟨q, hq, hx⟩ := hx
      obtain ⟨q', hq', hy⟩ := hy
      exact hxy.performs (hq.trans hq'.symm) hx hy)
    h.plain h'.plain (by rw [List.map_map, List.map_map]; exact hreq) shuffled_newStore
  rw [List.forall₂_eq_eq_eq, List.map_map, List.map_map] at hall
  obtain ⟨e, hopen, hopen', -⟩ := hend.reopens
  obtain ⟨hhandle, hslots, l, log, l', log', hs, hs', -, -, ht⟩ := hend
  refine ⟨hall, hhandle, ?_, hslots, e, hopen, hopen'⟩
  rw [hs.docState, hs'.docState, ht]

/-- The tables the other way round. -/
noncomputable def IterOrder.reversed : IterOrder where
  entries m := (IterOrder.listed.entries m).reverse
  ids s := (IterOrder.listed.ids s).reverse
  entries_spec m := by
    rw [List.map_reverse, Multiset.coe_reverse]
    exact IterOrder.listed.entries_spec m
  ids_spec s := by
    rw [Multiset.coe_reverse]
    exact IterOrder.listed.ids_spec s

/-- From two entries on it is another order. -/
theorem IterOrder.reversed_ne_listed {m : Offsets} (h : 2 ≤ m.keys.card) :
    IterOrder.reversed.entries m ≠ IterOrder.listed.entries m := by
  intro heq
  have hlen := IterOrder.listed.length_entries m
  have hnd := (IterOrder.listed.nodup_entries m).of_map
  have hpos : 0 < (IterOrder.listed.entries m).reverse.length := by
    rw [List.length_reverse]
    omega
  have hfirst : (IterOrder.listed.entries m).reverse[0] = (IterOrder.listed.entries m)[0] :=
    List.getElem_of_eq heq hpos
  rw [List.getElem_reverse, hnd.getElem_inj_iff] at hfirst
  omega

/-- A file holds the master record of one order of iteration only. -/
theorem commitPayload_of_holds {e : StorageEngine} {log : Log} {order order' : IterOrder}
    {v : Bytes} (h : Holds v 128 (logBytes (commitLog e order log)))
    (h' : Holds v 128 (logBytes (commitLog e order' log))) :
    commitPayload e order = commitPayload e order' := by
  have hlen := length_commitPayload e order order'
  have heq := h.unique h' (by
    rw [commitLog, commitLog, logBytes_append, logBytes_append, List.length_append,
      List.length_append]
    simp [Entry.record, hlen])
  rw [commitLog, commitLog, logBytes_append, logBytes_append, List.append_cancel_left_eq] at heq
  exact List.append_inj_right' (by simpa [Record.bytes, Entry.record] using heq) hlen

/-- Two documents and the deletion of one of them, committed in two orders: the files
differ, and show the same. -/
theorem iteration_order_is_invisible_shuffled :
    letI := emptyDocuments
    ∃ d d' : Disk, EngineRun newStore [(.op (.append .blob [7]), .ok (.id ⟨1⟩)),
        (.op (.append .blob [8]), .ok (.id ⟨2⟩)), (.op (.tombstone ⟨1⟩), .ok .done),
        (.op (.commit .listed), .ok .done)] (smallCommitted, d) ∧
      EngineRun newStore [(.op (.append .blob [7]), .ok (.id ⟨1⟩)),
        (.op (.append .blob [8]), .ok (.id ⟨2⟩)), (.op (.tombstone ⟨1⟩), .ok .done),
        (.op (.commit .reversed), .ok .done)] (smallCommitted, d') ∧
      d.volatile ≠ d'.volatile ∧
      smallCommitted.docState d.volatile = smallCommitted.docState d'.volatile := by
  let _ := emptyDocuments
  obtain ⟨d₀, h, hs, hlen⟩ := small_run
  obtain ⟨d, hc, hsd, -⟩ := small_commit hs hlen
  obtain ⟨d', hc', hsd'⟩ := hs.commit_goes_through .reversed rfl (by decide) (by decide)
  obtain ⟨hhdr, happ⟩ := commit_order_eq firstBuried .reversed .listed
  rw [hhdr, happ] at hc' hsd'
  have hrun := Machine.Run.append h (.cons (.op hc) (.nil _))
  have hrun' := Machine.Run.append h (.cons (.op hc') (.nil _))
  refine ⟨d, d', hrun, hrun', fun heq => ?_,
    (iteration_order_is_invisible hrun hrun' rfl).2.2.1⟩
  have hpay := commitPayload_of_holds hsd'.backed.holds (heq ▸ hsd.backed.holds)
  exact IterOrder.reversed_ne_listed (by decide)
    (MasterIndex.entries_of_serialize (by decide) hpay)

end ContextDb
