import ContextDb.Lib.Program
import ContextDb.Storage.Header
import ContextDb.Storage.Index
import ContextDb.Storage.Record
import Mathlib.Data.Fin.VecNotation

/-!
# The append-only storage engine

A commit never overwrites a byte the live generation depends on:

1. records are appended at the end of the log and the payload is flushed;
2. the master index is appended *as an ordinary record*, then flushed;
3. a header with `generation + 1` is written to the older slot and flushed.

Step 3 is the commit point. The engine is a program over one file
(`FileProg.Prog`), so that the points between its requests, and inside its
writes, are there to be spoken of. A method that only borrows the handle is a
`ContextDb.FileM`; one that changes it is a `ContextDb.EngineM`, in which the
handle keeps what was stored in it before a failing step, as it does behind a
mutable reference.
-/

namespace ContextDb

open ByteFile FileProg

/-! ### Positioned file I/O -/

/-- A program over the database file that may fail. -/
abbrev FileM (α : Type) : Type := ExceptT CndbError Prog α

/-- A result that needs no request. -/
def ofExcept {α : Type} (r : Except CndbError α) : FileM α := ExceptT.mk (.ret r)

/-- The length of the file. -/
def fileLength : FileM ℕ := ExceptT.mk (.len fun n => .ret (.ok n))

/-- Read exactly `n` bytes at `offset`. -/
def readExactAt (n : ℕ) (offset : UInt64) : FileM Bytes :=
  ExceptT.mk (.read offset.toNat n fun
    | some buf => .ret (.ok buf)
    | none => .ret (.error (.io .unexpectedEof)))

/-- Write all of `buf` at `offset`. -/
def writeAllAt (buf : Bytes) (offset : UInt64) : FileM Unit :=
  ExceptT.mk (.write offset.toNat buf fun
    | true => .ret (.ok ())
    | false => .ret (.error (.io .fault)))

/-- Make everything written so far durable: `sync_data` and `sync_all`. -/
def syncData : FileM Unit :=
  ExceptT.mk (.sync fun
    | true => .ret (.ok ())
    | false => .ret (.error (.io .fault)))

/-! ### The handle -/

/-- **A single `.cndb` file, opened for reading and writing.** The file itself is
what the programs below run on. -/
structure StorageEngine where
  /-- The live header, i.e. the last committed state. -/
  header : Header
  /-- Both decoded slots, so a commit can pick the one safe to overwrite. -/
  slots : Slots
  /-- Which slot `header` came from. -/
  liveSlot : Slot
  /-- The master index. -/
  index : MasterIndex
  /-- First free byte, the source's `end`. Runs ahead of `header.logEnd` between
  commits. -/
  endOffset : UInt64
  /-- Whether anything has been appended since the last commit. -/
  dirty : Bool

/-- A method that changes the handle. When it fails, what it has stored in the
handle stays. -/
abbrev EngineM (α : Type) : Type := ExceptT CndbError (StateT StorageEngine Prog) α

/-- A program over the file, as a step of a method that changes the handle. -/
def file {α : Type} (x : FileM α) : EngineM α :=
  ExceptT.mk fun self => x.run.bind fun r => .ret (r, self)

/-- A snapshot of engine state, for diagnostics and tests. -/
structure Stats where
  generation : UInt64
  liveDocs : UInt64
  deadDocs : ℕ
  committedLen : UInt64
  pendingLen : UInt64
  deriving DecidableEq

/-! ### Reading records -/

/-- Read and validate a record frame at `offset`. -/
def readFrameAt (offset : UInt64) : FileM Frame := do
  let buf ← readExactAt recordHeaderSize.toNat offset
  ofExcept (decodeFrame buf offset)

/-- Read a whole record at `offset`, verifying its checksum. -/
def readRecordAt (offset : UInt64) : FileM Record := do
  let frame ← readFrameAt offset
  let payload ← readExactAt frame.len.toNat (offset + recordHeaderSize)
  ofExcept (verifyPayload frame payload offset)
  return { kind := frame.kind, payload }

namespace StorageEngine

/-- Read a document with its record kind. -/
def readRecord (self : StorageEngine) (id : DocId) : FileM Record := do
  if id ∈ self.index.dead then
    throw (.deleted id)
  match self.index.offsets.lookup id with
  | none => throw (.notFound id)
  | some offset => readRecordAt offset

/-- Read a document's payload. -/
def read (self : StorageEngine) (id : DocId) : FileM Bytes := do
  return (← self.readRecord id).payload

/-! ### Opening -/

/-- Lay down the header region of a brand-new database: slot 0 holds generation
0, slot 1 stays zeroed and so decodes as invalid, which makes it the first
commit's victim. -/
def initializeRegion (self : StorageEngine) : FileM StorageEngine := do
  writeAllAt (self.header.encode ++ List.replicate headerSize 0) 0
  syncData
  return { self with slots := ![some self.header, none], liveSlot := 0 }

/-- The name of a kind in a message. -/
def kindName : RecordKind → String
  | .node => "Node"
  | .edge => "Edge"
  | .blob => "Blob"
  | .tombstone => "Tombstone"
  | .masterIndex => "MasterIndex"

/-- What a slot of the header region decodes to. -/
def decodeSlot (region : Bytes) (slot : Slot) : Except CndbError Header :=
  Header.decode (Header.slice region (slot * headerSize) ((slot + 1) * headerSize)) slot

/-- Why the first damaged slot of a header region failed to decode. -/
def firstError (region : Bytes) : Option CndbError :=
  match decodeSlot region 0, decodeSlot region 1 with
  | .error e, _ => some e
  | .ok _, .error e => some e
  | .ok _, .ok _ => none

/-- Both slots of a header region, those that decode. -/
def decodedSlots (region : Bytes) : Slots := fun slot => (decodeSlot region slot).toOption

/-- Read the master index the live header points at. -/
def loadIndex (header : Header) : FileM MasterIndex := do
  if header.masterLen = 0 then
    return .default
  let record ← readRecordAt header.masterPtr
  if record.kind ≠ .masterIndex then
    throw (.corruptIndex ("record at " ++ toString header.masterPtr.toNat ++ " is " ++
      kindName record.kind ++ ", not a master index"))
  ofExcept (MasterIndex.decode record.payload)

/-- Recover an existing database from its headers. -/
def load (fileLen : ℕ) : FileM StorageEngine := do
  if fileLen < logStart.toNat then
    throw (.unexpectedEof 0 logStart)
  let region ← readExactAt (headerSize * headerSlots) 0
  let slots := decodedSlots region
  match selectLive slots with
  | .error fallback => throw ((firstError region).getD fallback)
  | .ok (header, liveSlot) =>
    if fileLen < header.logEnd.toNat then
      throw (.unexpectedEof (UInt64.ofNat fileLen) header.logEnd)
    let index ← loadIndex header
    return { header, slots, liveSlot, index, endOffset := header.logEnd, dirty := false }

/-- The handle of a file that does not hold a database yet. -/
def blank : StorageEngine where
  header := .initial
  slots := ![none, none]
  liveSlot := 0
  index := .default
  endOffset := logStart
  dirty := false

/-- **Open the file**, creating an empty database if it is empty. -/
def openFile : FileM StorageEngine := do
  let fileLen ← fileLength
  if fileLen > 0 then
    load fileLen
  else
    initializeRegion blank

/-! ### Writing -/

/-- **Append a framed record** and return where it landed, leaving the index
alone. Used for documents and for the master index itself. -/
def appendRaw (kind : RecordKind) (payload : Bytes) : EngineM UInt64 := do
  let self ← get
  -- the length of a vector is a 64-bit number, so the comparison is exact
  let len := payload.length
  if maxRecordLen.toNat < len then
    throw (.recordTooLarge self.endOffset (UInt64.ofNat len) maxRecordLen)
  let offset := self.endOffset
  file (writeAllAt (encodeFrame kind payload) offset)
  file (writeAllAt payload (offset + recordHeaderSize))
  modify fun self => { self with
    endOffset := offset + recordHeaderSize + UInt64.ofNat len
    dirty := true }
  return offset

/-- **Append a document** and return its id. Durable only after a commit. -/
def append (kind : RecordKind) (payload : Bytes) : EngineM DocId := do
  let offset ← appendRaw kind payload
  let (id, index) := (← get).index.allocateId
  modify fun self => { self with index := index.insert id offset }
  return id

/-- **Mark a document deleted.** A tombstone makes the deletion itself
recoverable; the original record stays on disk. -/
def tombstone (id : DocId) : EngineM Unit := do
  let self ← get
  if id ∈ self.index.dead then
    throw (.deleted id)
  if id ∉ self.index.offsets then
    throw (.notFound id)
  let _ ← appendRaw .tombstone (Bincode.putU64 id.raw)
  modify fun self => { self with
    index := { self.index with dead := insert id self.index.dead } }

/-- **Make every append since the last commit durable.** A no-op when nothing
has changed. `order` is the order in which the hash tables of the index happen
to be iterated. -/
def commit (order : IterOrder) : EngineM Unit := do
  let self ← get
  if self.dirty then
    -- 1. Records reach disk before anything points at them.
    file syncData
    -- 2. The master index goes into the log like any other record.
    let payload ← file (ofExcept (self.index.encode order))
    let masterPtr ← appendRaw .masterIndex payload
    file syncData
    -- 3. The commit point.
    let self ← get
    let next : Header := {
      generation := self.header.generation + 1
      masterPtr := masterPtr
      masterLen := UInt64.ofNat payload.length
      logEnd := self.endOffset }
    let slot := victimSlot self.slots
    file (writeAllAt next.encode (Header.slotOffset slot))
    file syncData
    modify fun self => { self with
      header := next
      slots := Function.update self.slots slot (some next)
      liveSlot := slot
      dirty := false }

/-! ### Checking -/

/-- The loop of `verify`, from `offset` on with `count` records behind it. Every
record advances the offset, so as much fuel as there are bytes is enough. -/
def verifyLoop (logEnd : UInt64) : ℕ → UInt64 → ℕ → FileM (UInt64 × ℕ)
  | 0, offset, count => return (offset, count)
  | fuel + 1, offset, count => do
    if offset < logEnd then
      let frame ← readFrameAt offset
      let payload ← readExactAt frame.len.toNat (offset + recordHeaderSize)
      ofExcept (verifyPayload frame payload offset)
      verifyLoop logEnd fuel (offset + frame.totalLen) (count + 1)
    else
      return (offset, count)

/-- **Walk every record from the start of the log**, checking all checksums.
Returns how many records were read. Only committed bytes are scanned. -/
def verify (self : StorageEngine) : FileM ℕ := do
  let (offset, count) ← verifyLoop self.header.logEnd self.header.logEnd.toNat logStart 0
  if offset ≠ self.header.logEnd then
    throw (.corruptIndex ("log ends at " ++ toString offset.toNat ++ ", header says " ++
      toString self.header.logEnd.toNat))
  return count

/-! ### Looking at the handle -/

/-- Number of live documents. -/
def len (self : StorageEngine) : UInt64 := self.index.liveCount

/-- True when no live documents remain. -/
def isEmpty (self : StorageEngine) : Bool := self.len = 0

/-- Every live document id, in no particular order. -/
def liveIds (self : StorageEngine) : Finset DocId := self.index.liveIds

/-- A snapshot of engine state. -/
def stats (self : StorageEngine) : Stats where
  generation := self.header.generation
  liveDocs := self.index.liveCount
  deadDocs := self.index.deadCount
  committedLen := self.header.logEnd
  pendingLen := self.endOffset

/-! ### The methods as programs

The monadic notation of the methods that write, unfolded once into the requests
they make. Everything below the handle reads these equations, not the
notation. -/

/-- The handle after a record of `len` bytes has been appended. -/
def appended (self : StorageEngine) (len : ℕ) : StorageEngine :=
  { self with
    endOffset := self.endOffset + recordHeaderSize + UInt64.ofNat len
    dirty := true }

theorem appendRaw_run (kind : RecordKind) (payload : Bytes) (self : StorageEngine) :
    (appendRaw kind payload).run.run self =
      if maxRecordLen.toNat < payload.length then
        .ret (.error (.recordTooLarge self.endOffset (UInt64.ofNat payload.length) maxRecordLen),
          self)
      else
        .write self.endOffset.toNat (encodeFrame kind payload) fun
          | true => .write (self.endOffset + recordHeaderSize).toNat payload fun
            | true => .ret (.ok self.endOffset, self.appended payload.length)
            | false => .ret (.error (.io .fault), self)
          | false => .ret (.error (.io .fault), self) := by
  by_cases h : maxRecordLen.toNat < payload.length
  · simp only [appendRaw, if_pos h]
    rfl
  · simp only [appendRaw, if_neg h]
    refine congrArg (Prog.write _ _) (funext fun b => ?_)
    cases b with
    | false => rfl
    | true =>
      refine congrArg (Prog.write _ _) (funext fun b => ?_)
      cases b <;> rfl

/-- The handle after a document has been appended at `offset`. -/
def inserted (self : StorageEngine) (offset : UInt64) : StorageEngine :=
  { self with index := self.index.allocateId.2.insert self.index.allocateId.1 offset }

theorem append_run (kind : RecordKind) (payload : Bytes) (self : StorageEngine) :
    (append kind payload).run.run self =
      ((appendRaw kind payload).run.run self).bind fun
        | (.ok offset, self) => .ret (.ok self.index.allocateId.1, self.inserted offset)
        | (.error e, self) => .ret (.error e, self) := by
  refine congrArg (Prog.bind _) (funext fun r => ?_)
  obtain ⟨r, self⟩ := r
  cases r <;> rfl

/-- The handle after a document has been marked deleted. -/
def buried (self : StorageEngine) (id : DocId) : StorageEngine :=
  { self with index := { self.index with dead := insert id self.index.dead } }

theorem tombstone_run (id : DocId) (self : StorageEngine) :
    (tombstone id).run.run self =
      if id ∈ self.index.dead then .ret (.error (.deleted id), self)
      else if id ∉ self.index.offsets then .ret (.error (.notFound id), self)
      else ((appendRaw .tombstone (Bincode.putU64 id.raw)).run.run self).bind fun
        | (.ok _, self) => .ret (.ok (), self.buried id)
        | (.error e, self) => .ret (.error e, self) := by
  change ExceptT.run (ite (id ∈ self.index.dead) ?_ ?_ : EngineM Unit) self = _
  by_cases h : id ∈ self.index.dead
  · rw [if_pos h, if_pos h]
    rfl
  rw [if_neg h, if_neg h]
  by_cases h' : id ∉ self.index.offsets
  · rw [if_pos h', if_pos h']
    rfl
  · rw [if_neg h', if_neg h']
    refine congrArg (Prog.bind _) (funext fun r => ?_)
    obtain ⟨r, self⟩ := r
    cases r <;> rfl

/-- The header a commit writes, its master record at `masterPtr` and ending the
log. -/
def nextHeader (self : StorageEngine) (masterPtr : UInt64) (payload : Bytes) : Header where
  generation := self.header.generation + 1
  masterPtr := masterPtr
  masterLen := UInt64.ofNat payload.length
  logEnd := self.endOffset

/-- The handle after a commit has made `next` its header. -/
def published (self : StorageEngine) (next : Header) : StorageEngine :=
  { self with
    header := next
    slots := Function.update self.slots (victimSlot self.slots) (some next)
    liveSlot := victimSlot self.slots
    dirty := false }

/-- The last stage of a commit: the master record stands at `masterPtr`, its
flush and the commit point remain. -/
def commitHeader (payload : Bytes) (masterPtr : UInt64) (self : StorageEngine) :
    Prog (Except CndbError Unit × StorageEngine) :=
  .sync fun
    | true => .write (Header.slotOffset (victimSlot self.slots)).toNat
        (self.nextHeader masterPtr payload).encode fun
      | true => .sync fun
        | true => .ret (.ok (), self.published (self.nextHeader masterPtr payload))
        | false => .ret (.error (.io .fault), self)
      | false => .ret (.error (.io .fault), self)
    | false => .ret (.error (.io .fault), self)

theorem commit_run (order : IterOrder) (self : StorageEngine) :
    (commit order).run.run self =
      if self.dirty then .sync fun
        | true => ((appendRaw .masterIndex (self.index.serialize order)).run.run self).bind fun
          | (.ok masterPtr, self') =>
            commitHeader (self.index.serialize order) masterPtr self'
          | (.error e, self') => .ret (.error e, self')
        | false => .ret (.error (.io .fault), self)
      else .ret (.ok (), self) := by
  change ExceptT.run (ite (self.dirty = true) ?_ ?_ : EngineM Unit) self = _
  by_cases h : self.dirty = true
  · rw [if_pos h, if_pos h]
    refine congrArg Prog.sync (funext fun b => ?_)
    cases b with
    | false => rfl
    | true =>
      change Prog.bind ((appendRaw .masterIndex (self.index.serialize order)).run.run self) _ =
        Prog.bind ((appendRaw .masterIndex (self.index.serialize order)).run.run self) _
      refine congrArg (Prog.bind _) (funext fun r => ?_)
      obtain ⟨r, self'⟩ := r
      cases r with
      | error e => rfl
      | ok masterPtr =>
        refine congrArg Prog.sync (funext fun b => ?_)
        cases b with
        | false => rfl
        | true =>
          refine congrArg (Prog.write _ _) (funext fun b => ?_)
          cases b with
          | false => rfl
          | true =>
            refine congrArg Prog.sync (funext fun b => ?_)
            cases b <;> rfl
  · rw [if_neg h, if_neg h]
    rfl

end StorageEngine

end ContextDb
