import ContextDb.Document.Codec
import ContextDb.Storage.Engine

/-!
# The public database handle

A handle of the public interface holds a storage engine and nothing else, so its
methods are programs over that engine. Documents are stored under the kind
`ContextDb.RecordKind.blob`.

`ContextDb.Op` collects what a caller may ask of an open handle, with one
program for each request (`ContextDb.Op.prog`). Every statement about sequences
of requests – histories, refinements, interleavings – is about that type, or about
`ContextDb.Task`, which has the other methods that look at a handle as well.
-/

namespace ContextDb

open ByteFile FileProg

namespace Cndb

variable [Bson]

/-- Store a JSON object and return its id. -/
def insert (doc : Value) : EngineM DocId := do
  let bytes ← file (ofExcept (toBsonBytes doc))
  StorageEngine.append .blob bytes

/-- Fetch a document by id. -/
def get (store : StorageEngine) (id : DocId) : FileM Value := do
  ofExcept (fromBsonBytes (← store.read id))

/-- Delete a document. -/
def delete (id : DocId) : EngineM Unit := StorageEngine.tombstone id

/-- Make every write since the last commit durable. -/
def commit (order : IterOrder) : EngineM Unit := StorageEngine.commit order

theorem insert_run (doc : Value) (self : StorageEngine) :
    (insert doc).run.run self =
      match toBsonBytes doc with
      | .error e => .ret (.error e, self)
      | .ok bytes => (StorageEngine.append .blob bytes).run.run self := by
  cases h : toBsonBytes doc with
  | error e =>
    rw [insert, h]
    rfl
  | ok bytes =>
    rw [insert, h]
    rfl

end Cndb

/-! ### The requests of a caller -/

/-- **What a caller may ask of an open handle.** -/
inductive Op where
  /-- Append a document of some kind. -/
  | append (kind : RecordKind) (payload : Bytes)
  /-- Store a JSON object. -/
  | insert (doc : Value)
  /-- Mark a document deleted. -/
  | tombstone (id : DocId)
  /-- Make everything durable, the hash tables iterated in this order. -/
  | commit (order : IterOrder)
  /-- Read a document with its record kind. -/
  | readRecord (id : DocId)
  /-- Number of live documents. -/
  | len
  /-- Every live document id. -/
  | liveIds

/-- What a request is answered with. -/
inductive Reply where
  | done
  | id (id : DocId)
  | record (r : Record)
  | count (n : UInt64)
  | ids (ids : Finset DocId)
  deriving DecidableEq

/-- A method that changes the handle, as a program that returns a reply and the
handle it leaves. -/
def EngineM.reply {α : Type} (x : EngineM α) (f : α → Reply) (self : StorageEngine) :
    Prog (Except CndbError Reply × StorageEngine) :=
  (x.run.run self).bind fun r => .ret (r.1.map f, r.2)

/-- A method that only borrows the handle, as such a program. -/
def FileM.reply {α : Type} (x : FileM α) (f : α → Reply) (self : StorageEngine) :
    Prog (Except CndbError Reply × StorageEngine) :=
  x.run.bind fun r => .ret (r.map f, self)

/-- **The program of a request** on a handle. -/
def Op.prog [Bson] (self : StorageEngine) :
    Op → Prog (Except CndbError Reply × StorageEngine)
  | .append kind payload => EngineM.reply (StorageEngine.append kind payload) .id self
  | .insert doc => EngineM.reply (Cndb.insert doc) .id self
  | .tombstone id => EngineM.reply (StorageEngine.tombstone id) (fun _ => .done) self
  | .commit order => EngineM.reply (StorageEngine.commit order) (fun _ => .done) self
  | .readRecord id => FileM.reply (self.readRecord id) .record self
  | .len => .ret (.ok (.count self.len), self)
  | .liveIds => .ret (.ok (.ids self.liveIds), self)

/-! ### Looking around -/

/-- What a caller may ask of an open handle, with what it may look at. -/
inductive Task where
  /-- A request. -/
  | op (op : Op)
  /-- Read a document's payload. -/
  | read (id : DocId)
  /-- Whether no live documents remain. -/
  | isEmpty
  /-- A snapshot of engine state. -/
  | stats
  /-- Walk every record, checking all checksums. -/
  | verify

/-- What it is answered with. -/
inductive TaskReply where
  | reply (r : Reply)
  | payload (bs : Bytes)
  | empty (b : Bool)
  | stats (s : Stats)
  | records (n : ℕ)

/-- **The program of a task** on a handle. -/
def Task.prog [Bson] (self : StorageEngine) :
    Task → Prog (Except CndbError TaskReply × StorageEngine)
  | .op request => (request.prog self).bind fun r => .ret (r.1.map .reply, r.2)
  | .read id => (self.read id).run.bind fun r => .ret (r.map .payload, self)
  | .isEmpty => .ret (.ok (.empty self.isEmpty), self)
  | .stats => .ret (.ok (.stats self.stats), self)
  | .verify => self.verify.run.bind fun r => .ret (r.map .records, self)

/-- Whether a task is a commit. -/
def Task.commits : Task → Bool
  | .op (.commit _) => true
  | _ => false

end ContextDb
