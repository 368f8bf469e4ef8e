import ContextDb.Lib.Bytes
import ContextDb.Lib.Disk
import ContextDb.Lib.Program
import ContextDb.Lib.Logic
import ContextDb.Lib.Crc32
import ContextDb.Lib.Bincode
import ContextDb.Lib.Machine
import ContextDb.Lib.Beside
import ContextDb.Lib.Alike
import ContextDb.Error
import ContextDb.Storage.Record
import ContextDb.Storage.Header
import ContextDb.Storage.Checksums
import ContextDb.Storage.Index
import ContextDb.Storage.Engine
import ContextDb.Storage.PosIo
import ContextDb.Document.Codec
import ContextDb.Document.Extended
import ContextDb.Api
import ContextDb.Storage.Log
import ContextDb.Storage.Reading
import ContextDb.Storage.Image
import ContextDb.Storage.Accepting
import ContextDb.Storage.Writing
import ContextDb.Storage.Session
import ContextDb.Storage.Requests
import ContextDb.Storage.Anchor
import ContextDb.Storage.Creation
import ContextDb.History
import ContextDb.Failures
import ContextDb.Replay
import ContextDb.Crash
import ContextDb.Files
import ContextDb.Grammar
import ContextDb.Truncation
import ContextDb.Durability
import ContextDb.Sequential
import ContextDb.PingPong
import ContextDb.Format
import ContextDb.Executing
import ContextDb.Documents
import ContextDb.Generations
import ContextDb.Refinement
import ContextDb.Sessions
import ContextDb.Accounting
import ContextDb.IterationOrder
import ContextDb.Uncommitted
import ContextDb.Arithmetic
import ContextDb.BitRot
import ContextDb.Sharing
import ContextDb.Database
import ContextDb.Calls
import ContextDb.SplitReads
import ContextDb.WriteOrder
import ContextDb.Layout
import ContextDb.Lifetimes
import ContextDb.Opening
import ContextDb.Capacity
import ContextDb.ReadBounds
import ContextDb.TornCreation
