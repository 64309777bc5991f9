import JungleDb.Lib.CArray
import JungleDb.Lib.CString
import JungleDb.Lib.Cut
import JungleDb.Lib.Fence
import JungleDb.Lib.JsonString
import JungleDb.Lib.Json
import JungleDb.Lib.Machine
import JungleDb.Lib.Monitor
import JungleDb.Lib.Rest
import JungleDb.Lib.RingBuffer
import JungleDb.Lib.RwLock
import JungleDb.Lib.Sections
import JungleDb.Lib.Runs
import JungleDb.Lib.Stdio
import JungleDb.Lib.Http
import JungleDb.Lib.Inodes
import JungleDb.Lib.Bisect
import JungleDb.Lib.HashChain
import JungleDb.Lib.Utf8
import JungleDb.Bptree.Basic
import JungleDb.Bptree.Tree
import JungleDb.Bptree.Repr
import JungleDb.Bptree.Refine
import JungleDb.Bptree.Insert
import JungleDb.Bptree.WellFormed
import JungleDb.Bptree.Failure
import JungleDb.Bptree.Lost
import JungleDb.Sql.Utils
import JungleDb.Cli.Modes
import JungleDb.Cli.Prompt
import JungleDb.Cli.Width
import JungleDb.Sql.Tokenizer
import JungleDb.Sql.Parser
import JungleDb.Sql.Case
import JungleDb.Sql.Grammar
import JungleDb.Sql.Print
import JungleDb.Sql.Lexeme
import JungleDb.Sql.Errors
import JungleDb.Cli.Lexing
import JungleDb.Runtime.Table
import JungleDb.Runtime.Relation
import JungleDb.Runtime.Refine
import JungleDb.Runtime.Insert
import JungleDb.Runtime.Scan
import JungleDb.Runtime.Limits
import JungleDb.Runtime.Unchanged
import JungleDb.Runtime.Registry
import JungleDb.Engine.Accepted
import JungleDb.Storage.Csv
import JungleDb.Storage.Codec
import JungleDb.Storage.Table
import JungleDb.Storage.Offsets
import JungleDb.Storage.Insert
import JungleDb.Storage.Lines
import JungleDb.Storage.History
import JungleDb.Storage.Delete
import JungleDb.Storage.Files
import JungleDb.Storage.Rejected
import JungleDb.Storage.AutoId
import JungleDb.Storage.Keys
import JungleDb.Storage.Cells
import JungleDb.Storage.Locks
import JungleDb.Storage.Conserved
import JungleDb.Index.Basic
import JungleDb.Index.Equals
import JungleDb.Index.Range
import JungleDb.Engine.Executor
import JungleDb.Engine.Select
import JungleDb.Engine.Database
import JungleDb.Engine.Answer
import JungleDb.Engine.Built
import JungleDb.Engine.Case
import JungleDb.Engine.IntFilter
import JungleDb.Engine.Columns
import JungleDb.Engine.Isolation
import JungleDb.Engine.Requests
import JungleDb.Server.JsonString
import JungleDb.Server.Response
import JungleDb.Server.Service
import JungleDb.Cli.Table
import JungleDb.Cli.Benchmark
import JungleDb.Cli.FrontEnds
import JungleDb.Server.Extract
import JungleDb.Server.Progress
import JungleDb.Server.Queue
import JungleDb.Server.Request
import JungleDb.Server.Bounds
import JungleDb.Server.ContentLength
import JungleDb.Server.Complete
import JungleDb.Server.Status
import JungleDb.Server.Handler
import JungleDb.Server.Remote
import JungleDb.Server.Monitor
import JungleDb.Engine.Memory
import JungleDb.Engine.Owned
import JungleDb.Engine.Intact
