import KernelReach.Backend
import KernelReach.Binary.Assembly
import KernelReach.Binary.ClassFile
import KernelReach.Binary.Code
import KernelReach.Binary.ConstantPool
import KernelReach.Binary.ModifiedUtf8
import KernelReach.Binary.Opcode
import KernelReach.Binary.Reader
import KernelReach.Class.Basic
import KernelReach.Class.Descriptor
import KernelReach.Class.Document
import KernelReach.Class.Flags
import KernelReach.Class.Level
import KernelReach.Class.Name
import KernelReach.Class.Signature
import KernelReach.Command.Completion
import KernelReach.Command.Execute
import KernelReach.Command.Flag
import KernelReach.Command.Help
import KernelReach.Command.Script
import KernelReach.Command.Table
import KernelReach.Export.Loader
import KernelReach.Export.Statement
import KernelReach.Files.Archive
import KernelReach.Files.ArchiveContent
import KernelReach.Files.ArchiveDirectory
import KernelReach.Files.Buffer
import KernelReach.Files.Cache
import KernelReach.Files.Checksum
import KernelReach.Files.ClassPath
import KernelReach.Files.Inflate
import KernelReach.Files.Path
import KernelReach.Files.Staging
import KernelReach.Files.Tree
import KernelReach.Files.Walk
import KernelReach.Json.Document
import KernelReach.Json.Reader
import KernelReach.Main
import KernelReach.Number.Arithmetic
import KernelReach.Number.Binary64
import KernelReach.Number.Power
import KernelReach.Publish.AmazonHost
import KernelReach.Publish.Endpoint
import KernelReach.Publish.HostNumber
import KernelReach.Publish.ObjectStore
import KernelReach.Publish.Publisher
import KernelReach.Reach.Builtin
import KernelReach.Reach.Catalog
import KernelReach.Reach.EntryPoint
import KernelReach.Reach.Error
import KernelReach.Reach.Event
import KernelReach.Reach.OrderedSet
import KernelReach.Reach.PackageFilter
import KernelReach.Reach.Provider
import KernelReach.Reach.Queue
import KernelReach.Reach.Resolver
import KernelReach.Reach.Result
import KernelReach.Reach.Session
import KernelReach.Reach.Traversal
import KernelReach.Report.Basic
import KernelReach.Report.Counts
import KernelReach.Report.OfJson
import KernelReach.Report.OfResult
import KernelReach.Run
import KernelReach.Settings.Basic
import KernelReach.Settings.Document
import KernelReach.Settings.Environment
import KernelReach.Settings.Load
import KernelReach.Store.Address
import KernelReach.Store.Basic
import KernelReach.Store.Cell
import KernelReach.Store.Database
import KernelReach.Store.Decimal
import KernelReach.Store.Engine
import KernelReach.Store.Error
import KernelReach.Store.Name
import KernelReach.Store.Pragma
import KernelReach.Store.Token
import KernelReach.Text.Affix
import KernelReach.Text.Blank
import KernelReach.Text.Case
import KernelReach.Text.Numeral
import KernelReach.Text.Percent
import KernelReach.Text.Printable
import KernelReach.Text.Quoted
import KernelReach.Text.ReadNumeral
import KernelReach.Text.Record
import KernelReach.Text.Size
import KernelReach.Text.Utf8
import KernelReach.Time.Calendar
import KernelReach.Time.Layout
import KernelReach.Time.Loose
import KernelReach.Time.ReadSpan
import KernelReach.Time.Span
import KernelReach.Time.Timestamp
import KernelReach.Web.Api
import KernelReach.Web.GraphView
import KernelReach.Web.Request
import KernelReach.Web.Response
import KernelReach.Yaml.Character
import KernelReach.Yaml.Fault
import KernelReach.Yaml.Glyph
import KernelReach.Yaml.Node
import KernelReach.Yaml.Property
import KernelReach.Yaml.Scalar
import KernelReach.Yaml.Token
import KernelReach.Yaml.Value
import KernelReach.Proofs.Binary.Pool
import KernelReach.Proofs.Binary.Reading
import KernelReach.Proofs.Binary.Text
import KernelReach.Proofs.Collections
import KernelReach.Proofs.Provider
import KernelReach.Proofs.Resolver.Answer
import KernelReach.Proofs.Resolver.History
import KernelReach.Proofs.Resolver.Search
import KernelReach.Proofs.Resolver.Transparent
import KernelReach.Proofs.Session.Analysis
import KernelReach.Proofs.Session.Complaint
import KernelReach.Proofs.Session.Failure
import KernelReach.Proofs.Session.Fuel
import KernelReach.Proofs.Session.Graph
import KernelReach.Proofs.Session.Journal
import KernelReach.Proofs.Session.Lookup
import KernelReach.Proofs.Session.Phases
import KernelReach.Proofs.Session.Progress
import KernelReach.Proofs.Session.Reachability
import KernelReach.Proofs.Session.Resolution
import KernelReach.Proofs.Session.Restart
import KernelReach.Proofs.Session.ScanLog
import KernelReach.Proofs.Session.Stable
import KernelReach.Proofs.Session.Step
import KernelReach.Proofs.Session.Termination
import KernelReach.Proofs.Session.Verdict
import KernelReach.Proofs.Session.Worklist
import KernelReach.Proofs.Binary.RoundTrip
import KernelReach.Proofs.Binary.Recognition
import KernelReach.Proofs.Binary.InstructionSet
import KernelReach.Proofs.Binary.Decoding
import KernelReach.Proofs.Binary.Iteration
import KernelReach.Proofs.Binary.Layout
import KernelReach.Proofs.Binary.Tiers
import KernelReach.Proofs.Binary.Truncation
import KernelReach.Proofs.Resolver.Served
import KernelReach.Proofs.Session.Requests
import KernelReach.Proofs.Session.Ledger
import KernelReach.Proofs.Session.Opening
import KernelReach.Proofs.Session.Conclusion
import KernelReach.Proofs.Session.Entry
import KernelReach.Proofs.Session.Integrity
import KernelReach.Proofs.Session.Order
import KernelReach.Proofs.Files.ByteCache
import KernelReach.Proofs.Session.Laziness
import KernelReach.Proofs.Json.Texts
import KernelReach.Proofs.Time.Calendar
import KernelReach.Proofs.Time.Stored
import KernelReach.Proofs.Store.Tables
import KernelReach.Proofs.Store.Holding
import KernelReach.Proofs.Store.History
import KernelReach.Proofs.Store.Storable
import KernelReach.Proofs.Grouping
import KernelReach.Proofs.Web.Paths
import KernelReach.Proofs.Web.Walk
import KernelReach.Proofs.Web.View
import KernelReach.Proofs.Resolver.Inheritance
import KernelReach.Proofs.Export.CallGroups
import KernelReach.Proofs.Session.Targets
import KernelReach.Proofs.Report.CallStatus
import KernelReach.Proofs.Text.Held
import KernelReach.Proofs.Text.Coercion
import KernelReach.Proofs.Binary.Encoding
import KernelReach.Proofs.Class.Grammar
import KernelReach.Proofs.Class.Reading
import KernelReach.Proofs.Class.RoundTrip
import KernelReach.Proofs.Files.Passage
import KernelReach.Proofs.Session.Blame
import KernelReach.Proofs.Files.Absence
import KernelReach.Proofs.Export.Batches
import KernelReach.Proofs.Time.Order
import KernelReach.Proofs.Store.Chronology
import KernelReach.Proofs.Files.Confinement
import KernelReach.Proofs.Files.Interleaving
