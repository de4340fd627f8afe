import EngineHost.Archive.Basic
import EngineHost.Archive.Read
import EngineHost.Archive.Write
import EngineHost.Bench
import EngineHost.Checkup
import EngineHost.Command.Basic
import EngineHost.Command.Evaluation
import EngineHost.Command.Execute
import EngineHost.Command.Files
import EngineHost.Command.Hosting
import EngineHost.Command.Workspace
import EngineHost.Digest.Crc32
import EngineHost.Digest.Sha256
import EngineHost.Engine.Backends
import EngineHost.Engine.Contract
import EngineHost.Engine.Host
import EngineHost.Engine.Library
import EngineHost.Engine.Onnx
import EngineHost.Engine.Scripted
import EngineHost.Executor
import EngineHost.Failure
import EngineHost.Handle.Basic
import EngineHost.Handle.Codec
import EngineHost.Handle.DeviceInfo
import EngineHost.Handle.Field
import EngineHost.Handle.Metadata
import EngineHost.Handle.Schema
import EngineHost.Json.Basic
import EngineHost.Json.Decode
import EngineHost.Json.Reader
import EngineHost.Json.Scan
import EngineHost.Json.Writer
import EngineHost.Ledger
import EngineHost.Main
import EngineHost.Number.Based
import EngineHost.Number.Binary
import EngineHost.Number.Layout
import EngineHost.Number.Literal
import EngineHost.Number.Shortest
import EngineHost.Number.Size
import EngineHost.Number.Span
import EngineHost.Operator.Engine
import EngineHost.Operator.Native
import EngineHost.Operator.Registry
import EngineHost.Plan.Build
import EngineHost.Plan.Context
import EngineHost.Plan.Kernel
import EngineHost.Plan.Loader
import EngineHost.Plan.Network
import EngineHost.Plan.Session
import EngineHost.Plan.Wire
import EngineHost.Program.Basic
import EngineHost.Program.Bound
import EngineHost.Program.Describe
import EngineHost.Program.File
import EngineHost.Program.Sample
import EngineHost.Proofs.BuiltEngine
import EngineHost.Proofs.Execution
import EngineHost.Proofs.HandleExport
import EngineHost.Proofs.NetworkSound
import EngineHost.Proofs.PlanLoading
import EngineHost.Proofs.Results
import EngineHost.Proofs.ProgramTracing
import EngineHost.Proofs.WireExact
import EngineHost.Service.Address
import EngineHost.Service.Handler
import EngineHost.Service.Health
import EngineHost.Service.Message
import EngineHost.Service.RequestId
import EngineHost.Settings.Basic
import EngineHost.Settings.Flags
import EngineHost.Settings.Load
import EngineHost.Settings.Value
import EngineHost.Settings.Yaml
import EngineHost.Storage.HostAddress
import EngineHost.Storage.Location
import EngineHost.Storage.Path
import EngineHost.Storage.Tree
import EngineHost.Storage.Url
import EngineHost.Storage.Web
import EngineHost.Storage.World
import EngineHost.Tensor.Basic
import EngineHost.Tensor.DType
import EngineHost.Tensor.Descriptor
import EngineHost.Tensor.Device
import EngineHost.Tensor.Shape
import EngineHost.Text.Base64
import EngineHost.Text.Bytes
import EngineHost.Text.Integer
import EngineHost.Text.Letters
import EngineHost.Text.Pieces
import EngineHost.Text.Printable
import EngineHost.Text.Quoted
import EngineHost.Text.Space
import EngineHost.Tracer
import EngineHost.Yaml.Cursor
import EngineHost.Yaml.Date
import EngineHost.Yaml.Node
import EngineHost.Yaml.Scalar
import EngineHost.Yaml.Text
import EngineHost.Yaml.Token
import EngineHost.Proofs.HandleReload
import EngineHost.Proofs.HandleSound
import EngineHost.Proofs.HandleSpellings
import EngineHost.Proofs.Accounting
import EngineHost.Proofs.CacheTransparency
import EngineHost.Proofs.SharedCache
import EngineHost.Proofs.TraceMonotone
import EngineHost.Proofs.ProbeRuns
import EngineHost.Proofs.ProbeTransparency
import EngineHost.Proofs.ProgramFiles
import EngineHost.Proofs.ArchiveBounds
import EngineHost.Proofs.ArchiveRoundTrip
import EngineHost.Proofs.KeptAccounting
import EngineHost.Proofs.Metered
import EngineHost.Proofs.NodeOrder
import EngineHost.Proofs.PlanCorruption
import EngineHost.Proofs.HandleAcceptance
import EngineHost.Proofs.Rounding
import EngineHost.Proofs.NumberConversions
import EngineHost.Proofs.TensorMessages
import EngineHost.Proofs.ShortestDecimals
import EngineHost.Proofs.Numerals
import EngineHost.Proofs.NumberText
import EngineHost.Proofs.MessageText
import EngineHost.Proofs.ServiceAnswers
import EngineHost.Proofs.HandleBuilding
import EngineHost.Proofs.TraceTotal
import EngineHost.Proofs.RuntimeContract
import EngineHost.Proofs.ShapeCount
import EngineHost.Proofs.ArchiveLimits
import EngineHost.Proofs.FloatModel
import EngineHost.Proofs.IntegerRounding
import EngineHost.Proofs.HostArithmetic
import EngineHost.Proofs.SingleAssignment
import EngineHost.Proofs.ShapeText
import EngineHost.Proofs.OrderStatistics
import EngineHost.Proofs.PathWalks
import EngineHost.Proofs.FileWrites
import EngineHost.Proofs.FloatOrder
import EngineHost.Proofs.TensorEquality
import EngineHost.Proofs.ExchangedAxes
import EngineHost.Proofs.LibraryVersions
import EngineHost.Proofs.ProbeRetention
