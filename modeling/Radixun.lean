import Radixun.Foundation.ActionMachine
import Radixun.Common.ByteArrayNumeric
import Radixun.Common.ByteArrayScatter
import Radixun.Common.ByteArrayFile
import Radixun.Common.ByteArrayStringTrip
import Radixun.Common.ByteArrayPositional
import Radixun.Common.FiberLifecycle
import Radixun.Common.IOManagerModel
import Radixun.Common.IOManagerBooks
import Radixun.Common.IOManagerEvents
import Radixun.Common.IOManagerDispatch
import Radixun.Common.FiberCurrent
import Radixun.Common.SchedulerQuiescence
import Radixun.Common.SchedulerAffinity
import Radixun.Common.FiberHandover
import Radixun.Common.FiberHandoverSafety
import Radixun.Common.TimerManager
import Radixun.Common.TimerOrder
import Radixun.Common.TimerSet
import Radixun.Common.TimerCalls
import Radixun.Common.TimerLiveness
import Radixun.Common.StreamFixSize
import Radixun.Common.IOManagerWakeup
import Radixun.Common.IOManagerAwake
import Radixun.Common.IdleWait
import Radixun.Common.FdContextSequential
import Radixun.Common.FdManager
import Radixun.Common.DescriptorIndices
import Radixun.Common.HookNonblock
import Radixun.Common.HookSleep
import Radixun.Common.HookIo
import Radixun.Common.HookReturns
import Radixun.Common.HookConnect
import Radixun.Common.ConfigVar
import Radixun.Common.ConfigLoad
import Radixun.Common.ConfigUpdates
import Radixun.Common.LoggerFormatters
import Radixun.Common.LogDefineCast
import Radixun.Common.LogPatternMeaning
import Radixun.Common.LogPatternEscapes
import Radixun.Common.LogIniter
import Radixun.Common.LogDefineChanges
import Radixun.Http.RequestMachine
import Radixun.Http.BodyLimit
import Radixun.Http.RequestHead
import Radixun.Http.RequestAssignments
import Radixun.Http.RequestStream
import Radixun.Http.Segmentation
import Radixun.Http.RequestPipeline
import Radixun.Http.ContentLengthBody
import Radixun.Http.ChunkLine
import Radixun.Http.ResponseHead
import Radixun.Http.ChunkSteps
import Radixun.Http.ChunkedBody
import Radixun.Common.SchedulerTasks
import Radixun.Http.ServletDispatch
import Radixun.Http.MessageDump
import Radixun.Common.ByteArrayCapacity
import Radixun.Common.ByteArrayVarint
import Radixun.Http.HttpServer
import Radixun.Net.IPv6Subnets
import Radixun.Foundation.GroupText
import Radixun.Net.IPv6Text
import Radixun.Net.AddressOrder
import Radixun.Net.HostLookup
import Radixun.Net.UnixAddress
import Radixun.Net.TcpServer
import Radixun.Foundation.SelfDelimiting
import Radixun.Db.Mysql
import Radixun.Db.MysqlQueries
import Radixun.Common.LogPatternBounds
import Radixun.Foundation.FileTree
import Radixun.Foundation.PathLookup
import Radixun.Foundation.FileCalls
import Radixun.Common.FsUtil
import Radixun.Common.FsRemoval
import Radixun.Common.FsMove
import Radixun.Foundation.CallsInProgress
import Radixun.Http.ConnectionPoolLimits
import Radixun.Http.UriStability
import Radixun.Http.UriLiterals
import Radixun.Http.MethodTokens
import Radixun.Http.HeaderMaps
import Radixun.Http.QueryCoding
import Radixun.Http.QueryParameters
import Radixun.Http.RequestRoundTrip
import Radixun.Http.ResponseRoundTrip
import Radixun.Http.HttpRoundTrip
import Radixun.Common.LoggingSafety
import Radixun.Net.SocketDescriptors
import Radixun.Common.ByteArrayRecords
