import BeShare.Message.RoundTrip
import BeShare.Message.Safety
import BeShare.Message.ReplaceData
import BeShare.MiniMessage.Safety
import BeShare.MiniMessage.Interop
import BeShare.MiniMessage.RoundTrip
import BeShare.MiniMessage.Returns
import BeShare.Regex.FilterArchive
import BeShare.Util.RefCountRuns
import BeShare.Util.QueueRuns
import BeShare.Hashtable.Refine
import BeShare.Hashtable.Iterators
import BeShare.Hashtable.SwapContents
import BeShare.Hashtable.Sorted
import BeShare.Hashtable.AutoSortRuns
import BeShare.IOGateway.FramingRuns
import BeShare.System.SharedUsageLimit
import BeShare.System.DrainRuns
import BeShare.Client.Resuming
import BeShare.Client.Restarts
import BeShare.Client.ShareMirror
import BeShare.Client.Slots
import BeShare.Client.LowPriority
import BeShare.Reflect.Matching
import BeShare.Reflect.DefaultRoute
import BeShare.Reflect.ArchiveRoundTrip
import BeShare.Reflect.QuotaRuns
import BeShare.Reflect.WriteIsolation
import BeShare.Reflect.Parameters
import BeShare.Reflect.Resubscribe
import BeShare.Reflect.IndexMirror
import BeShare.Reflect.MirrorRuns
import BeShare.Reflect.MarkRuns
import BeShare.Reflect.RateLimit
import BeShare.Reflect.FilterSessionFactory
import BeShare.Client.Downloads
import BeShare.Util.StringArg
import BeShare.Client.TabCompletion
import BeShare.Client.QueueSort
import BeShare.Client.UploadRuns
import BeShare.Client.MD5
import BeShare.Client.Bans
import BeShare.Reflect.JettisonResults
import BeShare.Lib.Comparators
import BeShare.Client.ShareColumn
import BeShare.Client.Renaming
import BeShare.Client.LabelledURLs
import BeShare.Regex.Operators
import BeShare.Reflect.MatcherRuns
import BeShare.Reflect.RangePatterns
import BeShare.Reflect.FilterCount
import BeShare.Reflect.CloneRuns
import BeShare.Reflect.NodeMatching
import BeShare.Reflect.NodeData
import BeShare.Reflect.OwnData
import BeShare.Util.QueueSort
import BeShare.Reflect.Escaping
import BeShare.Reflect.CaseInsensitive
import BeShare.Client.UserTargets
import BeShare.Client.ServerUpdates
import BeShare.Client.ChatText
import BeShare.IOGateway.PlainText
import BeShare.Util.Nybbles
import BeShare.IOGateway.ZLibWindows
import BeShare.IOGateway.RawDataOutput
import BeShare.System.MessageQueues
import BeShare.Reflect.Lifecycle
import BeShare.Util.PulseNode
import BeShare.IOGateway.ZLibTransfer
import BeShare.Client.ResultPages
import BeShare.System.SharedMemory
