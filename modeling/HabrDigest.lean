import HabrDigest.Lib.TransitionSystem
import HabrDigest.Lib.Separator
import HabrDigest.Lib.Bytes
import HabrDigest.Lib.Numeral
import HabrDigest.Lib.Calendar
import HabrDigest.Lib.Double
import HabrDigest.Lib.Strto
import HabrDigest.Lib.Json
import HabrDigest.Lib.JsonCodec
import HabrDigest.Lib.JsonText
import HabrDigest.Lib.JsonPretty
import HabrDigest.Lib.Escaping
import HabrDigest.Lib.Template
import HabrDigest.Lib.Tokens
import HabrDigest.Lib.XPath
import HabrDigest.Lib.XPathSyntax
import HabrDigest.Lib.KeyedTable
import HabrDigest.Lib.Ranking
import HabrDigest.Lib.Sqlite
import HabrDigest.Lib.Broker
import HabrDigest.Lib.Accounts
import HabrDigest.Lib.Topology
import HabrDigest.Lib.AtLeastOnce
import HabrDigest.Lib.Fanout
import HabrDigest.Lib.Draining
import HabrDigest.Lib.LastWriter
import HabrDigest.Common.TimeUtil
import HabrDigest.Common.Env
import HabrDigest.Messaging.Messages
import HabrDigest.Messaging.AmqpService
import HabrDigest.Messaging.ChannelOperations
import HabrDigest.Messaging.Reconnect
import HabrDigest.Messaging.RetryBudget
import HabrDigest.Messaging.Shutdown
import HabrDigest.Messaging.ShutdownOutcome
import HabrDigest.Messaging.Ticks
import HabrDigest.Messaging.Consume
import HabrDigest.Messaging.AmqpConfig
import HabrDigest.Messaging.BrokerAddress
import HabrDigest.Fetcher.Fetcher
import HabrDigest.Parser.HtmlParser
import HabrDigest.Parser.Listing
import HabrDigest.Parser.TrimLoops
import HabrDigest.Parser.Config
import HabrDigest.Parser.ClassSelector
import HabrDigest.Parser.Counters
import HabrDigest.Parser.CounterText
import HabrDigest.Parser.ParserService
import HabrDigest.Storage.ArticleStore
import HabrDigest.Storage.Atomicity
import HabrDigest.Storage.History
import HabrDigest.Storage.Config
import HabrDigest.Storage.StorageService
import HabrDigest.Storage.DigestTick
import HabrDigest.Storage.StoredStrings
import HabrDigest.Lib.Lines
import HabrDigest.Notifier.DigestWriter
import HabrDigest.Notifier.MarkdownLines
import HabrDigest.Notifier.NotifierService
import HabrDigest.Notifier.AtomicWrite
import HabrDigest.Notifier.FileNames
import HabrDigest.Web.HtmlView
import HabrDigest.Web.NumberGroups
import HabrDigest.Web.PageTemplate
import HabrDigest.Web.WebService
import HabrDigest.Web.HttpRequest
import HabrDigest.Pipeline.IntegerSettings
import HabrDigest.Pipeline.DigestScores
import HabrDigest.Pipeline.ArchiveOrder
import HabrDigest.Pipeline.WireFormats
import HabrDigest.Pipeline.Delivery
import HabrDigest.Pipeline.Redelivery
import HabrDigest.Pipeline.Snapshots
import HabrDigest.Pipeline.Outages
import HabrDigest.Pipeline.Recovery
import HabrDigest.Pipeline.StoredOnce
import HabrDigest.Pipeline.Newsroom
import HabrDigest.Pipeline.Subscribers
import HabrDigest.Pipeline.ArchivedOnce
import HabrDigest.Pipeline.ServedPages
import HabrDigest.Pipeline.ReadersCatchUp
import HabrDigest.Pipeline.WholeArchive
import HabrDigest.Pipeline.ReadersAgree
import HabrDigest.Pipeline.AgesOut
import HabrDigest.Pipeline.ReachesReaders
import HabrDigest.Pipeline.Declarations
