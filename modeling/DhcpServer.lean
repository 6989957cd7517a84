import DhcpServer.Files.CancelStops
import DhcpServer.Files.CopyCorrect
import DhcpServer.Files.MoveSafety
import DhcpServer.Files.NoSelfTransfer
import DhcpServer.Files.RepairSafety
import DhcpServer.Files.FormatExclusion
import DhcpServer.Dns.AutosaveStop
import DhcpServer.Dns.CacheResize
import DhcpServer.Dns.SettingsRace
import DhcpServer.Dns.CacheWriters
import DhcpServer.Dhcp.StaticBindings
import DhcpServer.Dhcp.LeaseBound
import DhcpServer.Dhcp.DeclineRuns
import DhcpServer.Dns.PendingLookups
import DhcpServer.Web.SettingsDocument
import DhcpServer.Core.UnfinishedJobs
import DhcpServer.Web.LoginLockout
import DhcpServer.Dhcp.DatagramBytes
import DhcpServer.Core.GhostJobs
import DhcpServer.Dns.StatsJob
import DhcpServer.Dns.VerifiedRestarts
import DhcpServer.Dns.SweepCoverage
import DhcpServer.Dhcp.AllowedCodec
import DhcpServer.Dhcp.AllowedTable
import DhcpServer.Web.BasicCredentials
import DhcpServer.Dns.SaveVerdict
import DhcpServer.Dns.StatsReset
import DhcpServer.Files.FormatStopSafety
import DhcpServer.Files.UploadStops
import DhcpServer.Dhcp.RefusalMap
import DhcpServer.Dhcp.RangeScan
import DhcpServer.Dhcp.BoundOffers
import DhcpServer.Dhcp.CleanNames
import DhcpServer.Dhcp.ProbeAnswers
import DhcpServer.Files.SaveSafety
import DhcpServer.Web.KeySecrecy
import DhcpServer.Dns.RealAnswers
import DhcpServer.Dns.AddressLists
import DhcpServer.Dns.Eviction
import DhcpServer.Dns.RemainingTtl
import DhcpServer.Dns.ReportedSaves
import DhcpServer.Web.PeerAddress
import DhcpServer.Web.RedirectPolicy
import DhcpServer.Storage.PathPolicy
import DhcpServer.Files.SinkCommit
import DhcpServer.Files.UploadNumbers
import DhcpServer.Web.MultipartExtractor
import DhcpServer.Core.ErrorLogCore
import DhcpServer.Core.LogLines
import DhcpServer.Dns.HottestName
import DhcpServer.Core.Subnet
import DhcpServer.Time.RateLimit
import DhcpServer.Core.Md5Digest
import DhcpServer.Web.PathLists
import DhcpServer.Files.TextRoundTrip
import DhcpServer.Net.BrowserNavigation
import DhcpServer.Core.SweepLogFormat
import DhcpServer.Web.JsonScans
import DhcpServer.Net.TuiKeys
import DhcpServer.Dns.TimerTasks
import DhcpServer.Dns.PublishedStats
import DhcpServer.Security.PairWrites
import DhcpServer.Dns.QueryLog
