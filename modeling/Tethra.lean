import Tethra.Gateway.RoutePoll
import Tethra.Gateway.Config
import Tethra.Gateway.Upstream
import Tethra.Runtime.Retention
import Tethra.Tracking.Failure
import Tethra.Tracking.Watermark
import Tethra.Vault.Sessions
import Tethra.Tracking.Undo
import Tethra.Tracking.TimeOrder
import Tethra.Gateway.PriorRun
import Tethra.Rotation.OneKey
import Tethra.Rotation.Rollback
import Tethra.Gateway.SharedProxy
import Tethra.Core.Migrate
import Tethra.Vault.SessionFile
import Tethra.Tracking.Insertion
import Tethra.Rotation.Cancelled
import Tethra.Vault.Restore
import Tethra.Rotation.SyncPlanStatus
import Tethra.Rotation.Material
import Tethra.Tracking.OriginApproval
import Tethra.Gateway.Control
import Tethra.Vault.GrantLaunch
import Tethra.Runtime.Attribution
import Tethra.Vault.DerivedKey
import Tethra.Vault.KeyLinks
import Tethra.Vault.SyncWindow
import Tethra.Vault.AutoResolve
import Tethra.Observe.Intercept
import Tethra.Gateway.Unlinked
import Tethra.Observe.PlainRewrite
import Tethra.Gateway.MatcherTable
import Tethra.Tracking.Fingerprint
import Tethra.Gateway.UsageEvents
import Tethra.Gateway.UsageTail
import Tethra.Gateway.KeyRetention
import Tethra.Gateway.QueueDepth
import Tethra.Runtime.Template
import Tethra.Gateway.OriginHost
import Tethra.Gateway.ConnBudget
import Tethra.Gateway.Expect
import Tethra.Gateway.PathSafe
import Tethra.Gateway.UsageDaily
import Tethra.Core.EnvMarkers
import Tethra.Core.IgnoreGlobs
import Tethra.Observe.RelayConserve
import Tethra.Observe.Spelling
import Tethra.Core.GitProbe
import Tethra.Core.GitSeal
import Tethra.Core.ExportCleanup
import Tethra.Vault.FailedUpdates
import Tethra.Vault.Reverify
import Tethra.Core.CostCoverage
import Tethra.Core.PricingExchange
