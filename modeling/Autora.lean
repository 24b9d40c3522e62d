import Autora.Finishing
import Autora.Instantiation
import Autora.Operations
import Autora.Refinement
import Autora.Traces
import Autora.DependencyOrder
import Autora.Liveness
import Autora.Closure
import Autora.Stopping
import Autora.BoardBounds
import Autora.Bounds
import Autora.HookSteps
import Autora.Leases
import Autora.StaleClaims
import Autora.Attempts
import Autora.QueueSteps
import Autora.QueueOps
import Autora.TaskQueue
import Autora.Finance
import Autora.Ledger
import Autora.Memberships
import Autora.Orders
import Autora.Purchases
import Autora.OneOrder
import Autora.Revenue
import Autora.Holdings
import Autora.Story
import Autora.Cycles
import Autora.Metering
import Autora.Renewals
import Autora.Lib.Logs
import Autora.Gateway
import Autora.Sockets
import Autora.AgentRunner
import Autora.Permissions
import Autora.Conversations
import Autora.Requests
import Autora.Suspension
import Autora.Browser
import Autora.Twins
import Autora.ApprovalSteps
import Autora.ApprovalRuns
import Autora.Firings
import Autora.ArticleLife
import Autora.Starts
import Autora.Verified
import Autora.Productions
import Autora.Lib.Refusals
import Autora.Opportunities
import Autora.Proposals
import Autora.Governance
import Autora.KillCriteria
import Autora.AutoPause
import Autora.Reviews
import Autora.Feeds
import Autora.Sources
import Autora.Polls
import Autora.ArticleRuns
import Autora.RevisionCounters
import Autora.Tools
import Autora.RunEndings
import Autora.Embeddings
import Autora.RealtimeClient
import Autora.Standalone
import Autora.PriceHealing
import Autora.RunCycles
import Autora.FailsAlone
import Autora.FailingAgents
import Autora.Notifications
import Autora.PolicyEngine
import Autora.QuoteLinks
import Autora.Typography
import Autora.FactChecks
import Autora.Bilingual
import Autora.CanonicalUrls
import Autora.BudgetWarnings
import Autora.Paywall
import Autora.ShortestPaths
import Autora.Watchlist
import Autora.BlankChunks
import Autora.ClaimReports
import Autora.Clustering
import Autora.Splits
import Autora.KeptCovers
import Autora.SafeFetches
import Autora.UsRefreshes
import Autora.Lib.Ties
import Autora.Lib.Tallies
import Autora.Comparisons
import Autora.AddedUp
import Autora.Comparing
import Autora.SameText
import Autora.Lib.Totals
import Autora.Reserving
import Autora.Standings
import Autora.WithinLimits
import Autora.HardLimits
import Autora.GuardLocks
import Autora.Outbox
import Autora.CommitOrder
import Autora.Lib.Locks
import Autora.SignIn
import Autora.SignInRuns
import Autora.SignedIn
import Autora.Lib.TopRows
import Autora.StepTrace
import Autora.StepRuns
import Autora.Lib.Forests
import Autora.Organization
import Autora.OrgRuns
import Autora.OrgPlaces
