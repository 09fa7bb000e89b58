import HubScope.Lib.Transition
import HubScope.Lib.Pool
import HubScope.Lib.Grouping
import HubScope.Lib.OrderStatistic
import HubScope.Store.Tables
import HubScope.Store.Calls
import HubScope.Store.Valid
import HubScope.Evaluator.Median
import HubScope.Evaluator.Pipeline
import HubScope.Evaluator.Execution
import HubScope.Evaluator.Steps
import HubScope.Evaluator.Progress
import HubScope.Evaluator.Cells
import HubScope.Evaluator.Votes
import HubScope.Evaluator.RunFinish
import HubScope.Evaluator.Units
import HubScope.Evaluator.Rows
import HubScope.Evaluator.Jury
import HubScope.Evaluator.Samples
import HubScope.Evaluator.Planning
import HubScope.Evaluator.Settling
import HubScope.Evaluator.Retention
import HubScope.Evaluator.Recovery
import HubScope.Evaluator.Cutoff
import HubScope.Server.Evals
import HubScope.Server.Grid
import HubScope.Status.Percentile
import HubScope.Store.Probes
import HubScope.Store.Series
import HubScope.Scheduler.Rollup
import HubScope.Evaluator.Registry
import HubScope.Evaluator.Confirmation
import HubScope.Alerter.QuietHours
import HubScope.Alerter.Events
import HubScope.Alerter.Evaluator
import HubScope.Alerter.Rounds
import HubScope.Alerter.Delivery
import HubScope.Alerter.Coverage
import HubScope.Alerter.History
import HubScope.Alerter.Reporting
import HubScope.Alerter.Timers
import HubScope.Evaluator.Focus
import HubScope.Evaluator.Scoring
import HubScope.Evaluator.Scripted
import HubScope.Lib.Median
import HubScope.Evaluator.Finishing
import HubScope.Evaluator.Confluence
import HubScope.Evaluator.Reconstruction
import HubScope.Evaluator.Payload
import HubScope.Evaluator.Costs
import HubScope.Alerter.Restart
import HubScope.Alerter.Hysteresis
import HubScope.Alerter.Boundary
import HubScope.Server.Overview
import HubScope.Server.Console
import HubScope.Server.Isolation
import HubScope.Lib.Resumption
import HubScope.Server.Users
import HubScope.Server.Lockout
import HubScope.Server.RoleHub
import HubScope.Store.Bank
import HubScope.Store.Seeding
import HubScope.Store.Reopening
import HubScope.Store.Catalogue
import HubScope.Store.Interruption
import HubScope.Store.Purge
import HubScope.Server.Operations
import HubScope.Server.Mutex
import HubScope.Server.Overlap
import HubScope.Server.Immutability
import HubScope.Store.Failures
import HubScope.Lib.Regexp
import HubScope.Lib.Text
import HubScope.Evaluator.Numeric
import HubScope.Evaluator.Normalize
import HubScope.Evaluator.Mcq
import HubScope.Lib.Json
import HubScope.Evaluator.JudgeReply
import HubScope.Scheduler.Probing
import HubScope.Lib.Calendar
import HubScope.Scheduler.Weekly
import HubScope.Store.Models
import HubScope.Discovery.Sync
import HubScope.Lib.Bytes
import HubScope.Evaluator.PyLiteral
import HubScope.Evaluator.PyTokens
import HubScope.Evaluator.PyGrammar
import HubScope.Evaluator.PyNormal
import HubScope.Evaluator.OutputMatch
import HubScope.Lib.LastWins
import HubScope.Evaluator.PyValue
import HubScope.Evaluator.PyConfusion
import HubScope.Evaluator.RuleVerdict
import HubScope.Evaluator.PyTally
import HubScope.Evaluator.SelfMatch
import HubScope.Server.Cases
import HubScope.Status.Score
import HubScope.Store.ModelsDown
import HubScope.Evaluator.JurySelection
import HubScope.Lib.Greedy
import HubScope.Server.ModelPatch
import HubScope.Server.Capability
import HubScope.Alerter.ScoreDrop
import HubScope.Evaluator.QueueDepth
import HubScope.Store.UnitProgress
import HubScope.Server.Placement
import HubScope.Server.Campaigns
import HubScope.Lib.Breaker
import HubScope.Evaluator.Circuit
import HubScope.Lib.Latest
import HubScope.Store.JudgeVotes
import HubScope.Server.JuryBreakdown
import HubScope.Evaluator.Filing
import HubScope.Evaluator.Attempts
import HubScope.Server.VotesShown
import HubScope.Lib.Ranking
import HubScope.Server.ReportScoring
import HubScope.Server.ReportRanking
import HubScope.Lib.Pairing
import HubScope.Web.AlertTimeline
import HubScope.Lib.Hermite
import HubScope.Lib.Loop
import HubScope.Web.MonotoneSmooth
import HubScope.Web.LiveFeed
import HubScope.Lib.SlidingWindow
import HubScope.Lib.Timed
import HubScope.Server.CaptchaTrigger
import HubScope.Server.LoginDelayer
import HubScope.Server.LoginAlert
import HubScope.Lib.Moment
import HubScope.Lib.Numerals
import HubScope.Server.SessionToken
import HubScope.Lib.PrefixTable
import HubScope.Registry.Lookup
import HubScope.Registry.Validation
import HubScope.Web.FeedView
import HubScope.Server.CaptchaStore
import HubScope.Server.Login
import HubScope.Lib.TokenBucket
import HubScope.Server.RateLimit
import HubScope.Discovery.SyncGuard
import HubScope.Store.Report
import HubScope.Server.CampaignReport
import HubScope.Store.Settings
import HubScope.Server.Settings
import HubScope.Lib.RegularLanguage
import HubScope.Server.Routes
import HubScope.Store.Deletion
import HubScope.Server.Deletion
import HubScope.Lib.LineScanner
import HubScope.HubClient.Stream
import HubScope.Evaluator.Deadlock
import HubScope.Lib.RoundedSum
import HubScope.Evaluator.SettleOrder
import HubScope.Evaluator.OptionReading
