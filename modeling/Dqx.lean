import Dqx.Lib.Run
import Dqx.Lib.Rank
import Dqx.Lib.Join
import Dqx.Lib.Interleave
import Dqx.Compare.FilteredReport
import Dqx.Tables.ListTables
import Dqx.Checks.RoundTrip
import Dqx.Checks.Lakebase
import Dqx.Checks.Fingerprint
import Dqx.LowCode.WellFormed
import Dqx.Scheduler.Skips
import Dqx.Scheduler.Recalc
import Dqx.Scheduler.FrequencyRuns
import Dqx.Scheduler.ScoreRefresh
import Dqx.Scheduler.TmpViewDrops
import Dqx.Scheduler.CronLookahead
import Dqx.Scheduler.CronZone
import Dqx.Monitored.Review
import Dqx.Products.Review
import Dqx.Rules.Decisions
import Dqx.Actions.Types
import Dqx.Actions.Reservation
import Dqx.Actions.Streak
import Dqx.Actions.Isolation
import Dqx.Actions.Restart
import Dqx.Actions.Outcomes
import Dqx.Applications.Activation
import Dqx.SqlUtils.Embedding
import Dqx.SqlUtils.Comments
import Dqx.Permissions.Grants
import Dqx.Materializer.Tableless
import Dqx.Materializer.Arguments
import Dqx.Semantic.Detection
import Dqx.Patterns.Email
import Dqx.Contracts.Reports
import Dqx.Conditions.Validation
import Dqx.ForeignKeys.Cache
import Dqx.Conditions.Spelling
import Dqx.Runs.Evidence
import Dqx.Patterns.Cidr
import Dqx.Patterns.DecimalPlaces
import Dqx.TimeWindows.Sentinel
import Dqx.Upserts.Agreement
import Dqx.Results.Honest
import Dqx.Catalog.Saved
import Dqx.Profiling.Reproduction
import Dqx.Utils.Quoting
import Dqx.Runner.Terminal
import Dqx.DqResults.AsOf
import Dqx.Engine.Summary
import Dqx.Contracts.Ddl
import Dqx.Applications.Saved
