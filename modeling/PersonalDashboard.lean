import PersonalDashboard.RowStore
import PersonalDashboard.ReadCommitted
import PersonalDashboard.TransactionLogic
import PersonalDashboard.RowStatements
import PersonalDashboard.Calendar
import PersonalDashboard.BillingDates
import PersonalDashboard.Schema
import PersonalDashboard.Instants
import PersonalDashboard.Validation
import PersonalDashboard.LedgerHandlers
import PersonalDashboard.Bookkeeping
import PersonalDashboard.LedgerContract
import PersonalDashboard.MovementTransactions
import PersonalDashboard.AccountTransactions
import PersonalDashboard.LedgerGuarantees
import PersonalDashboard.PaymentGuarantees
import PersonalDashboard.LockOrder
import PersonalDashboard.LedgerLockOrder
import PersonalDashboard.RateLimiter
import PersonalDashboard.LoginBudget
import PersonalDashboard.RowNumbers
import PersonalDashboard.HabitStreak
import PersonalDashboard.TaskHandlers
import PersonalDashboard.NoteHandlers
import PersonalDashboard.SoleWriter
import PersonalDashboard.GoalProgress
import PersonalDashboard.SoloRuns
import PersonalDashboard.TwinRuns
import PersonalDashboard.CalendarUnits
import PersonalDashboard.DateStrings
import PersonalDashboard.JsDate
import PersonalDashboard.GroupedSums
import PersonalDashboard.MovementSummary
import PersonalDashboard.SummaryConservation
import PersonalDashboard.TrendWindows
import PersonalDashboard.OrderedMaps
import PersonalDashboard.BillingAdvance
import PersonalDashboard.BillingCycles
import PersonalDashboard.TokenMints
import PersonalDashboard.LimiterMemory
import PersonalDashboard.RetryAfter
import PersonalDashboard.TextReaders
import PersonalDashboard.RateLimitKey
import PersonalDashboard.DateParsing
import PersonalDashboard.Patterns
import PersonalDashboard.TypedAmounts
import PersonalDashboard.Streaks
import PersonalDashboard.HabitDays
import PersonalDashboard.HabitStatistics
import PersonalDashboard.HabitDashboard
import PersonalDashboard.RowInvariants
import PersonalDashboard.TaskLaws
import PersonalDashboard.TaskViews
import PersonalDashboard.TaskOrder
import PersonalDashboard.FormEdits
import PersonalDashboard.TextIndices
import PersonalDashboard.HostGuard
import PersonalDashboard.ClientAggregates
import PersonalDashboard.SummaryRefinement
import PersonalDashboard.SessionRegistry
import PersonalDashboard.AssetHandlers
import PersonalDashboard.AssetHistory
import PersonalDashboard.AssetTransactions
import PersonalDashboard.EventHandlers
import PersonalDashboard.HabitLogHandlers
import PersonalDashboard.StoredRanges
import PersonalDashboard.CalendarReads
import PersonalDashboard.PeriodRanges
import PersonalDashboard.ActivityReports
import PersonalDashboard.ApiClient
import PersonalDashboard.OwnedRows
import PersonalDashboard.ExistenceProbes
import PersonalDashboard.ExistenceOracles
import PersonalDashboard.AuditLog
import PersonalDashboard.TrustedProxies
import PersonalDashboard.CredentialGuarantees
import PersonalDashboard.HabitMilestones
import PersonalDashboard.HabitGuarantees
import PersonalDashboard.UserPreferences
