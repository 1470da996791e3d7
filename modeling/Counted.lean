import Counted.Kernel.JsString
import Counted.Kernel.Number
import Counted.Kernel.NumberText
import Counted.Kernel.Whole
import Counted.Kernel.Json
import Counted.Kernel.JsonText
import Counted.Kernel.Calendar
import Counted.Kernel.RoundTrip
import Counted.Foundations.Run
import Counted.Foundations.Keyed
import Counted.Foundations.Collapse
import Counted.Foundations.Decoding
import Counted.Foundations.Intervals
import Counted.Foundations.Grouping
import Counted.Foundations.ByteReader
import Counted.Ingestion.Batch
import Counted.Ingestion.Vocabulary
import Counted.Ingestion.SystemProperties
import Counted.Ingestion.Admission
import Counted.Ingestion.Policy
import Counted.Ingestion.GroupCommit
import Counted.Ingestion.Moves
import Counted.Ingestion.Assembly
import Counted.Ingestion.Accounting
import Counted.Ingestion.Fate
import Counted.Ingestion.Receipts
import Counted.Ingestion.Buffer
import Counted.Ingestion.MemoryBound
import Counted.Ingestion.FlushOrder
import Counted.Ingestion.Drains
import Counted.Analytics.Field
import Counted.Analytics.Predicate
import Counted.Analytics.RawEvent
import Counted.Analytics.Answerability
import Counted.Analytics.Classification
import Counted.Analytics.Bucketing
import Counted.Analytics.Measure
import Counted.Analytics.Window
import Counted.Analytics.Funnel
import Counted.Analytics.Analysis
import Counted.Analytics.StoredAnalysis
import Counted.Analytics.Readback
import Counted.Analytics.Sink
import Counted.Analytics.ExactlyOnce
import Counted.Analytics.Storable
import Counted.Analytics.GroupWrites
import Counted.Analytics.WireAnalysis
import Counted.Analytics.WireRoundTrip
import Counted.Analytics.SharedColumn
import Counted.Analytics.Engine
import Counted.Analytics.Ask
import Counted.Dashboarding.Monitor
import Counted.Dashboarding.AlertLaw
import Counted.Dashboarding.Observe
import Counted.Dashboarding.DeliveryOrder
import Counted.Dashboarding.LostUpdate
import Counted.Dashboarding.Sweep
import Counted.Tenancy.ProjectCap
import Counted.Projects.Claiming
import Counted.Projects.Revocation
import Counted.Projects.Escalation
import Counted.Tenancy.ConcurrentBilling
import Counted.Tenancy.WorkspaceRuns
import Counted.Authorization.Decide
import Counted.Outbox.DeadLetters
import Counted.Analytics.Restriction
import Counted.Litics.Index
import Counted.Litics.Plan
import Counted.Litics.Raw
import Counted.Litics.Engine
import Counted.Litics.Filters
import Counted.Litics.Answers
import Counted.Litics.IndexAnswers
import Counted.Litics.Windows
import Counted.Litics.IndexPath
import Counted.Litics.Tuples
import Counted.Litics.RawPath
import Counted.Litics.Paths
import Counted.Litics.PathsLaw
import Counted.Sdk.Client
import Counted.Sdk.Books
import Counted.Outbox.Leases
import Counted.Outbox.Stuck
import Counted.Api.IngestQuota
import Counted.Ingestion.Geography
import Counted.Api.IngestRoute
import Counted.Projects.CredentialStore
import Counted.Projects.RateLimit
import Counted.Projects.KeyLifecycle
import Counted.Foundations.Concurrency
import Counted.Postgres.Migrations
import Counted.Foundations.Paging
import Counted.Worker.Retention
import Counted.Worker.Reconcile
import Counted.Dashboarding.Dashboard
import Counted.Foundations.Rectangles
import Counted.Dashboarding.Arrangement
import Counted.Dashboarding.DashboardSound
import Counted.Dashboarding.DashboardEdits
import Counted.Identity.Membership
import Counted.Identity.MembershipWriter
import Counted.Ingestion.CountryLookup
import Counted.Foundations.Upserts
import Counted.Postgres.Deletion
import Counted.Ingestion.Partition
import Counted.Litics.DateGrid
import Counted.Litics.FunnelLaw
import Counted.Litics.FunnelOrder
import Counted.Litics.SeriesLaw
import Counted.Litics.RankLaw
import Counted.Litics.PlannerLaw
import Counted.Litics.WindowReach
import Counted.Litics.CellsLaw
import Counted.Analytics.StoredProperties
import Counted.Worker.SchedulerLaw
import Counted.Worker.ProvisioningLaw
import Counted.Sdk.EncodingLaw
import Counted.Sdk.Shutdown
import Counted.Sdk.Agreement
import Counted.Sdk.Pauses
import Counted.Sdk.Overlap
import Counted.Ingestion.AddressGrammar
import Counted.Crypto.Ids
import Counted.AgentTelemetry.Fingerprint
import Counted.AgentTelemetry.FingerprintLaw
import Counted.Console.InsightLayout
import Counted.Console.Compactor
import Counted.Console.Packing
import Counted.Console.Pushing
import Counted.Console.LayoutLaw
import Counted.Foundations.PercentEncoding
import Counted.Foundations.Utf8
import Counted.Foundations.Url
import Counted.Console.Navigation
import Counted.Kernel.CivilDate
import Counted.Kernel.FixedWidth
import Counted.Sdk.Timestamps
import Counted.Tenancy.StripeSignature
import Counted.Foundations.Cursors
import Counted.Identity.OrganizationDirectory
import Counted.Identity.DirectoryLaw
import Counted.AgentTelemetry.Setup
import Counted.AgentTelemetry.SetupLaw
import Counted.Foundations.Recursion
import Counted.Openapi.Explorer
import Counted.Openapi.ExplorerLaw
import Counted.Foundations.FormEncoding
import Counted.Mcp.Invoke
import Counted.Mcp.Tools
import Counted.Mcp.InvokeLaw
import Counted.Api.Delivery
import Counted.Api.DeliveryLaw
