import DuckdbLoki.Base
import DuckdbLoki.Requests
import DuckdbLoki.QueryStrings
import DuckdbLoki.TimeBounds
import DuckdbLoki.Durations
import DuckdbLoki.Paging.Reader
import DuckdbLoki.Paging.Drain
import DuckdbLoki.Paging.Complete
import DuckdbLoki.Paging.Caps
import DuckdbLoki.Paging.Skim
import DuckdbLoki.Paging.Pace
import DuckdbLoki.Machines.Run
import DuckdbLoki.Streaming.Buffer
import DuckdbLoki.Machines.Publication
import DuckdbLoki.Assoc.Emplace
import DuckdbLoki.Yyjson
import DuckdbLoki.Pager
import DuckdbLoki.StreamsResponse
import DuckdbLoki.PagerRefinement
import DuckdbLoki.PagerSafety
import DuckdbLoki.Store
import DuckdbLoki.PagerDrain
import DuckdbLoki.PagerCaps
import DuckdbLoki.PagerOverflow
import DuckdbLoki.EntryKeys
import DuckdbLoki.Timestamps
import DuckdbLoki.Regex
import DuckdbLoki.Reading.Framing
import DuckdbLoki.Reading.Lexer
import DuckdbLoki.Reading.Grammar
import DuckdbLoki.LogQL
import DuckdbLoki.QueryText
import DuckdbLoki.SelectorQuery
import DuckdbLoki.Auth
import DuckdbLoki.BasicAuth
import DuckdbLoki.Connection
import DuckdbLoki.Resolvers
import DuckdbLoki.Secrets
import DuckdbLoki.Expression
import DuckdbLoki.Casts
import DuckdbLoki.Scan
import DuckdbLoki.Translation
import DuckdbLoki.LineFilters
import DuckdbLoki.LabelMatchers
import DuckdbLoki.EscapedLiterals
import DuckdbLoki.Pushdown
import DuckdbLoki.CastChains
import DuckdbLoki.CastPushdown
import DuckdbLoki.ScanWindow
import DuckdbLoki.WindowSoundness
import DuckdbLoki.LogsTable
import DuckdbLoki.MalformedEntries
import DuckdbLoki.MandatorySelector
import DuckdbLoki.LabelColumns
import DuckdbLoki.HttpClient
import DuckdbLoki.Projection
import DuckdbLoki.ScanFunction
import DuckdbLoki.Catalog
import DuckdbLoki.LabelDiscovery
import DuckdbLoki.Discovery
import DuckdbLoki.Attach
import DuckdbLoki.CatalogMachine
import DuckdbLoki.CatalogSteps
import DuckdbLoki.CatalogSnapshots
import DuckdbLoki.CatalogRefresh
import DuckdbLoki.CatalogGenerations
import DuckdbLoki.CatalogFreshness
import DuckdbLoki.Machines.Projection
import DuckdbLoki.PragmaRefresh
import DuckdbLoki.CatalogDeadlines
import DuckdbLoki.Tenants
import DuckdbLoki.TtlDeadlines
import DuckdbLoki.CatalogProgress
import DuckdbLoki.Passes.Settle
import DuckdbLoki.PushdownPasses
import DuckdbLoki.LokiServer
import DuckdbLoki.TenantQueries
import DuckdbLoki.ScanSafety
import DuckdbLoki.Binding
import DuckdbLoki.Paging.Accounts
import DuckdbLoki.ScanAccounts
import DuckdbLoki.Streaming.Once
import DuckdbLoki.DiscoveryFunction
import DuckdbLoki.DiscoveryServer
import DuckdbLoki.SeriesTable
import DuckdbLoki.LabelsTable
import DuckdbLoki.PushedBounds
import DuckdbLoki.PagedScans
import DuckdbLoki.LokiQueries
