import TechTrends.StepMachine
import TechTrends.FixedWindow
import TechTrends.Redis
import TechTrends.Throttle
import TechTrends.ThrottleDeadlines
import TechTrends.Footprint
import TechTrends.ThrottleIsolation
import TechTrends.LockOwnership
import TechTrends.Keyword
import TechTrends.Retry
import TechTrends.SearchEmbedding
import TechTrends.SearchSoundness
import TechTrends.SearchResolves
import TechTrends.SearchLock
import TechTrends.SearchStampede
import TechTrends.SearchWaiters
import TechTrends.Effect
import TechTrends.TextUtil
import TechTrends.Time
import TechTrends.TechTrend
import TechTrends.Pipeline
import TechTrends.PipelineQuota
import TechTrends.PipelineTried
import TechTrends.PipelineBatch
import TechTrends.JsDate
import TechTrends.SingleFlight
import TechTrends.TrendJson
import TechTrends.TrendsCache
import TechTrends.TrendsQuery
import TechTrends.TrendsQueryLoads
import TechTrends.TrendsQueryProgress
import TechTrends.TrendsQueryCache
import TechTrends.TrendsQueryErrors
import TechTrends.Sources
import TechTrends.SourcesCoherence
import TechTrends.Sql
import TechTrends.TrendRepository
import TechTrends.TrendPaging
import TechTrends.TrendOrder
import TechTrends.HybridSearch
import TechTrends.EmbeddingCalls
import TechTrends.JsReplace
import TechTrends.StackOverflow
import TechTrends.LiteralSigns
import TechTrends.KeywordNormal
import TechTrends.SearchableQuery
import TechTrends.RedisRoundTrip
import TechTrends.RetryLoop
import TechTrends.ExecuteWithRetry
import TechTrends.RetryPause
import TechTrends.Summary
import TechTrends.GreedyFill
import TechTrends.Notification
import TechTrends.InFlight
import TechTrends.Frontend
import TechTrends.FrontendAnswers
import TechTrends.Escaping
import TechTrends.TitleEscape
import TechTrends.CacheKeys
import TechTrends.Calendar
import TechTrends.Today
import TechTrends.RankFusion
import TechTrends.Binary64
import TechTrends.Decimal
import TechTrends.ShortestDecimal
import TechTrends.ArrayUtil
import TechTrends.GeekNews
import TechTrends.TextPatterns
import TechTrends.SurrogatePairs
import TechTrends.Shortening
import TechTrends.Tracing
import TechTrends.Leftovers
import TechTrends.Ddl
import TechTrends.Migrations
import TechTrends.ParseInt
import TechTrends.AddressBar
import TechTrends.JobQueue
import TechTrends.PipelineScope
import TechTrends.ScraperQueue
import TechTrends.ScraperQuota
import TechTrends.ScraperDispatch
import TechTrends.ScraperAnnounce
import TechTrends.FormUrlEncoded
import TechTrends.ToNumber
import TechTrends.QueryDto
import TechTrends.PageLinks
import TechTrends.FrontendRequests
import TechTrends.BrowseList
import TechTrends.ThrottleStorage
import TechTrends.RelatedTrends
import TechTrends.PipelineOrder
import TechTrends.Scrapers
import TechTrends.BrowseSearch
import TechTrends.JsonIndent
import TechTrends.FilterPrompt
import TechTrends.SavedRows
import TechTrends.FilterSelection
import TechTrends.ScraperDetails
import TechTrends.Trail
import TechTrends.ReadingTrail
