import DocSearch.Support.Interleaving
import DocSearch.Support.Loop
import DocSearch.Support.TokenBucket
import DocSearch.Support.Traversal
import DocSearch.Repositories.DocumentRepository
import DocSearch.Repositories.Transactions
import DocSearch.Clients.InMemoryEngine
import DocSearch.Clients.Isolation
import DocSearch.Clients.Fuzzy
import DocSearch.Clients.Ranking
import DocSearch.Clients.Cache
import DocSearch.Clients.Queue
import DocSearch.Clients.Broker
import DocSearch.Services.CacheKeys
import DocSearch.Services.DocumentService
import DocSearch.Services.SearchService
import DocSearch.Workers.Processor
import DocSearch.Workers.Batch
import DocSearch.Workers.Classification
import DocSearch.Workers.Decoding
import DocSearch.Workers.Reconciler
import DocSearch.Workers.Sweeps
import DocSearch.Core.Sample
import DocSearch.Core.Resilience
import DocSearch.Services.RateLimiter
import DocSearch.Services.RetryAfter
import DocSearch.Services.ScriptClock
import DocSearch.Workers.Consumer
import DocSearch.Workers.Poison
import DocSearch.Workers.Flushing
import DocSearch.Workers.RetryBudget
import DocSearch.Pipeline.Machine
import DocSearch.Pipeline.Rows
import DocSearch.Pipeline.Deletions
import DocSearch.Pipeline.Index
import DocSearch.Pipeline.Fidelity
import DocSearch.Pipeline.Resurrection
import DocSearch.Pipeline.Coalescing
import DocSearch.Pipeline.Leaders
import DocSearch.Pipeline.Calls
import DocSearch.Pipeline.Convergence
import DocSearch.Pipeline.Searches
import DocSearch.Pipeline.Tenancy
import DocSearch.Services.Normalization
import DocSearch.Services.KeySpace
import DocSearch.Pipeline.Transparency
import DocSearch.Pipeline.History
import DocSearch.Pipeline.DocumentCache
import DocSearch.Pipeline.Generations
import DocSearch.Pipeline.Invalidation
import DocSearch.Pipeline.Freshness
import DocSearch.Pipeline.Outages
import DocSearch.Pipeline.Visibility
import DocSearch.Pipeline.Coherence
import DocSearch.Pipeline.Replay
import DocSearch.Api.SearchRoute
import DocSearch.Api.FailOpen
import DocSearch.Api.Revocation
import DocSearch.Api.RateLimited
import DocSearch.Services.Replicas
import DocSearch.Support.Noninterference
import DocSearch.Pipeline.Separation
import DocSearch.Workers.Fleet
import DocSearch.Workers.Delivery
import DocSearch.Workers.Accounts
import DocSearch.Core.Retry
import DocSearch.Support.Weight
import DocSearch.Clients.Load
import DocSearch.Clients.Bulk
import DocSearch.Core.JsonText
import DocSearch.Workers.Wire
import DocSearch.Api.Budget
import DocSearch.Clients.Facets
import DocSearch.Api.Buckets
import DocSearch.Schemas.Document
import DocSearch.Pipeline.Limits
