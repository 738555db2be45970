import Hypergate.Operator.Holders
import Hypergate.Operator.SyncLoop
import Hypergate.Engine.RegistryLifecycle
import Hypergate.Engine.Audit
import Hypergate.Policy.Binding
import Hypergate.Policy.Lifecycle
import Hypergate.Grpc.ClientIP
import Hypergate.Grpc.Limiter
import Hypergate.Grpc.FirewallOnce
import Hypergate.Routing.UnknownCaller
import Hypergate.Grpc.AuditOnly
import Hypergate.Operator.TokenReview
import Hypergate.Operator.Admission
import Hypergate.Operator.ExtProc
import Hypergate.Filters.RateLimiter.LocalCache
import Hypergate.Filters.RateLimiter.BucketCache
import Hypergate.Filters.RateLimiter.KeyBuffers
import Hypergate.Filters.JwtHeaders
import Hypergate.Filters.ApiKeyCache
import Hypergate.Identity.ServiceHost
import Hypergate.Filters.Credentials
import Hypergate.Routing.LabelSelectors
import Hypergate.Routing.SelectorPattern
import Hypergate.Routing.RouteMeaning
import Hypergate.Filters.FirewallMutations
import Hypergate.Grpc.ChainTimeout
import Hypergate.Grpc.CorsVary
import Hypergate.Operator.Listed
import Hypergate.Operator.ActiveConfigs
import Hypergate.Redis.Pipeline
import Hypergate.Filters.MetadataEnricher
import Hypergate.Identity.ServicePointers
import Hypergate.Identity.Versions
import Hypergate.Operator.PodFiles
import Hypergate.Identity.Convergence
import Hypergate.Policy.Watcher
