import NanoKube.Admission
import NanoKube.EndOfStream
import NanoKube.Progress
import NanoKube.TokenBudget
import NanoKube.Solo
import NanoKube.Prefills
import NanoKube.Slots
import NanoKube.KvCache
import NanoKube.Teardown
import NanoKube.Engine
import NanoKube.Gateway
import NanoKube.Swap
import NanoKube.CatchUp
import NanoKube.Verdicts
import NanoKube.Quiescence
import NanoKube.Delivery
import NanoKube.Answers
import NanoKube.Attention
import NanoKube.Sampling
import NanoKube.Generation
import NanoKube.EndToEnd
import NanoKube.Utf8
import NanoKube.Session
import NanoKube.Streaming
import NanoKube.OneStory
import NanoKube.Informer
import NanoKube.Json
import NanoKube.Sse
import NanoKube.CompletionStream
import NanoKube.Exposition
import NanoKube.Metrics
import NanoKube.Environment
import NanoKube.Lifespan
import NanoKube.Probes
import NanoKube.Cluster
import NanoKube.StatusUpdate
import NanoKube.Convergence
import NanoKube.Watch
import NanoKube.Fleet
import NanoKube.DnsName
import NanoKube.Naming
import NanoKube.StructuralSchema
import NanoKube.SpecCodec
