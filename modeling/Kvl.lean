import Kvl.Lib.Tables
import Kvl.Lib.CText
import Kvl.Lib.TopK
import Kvl.Store.Format
import Kvl.Store.Index
import Kvl.Store.Mask
import Kvl.Store.Open
import Kvl.Cache.Model
import Kvl.Cache.Invariant
import Kvl.Cache.Calls
import Kvl.Cache.History
import Kvl.Cache.Packed
import Kvl.Router.MaskLoad
import Kvl.Router.Model
import Kvl.Router.Sparse
import Kvl.Store.Load
import Kvl.Moe.GgufQ8
import Kvl.Moe.Noninterference
import Kvl.Cache.Batch
import Kvl.Moe.Pins
import Kvl.Moe.LayerPin
import Kvl.Lib.Wavefront
import Kvl.Mla.Rows
import Kvl.Mla.Decode
import Kvl.Generate.Layers
import Kvl.Generate.Block
import Kvl.Generate.Prompt
import Kvl.Generate.Serial
import Kvl.Generate.SelfSpec
import Kvl.Lib.Sums
import Kvl.Mla.Absorb
import Kvl.Generate.PromptExact
import Kvl.Router.DynSkip
import Kvl.Lib.Tiling
import Kvl.Store.GgufLoad
import Kvl.Store.Encode
import Kvl.Store.GgufIndex
import Kvl.Lib.Ownership
import Kvl.Trunk.Cache
import Kvl.Lib.PyText
import Kvl.Api.Plan
import Kvl.Api.Generate
import Kvl.Lib.Machine
import Kvl.Api.Processes
import Kvl.Api.Dialogue
import Kvl.Api.Handler
import Kvl.Api.Response
import Kvl.Api.Connection
import Kvl.Cache.Held
import Kvl.Lib.Ranking
import Kvl.Router.Exact
import Kvl.Router.Deletion
import Kvl.Mla.Q8State
import Kvl.Mla.Rollback
import Kvl.Mla.NoTrace
import Kvl.Mla.Expanded
import Kvl.Lib.Workers
import Kvl.Mla.Materialised
import Kvl.Mla.Streaming
import Kvl.Lib.Dict
import Kvl.Router.SkipPolicy
import Kvl.Router.SkipSim
import Kvl.Router.PolicyFile
import Kvl.Generate.Footprint
import Kvl.Cache.Recency
import Kvl.Cache.Lru
import Kvl.Cache.Prefetch
import Kvl.Moe.PinSelect
import Kvl.Router.SkipKeep
import Kvl.Router.Structural
import Kvl.Lib.CNumber
import Kvl.Lib.PyNumber
import Kvl.Lib.Knapsack
import Kvl.Tools.MixedBit
import Kvl.Lib.Greedy
import Kvl.Tools.Reap
import Kvl.Lib.Reservoir
import Kvl.Tools.ActTrace
import Kvl.Tools.Reservoir
import Kvl.Tools.RoundRobin
import Kvl.Vision.Interp
import Kvl.Vision.Preprocess
import Kvl.Lib.BitStream
import Kvl.Tools.PackQ5
import Kvl.Moe.Q5
import Kvl.Lib.Rounding
import Kvl.Tools.Quantize
import Kvl.Generate.Sampling
import Kvl.Lib.ArgBest
import Kvl.Tools.RouterMap
import Kvl.Tools.MergeStore
import Kvl.Lib.Residency
import Kvl.Tools.PackFull
import Kvl.Lib.Extents
import Kvl.Tools.PackExperts
import Kvl.Tools.Compact
import Kvl.Tools.CompactOpen
import Kvl.Tools.CompactServe
