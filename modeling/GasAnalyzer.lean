import GasAnalyzer.Library.Abi
import GasAnalyzer.Library.Base64
import GasAnalyzer.Library.Joins
import GasAnalyzer.Library.Merkle
import GasAnalyzer.Library.OrdMap
import GasAnalyzer.Library.Outcome
import GasAnalyzer.Library.PreOrder
import GasAnalyzer.Library.Rank
import GasAnalyzer.Library.Requests
import GasAnalyzer.Library.Sums
import GasAnalyzer.Library.Text
import GasAnalyzer.Library.WriteLog
import GasAnalyzer.Core.Types
import GasAnalyzer.Core.Encoding
import GasAnalyzer.Core.Trace
import GasAnalyzer.Core.Candidates
import GasAnalyzer.Core.Heuristic
import GasAnalyzer.Core.LeanTrace
import GasAnalyzer.Core.SimProfile
import GasAnalyzer.Core.Walk
import GasAnalyzer.Core.FrameTree
import GasAnalyzer.Core.EncodeTree
import GasAnalyzer.Core.Prestate
import GasAnalyzer.Core.EvmSketch
import GasAnalyzer.Core.Seeds
import GasAnalyzer.Core.Unnested
import GasAnalyzer.Encoding.Roundtrip
import GasAnalyzer.Nested.Forest
import GasAnalyzer.Nested.Leaves
import GasAnalyzer.Nested.MerkleTree
import GasAnalyzer.Nested.EncodedTree
import GasAnalyzer.Nested.Encodable
import GasAnalyzer.Nested.Slices
import GasAnalyzer.Nested.Stack
import GasAnalyzer.Nested.Outline
import GasAnalyzer.Nested.Steps
import GasAnalyzer.Nested.Transitions
import GasAnalyzer.Nested.WalkSound
import GasAnalyzer.Nested.Candidates
import GasAnalyzer.Nested.Dropping
import GasAnalyzer.Nested.Settled
import GasAnalyzer.Nested.Pruning
import GasAnalyzer.Nested.Settling
import GasAnalyzer.Nested.PreOrderTree
import GasAnalyzer.Nested.Split
import GasAnalyzer.Nested.Pricing
import GasAnalyzer.Effects.Positions
import GasAnalyzer.Effects.Decoding
import GasAnalyzer.Effects.Blanking
import GasAnalyzer.Effects.Layers
import GasAnalyzer.Effects.Legacy
import GasAnalyzer.Effects.Tracking
import GasAnalyzer.Effects.Executing
import GasAnalyzer.Effects.Memory
import GasAnalyzer.Native.CallTree
import GasAnalyzer.Native.Closure
import GasAnalyzer.Native.Executed
import GasAnalyzer.Native.Walked
import GasAnalyzer.Native.Programs
import GasAnalyzer.Native.Calls
import GasAnalyzer.Native.Outcomes
import GasAnalyzer.Native.Bills
import GasAnalyzer.Native.Segments
import GasAnalyzer.Native.Totals
import GasAnalyzer.Native.Writes
import GasAnalyzer.Native.Counters
import GasAnalyzer.Native.Yield
import GasAnalyzer.Native.Unnested
import GasAnalyzer.Native.Single
import GasAnalyzer.Native.Prepass
import GasAnalyzer.Native.Eligibility
import GasAnalyzer.Native.Indices
import GasAnalyzer.Native.Counted
import GasAnalyzer.Native.Metered
import GasAnalyzer.Native.Meters
import GasAnalyzer.Native.Reasons
import GasAnalyzer.Legacy.Recursion
import GasAnalyzer.Legacy.Tree
import GasAnalyzer.Legacy.Extraction
import GasAnalyzer.Legacy.Agreement
import GasAnalyzer.Legacy.Fallback
import GasAnalyzer.Sketch.Budget
import GasAnalyzer.Sketch.Settlement
import GasAnalyzer.Sketch.Reporting
import GasAnalyzer.Sketch.Appending
import GasAnalyzer.Sketch.Landing
import GasAnalyzer.Sketch.Weights
import GasAnalyzer.Sketch.Gate
import GasAnalyzer.Safety.Panics
import GasAnalyzer.Safety.Extraction
import GasAnalyzer.Effects.Snapshots
import GasAnalyzer.Safety.Split
import GasAnalyzer.Safety.Indices
import GasAnalyzer.Net.Execution
import GasAnalyzer.Native.Stored
import GasAnalyzer.Native.Views
import GasAnalyzer.Native.Lasting
import GasAnalyzer.Native.Returns
import GasAnalyzer.Legacy.Stores
import GasAnalyzer.Native.Seeding
import GasAnalyzer.Net.Canonical
import GasAnalyzer.Net.Frames
import GasAnalyzer.Net.Equivalence
import GasAnalyzer.Net.Counters
import GasAnalyzer.Indexer.Types
import GasAnalyzer.Indexer.Resolver
import GasAnalyzer.Indexer.Session
import GasAnalyzer.Indexer.Store
import GasAnalyzer.Indexer.HeadTracker
import GasAnalyzer.Indexer.Organizations
import GasAnalyzer.Indexer.Writers
import GasAnalyzer.Indexer.Labeling
import GasAnalyzer.Indexer.Metadata
import GasAnalyzer.Indexer.Relabeling
import GasAnalyzer.Indexer.Worker
import GasAnalyzer.Indexer.Delivery
import GasAnalyzer.Estimator.FrameTree
import GasAnalyzer.Estimator.Schedule
import GasAnalyzer.Estimator.Malformed
import GasAnalyzer.Estimator.NativeOrder
import GasAnalyzer.Replay.Chain
import GasAnalyzer.Replay.Journal
import GasAnalyzer.Replay.Following
import GasAnalyzer.Replay.Programs
import GasAnalyzer.Replay.Frames
import GasAnalyzer.Replay.FrameTree
import GasAnalyzer.Replay.Legacy
import GasAnalyzer.Library.Comparing
import GasAnalyzer.Core.Endpoint
import GasAnalyzer.Sketch.Operators
import GasAnalyzer.Estimator.Interchange
import GasAnalyzer.Estimator.SimpleRpcDb
import GasAnalyzer.Estimator.Injection
import GasAnalyzer.Estimator.Prefetch
