import Stateline.Lib.TreeMap
import Stateline.Lib.Run
import Stateline.Lib.Window
import Stateline.Lib.Gather
import Stateline.Lib.Least
import Stateline.Lib.Cholesky
import Stateline.Lib.Reflection
import Stateline.Lib.Unfold
import Stateline.Lib.Normal
import Stateline.Lib.Metropolis
import Stateline.Lib.LeastSquares
import Stateline.Lib.Moments
import Stateline.Lib.Lines
import Stateline.Common.Str
import Stateline.Common.Decimal
import Stateline.Comms.Message
import Stateline.Comms.Delegator
import Stateline.Comms.Heartbeat
import Stateline.Comms.ClientHeartbeat
import Stateline.Comms.System
import Stateline.Comms.Wire
import Stateline.Comms.Socket
import Stateline.Comms.Router
import Stateline.Comms.DelegatorThread
import Stateline.Comms.Relay
import Stateline.Comms.Network
import Stateline.Comms.Session
import Stateline.Infer.Double
import Stateline.Infer.Adaptive
import Stateline.Infer.ProposalShaper
import Stateline.Infer.GaussianProposal
import Stateline.Infer.ChainArray
import Stateline.Infer.Diagnostics
import Stateline.Infer.Logging
import Stateline.Infer.Sampler
import Stateline.Infer.Received
import Stateline.Infer.Drawn
import Stateline.App.RunSampler
import Stateline.App.ServerWrapper
import Stateline.App.Settings
import Stateline.Spec.Chains
import Stateline.Spec.Cascade
import Stateline.Spec.Ladder
import Stateline.Proof.Handlers
import Stateline.Proof.Requests
import Stateline.Proof.Submit
import Stateline.Proof.Best
import Stateline.Proof.Polling
import Stateline.Proof.World
import Stateline.Proof.Conserve
import Stateline.Proof.Handled
import Stateline.Proof.Failed
import Stateline.Proof.Greedy
import Stateline.Proof.Roster
import Stateline.Proof.Supported
import Stateline.Proof.Reply
import Stateline.Proof.Stray
import Stateline.Proof.Agree
import Stateline.Proof.Register
import Stateline.Proof.Count
import Stateline.Proof.Estimate
import Stateline.Proof.Timeouts
import Stateline.Proof.Detector
import Stateline.Proof.Goodbye
import Stateline.Proof.Honest
import Stateline.Proof.Relay
import Stateline.Proof.Framing
import Stateline.Proof.Dispatch
import Stateline.Proof.Loop
import Stateline.Proof.Session
import Stateline.Proof.SamplerProgram
import Stateline.Proof.Cluster
import Stateline.Proof.Watched
import Stateline.App.Service
import Stateline.Proof.Exchange
import Stateline.Proof.Service
import Stateline.Proof.Rows
import Stateline.Proof.Effort
import Stateline.Proof.Quiet
import Stateline.Proof.Progress
import Stateline.Proof.Logging
import Stateline.Proof.Csv
import Stateline.Proof.RoundTrip
import Stateline.Proof.Flush
import Stateline.Proof.Record
import Stateline.Proof.Flight
import Stateline.Proof.Step
import Stateline.Proof.Markov
import Stateline.Proof.Overtake
import Stateline.Proof.Returned
import Stateline.Proof.Outstanding
import Stateline.Proof.Start
import Stateline.Proof.Within
import Stateline.Proof.Isolated
import Stateline.Proof.Temperatures
import Stateline.Proof.BetaStack
import Stateline.Proof.Shape
import Stateline.Proof.Scale
import Stateline.Proof.Stride
import Stateline.Proof.Bounce
import Stateline.Proof.Fold
import Stateline.Proof.Density
import Stateline.Proof.Invariant
import Stateline.Proof.Symmetric
import Stateline.Proof.Swap
import Stateline.Proof.Regression
import Stateline.Proof.Rates
import Stateline.Proof.Diagnostics
import Stateline.Proof.Defined
