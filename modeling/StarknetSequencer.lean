import StarknetSequencer.Wire.Segments
import StarknetSequencer.Sequencer.Block
import StarknetSequencer.Sequencer.Reference
import StarknetSequencer.Sequencer.Restart
import StarknetSequencer.Sequencer.Reachable
import StarknetSequencer.Sequencer.Replay
import StarknetSequencer.Sequencer.Invocations
import StarknetSequencer.Sequencer.Admission
import StarknetSequencer.Sequencer.Lifecycle
import StarknetSequencer.Sequencer.AppHash
import StarknetSequencer.Effect.Loop
import StarknetSequencer.Narwhal.Abci
import StarknetSequencer.Narwhal.Engine
import StarknetSequencer.Narwhal.Script
import StarknetSequencer.Narwhal.Protocol
import StarknetSequencer.Narwhal.Replicas
import StarknetSequencer.Narwhal.Queries
import StarknetSequencer.Narwhal.Restarts
import StarknetSequencer.Sequencer.Cli
import StarknetSequencer.Sequencer.Responses
import StarknetSequencer.Sequencer.Transport
import StarknetSequencer.Sequencer.ClassHash
import StarknetSequencer.Sequencer.Classes
import StarknetSequencer.Effect.Frame
import StarknetSequencer.Sequencer.Connections
import StarknetSequencer.Sequencer.Lookup
import StarknetSequencer.Sequencer.LoadTest
import StarknetSequencer.Narwhal.Reconstruction
import StarknetSequencer.Wire.Template
import StarknetSequencer.Wire.Decimal
import StarknetSequencer.Sequencer.Contents
import StarknetSequencer.Narwhal.Testbed
import StarknetSequencer.Narwhal.Wiring
import StarknetSequencer.Effect.Faults
import StarknetSequencer.Sequencer.HeightCount
import StarknetSequencer.Sequencer.HeightFaults
import StarknetSequencer.Sequencer.Proposal
import StarknetSequencer.Sequencer.Canonical
import StarknetSequencer.Narwhal.Endpoints
import StarknetSequencer.Narwhal.Hosts
import StarknetSequencer.Dict
import StarknetSequencer.Narwhal.Merge
import StarknetSequencer.Narwhal.Aggregate
import StarknetSequencer.Narwhal.Throughput
import StarknetSequencer.Narwhal.Summaries
import StarknetSequencer.Narwhal.ReadBack
import StarknetSequencer.Binary64
import StarknetSequencer.Datetime
import StarknetSequencer.Narwhal.Logs
import StarknetSequencer.Narwhal.LogParser
import StarknetSequencer.Narwhal.Accepted
import StarknetSequencer.Cairo.Instruction
import StarknetSequencer.Cairo.Machine
import StarknetSequencer.Cairo.Logic
import StarknetSequencer.Cairo.Contract
import StarknetSequencer.Cairo.EntryPoint
import StarknetSequencer.Programs.Fibonacci
import StarknetSequencer.Programs.Factorial
import StarknetSequencer.Narwhal.Execution
import StarknetSequencer.Narwhal.Node
import StarknetSequencer.Narwhal.Service
import StarknetSequencer.Narwhal.Agreement
import StarknetSequencer.Narwhal.Series
import StarknetSequencer.Narwhal.Ploter
import StarknetSequencer.Narwhal.Plots
import StarknetSequencer.Narwhal.Client
import StarknetSequencer.Effect.Triple
import StarknetSequencer.Narwhal.Remote
import StarknetSequencer.Narwhal.Machines
import StarknetSequencer.Narwhal.Uploads
import StarknetSequencer.Narwhal.Boots
import StarknetSequencer.Narwhal.Fleet
