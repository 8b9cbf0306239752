import Pleiades.Lib.Run
import Pleiades.Session.Slots
import Pleiades.Session.Engine
import Pleiades.Session.Task
import Pleiades.Session.FrameAlignment
import Pleiades.Session.Sentinel
import Pleiades.Session.Conversation
import Pleiades.Api.SlotHandler
import Pleiades.MlEngine.Context
import Pleiades.MlEngine.Position
import Pleiades.Lib.Bytes
import Pleiades.Gguf.Value
import Pleiades.Gguf.Content
import Pleiades.Gguf.Writer
import Pleiades.Gguf.Layout
import Pleiades.Lib.File
import Pleiades.Gguf.Analyze
import Pleiades.Gguf.Convert
import Pleiades.Storage.Index
import Pleiades.Storage.Manager
import Pleiades.Storage.Exclusion
import Pleiades.Storage.LiveFiles
import Pleiades.Lib.Mealy
import Pleiades.MlEngine.Layers
import Pleiades.Programs.Pipeline
import Pleiades.Programs.SingleMachine
import Pleiades.Lib.Script
import Pleiades.MlEngine.LayeredSession
import Pleiades.Programs.OffloadPingpong
import Pleiades.Lib.Table
import Pleiades.Network.Rendezvous
import Pleiades.Network.Delivery
import Pleiades.Programs.Cluster
import Pleiades.Programs.StreamMatching
import Pleiades.MlEngine.Offload
import Pleiades.MlEngine.Restored
import Pleiades.Lib.Reader
import Pleiades.MlEngine.KvFile
import Pleiades.Orchestrator.Command
import Pleiades.Network.InfoExchange
import Pleiades.Network.Connections
import Pleiades.Orchestrator.LocalStream
import Pleiades.Session.Service
import Pleiades.Session.Manager
import Pleiades.Session.Occupancy
import Pleiades.Lib.Snapshots
import Pleiades.Orchestrator.SessionCommand
import Pleiades.Gguf.ArchInfo
import Pleiades.Storage.Flush
import Pleiades.Storage.FlushAgreement
import Pleiades.Storage.Advertised
import Pleiades.Lib.Intervals
import Pleiades.Vm.ModelPeers
import Pleiades.Vm.Coordinates
import Pleiades.Programs.Assignment
import Pleiades.Tui.BitmapHex
import Pleiades.Lib.Channel
import Pleiades.Network.ServiceLoop
import Pleiades.Network.CircularWait
import Pleiades.Network.PeerStall
import Pleiades.Network.FileStream
import Pleiades.Network.TensorStream
import Pleiades.Lib.Words
import Pleiades.MlEngine.LuaTensor
import Pleiades.Session.Offsets
import Pleiades.Programs.KvPositions
import Pleiades.Network.SessionStream
import Pleiades.Api.EndOfTurn
import Pleiades.Orchestrator.ReceiveFile
import Pleiades.Orchestrator.Containment
import Pleiades.Orchestrator.FailedTransfer
import Pleiades.Network.FileTransfer
import Pleiades.Orchestrator.Outcome
import Pleiades.Lib.Entries
import Pleiades.Gguf.Split
import Pleiades.Gguf.SplitHolds
import Pleiades.Gguf.ModelIdChain
import Pleiades.Lib.Ranges
import Pleiades.Programs.Split
import Pleiades.Gguf.LoadModel
import Pleiades.Gguf.Bitmaps
import Pleiades.Hf2gguf.Converter
import Pleiades.Gguf.OffsetPatching
import Pleiades.MlEngine.CausalMask
import Pleiades.MlEngine.Sample
import Pleiades.MlEngine.Atomicity
import Pleiades.Lib.Scanner
import Pleiades.MlEngine.KvDecode
import Pleiades.Lib.Slices
import Pleiades.MlEngine.SplitIndex
import Pleiades.MlEngine.ChatTemplate
import Pleiades.Vm.RangeMerge
import Pleiades.Storage.KeptEntries
import Pleiades.Storage.SizeUpdates
import Pleiades.Storage.FlushDisagreement
import Pleiades.Storage.FlushRobust
import Pleiades.Network.PeerUpdates
import Pleiades.PeerManagement.LocalPeer
import Pleiades.Network.OutboundManager
import Pleiades.Network.PendingReplies
import Pleiades.Network.FrameCodec
import Pleiades.Network.ReceiveData
import Pleiades.Orchestrator.LocalFrames
import Pleiades.MlEngine.TensorPacket
import Pleiades.Tui.LayerRanges
import Pleiades.Lib.Replace
import Pleiades.Lib.Positions
import Pleiades.Gguf.Validator
import Pleiades.Gguf.HeaderPositions
import Pleiades.Programs.OneShot
import Pleiades.Programs.ExpSingle
import Pleiades.MlEngine.MixtureOfExperts
import Pleiades.Lib.TopK
import Pleiades.MlEngine.SparseAttention
import Pleiades.MlEngine.DeepSeekV4
import Pleiades.Lib.Tokens
import Pleiades.Tui.UserCommand
import Pleiades.Lib.Keyed
import Pleiades.Tui.Accepted
import Pleiades.Tui.App
import Pleiades.Tui.Drawing
import Pleiades.Tui.Events
import Pleiades.Tui.Loop
import Pleiades.Tui.Panel
import Pleiades.Tui.Watched
import Pleiades.Lib.Grid
import Pleiades.MlEngine.Quant
import Pleiades.MlEngine.SafeTensors
import Pleiades.MlEngine.Loader
import Pleiades.MlEngine.Shards
