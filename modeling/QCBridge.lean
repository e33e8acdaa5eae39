import QCBridge.ForStd.Dict
import QCBridge.ForStd.Guarded
import QCBridge.Ring1.Protocol
import QCBridge.Ring1.Merge
import QCBridge.Ring0.Replica
import QCBridge.Spec.Pump
import QCBridge.Spec.Replay
import QCBridge.Spec.ColdStream
import QCBridge.Spec.ApplyOrder
import QCBridge.Ring1.Resync
import QCBridge.Spec.Failure
import QCBridge.Ring0.Tier2
import QCBridge.Spec.Pairing
import QCBridge.Spec.Keyed
import QCBridge.Spec.Landed
import QCBridge.Spec.Handshake
import QCBridge.Spec.ColdLane
import QCBridge.Spec.PixelPath
import QCBridge.Spec.EncodeLoop
import QCBridge.Spec.AtState
import QCBridge.Spec.Standing
import QCBridge.Spec.Holes
import QCBridge.Ring1.DirtySet
import QCBridge.Ring1.Shadow
import QCBridge.Ring0.Ledger
import QCBridge.Ring0.Host
import QCBridge.ForStd.Attempt
import QCBridge.Ring0.Raising
import QCBridge.Spec.Trace
import QCBridge.Spec.Raising
import QCBridge.Spec.HostStream
import QCBridge.Spec.FastOrder
import QCBridge.Spec.Completed
import QCBridge.Spec.Carriers
import QCBridge.Spec.Rewind
import QCBridge.Spec.CaughtUp
import QCBridge.Spec.RepairEnd
import QCBridge.Spec.AutoBoot
import QCBridge.Spec.Stuck
import QCBridge.Spec.Resurrection
import QCBridge.Spec.Reassert
import QCBridge.Spec.Bystanders
import QCBridge.Spec.RaisingRun
import QCBridge.Spec.Flowing
import QCBridge.Spec.Repairing
import QCBridge.Spec.Turns
import QCBridge.Spec.Recovery
import QCBridge.Spec.Progress
import QCBridge.Ring0.Session
import QCBridge.Spec.Outage
import QCBridge.Ring1.Liveness
import QCBridge.ForStd.Since
import QCBridge.ForStd.Skipped
import QCBridge.ForStd.Inverse
import QCBridge.ForStd.JsonText
import QCBridge.ForStd.Spaced
import QCBridge.ForStd.Weigh
import QCBridge.Spec.RateLimit
import QCBridge.Spec.Converge
import QCBridge.Ring0.Emission
import QCBridge.Spec.Steady
import QCBridge.Spec.Gapless
import QCBridge.ForStd.Framing
import QCBridge.Ring1.Wire
import QCBridge.Spec.Pipeline
import QCBridge.Ring0.Manifest
import QCBridge.Spec.Inventory
import QCBridge.Ring1.Credit
import QCBridge.Spec.Conserved
import QCBridge.Spec.Sites
import QCBridge.Spec.NewFile
import QCBridge.Spec.Pointers
import QCBridge.Spec.NewSession
import QCBridge.Spec.Reassembly
import QCBridge.Spec.MergerHistory
import QCBridge.Ring1.Pathmap
import QCBridge.Spec.PathRemainder
import QCBridge.Spec.PathPriority
import QCBridge.Spec.PathRoundTrip
import QCBridge.Spec.Localize
import QCBridge.Spec.DirtyHistory
import QCBridge.Spec.FastApplied
import QCBridge.Spec.SeqGaps
import QCBridge.Spec.FastWindow
import QCBridge.Spec.ShadowPatch
import QCBridge.Ring1.Registry
import QCBridge.Spec.Identity
import QCBridge.Ring1.Visview
import QCBridge.Ring0.Viewport
import QCBridge.Spec.Visibility
import QCBridge.Ring0.Libraries
import QCBridge.Spec.LibsServed
import QCBridge.Spec.LibRequests
import QCBridge.Agent.AuSplitter
import QCBridge.Spec.Chunking
import QCBridge.Spec.AccessUnits
import QCBridge.Ring0.FrameRing
import QCBridge.Spec.FrameRing
import QCBridge.Ring1.RingLayout
import QCBridge.Ring0.Engine
import QCBridge.Spec.FrameGeometry
import QCBridge.ForStd.Each
import QCBridge.ForStd.Eventually
import QCBridge.Agent.Link
import QCBridge.Spec.LinkWriter
import QCBridge.Spec.Attachment
import QCBridge.Agent.ControlLane
import QCBridge.Spec.Unattended
import QCBridge.Spec.LinkTraffic
import QCBridge.Spec.HotValues
import QCBridge.Agent.Handshake
import QCBridge.Agent.HostLoop
import QCBridge.Spec.HostLoop
import QCBridge.Agent.SocketInfo
import QCBridge.Spec.SocketInfo
import QCBridge.Ring1.Requests
import QCBridge.Spec.Requests
import QCBridge.Agent.EncodeWin
import QCBridge.Spec.Emit
import QCBridge.Agent.Config
import QCBridge.ForStd.Hex
import QCBridge.Agent.Secrets
import QCBridge.Agent.Commands
import QCBridge.Spec.ApplyLive
import QCBridge.Spec.RoleSwitch
import QCBridge.Spec.Pins
import QCBridge.Spec.TokenKept
import QCBridge.Agent.Lifecycle
import QCBridge.Spec.BlenderFollows
import QCBridge.Spec.OwnClose
import QCBridge.ForStd.Chunks
import QCBridge.Agent.ConvertCpu
import QCBridge.Spec.ConvertCpu
import QCBridge.Spec.Probe
import QCBridge.Spec.Hello
import QCBridge.Agent.Phonebook
import QCBridge.Spec.Phonebook
import QCBridge.Agent.Mounts
import QCBridge.Spec.Mounts
import QCBridge.Spec.PatchedConfig
import QCBridge.ForStd.Packed
import QCBridge.Ring1.HotPacket
import QCBridge.Spec.HotPacket
import QCBridge.Ring0.Following
import QCBridge.Spec.Following
import QCBridge.Spec.ShotMode
