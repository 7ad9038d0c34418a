import P2PCC.Lib.ByteOrder
import P2PCC.Lib.Runs
import P2PCC.Lib.FirstMatch
import P2PCC.Packet
import P2PCC.ChunkFile
import P2PCC.Tracker
import P2PCC.Sender
import P2PCC.Manager
import P2PCC.HandlePacket
import P2PCC.Peer
import P2PCC.Lib.Slots
import P2PCC.Buffers
import P2PCC.ActiveChunks
import P2PCC.OutputFile
import P2PCC.Tracking
import P2PCC.Completion
import P2PCC.Permanence
import P2PCC.Whohas
import P2PCC.Window
import P2PCC.Timers
import P2PCC.Lib.Channel
import P2PCC.TwoPeers
import P2PCC.SingleTransfer
import P2PCC.Pending
import P2PCC.Successive
import P2PCC.SendingLaw
import P2PCC.Reassembly
import P2PCC.Owners
import P2PCC.TimerSlots
import P2PCC.Requests
import P2PCC.RoundTrip
import P2PCC.Isolation
import P2PCC.Lib.Settling
import P2PCC.Publishing
import P2PCC.Storing
import P2PCC.Idling
import P2PCC.Lossless
import P2PCC.Download
import P2PCC.Duplicates
import P2PCC.Congestion
import P2PCC.BufferBounds
import P2PCC.AckBounds
import P2PCC.GetRequests
import P2PCC.Backoff
import P2PCC.Unacked
import P2PCC.FailedRequests
import P2PCC.Regeneration
import P2PCC.Timeouts
import P2PCC.WhohasBounds
import P2PCC.InputBuffer
import P2PCC.Lib.Chains
import P2PCC.TrackerList
import P2PCC.HashText
import P2PCC.ChunkText
import P2PCC.Commands
import P2PCC.Digests
import P2PCC.MasterFile
import P2PCC.Datagrams
import P2PCC.ResponseList
import P2PCC.Lib.Distances
import P2PCC.PeerList
import P2PCC.Routed
