import MiniDiscord.Cluster.MessageIds
import MiniDiscord.Cluster.ReplicaAck
import MiniDiscord.Cluster.Uniqueness
import MiniDiscord.Cluster.Errors
import MiniDiscord.Cluster.AtMostOnce
import MiniDiscord.Cluster.Membership
import MiniDiscord.Cluster.NewChannels
import MiniDiscord.Cluster.Transparency
import MiniDiscord.Cluster.Placement
import MiniDiscord.Cluster.Registered
import MiniDiscord.Cluster.History
import MiniDiscord.Cluster.SelfForward
import MiniDiscord.Wire.Codec
import MiniDiscord.Wire.Framing
import MiniDiscord.Wire.Handshake
import MiniDiscord.Peer.Waiters
import MiniDiscord.Peer.Correlation
import MiniDiscord.Peer.Deadlock
import MiniDiscord.Peer.Heartbeat
import MiniDiscord.Middleware.Connections
import MiniDiscord.Middleware.Startup
import MiniDiscord.Middleware.Unsteady
import MiniDiscord.Middleware.Links
import MiniDiscord.Middleware.Election
import MiniDiscord.Pa1.Membership
import MiniDiscord.Pa1.MessageLog
import MiniDiscord.Pa1.Reference
import MiniDiscord.Pa1.Cleanup
import MiniDiscord.Pa1.Chunking
import MiniDiscord.Pa1.Client
import MiniDiscord.Pa1.Grammar
import MiniDiscord.Pa1.LeavingAll
import MiniDiscord.Pa1.Service
import MiniDiscord.Cluster.Failover
import MiniDiscord.Cluster.Http
import MiniDiscord.Cluster.Joined
import MiniDiscord.Cluster.Termination
