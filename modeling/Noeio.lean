import Noeio.Lib.Runs
import Noeio.Lib.SetLog
import Noeio.Lib.TtlCache
import Noeio.Lib.Ipv4Cidr
import Noeio.Lib.BigEndian
import Noeio.Lib.IndexedStore
import Noeio.Lib.VersionedRegister
import Noeio.Lib.FirstMin
import Noeio.Lib.KeyedList
import Noeio.Lib.Mailboxes
import Noeio.Lib.Tasks
import Noeio.Lib.CidrText
import Noeio.Lib.SortedTable
import Noeio.Lib.Protobuf
import Noeio.Lib.SplitText
import Noeio.Lib.Fallible
import Noeio.Lib.LineText
import Noeio.Lib.IpText
import Noeio.Lib.NfTables
import Noeio.Lib.Checked
import Noeio.Lib.CoveringBlock
import Noeio.Lib.SipHash
import Noeio.Lib.TimeToLive
import Noeio.Common.HostInfo
import Noeio.Common.AddrText
import Noeio.Common.Packet
import Noeio.Common.Report
import Noeio.Common.ProtoHostInfo
import Noeio.Common.HostInfoText
import Noeio.Common.HostInfoWire
import Noeio.Common.Accepted
import Noeio.Derp.PeerManager
import Noeio.Derp.Token
import Noeio.Derp.TokenService
import Noeio.Derp.Connection
import Noeio.Derp.Relay
import Noeio.Derp.Isolation
import Noeio.Derp.Tombstone
import Noeio.Derp.Merging
import Noeio.Derp.Liveness
import Noeio.Derp.Recognition
import Noeio.Derp.Config
import Noeio.Daemon.Config
import Noeio.Daemon.Peer
import Noeio.Daemon.PathSelection
import Noeio.Daemon.Sessions
import Noeio.Daemon.Router
import Noeio.Daemon.Lookup
import Noeio.Daemon.Inbound
import Noeio.Daemon.Outbound
import Noeio.Daemon.Routes
import Noeio.Daemon.SyncRoute
import Noeio.Daemon.NoeioDaemon
import Noeio.Daemon.Derper
import Noeio.Daemon.Election
import Noeio.Daemon.Steering
import Noeio.Daemon.Withdrawal
import Noeio.Daemon.Failover
import Noeio.Daemon.NetRoute
import Noeio.Daemon.Reconciler
import Noeio.Daemon.Healing
import Noeio.Daemon.Ledger
import Noeio.Daemon.StateFile
import Noeio.Daemon.HostState
import Noeio.Daemon.Registration
import Noeio.Daemon.InboundLoop
import Noeio.Daemon.Provenance
import Noeio.Daemon.Versions
import Noeio.Daemon.RouteService
import Noeio.Daemon.Gate
import Noeio.Daemon.Requests
import Noeio.Daemon.Publication
import Noeio.Daemon.Nat
import Noeio.Daemon.Nftables
import Noeio.Daemon.NatTarget
import Noeio.Daemon.Masquerade
import Noeio.Daemon.Sweep
import Noeio.Daemon.Shutdown
import Noeio.Tunnel.UdpSession
import Noeio.Tunnel.RttSample
import Noeio.Tunnel.Traffic
import Noeio.Tunnel.WireGuard
import Noeio.System.Broadcast
import Noeio.System.Agreement
import Noeio.System.HolePunch
import Noeio.System.Tunnels
import Noeio.System.DataPlane
import Noeio.System.Wire
import Noeio.Daemon.RouteList
import Noeio.System.DirectPath
import Noeio.System.Reporting
import Noeio.System.Exits
