import Noeio.Lib.Ipv4Cidr

/-!
# Hosts and peers

The records of `noeio-common/src/host_info.rs`. A host reports itself as a `HostInfo`: one
resource version, its paths, and one `PeerInfo` for each network it joined. A `PeerInfo`
travels on as the payload of a `SyncRoute`.

Nothing is assumed of the contents. In particular `advertisedRoutes` may hold blocks with
host bits set and `withdrawn` may be set by anyone who can write a message.
-/

namespace Noeio

abbrev PeerId := UInt32

abbrev NetworkId := Vector UInt8 16

inductive IpAddr where
  | v4 (addr : Ipv4Addr)
  | v6 (addr : BitVec 128)
  deriving DecidableEq

inductive SocketAddr where
  | v4 (ip : Ipv4Addr) (port : UInt16)
  | v6 (ip : BitVec 128) (port : UInt16) (flowinfo : UInt32) (scopeId : UInt32)
  deriving DecidableEq

inductive NatType where
  | symmetric
  | other
  deriving DecidableEq

structure PeerInfo where
  resourceVersion : UInt64
  peerId : PeerId
  noeioIp : IpAddr
  networkId : NetworkId
  natType : NatType
  natAddr : Option SocketAddr
  localAddrs : List SocketAddr
  advertisedRoutes : List Ipv4Cidr
  withdrawn : Bool
  deriving DecidableEq

namespace PeerInfo

/-- A peer of our own. The parser of network ids belongs to the `uuid` crate; its error is the
text it displays. -/
def new (parseUuid : String → Except String NetworkId) (peerId : PeerId) (vip : IpAddr)
    (network : String) : Except String PeerInfo := do
  let networkId ← parseUuid network
  return ⟨0, peerId, vip, networkId, .other, none, [], [], false⟩

def withAdvertisedRoutes (self : PeerInfo) (routes : List Ipv4Cidr) : PeerInfo :=
  { self with advertisedRoutes := routes.map (·.network) }

def withWithdrawn (self : PeerInfo) (withdrawn : Bool) : PeerInfo := { self with withdrawn }

def withResourceVersion (self : PeerInfo) (resourceVersion : UInt64) : PeerInfo :=
  { self with resourceVersion }

def withNatType (self : PeerInfo) (natType : NatType) : PeerInfo := { self with natType }

def withNatAddr (self : PeerInfo) (natAddr : Option SocketAddr) : PeerInfo := { self with natAddr }

def withLocalAddrs (self : PeerInfo) (localAddrs : List SocketAddr) : PeerInfo :=
  { self with localAddrs }

end PeerInfo

structure HostInfo where
  resourceVersion : UInt64
  natAddr : SocketAddr
  natType : NatType
  hostname : String
  localAddrs : List SocketAddr
  peers : List PeerInfo
  deriving DecidableEq

/-- What a host knows of itself after its first STUN response, at the clock reading `now`. -/
def HostInfo.new (natAddr : SocketAddr) (hostname : String) (now : UInt64) : HostInfo :=
  ⟨now, natAddr, .other, hostname, [], []⟩

end Noeio
