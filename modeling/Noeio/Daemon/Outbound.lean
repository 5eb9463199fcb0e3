import Noeio.Daemon.InboundLoop

/-!
# Outbound packets

`process_outbound` and `send_to_peer` of `noeio/src/daemon.rs`: an IPv4 packet that the nic reads
goes to the peer that the router has for its destination, through the codec of that peer. A datagram
for a peer leaves on the direct path, in a `Delivery` under our own id, while the selected session is
connected, else in a `Forward` that names the peer, to the current derper.

The checked parser of the IP packet and the codec are parameters. On macOS the loop first strips four
bytes from what it reads; here are the other systems.
-/

namespace Noeio

/-- What the body of the loop reads besides the router: the destination of a well-formed IPv4
packet, what the codec of a peer makes of a packet, and the address of the current derper. -/
structure OutboundEnv where
  destination : List UInt8 → Option Ipv4Addr
  encapsulate : Peer → List UInt8 → TunnOutput
  derper : Option SocketAddr

/-- The bytes that are sent, and where. -/
def sendToPeer (derper : Option SocketAddr) (peer : Peer) (datagram : List UInt8) :
    Except String (List UInt8 × SocketAddr) :=
  match peer.address with
  | some natAddr =>
    let header : PacketHeader := ⟨.delivery, peer.localPeerId, 0⟩
    .ok ((NoeioPacket.new header datagram).inner, natAddr)
  | none =>
    match derper with
    | none => .error "No server selected"
    | some derper =>
      let header : PacketHeader := ⟨.forward, peer.info.peerId, 0⟩
      .ok ((NoeioPacket.new header datagram).inner, derper)

def processOutbound (env : OutboundEnv) (router : Router) (packet : List UInt8) :
    Option (List UInt8 × SocketAddr) := do
  let dst ← env.destination packet
  let peer ← router.lookup (.v4 dst)
  match env.encapsulate peer packet with
  | .toPeer datagram => (sendToPeer env.derper peer datagram).toOption
  -- the codec keeps the packet until its handshake is done, or refuses it
  | .toNic _ _ | .consumed | .err _ => none

theorem sendToPeer_direct {peer : Peer} {natAddr : SocketAddr} (h : peer.address = some natAddr)
    (derper : Option SocketAddr) (datagram : List UInt8) :
    sendToPeer derper peer datagram =
      .ok ((NoeioPacket.new ⟨.delivery, peer.localPeerId, 0⟩ datagram).inner, natAddr) := by
  unfold sendToPeer
  rw [h]

theorem sendToPeer_relay {peer : Peer} (h : peer.address = none) (derper : SocketAddr)
    (datagram : List UInt8) :
    sendToPeer (some derper) peer datagram =
      .ok ((NoeioPacket.new ⟨.forward, peer.info.peerId, 0⟩ datagram).inner, derper) := by
  unfold sendToPeer
  rw [h]

/-- A `Delivery` that names a stored peer goes to the codec of that peer. -/
theorem inbound_delivery {d : Daemon} {x : PeerId} {peer : Peer}
    (hpeer : d.router.getByPeerId x = some peer) {datagram : List UInt8}
    (hsize : PacketHeader.len + datagram.length < maxBufferSize) (env : LoopEnv) (port : UInt16)
    (src : SocketAddr) :
    d.inbound env (NoeioPacket.new ⟨.delivery, x, port⟩ datagram).inner src =
      .ok (d, handleDelivery peer (env.decapsulate peer datagram src)) := by
  have hparse := NoeioPacket.parseHeader_new ⟨.delivery, x, port⟩ datagram
  have hpayload := NoeioPacket.payload_new ⟨.delivery, x, port⟩ datagram
  have hprocess : processInbound env.toInboundEnv d.router
      (NoeioPacket.new ⟨.delivery, x, port⟩ datagram).inner src = .delivery peer datagram src := by
    rw [processInbound, if_neg (by rw [NoeioPacket.length_new]; omega)]
    simp only [NoeioPacket.tryFrom_new, hparse, hpayload, hpeer]
  simp only [Daemon.inbound, hprocess]

end Noeio
