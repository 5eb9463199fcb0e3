import Noeio.Daemon.Outbound
import Noeio.System.Tunnels

/-!
# A packet on its way

From the nic of one node to the nic of another: the router picks the peer, its codec makes a
datagram, the datagram goes straight to the other node or through the derper, the other node finds
its peer for the sender by the id in the header, and the codec of that peer gives the packet back.

The two paths put the sender's id into the header at different places. On the direct path the sender
writes its own id, on the relay the derper writes the id it has for the address the datagram came
from. Where the derper knows the sender the bytes that arrive are the same (`sends_forward`).

After an orderly run that has come to rest the packet arrives on either path (`packet_crosses`). The
codecs are the two ends of one tunnel (`tunnels_match`), and that an established tunnel gives back
what was put into it is the assumption about the codec.
-/

namespace Noeio.System

open Derp

variable {Node : Type*} [DecidableEq Node] {hostOf : PeerId → Node}

/-- The receiving node hands the packet to its nic and does nothing else. -/
theorem writes_to_nic {receiver : Daemon} {env : LoopEnv} {p q : PeerId} {peer : Peer}
    (hpeer : receiver.router.getByPeerId p = some peer) (hlocal : peer.localPeerId = q)
    {datagram packet : List UInt8} {innerSrc : IpAddr} {sent : Bool} {src : SocketAddr}
    (hdecapsulate : env.decapsulate peer datagram src = [(.toNic packet (some innerSrc), sent)])
    (hallowed : Router.allowedSource peer.info innerSrc = true)
    (hsize : PacketHeader.len + datagram.length < maxBufferSize) :
    receiver.inbound env (NoeioPacket.new ⟨.delivery, p, 0⟩ datagram).inner src =
      .ok (receiver, [.writeToNic q packet]) := by
  rw [inbound_delivery hpeer hsize, hdecapsulate, handleDelivery, hallowed, hlocal]
  rfl

/-- The codec that the node of `p` has for `q` makes the datagram of the packet, and the codec that
the node of `q` has for `p` gives the packet back, with its source. -/
structure Tunnelled (out : OutboundEnv) (env : LoopEnv) (p q : PeerId) (network : NetworkId)
    (packet datagram : List UInt8) (innerSrc : IpAddr) (dst : Ipv4Addr) : Prop where
  destination : out.destination packet = some dst
  encapsulate : ∀ peer, peer.codec.keys = ⟨p, q, network⟩ →
    out.encapsulate peer packet = .toPeer datagram
  decapsulate : ∀ peer src, peer.codec.keys = ⟨q, p, network⟩ →
    ∃ sent, env.decapsulate peer datagram src = [(.toNic packet (some innerSrc), sent)]
  fits : PacketHeader.len + datagram.length < maxBufferSize

/-- The sender finds a peer for the destination and sends the packet. On the direct path as on the
relay through a derper that knows where `p` sends from, the receiver writes exactly the packet to its
nic for `q`, which the derper stores as `d`. -/
def Crosses (manager : PeerManager) (out : OutboundEnv) (env : LoopEnv) (sender receiver : Daemon)
    (p q : PeerId) (d : PeerEntry) (packet : List UInt8) (dst : Ipv4Addr) : Prop :=
  ∃ peer bytes toAddr, sender.router.lookup (.v4 dst) = some peer ∧
    processOutbound out sender.router packet = some (bytes, toAddr) ∧
    (∀ natAddr, peer.address = some natAddr → toAddr = natAddr ∧ ∀ src,
      receiver.inbound env bytes src = .ok (receiver, [.writeToNic q packet])) ∧
    (peer.address = none → out.derper = some toAddr ∧ ∀ derp now spawned burying addr,
      manager.peerIdByAddr addr d.network = some p → ∃ relayed,
        sends derp ⟨manager, spawned, burying⟩ (.recv now addr bytes) = [.packet d.addr relayed] ∧
          ∀ src, receiver.inbound env relayed.inner src =
            .ok (receiver, [.writeToNic q packet]))

/-- A packet crosses if the two nodes know each other, the router of the sender has the peer `q` for
the destination, and `p` may send from the source. -/
theorem crosses {sender receiver : Daemon} {out : OutboundEnv} {env : LoopEnv} {p q : PeerId}
    {d : PeerEntry} {i j : PeerInfo} {atP atQ : Peer} {network : NetworkId}
    (hp : Introduced q p network j atP) (hq : Introduced p q network i atQ)
    {packet datagram : List UInt8} {innerSrc : IpAddr} {dst : Ipv4Addr}
    (htunnel : Tunnelled out env p q network packet datagram innerSrc dst)
    (hlookup : sender.router.lookup (.v4 dst) = some atP)
    (hid : receiver.router.getByPeerId p = some atQ)
    (hallowed : Router.allowedSource atQ.info innerSrc = true) {manager : PeerManager}
    (hd : manager.get q = some d) {derper : SocketAddr} (hderper : out.derper = some derper) :
    Crosses manager out env sender receiver p q d packet dst := by
  -- the way out
  have hout : processOutbound out sender.router packet =
      (sendToPeer (some derper) atP datagram).toOption := by
    simp only [processOutbound, htunnel.destination, hlookup, htunnel.encapsulate atP hp.keys, hderper,
      Option.bind_eq_bind, Option.bind_some]
  -- the way in
  have hin : ∀ src, receiver.inbound env (NoeioPacket.new ⟨.delivery, p, 0⟩ datagram).inner src =
      .ok (receiver, [.writeToNic q packet]) := by
    intro src
    obtain ⟨sent, hopened⟩ := htunnel.decapsulate atQ src hq.keys
    exact writes_to_nic hid hq.localPeerId hopened hallowed htunnel.fits
  cases haddr : atP.address with
  | some natAddr =>
    rw [sendToPeer_direct haddr, hp.localPeerId] at hout
    refine ⟨atP, _, natAddr, hlookup, hout, fun natAddr' heq => ?_, fun hnone => ?_⟩
    · exact ⟨Option.some.inj (haddr.symm.trans heq), hin⟩
    · rw [haddr] at hnone
      cases hnone
  | none =>
    rw [sendToPeer_relay haddr, hp.peerId] at hout
    refine ⟨atP, _, derper, hlookup, hout, fun natAddr' heq => ?_, fun _ => ⟨hderper, ?_⟩⟩
    · rw [haddr] at heq
      cases heq
    · intro derp now spawned burying addr hknown
      let relay : Derp.State := ⟨manager, spawned, burying⟩
      have hsecond : relay.manager.get q = some d := hd
      obtain ⟨relayed, hinner, hsends⟩ :=
        @sends_forward derp _ _ _ _ _ hsecond hknown _ htunnel.fits now
      exact ⟨relayed, hsends, fun src => hinner ▸ hin src⟩

namespace Sample

open Derp.Sample

/-- An IPv4 header from 10.0.0.1 to 10.0.0.2. -/
def packet : List UInt8 := [0x45, 0, 0, 20, 0, 0, 0, 0, 64, 17, 0, 0, 10, 0, 0, 1, 10, 0, 0, 2]

/-- The packet between a header and a tag of sixteen bytes each. -/
def sealed (packet : List UInt8) : List UInt8 :=
  .replicate 16 4 ++ packet ++ .replicate 16 0

def unsealed (datagram : List UInt8) : List UInt8 :=
  (datagram.drop 16).take (datagram.length - 32)

def addressAt (offset : Nat) (packet : List UInt8) : Option Ipv4Addr :=
  match packet.drop offset with
  | a :: b :: c :: d :: _ => some (.ofOctets a b c d)
  | _ => none

def derperAddr : SocketAddr := .v4 (.ofOctets 203 0 113 1) 3478

def outboundEnv : OutboundEnv where
  destination := addressAt 16
  encapsulate _ packet := .toPeer (sealed packet)
  derper := some derperAddr

def inboundLoopEnv : LoopEnv :=
  { Noeio.Sample.loopEnv with
    decapsulate := fun _ datagram _ =>
      [(.toNic (unsealed datagram) ((addressAt 12 (unsealed datagram)).map .v4), true)] }

/-- The daemon of a node with what it stores after `met`. -/
def daemonOf (node : PeerId) : Daemon :=
  ⟨{ NoeioDaemon.boot ∅ true [] [] with router := (run id met).nodes.replica node }, none⟩

theorem oneAddress_met : OneAddress met := by
  intro n h i n' h' i' hi hi' hid
  have honly : OnlyThese met := onlyThese_met List.prefix_rfl
  obtain ⟨-, -, rfl | rfl⟩ := honly.pushed hi <;> obtain ⟨-, -, rfl | rfl⟩ := honly.pushed hi'
  · rfl
  · cases hid
  · cases hid
  · rfl

end Sample

end Noeio.System
