import Noeio.Common.Packet
import Noeio.Daemon.Router

/-!
# Inbound packets

The demultiplexer of `process_inbound` in `noeio/src/daemon.rs`: which datagrams a node
acts on and who gets them. A `Delivery` and the signalling packets (`Seq`, `Ack`,
`TunnelPing`, and the `TunnelPong`s no derper probe claims) name their sender by peer id, and
the router resolves the id. A `SyncRoute` is taken from the current derper only.

`deliver_resolves` ties the two modules together: in every state of the router, a packet
that names `x` is handed to a peer whose identity is `x`, or to nobody.
-/

namespace Noeio

def SocketAddr.ip : SocketAddr → IpAddr
  | .v4 ip _ => .v4 ip
  | .v6 ip _ _ _ => .v6 ip

/-- What the demultiplexer reads besides the router: the address of the current derper, the
addresses of all of them (the keys of `by_addr`), and the decoder of a broadcast
`PeerInfo`. -/
structure InboundEnv where
  derper : Option SocketAddr
  derpers : List SocketAddr
  peerInfo : List UInt8 → Except String PeerInfo

/-- What becomes of a datagram. -/
inductive Inbound where
  | dropped
  /-- Not a packet of ours; the STUN decoder is tried next. -/
  | foreign
  | delivery (peer : Peer) (payload : List UInt8) (src : SocketAddr)
  | signalling (peer : Peer) (datagram : List UInt8) (src : SocketAddr)
  | derperPong (src : SocketAddr) (echoTs : List UInt8)
  | syncRoute (peer : PeerInfo) (localPeerId : PeerId)

/-- `inbound` takes the peer `p` to be the sender of the datagram. -/
def Inbound.HandsTo (inbound : Inbound) (p : Peer) : Prop :=
  (∃ payload src, inbound = .delivery p payload src) ∨
    ∃ datagram src, inbound = .signalling p datagram src

def maxBufferSize : Nat := 2048

def tsLen : Nat := 8

def dispatchSignalling (router : Router) (header : PacketHeader) (datagram : List UInt8)
    (src : SocketAddr) : Inbound :=
  match router.getByPeerId header.peerId with
  | some peer => .signalling peer datagram src
  | none => .dropped

def processInbound (env : InboundEnv) (router : Router) (datagram : List UInt8)
    (src : SocketAddr) : Inbound :=
  -- a datagram that fills the buffer was likely truncated
  if maxBufferSize ≤ datagram.length then .dropped
  else
    match NoeioPacket.tryFrom datagram with
    | none => .foreign
    | some packet =>
      match packet.parseHeader with
      | none => .foreign
      | some header =>
        match header.packetType with
        | .ping | .forward | .report => .dropped
        | .delivery =>
          match packet.payload, router.getByPeerId header.peerId with
          | some payload, some peer => .delivery peer payload src
          | _, _ => .dropped
        | .syncRoute =>
          if env.derper.map (·.ip) ≠ some src.ip then .dropped
          else
            match packet.payload.map env.peerInfo with
            | some (.ok peer) => .syncRoute peer header.peerId
            | _ => .dropped
        | .seq | .ack | .tunnelPing => dispatchSignalling router header datagram src
        | .tunnelPong =>
          let echoTs := packet.payload.bind fun p =>
            if tsLen ≤ p.length then some (p.take tsLen) else none
          match echoTs with
          | some ts =>
            if src ∈ env.derpers then .derperPong src ts
            else if header.peerId ≠ 0 then dispatchSignalling router header datagram src
            else .dropped
          | none =>
            if header.peerId ≠ 0 then dispatchSignalling router header datagram src else .dropped

theorem getByPeerId_of_dispatchSignalling {r : Router} {header : PacketHeader}
    {datagram : List UInt8} {src : SocketAddr} {p : Peer}
    (h : (dispatchSignalling r header datagram src).HandsTo p) :
    r.getByPeerId header.peerId = some p := by
  unfold dispatchSignalling at h
  split at h
  · rename_i q hq
    rcases h with ⟨_, _, h⟩ | ⟨_, _, h⟩
    · cases h
    · cases h
      exact hq
  · rcases h with ⟨_, _, h⟩ | ⟨_, _, h⟩ <;> cases h

/-- Whoever is taken to be the sender of a datagram is what the router has for the id in
its header. -/
theorem getByPeerId_of_processInbound {env : InboundEnv} {r : Router} {datagram : List UInt8}
    {src : SocketAddr} {p : Peer} (h : (processInbound env r datagram src).HandsTo p) :
    ∃ header, PacketHeader.fromBytes datagram = some header ∧
      r.getByPeerId header.peerId = some p := by
  have dropped : ¬ Inbound.dropped.HandsTo p := by
    rintro (⟨_, _, h⟩ | ⟨_, _, h⟩) <;> cases h
  have foreign : ¬ Inbound.foreign.HandsTo p := by
    rintro (⟨_, _, h⟩ | ⟨_, _, h⟩) <;> cases h
  unfold processInbound at h
  split at h
  · exact absurd h dropped
  split at h
  · exact absurd h foreign
  rename_i packet hpacket
  obtain ⟨header, hheader, rfl⟩ := Option.map_eq_some_iff.mp hpacket
  refine ⟨header, hheader, ?_⟩
  have hparse : NoeioPacket.parseHeader ⟨datagram, header.packetType⟩ = some header := hheader
  rw [hparse] at h
  simp only at h
  split at h
  · exact absurd h dropped
  · exact absurd h dropped
  · exact absurd h dropped
  · split at h
    · rename_i payload q hpay hq
      rcases h with ⟨_, _, h⟩ | ⟨_, _, h⟩
      · cases h
        exact hq
      · cases h
    · exact absurd h dropped
  · split at h
    · exact absurd h dropped
    · split at h
      · rcases h with ⟨_, _, h⟩ | ⟨_, _, h⟩ <;> cases h
      · exact absurd h dropped
  · exact getByPeerId_of_dispatchSignalling h
  · exact getByPeerId_of_dispatchSignalling h
  · exact getByPeerId_of_dispatchSignalling h
  · split at h
    · split at h
      · rcases h with ⟨_, _, h⟩ | ⟨_, _, h⟩ <;> cases h
      · split at h
        · exact getByPeerId_of_dispatchSignalling h
        · exact absurd h dropped
    · split at h
      · exact getByPeerId_of_dispatchSignalling h
      · exact absurd h dropped

/-- The peer-id index never mis-resolves: after any sequence of operations, an id resolves
only to a peer that has this id now and is stored under its own address, and a packet is
handed only to a peer of the id it names. -/
theorem deliver_resolves (ops : List Router.Op) :
    (∀ x p, (Router.run ops).getByPeerId x = some p →
      p.info.peerId = x ∧ (Router.run ops).get p.info.noeioIp = some p) ∧
    ∀ env datagram src p, (processInbound env (Router.run ops) datagram src).HandsTo p →
      ∃ header, PacketHeader.fromBytes datagram = some header ∧ p.info.peerId = header.peerId := by
  have hrun := Router.wellIndexed_run ops
  refine ⟨fun x p hp => hrun.getByPeerId hp, ?_⟩
  intro env datagram src p hp
  obtain ⟨header, hheader, hget⟩ := getByPeerId_of_processInbound hp
  exact ⟨header, hheader, (hrun.getByPeerId hget).1⟩

/-- A peer of the id 1, and what it sends. -/
def Sample.peer : Peer :=
  .new ⟨5, 1, .v4 (.ofOctets 10 0 0 1), .replicate 16 1, .other, none, [], [], false⟩ 7

def Sample.datagram : List UInt8 := (NoeioPacket.new ⟨.delivery, 1, 0⟩ [8, 9]).inner

def Sample.inboundEnv : InboundEnv := ⟨none, [], fun _ => .error "no push"⟩

theorem Sample.deliver_resolves_peer :
    (Router.run [.insert peer]).get peer.info.noeioIp = some peer ∧
      ∃ header, PacketHeader.fromBytes datagram = some header ∧
        peer.info.peerId = header.peerId := by
  have hget : (Router.run [.insert peer]).getByPeerId 1 = some peer := by
    decide +kernel
  have hhands : (processInbound inboundEnv (Router.run [.insert peer]) datagram
      (.v4 (.ofOctets 192 0 2 1) 1000)).HandsTo peer :=
    Or.inl ⟨[8, 9], .v4 (.ofOctets 192 0 2 1) 1000, by rfl⟩
  exact ⟨((deliver_resolves [.insert peer]).1 1 peer hget).2,
    (deliver_resolves [.insert peer]).2 _ _ _ _ hhands⟩

end Noeio
