import Noeio.Daemon.HostState
import Noeio.Daemon.Inbound

/-!
# The body of the inbound loop

`process_inbound` of `noeio/src/daemon.rs`, one datagram at a time: what the demultiplexer
makes of it (`processInbound`) is carried out, and a datagram that is not a packet of ours is
tried as a STUN response. A panic ends the task that reads the socket, so the body returns
the new state or the panic.

The STUN decoder is a parameter: it may refuse the bytes, return a message with any
attributes, or return one that it found broken. The two `unwrap`s after it are the only calls
of the body that can panic. (The `unwrap`s of lock guards cannot: no code panics while it holds
one of these locks.) `inbound_ok_iff` says which datagrams reach them.
-/

namespace Noeio

/-! ## STUN messages -/

inductive StunAttribute where
  | mappedAddress (address : SocketAddr)
  | xorMappedAddress (address : SocketAddr)
  /-- Any other attribute. -/
  | other (type : UInt16)
  deriving DecidableEq

structure StunMessage where
  attributes : List StunAttribute
  deriving DecidableEq

/-- Refused bytes, or a message that may be broken, each with the error. -/
abbrev StunDecoder := List UInt8 → Except String (Except String StunMessage)

def parseMappedAddr (response : StunMessage) : Option SocketAddr :=
  response.attributes.findSome? fun attr =>
    match attr with
    | .mappedAddress address => some address
    | .xorMappedAddress address => some address
    | .other _ => none

/-! ## Deliveries -/

inductive TunnOutput where
  | toNic (plaintext : List UInt8) (innerSrc : Option IpAddr)
  | toPeer (reply : List UInt8)
  | consumed
  | err (reason : String)

/-- What the body does besides changing the state. -/
inductive InboundEffect where
  | writeToNic (nic : PeerId) (packet : List UInt8)
  | sendToPeer (peer : Peer) (datagram : List UInt8)
  /-- The counter of dropped packets of the peer goes up. -/
  | allowedIpsDrop (peerId : PeerId)
  | toSession (peer : Peer) (datagram : List UInt8) (src : SocketAddr)
  | onPong (src : SocketAddr) (echoTs : List UInt8)
  | notifyReconciler

/-- The loop of `handle_delivery` over what the codec returns, call after call, and whether the
reply could be sent. A codec that has no more to say has consumed its input. -/
def handleDelivery (peer : Peer) : List (TunnOutput × Bool) → List InboundEffect
  | [] => []
  | (.toNic plaintext innerSrc, _) :: _ =>
    match innerSrc with
    | some ip =>
      if !Router.allowedSource peer.info ip then [.allowedIpsDrop peer.info.peerId]
      else [.writeToNic peer.localPeerId plaintext]
    | none => [.writeToNic peer.localPeerId plaintext]
  | (.toPeer reply, sent) :: rest =>
    .sendToPeer peer reply :: if sent then handleDelivery peer rest else []
  | (.consumed, _) :: _ => []
  | (.err _, _) :: _ => []

/-! ## The body -/

/-- The `unwrap` that failed. -/
inductive Panic where
  | brokenMessage (err : String)
  | noMappedAddress
  deriving DecidableEq

/-- What the body reads besides the daemon: the derpers and the decoder of pushes, the STUN
decoder, what the codec of a peer makes of a datagram, and the host name and the clock. -/
structure LoopEnv extends InboundEnv where
  decodeStun : StunDecoder
  decapsulate : Peer → List UInt8 → SocketAddr → List (TunnOutput × Bool)
  hostname : String
  now : UInt64

namespace Daemon

/-- The part of the body for datagrams that are not ours. -/
def handleStun (self : Daemon) (env : LoopEnv) (datagram : List UInt8) :
    Except Panic (Daemon × List InboundEffect) :=
  match env.decodeStun datagram with
  -- an unsupported packet
  | .error _ => .ok (self, [])
  | .ok (.error err) => .error (.brokenMessage err)
  | .ok (.ok response) =>
    match parseMappedAddr response with
    | none => .error .noMappedAddress
    | some addr => .ok (self.stunResponse ⟨addr, env.hostname, env.now⟩, [])

def inbound (self : Daemon) (env : LoopEnv) (datagram : List UInt8) (src : SocketAddr) :
    Except Panic (Daemon × List InboundEffect) :=
  match processInbound env.toInboundEnv self.router datagram src with
  | .dropped => .ok (self, [])
  | .delivery peer payload src =>
    .ok (self, handleDelivery peer (env.decapsulate peer payload src))
  | .signalling peer datagram src => .ok (self, [.toSession peer datagram src])
  | .derperPong src echoTs => .ok (self, [.onPong src echoTs])
  | .syncRoute peer localPeerId =>
    let (daemon, changed) := self.toNoeioDaemon.applySyncRoute peer localPeerId
    .ok ({ self with toNoeioDaemon := daemon }, if changed then [.notifyReconciler] else [])
  | .foreign => self.handleStun env datagram

end Daemon

/-! ## When it panics -/

/-- Neither `unwrap` fails on the datagram: if it is tried as a STUN response at all and the
decoder takes it, it is a whole message with a mapped address. -/
def Survivable (decodeStun : StunDecoder) (datagram : List UInt8) : Prop :=
  datagram.length < maxBufferSize → PacketHeader.fromBytes datagram = none →
    ∀ decoded, decodeStun datagram = .ok decoded → ∃ response address, decoded = .ok response ∧
      (.mappedAddress address ∈ response.attributes ∨
        .xorMappedAddress address ∈ response.attributes)

theorem parseMappedAddr_isSome {response : StunMessage} :
    (parseMappedAddr response).isSome = true ↔ ∃ address,
      .mappedAddress address ∈ response.attributes ∨
        .xorMappedAddress address ∈ response.attributes := by
  simp only [parseMappedAddr, List.isSome_findSome?, List.any_eq_true]
  constructor
  · rintro ⟨attr, hmem, hattr⟩
    cases attr with
    | mappedAddress address => exact ⟨address, Or.inl hmem⟩
    | xorMappedAddress address => exact ⟨address, Or.inr hmem⟩
    | other type => cases hattr
  · rintro ⟨address, hmem | hmem⟩
    · exact ⟨_, hmem, rfl⟩
    · exact ⟨_, hmem, rfl⟩

/-- The datagrams that are tried as STUN responses. -/
theorem processInbound_eq_foreign {env : InboundEnv} {r : Router} {datagram : List UInt8}
    {src : SocketAddr} :
    processInbound env r datagram src = .foreign ↔
      datagram.length < maxBufferSize ∧ PacketHeader.fromBytes datagram = none := by
  have hdispatch : ∀ header, dispatchSignalling r header datagram src ≠ .foreign := by
    intro header
    unfold dispatchSignalling
    split <;> simp
  unfold processInbound
  by_cases hlen : maxBufferSize ≤ datagram.length
  · simp [hlen]
  · rw [if_neg hlen]
    cases hh : PacketHeader.fromBytes datagram with
    | none => simp [NoeioPacket.tryFrom, hh, Nat.not_le.mp hlen]
    | some header =>
      simp only [NoeioPacket.tryFrom, hh, Option.map_some, NoeioPacket.parseHeader]
      simp only [reduceCtorEq, and_false, iff_false]
      intro hforeign
      -- no packet of ours ends there
      split at hforeign
      · cases hforeign
      · cases hforeign
      · cases hforeign
      · split at hforeign <;> cases hforeign
      · split at hforeign
        · cases hforeign
        · split at hforeign <;> cases hforeign
      · exact hdispatch header hforeign
      · exact hdispatch header hforeign
      · exact hdispatch header hforeign
      · split at hforeign
        · split at hforeign
          · cases hforeign
          · split at hforeign
            · exact hdispatch header hforeign
            · cases hforeign
        · split at hforeign
          · exact hdispatch header hforeign
          · cases hforeign

theorem handleStun_ok_iff {d : Daemon} {env : LoopEnv} {datagram : List UInt8} :
    (∃ result, d.handleStun env datagram = .ok result) ↔
      ∀ decoded, env.decodeStun datagram = .ok decoded → ∃ response address,
        decoded = .ok response ∧ (.mappedAddress address ∈ response.attributes ∨
          .xorMappedAddress address ∈ response.attributes) := by
  unfold Daemon.handleStun
  cases env.decodeStun datagram with
  | error err => simp
  | ok decoded =>
    cases decoded with
    | error err => simp
    | ok response =>
      simp only [Except.ok.injEq, forall_eq', exists_and_left, exists_eq_left',
        ← parseMappedAddr_isSome]
      cases parseMappedAddr response with
      | none => simp
      | some address => simp

/-- For every state, every datagram and every source, the body handles the datagram and the
loop goes on if and only if the datagram does not reach an `unwrap` that fails: it fills the
buffer, or is a packet of ours, or is refused by the STUN decoder, or is a whole STUN message
with a mapped address. -/
theorem inbound_ok_iff (d : Daemon) (env : LoopEnv) (datagram : List UInt8) (src : SocketAddr) :
    (∃ result, d.inbound env datagram src = .ok result) ↔
      Survivable env.decodeStun datagram := by
  unfold Survivable
  by_cases hforeign : processInbound env.toInboundEnv d.router datagram src = .foreign
  · obtain ⟨hlen, hheader⟩ := processInbound_eq_foreign.mp hforeign
    simp only [Daemon.inbound, hforeign, handleStun_ok_iff, hlen, hheader, forall_const]
  · have hother : datagram.length < maxBufferSize → PacketHeader.fromBytes datagram ≠ none :=
      fun hlen hheader => hforeign (processInbound_eq_foreign.mpr ⟨hlen, hheader⟩)
    constructor
    · intro _ hlen hheader
      exact absurd hheader (hother hlen)
    · intro _
      unfold Daemon.inbound
      split
      · exact ⟨_, rfl⟩
      · exact ⟨_, rfl⟩
      · exact ⟨_, rfl⟩
      · exact ⟨_, rfl⟩
      · exact ⟨_, rfl⟩
      · rename_i heq
        exact absurd heq hforeign

namespace Sample

/-- A STUN binding response that consists of its header. -/
def bareResponse : List UInt8 :=
  [0x01, 0x01, 0x00, 0x00, 0x21, 0x12, 0xa4, 0x42, 1, 2, 3, 4, 5, 6, 7, 8, 9, 10, 11, 12]

/-- A decoder that finds a message without attributes there. -/
def loopEnv : LoopEnv :=
  { inboundEnv with
    decodeStun := fun bytes => if bytes = bareResponse then .ok (.ok ⟨[]⟩) else .error "refused"
    decapsulate := fun _ _ _ => []
    hostname := "host"
    now := 10 }

/-- One datagram of twenty bytes from anywhere ends the reader. -/
theorem bareResponse_panics :
    Daemon.inbound ⟨.boot ∅ true [] [], none⟩ loopEnv bareResponse
      (.v4 (.ofOctets 203 0 113 9) 4000) = .error .noMappedAddress := by
  rfl

end Sample

end Noeio
