import Noeio.Common.Packet
import Noeio.Daemon.Peer

/-!
# The hole-punch session

`noeio/src/tunnel/session/udp.rs`. A `UdpTunnelSession` is four tasks that share three atomics,
two queues and the signal of an Ack:

* `send` takes the payloads of `out` to the socket;
* `dispatch` takes the datagrams of `recv`, one at a time;
* `handshake` sends the Seq up to five times, waits for the signal, and goes on as `ping`;
* `monitor` ends a connected session that has heard nothing for too long.

Each task is at a point of its program, and `act` takes it to the next: a step reads or writes
shared state at most once, so the tasks interleave in any way. A task that has to wait stays
where it is. The clock of the session is read in a step, and the reading is an argument.
-/

namespace Noeio

open BigEndian

def channelCapacity : Nat := 256

def handshakeMaxAttempts : Nat := 5

def livenessTimeout : Duration := 45 * 10 ^ 9

/-- No sample yet, no ping in flight. -/
def u64Unset : UInt64 := 0xFFFFFFFFFFFFFFFF

abbrev Datagram := List UInt8 × SocketAddr

/-- `as_millis() as u64`. -/
def Duration.asMillisU64 (d : Duration) : UInt64 := UInt64.ofNat d.asMillis

def controlPacket (packetType : NoeioPacketType) (peerId : PeerId) (value : UInt64) :
    NoeioPacket :=
  .new { PacketHeader.default with packetType, peerId } (toBe64 value)

def payloadU64 (packet : NoeioPacket) : Option UInt64 :=
  match packet.payload with
  | some (a :: b :: c :: d :: e :: f :: g :: h :: _) => some (ofBe64 a b c d e f g h)
  | _ => none

/-- The bytes are a control packet of that type with that value. -/
def Carries (packetType : NoeioPacketType) (value : UInt64) (bytes : List UInt8) : Prop :=
  ∃ packet, NoeioPacket.tryFrom bytes = some packet ∧ packet.packetType = packetType ∧
    payloadU64 packet = some value

theorem tryFrom_controlPacket (t : NoeioPacketType) (peerId : PeerId) (value : UInt64) :
    NoeioPacket.tryFrom (controlPacket t peerId value).inner =
      some (controlPacket t peerId value) := by
  simp only [NoeioPacket.tryFrom, controlPacket, NoeioPacket.new,
    PacketHeader.fromBytes_toBytes_append, Option.map_some]

@[simp] theorem payloadU64_controlPacket (t : NoeioPacketType) (peerId : PeerId)
    (value : UInt64) : payloadU64 (controlPacket t peerId value) = some value := by
  simp only [payloadU64, controlPacket, NoeioPacket.payload_new, toBe64, ofBe64_toBe64]

/-- A control packet carries its type and its value, and no other. -/
theorem carries_controlPacket {t t' : NoeioPacketType} {peerId : PeerId} {value value' : UInt64} :
    Carries t' value' (controlPacket t peerId value).inner ↔ t' = t ∧ value' = value := by
  unfold Carries
  rw [tryFrom_controlPacket]
  constructor
  · rintro ⟨packet, hpacket, htype, hvalue⟩
    obtain rfl := Option.some.inj hpacket
    rw [payloadU64_controlPacket] at hvalue
    exact ⟨htype.symm, (Option.some.inj hvalue).symm⟩
  · rintro ⟨rfl, rfl⟩
    exact ⟨_, rfl, rfl, payloadU64_controlPacket _ _ _⟩

theorem Carries.value_unique {t t' : NoeioPacketType} {v v' : UInt64} {bytes : List UInt8}
    (h : Carries t v bytes) (h' : Carries t' v' bytes) : v = v' := by
  obtain ⟨packet, hpacket, -, hvalue⟩ := h
  obtain ⟨packet', hpacket', -, hvalue'⟩ := h'
  obtain rfl := Option.some.inj (hpacket.symm.trans hpacket')
  exact Option.some.inj (hvalue.symm.trans hvalue')

/-! ## The tasks -/

namespace UdpTunnelSession

/-- `left` is the number of attempts that are left. -/
inductive Handshake where
  | attempt (left : Nat)
  | wait (left : Nat)
  /-- The signal is taken, the state not yet stored. -/
  | acked
  | sleep
  /-- The time of the ping is published, the ping not yet sent. -/
  | ping (now : UInt64)
  | done
  deriving DecidableEq

inductive Dispatch where
  | recv
  | stamp (datagram : Datagram)
  | handle (datagram : Datagram)
  /-- The datagram is answered with that payload. -/
  | reply (datagram : Datagram) (payload : List UInt8)
  /-- The pong echoes the last ping, sent at that time. -/
  | sample (sent : UInt64)
  | done
  deriving DecidableEq

inductive Monitor where
  | sleep
  /-- The session was found connected. -/
  | load
  | check (last : UInt64)
  | store
  | done
  deriving DecidableEq

end UdpTunnelSession

open UdpTunnelSession in
/-- `sending` is false once the send task is gone, `recvOpen` once no sender of the inbound
channel is left. -/
structure UdpTunnelSession where
  peerId : PeerId
  nonce : UInt64
  state : SessionState
  rttMs : UInt64
  lastRecv : UInt64
  lastPing : UInt64
  ackPending : Bool
  recv : List Datagram
  recvOpen : Bool
  out : List (List UInt8)
  sending : Bool
  handshake : Handshake
  dispatch : Dispatch
  monitor : Monitor
  deriving DecidableEq

namespace UdpTunnelSession

def connect (peerId : PeerId) (nonce : UInt64) : UdpTunnelSession :=
  { peerId, nonce, state := .connecting, rttMs := u64Unset, lastRecv := 0, lastPing := u64Unset,
    ackPending := false, recv := [], recvOpen := true, out := [], sending := true,
    handshake := .attempt handshakeMaxAttempts, dispatch := .recv, monitor := .sleep }

/-- `inbound_tx.send`: it fails once the dispatch task is gone and waits while the channel is
full. -/
inductive Queued where
  | sent (session : UdpTunnelSession)
  | closed
  | full

def queue (self : UdpTunnelSession) (datagram : Datagram) : Queued :=
  if self.dispatch = .done then .closed
  else if self.recv.length < channelCapacity then
    .sent { self with recv := self.recv ++ [datagram] }
  else .full

/-- `out_tx.send(payload).await` with what the task does once the payload is queued and what it
does when the send task is gone. While the channel is full the task waits. -/
def pushOut (self : UdpTunnelSession) (payload : List UInt8)
    (queued gone : UdpTunnelSession → UdpTunnelSession) : UdpTunnelSession :=
  if !self.sending then gone self
  else if self.out.length < channelCapacity then
    queued { self with out := self.out ++ [payload] }
  else self

/-- A step of `handshake`. -/
def handshakeStep (self : UdpTunnelSession) (now : Duration) : UdpTunnelSession :=
  match self.handshake with
  | .attempt 0 => { self with state := .timeout, handshake := .done }
  | .attempt (left + 1) =>
    self.pushOut (controlPacket .seq self.peerId self.nonce).inner
      ({ · with handshake := .wait left }) ({ · with handshake := .done })
  | .wait _ =>
    if self.ackPending then { self with ackPending := false, handshake := .acked }
    else if self.dispatch = .done then { self with handshake := .done }
    else self
  | .acked => { self with state := .connected, handshake := .sleep }
  | .sleep =>
    { self with lastPing := now.asMillisU64, handshake := .ping now.asMillisU64 }
  | .ping now =>
    self.pushOut (controlPacket .tunnelPing self.peerId now).inner
      ({ · with handshake := .sleep }) ({ · with handshake := .done })
  | .done => self

/-- The retry interval is over, whether or not an Ack has come in meanwhile. -/
def retry (self : UdpTunnelSession) : UdpTunnelSession :=
  match self.handshake with
  | .wait left => { self with handshake := .attempt left }
  | _ => self

/-- What `dispatch` makes of a datagram. -/
def handle (self : UdpTunnelSession) (datagram : Datagram) : UdpTunnelSession :=
  match NoeioPacket.tryFrom datagram.1 with
  | none => { self with dispatch := .recv }
  | some packet =>
    match packet.packetType with
    | .ack =>
      -- the signal of an Ack is dropped when one is pending or nobody waits any more
      if payloadU64 packet = some self.nonce ∧ self.handshake ≠ .done then
        { self with ackPending := true, dispatch := .recv }
      else { self with dispatch := .recv }
    | .seq =>
      match payloadU64 packet with
      | some peerNonce =>
        { self with dispatch := .reply datagram (controlPacket .ack self.peerId peerNonce).inner }
      | none => { self with dispatch := .recv }
    | .tunnelPing =>
      match payloadU64 packet with
      | some peerTs =>
        { self with
          dispatch := .reply datagram (controlPacket .tunnelPong self.peerId peerTs).inner }
      | none => { self with dispatch := .recv }
    | .tunnelPong =>
      if self.lastPing ≠ u64Unset ∧ payloadU64 packet = some self.lastPing then
        { self with dispatch := .sample self.lastPing }
      else { self with dispatch := .recv }
    | _ => { self with dispatch := .recv }

/-- A step of `dispatch`. -/
def dispatchStep (self : UdpTunnelSession) (now : Duration) : UdpTunnelSession :=
  match self.dispatch with
  | .recv =>
    match self.recv with
    | datagram :: recv => { self with recv, dispatch := .stamp datagram }
    | [] => if self.recvOpen then self else { self with dispatch := .done }
  | .stamp datagram => { self with lastRecv := now.asMillisU64, dispatch := .handle datagram }
  | .handle datagram => self.handle datagram
  | .reply _ payload =>
    self.pushOut payload ({ · with dispatch := .recv }) ({ · with dispatch := .recv })
  | .sample sent =>
    let now := now.asMillisU64
    { self with rttMs := if sent ≤ now then now - sent else 0, dispatch := .recv }
  | .done => self

/-- A step of `monitor`. -/
def monitorStep (self : UdpTunnelSession) (now : Duration) : UdpTunnelSession :=
  match self.monitor with
  | .sleep => if self.state ≠ .connected then self else { self with monitor := .load }
  | .load => { self with monitor := .check self.lastRecv }
  | .check last =>
    let silent := now - last.toNat * 10 ^ 6
    { self with monitor := if livenessTimeout ≤ silent then .store else .sleep }
  | .store => { self with state := .timeout, monitor := .sleep }
  | .done => self

/-- A step of `send`: the next payload is on the wire, or the socket refused it. -/
def sendStep (self : UdpTunnelSession) (ok : Bool) : UdpTunnelSession × Option (List UInt8) :=
  match self.sending, self.out with
  | true, payload :: out =>
    if ok then ({ self with out }, some payload)
    else ({ self with out := [], sending := false }, none)
  | _, _ => (self, none)

/-- The session is dropped, which aborts its tasks. -/
def abort (self : UdpTunnelSession) : UdpTunnelSession :=
  { self with
    recv := [], recvOpen := false, out := [], sending := false, ackPending := false
    handshake := .done, dispatch := .done, monitor := .done }

inductive Action where
  | handshake (now : Duration)
  | retry
  | dispatch (now : Duration)
  | monitor (now : Duration)
  | send (ok : Bool)
  /-- The last sender of the inbound channel is dropped. -/
  | close
  | abort

/-- The session after a step of one of its tasks, and what the step put on the wire. -/
def act (self : UdpTunnelSession) : Action → UdpTunnelSession × Option (List UInt8)
  | .handshake now => (self.handshakeStep now, none)
  | .retry => (self.retry, none)
  | .dispatch now => (self.dispatchStep now, none)
  | .monitor now => (self.monitorStep now, none)
  | .send ok => self.sendStep ok
  | .close => ({ self with recvOpen := false }, none)
  | .abort => (self.abort, none)

/-- `rtt`, in milliseconds. -/
def rtt (self : UdpTunnelSession) : Option UInt64 :=
  if self.rttMs = u64Unset then none else some self.rttMs

/-! ## What a step can do -/

/-- The steps of `handshake`. -/
inductive HandshakeEffect (s : UdpTunnelSession) : UdpTunnelSession → Prop
  | idle : HandshakeEffect s s
  | giveUp (h : s.handshake = .attempt 0) :
    HandshakeEffect s { s with state := .timeout, handshake := .done }
  | seq (left : Nat) (h : s.handshake = .attempt (left + 1)) :
    HandshakeEffect s { s with
      out := s.out ++ [(controlPacket .seq s.peerId s.nonce).inner], handshake := .wait left }
  | signalled (left : Nat) (h : s.handshake = .wait left) (hack : s.ackPending = true) :
    HandshakeEffect s { s with ackPending := false, handshake := .acked }
  | connected (h : s.handshake = .acked) :
    HandshakeEffect s { s with state := .connected, handshake := .sleep }
  | publish (ts : UInt64) (h : s.handshake = .sleep) :
    HandshakeEffect s { s with lastPing := ts, handshake := .ping ts }
  | ping (ts : UInt64) (h : s.handshake = .ping ts) :
    HandshakeEffect s { s with
      out := s.out ++ [(controlPacket .tunnelPing s.peerId ts).inner], handshake := .sleep }
  | stop : HandshakeEffect s { s with handshake := .done }

theorem handshakeStep_effect (s : UdpTunnelSession) (now : Duration) :
    s.HandshakeEffect (s.handshakeStep now) := by
  unfold handshakeStep pushOut
  split
  · exact .giveUp ‹_›
  · split
    · exact .stop
    split
    · exact .seq _ ‹_›
    · exact .idle
  · split
    · exact .signalled _ ‹_› ‹_›
    split
    · exact .stop
    · exact .idle
  · exact .connected ‹_›
  · exact .publish _ ‹_›
  · split
    · exact .stop
    split
    · exact .ping _ ‹_›
    · exact .idle
  · exact .idle

/-- The steps of `dispatch`. -/
inductive DispatchEffect (s : UdpTunnelSession) : UdpTunnelSession → Prop
  | idle : DispatchEffect s s
  | take (d : Datagram) (recv : List Datagram) (h : s.dispatch = .recv)
    (hrecv : s.recv = d :: recv) : DispatchEffect s { s with recv, dispatch := .stamp d }
  | stamp (d : Datagram) (ts : UInt64) (h : s.dispatch = .stamp d) :
    DispatchEffect s { s with lastRecv := ts, dispatch := .handle d }
  | ignore (d : Datagram) (h : s.dispatch = .handle d) :
    DispatchEffect s { s with dispatch := .recv }
  | ack (d : Datagram) (h : s.dispatch = .handle d) (hack : Carries .ack s.nonce d.1) :
    DispatchEffect s { s with ackPending := true, dispatch := .recv }
  | seq (d : Datagram) (n : UInt64) (h : s.dispatch = .handle d) (hseq : Carries .seq n d.1) :
    DispatchEffect s { s with dispatch := .reply d (controlPacket .ack s.peerId n).inner }
  | ping (d : Datagram) (ts : UInt64) (h : s.dispatch = .handle d)
    (hping : Carries .tunnelPing ts d.1) :
    DispatchEffect s { s with dispatch := .reply d (controlPacket .tunnelPong s.peerId ts).inner }
  | pong (d : Datagram) (h : s.dispatch = .handle d) (hunset : s.lastPing ≠ u64Unset)
    (hpong : Carries .tunnelPong s.lastPing d.1) :
    DispatchEffect s { s with dispatch := .sample s.lastPing }
  | queued (d : Datagram) (payload : List UInt8) (h : s.dispatch = .reply d payload) :
    DispatchEffect s { s with out := s.out ++ [payload], dispatch := .recv }
  | unsent (d : Datagram) (payload : List UInt8) (h : s.dispatch = .reply d payload) :
    DispatchEffect s { s with dispatch := .recv }
  | sample (sent now : UInt64) (h : s.dispatch = .sample sent) :
    DispatchEffect s { s with rttMs := if sent ≤ now then now - sent else 0, dispatch := .recv }
  | stop (h : s.dispatch = .recv) : DispatchEffect s { s with dispatch := .done }

theorem handle_effect {s : UdpTunnelSession} {d : Datagram} (h : s.dispatch = .handle d) :
    s.DispatchEffect (s.handle d) := by
  unfold handle
  split
  · exact .ignore d h
  rename_i packet hpacket
  split
  · rename_i htype
    split
    · rename_i hack
      exact .ack d h ⟨packet, hpacket, htype, hack.1⟩
    · exact .ignore d h
  · rename_i htype
    split
    · rename_i n hn
      exact .seq d n h ⟨packet, hpacket, htype, hn⟩
    · exact .ignore d h
  · rename_i htype
    split
    · rename_i ts hts
      exact .ping d ts h ⟨packet, hpacket, htype, hts⟩
    · exact .ignore d h
  · rename_i htype
    split
    · rename_i hpong
      exact .pong d h hpong.1 ⟨packet, hpacket, htype, hpong.2⟩
    · exact .ignore d h
  · exact .ignore d h

theorem dispatchStep_effect (s : UdpTunnelSession) (now : Duration) :
    s.DispatchEffect (s.dispatchStep now) := by
  unfold dispatchStep pushOut
  split
  · split
    · exact .take _ _ ‹_› ‹_›
    · split
      · exact .idle
      · exact .stop ‹_›
  · exact .stamp _ _ ‹_›
  · exact handle_effect ‹_›
  · split
    · exact .unsent _ _ ‹_›
    split
    · exact .queued _ _ ‹_›
    · exact .idle
  · exact .sample _ _ ‹_›
  · exact .idle

/-- The steps of `monitor`. -/
inductive MonitorEffect (s : UdpTunnelSession) : UdpTunnelSession → Prop
  | idle : MonitorEffect s s
  | found (h : s.state = .connected) : MonitorEffect s { s with monitor := .load }
  | load (h : s.monitor = .load) : MonitorEffect s { s with monitor := .check s.lastRecv }
  | silent (last : UInt64) (h : s.monitor = .check last) :
    MonitorEffect s { s with monitor := .store }
  | rest : MonitorEffect s { s with monitor := .sleep }
  | demote (h : s.monitor = .store) :
    MonitorEffect s { s with state := .timeout, monitor := .sleep }

theorem monitorStep_effect (s : UdpTunnelSession) (now : Duration) :
    s.MonitorEffect (s.monitorStep now) := by
  unfold monitorStep
  split
  · split
    · exact .idle
    · exact .found (Decidable.not_not.mp ‹_›)
  · exact .load ‹_›
  · dsimp only
    split
    · exact .silent _ ‹_›
    · exact .rest
  · exact .demote ‹_›
  · exact .idle

/-- The steps of `send`. -/
theorem sendStep_cases (s : UdpTunnelSession) (ok : Bool) :
    s.sendStep ok = (s, none) ∨ s.sendStep ok = ({ s with out := [], sending := false }, none) ∨
      ∃ payload out, s.out = payload :: out ∧ s.sendStep ok = ({ s with out }, some payload) := by
  unfold sendStep
  split
  · rename_i payload out hsending hout
    cases ok with
    | true => exact Or.inr (Or.inr ⟨payload, out, hout, rfl⟩)
    | false => exact Or.inr (Or.inl rfl)
  · exact Or.inl rfl

section
variable {s t : UdpTunnelSession}

theorem HandshakeEffect.identity (h : s.HandshakeEffect t) :
    t.nonce = s.nonce ∧ t.peerId = s.peerId := by
  cases h <;> exact ⟨rfl, rfl⟩

theorem DispatchEffect.identity (h : s.DispatchEffect t) :
    t.nonce = s.nonce ∧ t.peerId = s.peerId := by
  cases h <;> exact ⟨rfl, rfl⟩

theorem MonitorEffect.identity (h : s.MonitorEffect t) :
    t.nonce = s.nonce ∧ t.peerId = s.peerId := by
  cases h <;> exact ⟨rfl, rfl⟩

end

theorem retry_cases (s : UdpTunnelSession) :
    s.retry = s ∨ ∃ left, s.handshake = .wait left ∧
      s.retry = { s with handshake := .attempt left } := by
  unfold retry
  split
  · rename_i left h
    exact Or.inr ⟨left, h, rfl⟩
  · exact Or.inl rfl

/-- A session keeps its nonce and the id it signs with. -/
theorem identity_act (s : UdpTunnelSession) (a : Action) :
    (s.act a).1.nonce = s.nonce ∧ (s.act a).1.peerId = s.peerId := by
  cases a with
  | handshake now => exact (handshakeStep_effect s now).identity
  | dispatch now => exact (dispatchStep_effect s now).identity
  | monitor now => exact (monitorStep_effect s now).identity
  | send ok =>
    change (s.sendStep ok).1.nonce = s.nonce ∧ (s.sendStep ok).1.peerId = s.peerId
    rcases sendStep_cases s ok with h | h | ⟨_, _, _, h⟩ <;> rw [h] <;> exact ⟨rfl, rfl⟩
  | retry =>
    change s.retry.nonce = s.nonce ∧ s.retry.peerId = s.peerId
    rcases retry_cases s with h | ⟨_, _, h⟩ <;> rw [h] <;> exact ⟨rfl, rfl⟩
  | close | abort => exact ⟨rfl, rfl⟩

/-! ## The state only moves on -/

inductive Moves : SessionState → SessionState → Prop
  | stay (state : SessionState) : Moves state state
  | connect : Moves .connecting .connected
  | giveUp : Moves .connecting .timeout
  | goSilent : Moves .connected .timeout

def Handshake.Trying : Handshake → Prop
  | .attempt _ | .wait _ | .acked => True
  | .sleep | .ping _ | .done => False

def Monitor.Armed : Monitor → Prop
  | .load | .check _ | .store => True
  | .sleep | .done => False

/-- The handshake tries only while the session is connecting, and the monitor that is about to
end a session has found it connected. -/
structure Ordered (s : UdpTunnelSession) : Prop where
  trying : s.handshake.Trying → s.state = .connecting
  armed : s.monitor.Armed → s.state = .connected

section
variable {s t : UdpTunnelSession}

theorem ordered_connect (peerId : PeerId) (nonce : UInt64) : (connect peerId nonce).Ordered :=
  ⟨fun _ => rfl, fun h => h.elim⟩

theorem HandshakeEffect.ordered (h : s.HandshakeEffect t) (hs : s.Ordered) :
    t.Ordered ∧ Moves s.state t.state := by
  cases h with
  | idle => exact ⟨hs, .stay _⟩
  | giveUp h =>
    have hstate : s.state = .connecting := hs.trying (h ▸ trivial)
    refine ⟨⟨fun htrying => htrying.elim, fun harmed => ?_⟩, hstate ▸ .giveUp⟩
    cases hstate.symm.trans (hs.armed harmed)
  | seq left h => exact ⟨⟨fun _ => hs.trying (h ▸ trivial), hs.armed⟩, .stay _⟩
  | signalled left h => exact ⟨⟨fun _ => hs.trying (h ▸ trivial), hs.armed⟩, .stay _⟩
  | connected h =>
    have hstate : s.state = .connecting := hs.trying (h ▸ trivial)
    exact ⟨⟨fun htrying => htrying.elim, fun _ => rfl⟩, hstate ▸ .connect⟩
  | publish | ping | stop => exact ⟨⟨fun htrying => htrying.elim, hs.armed⟩, .stay _⟩

theorem MonitorEffect.ordered (h : s.MonitorEffect t) (hs : s.Ordered) :
    t.Ordered ∧ Moves s.state t.state := by
  cases h with
  | idle => exact ⟨hs, .stay _⟩
  | found h => exact ⟨⟨hs.trying, fun _ => h⟩, .stay _⟩
  | load h => exact ⟨⟨hs.trying, fun _ => hs.armed (h ▸ trivial)⟩, .stay _⟩
  | silent last h => exact ⟨⟨hs.trying, fun _ => hs.armed (h ▸ trivial)⟩, .stay _⟩
  | rest => exact ⟨⟨hs.trying, fun harmed => harmed.elim⟩, .stay _⟩
  | demote h =>
    have hstate : s.state = .connected := hs.armed (h ▸ trivial)
    refine ⟨⟨fun htrying => ?_, fun harmed => harmed.elim⟩, hstate ▸ .goSilent⟩
    cases hstate.symm.trans (hs.trying htrying)

theorem DispatchEffect.ordered (h : s.DispatchEffect t) (hs : s.Ordered) :
    t.Ordered ∧ Moves s.state t.state := by
  cases h <;> exact ⟨⟨hs.trying, hs.armed⟩, .stay _⟩

theorem Ordered.act (hs : s.Ordered) (a : Action) :
    (s.act a).1.Ordered ∧ Moves s.state (s.act a).1.state := by
  cases a with
  | handshake now => exact (handshakeStep_effect s now).ordered hs
  | dispatch now => exact (dispatchStep_effect s now).ordered hs
  | monitor now => exact (monitorStep_effect s now).ordered hs
  | send ok =>
    change (s.sendStep ok).1.Ordered ∧ Moves s.state (s.sendStep ok).1.state
    rcases sendStep_cases s ok with h | h | ⟨_, _, _, h⟩ <;> rw [h]
    · exact ⟨hs, .stay _⟩
    · exact ⟨⟨hs.trying, hs.armed⟩, .stay _⟩
    · exact ⟨⟨hs.trying, hs.armed⟩, .stay _⟩
  | retry =>
    change s.retry.Ordered ∧ Moves s.state s.retry.state
    rcases retry_cases s with h | ⟨left, hwait, h⟩ <;> rw [h]
    · exact ⟨hs, .stay _⟩
    · exact ⟨⟨fun _ => hs.trying (hwait ▸ trivial), hs.armed⟩, .stay _⟩
  | close => exact ⟨⟨hs.trying, hs.armed⟩, .stay _⟩
  | abort => exact ⟨⟨fun htrying => htrying.elim, fun harmed => harmed.elim⟩, .stay _⟩

/-! ## Only the Ack of its own Seq connects a session -/

/-- A step of the session from `s` to `t` handles the datagram and leaves the signal of an Ack
that was not there. -/
structure Signals (s t : UdpTunnelSession) (d : Datagram) : Prop where
  handled : s.dispatch = .handle d
  before : s.ackPending = false
  after : t.ackPending = true

/-- The signal is there or has been taken. -/
def Heard (s : UdpTunnelSession) : Prop :=
  s.ackPending = true ∨ s.handshake = .acked ∨ s.state = .connected

theorem not_heard_connect (peerId : PeerId) (nonce : UInt64) : ¬ (connect peerId nonce).Heard := by
  rintro (h | h | h) <;> cases h

theorem HandshakeEffect.heard (h : s.HandshakeEffect t) (ht : t.Heard) : s.Heard := by
  cases h with
  | idle => exact ht
  | signalled left hwait hack => exact Or.inl hack
  | connected hacked => exact Or.inr (Or.inl hacked)
  | giveUp | seq | publish | ping | stop =>
    rcases ht with ht | ht | ht
    · exact Or.inl ht
    · cases ht
    · first | cases ht | exact Or.inr (Or.inr ht)

theorem MonitorEffect.heard (h : s.MonitorEffect t) (ht : t.Heard) : s.Heard := by
  cases h with
  | demote =>
    rcases ht with ht | ht | ht
    · exact Or.inl ht
    · exact Or.inr (Or.inl ht)
    · cases ht
  | _ => exact ht

theorem DispatchEffect.heard (h : s.DispatchEffect t) (ht : t.Heard) :
    s.Heard ∨ ∃ d, s.Signals t d := by
  cases h with
  | ack d hd hack =>
    cases hs : s.ackPending with
    | true => exact Or.inl (Or.inl hs)
    | false => exact Or.inr ⟨d, hd, hs, rfl⟩
  | _ => exact Or.inl ht

theorem DispatchEffect.carries (h : s.DispatchEffect t) {d : Datagram} (hd : s.Signals t d) :
    Carries .ack s.nonce d.1 := by
  cases h with
  | ack d' hd' hack =>
    cases hd.handled.symm.trans hd'
    exact hack
  | _ => exact absurd (hd.before.symm.trans hd.after) Bool.false_ne_true

/-- A session that hears an Ack has been signalled by this step, or had heard one before. -/
theorem heard_act {a : Action} (h : (s.act a).1.Heard) :
    s.Heard ∨ ∃ d, s.Signals (s.act a).1 d := by
  cases a with
  | handshake now => exact Or.inl ((handshakeStep_effect s now).heard h)
  | monitor now => exact Or.inl ((monitorStep_effect s now).heard h)
  | dispatch now => exact (dispatchStep_effect s now).heard h
  | send ok =>
    left
    change (s.sendStep ok).1.Heard at h
    rcases sendStep_cases s ok with hs | hs | ⟨_, _, _, hs⟩ <;>
      · rw [hs] at h
        exact h
  | retry =>
    left
    change s.retry.Heard at h
    rcases retry_cases s with hs | ⟨_, _, hs⟩ <;> rw [hs] at h
    · exact h
    · rcases h with h | h | h
      · exact Or.inl h
      · cases h
      · exact Or.inr (Or.inr h)
  | close => exact Or.inl h
  | abort =>
    rcases h with h | h | h
    · cases h
    · cases h
    · exact Or.inl (Or.inr (Or.inr h))

theorem HandshakeEffect.ackPending (h : s.HandshakeEffect t) (hs : s.ackPending = false) :
    t.ackPending = false := by
  cases h with
  | signalled => rfl
  | _ => exact hs

theorem MonitorEffect.ackPending (h : s.MonitorEffect t) (hs : s.ackPending = false) :
    t.ackPending = false := by
  cases h <;> exact hs

/-- Only `dispatch` signals an Ack. -/
theorem ackPending_act {a : Action} (hs : s.ackPending = false)
    (h : (s.act a).1.ackPending = true) : s.DispatchEffect (s.act a).1 := by
  have hsame : (s.act a).1.ackPending ≠ false := by simp [h]
  cases a with
  | dispatch now => exact dispatchStep_effect s now
  | handshake now => exact absurd ((handshakeStep_effect s now).ackPending hs) hsame
  | monitor now => exact absurd ((monitorStep_effect s now).ackPending hs) hsame
  | send ok =>
    refine absurd ?_ hsame
    change (s.sendStep ok).1.ackPending = false
    rcases sendStep_cases s ok with h | h | ⟨_, _, _, h⟩ <;> rw [h] <;> exact hs
  | retry =>
    refine absurd ?_ hsame
    change s.retry.ackPending = false
    rcases retry_cases s with h | ⟨_, _, h⟩ <;> rw [h] <;> exact hs
  | close => exact absurd hs hsame
  | abort => exact absurd rfl hsame

/-- Whichever step signals an Ack, it has handled an Ack that echoes the nonce of the session. -/
theorem carries_of_signals {a : Action} {d : Datagram} (h : s.Signals (s.act a).1 d) :
    Carries .ack s.nonce d.1 :=
  (ackPending_act h.before h.after).carries h

/-! ## Where datagrams and payloads come from -/

/-- The datagram has come in and is not yet done with. -/
def Holds (s : UdpTunnelSession) (d : Datagram) : Prop :=
  d ∈ s.recv ∨ s.dispatch = .stamp d ∨ s.dispatch = .handle d ∨
    ∃ payload, s.dispatch = .reply d payload

theorem not_holds_connect (peerId : PeerId) (nonce : UInt64) (d : Datagram) :
    ¬ (connect peerId nonce).Holds d := by
  rintro (h | h | h | ⟨_, h⟩) <;> cases h

theorem DispatchEffect.holds (h : s.DispatchEffect t) {d : Datagram} (ht : t.Holds d) :
    s.Holds d := by
  cases h with
  | idle => exact ht
  | take d' recv hd hrecv =>
    rcases ht with ht | ht | ht | ⟨_, ht⟩
    · exact Or.inl (hrecv ▸ List.mem_cons_of_mem d' ht)
    · cases ht
      exact Or.inl (hrecv ▸ List.mem_cons_self)
    · cases ht
    · cases ht
  | stamp d' ts hd =>
    rcases ht with ht | ht | ht | ⟨_, ht⟩
    · exact Or.inl ht
    · cases ht
    · cases ht
      exact Or.inr (Or.inl hd)
    · cases ht
  | seq d' n hd | ping d' n hd =>
    rcases ht with ht | ht | ht | ⟨_, ht⟩
    · exact Or.inl ht
    · cases ht
    · cases ht
    · cases ht
      exact Or.inr (Or.inr (Or.inl hd))
  | ignore | ack | pong | queued | unsent | sample | stop =>
    rcases ht with ht | ht | ht | ⟨_, ht⟩
    · exact Or.inl ht
    all_goals cases ht

theorem HandshakeEffect.holds (h : s.HandshakeEffect t) {d : Datagram} (ht : t.Holds d) :
    s.Holds d := by
  cases h <;> exact ht

theorem MonitorEffect.holds (h : s.MonitorEffect t) {d : Datagram} (ht : t.Holds d) :
    s.Holds d := by
  cases h <;> exact ht

/-- A step of the session takes in no datagram. -/
theorem holds_act {a : Action} {d : Datagram} (h : (s.act a).1.Holds d) : s.Holds d := by
  cases a with
  | handshake now => exact (handshakeStep_effect s now).holds h
  | dispatch now => exact (dispatchStep_effect s now).holds h
  | monitor now => exact (monitorStep_effect s now).holds h
  | send ok =>
    change (s.sendStep ok).1.Holds d at h
    rcases sendStep_cases s ok with hs | hs | ⟨_, _, _, hs⟩ <;>
      · rw [hs] at h
        exact h
  | retry =>
    change s.retry.Holds d at h
    rcases retry_cases s with hs | ⟨_, _, hs⟩ <;>
      · rw [hs] at h
        exact h
  | close => exact h
  | abort => rcases h with h | h | h | ⟨_, h⟩ <;> cases h

theorem DispatchEffect.recv (h : s.DispatchEffect t) : t.recv <:+ s.recv := by
  cases h with
  | take d recv hd hrecv =>
    rw [hrecv]
    exact List.suffix_cons d recv
  | _ => exact List.suffix_rfl

theorem HandshakeEffect.recv (h : s.HandshakeEffect t) : t.recv = s.recv := by
  cases h <;> rfl

theorem MonitorEffect.recv (h : s.MonitorEffect t) : t.recv = s.recv := by
  cases h <;> rfl

/-- What has come in is only taken out. -/
theorem recv_act (s : UdpTunnelSession) (a : Action) : (s.act a).1.recv <:+ s.recv := by
  cases a with
  | handshake now => exact (handshakeStep_effect s now).recv ▸ List.suffix_rfl
  | dispatch now => exact (dispatchStep_effect s now).recv
  | monitor now => exact (monitorStep_effect s now).recv ▸ List.suffix_rfl
  | send ok =>
    have hkept : (s.sendStep ok).1.recv = s.recv := by
      rcases sendStep_cases s ok with hs | hs | ⟨_, _, _, hs⟩ <;> rw [hs]
    show (s.sendStep ok).1.recv <:+ s.recv
    exact hkept ▸ List.suffix_rfl
  | retry =>
    have hkept : s.retry.recv = s.recv := by
      rcases retry_cases s with hs | ⟨_, _, hs⟩ <;> rw [hs]
    show s.retry.recv <:+ s.recv
    exact hkept ▸ List.suffix_rfl
  | close => exact List.suffix_rfl
  | abort => exact List.nil_suffix

/-- What is queued to a session is the only datagram that comes in. -/
theorem queue_eq_sent {d : Datagram} (h : s.queue d = .sent t) :
    t = { s with recv := s.recv ++ [d] } := by
  unfold queue at h
  split at h
  · cases h
  · split at h
    · cases h
      rfl
    · cases h

/-- A reply is the Ack of a Seq or the pong of a ping. -/
def Replying (s : UdpTunnelSession) : Prop :=
  ∀ d payload, s.dispatch = .reply d payload →
    (∃ n, Carries .seq n d.1 ∧ payload = (controlPacket .ack s.peerId n).inner) ∨
      ∃ ts, payload = (controlPacket .tunnelPong s.peerId ts).inner

/-- A step of the session from `s` to `t` queues the Ack that answers the datagram, a Seq with
that nonce. -/
structure Answers (s t : UdpTunnelSession) (d : Datagram) (n : UInt64) : Prop where
  seq : Carries .seq n d.1
  replying : s.dispatch = .reply d (controlPacket .ack s.peerId n).inner
  queued : t.out = s.out ++ [(controlPacket .ack s.peerId n).inner]

theorem replying_connect (peerId : PeerId) (nonce : UInt64) : (connect peerId nonce).Replying := by
  intro d payload h
  cases h

theorem DispatchEffect.replying (h : s.DispatchEffect t) (hs : s.Replying) : t.Replying := by
  intro d payload ht
  cases h with
  | idle => exact hs d payload ht
  | seq d' n hd hseq =>
    cases ht
    exact Or.inl ⟨n, hseq, rfl⟩
  | ping d' ts hd =>
    cases ht
    exact Or.inr ⟨ts, rfl⟩
  | _ => cases ht

theorem replying_of_eq (hdispatch : t.dispatch = s.dispatch) (hid : t.peerId = s.peerId)
    (hs : s.Replying) : t.Replying := by
  intro d payload ht
  rw [hid]
  exact hs d payload (hdispatch ▸ ht)

theorem HandshakeEffect.dispatch_eq (h : s.HandshakeEffect t) : t.dispatch = s.dispatch := by
  cases h <;> rfl

theorem MonitorEffect.dispatch_eq (h : s.MonitorEffect t) : t.dispatch = s.dispatch := by
  cases h <;> rfl

theorem Replying.act (hs : s.Replying) (a : Action) : (s.act a).1.Replying := by
  have hid := (identity_act s a).2
  cases a with
  | dispatch now => exact (dispatchStep_effect s now).replying hs
  | handshake now => exact replying_of_eq (handshakeStep_effect s now).dispatch_eq hid hs
  | monitor now => exact replying_of_eq (monitorStep_effect s now).dispatch_eq hid hs
  | send ok =>
    refine replying_of_eq ?_ hid hs
    change (s.sendStep ok).1.dispatch = s.dispatch
    rcases sendStep_cases s ok with h | h | ⟨_, _, _, h⟩ <;> rw [h]
  | retry =>
    refine replying_of_eq ?_ hid hs
    change s.retry.dispatch = s.dispatch
    rcases retry_cases s with h | ⟨_, _, h⟩ <;> rw [h]
  | close => exact hs
  | abort =>
    intro d payload h
    cases h

theorem HandshakeEffect.emitted (h : s.HandshakeEffect t) {b : List UInt8} {n : UInt64}
    (hb : b ∈ t.out) (hack : Carries .ack n b) : b ∈ s.out := by
  cases h with
  | seq | ping =>
    rcases List.mem_append.mp hb with hb | hb
    · exact hb
    · -- a Seq or a ping is no Ack
      obtain rfl := List.mem_singleton.mp hb
      cases (carries_controlPacket.mp hack).1
  | _ => exact hb

theorem DispatchEffect.emitted (h : s.DispatchEffect t) (hs : s.Replying) {b : List UInt8}
    {n : UInt64} (hb : b ∈ t.out) (hack : Carries .ack n b) :
    b ∈ s.out ∨ ∃ d, s.Answers t d n := by
  cases h with
  | queued d payload hd =>
    rcases List.mem_append.mp hb with hb | hb
    · exact Or.inl hb
    · obtain rfl := List.mem_singleton.mp hb
      rcases hs d b hd with ⟨n', hseq, rfl⟩ | ⟨ts, rfl⟩
      · obtain ⟨-, rfl⟩ := carries_controlPacket.mp hack
        exact Or.inr ⟨d, hseq, hd, rfl⟩
      · cases (carries_controlPacket.mp hack).1
  | _ => exact Or.inl hb

theorem MonitorEffect.out_eq (h : s.MonitorEffect t) : t.out = s.out := by
  cases h <;> rfl

/-- An Ack that leaves the session, or waits to, was waiting before or answers a Seq now. -/
theorem emitted_act {a : Action} (hs : s.Replying) {b : List UInt8} {n : UInt64}
    (hb : b ∈ (s.act a).1.out ∨ (s.act a).2 = some b) (hack : Carries .ack n b) :
    b ∈ s.out ∨ ∃ d, s.Answers (s.act a).1 d n := by
  cases a with
  | handshake now =>
    rcases hb with hb | hb
    · exact Or.inl ((handshakeStep_effect s now).emitted hb hack)
    · cases hb
  | dispatch now =>
    rcases hb with hb | hb
    · exact (dispatchStep_effect s now).emitted hs hb hack
    · cases hb
  | monitor now =>
    rcases hb with hb | hb
    · exact Or.inl ((monitorStep_effect s now).out_eq ▸ hb)
    · cases hb
  | send ok =>
    left
    change b ∈ (s.sendStep ok).1.out ∨ (s.sendStep ok).2 = some b at hb
    rcases sendStep_cases s ok with h | h | ⟨payload, out, hout, h⟩ <;> rw [h] at hb
    · rcases hb with hb | hb
      · exact hb
      · cases hb
    · rcases hb with hb | hb <;> cases hb
    · rw [hout]
      rcases hb with hb | hb
      · exact List.mem_cons_of_mem payload hb
      · cases hb
        exact List.mem_cons_self
  | retry =>
    left
    rcases hb with hb | hb
    · change b ∈ s.retry.out at hb
      rcases retry_cases s with h | ⟨_, _, h⟩ <;>
        · rw [h] at hb
          exact hb
    · cases hb
  | close =>
    rcases hb with hb | hb
    · exact Or.inl hb
    · cases hb
  | abort => rcases hb with hb | hb <;> cases hb

end

end UdpTunnelSession

end Noeio
