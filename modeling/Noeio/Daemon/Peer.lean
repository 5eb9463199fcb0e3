import Noeio.Common.HostInfo

/-!
# A peer as a node sees it

`noeio/src/daemon/peer.rs`. A `Peer` is the last `PeerInfo` heard of it, our own id in its
network, one session for each candidate address, the session that carries the traffic, and
the codec of the tunnel.

Sessions and codecs are objects with a life of their own: to replace one by another of the
same contents aborts a handshake or resets a WireGuard session. So each carries a `serial`,
drawn from the counter `created` of its peer when it is made, and two of them are the same
object exactly when their serials agree. The keys of a codec are a function of the two ids
and the network (`derive_tunnel_keys`), so a codec records these three.
-/

namespace Noeio

inductive SessionState where
  | connecting
  | connected
  | timeout
  deriving DecidableEq

/-- Nanoseconds. -/
abbrev Duration := Nat

def Duration.max : Duration := (2 ^ 64 - 1) * 10 ^ 9 + 999999999

def Duration.asMillis (d : Duration) : Nat := d / 10 ^ 6

/-- One direct path to a peer. `localPeerId` is the id its packets are stamped with. -/
structure PeerSession where
  addr : SocketAddr
  localPeerId : PeerId
  state : SessionState
  rtt : Option Duration
  serial : Nat
  deriving DecidableEq

/-- What the keys of a tunnel are derived from. -/
structure TunnelKeys where
  localPeerId : PeerId
  peerId : PeerId
  networkId : NetworkId
  deriving DecidableEq

def deriveTunnelKeys (localPeerId peerId : PeerId) (networkId : NetworkId) : TunnelKeys :=
  ⟨localPeerId, peerId, networkId⟩

structure Codec where
  keys : TunnelKeys
  serial : Nat
  deriving DecidableEq

def buildCodec (info : PeerInfo) (localPeerId : PeerId) (serial : Nat) : Codec :=
  ⟨deriveTunnelKeys localPeerId info.peerId info.networkId, serial⟩

structure Peer where
  info : PeerInfo
  localPeerId : PeerId
  sessions : List PeerSession
  selected : Option SocketAddr
  codec : Codec
  created : Nat
  deriving DecidableEq

namespace Peer

/-! ## Sessions -/

/-- The reported LAN addresses and, unless it is behind a symmetric NAT, the address its STUN
server saw, each once. -/
def candidateAddrs (self : Peer) : List SocketAddr :=
  let natAddr := if self.info.natType ≠ .symmetric then self.info.natAddr else none
  (self.info.localAddrs ++ natAddr.toList).foldl (fun candidates addr =>
    if addr ∈ candidates then candidates else candidates ++ [addr]) []

/-- `*slot = entry` for the first session to that address, else `push`. -/
def putSession (entry : PeerSession) : List PeerSession → List PeerSession
  | [] => [entry]
  | s :: sessions => if s.addr = entry.addr then entry :: sessions else s :: putSession entry sessions

def openSession (self : Peer) (addr : SocketAddr) : Peer :=
  let entry : PeerSession :=
    { addr, localPeerId := self.localPeerId, state := .connecting, rtt := none,
      serial := self.created }
  { self with sessions := putSession entry self.sessions, created := self.created + 1 }

def tryCreateTunnel (self : Peer) (force : Bool) : Peer :=
  let candidates := self.candidateAddrs
  let self := { self with sessions := self.sessions.filter (·.addr ∈ candidates) }
  candidates.foldl (fun self addr =>
    let usable := !force && self.sessions.any fun s => s.addr = addr ∧ s.state ≠ .timeout
    if usable then self else self.openSession addr) self

def rttSwitchImprovementPercent : Nat := 20

/-- The first pair with the lowest round-trip time, unmeasured ones last. -/
def minByRtt : List (SocketAddr × Option Duration) → Option (SocketAddr × Option Duration)
  | [] => none
  | s :: sessions => some (sessions.foldl (fun best s =>
      if s.2.getD Duration.max < best.2.getD Duration.max then s else best) s)

def selectSession (self : Peer) : Peer :=
  let connected := (self.sessions.filter (·.state = .connected)).map fun s => (s.addr, s.rtt)
  let current := self.selected.bind fun addr => connected.find? (·.1 = addr)
  let next := match current, minByRtt connected with
    | _, none => none
    | none, some (addr, _) => some addr
    | some (curAddr, curRtt), some (bestAddr, bestRtt) =>
      let improved : Bool := match curRtt, bestRtt with
        | some cur, some best =>
          decide (best.asMillis * 100 < cur.asMillis * (100 - rttSwitchImprovementPercent))
        | none, some _ => true
        | _, none => false
      if bestAddr ≠ curAddr ∧ improved then some bestAddr else some curAddr
  { self with selected := next }

def address (self : Peer) : Option SocketAddr := do
  let selected ← self.selected
  let entry ← self.sessions.find? (·.addr = selected)
  if entry.state = .connected then some selected else none

/-! ## Identity -/

def new (info : PeerInfo) (localPeerId : PeerId) : Peer :=
  tryCreateTunnel
    { info, localPeerId, sessions := [], selected := none, codec := buildCodec info localPeerId 0,
      created := 1 } false

def updateInfo (self : Peer) (info : PeerInfo) (localPeerId : PeerId) : Peer :=
  let identityChanged :=
    self.info.networkId ≠ info.networkId ∨ self.info.natType ≠ info.natType
  let keysChanged := self.info.networkId ≠ info.networkId ∨ self.info.peerId ≠ info.peerId ∨
    self.localPeerId ≠ localPeerId
  let self := { self with info, localPeerId }
  let self :=
    if keysChanged then
      { self with codec := buildCodec info localPeerId self.created, created := self.created + 1 }
    else self
  self.tryCreateTunnel identityChanged

/-! Opening sessions leaves the identity and the codec alone. -/

theorem tryCreateTunnel_spec (p : Peer) (force : Bool) :
    (p.tryCreateTunnel force).info = p.info ∧
      (p.tryCreateTunnel force).localPeerId = p.localPeerId ∧
      (p.tryCreateTunnel force).codec = p.codec := by
  unfold tryCreateTunnel
  generalize p.candidateAddrs = candidates
  have hfold : ∀ (addrs : List SocketAddr) (q : Peer),
      let r := addrs.foldl (fun (self : Peer) addr =>
        let usable := !force && self.sessions.any fun s => s.addr = addr ∧ s.state ≠ .timeout
        if usable then self else self.openSession addr) q
      r.info = q.info ∧ r.localPeerId = q.localPeerId ∧ r.codec = q.codec := by
    intro addrs
    induction addrs with
    | nil =>
      intro q
      exact ⟨rfl, rfl, rfl⟩
    | cons addr addrs ih =>
      intro q
      simp only [List.foldl_cons]
      split
      · exact ih q
      · exact ih (q.openSession addr)
  exact hfold candidates _

@[simp] theorem info_tryCreateTunnel (p : Peer) (force : Bool) :
    (p.tryCreateTunnel force).info = p.info :=
  (tryCreateTunnel_spec p force).1

@[simp] theorem localPeerId_tryCreateTunnel (p : Peer) (force : Bool) :
    (p.tryCreateTunnel force).localPeerId = p.localPeerId :=
  (tryCreateTunnel_spec p force).2.1

@[simp] theorem codec_tryCreateTunnel (p : Peer) (force : Bool) :
    (p.tryCreateTunnel force).codec = p.codec :=
  (tryCreateTunnel_spec p force).2.2

@[simp] theorem info_new (info : PeerInfo) (localPeerId : PeerId) :
    (new info localPeerId).info = info := by
  simp [new]

@[simp] theorem localPeerId_new (info : PeerInfo) (localPeerId : PeerId) :
    (new info localPeerId).localPeerId = localPeerId := by
  simp [new]

@[simp] theorem info_updateInfo (p : Peer) (info : PeerInfo) (localPeerId : PeerId) :
    (p.updateInfo info localPeerId).info = info := by
  unfold updateInfo
  rw [info_tryCreateTunnel]
  split <;> rfl

@[simp] theorem localPeerId_updateInfo (p : Peer) (info : PeerInfo) (localPeerId : PeerId) :
    (p.updateInfo info localPeerId).localPeerId = localPeerId := by
  unfold updateInfo
  rw [localPeerId_tryCreateTunnel]
  split <;> rfl

/-- The keys of the codec are those of the current identity. -/
def Keyed (p : Peer) : Prop :=
  p.codec.keys = deriveTunnelKeys p.localPeerId p.info.peerId p.info.networkId

theorem keyed_new (info : PeerInfo) (localPeerId : PeerId) : (new info localPeerId).Keyed := by
  simp [Keyed, new, buildCodec]

/-- An update rebuilds the codec whenever its keys would change, so they never lag behind. -/
theorem Keyed.updateInfo {p : Peer} (h : p.Keyed) (info : PeerInfo) (localPeerId : PeerId) :
    (p.updateInfo info localPeerId).Keyed := by
  unfold Keyed
  rw [info_updateInfo, localPeerId_updateInfo]
  unfold Peer.updateInfo
  rw [codec_tryCreateTunnel]
  split
  · rfl
  · rename_i hsame
    simp only [ne_eq, not_or, not_not] at hsame
    obtain ⟨hnet, hid, hlocal⟩ := hsame
    rw [← hnet, ← hid, ← hlocal]
    exact h

end Peer

end Noeio
