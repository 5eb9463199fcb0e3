import Noeio.Daemon.NoeioDaemon

/-!
# What a node says about itself

The host side of `noeio/src/daemon.rs`: the registered nics, the advertised subnets and the
`HostInfo` that the reports are built from. Three operations change them.

* A STUN response creates the host info or refreshes its address, NAT type, host name and
  version (`stunResponse`).
* `set_advertised` takes two locks one after the other: it replaces the list
  (`writeAdvertised`), and then copies it to every peer and moves the version
  (`publishAdvertised`).
* `register_nic` reads the list, registers the nic, and then adds the peer (`addPeer`), which
  fails when no STUN response has come yet.

The clock reading of each step is an argument, and so is the random peer id of a new nic.
Versions wrap at `2 ^ 64`, as they do in a release build.
-/

namespace Noeio

/-- The daemon with its host info, which is missing until the first STUN response. -/
structure Daemon extends NoeioDaemon where
  hostInfo : Option HostInfo

/-- A STUN response with the address it carries, the host name and the clock at its arrival. -/
structure StunResponse where
  addr : SocketAddr
  hostname : String
  now : UInt64
  deriving DecidableEq

/-- The existing host info after a STUN response. -/
def HostInfo.refresh (existing newInfo : HostInfo) : HostInfo :=
  { existing with
    natType := if existing.natAddr = newInfo.natAddr then .other else .symmetric
    natAddr := newInfo.natAddr
    resourceVersion := newInfo.resourceVersion
    hostname := newInfo.hostname }

/-- Every peer of the host with the given routes, under a newer version. -/
def HostInfo.advertise (host : HostInfo) (routes : List Ipv4Cidr) (now : UInt64) : HostInfo :=
  { host with
    peers := host.peers.map fun peer => { peer with advertisedRoutes := routes }
    resourceVersion := max now (host.resourceVersion + 1) }

/-- A peer whose virtual IP is listed gives its id to the entry, any other peer is listed. -/
def HostInfo.addPeer (host : HostInfo) (peer : PeerInfo) : HostInfo :=
  if host.peers.any (·.noeioIp = peer.noeioIp) then
    { host with
      peers := host.peers.modify (host.peers.findIdx (·.noeioIp = peer.noeioIp)) fun existing =>
        { existing with peerId := peer.peerId } }
  else { host with peers := host.peers ++ [peer] }

namespace Daemon

def stunResponse (self : Daemon) (response : StunResponse) : Daemon :=
  let newInfo := HostInfo.new response.addr response.hostname response.now
  match self.hostInfo with
  | some existing => { self with hostInfo := some (existing.refresh newInfo) }
  | none => { self with hostInfo := some newInfo }

/-- The first half of `set_advertised`, and whether the second is still to come. -/
def writeAdvertised (self : Daemon) (routes : List Ipv4Cidr) : Daemon × Bool :=
  if self.advertised = routes then (self, false)
  else ({ self with advertised := routes }, true)

/-- The second half of `set_advertised`. -/
def publishAdvertised (self : Daemon) (routes : List Ipv4Cidr) (now : UInt64) : Daemon :=
  { self with hostInfo := self.hostInfo.map fun host => host.advertise routes now }

def setAdvertised (self : Daemon) (routes : List Ipv4Cidr) (now : UInt64) : Daemon :=
  match self.writeAdvertised routes with
  | (self, true) => self.publishAdvertised routes now
  | (self, false) => self

def addPeer (self : Daemon) (peer : PeerInfo) : Daemon × Except String Unit :=
  match self.hostInfo with
  | some host => ({ self with hostInfo := some (host.addPeer peer) }, .ok ())
  | none => (self, .error "host info not initialized")

/-- The peer of a new nic, with the subnets advertised at that moment. -/
def createPeer (self : Daemon) (parseUuid : String → Except String NetworkId) (peerId : PeerId)
    (ip : IpAddr) (network : String) : Except String PeerInfo :=
  match PeerInfo.new parseUuid peerId ip network with
  | .ok peer => .ok (peer.withAdvertisedRoutes self.advertised)
  | .error err => .error ("failed to create peer: " ++ err)

def register (self : Daemon) (peerId : PeerId) (ip : IpAddr) : Daemon :=
  { self with nics := self.nics.insert peerId ip }

/-- `register_nic`, with the STUN response that arrives between the registration and the
`add_peer`, if there is one. -/
def registerNic (self : Daemon) (parseUuid : String → Except String NetworkId) (peerId : PeerId)
    (ip : IpAddr) (network : String) (meanwhile : Option StunResponse) :
    Daemon × Except String Unit :=
  match self.createPeer parseUuid peerId ip network with
  | .error err => (self, .error err)
  | .ok peer =>
    let self := self.register peerId ip
    let self := match meanwhile with
      | some response => self.stunResponse response
      | none => self
    self.addPeer peer

@[simp] theorem toNoeioDaemon_setAdvertised (self : Daemon) (routes : List Ipv4Cidr)
    (now : UInt64) :
    (self.setAdvertised routes now).toNoeioDaemon =
      { self.toNoeioDaemon with advertised := routes } := by
  by_cases h : self.advertised = routes
  · subst h
    simp [setAdvertised, writeAdvertised]
  · simp [setAdvertised, writeAdvertised, publishAdvertised, h]

@[simp] theorem toNoeioDaemon_addPeer (self : Daemon) (peer : PeerInfo) :
    (self.addPeer peer).1.toNoeioDaemon = self.toNoeioDaemon := by
  unfold addPeer
  split <;> rfl

end Daemon

/-! ## The peers of the host -/

namespace HostInfo

variable {host : HostInfo} {peer : PeerInfo}

theorem addPeer_of_unlisted (h : ∀ p ∈ host.peers, p.noeioIp ≠ peer.noeioIp) :
    host.addPeer peer = { host with peers := host.peers ++ [peer] } := by
  apply if_neg
  simpa using h

/-- A rename to the id that the entries of the IP have already changes nothing. -/
theorem addPeer_of_listed (h : ∃ p ∈ host.peers, p.noeioIp = peer.noeioIp)
    (hsame : ∀ p ∈ host.peers, p.noeioIp = peer.noeioIp → p.peerId = peer.peerId) :
    host.addPeer peer = host := by
  have hany : host.peers.any (·.noeioIp = peer.noeioIp) = true := by simpa using h
  have hmodify : host.peers.modify (host.peers.findIdx (·.noeioIp = peer.noeioIp))
      (fun existing => { existing with peerId := peer.peerId }) = host.peers := by
    apply List.ext_getElem?
    intro i
    rw [List.getElem?_modify]
    cases hi : host.peers[i]? with
    | none => rfl
    | some p =>
      refine congrArg some ?_
      split
      · rename_i hidx
        obtain ⟨hlt, hp⟩ := List.getElem?_eq_some_iff.mp hi
        subst hidx
        have hip : p.noeioIp = peer.noeioIp := by
          have hfound := List.findIdx_getElem (w := hlt)
          rw [hp] at hfound
          exact of_decide_eq_true hfound
        rw [← hsame p (hp ▸ List.getElem_mem hlt) hip]
      · rfl
  rw [addPeer, if_pos hany, hmodify]

/-- If all entries of its IP have its id, the peer adds exactly its id to the reported ones. -/
theorem mem_peerIds_addPeer
    (hsame : ∀ p ∈ host.peers, p.noeioIp = peer.noeioIp → p.peerId = peer.peerId) {x : PeerId} :
    (∃ p ∈ (host.addPeer peer).peers, p.peerId = x) ↔
      x = peer.peerId ∨ ∃ p ∈ host.peers, p.peerId = x := by
  by_cases h : ∃ p ∈ host.peers, p.noeioIp = peer.noeioIp
  · rw [addPeer_of_listed h hsame]
    refine ⟨Or.inr, ?_⟩
    rintro (rfl | hx)
    · obtain ⟨p, hp, hip⟩ := h
      exact ⟨p, hp, hsame p hp hip⟩
    · exact hx
  · push Not at h
    rw [addPeer_of_unlisted h]
    simp only [List.mem_append, List.mem_singleton, or_and_right, exists_or, exists_eq_left]
    rw [or_comm, eq_comm]

end HostInfo

end Noeio
