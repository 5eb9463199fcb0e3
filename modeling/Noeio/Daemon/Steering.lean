import Noeio.Daemon.NoeioDaemon

/-!
# Where a node steers its traffic

The kernel steers an address into a tunnel when a route of the desired set contains it. Two
things are asked of that set, in every state that pushes can lead to and right after
`refresh_subnets`.

* Nothing sensitive is steered away: `desired_spares_iff`. The accepted subnets are all
  checked, so what is left is the host routes, which are built from the virtual IP of a push
  and checked by nobody. `host_route_cuts_control_plane` is a push that takes the address of
  the control plane.
* What is steered has a carrier: `steered_has_carrier`. The desired set and `lookup` cover
  the same addresses, and the peer that `lookup` returns may answer from the address. Here
  the index has to be exact, so no peer id may have been seen with two virtual IPs.
-/

namespace Noeio.NoeioDaemon

variable (nics : AList (fun _ : PeerId => IpAddr)) (acceptRoutes : Bool)
  (advertised : List Ipv4Cidr) (controlPlane : List IpAddr)

/-- A node with these nics and this policy after the events `es`. -/
def run (es : List Event) : NoeioDaemon :=
  Runs.run step (boot nics acceptRoutes advertised controlPlane) es

/-! ## Sensitive addresses -/

/-- No route of the desired set contains a control-plane address, an overlay address of this
node, a loopback or a link-local address if and only if no stored peer with a registered
nic has such an address for its virtual IP. -/
theorem desired_spares_iff (es : List Event) (interfaces : List Interface) :
    (∀ key ∈ ((run nics acceptRoutes advertised controlPlane es).refreshSubnets
          interfaces).desiredRoutes,
        ∀ a, key.cidr.containsAddr a = true →
          ¬ (run nics acceptRoutes advertised controlPlane es).guarded.Sensitive a) ↔
      ∀ ip p a, (run nics acceptRoutes advertised controlPlane es).router.get ip = some p →
        p.localPeerId ∈ (run nics acceptRoutes advertised controlPlane es).nicPeers →
        p.info.noeioIp = .v4 a →
          ¬ (run nics acceptRoutes advertised controlPlane es).guarded.Sensitive a := by
  generalize run nics acceptRoutes advertised controlPlane es = d
  constructor
  · intro h ip p a hp hnic ha
    refine h ⟨p.localPeerId, .host a⟩ ?_ a (Ipv4Cidr.containsAddr_host.mpr rfl)
    exact mem_desiredRoutes.mpr ⟨ip, p, hp, hnic, rfl, Or.inl ⟨a, ha, rfl⟩⟩
  · intro h key hkey a ha
    obtain ⟨ip, p, hp, hnic, -, ⟨b, hb, hcidr⟩ | ⟨cidr, hsub, hcidr⟩⟩ := mem_desiredRoutes.mp hkey
    · rw [hcidr, Ipv4Cidr.containsAddr_host] at ha
      subst ha
      exact h ip p b hp hnic hb
    · -- the subnets have passed the blacklist
      obtain ⟨-, -, -, -, -, -, -, hspared⟩ := mem_subnets_refreshSubnets hsub
      rw [hcidr, Ipv4Cidr.containsAddr_network] at ha
      exact hspared a ha

namespace Sample

def overlay : IpAddr := .v4 (.ofOctets 10 0 0 7)

/-- The resolved address of the derper. -/
def derper : IpAddr := .v4 (.ofOctets 198 51 100 1)

def oneNic : AList (fun _ : PeerId => IpAddr) := AList.singleton 7 overlay

def push (version : UInt64) (id : PeerId) (ip : IpAddr) (routes : List Ipv4Cidr) : SyncRoute :=
  ⟨⟨version, id, ip, .replicate 16 1, .other, none, [], routes, false⟩, 7⟩

/-- A node that was told that the virtual IP of peer 1 is the address of the derper. -/
def hijacked : NoeioDaemon :=
  (run oneNic true [] [derper] [.syncRoute (push 5 1 derper [])]).refreshSubnets []

/-- It routes the derper through the tunnel. -/
theorem host_route_cuts_control_plane :
    ∃ key ∈ hijacked.desiredRoutes, ∃ a, key.cidr.containsAddr a = true ∧
      .v4 a ∈ hijacked.controlPlane := by
  refine ⟨⟨7, .host (.ofOctets 198 51 100 1)⟩, ?_, .ofOctets 198 51 100 1, ?_, ?_⟩
  · decide +kernel
  · decide
  · decide +kernel

end Sample

/-! ## Carriers -/

variable {nics acceptRoutes advertised controlPlane}

/-- With an exact index, every exit of the refreshed table is the one stored peer of its id,
and it advertises the subnet. -/
theorem exit_of_mem_subnets {d : NoeioDaemon} (hexact : d.router.store.Exact Router.peerIdOf)
    {interfaces : List Interface} {cidr : Ipv4Cidr} {exit : PeerId}
    (h : (cidr, exit) ∈ (d.refreshSubnets interfaces).router.subnets) :
    ∃ ip p c, d.router.get ip = some p ∧ d.router.getByPeerId exit = some p ∧
      p.info.peerId = exit ∧ c ∈ p.info.advertisedRoutes ∧ cidr = c.network := by
  obtain ⟨ip, p, c, hp, hid, hc, hcidr, -⟩ := mem_subnets_refreshSubnets h
  refine ⟨ip, p, c, hp, ?_, hid, hc, hcidr⟩
  have hget := hexact.getById (k := ip) (v := p) hp
  rwa [Router.getById_store, Router.peerIdOf, hid] at hget

/-- An address inside an entry of the refreshed table has a carrier. -/
theorem lookup_isSome_of_mem_subnets {d : NoeioDaemon}
    (hexact : d.router.store.Exact Router.peerIdOf) {interfaces : List Interface}
    {cidr : Ipv4Cidr} {exit : PeerId} {a : Ipv4Addr}
    (h : (cidr, exit) ∈ (d.refreshSubnets interfaces).router.subnets)
    (ha : cidr.containsAddr a = true) :
    ((d.refreshSubnets interfaces).router.lookup (.v4 a)).isSome = true := by
  unfold Router.lookup
  split
  · rfl
  · simp only
    have hfind : ((d.refreshSubnets interfaces).router.subnets.find?
        (·.1.containsAddr a)).isSome = true :=
      List.find?_isSome.mpr ⟨_, h, ha⟩
    obtain ⟨⟨cidr', exit'⟩, hfound⟩ := Option.isSome_iff_exists.mp hfind
    obtain ⟨-, p, -, -, hget, -⟩ := exit_of_mem_subnets hexact (List.mem_of_find?_eq_some hfound)
    rw [hfound]
    simp [hget]

/-- Whoever `lookup` returns for an address has a route to it through its own nic and may send
from it. -/
theorem carrier_of_lookup {d : NoeioDaemon} (hexact : d.router.store.Exact Router.peerIdOf)
    (hindexed : d.router.WellIndexed)
    (hnics : ∀ ip p, d.router.get ip = some p → p.localPeerId ∈ d.nicPeers)
    {interfaces : List Interface} {a : Ipv4Addr} {p : Peer}
    (hp : (d.refreshSubnets interfaces).router.lookup (.v4 a) = some p) :
    (∃ key ∈ (d.refreshSubnets interfaces).desiredRoutes, key.nic = p.localPeerId ∧
      key.cidr.containsAddr a = true) ∧ Router.allowedSource p.info (.v4 a) = true := by
  rcases Router.lookup_v4 hp with hget | ⟨cidr, exit, hsub, ha, hget⟩
  · have hip : p.info.noeioIp = .v4 a := hindexed.atIp _ p hget
    refine ⟨⟨⟨p.localPeerId, .host a⟩, ?_, rfl, Ipv4Cidr.containsAddr_host.mpr rfl⟩, ?_⟩
    · exact mem_desiredRoutes.mpr ⟨.v4 a, p, hget, hnics _ p hget, rfl, Or.inl ⟨a, hip, rfl⟩⟩
    · rw [Router.allowedSource, if_pos hip.symm]
  · obtain ⟨ip, q, c, hq, hqid, hid, hc, rfl⟩ := exit_of_mem_subnets hexact hsub
    obtain rfl : p = q := Option.some.inj (hget.symm.trans hqid)
    refine ⟨⟨⟨p.localPeerId, c.network.network⟩, ?_, rfl, ?_⟩, ?_⟩
    · exact mem_desiredRoutes.mpr
        ⟨ip, p, hq, hnics ip p hq, rfl, Or.inr ⟨c.network, hid ▸ hsub, rfl⟩⟩
    · rwa [Ipv4Cidr.containsAddr_network]
    · rw [Ipv4Cidr.containsAddr_network] at ha
      unfold Router.allowedSource
      split
      · rfl
      · exact List.any_eq_true.mpr ⟨c, hc, ha⟩

/-- An address inside a desired route has a carrier. -/
theorem lookup_isSome_of_desired {d : NoeioDaemon}
    (hexact : d.router.store.Exact Router.peerIdOf) (hindexed : d.router.WellIndexed)
    {interfaces : List Interface} {key : RouteKey}
    (hkey : key ∈ (d.refreshSubnets interfaces).desiredRoutes) {a : Ipv4Addr}
    (ha : key.cidr.containsAddr a = true) :
    ((d.refreshSubnets interfaces).router.lookup (.v4 a)).isSome = true := by
  obtain ⟨ip, p, hp, -, -, ⟨b, hb, hcidr⟩ | ⟨cidr, hsub, hcidr⟩⟩ := mem_desiredRoutes.mp hkey
  · rw [hcidr, Ipv4Cidr.containsAddr_host] at ha
    subst ha
    have hip : ip = .v4 b := (hindexed.atIp ip p hp).symm.trans hb
    exact Option.isSome_of_eq_some (Router.lookup_of_get (hip ▸ hp))
  · rw [hcidr, Ipv4Cidr.containsAddr_network] at ha
    exact lookup_isSome_of_mem_subnets hexact hsub ha

/-- Steered traffic always has a carrier: after pushes in which no peer id is seen with two
virtual IPs, right after a refresh and with every nic registered, the desired set and
`lookup` cover the same addresses. Whoever `lookup` returns for an address has a route to it
through its own nic and may send from it. -/
theorem steered_has_carrier (es : List Event) (interfaces : List Interface)
    (hone : Router.OneIpPerId (pushes es))
    (hnics : ∀ ip p, (run nics acceptRoutes advertised controlPlane es).router.get ip = some p →
      p.localPeerId ∈ (run nics acceptRoutes advertised controlPlane es).nicPeers)
    (a : Ipv4Addr) :
    let d := (run nics acceptRoutes advertised controlPlane es).refreshSubnets interfaces
    ((∃ key ∈ d.desiredRoutes, key.cidr.containsAddr a = true) ↔
      (d.router.lookup (.v4 a)).isSome = true) ∧
    ∀ p, d.router.lookup (.v4 a) = some p →
      (∃ key ∈ d.desiredRoutes, key.nic = p.localPeerId ∧ key.cidr.containsAddr a = true) ∧
        Router.allowedSource p.info (.v4 a) = true := by
  have hs := synced_run nics acceptRoutes advertised controlPlane es
  rw [← run] at hs
  generalize run nics acceptRoutes advertised controlPlane es = d at hs hnics
  have hexact := hs.exact hone
  refine ⟨⟨?_, ?_⟩, fun p hp => carrier_of_lookup hexact hs.wellIndexed hnics hp⟩
  · rintro ⟨key, hkey, ha⟩
    exact lookup_isSome_of_desired hexact hs.wellIndexed hkey ha
  · intro hsome
    obtain ⟨p, hp⟩ := Option.isSome_iff_exists.mp hsome
    obtain ⟨⟨key, hkey, -, ha⟩, -⟩ := carrier_of_lookup hexact hs.wellIndexed hnics hp
    exact ⟨key, hkey, ha⟩

namespace Sample

def lan : Ipv4Cidr := ⟨.ofOctets 192 168 5 0, 24, by decide⟩

/-- Peer 1 advertises a LAN and peer 2 joins. -/
def joined : List Event :=
  [.syncRoute (push 5 1 (.v4 (.ofOctets 10 0 0 1)) [lan]),
    .syncRoute (push 5 2 (.v4 (.ofOctets 10 0 0 2)) [])]

def node : NoeioDaemon := (run oneNic true [] [derper] joined).refreshSubnets []

/-- A host of the LAN is reached through peer 1. -/
theorem steered_has_carrier_joined :
    (node.router.lookup (.v4 (.ofOctets 192 168 5 9))).map (·.info.peerId) = some 1 ∧
      ∃ key ∈ node.desiredRoutes, key.cidr.containsAddr (.ofOctets 192 168 5 9) = true := by
  have hone : Router.OneIpPerId (pushes joined) := by
    unfold Router.OneIpPerId
    decide
  have hnics : ∀ ip p, (run oneNic true [] [derper] joined).router.get ip = some p →
      p.localPeerId ∈ (run oneNic true [] [derper] joined).nicPeers := by
    intro ip p hp
    have hall : ∀ q ∈ (run oneNic true [] [derper] joined).router.listPeers,
        q.localPeerId ∈ (run oneNic true [] [derper] joined).nicPeers := by
      decide +kernel
    exact hall p (Router.mem_listPeers.mpr ⟨ip, hp⟩)
  have hid : (node.router.lookup (.v4 (.ofOctets 192 168 5 9))).map (·.info.peerId) = some 1 := by
    decide +kernel
  refine ⟨hid, (steered_has_carrier joined [] hone hnics (.ofOctets 192 168 5 9)).1.mpr ?_⟩
  obtain ⟨p, hp, -⟩ := Option.map_eq_some_iff.mp hid
  exact Option.isSome_iff_exists.mpr ⟨p, hp⟩

end Sample

end Noeio.NoeioDaemon
