import Mathlib.Data.Finset.Basic
import Noeio.Daemon.Routes
import Noeio.Daemon.SyncRoute

/-!
# From pushes to kernel routes

The consumer side of a node: `refresh_subnets`, `route_snapshot` and `apply_sync_route` of
`noeio/src/daemon.rs`, and the pure part of `noeio/src/daemon/reconciler.rs` (`desired`).
Three tables are computed from the stored peers: the accepted subnets, which `lookup`
searches; the decisions that led to them; and the set of routes the kernel should hold.

`mem_subnets_refreshSubnets` and `mem_desired` say what is in the first and the last; what
the three have to do with each other is in the modules that follow.
-/

namespace Noeio

/-! ## The desired routes -/

structure RouteKey where
  nic : PeerId
  cidr : Ipv4Cidr
  deriving DecidableEq

/-- The routes one remote peer contributes. -/
structure PeerRoutes where
  nic : PeerId
  peerId : PeerId
  ip : IpAddr
  subnets : List Ipv4Cidr
  deriving DecidableEq

/-- The body of the loop in `desired`. -/
def insertRoutes (nics : List PeerId) (set : Finset RouteKey) (peer : PeerRoutes) : Finset RouteKey :=
  if peer.nic ∉ nics then set
  else
    let set := match peer.ip with
      | .v4 ip => insert ⟨peer.nic, .host ip⟩ set
      -- the route helpers are IPv4 only
      | .v6 _ => set
    peer.subnets.foldl (fun set cidr => insert ⟨peer.nic, cidr.network⟩ set) set

def desired (nics : List PeerId) (peers : List PeerRoutes) : Finset RouteKey :=
  peers.foldl (insertRoutes nics) ∅

/-- The peer `r` contributes the route `key`: its host route or one of its subnets. -/
def PeerRoutes.Contributes (r : PeerRoutes) (key : RouteKey) : Prop :=
  key.nic = r.nic ∧
    ((∃ ip, r.ip = .v4 ip ∧ key.cidr = .host ip) ∨ ∃ cidr ∈ r.subnets, key.cidr = cidr.network)

theorem mem_foldl_subnets {nic : PeerId} {subnets : List Ipv4Cidr} {set : Finset RouteKey}
    {key : RouteKey} :
    key ∈ subnets.foldl (fun set cidr => insert ⟨nic, cidr.network⟩ set) set ↔
      key ∈ set ∨ key.nic = nic ∧ ∃ cidr ∈ subnets, key.cidr = cidr.network := by
  induction subnets generalizing set with
  | nil => simp
  | cons cidr subnets ih =>
    obtain ⟨keyNic, keyCidr⟩ := key
    rw [List.foldl_cons, ih]
    simp only [Finset.mem_insert, RouteKey.mk.injEq, List.mem_cons, exists_eq_or_imp]
    tauto

theorem mem_insertRoutes {nics : List PeerId} {set : Finset RouteKey} {r : PeerRoutes}
    {key : RouteKey} :
    key ∈ insertRoutes nics set r ↔ key ∈ set ∨ r.nic ∈ nics ∧ r.Contributes key := by
  obtain ⟨nic, cidr⟩ := key
  unfold insertRoutes
  by_cases hnic : r.nic ∈ nics
  · rw [if_neg (not_not.mpr hnic)]
    cases hip : r.ip with
    | v4 ip =>
      simp only [mem_foldl_subnets, Finset.mem_insert, RouteKey.mk.injEq, hnic, true_and,
        PeerRoutes.Contributes, hip, IpAddr.v4.injEq, exists_eq_left']
      grind
    | v6 ip =>
      simp only [mem_foldl_subnets, hnic, true_and, PeerRoutes.Contributes, hip, reduceCtorEq,
        false_and, exists_false, false_or]
  · simp [hnic]

theorem mem_desired {nics : List PeerId} {peers : List PeerRoutes} {key : RouteKey} :
    key ∈ desired nics peers ↔ ∃ r ∈ peers, r.nic ∈ nics ∧ r.Contributes key := by
  have hfold : ∀ set : Finset RouteKey, key ∈ peers.foldl (insertRoutes nics) set ↔
      key ∈ set ∨ ∃ r ∈ peers, r.nic ∈ nics ∧ r.Contributes key := by
    induction peers with
    | nil => simp
    | cons r peers ih =>
      intro set
      rw [List.foldl_cons, ih, mem_insertRoutes]
      simp only [List.mem_cons, exists_eq_or_imp, or_assoc]
  exact (hfold ∅).trans (by simp)

/-! ## The daemon -/

/-- The state of a node that decides its routes: the overlay IP of each registered nic, the
router, the policy, and the last decisions. -/
structure NoeioDaemon where
  nics : AList (fun _ : PeerId => IpAddr)
  router : Router
  acceptRoutes : Bool
  advertised : List Ipv4Cidr
  controlPlane : List IpAddr
  decisions : List Decision

namespace NoeioDaemon

def nicPeers (self : NoeioDaemon) : List PeerId := self.nics.keys

def nicIps (self : NoeioDaemon) : List IpAddr := self.nics.entries.map (·.2)

/-- What no route may swallow: our overlay IPs and the control plane. -/
def guarded (self : NoeioDaemon) : Protected := ⟨self.nicIps, self.controlPlane⟩

/-- The policy for `Routes.decide`, given the physical interfaces. -/
def consumerPolicy (self : NoeioDaemon) (interfaces : List Interface) : ConsumerPolicy where
  acceptRoutes := self.acceptRoutes
  localLans := localLans interfaces self.nicIps
  selfAdvertised := self.advertised
  guarded := self.guarded

/-- What all known peers advertise. -/
def advertisements (self : NoeioDaemon) : List (PeerId × Ipv4Cidr) :=
  self.router.listPeers.flatMap fun peer =>
    peer.info.advertisedRoutes.map fun cidr => (peer.info.peerId, cidr)

def refreshSubnets (self : NoeioDaemon) (interfaces : List Interface) : NoeioDaemon :=
  let decisions := Routes.decide (self.consumerPolicy interfaces) self.advertisements
  let accepted := (decisions.filter (·.rejected = none)).map fun d => (d.cidr, d.peerId)
  { self with router := self.router.setSubnets accepted, decisions }

def routeSnapshot (self : NoeioDaemon) : List PeerRoutes :=
  let subnets := self.router.subnets
  self.router.listPeers.map fun peer =>
    { nic := peer.localPeerId
      peerId := peer.info.peerId
      ip := peer.info.noeioIp
      subnets := (subnets.filter fun (_, exit) => exit = peer.info.peerId).map (·.1) }

/-- The set that `reconcile_routes` hands to the reconciler. -/
def desiredRoutes (self : NoeioDaemon) : Finset RouteKey := desired self.nicPeers self.routeSnapshot

def applySyncRoute (self : NoeioDaemon) (peer : PeerInfo) (localPeerId : PeerId) :
    NoeioDaemon × Bool :=
  let (router, changed) := self.router.applySyncRoute peer localPeerId
  ({ self with router }, changed)

/-! ## What the tables contain -/

theorem mem_advertisements {d : NoeioDaemon} {x : PeerId} {cidr : Ipv4Cidr} :
    (x, cidr) ∈ d.advertisements ↔
      ∃ ip p, d.router.get ip = some p ∧ p.info.peerId = x ∧ cidr ∈ p.info.advertisedRoutes := by
  simp only [advertisements, List.mem_flatMap, List.mem_map, Prod.mk.injEq, Router.mem_listPeers]
  constructor
  · rintro ⟨p, ⟨ip, hp⟩, c, hc, rfl, rfl⟩
    exact ⟨ip, p, hp, rfl, hc⟩
  · rintro ⟨ip, p, hp, rfl, hc⟩
    exact ⟨p, ⟨ip, hp⟩, cidr, hc, rfl, rfl⟩

@[simp] theorem get_refreshSubnets (d : NoeioDaemon) (interfaces : List Interface) (ip : IpAddr) :
    (d.refreshSubnets interfaces).router.get ip = d.router.get ip := rfl

@[simp] theorem getByPeerId_refreshSubnets (d : NoeioDaemon) (interfaces : List Interface)
    (x : PeerId) :
    (d.refreshSubnets interfaces).router.getByPeerId x = d.router.getByPeerId x := rfl

/-- Every accepted subnet is the network form of a route its exit advertises, and contains no
sensitive address. -/
theorem mem_subnets_refreshSubnets {d : NoeioDaemon} {interfaces : List Interface}
    {cidr : Ipv4Cidr} {exit : PeerId} (h : (cidr, exit) ∈ (d.refreshSubnets interfaces).router.subnets) :
    ∃ ip p c, d.router.get ip = some p ∧ p.info.peerId = exit ∧ c ∈ p.info.advertisedRoutes ∧
      cidr = c.network ∧ ∀ a, cidr.containsAddr a = true → ¬ d.guarded.Sensitive a := by
  obtain ⟨dec, hdec, heq⟩ := List.mem_map.mp (Router.mem_setSubnets.mp h)
  obtain ⟨rfl, rfl⟩ := Prod.mk.inj heq
  obtain ⟨hmem, hok⟩ := List.mem_filter.mp hdec
  obtain ⟨c, hc, hnet, hvalid⟩ := accepted_of_mem_decide hmem (of_decide_eq_true hok)
  obtain ⟨ip, p, hp, hid, hadv⟩ := mem_advertisements.mp hc
  exact ⟨ip, p, c, hp, hid, hadv, hnet, (validateCidr_eq_ok.mp hvalid).2⟩

/-- A route of the desired set belongs to a stored peer whose nic is registered: it is the
host route of that peer or a subnet of which it is the exit. -/
theorem mem_desiredRoutes {d : NoeioDaemon} {key : RouteKey} :
    key ∈ d.desiredRoutes ↔ ∃ ip p, d.router.get ip = some p ∧ p.localPeerId ∈ d.nicPeers ∧
      key.nic = p.localPeerId ∧
      ((∃ a, p.info.noeioIp = .v4 a ∧ key.cidr = .host a) ∨
        ∃ cidr, (cidr, p.info.peerId) ∈ d.router.subnets ∧ key.cidr = cidr.network) := by
  have hsub : ∀ (p : Peer) (cidr : Ipv4Cidr),
      cidr ∈ (d.router.subnets.filter fun (_, exit) => exit = p.info.peerId).map (·.1) ↔
        (cidr, p.info.peerId) ∈ d.router.subnets := by
    intro p cidr
    simp only [List.mem_map, List.mem_filter, decide_eq_true_eq]
    constructor
    · rintro ⟨⟨c, exit⟩, ⟨hmem, rfl⟩, rfl⟩
      exact hmem
    · intro hmem
      exact ⟨_, ⟨hmem, rfl⟩, rfl⟩
  rw [desiredRoutes, mem_desired]
  simp only [routeSnapshot, List.mem_map, Router.mem_listPeers, PeerRoutes.Contributes]
  constructor
  · rintro ⟨r, ⟨p, ⟨ip, hp⟩, rfl⟩, hnic, hkey, hroute⟩
    refine ⟨ip, p, hp, hnic, hkey, ?_⟩
    simpa only [hsub] using hroute
  · rintro ⟨ip, p, hp, hnic, hkey, hroute⟩
    refine ⟨_, ⟨p, ⟨ip, hp⟩, rfl⟩, hnic, hkey, ?_⟩
    simpa only [hsub] using hroute

/-! ## Runs of a node -/

inductive Event where
  | syncRoute (message : SyncRoute)
  /-- `refresh_subnets`, with the physical interfaces of that moment. -/
  | refresh (interfaces : List Interface)

def step (self : NoeioDaemon) : Event → NoeioDaemon
  | .syncRoute message => (self.applySyncRoute message.peer message.localPeerId).1
  | .refresh interfaces => self.refreshSubnets interfaces

/-- A node that has heard of nobody, with any nics and any policy. -/
def boot (nics : AList (fun _ : PeerId => IpAddr)) (acceptRoutes : Bool)
    (advertised : List Ipv4Cidr) (controlPlane : List IpAddr) : NoeioDaemon :=
  ⟨nics, .new, acceptRoutes, advertised, controlPlane, []⟩

/-- The pushes among the events. -/
def pushes (es : List Event) : List SyncRoute :=
  es.filterMap fun
    | .syncRoute message => some message
    | .refresh _ => none

/-- The router of a node is the work of the pushes it received, whenever it refreshed. -/
theorem synced_run (nics : AList (fun _ : PeerId => IpAddr)) (acceptRoutes : Bool)
    (advertised : List Ipv4Cidr) (controlPlane : List IpAddr) (es : List Event) :
    Router.Synced (pushes es)
      (Runs.run step (boot nics acceptRoutes advertised controlPlane) es).router := by
  refine Runs.invariant_of_step (P := fun es (d : NoeioDaemon) => d.router.Synced (pushes es))
    (s := boot nics acceptRoutes advertised controlPlane) Router.synced_new (fun es d e h => ?_) es
  cases e with
  | syncRoute message =>
    have hpush : pushes (es ++ [.syncRoute message]) = pushes es ++ [message] := by simp [pushes]
    rw [hpush]
    exact h.receive message
  | refresh interfaces =>
    have hpush : pushes (es ++ [.refresh interfaces]) = pushes es := by simp [pushes]
    rw [hpush]
    exact h.of_store rfl

end NoeioDaemon

end Noeio
