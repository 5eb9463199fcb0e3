import Noeio.Common.AddrText
import Noeio.Daemon.Failover
import Noeio.Daemon.Nat
import Noeio.Daemon.Outbound
import Noeio.Daemon.RouteService
import Noeio.Daemon.Sessions

/-!
# What the route list tells

`list_routes` of `noeio/src/rpc/service/route.rs`: a row for each subnet that this node advertises,
and a row for each decision on a subnet that another peer advertises, with the link that traffic takes
to this peer. The decisions are those of the last refresh, the links are those of now.

Between two refreshes pushes arrive, nics are registered, the advertised list changes, and the
sessions of the peers come and go. A tombstone takes the entries of its peer out of the subnet table,
but the decisions keep them until the next refresh, so `Listing` counts these peers. The rows of the
others are the subnet table (`Listed.mem_subnets_iff`), and therefore what `process_outbound` does with
a packet and what the kernel is asked for can be read off the list (`route_list_truthful`).
-/

namespace Noeio

/-! ## The rows -/

inductive RouteSource where
  | unspecified
  | «local»
  | remote
  deriving DecidableEq

inductive RouteState where
  | unspecified
  | active
  | standby
  | rejected
  deriving DecidableEq

inductive PathKind where
  | unspecified
  | none
  | direct
  | relay
  deriving DecidableEq

structure RouteEntry where
  cidr : String
  source : RouteSource
  peerId : PeerId := 0
  via : String := ""
  state : RouteState
  rejectReason : String := ""
  path : PathKind := .unspecified
  pathAddr : String := ""
  deriving DecidableEq

structure ListRoutesResponse where
  routes : List RouteEntry
  canAdvertise : Bool
  platform : String
  acceptRoutes : Bool
  natApplied : Bool
  deriving DecidableEq

def Rejection.display : Rejection → String
  | .invalid => "fails route validation"
  | .localLan => "conflicts with a directly connected local network"
  | .selfAdvertised => "advertised by this node itself"
  | .standby => "standby: another peer is the active exit for this prefix"
  | .policyOff => "accept_routes is disabled"

/-- The link to a peer: its virtual IP, the kind of the path, and the address of a direct one. -/
def linkTo : Option Peer → String × PathKind × String
  | some p =>
    let via := p.info.noeioIp.display
    match p.address with
    | some addr => (via, .direct, addr.display)
    | none => (via, .relay, "")
  | none => ("", .none, "")

def stateOf : Option Rejection → RouteState × String
  | none => (.active, "")
  | some .standby => (.standby, Rejection.standby.display)
  | some why => (.rejected, why.display)

def localRow (env : RouteEnv) (cidr : Ipv4Cidr) : RouteEntry :=
  { cidr := env.text.display cidr, source := .local, state := .active }

def remoteRow (env : RouteEnv) (router : Router) (d : Decision) : RouteEntry :=
  let (via, path, pathAddr) := linkTo (router.getByPeerId d.peerId)
  let (state, rejectReason) := stateOf d.rejected
  { cidr := env.text.display d.cidr, source := .remote, peerId := d.peerId, via, state,
    rejectReason, path, pathAddr }

def NoeioDaemon.listRoutes (self : NoeioDaemon) (env : RouteEnv) (applied : Option AppliedNat) :
    ListRoutesResponse where
  routes := self.advertised.map (localRow env) ++ self.decisions.map (remoteRow env self.router)
  canAdvertise := env.platform.canAdvertise
  platform := env.platform.name
  acceptRoutes := self.acceptRoutes
  natApplied := applied.isSome

/-! ## Between the refreshes -/

/-- The shared object stored under the address changes by itself. -/
def Router.onPeer (self : Router) (ip : IpAddr) (f : Peer → Peer) : Router :=
  match self.get ip with
  | some p => { self with peers := self.peers.insert ip (f p) }
  | none => self

/-- A node, and the peers that tombstones have removed since its last refresh. -/
structure Listing where
  daemon : NoeioDaemon
  removed : List PeerId

namespace Listing

inductive Event where
  | syncRoute (m : SyncRoute)
  | refresh (interfaces : List Interface)
  | register (peerId : PeerId) (ip : IpAddr)
  | setAdvertised (routes : List Ipv4Cidr)
  /-- A session of the peer stored under the address has changed by itself. -/
  | session (ip : IpAddr) (serial : Nat) (state : SessionState) (rtt : Option Duration)
  | selectSession (ip : IpAddr)

/-- The message is a tombstone of a peer that the index resolves. -/
def Removes (r : Router) (m : SyncRoute) : Prop :=
  m.peer.withdrawn = true ∧ (r.getByPeerId m.peer.peerId).isSome = true

instance (r : Router) (m : SyncRoute) : Decidable (Removes r m) := inferInstanceAs (Decidable (_ ∧ _))

def step (self : Listing) : Event → Listing
  | .syncRoute m =>
    { daemon := (self.daemon.applySyncRoute m.peer m.localPeerId).1
      removed := if Removes self.daemon.router m then m.peer.peerId :: self.removed else self.removed }
  | .refresh interfaces => ⟨self.daemon.refreshSubnets interfaces, []⟩
  | .register peerId ip =>
    { self with daemon := { self.daemon with nics := self.daemon.nics.insert peerId ip } }
  | .setAdvertised routes => { self with daemon := { self.daemon with advertised := routes } }
  | .session ip serial state rtt =>
    { self with daemon :=
        { self.daemon with router :=
            self.daemon.router.onPeer ip (·.step (.session serial state rtt)) } }
  | .selectSession ip =>
    { self with daemon :=
        { self.daemon with router := self.daemon.router.onPeer ip (·.step .selectSession) } }

def boot (nics : AList (fun _ : PeerId => IpAddr)) (acceptRoutes : Bool) (advertised : List Ipv4Cidr)
    (controlPlane : List IpAddr) : Listing :=
  ⟨.boot nics acceptRoutes advertised controlPlane, []⟩

def run (nics : AList (fun _ : PeerId => IpAddr)) (acceptRoutes : Bool) (advertised : List Ipv4Cidr)
    (controlPlane : List IpAddr) (es : List Event) : Listing :=
  Runs.run step (boot nics acceptRoutes advertised controlPlane) es

end Listing

/-! ## The table and the decisions -/

namespace Router

theorem get_onPeer (r : Router) (ip : IpAddr) (f : Peer → Peer) (j : IpAddr) :
    (r.onPeer ip f).get j = if j = ip then (r.get ip).map f else r.get j := by
  unfold onPeer
  cases hget : r.get ip with
  | none =>
    by_cases hj : j = ip
    · subst hj
      rw [if_pos rfl, Option.map_none]
      exact hget
    · rw [if_neg hj]
  | some p =>
    by_cases hj : j = ip
    · subst hj
      rw [if_pos rfl]
      exact AList.lookup_insert _
    · rw [if_neg hj]
      exact AList.lookup_insert_ne hj

@[simp] theorem byPeerId_onPeer (r : Router) (ip : IpAddr) (f : Peer → Peer) :
    (r.onPeer ip f).byPeerId = r.byPeerId := by
  unfold onPeer
  split <;> rfl

@[simp] theorem subnets_onPeer (r : Router) (ip : IpAddr) (f : Peer → Peer) :
    (r.onPeer ip f).subnets = r.subnets := by
  unfold onPeer
  split <;> rfl

theorem WellIndexed.onPeer {r : Router} (h : r.WellIndexed) (ip : IpAddr) {f : Peer → Peer}
    (hinfo : ∀ p, (f p).info = p.info) : (r.onPeer ip f).WellIndexed where
  sound x j hj := by
    rw [index_store, byPeerId_onPeer] at hj
    obtain ⟨p, hp, hid⟩ := h.sound x j hj
    rw [get_store] at hp
    rw [get_store, get_onPeer]
    by_cases heq : j = ip
    · subst heq
      refine ⟨f p, by rw [if_pos rfl, hp, Option.map_some], ?_⟩
      rw [peerIdOf, hinfo]
      exact hid
    · exact ⟨p, by rw [if_neg heq, hp], hid⟩
  atIp j q hq := by
    rw [get_store, get_onPeer] at hq
    by_cases heq : j = ip
    · subst heq
      rw [if_pos rfl] at hq
      obtain ⟨p, hp, rfl⟩ := Option.map_eq_some_iff.mp hq
      rw [hinfo]
      exact h.atIp j p hp
    · rw [if_neg heq] at hq
      exact h.atIp j q hq

theorem WellIndexed.peerId_of_getByPeerId {r : Router} (h : r.WellIndexed) {x : PeerId} {p : Peer}
    (hp : r.getByPeerId x = some p) : p.info.peerId = x := by
  obtain ⟨ip, hindex, hget⟩ := Option.bind_eq_some_iff.mp hp
  obtain ⟨q, hq, hid⟩ := h.sound x ip hindex
  obtain rfl : q = p := Option.some.inj (hq.symm.trans hget)
  exact hid

/-- A push of a peer leaves the subnet table alone. -/
theorem subnets_receive_of_live (r : Router) {m : SyncRoute} (hlive : m.peer.withdrawn = false) :
    (r.receive m).subnets = r.subnets := by
  unfold receive applySyncRoute
  rw [if_neg (by simp [hlive])]
  cases hget : r.get m.peer.noeioIp with
  | none => rfl
  | some p =>
    simp only
    split <;> rfl

theorem Tabled.receive {r : Router} (h : r.Tabled) (m : SyncRoute) : (r.receive m).Tabled := by
  cases hw : m.peer.withdrawn with
  | false =>
    have hsame := subnets_receive_of_live r hw
    exact ⟨hsame ▸ h.sorted, hsame ▸ h.normalized⟩
  | true =>
    rw [receive_withdrawn r hw]
    exact h.removeByPeerId m.peer.peerId

/-- A push takes from the subnet table the entries of the peer that it removes. -/
theorem mem_subnets_receive {r : Router} (h : r.WellIndexed) {m : SyncRoute}
    {e : Ipv4Cidr × PeerId} :
    e ∈ (r.receive m).subnets ↔
      e ∈ r.subnets ∧ ¬ (Listing.Removes r m ∧ e.2 = m.peer.peerId) := by
  unfold Listing.Removes
  cases hw : m.peer.withdrawn with
  | false => simp [subnets_receive_of_live r hw]
  | true =>
    rw [receive_withdrawn r hw]
    cases hp : r.getByPeerId m.peer.peerId with
    | none =>
      have hsame : (r.removeByPeerId m.peer.peerId).2.subnets = r.subnets := by
        unfold removeByPeerId
        cases hindex : r.byPeerId.lookup m.peer.peerId with
        | none => rfl
        | some ip =>
          obtain ⟨p, hget, -⟩ := h.sound _ ip hindex
          have hfound : r.getByPeerId m.peer.peerId = some p :=
            Option.bind_eq_some_iff.mpr ⟨ip, hindex, hget⟩
          cases hp.symm.trans hfound
      simp [hsame]
    | some p =>
      obtain ⟨ip, hindex, hget⟩ := Option.bind_eq_some_iff.mp hp
      have hremove : r.removeByPeerId m.peer.peerId = r.remove ip := by
        unfold removeByPeerId
        rw [hindex]
      have hfound : r.remove ip = (some p, (r.remove ip).2) := by
        unfold remove
        rw [show r.peers.lookup ip = some p from hget]
      have hsubnets := (remove_eq_some hfound).2
      rw [hremove, hsubnets, h.peerId_of_getByPeerId hp]
      simp

end Router

theorem exists_exit_of_standby {policy : ConsumerPolicy} {advertised : List (PeerId × Ipv4Cidr)}
    {n : Ipv4Cidr} {p : PeerId} (h : ⟨n, p, some .standby⟩ ∈ Routes.decide policy advertised) :
    ∃ q < p, ⟨n, q, none⟩ ∈ Routes.decide policy advertised := by
  cases hon : policy.acceptRoutes with
  | false => simp [Routes.decide, hon] at h
  | true =>
    rw [decide_eq_map hon] at h
    obtain ⟨⟨q, c⟩, -, heq⟩ := List.mem_map.mp h
    obtain ⟨rfl, rfl, hreason⟩ := Decision.mk.inj heq
    obtain ⟨hok, r, hr, hlt⟩ := ConsumerPolicy.outbid_of_reason hreason
    obtain ⟨low, hlow⟩ := exists_lowest hr
    have hlower : low < q := UInt32.lt_of_le_of_lt (hlow.2 r hr) hlt
    exact ⟨low, hlower, (mem_decide hon).mpr ⟨hok, hlow⟩⟩

namespace Listing

/-- The decisions are those that the subnet table was made of, and tombstones have taken the peers of
`removed` out of it. -/
structure Listed (s : Listing) : Prop where
  wellIndexed : s.daemon.router.WellIndexed
  tabled : s.daemon.router.Tabled
  mem_subnets : ∀ n x, (n, x) ∈ s.daemon.router.subnets ↔
    ⟨n, x, none⟩ ∈ s.daemon.decisions ∧ x ∉ s.removed
  unique : ∀ n p q, ⟨n, p, none⟩ ∈ s.daemon.decisions → ⟨n, q, none⟩ ∈ s.daemon.decisions → p = q
  standby : ∀ n p, ⟨n, p, some .standby⟩ ∈ s.daemon.decisions →
    ∃ q < p, ⟨n, q, none⟩ ∈ s.daemon.decisions

theorem listed_boot (nics : AList (fun _ : PeerId => IpAddr)) (acceptRoutes : Bool)
    (advertised : List Ipv4Cidr) (controlPlane : List IpAddr) :
    Listed (boot nics acceptRoutes advertised controlPlane) where
  wellIndexed := Router.wellIndexed_new
  tabled := Router.tabled_new
  mem_subnets n x := by simp [boot, NoeioDaemon.boot, Router.new]
  unique n p q hp := absurd hp List.not_mem_nil
  standby n p hp := absurd hp List.not_mem_nil

theorem Listed.receive {s : Listing} (h : Listed s) (m : SyncRoute) :
    Listed (s.step (.syncRoute m)) where
  wellIndexed := h.wellIndexed.receive m
  tabled := h.tabled.receive m
  mem_subnets n x := by
    refine (Router.mem_subnets_receive h.wellIndexed).trans ?_
    rw [h.mem_subnets]
    simp only [step]
    split
    · rename_i hremoves
      rw [List.mem_cons]
      tauto
    · rename_i hremoves
      tauto
  unique := h.unique
  standby := h.standby

theorem listed_refresh {s : Listing} (h : Listed s) (interfaces : List Interface) :
    Listed (s.step (.refresh interfaces)) where
  wellIndexed := h.wellIndexed.apply (.setSubnets _)
  tabled := NoeioDaemon.tabled_refresh s.daemon interfaces
  mem_subnets n x := by
    have hdecided : (n, x) ∈ (s.daemon.refreshSubnets interfaces).router.subnets ↔
        ⟨n, x, none⟩ ∈ (s.daemon.refreshSubnets interfaces).decisions :=
      NoeioDaemon.mem_subnets_refresh.trans mem_accepted_decide
    exact hdecided.trans (and_iff_left List.not_mem_nil).symm
  unique n p q hp hq :=
    ((mem_accepted.mp (mem_accepted_decide.mpr hp)).2.2).unique
      (mem_accepted.mp (mem_accepted_decide.mpr hq)).2.2
  standby _ _ := exists_exit_of_standby

/-- A stored peer changes, and stays the peer that it is. -/
theorem Listed.onPeer {s : Listing} (h : Listed s) (ip : IpAddr) {f : Peer → Peer}
    (hinfo : ∀ p, (f p).info = p.info) :
    Listed ⟨{ s.daemon with router := s.daemon.router.onPeer ip f }, s.removed⟩ where
  wellIndexed := h.wellIndexed.onPeer ip hinfo
  tabled := by
    refine ⟨?_, ?_⟩
    · rw [Router.subnets_onPeer]
      exact h.tabled.sorted
    · rw [Router.subnets_onPeer]
      exact h.tabled.normalized
  mem_subnets n x := by
    rw [Router.subnets_onPeer]
    exact h.mem_subnets n x
  unique := h.unique
  standby := h.standby

theorem Listed.step {s : Listing} (h : Listed s) (e : Event) : Listed (s.step e) := by
  cases e with
  | syncRoute m => exact h.receive m
  | refresh interfaces => exact listed_refresh h interfaces
  | register peerId ip => exact ⟨h.wellIndexed, h.tabled, h.mem_subnets, h.unique, h.standby⟩
  | setAdvertised routes => exact ⟨h.wellIndexed, h.tabled, h.mem_subnets, h.unique, h.standby⟩
  | session ip serial state rtt => exact h.onPeer ip fun _ => rfl
  | selectSession ip => exact h.onPeer ip fun _ => rfl

theorem listed_run (nics : AList (fun _ : PeerId => IpAddr)) (acceptRoutes : Bool)
    (advertised : List Ipv4Cidr) (controlPlane : List IpAddr) (es : List Event) :
    Listed (run nics acceptRoutes advertised controlPlane es) :=
  Runs.invariant_of_step (P := fun _ => Listed) (listed_boot nics acceptRoutes advertised controlPlane)
    (fun _ _ e h => h.step e) es

end Listing

/-! ## What the rows say -/

namespace RouteEntry

variable {env : RouteEnv} {d : NoeioDaemon} {applied : Option AppliedNat}

/-- The row lists the block as one that this node advertises. -/
def Own (env : RouteEnv) (c : Ipv4Cidr) (row : RouteEntry) : Prop :=
  row.source = .local ∧ row.cidr = env.text.display c

/-- The row lists its peer as the exit for the block. -/
def Exit (env : RouteEnv) (n : Ipv4Cidr) (row : RouteEntry) : Prop :=
  row.source = .remote ∧ row.state = .active ∧ row.cidr = env.text.display n

/-- What the row says about the link is what becomes of a packet to the address. -/
structure Link (router : Router) (a : Ipv4Addr) (row : RouteEntry) : Prop where
  /-- The peer is not stored any more, and nothing is sent. -/
  none : row.path = .none → router.lookup (.v4 a) = none
  /-- The peer has a direct path to the address of the row. -/
  direct : row.path = .direct → ∃ peer addr, router.lookup (.v4 a) = some peer ∧
    peer.info.peerId = row.peerId ∧ peer.info.noeioIp.display = row.via ∧ addr.display = row.pathAddr ∧
      ∀ (out : OutboundEnv) packet datagram, out.destination packet = some a →
        out.encapsulate peer packet = .toPeer datagram → processOutbound out router packet =
          some ((NoeioPacket.new ⟨.delivery, peer.localPeerId, 0⟩ datagram).inner, addr)
  relay : row.path = .relay → ∃ peer, router.lookup (.v4 a) = some peer ∧
    peer.info.peerId = row.peerId ∧ peer.info.noeioIp.display = row.via ∧
      ∀ (out : OutboundEnv) packet datagram, out.destination packet = some a →
        out.encapsulate peer packet = .toPeer datagram → processOutbound out router packet =
          out.derper.map ((NoeioPacket.new ⟨.forward, row.peerId, 0⟩ datagram).inner, ·)
  specified : row.path ≠ .unspecified

end RouteEntry

theorem processOutbound_of_lookup {out : OutboundEnv} {router : Router} {packet datagram : List UInt8}
    {a : Ipv4Addr} {peer : Peer} (hdst : out.destination packet = some a)
    (hlookup : router.lookup (.v4 a) = some peer)
    (hencapsulate : out.encapsulate peer packet = .toPeer datagram) :
    processOutbound out router packet = (sendToPeer out.derper peer datagram).toOption := by
  simp only [processOutbound, hdst, hlookup, hencapsulate, Option.bind_eq_bind, Option.bind_some]

section

variable {env : RouteEnv} {d : NoeioDaemon} {applied : Option AppliedNat} {row : RouteEntry}

theorem mem_listRoutes : row ∈ (d.listRoutes env applied).routes ↔
    (∃ c ∈ d.advertised, localRow env c = row) ∨
      ∃ decision ∈ d.decisions, remoteRow env d.router decision = row := by
  rw [NoeioDaemon.listRoutes, List.mem_append, List.mem_map, List.mem_map]

theorem own_iff {c : Ipv4Cidr} :
    (∃ row ∈ (d.listRoutes env applied).routes, row.Own env c) ↔ c ∈ d.advertised := by
  constructor
  · rintro ⟨row, hrow, hsource, hcidr⟩
    rcases mem_listRoutes.mp hrow with ⟨c', hc', rfl⟩ | ⟨decision, -, rfl⟩
    · obtain rfl := env.text.display_inj.mp hcidr
      exact hc'
    · cases hsource
  · intro hc
    exact ⟨localRow env c, mem_listRoutes.mpr (Or.inl ⟨c, hc, rfl⟩), rfl, rfl⟩

/-- The row of an exit is that of an accepted decision. -/
theorem decision_of_exit {n : Ipv4Cidr} (hrow : row ∈ (d.listRoutes env applied).routes)
    (h : row.Exit env n) :
    ⟨n, row.peerId, none⟩ ∈ d.decisions ∧ row = remoteRow env d.router ⟨n, row.peerId, none⟩ := by
  obtain ⟨hsource, hstate, hcidr⟩ := h
  rcases mem_listRoutes.mp hrow with ⟨c, -, rfl⟩ | ⟨⟨c, p, rejected⟩, hdecision, rfl⟩
  · cases hsource
  · obtain rfl := env.text.display_inj.mp hcidr
    have hnone : rejected = none := by
      cases rejected with
      | none => rfl
      | some why => cases why <;> cases hstate
    subst hnone
    exact ⟨hdecision, rfl⟩

variable (env applied) in
theorem exit_of_decision {n : Ipv4Cidr} {x : PeerId} (h : ⟨n, x, none⟩ ∈ d.decisions) :
    remoteRow env d.router ⟨n, x, none⟩ ∈ (d.listRoutes env applied).routes ∧
      (remoteRow env d.router ⟨n, x, none⟩).Exit env n :=
  ⟨mem_listRoutes.mpr (Or.inr ⟨_, h, rfl⟩), rfl, rfl, rfl⟩

theorem decision_of_standby (hrow : row ∈ (d.listRoutes env applied).routes)
    (hstate : row.state = .standby) :
    ∃ n, row.cidr = env.text.display n ∧ ⟨n, row.peerId, some .standby⟩ ∈ d.decisions := by
  rcases mem_listRoutes.mp hrow with ⟨c, -, rfl⟩ | ⟨⟨c, p, rejected⟩, hdecision, rfl⟩
  · cases hstate
  · refine ⟨c, rfl, ?_⟩
    cases rejected with
    | none => cases hstate
    | some why =>
      cases why with
      | standby => exact hdecision
      | invalid | localLan | selfAdvertised | policyOff => cases hstate

/-- Packets to an address that the peer of the row carries take the link of the row. -/
theorem link_remoteRow (hindexed : d.router.WellIndexed) {n : Ipv4Cidr} {x : PeerId} {a : Ipv4Addr}
    (hlookup : d.router.lookup (.v4 a) = d.router.getByPeerId x) :
    (remoteRow env d.router ⟨n, x, none⟩).Link d.router a := by
  unfold remoteRow
  cases hpeer : d.router.getByPeerId x with
  | none => exact ⟨fun _ => hlookup.trans hpeer, by simp [linkTo], by simp [linkTo], by simp [linkTo]⟩
  | some peer =>
    have hfound := hlookup.trans hpeer
    have hid : peer.info.peerId = x := hindexed.peerId_of_getByPeerId hpeer
    cases haddress : peer.address with
    | none =>
      refine ⟨by simp [linkTo, haddress], by simp [linkTo, haddress], fun _ => ?_,
        by simp [linkTo, haddress]⟩
      refine ⟨peer, hfound, hid, by simp only [linkTo, haddress],
        fun out packet datagram hdst hout => ?_⟩
      rw [processOutbound_of_lookup hdst hfound hout]
      cases hderper : out.derper with
      | none =>
        unfold sendToPeer
        rw [haddress]
        rfl
      | some derper =>
        rw [sendToPeer_relay haddress, hid]
        rfl
    | some addr =>
      refine ⟨by simp [linkTo, haddress], fun _ => ?_, by simp [linkTo, haddress],
        by simp [linkTo, haddress]⟩
      refine ⟨peer, addr, hfound, hid, by simp only [linkTo, haddress], by simp only [linkTo, haddress],
        fun out packet datagram hdst hout => ?_⟩
      rw [processOutbound_of_lookup hdst hfound hout, sendToPeer_direct haddress]
      rfl

end

namespace Listing

section

variable {s : Listing} {env : RouteEnv} {applied : Option AppliedNat}

variable (env applied) in
/-- The subnet table is what the rows list, without the peers that tombstones have removed. -/
theorem Listed.mem_subnets_iff (h : Listed s) (n : Ipv4Cidr) (x : PeerId) :
    (n, x) ∈ s.daemon.router.subnets ↔
      ∃ row ∈ (s.daemon.listRoutes env applied).routes, row.Exit env n ∧ row.peerId = x ∧
        x ∉ s.removed := by
  rw [h.mem_subnets]
  constructor
  · rintro ⟨hdecision, hx⟩
    obtain ⟨hrow, hexit⟩ := exit_of_decision env applied hdecision
    exact ⟨_, hrow, hexit, rfl, hx⟩
  · rintro ⟨row, hrow, hexit, rfl, hx⟩
    exact ⟨(decision_of_exit hrow hexit).1, hx⟩

theorem Listed.exists_exit_of_standby (h : Listed s) {row : RouteEntry}
    (hrow : row ∈ (s.daemon.listRoutes env applied).routes) (hstate : row.state = .standby) :
    ∃ n, row.cidr = env.text.display n ∧
      ∃ exit ∈ (s.daemon.listRoutes env applied).routes, exit.Exit env n ∧
        exit.peerId < row.peerId := by
  obtain ⟨n, hcidr, hdecision⟩ := decision_of_standby hrow hstate
  obtain ⟨q, hlt, hq⟩ := h.standby n row.peerId hdecision
  obtain ⟨hexit, hshows⟩ := exit_of_decision env applied hq
  exact ⟨n, hcidr, _, hexit, hshows, hlt⟩

theorem Listed.lookup_eq_none (h : Listed s) {a : Ipv4Addr} (hget : s.daemon.router.get (.v4 a) = none)
    (hnone : ∀ row ∈ (s.daemon.listRoutes env applied).routes, ∀ n, row.Exit env n →
      row.peerId ∉ s.removed → n.containsAddr a = false) :
    s.daemon.router.lookup (.v4 a) = none := by
  refine h.tabled.longestPrefixMatch.miss a hget fun e he => ?_
  obtain ⟨row, hrow, hexit, hid, hkept⟩ :=
    (h.mem_subnets_iff env applied e.1 e.2).mp he
  exact hnone row hrow e.1 hexit (hid ▸ hkept)

/-- The row with the longest block for an address is the one whose link is taken. -/
theorem Listed.link (h : Listed s) {a : Ipv4Addr} (hget : s.daemon.router.get (.v4 a) = none)
    {row : RouteEntry} (hrow : row ∈ (s.daemon.listRoutes env applied).routes) {n : Ipv4Cidr}
    (hexit : row.Exit env n) (hkept : row.peerId ∉ s.removed) (ha : n.containsAddr a = true)
    (hlongest : ∀ other ∈ (s.daemon.listRoutes env applied).routes, ∀ n', other.Exit env n' →
      other.peerId ∉ s.removed → n'.containsAddr a = true → n'.prefixLen ≤ n.prefixLen) :
    row.Link s.daemon.router a := by
  obtain ⟨hdecision, heq⟩ := decision_of_exit hrow hexit
  have hentry : (n, row.peerId) ∈ s.daemon.router.subnets :=
    (h.mem_subnets n row.peerId).mpr ⟨hdecision, hkept⟩
  have hle : ∀ f ∈ s.daemon.router.subnets, f.1.containsAddr a = true →
      f.1.prefixLen ≤ n.prefixLen := by
    intro f hf hfa
    obtain ⟨other, hother, hexit', hid, hkept'⟩ :=
      (h.mem_subnets_iff env applied f.1 f.2).mp hf
    exact hlongest other hother f.1 hexit' (hid ▸ hkept') hfa
  have hone : ∀ f ∈ s.daemon.router.subnets, f.1 = n → f.2 = row.peerId := by
    intro f hf hfn
    have hf' : (n, f.2) ∈ s.daemon.router.subnets := hfn ▸ hf
    exact h.unique n f.2 row.peerId ((h.mem_subnets n f.2).mp hf').1 hdecision
  have hlookup := h.tabled.longestPrefixMatch.exit a hget _ (h.tabled.longest_of_le hentry ha hle hone)
  rw [heq]
  exact link_remoteRow h.wellIndexed hlookup

/-- The subnets that the kernel is asked for are those of the rows, each through the nic of the stored
peer that the row names. -/
theorem Listed.mem_desiredRoutes (h : Listed s) {key : RouteKey} :
    key ∈ s.daemon.desiredRoutes ↔ ∃ ip p, s.daemon.router.get ip = some p ∧
      p.localPeerId ∈ s.daemon.nicPeers ∧ key.nic = p.localPeerId ∧
      ((∃ a, p.info.noeioIp = .v4 a ∧ key.cidr = .host a) ∨
        ∃ row ∈ (s.daemon.listRoutes env applied).routes, row.Exit env key.cidr ∧
          row.peerId = p.info.peerId ∧ row.peerId ∉ s.removed) := by
  rw [NoeioDaemon.mem_desiredRoutes]
  refine exists_congr fun ip => exists_congr fun p => and_congr_right fun _ => ?_
  refine and_congr_right fun _ => and_congr_right fun _ => or_congr_right ?_
  constructor
  · rintro ⟨n, hentry, hkey⟩
    have hnormal : n.network = n := h.tabled.normalized _ hentry
    obtain ⟨row, hrow, hexit, hid, hkept⟩ :=
      (h.mem_subnets_iff env applied n p.info.peerId).mp hentry
    rw [hkey, hnormal]
    exact ⟨row, hrow, hexit, hid, hid ▸ hkept⟩
  · rintro ⟨row, hrow, hexit, hid, hkept⟩
    have hentry : (key.cidr, p.info.peerId) ∈ s.daemon.router.subnets :=
      (h.mem_subnets_iff env applied key.cidr _).mpr ⟨row, hrow, hexit, hid, hid ▸ hkept⟩
    have hnormal : key.cidr.network = key.cidr := h.tabled.normalized _ hentry
    exact ⟨key.cidr, hentry, hnormal.symm⟩

end

/-- The route list tells the truth. In every run of a node, with pushes, refreshes, new nics, changes of
the advertised list and sessions that change by themselves, and with `removed` the peers that tombstones
have removed since the last refresh:

* the local rows are the advertised list;
* a standby row stands next to the row of a lower peer that is the exit for the block, and a block has
  one exit;
* a packet to an address that no stored peer has is not sent if no exit row of a peer that is not
  removed contains the address, and else takes the link that the longest of these rows says;
* the routes that the kernel is asked for are the addresses of the stored peers with a registered nic,
  and the blocks of their exit rows. -/
theorem route_list_truthful (nics : AList (fun _ : PeerId => IpAddr)) (acceptRoutes : Bool)
    (advertised : List Ipv4Cidr) (controlPlane : List IpAddr) (es : List Event) (env : RouteEnv)
    (applied : Option AppliedNat) :
    let s := run nics acceptRoutes advertised controlPlane es
    let rows := (s.daemon.listRoutes env applied).routes
    (∀ c, (∃ row ∈ rows, row.Own env c) ↔ c ∈ s.daemon.advertised) ∧
    (∀ row ∈ rows, row.state = .standby → ∃ n, row.cidr = env.text.display n ∧
      ∃ exit ∈ rows, exit.Exit env n ∧ exit.peerId < row.peerId) ∧
    (∀ row ∈ rows, ∀ other ∈ rows, ∀ n, row.Exit env n → other.Exit env n →
      row.peerId = other.peerId) ∧
    (∀ a, s.daemon.router.get (.v4 a) = none →
      ((∀ row ∈ rows, ∀ n, row.Exit env n → row.peerId ∉ s.removed → n.containsAddr a = false) →
        ∀ out packet, out.destination packet = some a →
          processOutbound out s.daemon.router packet = none) ∧
      ∀ row ∈ rows, ∀ n, row.Exit env n → row.peerId ∉ s.removed → n.containsAddr a = true →
        (∀ other ∈ rows, ∀ n', other.Exit env n' → other.peerId ∉ s.removed →
          n'.containsAddr a = true → n'.prefixLen ≤ n.prefixLen) →
        row.Link s.daemon.router a) ∧
    ∀ key, key ∈ s.daemon.desiredRoutes ↔ ∃ ip p, s.daemon.router.get ip = some p ∧
      p.localPeerId ∈ s.daemon.nicPeers ∧ key.nic = p.localPeerId ∧
      ((∃ a, p.info.noeioIp = .v4 a ∧ key.cidr = .host a) ∨
        ∃ row ∈ rows, row.Exit env key.cidr ∧ row.peerId = p.info.peerId ∧
          row.peerId ∉ s.removed) := by
  have h := listed_run nics acceptRoutes advertised controlPlane es
  refine ⟨fun c => own_iff, fun row hrow => h.exists_exit_of_standby hrow, ?_, fun a hget => ⟨?_, ?_⟩,
    fun key => h.mem_desiredRoutes⟩
  · intro row hrow other hother n hexit hexit'
    exact h.unique n _ _ (decision_of_exit hrow hexit).1 (decision_of_exit hother hexit').1
  · intro hnone out packet hdst
    have hlookup := h.lookup_eq_none hget hnone
    simp only [processOutbound, hdst, hlookup, Option.bind_eq_bind, Option.bind_some, Option.bind_none]
  · intro row hrow n hexit hkept ha hlongest
    exact h.link hget hrow hexit hkept ha hlongest

open NoeioDaemon.Sample in
/-- The peers 2 and 1 advertise the same LAN, and neither has a direct path. -/
example :
    let s := run oneNic true [] [derper]
      [.syncRoute (push 5 2 (.v4 (.ofOctets 10 0 0 2)) [lan]),
        .syncRoute (push 5 1 (.v4 (.ofOctets 10 0 0 1)) [lan]), .refresh []]
    (s.daemon.listRoutes RouteEnv.Sample.linux none).routes.map
        (fun row => (row.peerId, row.via, row.state, row.path)) =
      [(1, "10.0.0.1", .active, .relay), (2, "10.0.0.2", .standby, .relay)] := by
  decide +kernel

end Listing

end Noeio
