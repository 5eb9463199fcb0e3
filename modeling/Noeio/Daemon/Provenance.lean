import Noeio.Daemon.InboundLoop

/-!
# Where a node's routes come from

A node acts on whatever arrives at its socket, from anywhere: deliveries, signalling, STUN responses
and garbage. Only one kind of datagram reaches the router: a `SyncRoute` whose source has the IP of
the derper that is the current one at that moment (`FromDerper`). Between the datagrams the node
registers nics, changes what it advertises and decides the subnets again.

`routes_from_derper` is about whole runs. As far as the node has read, its router stores what these
pushes make in their order, and nothing else has a part in it. So every stored peer, and every route
that the kernel is asked for, goes back to a push of the derper.

A panic ends the reader and leaves the rest of the node running, so a run may have stopped reading.
-/

namespace Noeio

/-- The datagram is a push from the current derper. -/
def FromDerper (env : InboundEnv) (datagram : List UInt8) (src : SocketAddr) (m : SyncRoute) : Prop :=
  datagram.length < maxBufferSize ∧ env.derper.map (·.ip) = some src.ip ∧
    ∃ port payload, datagram = (NoeioPacket.new ⟨.syncRoute, m.localPeerId, port⟩ payload).inner ∧
      env.peerInfo payload = .ok m.peer

/-- A `SyncRoute` is taken from the current derper, and nothing else is taken for one. -/
theorem processInbound_eq_syncRoute {env : InboundEnv} {r : Router} {datagram : List UInt8}
    {src : SocketAddr} {peer : PeerInfo} {localPeerId : PeerId} :
    processInbound env r datagram src = .syncRoute peer localPeerId ↔
      FromDerper env datagram src ⟨peer, localPeerId⟩ := by
  have hdispatch : ∀ header, dispatchSignalling r header datagram src ≠ .syncRoute peer localPeerId := by
    intro header
    unfold dispatchSignalling
    split <;> simp
  constructor
  · intro h
    unfold processInbound at h
    split at h
    · cases h
    rename_i hsize
    split at h
    · cases h
    rename_i packet hpacket
    obtain ⟨header, hheader, rfl⟩ := Option.map_eq_some_iff.mp hpacket
    obtain ⟨rest, rfl⟩ := PacketHeader.fromBytes_eq_some_iff.mp hheader
    have hparse : NoeioPacket.parseHeader ⟨header.toBytes ++ rest, header.packetType⟩ = some header :=
      hheader
    rw [hparse] at h
    simp only at h
    split at h
    · cases h
    · cases h
    · cases h
    · split at h <;> cases h
    · rename_i htype
      split at h
      · cases h
      rename_i hsrc
      have hpayload : NoeioPacket.payload ⟨header.toBytes ++ rest, header.packetType⟩ = some rest :=
        NoeioPacket.payload_new header rest
      rw [hpayload, Option.map_some] at h
      split at h
      · rename_i peer' hpeer
        obtain ⟨rfl, rfl⟩ := Inbound.syncRoute.inj h
        refine ⟨Nat.not_le.mp hsize, not_not.mp hsrc, header.port, rest, ?_, Option.some.inj hpeer⟩
        simp only [NoeioPacket.new, ← htype]
      · cases h
    · exact absurd h (hdispatch _)
    · exact absurd h (hdispatch _)
    · exact absurd h (hdispatch _)
    · split at h
      · split at h
        · cases h
        · split at h
          · exact absurd h (hdispatch _)
          · cases h
      · split at h
        · exact absurd h (hdispatch _)
        · cases h
  · rintro ⟨hsize, hsrc, port, payload, rfl, hpeer⟩
    have hread := NoeioPacket.tryFrom_new ⟨.syncRoute, localPeerId, port⟩ payload
    have hparse := NoeioPacket.parseHeader_new ⟨.syncRoute, localPeerId, port⟩ payload
    have hpayload := NoeioPacket.payload_new ⟨.syncRoute, localPeerId, port⟩ payload
    rw [processInbound, if_neg (Nat.not_le.mpr hsize)]
    simp only [hread, hparse, hpayload, hsrc, Option.map_some, hpeer]
    exact if_neg (not_not.mpr rfl)

/-! ## Runs of a node -/

/-- A node, and whether its reader still runs. -/
structure Reading where
  daemon : Daemon
  reading : Bool

namespace Reading

inductive Event where
  /-- The datagram arrives from `src`; `env` is what the reader finds around it. -/
  | recv (env : LoopEnv) (datagram : List UInt8) (src : SocketAddr)
  | refresh (interfaces : List Interface)
  | register (peerId : PeerId) (ip : IpAddr)
  | addPeer (peer : PeerInfo)
  | setAdvertised (routes : List Ipv4Cidr) (now : UInt64)

def step (self : Reading) : Event → Reading
  | .recv env datagram src =>
    if self.reading then
      match self.daemon.inbound env datagram src with
      | .ok (daemon, _) => { self with daemon }
      | .error _ => { self with reading := false }
    else self
  | .refresh interfaces =>
    { self with daemon :=
        { self.daemon with toNoeioDaemon := self.daemon.toNoeioDaemon.refreshSubnets interfaces } }
  | .register peerId ip => { self with daemon := self.daemon.register peerId ip }
  | .addPeer peer => { self with daemon := (self.daemon.addPeer peer).1 }
  | .setAdvertised routes now => { self with daemon := self.daemon.setAdvertised routes now }

/-- The push that the event brings, if it brings one. -/
def pushOf : Event → Option SyncRoute
  | .recv env datagram src =>
    match processInbound env.toInboundEnv .new datagram src with
    | .syncRoute peer localPeerId => some ⟨peer, localPeerId⟩
    | _ => none
  | _ => none

/-- The pushes from the current derper among the events. -/
def pushes (es : List Event) : List SyncRoute := es.filterMap pushOf

/-- A node that has heard of nobody. -/
def boot (nics : AList (fun _ : PeerId => IpAddr)) (acceptRoutes : Bool) (advertised : List Ipv4Cidr)
    (controlPlane : List IpAddr) : Reading :=
  ⟨⟨.boot nics acceptRoutes advertised controlPlane, none⟩, true⟩

theorem pushOf_eq_some {e : Event} {m : SyncRoute} :
    pushOf e = some m ↔ ∃ env datagram src, e = .recv env datagram src ∧
      FromDerper env.toInboundEnv datagram src m := by
  constructor
  · intro h
    unfold pushOf at h
    split at h
    · rename_i env datagram src
      split at h
      · rename_i peer localPeerId hprocess
        obtain rfl := Option.some.inj h
        exact ⟨env, datagram, src, rfl, processInbound_eq_syncRoute.mp hprocess⟩
      · cases h
    · cases h
  · rintro ⟨env, datagram, src, rfl, hfrom⟩
    simp only [pushOf, processInbound_eq_syncRoute.mpr hfrom]

theorem mem_pushes {es : List Event} {m : SyncRoute} :
    m ∈ pushes es ↔ ∃ env datagram src, .recv env datagram src ∈ es ∧
      FromDerper env.toInboundEnv datagram src m := by
  simp only [pushes, List.mem_filterMap, pushOf_eq_some]
  constructor
  · rintro ⟨e, he, env, datagram, src, rfl, hfrom⟩
    exact ⟨env, datagram, src, he, hfrom⟩
  · rintro ⟨env, datagram, src, he, hfrom⟩
    exact ⟨_, he, env, datagram, src, rfl, hfrom⟩

/-! ## What reaches the router -/

/-- The store after a push depends on the store only. -/
theorem store_receive_congr {r r' : Router} (h : r.store = r'.store) (m : SyncRoute) :
    (r.receive m).store = (r'.receive m).store := by
  have hget : ∀ ip, r.get ip = r'.get ip := by
    intro ip
    rw [← Router.get_store, h, Router.get_store]
  cases hw : m.peer.withdrawn with
  | true =>
    rw [Router.receive_withdrawn r hw, Router.receive_withdrawn r' hw,
      Router.store_removeByPeerId, Router.store_removeByPeerId, h]
  | false =>
    simp only [Router.receive, Router.applySyncRoute, hw, Bool.false_eq_true, if_false]
    cases hg : r.get m.peer.noeioIp with
    | none =>
      rw [hget] at hg
      simp only [hg, Router.store_insert, h]
    | some q =>
      have hg' := hg
      rw [hget] at hg'
      simp only [hg']
      split
      · rw [Router.store_updateInfo hg, Router.store_updateInfo hg', h]
      · exact h

/-- A datagram that the reader survives brings its push to the router, and does nothing else to
it. -/
theorem router_inbound {d d' : Daemon} {env : LoopEnv} {datagram : List UInt8} {src : SocketAddr}
    {effects : List InboundEffect} (h : d.inbound env datagram src = .ok (d', effects)) :
    d'.router = d.router.applyAll (pushOf (.recv env datagram src)).toList := by
  by_cases hpush : ∃ m, FromDerper env.toInboundEnv datagram src m
  · obtain ⟨m, hm⟩ := hpush
    have hprocess : processInbound env.toInboundEnv d.router datagram src =
        .syncRoute m.peer m.localPeerId := processInbound_eq_syncRoute.mpr hm
    rw [pushOf_eq_some.mpr ⟨env, datagram, src, rfl, hm⟩]
    simp only [Daemon.inbound, hprocess] at h
    obtain ⟨rfl, -⟩ := Prod.mk.inj (Except.ok.inj h)
    rfl
  · have hnone : pushOf (.recv env datagram src) = none := by
      cases hof : pushOf (.recv env datagram src) with
      | none => rfl
      | some m =>
        obtain ⟨_, _, _, heq, hfrom⟩ := pushOf_eq_some.mp hof
        obtain ⟨rfl, rfl, rfl⟩ := Event.recv.inj heq
        exact absurd ⟨m, hfrom⟩ hpush
    rw [hnone]
    unfold Daemon.inbound at h
    split at h
    · obtain ⟨rfl, -⟩ := Prod.mk.inj (Except.ok.inj h)
      rfl
    · obtain ⟨rfl, -⟩ := Prod.mk.inj (Except.ok.inj h)
      rfl
    · obtain ⟨rfl, -⟩ := Prod.mk.inj (Except.ok.inj h)
      rfl
    · obtain ⟨rfl, -⟩ := Prod.mk.inj (Except.ok.inj h)
      rfl
    · rename_i peer localPeerId hprocess
      exact absurd ⟨_, processInbound_eq_syncRoute.mp hprocess⟩ hpush
    · -- a STUN response changes the host info only
      unfold Daemon.handleStun at h
      split at h
      · obtain ⟨rfl, -⟩ := Prod.mk.inj (Except.ok.inj h)
        rfl
      · cases h
      · split at h
        · cases h
        · obtain ⟨rfl, -⟩ := Prod.mk.inj (Except.ok.inj h)
          unfold Daemon.stunResponse
          split <;> rfl

/-- A push from the current derper reaches the router, and the reader goes on. -/
theorem step_of_fromDerper {s : Reading} (hr : s.reading = true) {env : LoopEnv}
    {datagram : List UInt8} {src : SocketAddr} {m : SyncRoute}
    (h : FromDerper env.toInboundEnv datagram src m) :
    (s.step (.recv env datagram src)).reading = true ∧
      (s.step (.recv env datagram src)).daemon.router = s.daemon.router.receive m := by
  have hprocess : processInbound env.toInboundEnv s.daemon.router datagram src =
      .syncRoute m.peer m.localPeerId := processInbound_eq_syncRoute.mpr h
  simp only [step, hr, if_true, Daemon.inbound, hprocess]
  exact ⟨trivial, rfl⟩

/-- Neither `unwrap` of the reader fails on the event. -/
def Survives : Event → Prop
  | .recv env datagram _ => Survivable env.decodeStun datagram
  | _ => True

/-- Nothing else changes the store, and the reader goes on if it survives. -/
theorem step_of_pushOf_eq_none {s : Reading} (hr : s.reading = true) {e : Event}
    (hpush : pushOf e = none) (hsurvives : Survives e) :
    (s.step e).reading = true ∧ (s.step e).daemon.router.store = s.daemon.router.store := by
  cases e with
  | recv env datagram src =>
    cases hin : s.daemon.inbound env datagram src with
    | error panic =>
      -- only a STUN response can be fatal, and this one is whole
      obtain ⟨result, hresult⟩ : ∃ result, s.daemon.inbound env datagram src = .ok result := by
        unfold Daemon.inbound
        split
        · exact ⟨_, rfl⟩
        · exact ⟨_, rfl⟩
        · exact ⟨_, rfl⟩
        · exact ⟨_, rfl⟩
        · exact ⟨_, rfl⟩
        · rename_i hforeign
          obtain ⟨hlen, hheader⟩ := processInbound_eq_foreign.mp hforeign
          exact handleStun_ok_iff.mpr (hsurvives hlen hheader)
      rw [hin] at hresult
      cases hresult
    | ok result =>
      obtain ⟨daemon, effects⟩ := result
      have hrouter := router_inbound hin
      rw [hpush] at hrouter
      simp only [step, hr, if_true, hin]
      exact ⟨trivial, congrArg Router.store hrouter⟩
  | refresh interfaces => exact ⟨hr, rfl⟩
  | register peerId ip => exact ⟨hr, rfl⟩
  | addPeer peer =>
    refine ⟨hr, ?_⟩
    simp only [step, Daemon.toNoeioDaemon_addPeer]
  | setAdvertised routes now =>
    refine ⟨hr, ?_⟩
    simp only [step, Daemon.toNoeioDaemon_setAdvertised]

/-- The reader has read `pre`, and the store is the work of the pushes among it. -/
structure Read (es : List Event) (s : Reading) (pre : List Event) : Prop where
  isPrefix : pre <+: es
  all : s.reading = true → pre = es
  store : s.daemon.router.store = (Router.new.applyAll (pushes pre)).store

/-- An event that brings no push and leaves the store and the reader alone. -/
theorem Read.quiet {es pre : List Event} {s s' : Reading} (h : Read es s pre) {e : Event}
    (hpush : pushOf e = none) (hreading : s'.reading = s.reading)
    (hstore : s'.daemon.router.store = s.daemon.router.store) :
    ∃ pre, Read (es ++ [e]) s' pre := by
  cases hr : s.reading with
  | true =>
    obtain rfl := h.all hr
    refine ⟨pre ++ [e], List.prefix_rfl, fun _ => rfl, ?_⟩
    have hsame : pushes (pre ++ [e]) = pushes pre := by
      rw [pushes, List.filterMap_append, List.filterMap_cons_none hpush, List.filterMap_nil,
        List.append_nil, pushes]
    rw [hstore, h.store, hsame]
  | false =>
    refine ⟨pre, h.isPrefix.trans (List.prefix_append _ _), fun hr' => ?_, hstore.trans h.store⟩
    rw [hreading, hr] at hr'
    cases hr'

theorem Read.recv {es pre : List Event} {s : Reading} (h : Read es s pre) (env : LoopEnv)
    (datagram : List UInt8) (src : SocketAddr) :
    ∃ pre, Read (es ++ [.recv env datagram src]) (s.step (.recv env datagram src)) pre := by
  have hgrow : pre <+: es ++ [.recv env datagram src] := h.isPrefix.trans (List.prefix_append _ _)
  cases hr : s.reading with
  | false =>
    have hstep : s.step (.recv env datagram src) = s := by simp [step, hr]
    refine ⟨pre, hgrow, fun hr' => ?_, ?_⟩
    · rw [hstep, hr] at hr'
      cases hr'
    · rw [hstep, h.store]
  | true =>
    obtain rfl := h.all hr
    cases hin : s.daemon.inbound env datagram src with
    | error panic =>
      have hstep : s.step (.recv env datagram src) = { s with reading := false } := by
        simp [step, hr, hin]
      rw [hstep]
      exact ⟨pre, hgrow, nofun, h.store⟩
    | ok result =>
      obtain ⟨daemon, effects⟩ := result
      have hstep : s.step (.recv env datagram src) = { s with daemon } := by
        simp [step, hr, hin]
      rw [hstep]
      refine ⟨pre ++ [.recv env datagram src], List.prefix_rfl, fun _ => rfl, ?_⟩
      have hrouter := router_inbound hin
      change daemon.router.store = _
      rw [hrouter, pushes, List.filterMap_append]
      cases hpush : pushOf (.recv env datagram src) with
      | none =>
        rw [List.filterMap_cons_none hpush, List.filterMap_nil, List.append_nil]
        exact h.store
      | some m =>
        rw [List.filterMap_cons_some hpush, List.filterMap_nil, Router.applyAll, Router.applyAll,
          Runs.run_concat]
        exact store_receive_congr h.store m

theorem read_run (nics : AList (fun _ : PeerId => IpAddr)) (acceptRoutes : Bool)
    (advertised : List Ipv4Cidr) (controlPlane : List IpAddr) (es : List Event) :
    ∃ pre, Read es (Runs.run step (boot nics acceptRoutes advertised controlPlane) es) pre := by
  refine Runs.invariant_of_step (P := fun es s => ∃ pre, Read es s pre)
    (s := boot nics acceptRoutes advertised controlPlane) ?_ (fun es s e h => ?_) es
  · exact ⟨[], List.prefix_rfl, fun _ => rfl, rfl⟩
  · obtain ⟨pre, h⟩ := h
    cases e with
    | recv env datagram src => exact h.recv env datagram src
    | refresh interfaces => exact h.quiet rfl rfl rfl
    | register peerId ip => exact h.quiet rfl rfl rfl
    | addPeer peer =>
      refine h.quiet rfl rfl ?_
      simp only [step, Daemon.toNoeioDaemon_addPeer]
    | setAdvertised routes now =>
      refine h.quiet rfl rfl ?_
      simp only [step, Daemon.toNoeioDaemon_setAdvertised]

/-- The router of a node is made by its derpers. In every run the store of the router is what the
pushes from the then current derper make of an empty one, in their order, as far as the node has
read. Every stored peer has the identity of one of these pushes, with our id in its network from the
header. And every route that the kernel is asked for leaves through a registered nic, for a push that
is addressed to this nic: it is the host route of the pushed virtual IP or an advertised subnet of a
push of the same peer. -/
theorem routes_from_derper (nics : AList (fun _ : PeerId => IpAddr)) (acceptRoutes : Bool)
    (advertised : List Ipv4Cidr) (controlPlane : List IpAddr) (es : List Event) :
    let s := Runs.run step (boot nics acceptRoutes advertised controlPlane) es
    (∃ pre, pre <+: es ∧ (s.reading = true → pre = es) ∧
      s.daemon.router.store = (Router.new.applyAll (pushes pre)).store) ∧
    (∀ ip p, s.daemon.router.get ip = some p → p.info.withdrawn = false ∧
      ∃ env datagram src, .recv env datagram src ∈ es ∧
        FromDerper env.toInboundEnv datagram src ⟨p.info, p.localPeerId⟩) ∧
    ∀ interfaces, ∀ key ∈ (s.daemon.toNoeioDaemon.refreshSubnets interfaces).desiredRoutes,
      key.nic ∈ s.daemon.nicPeers ∧ ∃ m ∈ pushes es, m.localPeerId = key.nic ∧
        ((∃ a, m.peer.noeioIp = .v4 a ∧ key.cidr = .host a) ∨
          ∃ m' ∈ pushes es, m'.peer.peerId = m.peer.peerId ∧
            ∃ c ∈ m'.peer.advertisedRoutes, key.cidr = c.network) := by
  intro s
  obtain ⟨pre, hpre, hall, hstore⟩ := read_run nics acceptRoutes advertised controlPlane es
  have hsynced : s.daemon.router.Synced (pushes pre) :=
    (Router.synced_applyAll (pushes pre)).of_store hstore
  have hheard : ∀ ip p, s.daemon.router.get ip = some p → Router.seen p ∈ pushes es := by
    intro ip p hp
    exact (hpre.sublist.filterMap _).subset (hsynced.heard ip p hp).1
  refine ⟨⟨pre, hpre, hall, hstore⟩, fun ip p hp => ?_, fun interfaces key hkey => ?_⟩
  · exact ⟨(hsynced.heard ip p hp).2, mem_pushes.mp (hheard ip p hp)⟩
  · obtain ⟨ip, p, hp, hnic, hkeynic, hroute⟩ := NoeioDaemon.mem_desiredRoutes.mp hkey
    refine ⟨hkeynic ▸ hnic, Router.seen p, hheard ip p hp, hkeynic.symm, ?_⟩
    rcases hroute with hhost | ⟨cidr, hsubnet, hcidr⟩
    · exact Or.inl hhost
    · obtain ⟨ip', p', c, hp', hid, hc, rfl, -⟩ := NoeioDaemon.mem_subnets_refreshSubnets hsubnet
      refine Or.inr ⟨Router.seen p', hheard ip' p' hp', hid, c, hc, ?_⟩
      rw [hcidr, Ipv4Cidr.network_network]

end Reading

end Noeio
