import Noeio.Daemon.Steering

/-!
# What a tombstone removes

A tombstone names a peer id, and the router finds the peer to remove through its index. A
stored peer the index has lost track of survives, with its host route and its subnets.
`tombstone_removes_iff` says exactly when that happens: some peer of that id is not the one
the index resolves the id to. It takes no bad luck, only an id that comes with a second
virtual IP (`zombie`).

A tombstone also carries a version, which nobody reads. So one that was overtaken by a newer
registration of its peer removes it all the same (`stale_tombstone_refused_iff`,
`late_tombstone_removes`).
-/

namespace Noeio.NoeioDaemon

variable (nics : AList (fun _ : PeerId => IpAddr)) (acceptRoutes : Bool)
  (advertised : List Ipv4Cidr) (controlPlane : List IpAddr)

/-- Nothing of the peer id `x` is left: no stored peer, and after a refresh no subnet and no
desired route. -/
structure Erased (d : NoeioDaemon) (interfaces : List Interface) (x : PeerId) : Prop where
  peers : ∀ ip p, d.router.get ip = some p → p.info.peerId ≠ x
  subnets : ∀ cidr exit, (cidr, exit) ∈ (d.refreshSubnets interfaces).router.subnets → exit ≠ x
  routes : ∀ key ∈ (d.refreshSubnets interfaces).desiredRoutes,
    ∀ r ∈ (d.refreshSubnets interfaces).routeSnapshot, r.Contributes key → r.peerId ≠ x

/-- Both derived tables only mention stored peers. -/
theorem erased_iff {d : NoeioDaemon} {interfaces : List Interface} {x : PeerId} :
    Erased d interfaces x ↔ ∀ ip p, d.router.get ip = some p → p.info.peerId ≠ x := by
  constructor
  · exact Erased.peers
  · intro h
    refine ⟨h, ?_, ?_⟩
    · intro cidr exit hsub
      obtain ⟨ip, p, -, hp, rfl, -⟩ := mem_subnets_refreshSubnets hsub
      exact h ip p hp
    · intro key _ r hr _
      obtain ⟨p, hmem, rfl⟩ := List.mem_map.mp hr
      obtain ⟨ip, hp⟩ := Router.mem_listPeers.mp hmem
      exact h ip p hp

/-- After any pushes, a tombstone for `x` removes everything of `x` if and only if every
stored peer of that id is stored under the IP that the index has for it. -/
theorem tombstone_removes_iff (es : List Event) (interfaces : List Interface) (m : SyncRoute)
    (hwithdrawn : m.peer.withdrawn = true) :
    Erased ((run nics acceptRoutes advertised controlPlane es).applySyncRoute m.peer
        m.localPeerId).1 interfaces m.peer.peerId ↔
      ∀ ip p, (run nics acceptRoutes advertised controlPlane es).router.get ip = some p →
        p.info.peerId = m.peer.peerId →
          (run nics acceptRoutes advertised controlPlane es).router.byPeerId.lookup m.peer.peerId =
            some ip := by
  generalize run nics acceptRoutes advertised controlPlane es = d
  have hstore : (d.applySyncRoute m.peer m.localPeerId).1.router.store =
      d.router.store.removeById Router.peerIdOf m.peer.peerId := by
    rw [← Router.store_removeByPeerId, ← Router.receive_withdrawn d.router hwithdrawn]
    rfl
  rw [erased_iff]
  simp only [← Router.get_store, hstore]
  exact IndexedStore.removeById_all_iff m.peer.peerId

namespace Sample

/-- The tombstone of peer 1. -/
def bury : SyncRoute := ⟨(push 5 1 (.v4 (.ofOctets 10 0 0 1)) []).peer.withWithdrawn true, 7⟩

/-- Peer 1 leaves the node of `joined` without a trace. -/
theorem tombstone_removes_joined :
    ((run oneNic true [] [derper] joined).router.getByPeerId 1).isSome = true ∧
      Erased ((run oneNic true [] [derper] joined).applySyncRoute bury.peer 7).1 [] 1 := by
  refine ⟨by decide +kernel, (tombstone_removes_iff _ _ _ _ joined [] bury rfl).mpr ?_⟩
  intro ip p hp hid
  have hone : Router.OneIpPerId (pushes joined) := by
    unfold Router.OneIpPerId
    decide
  exact ((synced_run oneNic true [] [derper] joined).exact hone).2 _ ip p hp hid

/-- Peer 1 moves to another virtual IP. -/
def moved : List Event :=
  [.syncRoute (push 5 1 (.v4 (.ofOctets 10 0 0 1)) [lan]),
    .syncRoute (push 6 1 (.v4 (.ofOctets 10 0 0 2)) [])]

def afterBury : NoeioDaemon := ((run oneNic true [] [derper] moved).applySyncRoute bury.peer 7).1

/-- The tombstone removes its second entry only: the first one stays, and with it the route
to the LAN. -/
theorem zombie :
    bury.peer.withdrawn = true ∧ bury.peer.peerId = 1 ∧
      (afterBury.router.get (.v4 (.ofOctets 10 0 0 1))).map (·.info.peerId) = some 1 ∧
      (lan, 1) ∈ (afterBury.refreshSubnets []).router.subnets ∧
      ⟨7, lan⟩ ∈ (afterBury.refreshSubnets []).desiredRoutes := by
  decide +kernel

end Sample

/-! ## Stale tombstones -/

/-- The push is refused and leaves the router as it was. -/
def Refused (r : Router) (m : SyncRoute) : Prop :=
  (r.applySyncRoute m.peer m.localPeerId).2 = false ∧
    (r.applySyncRoute m.peer m.localPeerId).1 = r

/-- **Stale tombstones**: whatever its version, a tombstone is refused if and only if the index
does not resolve its id to a stored peer. After pushes in which no id is seen with two virtual
IPs the index resolves the id of every stored peer, so a tombstone for one is never refused. -/
theorem stale_tombstone_refused_iff (m : SyncRoute) (hwithdrawn : m.peer.withdrawn = true) :
    (∀ r, Refused r m ↔ r.getByPeerId m.peer.peerId = none) ∧
      ∀ ms, Router.OneIpPerId ms → ∀ ip p, (Router.new.applyAll ms).get ip = some p →
        p.info.peerId = m.peer.peerId → ¬ Refused (Router.new.applyAll ms) m := by
  have hiff : ∀ r, Refused r m ↔ r.getByPeerId m.peer.peerId = none := by
    intro r
    unfold Refused Router.applySyncRoute Router.removeByPeerId Router.getByPeerId
    rw [if_pos hwithdrawn]
    cases hindex : r.byPeerId.lookup m.peer.peerId with
    | none => simp
    | some ip =>
      unfold Router.remove Router.get
      cases hpeer : r.peers.lookup ip with
      | none => simp [hpeer]
      | some p => simp [hpeer]
  refine ⟨hiff, fun ms hone ip p hp hid hrefused => ?_⟩
  have hexact := (Router.synced_applyAll ms).exact hone
  have hget := hexact.getById (k := ip) (v := p) hp
  rw [Router.getById_store, Router.peerIdOf, hid, (hiff _).mp hrefused] at hget
  cases hget

namespace Sample

/-- Peer 1 has registered again, with a newer version than its tombstone. -/
def renewed : Router :=
  Router.new.applyAll [push 6 1 (.v4 (.ofOctets 10 0 0 1)) []]

/-- The tombstone that comes late removes it. -/
theorem late_tombstone_removes :
    bury.peer.withdrawn = true ∧
      (renewed.get (.v4 (.ofOctets 10 0 0 1))).map (·.info.resourceVersion) = some 6 ∧
      bury.peer.resourceVersion = 5 ∧ (renewed.applySyncRoute bury.peer 7).2 = true ∧
      (renewed.applySyncRoute bury.peer 7).1.get (.v4 (.ofOctets 10 0 0 1)) = none := by
  decide +kernel

/-- A peer whose id the index has lost: it went to another peer, which then took a new id. -/
def lostRouter : Router :=
  Router.new.applyAll [push 6 1 (.v4 (.ofOctets 10 0 0 1)) [],
    push 6 1 (.v4 (.ofOctets 10 0 0 2)) [], push 7 2 (.v4 (.ofOctets 10 0 0 2)) []]

theorem stale_tombstone_refused_lost :
    (lostRouter.get (.v4 (.ofOctets 10 0 0 1))).map (·.info.peerId) = some 1 ∧
      Refused lostRouter bury ∧ ¬ Refused renewed bury := by
  obtain ⟨hiff, hnever⟩ := stale_tombstone_refused_iff bury rfl
  have hone : Router.OneIpPerId [push 6 1 (.v4 (.ofOctets 10 0 0 1)) []] := by
    unfold Router.OneIpPerId
    decide
  have hsome : (renewed.get (.v4 (.ofOctets 10 0 0 1))).map (·.info.peerId) = some 1 := by
    decide +kernel
  obtain ⟨p, hp, hid⟩ := Option.map_eq_some_iff.mp hsome
  exact ⟨by decide +kernel, (hiff lostRouter).mpr (by decide +kernel), hnever _ hone _ p hp hid⟩

end Sample

end Noeio.NoeioDaemon
