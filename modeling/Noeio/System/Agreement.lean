import Noeio.Derp.Relay
import Noeio.System.Broadcast

/-!
# Agreement at quiescence

Once nothing is pending and nothing is in flight, do the nodes store what the derper stores?
Healthy peers cause no further pushes, so whatever the last broadcast left behind stays.

The answer is no: a peer that expires and reports again is queued as gone, and when the sync
task runs before the gone task, the tombstone is the last word (`forgotten`). It is yes in
every run of `Orderly` steps (`agreement_at_quiescence`). The condition on the gone task is
the point: a tombstone for a live peer is harmless as long as a sync is still to come. The
others keep pushes comparable: reports carry no tombstones, an id stays in one network, what
is pushed into a network under one virtual IP has one id, and an id that comes back does not
come back with an older version.

The invariant (`Coherent`) is about the eventual routers. All they store comes from reports
(`Known`), never newer than what the table has (`newest`), so a sync, which pushes the stored
version of every live peer, settles every live peer at every node.
-/

namespace Noeio.System

open Derp

variable {Node : Type*}

/-! ## Orderly runs -/

/-- One of the reports among `es`, for `network`, lists `i` in it. -/
def Listed (es : List (Event Node)) (network : NetworkId) (host : HostInfo) (i : PeerInfo) : Prop :=
  (∃ addr, .report addr network host ∈ es) ∧ i ∈ host.peers ∧ i.networkId = network

/-- One of the reports among `es` is stored for `network` and has the entry `i`, in that network
or not: the broadcasts to `network` carry all of them. -/
def Pushed (es : List (Event Node)) (network : NetworkId) (host : HostInfo) (i : PeerInfo) : Prop :=
  (∃ addr, .report addr network host ∈ es) ∧ (∃ k ∈ host.peers, k.networkId = network) ∧
    i ∈ host.peers

/-- Each id is listed in one network, each virtual IP pushed into a network comes with one id,
and an id listed in a network is pushed into it by entries of that network only. -/
structure Registry (es : List (Event Node)) : Prop where
  network : ∀ {n h i n' h' i'}, Listed es n h i → Listed es n' h' i' →
    i.peerId = i'.peerId → n = n'
  address : ∀ {n h i h' i'}, Pushed es n h i → Pushed es n h' i' →
    i.noeioIp = i'.noeioIp → i.peerId = i'.peerId
  own : ∀ {n h i h' i'}, Pushed es n h i → Listed es n h' i' →
    i.peerId = i'.peerId → i.networkId = n

/-- The event `e`, taken in `s` after `es`, keeps the pushes in order. -/
structure Orderly (es : List (Event Node)) (s : State Node) (e : Event Node) : Prop where
  /-- A report that is stored carries no tombstones. -/
  live : ∀ addr network host, e = .report addr network host →
    (∃ i ∈ host.peers, i.networkId = network) → ∀ i ∈ host.peers, i.withdrawn = false
  registry : Registry (es ++ [e])
  /-- A peer that is not alive is not reported with an older version than before. -/
  version : ∀ addr network host, e = .report addr network host →
    ∀ i ∈ host.peers, i.networkId = network → s.manager.get i.peerId = none →
      ∀ n h j, Listed es n h j → j.peerId = i.peerId → h.resourceVersion ≤ host.resourceVersion
  /-- A `Gone` is taken while a sync is still to come, or none of its peers is alive. -/
  gone : ∀ peers dead rest, e = .gone peers → s.manager.gone = dead :: rest →
    s.manager.trigger = true ∨
      ∀ i ∈ dead.info.peers, i.networkId = dead.network → s.manager.get i.peerId = none

theorem Listed.concat {es : List (Event Node)} {n : NetworkId} {h : HostInfo} {i : PeerInfo}
    (hl : Listed es n h i) (e : Event Node) : Listed (es ++ [e]) n h i := by
  obtain ⟨⟨addr, hmem⟩, hi⟩ := hl
  exact ⟨⟨addr, List.mem_append_left _ hmem⟩, hi⟩

theorem Pushed.concat {es : List (Event Node)} {n : NetworkId} {h : HostInfo} {i : PeerInfo}
    (hp : Pushed es n h i) (e : Event Node) : Pushed (es ++ [e]) n h i := by
  obtain ⟨⟨addr, hmem⟩, hi⟩ := hp
  exact ⟨⟨addr, List.mem_append_left _ hmem⟩, hi⟩

/-- All entries of a report that lists a peer in its network are pushed. -/
theorem Listed.pushed {es : List (Event Node)} {n : NetworkId} {h : HostInfo} {i j : PeerInfo}
    (hl : Listed es n h j) (hi : i ∈ h.peers) : Pushed es n h i :=
  ⟨hl.1, ⟨j, hl.2.1, hl.2.2⟩, hi⟩

theorem Listed.of_concat {es : List (Event Node)} {e : Event Node} {n : NetworkId} {h : HostInfo}
    {i : PeerInfo} (hl : Listed (es ++ [e]) n h i) :
    Listed es n h i ∨ ∃ addr, e = .report addr n h ∧ i ∈ h.peers ∧ i.networkId = n := by
  obtain ⟨⟨addr, hmem⟩, hi⟩ := hl
  rcases List.mem_append.mp hmem with hmem | hmem
  · exact Or.inl ⟨⟨addr, hmem⟩, hi⟩
  · exact Or.inr ⟨addr, (List.mem_singleton.mp hmem).symm, hi⟩

/-- An event that reports nothing lists nothing. -/
theorem Listed.of_quiet {es : List (Event Node)} {e : Event Node} {n : NetworkId} {h : HostInfo}
    {i : PeerInfo} (hl : Listed (es ++ [e]) n h i)
    (hreport : ∀ addr network host, e ≠ .report addr network host) :
    Listed es n h i := by
  rcases hl.of_concat with hl | ⟨addr, heq, -⟩
  · exact hl
  · exact absurd heq (hreport addr n h)

/-! ## The invariant -/

variable (hostOf : PeerId → Node)

/-- The entry was reported for `x`, and carries no tombstones. -/
def Stored (es : List (Event Node)) (x : PeerId) (d : PeerEntry) : Prop :=
  (∃ i, Listed es d.network d.info i ∧ i.peerId = x) ∧ ∀ i ∈ d.info.peers, i.withdrawn = false

/-- What the node stores as `info` was pushed, with this version, into a network in which a
peer of the node was listed. -/
def Known (es : List (Event Node)) (node : Node) (info : PeerInfo) : Prop :=
  ∃ n h i t h' j, Pushed es n h i ∧ i.peerId = info.peerId ∧ i.noeioIp = info.noeioIp ∧
    h.resourceVersion = info.resourceVersion ∧ hostOf t = node ∧ Listed es n h' j ∧ j.peerId = t

/-- `q`, alone on its node, will know the live peer `p` as the table does. -/
def Settled [DecidableEq Node] (s : State Node) (p q : PeerId) : Prop :=
  ∀ d d', s.manager.get p = some d → s.manager.get q = some d' → d.network = d'.network →
    ∀ i ∈ d.info.peers, i.peerId = p →
      ∃ peer, (s.eventual (hostOf q)).get i.noeioIp = some peer ∧ peer.info.peerId = p ∧
        peer.info.resourceVersion = d.info.resourceVersion

structure Coherent [DecidableEq Node] (es : List (Event Node)) (s : State Node) : Prop where
  registry : Registry es
  entries : s.manager.Entries (Stored es)
  newest : ∀ x d, s.manager.get x = some d →
    ∀ n h i, Listed es n h i → i.peerId = x → h.resourceVersion ≤ d.info.resourceVersion
  indexed : ∀ node, (s.eventual node).WellIndexed
  known : ∀ node, (s.eventual node).store.All fun _ p => Known hostOf es node p.info
  settled : s.manager.trigger = false → ∀ p q, p ≠ q → (∀ t, hostOf t = hostOf q → t = q) →
    Settled hostOf s p q

variable {hostOf}

theorem Stored.concat {es : List (Event Node)} {x : PeerId} {d : PeerEntry} (h : Stored es x d)
    (e : Event Node) : Stored (es ++ [e]) x d := by
  obtain ⟨⟨i, hi, hid⟩, hall⟩ := h
  exact ⟨⟨i, hi.concat e, hid⟩, hall⟩

theorem Known.concat {es : List (Event Node)} {node : Node} {info : PeerInfo}
    (h : Known hostOf es node info) (e : Event Node) : Known hostOf (es ++ [e]) node info := by
  obtain ⟨n, h, i, t, h', j, hi, hid, hip, hv, ht, hj, hjt⟩ := h
  exact ⟨n, h, i, t, h', j, hi.concat e, hid, hip, hv, ht, hj.concat e, hjt⟩

/-- What the node of `q` alone stores under a virtual IP has the id that this IP is pushed with
in the network of `q`. -/
theorem Registry.peerId_eq {es : List (Event Node)} (hreg : Registry es) {q : PeerId}
    (hq : ∀ t, hostOf t = hostOf q → t = q) {n : NetworkId} {hq' : HostInfo} {j : PeerInfo}
    (hj : Listed es n hq' j) (hjq : j.peerId = q) {h : HostInfo} {i : PeerInfo}
    (hi : Pushed es n h i) {info : PeerInfo} (hknown : Known hostOf es (hostOf q) info)
    (hip : info.noeioIp = i.noeioIp) :
    ∃ h' i', Pushed es n h' i' ∧ i'.peerId = info.peerId ∧
      h'.resourceVersion = info.resourceVersion ∧ info.peerId = i.peerId := by
  obtain ⟨n', h', i', t, k, l, hi', hid', hip', hv', ht, hl, hlt⟩ := hknown
  have htq : l.peerId = j.peerId := by rw [hlt, hq t ht, hjq]
  obtain rfl := hreg.network hl hj htq
  exact ⟨h', i', hi', hid', hv', hid'.symm.trans (hreg.address hi' hi (hip'.trans hip))⟩

/-! ## Steps -/

/-- A report that leaves no trigger behind has changed no entry. -/
theorem get_handleReport_of_trigger {m : PeerManager} {addr : SocketAddr} {network : NetworkId}
    {host : HostInfo} (h : (handleReport m addr network host).trigger = false) :
    m.trigger = false ∧ ∀ x, (handleReport m addr network host).get x = m.get x := by
  unfold handleReport at h ⊢
  generalize host.peers = infos at h ⊢
  induction infos generalizing m with
  | nil => exact ⟨h, fun _ => rfl⟩
  | cons info infos ih =>
    rw [List.foldl_cons] at h ⊢
    obtain ⟨htrig, hget⟩ := ih h
    split at htrig
    · rename_i hnet
      exact ⟨htrig, fun x => by rw [hget x, if_pos hnet]⟩
    · rename_i hnet
      obtain ⟨hm, prev, hprev, hv⟩ := PeerManager.stored_of_trigger_heartbeat htrig
      refine ⟨hm, fun x => ?_⟩
      rw [hget x, if_neg hnet, PeerManager.get_heartbeat]
      split
      · rename_i hx
        rw [hx, hprev, PeerManager.merge, if_pos hv]
      · rfl

section Steps

variable [DecidableEq Node] {es : List (Event Node)} {s s' : State Node} {e : Event Node}

/-- A step that reports nothing, makes no entry, and changes no eventual router. -/
theorem Coherent.quiet (h : Coherent hostOf es s) (he : Orderly es s e)
    (hreport : ∀ addr network host, e ≠ .report addr network host)
    (hentries : s'.manager.Entries (Stored es))
    (hget : ∀ x d, s'.manager.get x = some d → s.manager.get x = some d)
    (htrigger : s'.manager.trigger = false → s.manager.trigger = false)
    (heventual : ∀ node, s'.eventual node = s.eventual node) : Coherent hostOf (es ++ [e]) s' where
  registry := he.registry
  entries := hentries.mono fun x d hd => hd.concat e
  newest x d hd n h' i hl hid := h.newest x d (hget x d hd) n h' i (hl.of_quiet hreport) hid
  indexed node := heventual node ▸ h.indexed node
  known node ip p hp := by
    rw [heventual node] at hp
    exact (h.known node ip p hp).concat e
  settled ht p q hpq hq d d' hd hd' := by
    rw [heventual]
    exact h.settled (htrigger ht) p q hpq hq d d' (hget p d hd) (hget q d' hd')

/-- The merged entry of a listed peer is not older than the report, nor than anything listed
before. -/
theorem Coherent.newest_merge {addr : SocketAddr} {network : NetworkId} {host : HostInfo}
    (h : Coherent hostOf es s) (he : Orderly es s (.report addr network host)) {x : PeerId}
    {k : PeerInfo} (hk : k ∈ host.peers) (hknet : k.networkId = network) (hkx : k.peerId = x) :
    (∀ n h' i, Listed es n h' i → i.peerId = x → h'.resourceVersion ≤
      (PeerManager.merge (s.manager.get x) ⟨addr, host, network⟩).info.resourceVersion) ∧
    host.resourceVersion ≤
      (PeerManager.merge (s.manager.get x) ⟨addr, host, network⟩).info.resourceVersion := by
  cases hx : s.manager.get x with
  | none =>
    refine ⟨fun n h' i hl hid => ?_, UInt64.le_refl _⟩
    exact he.version addr network host rfl k hk hknet (hkx ▸ hx) n h' i hl (hid.trans hkx.symm)
  | some prev =>
    have hnewest := h.newest x prev hx
    rw [PeerManager.merge]
    split
    · rename_i hv
      exact ⟨hnewest, hv⟩
    · rename_i hv
      have hlt : prev.info.resourceVersion < host.resourceVersion := UInt64.not_le.mp hv
      refine ⟨fun n h' i hl hid => ?_, UInt64.le_refl _⟩
      exact UInt64.le_trans (hnewest n h' i hl hid) (UInt64.le_of_lt hlt)

theorem Coherent.report {addr : SocketAddr} {network : NetworkId} {host : HostInfo}
    (h : Coherent hostOf es s) (he : Orderly es s (.report addr network host)) :
    Coherent hostOf (es ++ [.report addr network host])
      ⟨handleReport s.manager addr network host, s.nodes⟩ where
  registry := he.registry
  entries := by
    refine entries_handleReport (h.entries.mono fun x d hd => hd.concat _) ?_
    intro i hi hnet
    refine ⟨⟨i, ⟨⟨addr, List.mem_append_right _ List.mem_cons_self⟩, hi, hnet⟩, rfl⟩, ?_⟩
    exact he.live addr network host rfl ⟨i, hi, hnet⟩
  newest x d hd n h' i hl hid := by
    simp only [get_handleReport] at hd
    split at hd
    · rename_i hlisted
      obtain ⟨k, hk, hknet, hkx⟩ := hlisted
      obtain ⟨hold, hhost⟩ := h.newest_merge he hk hknet hkx
      rw [Option.some.inj hd] at hold hhost
      rcases hl.of_concat with hl | ⟨addr', heq, -, -⟩
      · exact hold n h' i hl hid
      · obtain ⟨-, -, rfl⟩ := Event.report.inj heq
        exact hhost
    · rename_i hlisted
      rcases hl.of_concat with hl | ⟨addr', heq, hi, hnet⟩
      · exact h.newest x d hd n h' i hl hid
      · obtain ⟨-, rfl, rfl⟩ := Event.report.inj heq
        exact absurd ⟨i, hi, hnet, hid⟩ hlisted
  indexed node := h.indexed node
  known node ip p hp := (h.known node ip p hp).concat _
  settled ht p q hpq hq d d' hd hd' := by
    obtain ⟨ht, hget⟩ := get_handleReport_of_trigger ht
    exact h.settled ht p q hpq hq d d' (hget p ▸ hd) (hget q ▸ hd')

/-- Every push of a sync is live and known to its node. -/
theorem Coherent.known_of_sync (h : Coherent hostOf es s) {peers : List (PeerId × PeerEntry)}
    (hperm : peers.Perm s.manager.alivePeers) {node : Node} {m : SyncRoute}
    (hm : m ∈ Mailboxes.mail node (packets hostOf (syncRoutes peers))) :
    m.peer.withdrawn = false ∧ Known hostOf es node m.peer := by
  obtain ⟨push, hpush, hnode, rfl⟩ := mem_packets.mp (Mailboxes.mem_mail.mp hm)
  obtain ⟨t, target, p, peer, ht, hp, -, hnet, i, hi, -, rfl⟩ := mem_syncRoutes.mp hpush
  obtain ⟨⟨j, hj, hjt⟩, -⟩ := h.entries.get (get_of_mem_perm hperm ht)
  obtain ⟨⟨k, hk, -⟩, hlive⟩ := h.entries.get (get_of_mem_perm hperm hp)
  refine ⟨hlive i hi, peer.network, peer.info, i, t, target.info, j, hk.pushed hi, rfl, rfl, rfl,
    hnode, ?_, hjt⟩
  rwa [← hnet]

/-- A sync pushes every live peer to every other one of its network. -/
theorem Coherent.pushed_of_sync (h : Coherent hostOf es s) {peers : List (PeerId × PeerEntry)}
    (hperm : peers.Perm s.manager.alivePeers) {p q : PeerId} (hpq : p ≠ q) {d d' : PeerEntry}
    (hd : s.manager.get p = some d) (hd' : s.manager.get q = some d') (hnet : d.network = d'.network)
    {i : PeerInfo} (hi : i ∈ d.info.peers) (hip : i.peerId = p) :
    ∃ peer, ((s.eventual (hostOf q)).applyAll
        (Mailboxes.mail (hostOf q) (packets hostOf (syncRoutes peers)))).get i.noeioIp = some peer ∧
      d.info.resourceVersion ≤ peer.info.resourceVersion := by
  have hdp : (p, d) ∈ peers := hperm.mem_iff.mpr (TtlCache.mem_iter.mpr hd)
  have hdq : (q, d') ∈ peers := hperm.mem_iff.mpr (TtlCache.mem_iter.mpr hd')
  have hmem : ⟨syncInfo d.info i, q⟩ ∈
      Mailboxes.mail (hostOf q) (packets hostOf (syncRoutes peers)) := by
    refine Mailboxes.mem_mail.mpr (mem_packets.mpr ⟨_, mem_syncRoutes.mpr
      ⟨q, d', p, d, hdq, hdp, hpq.symm, hnet.symm, i, hi, ?_, rfl⟩, rfl, rfl⟩)
    rw [hip]
    exact hpq
  exact Router.exists_get_of_mem (r := s.eventual (hostOf q))
    (fun m hm => (h.known_of_sync hperm hm).1) hmem

/-- A router that keeps to what was pushed has nothing newer than the table about a live peer. -/
theorem Coherent.le_of_known (h : Coherent hostOf es s) {p q : PeerId}
    (hq : ∀ t, hostOf t = hostOf q → t = q) {d d' : PeerEntry} (hd : s.manager.get p = some d)
    (hd' : s.manager.get q = some d') (hnet : d.network = d'.network) {i : PeerInfo}
    (hi : i ∈ d.info.peers) (hip : i.peerId = p) {info : PeerInfo}
    (hknown : Known hostOf es (hostOf q) info) (haddr : info.noeioIp = i.noeioIp) :
    info.peerId = p ∧ info.resourceVersion ≤ d.info.resourceVersion := by
  obtain ⟨⟨j, hj, hjq⟩, -⟩ := h.entries.get hd'
  obtain ⟨⟨k, hk, hkp⟩, -⟩ := h.entries.get hd
  rw [hnet] at hk
  obtain ⟨h', i', hi', hid', hv', hid⟩ :=
    h.registry.peerId_eq hq hj hjq (hk.pushed hi) hknown haddr
  have hpid : info.peerId = p := hid.trans hip
  have hi'p : i'.peerId = p := hid'.trans hpid
  have hown : i'.networkId = d'.network := h.registry.own hi' hk (hi'p.trans hkp.symm)
  refine ⟨hpid, ?_⟩
  rw [← hv']
  exact h.newest p d hd d'.network h' i' ⟨hi'.1, hi'.2.2, hown⟩ hi'p

theorem Coherent.sync {peers : List (PeerId × PeerEntry)} (h : Coherent hostOf es s)
    (he : Orderly es s (.sync peers)) (hperm : peers.Perm s.manager.alivePeers) :
    Coherent hostOf (es ++ [.sync peers])
      ⟨{ s.manager with trigger := false }, s.nodes.send (packets hostOf (syncRoutes peers))⟩ := by
  have hknown : ∀ node, ((s.eventual node).applyAll
      (Mailboxes.mail node (packets hostOf (syncRoutes peers)))).store.All
        fun _ p => Known hostOf es node p.info :=
    fun node => Router.all_applyAll (h.known node) fun m hm _ => (h.known_of_sync hperm hm).2
  have hindexed : ∀ node, ((s.eventual node).applyAll
      (Mailboxes.mail node (packets hostOf (syncRoutes peers)))).WellIndexed :=
    fun node => (h.indexed node).applyAll _
  refine ⟨he.registry, ⟨fun x d hd => (h.entries.stored x d hd).concat _, ?_⟩, ?_, ?_, ?_, ?_⟩
  · intro g hg
    obtain ⟨addr, hg⟩ := h.entries.gone g hg
    exact ⟨addr, hg.concat _⟩
  · intro x d hd n h' i hl hid
    exact h.newest x d hd n h' i (hl.of_quiet (by simp)) hid
  · intro node
    rw [eventual_send]
    exact hindexed node
  · intro node ip p hp
    rw [eventual_send] at hp
    exact (hknown node ip p hp).concat _
  · intro _ p q hpq hq d d' hd hd' hnet i hi hip
    rw [eventual_send]
    obtain ⟨peer, hpeer, hle⟩ := h.pushed_of_sync hperm hpq hd hd' hnet hi hip
    obtain ⟨hpid, hge⟩ := h.le_of_known hq hd hd' hnet hi hip (hknown (hostOf q) _ peer hpeer)
      ((hindexed (hostOf q)).atIp _ peer hpeer)
    exact ⟨peer, hpeer, hpid, Std.le_antisymm hge hle⟩

/-- Every push of the gone task is a tombstone for a peer its `Gone` lists. -/
theorem withdrawn_of_gone {peers : List (PeerId × PeerEntry)} {dead : Gone} {node : Node}
    {m : SyncRoute} (hm : m ∈ Mailboxes.mail node (packets hostOf (tombstones peers dead))) :
    m.peer.withdrawn = true ∧ ∃ i ∈ dead.info.peers, i.networkId = dead.network ∧
      m.peer.peerId = i.peerId := by
  obtain ⟨push, hpush, -, rfl⟩ := mem_packets.mp (Mailboxes.mem_mail.mp hm)
  obtain ⟨t, target, -, -, -, i, hi, hnet, rfl⟩ := mem_tombstones.mp hpush
  exact ⟨rfl, i, hi, hnet, rfl⟩

theorem Coherent.gone {peers : List (PeerId × PeerEntry)} {dead : Gone} {rest : List Gone}
    (h : Coherent hostOf es s) (he : Orderly es s (.gone peers))
    (hgone : s.manager.gone = dead :: rest) :
    Coherent hostOf (es ++ [.gone peers])
      ⟨{ s.manager with gone := rest }, s.nodes.send (packets hostOf (tombstones peers dead))⟩ := by
  refine ⟨he.registry, ⟨fun x d hd => (h.entries.stored x d hd).concat _, ?_⟩, ?_, ?_, ?_, ?_⟩
  · intro g hg
    obtain ⟨addr, hg⟩ := h.entries.gone g (hgone ▸ List.mem_cons_of_mem _ hg)
    exact ⟨addr, hg.concat _⟩
  · intro x d hd n h' i hl hid
    exact h.newest x d hd n h' i (hl.of_quiet (by simp)) hid
  · intro node
    rw [eventual_send]
    exact (h.indexed node).applyAll _
  · intro node
    rw [eventual_send]
    refine Router.all_applyAll (fun ip p hp => (h.known node ip p hp).concat _) ?_
    intro m hm hlive
    rw [(withdrawn_of_gone hm).1] at hlive
    cases hlive
  · intro ht p q hpq hq d d' hd hd' hnet i hi hip
    obtain ⟨peer, hpeer, hpid, hv⟩ := h.settled ht p q hpq hq d d' hd hd' hnet i hi hip
    refine ⟨peer, ?_, hpid, hv⟩
    rw [eventual_send]
    refine Router.get_applyAll_withdrawn (h.indexed _) hpeer fun m hm => ?_
    obtain ⟨hw, k, hk, hknet, hid⟩ := withdrawn_of_gone hm
    refine ⟨hw, fun heq => ?_⟩
    -- no sync is to come, so the tombstones are not about `p`
    rcases he.gone peers dead rest rfl hgone with ht' | hdead
    · rw [ht] at ht'
      cases ht'
    · have hnone := hdead k hk hknet
      rw [← hid, heq, hpid] at hnone
      cases hnone.symm.trans hd

theorem Coherent.step (h : Coherent hostOf es s) (he : Orderly es s e) :
    Coherent hostOf (es ++ [e]) (step hostOf s e) := by
  have hshape := stepShape hostOf s e
  generalize System.step hostOf s e = t at hshape ⊢
  cases hshape with
  | report addr network host => exact h.report he
  | expire x =>
    refine h.quiet he (by simp) (h.entries.expire x) ?_ id fun _ => rfl
    intro y d hd
    rw [PeerManager.get, PeerManager.expire, TtlCache.get_expire] at hd
    split at hd
    · cases hd
    · exact hd
  | evict x =>
    refine h.quiet he (by simp) (h.entries.evict x) ?_ id fun _ => rfl
    intro y d hd
    rwa [PeerManager.get, PeerManager.evict, TtlCache.get_evict] at hd
  | sync hperm => exact h.sync he hperm
  | gone hgone => exact h.gone he hgone
  | quiet hreport hmanager heventual =>
    exact h.quiet he hreport (hmanager ▸ h.entries) (fun x d hd => hmanager ▸ hd)
      (fun ht => hmanager ▸ ht) heventual

end Steps

/-! ## Agreement -/

variable [DecidableEq Node]

theorem coherent_new : Coherent hostOf [] State.new where
  registry := by
    refine ⟨fun hl => ?_, fun hp => ?_, fun hp => ?_⟩
    · simp [Listed] at hl
    · simp [Pushed] at hp
    · simp [Pushed] at hp
  entries := PeerManager.entries_new
  newest x d hd := by cases hd
  indexed _ := Router.wellIndexed_new
  known _ ip p hp := by cases hp
  settled _ p q _ _ d d' hd := by cases hd

theorem coherent_run {es : List (Event Node)} (hes : Runs.Meets (step hostOf) Orderly State.new es) :
    Coherent hostOf es (run hostOf es) :=
  Runs.invariant coherent_new (fun _ _ _ h he => h.step he) hes

/-- Agreement at quiescence: after every run of orderly steps that ends with no pending
trigger, no queued `Gone` and nothing in flight, any two live peers `p` and `q` of one
network, each the only peer of its host, agree with the derper: the router of `q` holds the
virtual IP of `p` with the id of `p` and the version the derper stores for it. -/
theorem agreement_at_quiescence (es : List (Event Node))
    (horderly : Runs.Meets (step hostOf) Orderly State.new es) (hquiet : Quiescent (run hostOf es))
    (p q : PeerId) (d d' : PeerEntry) (hp : (run hostOf es).manager.get p = some d)
    (hq : (run hostOf es).manager.get q = some d') (hpq : p ≠ q) (hnet : d.network = d'.network)
    (i : PeerInfo) (hi : d.info.peers = [i]) (halone : ∀ t, hostOf t = hostOf q → t = q) :
    ∃ peer, ((run hostOf es).nodes.replica (hostOf q)).get i.noeioIp = some peer ∧
      peer.info.peerId = p ∧ peer.info.resourceVersion = d.info.resourceVersion := by
  have h := coherent_run horderly
  have hip : i.peerId = p := by
    obtain ⟨⟨j, ⟨-, hj, -⟩, hjp⟩, -⟩ := h.entries.get hp
    rw [hi] at hj
    rw [← List.mem_singleton.mp hj, hjp]
  have hmem : i ∈ d.info.peers := hi ▸ List.mem_cons_self
  obtain ⟨peer, hpeer, hid⟩ :=
    h.settled hquiet.trigger p q hpq halone d d' hp hq hnet i hmem hip
  rw [State.eventual, Mailboxes.eventual_of_quiet hquiet.inFlight] at hpeer
  exact ⟨peer, hpeer, hid⟩

namespace Sample

open Derp.Sample

def reportOne : Event PeerId := .report (addr 1000) networkA hostOne

def reportTwo : Event PeerId := .report (addr 2000) networkA hostTwo

/-- Two peers report, each from a node of its own, and the push to each arrives. -/
def met : List (Event PeerId) :=
  [reportOne, reportTwo, .sync table.alivePeers, .apply 1, .apply 2]

/-- Events in which nothing else is reported. -/
def OnlyThese (es : List (Event PeerId)) : Prop :=
  ∀ addr network host, .report addr network host ∈ es →
    network = networkA ∧ (host = hostOne ∨ host = hostTwo)

theorem OnlyThese.pushed {es : List (Event PeerId)} (h : OnlyThese es) {n : NetworkId}
    {host : HostInfo} {i : PeerInfo} (hp : Pushed es n host i) :
    n = networkA ∧ host.resourceVersion = 5 ∧ (i = peer 1 1 networkA ∨ i = peer 2 2 networkA) := by
  obtain ⟨⟨addr, hmem⟩, -, hi⟩ := hp
  obtain ⟨hn, rfl | rfl⟩ := h addr n host hmem
  · exact ⟨hn, rfl, Or.inl (List.mem_singleton.mp hi)⟩
  · exact ⟨hn, rfl, Or.inr (List.mem_singleton.mp hi)⟩

theorem OnlyThese.registry {es : List (Event PeerId)} (h : OnlyThese es) : Registry es where
  network hl hl' _ := by
    rw [(h.pushed (hl.pushed hl.2.1)).1, (h.pushed (hl'.pushed hl'.2.1)).1]
  address hp hp' := by
    obtain ⟨-, -, rfl | rfl⟩ := h.pushed hp <;> obtain ⟨-, -, rfl | rfl⟩ := h.pushed hp' <;> decide
  own hp _ _ := by
    obtain ⟨rfl, -, rfl | rfl⟩ := h.pushed hp <;> rfl

theorem OnlyThese.orderly {es : List (Event PeerId)} {s : State PeerId} {e : Event PeerId}
    (h : OnlyThese (es ++ [e])) (hgone : ∀ peers, e = .gone peers →
      ∀ dead ∈ s.manager.gone, ∀ i ∈ dead.info.peers, s.manager.get i.peerId = none) :
    Orderly es s e where
  live addr network host heq _ i hi := by
    obtain ⟨-, rfl | rfl⟩ :=
      h addr network host (heq ▸ List.mem_append_right _ List.mem_cons_self)
    · rw [List.mem_singleton.mp hi]
      rfl
    · rw [List.mem_singleton.mp hi]
      rfl
  registry := h.registry
  version addr network host heq i hi hnet _ n h' j hl _ := by
    subst heq
    have hnew : Listed (es ++ [.report addr network host]) network host i :=
      ⟨⟨addr, List.mem_append_right _ List.mem_cons_self⟩, hi, hnet⟩
    rw [(h.pushed (hnew.pushed hi)).2.1, (h.pushed ((hl.concat _).pushed hl.2.1)).2.1]
    exact UInt64.le_refl _
  gone peers dead rest heq hdead :=
    Or.inr fun i hi _ => hgone peers heq dead (hdead ▸ List.mem_cons_self) i hi

theorem onlyThese_met {es : List (Event PeerId)} (h : es <+: met) : OnlyThese es := by
  intro addr network host hmem
  have hmet := h.subset hmem
  simp only [met, reportOne, reportTwo, List.mem_cons, Event.report.injEq, List.not_mem_nil,
    reduceCtorEq, or_false] at hmet
  obtain ⟨-, hn, hh⟩ | ⟨-, hn, hh⟩ := hmet
  · exact ⟨hn, Or.inl hh⟩
  · exact ⟨hn, Or.inr hh⟩

theorem orderly_met : Runs.Meets (step id) Orderly State.new met := by
  refine ⟨?_, ?_, ?_, ?_, ?_, trivial⟩
  all_goals exact OnlyThese.orderly (onlyThese_met ⟨_, rfl⟩) fun peers heq => by cases heq

/-- Peer 1 misses its time to live, and maintenance evicts it. -/
def evicted : List (Event PeerId) := met ++ [.expire 1, .evict 1]

/-- The tombstone arrives at peer 2, and peer 1 reports again. -/
def revived : List (Event PeerId) :=
  evicted ++ [.gone (run id evicted).manager.alivePeers, .apply 2, reportOne]

def returned : List (Event PeerId) :=
  revived ++ [.sync (run id revived).manager.alivePeers, .apply 1, .apply 2]

theorem onlyThese_returned {es : List (Event PeerId)} (h : es <+: returned) : OnlyThese es := by
  intro addr network host hmem
  have hreturned := h.subset hmem
  simp only [returned, revived, evicted, met, reportOne, reportTwo, List.mem_append, List.mem_cons,
    Event.report.injEq, List.not_mem_nil, reduceCtorEq, or_false, false_or] at hreturned
  obtain (⟨-, hn, hh⟩ | ⟨-, hn, hh⟩) | ⟨-, hn, hh⟩ := hreturned
  · exact ⟨hn, Or.inl hh⟩
  · exact ⟨hn, Or.inr hh⟩
  · exact ⟨hn, Or.inl hh⟩

/-- The one `Gone` is taken while its peer is away. -/
theorem orderly_returned : Runs.Meets (step id) Orderly State.new returned := by
  have haway : ∀ dead ∈ (run id evicted).manager.gone, ∀ i ∈ dead.info.peers,
      (run id evicted).manager.get i.peerId = none := by
    decide +kernel
  refine ⟨?_, ?_, ?_, ?_, ?_, ?_, ?_, ?_, ?_, ?_, ?_, ?_, ?_, trivial⟩
  all_goals refine OnlyThese.orderly (onlyThese_returned ⟨_, rfl⟩) fun peers heq => ?_
  all_goals first | exact haway | cases heq

theorem agreement_at_quiescence_returned :
    ((run id (revived.take 9)).nodes.replica 2).get (.v4 (.ofOctets 10 0 0 1)) = none ∧
      ∃ peer, ((run id returned).nodes.replica 2).get (.v4 (.ofOctets 10 0 0 1)) = some peer ∧
        peer.info.peerId = 1 ∧ peer.info.resourceVersion = 5 := by
  have hquiet : Quiescent (run id returned) := by
    refine ⟨?_, ?_, ?_⟩ <;> decide +kernel
  refine ⟨by decide +kernel, ?_⟩
  exact agreement_at_quiescence returned orderly_returned hquiet 1 2 ⟨addr 1000, hostOne, networkA⟩
    ⟨addr 2000, hostTwo, networkA⟩ (by decide +kernel) (by decide +kernel) (by decide) rfl
    (peer 1 1 networkA) rfl fun _ h => h

/-- Peer 1 misses its time to live and reports again before maintenance runs. -/
def back : List (Event PeerId) := met ++ [.expire 1, reportOne]

def alive : List (PeerId × PeerEntry) := (run id back).manager.alivePeers

/-- The sync task runs, then the gone task takes the expired entry, and all pushes arrive. -/
def forgottenRun : List (Event PeerId) :=
  back ++ [.sync alive, .gone alive, .apply 1, .apply 2, .apply 2]

/-- Both peers are alive and all is quiet, but peer 2 has forgotten peer 1. -/
theorem forgotten :
    Quiescent (run id forgottenRun) ∧
      (run id forgottenRun).manager.get 1 = some ⟨addr 1000, hostOne, networkA⟩ ∧
      (run id forgottenRun).manager.get 2 = some ⟨addr 2000, hostTwo, networkA⟩ ∧
      hostOne.peers = [peer 1 1 networkA] ∧ hostTwo.peers = [peer 2 2 networkA] ∧
      ((run id forgottenRun).nodes.replica 2).get (peer 1 1 networkA).noeioIp = none := by
  refine ⟨⟨?_, ?_, ?_⟩, ?_⟩ <;> decide +kernel

end Sample

end Noeio.System
