import Noeio.Derp.Isolation
import Noeio.System.Agreement
import Noeio.Tunnel.WireGuard

/-!
# The two ends of a tunnel

Two nodes that talk to each other have never exchanged a key. Each derives the tunnel from what the
derper pushed: the id and the network of the other peer, and its own id, which is the header of the
push. So the tunnel works only if the two pushes belong together.

They do (`tunnels_match`): once all is quiet after an orderly run, any two live peers of one network,
each the only peer of its host, have a codec for each other, and the two codecs are the two ends of
one tunnel. The secret of one belongs to the public key that the other expects.

The eventual router of a node is the work of pushes that were all sent to a peer of the node
(`Sent`), and what a peer was last set to is one of these pushes (`Router.Synced.heard`).
-/

namespace Noeio.System

open Derp

variable {Node : Type*} (hostOf : PeerId → Node)

/-! ## What is sent to a node -/

/-- A push to the node carries a pushed entry, up to its version, its paths and the tombstone flag,
and names a peer of the node that was listed in the same network. -/
def Sent (es : List (Event Node)) (node : Node) (m : SyncRoute) : Prop :=
  ∃ network host i host' j, Pushed es network host i ∧ SamePeer m.peer i ∧
    Listed es network host' j ∧ j.peerId = m.localPeerId ∧ hostOf m.localPeerId = node

/-- The eventual router of every node is the work of what was sent to the node. -/
def Fed [DecidableEq Node] (es : List (Event Node)) (s : State Node) : Prop :=
  ∀ node, ∃ ms, s.eventual node = Router.new.applyAll ms ∧ ∀ m ∈ ms, Sent hostOf es node m

variable {hostOf}

theorem Sent.concat {es : List (Event Node)} {node : Node} {m : SyncRoute} (h : Sent hostOf es node m)
    (e : Event Node) : Sent hostOf (es ++ [e]) node m := by
  obtain ⟨network, host, i, host', j, hi, hpeer, hj, hjt, hnode⟩ := h
  exact ⟨network, host, i, host', j, hi.concat e, hpeer, hj.concat e, hjt, hnode⟩

variable [DecidableEq Node]

theorem Fed.quiet {es : List (Event Node)} {s s' : State Node} (h : Fed hostOf es s) (e : Event Node)
    (heventual : ∀ node, s'.eventual node = s.eventual node) : Fed hostOf (es ++ [e]) s' := by
  intro node
  obtain ⟨ms, heq, hms⟩ := h node
  exact ⟨ms, (heventual node).trans heq, fun m hm => (hms m hm).concat e⟩

theorem Fed.send {es : List (Event Node)} {s : State Node} (h : Fed hostOf es s) (e : Event Node)
    (manager : PeerManager) {pushes : List RoutePush}
    (hsent : ∀ node, ∀ m ∈ Mailboxes.mail node (packets hostOf pushes), Sent hostOf es node m) :
    Fed hostOf (es ++ [e]) ⟨manager, s.nodes.send (packets hostOf pushes)⟩ := by
  intro node
  obtain ⟨ms, heq, hms⟩ := h node
  refine ⟨ms ++ Mailboxes.mail node (packets hostOf pushes), ?_, fun m hm => ?_⟩
  · rw [eventual_send]
    have happend := Runs.run_append Router.receive .new ms
      (Mailboxes.mail node (packets hostOf pushes))
    exact (congrArg (fun r : Router => r.applyAll _) heq).trans happend.symm
  · rcases List.mem_append.mp hm with hm | hm
    · exact (hms m hm).concat e
    · exact (hsent node m hm).concat e

theorem sent_of_sync {es : List (Event Node)} {s : State Node} (h : s.manager.Entries (Stored es))
    {peers : List (PeerId × PeerEntry)} (hperm : peers.Perm s.manager.alivePeers) {node : Node}
    {m : SyncRoute} (hm : m ∈ Mailboxes.mail node (packets hostOf (syncRoutes peers))) :
    Sent hostOf es node m := by
  obtain ⟨push, hpush, hnode, rfl⟩ := mem_packets.mp (Mailboxes.mem_mail.mp hm)
  obtain ⟨t, target, p, peer, ht, hp, -, hnet, i, hi, -, rfl⟩ := mem_syncRoutes.mp hpush
  obtain ⟨⟨j, hj, hjt⟩, -⟩ := h.get (get_of_mem_perm hperm ht)
  obtain ⟨⟨k, hk, -⟩, -⟩ := h.get (get_of_mem_perm hperm hp)
  rw [hnet] at hj
  exact ⟨peer.network, peer.info, i, target.info, j, hk.pushed hi, samePeer_syncInfo _ _, hj, hjt,
    hnode⟩

theorem sent_of_gone {es : List (Event Node)} {s : State Node} (h : s.manager.Entries (Stored es))
    {peers : List (PeerId × PeerEntry)} (hperm : peers.Perm s.manager.alivePeers) {dead : Gone}
    (hdead : dead ∈ s.manager.gone) {node : Node} {m : SyncRoute}
    (hm : m ∈ Mailboxes.mail node (packets hostOf (tombstones peers dead))) :
    Sent hostOf es node m := by
  obtain ⟨push, hpush, hnode, rfl⟩ := mem_packets.mp (Mailboxes.mem_mail.mp hm)
  obtain ⟨t, target, ht, -, hnet, i, hi, -, rfl⟩ := mem_tombstones.mp hpush
  obtain ⟨⟨j, hj, hjt⟩, -⟩ := h.get (get_of_mem_perm hperm ht)
  obtain ⟨addr, ⟨k, hk, -⟩, -⟩ := h.gone dead hdead
  rw [hnet] at hj
  exact ⟨dead.network, dead.info, i, target.info, j, hk.pushed hi, samePeer_tombstone _ _, hj, hjt,
    hnode⟩

theorem Fed.step {es : List (Event Node)} {s : State Node} (h : Fed hostOf es s)
    (hentries : s.manager.Entries (Stored es)) (e : Event Node) :
    Fed hostOf (es ++ [e]) (step hostOf s e) := by
  cases e with
  | report addr network host => exact h.quiet _ fun _ => rfl
  | expire x => exact h.quiet _ fun _ => rfl
  | evict x => exact h.quiet _ fun _ => rfl
  | sync peers =>
    simp only [System.step]
    split
    · rename_i hen
      exact h.send _ _ fun node m hm => sent_of_sync hentries hen.2 hm
    · exact h.quiet _ fun _ => rfl
  | gone peers =>
    simp only [System.step]
    split
    · rename_i dead rest hgone
      split
      · rename_i hperm
        have hdead : dead ∈ s.manager.gone := hgone ▸ List.mem_cons_self
        exact h.send _ _ fun node m hm => sent_of_gone hentries hperm hdead hm
      · exact h.quiet _ fun _ => rfl
    · exact h.quiet _ fun _ => rfl
  | apply node => exact h.quiet _ (Mailboxes.eventual_deliver s.nodes node)

theorem fed_run {es : List (Event Node)} (hes : Runs.Meets (step hostOf) Orderly State.new es) :
    Fed hostOf es (run hostOf es) := by
  have hnew : Coherent hostOf [] State.new ∧ Fed hostOf [] State.new :=
    ⟨coherent_new, fun _ => ⟨[], rfl, fun _ hm => nomatch hm⟩⟩
  have hrun := Runs.invariant (P := fun es s => Coherent hostOf es s ∧ Fed hostOf es s) hnew
    (fun es s e h he => ⟨h.1.step he, h.2.step h.1.entries e⟩) hes
  exact hrun.2

/-! ## Matching codecs -/

variable (hostOf) in
/-- `p` and `q` are live peers of one network, each the only peer of its host. -/
structure LivePair (s : State Node) (p q : PeerId) (d d' : PeerEntry) (i j : PeerInfo) : Prop where
  first : s.manager.get p = some d
  second : s.manager.get q = some d'
  distinct : p ≠ q
  network : d.network = d'.network
  lists : d.info.peers = [i]
  lists' : d'.info.peers = [j]
  alone : ∀ t, hostOf t = hostOf p → t = p
  alone' : ∀ t, hostOf t = hostOf q → t = q

omit [DecidableEq Node] in
theorem LivePair.symm {s : State Node} {p q : PeerId} {d d' : PeerEntry} {i j : PeerInfo}
    (h : LivePair hostOf s p q d d' i j) : LivePair hostOf s q p d' d j i :=
  ⟨h.second, h.first, h.distinct.symm, h.network.symm, h.lists', h.lists, h.alone', h.alone⟩

/-- Every peer id is pushed with one virtual IP. -/
def OneAddress (es : List (Event Node)) : Prop :=
  ∀ {n h i n' h' i'}, Pushed es n h i → Pushed es n' h' i' → i.peerId = i'.peerId →
    i.noeioIp = i'.noeioIp

omit [DecidableEq Node] in
theorem OneAddress.oneIpPerId {es : List (Event Node)} (h : OneAddress es) {node : Node}
    {ms : List SyncRoute} (hms : ∀ m ∈ ms, Sent hostOf es node m) : Router.OneIpPerId ms := by
  intro a ha b hb hab
  obtain ⟨n, host, i, -, -, hi, ⟨-, hid, hip, -⟩, -⟩ := hms a ha
  obtain ⟨n', host', i', -, -, hi', ⟨-, hid', hip', -⟩, -⟩ := hms b hb
  rw [hip, hip']
  exact h hi hi' (hid.symm.trans (hab.trans hid'))

/-- What the node of `q` stores for the live peer `p`: the identity of `p`, under the id of `q`. -/
structure Introduced (p q : PeerId) (network : NetworkId) (i : PeerInfo) (peer : Peer) : Prop where
  peerId : peer.info.peerId = p
  noeioIp : peer.info.noeioIp = i.noeioIp
  localPeerId : peer.localPeerId = q
  keys : peer.codec.keys = ⟨q, p, network⟩

/-- At rest, if ids keep their virtual IPs, every node finds its peers by their ids. -/
theorem exact_replica {es : List (Event Node)}
    (horderly : Runs.Meets (step hostOf) Orderly State.new es) (hquiet : Quiescent (run hostOf es))
    (hone : OneAddress es) (node : Node) :
    ((run hostOf es).nodes.replica node).store.Exact Router.peerIdOf := by
  obtain ⟨ms, hms, hsent⟩ := fed_run horderly node
  have hsynced := Router.synced_applyAll ms
  rw [← hms, State.eventual, Mailboxes.eventual_of_quiet hquiet.inFlight] at hsynced
  exact hsynced.exact (hone.oneIpPerId hsent)

/-- The one peer that a live peer reports is the peer itself. -/
theorem Coherent.peerId_of_single {es : List (Event Node)} {s : State Node} (h : Coherent hostOf es s)
    {p : PeerId} {d : PeerEntry} (hp : s.manager.get p = some d) {i : PeerInfo}
    (hi : d.info.peers = [i]) : i.peerId = p := by
  obtain ⟨⟨j, ⟨-, hj, -⟩, hjp⟩, -⟩ := h.entries.get hp
  rw [hi] at hj
  rw [← List.mem_singleton.mp hj, hjp]

/-- Once all is quiet, the node of one live peer stores the other, and finds it by its id if ids keep
their virtual IPs. -/
theorem introduced {es : List (Event Node)} (horderly : Runs.Meets (step hostOf) Orderly State.new es)
    (hquiet : Quiescent (run hostOf es)) {p q : PeerId} {d d' : PeerEntry} {i j : PeerInfo}
    (hpair : LivePair hostOf (run hostOf es) p q d d' i j) :
    ∃ peer, ((run hostOf es).nodes.replica (hostOf q)).get i.noeioIp = some peer ∧
      Introduced p q d.network i peer ∧
      (OneAddress es → ((run hostOf es).nodes.replica (hostOf q)).getByPeerId p = some peer) := by
  have h := coherent_run horderly
  obtain ⟨ms, hms, hsent⟩ := fed_run horderly (hostOf q)
  have hmem : i ∈ d.info.peers := hpair.lists ▸ List.mem_cons_self
  obtain ⟨peer, hpeer, hpid, -⟩ := h.settled hquiet.trigger p q hpair.distinct hpair.alone' d d'
    hpair.first hpair.second hpair.network i hmem (h.peerId_of_single hpair.first hpair.lists)
  have hsynced := Router.synced_applyAll ms
  rw [← hms] at hsynced
  -- the push that set the peer went to `q`, in the network of `q`
  obtain ⟨network, host, k, host', l, hk, ⟨hknet, hkid, -, -⟩, hl, hlt, hnode⟩ :=
    hsent _ (hsynced.heard _ peer hpeer).1
  have hlocal : peer.localPeerId = q := hpair.alone' _ hnode
  obtain ⟨⟨q', hq', hq'q⟩, -⟩ := h.entries.get hpair.second
  obtain ⟨⟨p', hp', hp'p⟩, -⟩ := h.entries.get hpair.first
  have hnet : network = d'.network :=
    h.registry.network hl hq' (hlt.trans (hlocal.trans hq'q.symm))
  have hkp : k.peerId = p := hkid.symm.trans hpid
  have hnetwork : peer.info.networkId = d.network := by
    rw [hpair.network, ← hnet] at hp' ⊢
    exact hknet.trans (h.registry.own hk hp' (hkp.trans hp'p.symm))
  rw [State.eventual, Mailboxes.eventual_of_quiet hquiet.inFlight] at hpeer hsynced
  refine ⟨peer, hpeer, ⟨hpid, hsynced.wellIndexed.atIp _ peer hpeer, hlocal, ?_⟩, fun hone => ?_⟩
  · rw [hsynced.keyed _ peer hpeer, deriveTunnelKeys, hpid, hlocal, hnetwork]
  · have hid := (exact_replica horderly hquiet hone (hostOf q)).getById hpeer
    rwa [Router.peerIdOf, hpid] at hid

/-- `derive_tunnel_keys` at what a codec records. -/
def realKeys {PublicKey : Type} (publicKey : StaticSecret → PublicKey) (uuid : UuidText)
    (keys : TunnelKeys) : Except String (StaticSecret × PublicKey) :=
  WireGuardConfig.deriveTunnelKeys publicKey uuid keys.localPeerId keys.peerId keys.networkId

/-- Once all is quiet after an orderly run, any two live peers of one network, each the only peer of
its host, have a tunnel: each node stores the other peer under its virtual IP, and each codec is made
with our own secret and with the public key that belongs to the secret of the other codec. -/
theorem tunnels_match (es : List (Event Node))
    (horderly : Runs.Meets (step hostOf) Orderly State.new es) (hquiet : Quiescent (run hostOf es))
    (p q : PeerId) (d d' : PeerEntry) (i j : PeerInfo)
    (hpair : LivePair hostOf (run hostOf es) p q d d' i j)
    {PublicKey : Type} (publicKey : StaticSecret → PublicKey) (uuid : UuidText) :
    ∃ atP atQ secret secret',
      ((run hostOf es).nodes.replica (hostOf p)).get j.noeioIp = some atP ∧
      ((run hostOf es).nodes.replica (hostOf q)).get i.noeioIp = some atQ ∧
      atP.codec.keys = ⟨p, q, d.network⟩ ∧ atQ.codec.keys = ⟨q, p, d.network⟩ ∧
      realKeys publicKey uuid atP.codec.keys = .ok (secret, publicKey secret') ∧
      realKeys publicKey uuid atQ.codec.keys = .ok (secret', publicKey secret) := by
  obtain ⟨atQ, hatQ, hq, -⟩ := introduced horderly hquiet hpair
  obtain ⟨atP, hatP, hp, -⟩ := introduced horderly hquiet hpair.symm
  have hpkeys : atP.codec.keys = ⟨p, q, d.network⟩ := by rw [hp.keys, hpair.network]
  refine ⟨atP, atQ, identitySecret uuid p d.network, identitySecret uuid q d.network, hatP, hatQ,
    hpkeys, hq.keys, ?_, ?_⟩
  · rw [hpkeys]
    exact deriveTunnelKeys_eq publicKey uuid p q d.network
  · rw [hq.keys]
    exact deriveTunnelKeys_eq publicKey uuid q p d.network

namespace Sample

open Derp.Sample

theorem quiescent_met : Quiescent (run id met) := by
  refine ⟨?_, ?_, ?_⟩ <;> decide +kernel

theorem livePair_met : LivePair id (run id met) 1 2 ⟨addr 1000, hostOne, networkA⟩
    ⟨addr 2000, hostTwo, networkA⟩ (peer 1 1 networkA) (peer 2 2 networkA) where
  first := by decide +kernel
  second := by decide +kernel
  distinct := by decide
  network := rfl
  lists := rfl
  lists' := rfl
  alone _ h := h
  alone' _ h := h

theorem tunnels_match_met : ∃ atP atQ secret secret',
    ((run id met).nodes.replica 1).get (.v4 (.ofOctets 10 0 0 2)) = some atP ∧
    ((run id met).nodes.replica 2).get (.v4 (.ofOctets 10 0 0 1)) = some atQ ∧
    atP.codec.keys = ⟨1, 2, networkA⟩ ∧ atQ.codec.keys = ⟨2, 1, networkA⟩ ∧
    realKeys id .hex atP.codec.keys = .ok (secret, secret') ∧
    realKeys id .hex atQ.codec.keys = .ok (secret', secret) :=
  tunnels_match met orderly_met quiescent_met 1 2 _ _ _ _ livePair_met id .hex

end Sample

end Noeio.System
