import Noeio.Common.Accepted
import Noeio.Daemon.Provenance
import Noeio.Derp.Liveness
import Noeio.System.Tunnels

/-!
# The system in bytes

In `Broadcast` a report is a host and a push is a peer. Here they are datagrams. The derper reads
whatever arrives at its socket, from anyone; a push is what `send_sync_route` writes; and a node reads
it with the whole body of its inbound loop. Between the pushes a node hears from others (peers, STUN
servers, strangers) and its own tasks run.

A run of this system follows a run of `Broadcast`, in which only the events that matter are left
(`spec`): the table of the derper is the same, what is in flight are the encodings of the same pushes,
and every node stores what its router stores there (`wire_refines`). So what holds of `Broadcast`
after every run holds of the programs, and the nodes of live peers have met when all is quiet
(`meet_on_wire`).

It rests on what `Sound` says: a push fits the buffer of the reader, nobody else sends from the IP of
the derper, and no STUN response stops a reader.
-/

namespace Noeio.System.Wire

open Derp

/-- The crates, the token check of the derper, and where the derper sends from. -/
structure Env where
  crates : WireCrates
  secret : String
  decode : String → String → Except JwtError Claims
  parseUuid : String → Option NetworkId
  derper : SocketAddr

def Env.derp (w : Env) : Derp.Env := ⟨w.secret, w.decode, w.parseUuid, HostInfo.tryFrom w.crates⟩

/-- The datagram of `send_sync_route`. -/
def sendSyncRoute (w : Env) (target : PeerId) (info : PeerInfo) : List UInt8 :=
  (NoeioPacket.new ⟨.syncRoute, target, 0⟩ (info.toBytes w.crates)).inner

/-- The peer table of the derper, and the nodes behind the datagrams in flight. -/
structure State (Node : Type*) where
  manager : PeerManager
  nodes : Mailboxes Node Reading (List UInt8)

inductive Event (Node : Type*) where
  /-- The datagram `data` from `addr` arrives at the derper at the time `now`. -/
  | recv (now : UInt64) (addr : SocketAddr) (data : List UInt8)
  | expire (peerId : PeerId)
  | evict (peerId : PeerId)
  | sync (peers : List (PeerId × PeerEntry))
  | gone (peers : List (PeerId × PeerEntry))
  /-- The next push arrives at the node; `env` is what its reader finds around it. -/
  | arrive (node : Node) (env : LoopEnv)
  /-- The node hears from someone else, or one of its own tasks runs. -/
  | other (node : Node) (e : Reading.Event)

variable {Node : Type*} [DecidableEq Node] (w : Env) (hostOf : PeerId → Node)

/-- The datagrams of a broadcast, each with the node it goes to. -/
def datagrams (pushes : List RoutePush) : List (Node × List UInt8) :=
  pushes.map fun push => (hostOf push.target, sendSyncRoute w push.target push.info)

def step (s : State Node) : Event Node → State Node
  | .recv now addr data =>
    { s with manager := (Derp.step w.derp ⟨s.manager, [], []⟩ (.recv now addr data)).manager }
  | .expire peerId => { s with manager := s.manager.expire peerId }
  | .evict peerId => { s with manager := s.manager.evict peerId }
  | .sync peers =>
    if s.manager.trigger ∧ peers.Perm s.manager.alivePeers then
      { manager := { s.manager with trigger := false }
        nodes := s.nodes.send (datagrams w hostOf (syncRoutes peers)) }
    else s
  | .gone peers =>
    match s.manager.gone with
    | dead :: rest =>
      if peers.Perm s.manager.alivePeers then
        { manager := { s.manager with gone := rest }
          nodes := s.nodes.send (datagrams w hostOf (tombstones peers dead)) }
      else s
    | [] => s
  | .arrive node env =>
    { s with nodes := s.nodes.deliver (fun reading datagram =>
        reading.step (.recv env datagram w.derper)) node }
  | .other node e =>
    { s with nodes := { s.nodes with
        replica := Function.update s.nodes.replica node ((s.nodes.replica node).step e) } }

/-- The system after the events `es`, with nodes that start as `start` says. -/
def run (start : Node → Reading) (es : List (Event Node)) : State Node :=
  Runs.run (step w hostOf) ⟨.new, ⟨start, []⟩⟩ es

/-- What the event is in the system without bytes. -/
def spec : Event Node → Option (System.Event Node)
  | .recv now addr data =>
    (reportOf w.derp (.recv now addr data)).map fun (addr, network, host) =>
      .report addr network host
  | .expire peerId => some (.expire peerId)
  | .evict peerId => some (.evict peerId)
  | .sync peers => some (.sync peers)
  | .gone peers => some (.gone peers)
  | .arrive node _ => some (.apply node)
  | .other _ _ => none

omit [DecidableEq Node] in
/-- What a run relies on. -/
structure Sound (s : State Node) (e : Event Node) : Prop where
  /-- A push in flight does not fill the buffer of the reader. -/
  fits : ∀ m ∈ s.nodes.inFlight, m.2.length < maxBufferSize
  /-- The derper of a push is the current one, and the reader decodes as the writers do. -/
  arrive : ∀ node env, e = .arrive node env →
    env.derper.map (·.ip) = some w.derper.ip ∧ env.peerInfo = PeerInfo.tryFrom w.crates
  /-- No one else is taken for the derper. -/
  other : ∀ node e', e = .other node e' → Reading.pushOf e' = none
  /-- The reader survives what others send. -/
  survives : ∀ node e', e = .other node e' → Reading.Survives e'

/-! ## What is in flight -/

def encode (m : SyncRoute) : List UInt8 := sendSyncRoute w m.localPeerId m.peer

omit [DecidableEq Node] in
theorem datagrams_eq (pushes : List RoutePush) :
    datagrams w hostOf pushes = Mailboxes.encoded (encode w) (packets hostOf pushes) := by
  rw [Mailboxes.encoded, packets, List.map_map]
  rfl

/-- A push is written in full: what it says of a host was accepted in a report. -/
theorem carried_syncInfo {host : HostInfo} (h : host.Carried) {peerInfo : PeerInfo}
    (hmem : peerInfo ∈ host.peers) : (syncInfo host peerInfo).Carried := by
  have hpeer := h.peers peerInfo hmem
  refine ⟨⟨fun addr haddr => ?_, fun addr haddr => ?_⟩, hpeer.routes⟩
  · obtain rfl := Option.some.inj haddr
    exact h.natAddr
  · change addr ∈ (if peerInfo.localAddrs.isEmpty then host.localAddrs else peerInfo.localAddrs)
      at haddr
    split at haddr
    · exact h.localAddrs addr haddr
    · exact hpeer.flow.localAddrs addr haddr

theorem carried_tombstone {dead : Gone} (h : dead.info.Carried) {peerInfo : PeerInfo}
    (hmem : peerInfo ∈ dead.info.peers) : (tombstone dead peerInfo).Carried := by
  have hpeer := h.peers peerInfo hmem
  exact ⟨⟨hpeer.flow.natAddr, hpeer.flow.localAddrs⟩, hpeer.routes⟩

variable {w hostOf}

/-- The derper's datagram is a push to its reader. -/
theorem fromDerper_encode (hcodec : w.crates.protoPeer.Inverts) {env : LoopEnv}
    (hderper : env.derper.map (·.ip) = some w.derper.ip)
    (hread : env.peerInfo = PeerInfo.tryFrom w.crates) {m : SyncRoute} (hm : m.peer.Carried)
    (hfits : (encode w m).length < maxBufferSize) :
    FromDerper env.toInboundEnv (encode w m) w.derper m := by
  refine ⟨hfits, hderper, 0, m.peer.toBytes w.crates, rfl, ?_⟩
  rw [hread]
  exact hm.reencodes hcodec

/-! ## One step -/

/-- The node stores what the router stores, and its reader runs. -/
structure Follows (r : Router) (node : Reading) : Prop where
  reading : node.reading = true
  store : node.daemon.router.store = r.store

/-- The state in bytes stands for the state without. -/
structure Refines (w : Env) (s : State Node) (a : System.State Node) : Prop where
  manager : s.manager = a.manager
  nodes : Mailboxes.Encodes (encode w) Follows a.nodes s.nodes
  carried : a.manager.Entries fun _ entry => entry.info.Carried
  inFlight : ∀ m ∈ a.nodes.inFlight, m.2.peer.Carried

variable {s : State Node} {a : System.State Node}

omit [DecidableEq Node] in
/-- A step of the table alone. -/
theorem Refines.table (h : Refines w s a) {m : PeerManager}
    (hm : m.Entries fun _ entry => entry.info.Carried) :
    Refines w { s with manager := m } { a with manager := m } :=
  ⟨rfl, h.nodes, hm, h.inFlight⟩

omit [DecidableEq Node] in
theorem Refines.broadcast (h : Refines w s a) {m : PeerManager}
    (hm : m.Entries fun _ entry => entry.info.Carried) {pushes : List RoutePush}
    (hpushes : ∀ push ∈ pushes, push.info.Carried) :
    Refines w ⟨m, s.nodes.send (datagrams w hostOf pushes)⟩
      ⟨m, a.nodes.send (packets hostOf pushes)⟩ := by
  refine ⟨rfl, ?_, hm, fun p hp => ?_⟩
  · rw [datagrams_eq]
    exact h.nodes.send _
  · rcases List.mem_append.mp hp with hp | hp
    · exact h.inFlight p hp
    · obtain ⟨push, hpush, -, heq⟩ := mem_packets.mp hp
      rw [heq]
      exact hpushes push hpush

theorem Refines.arrive (h : Refines w s a) (hcodec : w.crates.protoPeer.Inverts) {node : Node}
    {env : LoopEnv} (he : Sound w s (.arrive node env)) :
    Refines w (step w hostOf s (.arrive node env)) (System.step hostOf a (.apply node)) := by
  obtain ⟨hderper, hread⟩ := he.arrive node env rfl
  refine ⟨h.manager, ?_, h.carried, fun m hm => ?_⟩
  · change Mailboxes.Encodes _ _ (a.nodes.deliver Router.receive node) (s.nodes.deliver
      (fun reading datagram => reading.step (.recv env datagram w.derper)) node)
    refine h.nodes.deliver node fun m hm r reading hfollows => ?_
    have hmem : (node, encode w m) ∈ s.nodes.inFlight := by
      rw [h.nodes.inFlight]
      exact List.mem_map.mpr ⟨(node, m), hm, rfl⟩
    have hpush : FromDerper env.toInboundEnv (encode w m) w.derper m :=
      fromDerper_encode hcodec hderper hread (h.inFlight _ hm) (he.fits _ hmem)
    obtain ⟨hreading, hrouter⟩ := Reading.step_of_fromDerper hfollows.reading hpush
    refine ⟨hreading, ?_⟩
    rw [hrouter]
    exact Reading.store_receive_congr hfollows.store m
  · refine h.inFlight m ?_
    simp only [System.step, Mailboxes.deliver] at hm
    split at hm
    · exact List.mem_of_mem_eraseP hm
    · exact hm

omit [DecidableEq Node] in
/-- An accepted report was read, so it can be written. -/
theorem carried_of_reportFrom {addr : SocketAddr} {network : NetworkId} {host : HostInfo}
    {e : Derp.Event} (h : ReportFrom w.derp addr network host e) : host.Carried := by
  obtain ⟨now, data, packet, -, -, -, haccept⟩ := h
  obtain ⟨payload, report, claims, -, hread, -, -, rfl⟩ := acceptReport_eq_some haccept
  obtain ⟨⟨token, inner⟩, -, hread⟩ := bind_eq_ok hread
  obtain ⟨host, hhost, hread⟩ := bind_eq_ok hread
  cases hread
  exact HostInfo.carried_of_tryFrom hhost

theorem Refines.recv (h : Refines w s a) (now : UInt64) (addr : SocketAddr) (data : List UInt8) :
    Refines w (step w hostOf s (.recv now addr data))
      (Runs.run (System.step hostOf) a (spec w (.recv now addr data)).toList) := by
  cases hreport : reportOf w.derp (.recv now addr data) with
  | none =>
    simp only [spec, hreport, step, step_of_reportOf_eq_none hreport]
    exact h
  | some report =>
    obtain ⟨addr', network, host⟩ := report
    have hfrom := reportOf_eq_some.mp hreport
    simp only [spec, hreport, step, step_of_reportFrom hfrom, h.manager]
    exact h.table (entries_handleReport h.carried fun _ _ _ => carried_of_reportFrom hfrom)

theorem Refines.step (h : Refines w s a) (hcodec : w.crates.protoPeer.Inverts) {e : Event Node}
    (he : Sound w s e) :
    Refines w (step w hostOf s e) (Runs.run (System.step hostOf) a (spec w e).toList) := by
  cases e with
  | recv now addr data => exact h.recv now addr data
  | expire x =>
    simp only [Wire.step, h.manager]
    exact h.table (h.carried.expire x)
  | evict x =>
    simp only [Wire.step, h.manager]
    exact h.table (h.carried.evict x)
  | sync peers =>
    simp only [spec, Option.toList_some, Runs.run, List.foldl_cons, List.foldl_nil, Wire.step,
      System.step, h.manager]
    split
    · rename_i hen
      have hm : ({ a.manager with trigger := false } : PeerManager).Entries
          fun _ entry => entry.info.Carried := ⟨h.carried.stored, h.carried.gone⟩
      refine h.broadcast hm fun push hpush => ?_
      obtain ⟨t, target, p, peer, -, hp, -, -, i, hi, -, rfl⟩ := mem_syncRoutes.mp hpush
      exact carried_syncInfo (h.carried.get (get_of_mem_perm hen.2 hp)) hi
    · exact h
  | gone peers =>
    simp only [spec, Option.toList_some, Runs.run, List.foldl_cons, List.foldl_nil, Wire.step,
      System.step, h.manager]
    cases hgone : a.manager.gone with
    | nil => exact h
    | cons dead rest =>
      simp only
      split
      · have hm : ({ a.manager with gone := rest } : PeerManager).Entries
            fun _ entry => entry.info.Carried :=
          ⟨h.carried.stored, fun g hg => h.carried.gone g (hgone ▸ List.mem_cons_of_mem dead hg)⟩
        refine h.broadcast hm fun push hpush => ?_
        obtain ⟨t, target, -, -, -, i, hi, -, rfl⟩ := mem_tombstones.mp hpush
        obtain ⟨_, hinfo⟩ := h.carried.gone dead (hgone ▸ List.mem_cons_self)
        exact carried_tombstone hinfo hi
      · exact h
  | arrive node env => exact h.arrive hcodec he
  | other node e' =>
    have hnode := h.nodes.replica node
    obtain ⟨hreading, hstore⟩ := Reading.step_of_pushOf_eq_none hnode.reading
      (he.other node e' rfl) (he.survives node e' rfl)
    exact ⟨h.manager, h.nodes.update ⟨hreading, hstore.trans hnode.store⟩, h.carried, h.inFlight⟩

/-! ## Whole runs -/

theorem refines_run (hcodec : w.crates.protoPeer.Inverts) {start : Node → Reading}
    (hstart : ∀ node, (start node).reading = true ∧ (start node).daemon.router.store = Router.new.store)
    {es : List (Event Node)}
    (hes : Runs.Meets (step w hostOf) (fun _ => Sound w) ⟨.new, ⟨start, []⟩⟩ es) :
    Refines w (run w hostOf start es) (System.run hostOf (es.filterMap (spec w))) := by
  have hnew : Refines w ⟨.new, ⟨start, []⟩⟩ (System.State.new : System.State Node) :=
    ⟨rfl, ⟨rfl, fun node => ⟨(hstart node).1, (hstart node).2⟩⟩, PeerManager.entries_new,
      fun _ hm => absurd hm List.not_mem_nil⟩
  refine Runs.simulation_filterMap hnew ?_ hes
  exact fun _ _ _ _ h he => h.step hcodec he

/-- Peers meet on the wire. After such a run, if the reports and broadcasts that it consists of are
orderly and nothing is pending or in flight, the nodes of any two live peers of one network, each the
only peer of its host, store each other: the codec of either is the other end of the codec of the
other. -/
theorem meet_on_wire (w : Env) (hcodec : w.crates.protoPeer.Inverts) (hostOf : PeerId → Node)
    (start : Node → Reading)
    (hstart : ∀ node, (start node).reading = true ∧ (start node).daemon.router.store = Router.new.store)
    (es : List (Event Node))
    (hes : Runs.Meets (step w hostOf) (fun _ => Sound w) ⟨.new, ⟨start, []⟩⟩ es)
    (horderly : Runs.Meets (System.step hostOf) Orderly System.State.new (es.filterMap (spec w)))
    (htrigger : (run w hostOf start es).manager.trigger = false)
    (hgone : (run w hostOf start es).manager.gone = [])
    (hinFlight : (run w hostOf start es).nodes.inFlight = [])
    (p q : PeerId) (d d' : PeerEntry) (i j : PeerInfo) (hpq : p ≠ q)
    (hp : (run w hostOf start es).manager.get p = some d)
    (hq : (run w hostOf start es).manager.get q = some d') (hnet : d.network = d'.network)
    (hi : d.info.peers = [i]) (hj : d'.info.peers = [j]) (halone : ∀ t, hostOf t = hostOf p → t = p)
    (halone' : ∀ t, hostOf t = hostOf q → t = q) :
    ∃ atP atQ,
      ((run w hostOf start es).nodes.replica (hostOf p)).daemon.router.get j.noeioIp = some atP ∧
      ((run w hostOf start es).nodes.replica (hostOf q)).daemon.router.get i.noeioIp = some atQ ∧
      atP.info.peerId = q ∧ atQ.info.peerId = p ∧
      atP.codec.keys = ⟨p, q, d.network⟩ ∧ atQ.codec.keys = ⟨q, p, d.network⟩ := by
  have h : Refines w (run w hostOf start es) (System.run hostOf (es.filterMap (spec w))) :=
    refines_run hcodec hstart hes
  have hquiet : Quiescent (System.run hostOf (es.filterMap (spec w))) := by
    refine ⟨h.manager ▸ htrigger, h.manager ▸ hgone, ?_⟩
    have hmap := h.nodes.inFlight
    rw [hinFlight, Mailboxes.encoded] at hmap
    exact List.map_eq_nil_iff.mp hmap.symm
  have hpair : LivePair hostOf (System.run hostOf (es.filterMap (spec w))) p q d d' i j :=
    ⟨h.manager ▸ hp, h.manager ▸ hq, hpq, hnet, hi, hj, halone, halone'⟩
  have hget : ∀ node ip, ((run w hostOf start es).nodes.replica node).daemon.router.get ip =
      ((System.run hostOf (es.filterMap (spec w))).nodes.replica node).get ip := by
    intro node ip
    rw [← Router.get_store, (h.nodes.replica node).store, Router.get_store]
  obtain ⟨atQ, hatQ, hsecond, -⟩ := introduced horderly hquiet hpair
  obtain ⟨atP, hatP, hfirst, -⟩ := introduced horderly hquiet hpair.symm
  refine ⟨atP, atQ, ?_, ?_, hfirst.peerId, hsecond.peerId, ?_, hsecond.keys⟩
  · rw [hget, hatP]
  · rw [hget, hatQ]
  · rw [hfirst.keys, hnet]

namespace Sample

open Derp.Sample System.Sample

def env : Env where
  crates := HostInfo.Sample.crates
  secret := Derp.Sample.env.secret
  decode := Derp.Sample.env.decode
  parseUuid := Derp.Sample.env.parseUuid
  derper := .v4 (.ofOctets 203 0 113 1) 3478

def hello (port : UInt16) (peerId : PeerId) (host : HostInfo) : Event PeerId :=
  .recv 0 (addr port) (reportDatagram peerId tokenA (host.toBytes env.crates))

/-- What the reader of a node finds, with the derper as the current one. -/
def loopEnv : LoopEnv :=
  { Noeio.Sample.loopEnv with
    derper := some env.derper
    peerInfo := PeerInfo.tryFrom env.crates }

/-- Someone knocks at the derper and at a node. -/
def knocks : List (Event PeerId) :=
  [.recv 0 (addr 9) [0, 1, 2], .other 2 (.recv loopEnv [0, 1, 2] (addr 9))]

def met : List (Event PeerId) :=
  [hello 1000 1 hostOne, hello 2000 2 hostTwo] ++ knocks ++
    [.sync table.alivePeers, .arrive 1 loopEnv, .arrive 2 loopEnv]

def start (_ : PeerId) : Reading := Reading.boot ∅ true [] []

theorem carried_alone {port : UInt16} {peerId : PeerId} {lastOctet : UInt8} {version : UInt64} :
    (host version port [peer peerId lastOctet networkA]).Carried where
  natAddr := trivial
  localAddrs _ haddr := absurd haddr List.not_mem_nil
  peers p hp := by
    obtain rfl := List.mem_singleton.mp hp
    refine ⟨⟨fun _ haddr => ?_, fun _ haddr => absurd haddr List.not_mem_nil⟩, ?_⟩
    · cases haddr
    · exact fun _ hc => absurd hc List.not_mem_nil

theorem reportFrom_hello {info : HostInfo} (h : info.Carried)
    (hlen : (info.toBytes env.crates).length < 200) (port : UInt16) (peerId : PeerId) :
    ReportFrom env.derp (addr port) networkA info
      (.recv 0 (addr port) (reportDatagram peerId tokenA (info.toBytes env.crates))) := by
  have hverify : verify env.derp.decode 0 env.derp.secret tokenA = .ok (claims uuidA) := verify_tokenA
  have huuid : env.derp.parseUuid (claims uuidA).sub = some networkA := by
    simp [env, Env.derp, Derp.Sample.env, claims]
  have hread : env.derp.hostInfo (info.toBytes env.crates) = .ok info :=
    @HostInfo.Carried.reencodes env.crates ProtoHostInfo.wire_inverts info h
  have hsize : tokenA.utf8ByteSize + (info.toBytes env.crates).length + 11 < maxPacketLen := by
    have htoken : tokenA.utf8ByteSize = 185 := by decide +kernel
    rw [htoken, maxPacketLen]
    omega
  exact reportFrom_reportDatagram hverify huuid hread hsize peerId (addr port)

theorem spec_hello {info : HostInfo} (h : info.Carried)
    (hlen : (info.toBytes env.crates).length < 200) (port : UInt16) (peerId : PeerId) :
    spec env (hello port peerId info) = some (.report (addr port) networkA info) := by
  have hfrom := reportFrom_hello h hlen port peerId
  rw [hello, spec, reportOf_eq_some.mpr hfrom]
  rfl

theorem spec_met : met.filterMap (spec env) = System.Sample.met := by
  have hone : spec env (hello 1000 1 hostOne) = some reportOne :=
    spec_hello carried_alone (by decide +kernel) 1000 1
  have htwo : spec env (hello 2000 2 hostTwo) = some reportTwo :=
    spec_hello carried_alone (by decide +kernel) 2000 2
  have hknock : ∀ e ∈ knocks, spec env e = none := by
    simp only [knocks, List.forall_mem_cons, List.not_mem_nil, false_imp_iff, implies_true,
      and_true]
    exact ⟨rfl, rfl⟩
  rw [met, List.filterMap_append, List.filterMap_append, List.filterMap_cons_some hone,
    List.filterMap_cons_some htwo, List.filterMap_nil, List.filterMap_eq_nil_iff.mpr hknock]
  rfl

theorem sound {s : State PeerId} {e : Event PeerId} (he : e ∈ met)
    (hfits : ∀ m ∈ s.nodes.inFlight, m.2.length < maxBufferSize) : Sound env s e := by
  have hknock : Reading.pushOf (.recv loopEnv [0, 1, 2] (addr 9)) = none := by decide +kernel
  have hsurvives : Reading.Survives (.recv loopEnv [0, 1, 2] (addr 9)) := by
    intro _ _ decoded hdecoded
    cases hdecoded
  simp only [met, hello, knocks, List.cons_append, List.nil_append, List.mem_cons, List.not_mem_nil,
    or_false] at he
  rcases he with rfl | rfl | rfl | rfl | rfl | rfl | rfl
  all_goals refine ⟨hfits, fun node env' heq => ?_, fun node e' heq => ?_, fun node e' heq => ?_⟩
  all_goals cases heq
  · exact hknock
  · exact hsurvives
  · exact ⟨rfl, rfl⟩
  · exact ⟨rfl, rfl⟩

theorem codec_inverts : env.crates.protoPeer.Inverts := ProtoPeerInfo.wire_inverts

theorem fresh (node : PeerId) :
    (start node).reading = true ∧ (start node).daemon.router.store = Router.new.store :=
  ⟨rfl, rfl⟩

/-- All pushes of the run without bytes are short. -/
theorem short_met {as : List (System.Event PeerId)} (h : as <+: System.Sample.met) :
    ∀ m ∈ (System.run id as).nodes.inFlight, (encode env m.2).length < maxBufferSize := by
  have hall : ∀ as ∈ System.Sample.met.inits, ∀ m ∈ (System.run id as).nodes.inFlight,
      (encode env m.2).length < maxBufferSize := by
    decide +kernel
  exact hall as ((List.mem_inits as _).mpr h)

theorem sound_met {es : List (Event PeerId)} (h : es <+: met) :
    Runs.Meets (step env id) (fun _ => Sound env) ⟨.new, ⟨start, []⟩⟩ es := by
  induction es using List.reverseRecOn with
  | nil => trivial
  | append_singleton as a ih =>
    have has : as <+: met := (List.prefix_append as [a]).trans h
    have hrun := refines_run codec_inverts fresh (ih has)
    have hspec : as.filterMap (spec env) <+: System.Sample.met := by
      rw [← spec_met]
      exact has.filterMap (spec env)
    refine Runs.meets_concat.mpr ⟨ih has, sound (h.subset (by simp)) fun m hm => ?_⟩
    rw [run] at hrun
    rw [hrun.nodes.inFlight] at hm
    obtain ⟨m', hm', rfl⟩ := List.mem_map.mp hm
    exact short_met hspec m' hm'

theorem meet_on_wire_met :
    ∃ atOne atTwo,
      ((run env id start met).nodes.replica 1).daemon.router.get (peer 2 2 networkA).noeioIp =
        some atOne ∧
      ((run env id start met).nodes.replica 2).daemon.router.get (peer 1 1 networkA).noeioIp =
        some atTwo ∧
      atOne.codec.keys = ⟨1, 2, networkA⟩ ∧ atTwo.codec.keys = ⟨2, 1, networkA⟩ := by
  have hsound := sound_met List.prefix_rfl
  have hrun := refines_run codec_inverts fresh hsound
  rw [spec_met] at hrun
  have hmeet := meet_on_wire env codec_inverts id start fresh met hsound
  rw [spec_met, hrun.manager, hrun.nodes.inFlight, quiescent_met.inFlight] at hmeet
  have hpair := livePair_met
  obtain ⟨atOne, atTwo, hatOne, hatTwo, -, -, hkeys, hkeys'⟩ := hmeet orderly_met
    quiescent_met.trigger quiescent_met.gone rfl 1 2 _ _ _ _ hpair.distinct hpair.first hpair.second
    hpair.network hpair.lists hpair.lists' hpair.alone hpair.alone'
  rw [id_eq] at hatOne hatTwo
  exact ⟨atOne, atTwo, hatOne, hatTwo, hkeys, hkeys'⟩

end Sample

end Noeio.System.Wire
