import Noeio.Common.Report
import Noeio.Derp.PeerManager
import Noeio.Derp.Token
import Noeio.Lib.Runs

/-!
# The tasks of the derper

`noeio-derp/src/connection.rs`. The derper is a set of tasks around one `PeerManager`:

* the receiver (`handleUdpRecv`, then `handlePacketRecv`) relays a `Forward` as a
  `Delivery`, answers pings and folds reports into the table;
* the sync task, woken by the trigger, reads the live peers and spawns one send for each
  entry of each peer to each other peer of its network (`syncRoutes`);
* the gone task takes one `Gone` at a time and sends its tombstones one after the other
  (`tombstones`);
* entries expire at any time and maintenance removes expired entries at any time.

The tasks interleave at their await points, so an `Event` is one stretch of one task
between two of them. A spawned send is a task of its own and may run at any later time,
in any order; the gone task keeps its order but may be interrupted between two sends.
The cache iterates in no particular order, so `sync` and `gone` carry the order in which
the live peers were read.
-/

namespace Noeio.Derp

/-- What the derper calls and does not contain: the JWT library, the UUID parser and the
decoder of a reported `HostInfo`. `secret` is `auth.secret` of its configuration. -/
structure Env where
  secret : String
  decode : String → String → Except JwtError Claims
  parseUuid : String → Option NetworkId
  hostInfo : List UInt8 → Except String HostInfo

/-- One `SyncRoute` to be sent: `info` to the peer `target` at `toAddr`. `network` is the
network under which the sending loop read `target` from the table. -/
structure RoutePush where
  target : PeerId
  toAddr : SocketAddr
  network : NetworkId
  info : PeerInfo
  deriving DecidableEq

/-- What leaves the socket. -/
inductive Output where
  | packet (toAddr : SocketAddr) (packet : NoeioPacket)
  | syncRoute (push : RoutePush)
  deriving DecidableEq

/-! ## The receiver -/

def maxPacketLen : Nat := 2048

inductive RecvError where
  | truncated (addr : SocketAddr)
  | invalidHeader
  | pingNotIpv4 (addr : SocketAddr)
  deriving DecidableEq

/-- The payload of a `Ping`: the address it came from, then CR LF. -/
def pingPayload (ip : Ipv4Addr) (port : UInt16) : List UInt8 :=
  BigEndian.toBe32 (UInt32.ofBitVec ip) ++ BigEndian.toBe16 port ++ [13, 10]

def handleUdpRecv (data : List UInt8) (addr : SocketAddr) : Except RecvError NoeioPacket :=
  if data.length ≥ maxPacketLen then .error (.truncated addr)
  else
    match NoeioPacket.tryFrom data with
    | none => .error .invalidHeader
    | some packet =>
      if packet.packetType = .ping then
        match addr with
        | .v4 ip port => .ok (packet.setPayload (pingPayload ip port))
        | .v6 .. => .error (.pingNotIpv4 addr)
      else .ok packet

/-- The part of the `Report` branch before its loop: the network the token is scoped to and
the reported host, or nothing if the report is dropped. -/
def acceptReport (env : Env) (now : UInt64) (packet : NoeioPacket) :
    Option (NetworkId × HostInfo) := do
  let _ ← packet.parseHeader
  let payload ← packet.payload
  let report ← (ReportPayload.tryFrom env.hostInfo payload).toOption
  let claims ← (verify env.decode now env.secret report.token).toOption
  let tokenNetwork ← env.parseUuid claims.sub
  return (tokenNetwork, report.hostInfo)

/-- The loop of the `Report` branch: peers reported outside the token's network are
dropped, every other one is a heartbeat that carries the whole host. -/
def handleReport (manager : PeerManager) (addr : SocketAddr) (tokenNetwork : NetworkId)
    (hostInfo : HostInfo) : PeerManager :=
  hostInfo.peers.foldl (fun manager info =>
    if info.networkId ≠ tokenNetwork then manager
    else manager.heartbeat info.peerId hostInfo addr info.networkId) manager

def relayForward (manager : PeerManager) (addr : SocketAddr) (packet : NoeioPacket) :
    Option Output := do
  let header ← packet.parseHeader
  let target ← manager.get header.peerId
  let senderId ← manager.peerIdByAddr addr target.network
  return .packet target.addr (packet.setHeader
    { packetType := .delivery, peerId := senderId, port := header.port })

def answerPing (addr : SocketAddr) (packet : NoeioPacket) : Output :=
  let header : PacketHeader :=
    { packetType := .tunnelPong, peerId := (packet.parseHeader.map (·.peerId)).getD 0, port := 0 }
  .packet addr (NoeioPacket.new header (packet.payload.getD []))

def handlePacketRecv (env : Env) (now : UInt64) (manager : PeerManager) (addr : SocketAddr)
    (packet : NoeioPacket) : PeerManager × List Output :=
  match packet.packetType with
  | .forward => (manager, (relayForward manager addr packet).toList)
  | .tunnelPing => (manager, [answerPing addr packet])
  | .report =>
    match acceptReport env now packet with
    | some (tokenNetwork, hostInfo) => (handleReport manager addr tokenNetwork hostInfo, [])
    | none => (manager, [])
  -- a `Delivery` is the relay's output and never relayed; the rest is not for the derper
  | .ping | .syncRoute | .delivery | .seq | .ack | .tunnelPong => (manager, [])

/-! ## The two broadcasts -/

/-- A broadcast entry: the reported peer with the paths of its host stamped in. -/
def syncInfo (host : HostInfo) (peerInfo : PeerInfo) : PeerInfo :=
  let localAddrs := if peerInfo.localAddrs.isEmpty then host.localAddrs else peerInfo.localAddrs
  peerInfo
    |>.withResourceVersion host.resourceVersion
    |>.withNatType host.natType
    |>.withNatAddr (some host.natAddr)
    |>.withLocalAddrs localAddrs

/-- The sends that `handle_sync` spawns for the live peers `peers`. -/
def syncRoutes (peers : List (PeerId × PeerEntry)) : List RoutePush :=
  peers.flatMap fun (targetId, target) =>
    peers.flatMap fun (peerId, peer) =>
      if targetId = peerId then []
      else if target.network ≠ peer.network then []
      else
        peer.info.peers.filterMap fun peerInfo =>
          if peerInfo.peerId = targetId then none
          else some ⟨targetId, target.addr, target.network, syncInfo peer.info peerInfo⟩

def tombstone (dead : Gone) (peerInfo : PeerInfo) : PeerInfo :=
  (peerInfo.withResourceVersion dead.info.resourceVersion).withWithdrawn true

/-- The sends of `handle_gone` for one `Gone`, given the live peers `peers`. -/
def tombstones (peers : List (PeerId × PeerEntry)) (dead : Gone) : List RoutePush :=
  let targets := peers.filter fun (id, entry) => id ≠ dead.peerId ∧ entry.network = dead.network
  dead.info.peers.flatMap fun peerInfo =>
    if peerInfo.networkId ≠ dead.network then []
    else
      targets.map fun (target, entry) =>
        ⟨target, entry.addr, entry.network, tombstone dead peerInfo⟩

/-! ## The derper as a step function -/

structure State where
  manager : PeerManager
  /-- Sends spawned by the sync task that have not run yet. -/
  spawned : List RoutePush
  /-- What the gone task still has to send of the `Gone` it took. -/
  burying : List RoutePush

def State.new : State := ⟨.new, [], []⟩

inductive Event where
  /-- The datagram `data` from `addr` is handled at the time `now`. -/
  | recv (now : UInt64) (addr : SocketAddr) (data : List UInt8)
  | expire (peerId : PeerId)
  | evict (peerId : PeerId)
  | expireAddr (key : SocketAddr × NetworkId)
  | evictAddr (key : SocketAddr × NetworkId)
  | remove (peerId : PeerId)
  /-- The sync task consumes the trigger and reads the live peers in this order. -/
  | sync (peers : List (PeerId × PeerEntry))
  /-- One spawned send runs. -/
  | send (index : Nat)
  /-- The gone task takes the next `Gone` and reads the live peers in this order. -/
  | gone (peers : List (PeerId × PeerEntry))
  /-- The gone task sends its next tombstone. -/
  | bury

def stepOut (env : Env) (s : State) : Event → State × List Output
  | .recv now addr data =>
    match handleUdpRecv data addr with
    | .ok packet =>
      let (manager, out) := handlePacketRecv env now s.manager addr packet
      ({ s with manager }, out)
    | .error _ => (s, [])
  | .expire peerId => ({ s with manager := s.manager.expire peerId }, [])
  | .evict peerId => ({ s with manager := s.manager.evict peerId }, [])
  | .expireAddr key => ({ s with manager := s.manager.expireAddr key }, [])
  | .evictAddr key => ({ s with manager := s.manager.evictAddr key }, [])
  | .remove peerId => ({ s with manager := s.manager.remove peerId }, [])
  | .sync peers =>
    if s.manager.trigger ∧ peers.Perm s.manager.alivePeers then
      ({ s with
          manager := { s.manager with trigger := false }
          spawned := s.spawned ++ syncRoutes peers }, [])
    else (s, [])
  | .send index =>
    match s.spawned[index]? with
    | some push => ({ s with spawned := s.spawned.eraseIdx index }, [.syncRoute push])
    | none => (s, [])
  | .gone peers =>
    match s.burying, s.manager.gone with
    | [], dead :: rest =>
      if peers.Perm s.manager.alivePeers then
        ({ s with
            manager := { s.manager with gone := rest }
            burying := tombstones peers dead }, [])
      else (s, [])
    | _, _ => (s, [])
  | .bury =>
    match s.burying with
    | push :: rest => ({ s with burying := rest }, [.syncRoute push])
    | [] => (s, [])

def step (env : Env) (s : State) (e : Event) : State := (stepOut env s e).1

/-- What the derper sends when `e` happens in `s`. -/
def sends (env : Env) (s : State) (e : Event) : List Output := (stepOut env s e).2

/-- The derper after the events `es`, from its start. -/
def run (env : Env) (es : List Event) : State := Runs.run (step env) State.new es

/-- The event `e` is the receipt of a report from `addr` whose token verifies for `network`,
with the contents `host`. -/
def ReportFrom (env : Env) (addr : SocketAddr) (network : NetworkId) (host : HostInfo)
    (e : Event) : Prop :=
  ∃ now data packet, e = .recv now addr data ∧ handleUdpRecv data addr = .ok packet ∧
    packet.packetType = .report ∧ acceptReport env now packet = some (network, host)

/-- The datagram in which a node reports itself, given the encoding of its host. -/
def reportDatagram (peerId : PeerId) (token : String) (host : List UInt8) : List UInt8 :=
  (NoeioPacket.new ⟨.report, peerId, 0⟩ (ReportPayload.toBytes token host)).inner

/-! ## What a step can do

Each lemma says once what an event may change; the properties of whole runs are derived
from these and never unfold `stepOut` again. -/

@[simp] theorem run_concat (env : Env) (es : List Event) (e : Event) :
    run env (es ++ [e]) = step env (run env es) e :=
  Runs.run_concat _ _ _ _

theorem step_of_reportFrom {env : Env} {addr : SocketAddr} {network : NetworkId} {host : HostInfo}
    {e : Event} (h : ReportFrom env addr network host e) (s : State) :
    step env s e = { s with manager := handleReport s.manager addr network host } := by
  obtain ⟨now, data, packet, rfl, hu, ht, ha⟩ := h
  simp [step, stepOut, hu, handlePacketRecv, ht, ha]

theorem ReportFrom.unique {env : Env} {addr addr' : SocketAddr} {network network' : NetworkId}
    {host host' : HostInfo} {e : Event} (h : ReportFrom env addr network host e)
    (h' : ReportFrom env addr' network' host' e) :
    addr = addr' ∧ network = network' ∧ host = host' := by
  obtain ⟨now, data, packet, rfl, hu, -, ha⟩ := h
  obtain ⟨now', data', packet', heq, hu', -, ha'⟩ := h'
  obtain ⟨rfl, rfl, rfl⟩ := Event.recv.inj heq
  obtain rfl := Except.ok.inj (hu.symm.trans hu')
  obtain ⟨rfl, rfl⟩ := Prod.mk.inj (Option.some.inj (ha.symm.trans ha'))
  exact ⟨rfl, rfl, rfl⟩

/-- What a node sends with a valid token is accepted, with its contents unchanged. -/
theorem reportFrom_reportDatagram {env : Env} {now : UInt64} {token : String} {claims : Claims}
    {network : NetworkId} {bytes : List UInt8} {host : HostInfo}
    (hver : verify env.decode now env.secret token = .ok claims)
    (huuid : env.parseUuid claims.sub = some network) (hhost : env.hostInfo bytes = .ok host)
    (hlen : token.utf8ByteSize + bytes.length + 11 < maxPacketLen) (peerId : PeerId)
    (addr : SocketAddr) :
    ReportFrom env addr network host (.recv now addr (reportDatagram peerId token bytes)) := by
  let header : PacketHeader := ⟨.report, peerId, 0⟩
  let packet := NoeioPacket.new header (ReportPayload.toBytes token bytes)
  have hmax : maxPacketLen < 2 ^ 16 := by decide
  have hsize : (reportDatagram peerId token bytes).length =
      token.utf8ByteSize + bytes.length + 11 := by
    simp only [reportDatagram, NoeioPacket.new, ReportPayload.toBytes, TokenFrame.encode,
      List.length_append, PacketHeader.length_toBytes, length_asBytes, BigEndian.toBe16,
      PacketHeader.len, List.length_cons, List.length_nil]
    omega
  have hparse : packet.parseHeader = some header := PacketHeader.fromBytes_toBytes_append _ _
  have hpay : packet.payload = some (ReportPayload.toBytes token bytes) := by
    rw [NoeioPacket.payload_of_parseHeader hparse]
    exact congrArg some (List.drop_left' (PacketHeader.length_toBytes header))
  have hudp : handleUdpRecv (reportDatagram peerId token bytes) addr = .ok packet := by
    have htry : NoeioPacket.tryFrom (reportDatagram peerId token bytes) = some packet := by
      rw [NoeioPacket.tryFrom]
      exact congrArg (Option.map _) hparse
    have hnp : packet.packetType ≠ .ping := by simp [packet, header, NoeioPacket.new]
    rw [handleUdpRecv, if_neg (by omega), htry]
    exact if_neg hnp
  refine ⟨now, _, packet, rfl, hudp, rfl, ?_⟩
  have hdec := @TokenFrame.decode_encode token (by omega) bytes
  simp [acceptReport, hparse, hpay, ReportPayload.tryFrom, ReportPayload.toBytes, hdec, hhost,
    Except.toOption, hver, huuid, bind, Except.bind, pure, Except.pure]

/-- A datagram is an accepted report and folds into the table, or it leaves the state as
it is. -/
theorem step_recv (env : Env) (s : State) (now : UInt64) (addr : SocketAddr) (data : List UInt8) :
    (∃ network host, ReportFrom env addr network host (.recv now addr data) ∧
      step env s (.recv now addr data) =
        { s with manager := handleReport s.manager addr network host }) ∨
    step env s (.recv now addr data) = s := by
  cases hu : handleUdpRecv data addr with
  | error err =>
    right
    simp [step, stepOut, hu]
  | ok packet =>
    by_cases ht : packet.packetType = .report
    · cases ha : acceptReport env now packet with
      | none =>
        right
        simp [step, stepOut, hu, handlePacketRecv, ht, ha]
      | some r =>
        left
        have hrep : ReportFrom env addr r.1 r.2 (.recv now addr data) :=
          ⟨now, data, packet, rfl, hu, ht, ha⟩
        exact ⟨r.1, r.2, hrep, step_of_reportFrom hrep s⟩
    · right
      have hm : (handlePacketRecv env now s.manager addr packet).1 = s.manager := by
        unfold handlePacketRecv
        split <;> first | rfl | contradiction
      simp [step, stepOut, hu, hm]

/-- A report for the same entry a second time changes nothing. -/
theorem merge_merge (prev : Option PeerEntry) (new : PeerEntry) :
    PeerManager.merge (some (PeerManager.merge prev new)) new = PeerManager.merge prev new := by
  cases prev with
  | none => exact if_pos (UInt64.le_refl _)
  | some prev =>
    by_cases hv : new.info.resourceVersion ≤ prev.info.resourceVersion
    · simp [PeerManager.merge, hv]
    · simp [PeerManager.merge, hv]

/-- The table after a report: the peers it lists in the token's network are merged with it,
all others stay. -/
theorem get_handleReport (m : PeerManager) (addr : SocketAddr) (network : NetworkId)
    (host : HostInfo) (x : PeerId) :
    (handleReport m addr network host).get x =
      if ∃ info ∈ host.peers, info.networkId = network ∧ info.peerId = x then
        some (PeerManager.merge (m.get x) ⟨addr, host, network⟩)
      else m.get x := by
  unfold handleReport
  generalize host.peers = infos
  induction infos generalizing m with
  | nil => simp
  | cons info infos ih =>
    rw [List.foldl_cons, ih]
    by_cases hnet : info.networkId = network
    · subst hnet
      by_cases hx : x = info.peerId
      · subst hx
        simp only [ne_eq, not_true_eq_false, if_false, PeerManager.get_heartbeat, if_true,
          merge_merge, List.mem_cons, exists_eq_or_imp, and_self, true_or, ite_self]
      · have hne : ¬ info.peerId = x := fun h => hx h.symm
        simp [PeerManager.get_heartbeat, hx, hne]
    · simp [hnet]

theorem holds_handleReport {m : PeerManager} {addr : SocketAddr} {network : NetworkId}
    {host : HostInfo} {x : PeerId} :
    (handleReport m addr network host).peers.Holds x ↔
      (∃ info ∈ host.peers, info.networkId = network ∧ info.peerId = x) ∨ m.peers.Holds x := by
  unfold handleReport
  generalize host.peers = infos
  induction infos generalizing m with
  | nil => simp
  | cons info infos ih =>
    rw [List.foldl_cons, ih]
    by_cases hnet : info.networkId = network
    · rw [if_neg (not_not.mpr hnet), PeerManager.holds_heartbeat]
      simp only [List.mem_cons, exists_eq_or_imp, hnet, true_and, eq_comm (a := x)]
      rw [or_assoc, or_left_comm]
    · simp [hnet]

theorem entries_handleReport {Φ : PeerId → PeerEntry → Prop} {m : PeerManager} {addr : SocketAddr}
    {network : NetworkId} {host : HostInfo} (h : m.Entries Φ)
    (hnew : ∀ info ∈ host.peers, info.networkId = network →
      Φ info.peerId ⟨addr, host, network⟩) :
    (handleReport m addr network host).Entries Φ := by
  unfold handleReport
  generalize host.peers = infos at hnew
  induction infos generalizing m with
  | nil => exact h
  | cons info infos ih =>
    rw [List.foldl_cons]
    refine ih ?_ fun i hi => hnew i (List.mem_cons_of_mem _ hi)
    split
    · exact h
    · rename_i hnet
      obtain rfl := not_not.mp hnet
      exact h.heartbeat (hnew info List.mem_cons_self rfl)

/-- What a step can do to the state. `quiet` is everything that at most sends: the table, the
queue and the waiting pushes are as before or fewer. -/
inductive StepShape (env : Env) (s : State) (e : Event) : State → Prop
  | report {addr : SocketAddr} {network : NetworkId} {host : HostInfo}
      (hrep : ReportFrom env addr network host e) :
      StepShape env s e { s with manager := handleReport s.manager addr network host }
  | expire (x : PeerId) : StepShape env s e { s with manager := s.manager.expire x }
  | evict (x : PeerId) : StepShape env s e { s with manager := s.manager.evict x }
  | remove (x : PeerId) : StepShape env s e { s with manager := s.manager.remove x }
  | sync {peers : List (PeerId × PeerEntry)} (he : e = .sync peers)
      (hperm : peers.Perm s.manager.alivePeers) :
      StepShape env s e
        { s with
          manager := { s.manager with trigger := false }
          spawned := s.spawned ++ syncRoutes peers }
  | gone {peers : List (PeerId × PeerEntry)} {dead : Gone} {rest : List Gone} (he : e = .gone peers)
      (hperm : peers.Perm s.manager.alivePeers) (hburying : s.burying = [])
      (hgone : s.manager.gone = dead :: rest) :
      StepShape env s e
        { s with manager := { s.manager with gone := rest }, burying := tombstones peers dead }
  | quiet {t : State} (hpeers : t.manager.peers = s.manager.peers)
      (hgone : t.manager.gone = s.manager.gone) (hspawned : t.spawned ⊆ s.spawned)
      (hburying : t.burying ⊆ s.burying) : StepShape env s e t

theorem StepShape.refl (env : Env) (s : State) (e : Event) : StepShape env s e s :=
  .quiet rfl rfl (List.Subset.refl _) (List.Subset.refl _)

theorem stepShape (env : Env) (s : State) (e : Event) : StepShape env s e (step env s e) := by
  cases e with
  | recv now addr data =>
    rcases step_recv env s now addr data with ⟨network, host, hrep, heq⟩ | heq
    · rw [heq]
      exact .report hrep
    · rw [heq]
      exact .refl env s _
  | expire x => exact .expire x
  | evict x => exact .evict x
  | remove x => exact .remove x
  | expireAddr key => exact .quiet rfl rfl (List.Subset.refl _) (List.Subset.refl _)
  | evictAddr key => exact .quiet rfl rfl (List.Subset.refl _) (List.Subset.refl _)
  | sync peers =>
    simp only [step, stepOut]
    split
    · rename_i hen
      exact .sync rfl hen.2
    · exact .refl env s _
  | send index =>
    simp only [step, stepOut]
    split
    · exact .quiet rfl rfl List.eraseIdx_subset (List.Subset.refl _)
    · exact .refl env s _
  | gone peers =>
    simp only [step, stepOut]
    split
    · rename_i hb hg
      split
      · rename_i hperm
        exact .gone rfl hperm hb hg
      · exact .refl env s _
    · exact .refl env s _
  | bury =>
    simp only [step, stepOut]
    split
    · rename_i hb
      exact .quiet rfl rfl (List.Subset.refl _) (hb ▸ List.subset_cons_self _ _)
    · exact .refl env s _

/-- The rule of `PeerManager.Entries` for a step of the derper. -/
theorem entries_step {Φ : PeerId → PeerEntry → Prop} {env : Env} {s : State} {e : Event}
    (h : s.manager.Entries Φ)
    (hreport : ∀ addr network host, ReportFrom env addr network host e →
      ∀ info ∈ host.peers, info.networkId = network → Φ info.peerId ⟨addr, host, network⟩) :
    (step env s e).manager.Entries Φ := by
  have hshape := stepShape env s e
  generalize step env s e = t at hshape
  cases hshape with
  | report hrep => exact entries_handleReport h (hreport _ _ _ hrep)
  | expire x => exact h.expire x
  | evict x => exact h.evict x
  | remove x => exact h.remove x
  | sync _ _ => exact ⟨h.stored, h.gone⟩
  | gone _ _ _ hgone =>
    refine ⟨h.stored, fun g hg => h.gone g ?_⟩
    rw [hgone]
    exact List.mem_cons_of_mem _ hg
  | quiet hpeers hgone _ _ => exact ⟨hpeers ▸ h.stored, hgone ▸ h.gone⟩

theorem mem_spawned_step {env : Env} {s : State} {e : Event} {push : RoutePush}
    (h : push ∈ (step env s e).spawned) :
    push ∈ s.spawned ∨ ∃ peers, e = .sync peers ∧ peers.Perm s.manager.alivePeers ∧
      push ∈ syncRoutes peers := by
  have hshape := stepShape env s e
  generalize step env s e = t at h hshape
  cases hshape with
  | sync he hperm =>
    rcases List.mem_append.mp h with h | h
    · exact Or.inl h
    · exact Or.inr ⟨_, he, hperm, h⟩
  | quiet _ _ hspawned _ => exact Or.inl (hspawned h)
  | report | expire | evict | remove | gone => exact Or.inl h

theorem mem_burying_step {env : Env} {s : State} {e : Event} {push : RoutePush}
    (h : push ∈ (step env s e).burying) :
    push ∈ s.burying ∨ ∃ peers dead rest, e = .gone peers ∧ peers.Perm s.manager.alivePeers ∧
      s.burying = [] ∧ s.manager.gone = dead :: rest ∧ push ∈ tombstones peers dead := by
  have hshape := stepShape env s e
  generalize step env s e = t at h hshape
  cases hshape with
  | gone he hperm hburying hgone => exact Or.inr ⟨_, _, _, he, hperm, hburying, hgone, h⟩
  | quiet _ _ _ hburying => exact Or.inl (hburying h)
  | report | expire | evict | remove | sync => exact Or.inl h

/-- A peer is in the table after a step only if it was before or is reported. -/
theorem holds_step {env : Env} {s : State} {e : Event} {x : PeerId}
    (h : (step env s e).manager.peers.Holds x) :
    s.manager.peers.Holds x ∨ ∃ addr network host, ReportFrom env addr network host e ∧
      ∃ info ∈ host.peers, info.networkId = network ∧ info.peerId = x := by
  have hshape := stepShape env s e
  generalize step env s e = t at h hshape
  cases hshape with
  | report hrep =>
    rcases holds_handleReport.mp h with hlisted | h
    · exact Or.inr ⟨_, _, _, hrep, hlisted⟩
    · exact Or.inl h
  | expire y => exact Or.inl (TtlCache.holds_expire.mp h)
  | evict y => exact Or.inl (TtlCache.Holds.of_evict h)
  | remove y => exact Or.inl (TtlCache.Holds.of_invalidate h)
  | quiet hpeers _ _ _ => exact Or.inl (hpeers ▸ h)
  | sync | gone => exact Or.inl h

theorem relayForward_eq_some {m : PeerManager} {addr : SocketAddr} {packet : NoeioPacket}
    {out : Output} (h : relayForward m addr packet = some out) :
    ∃ header target senderId, packet.parseHeader = some header ∧
      m.get header.peerId = some target ∧ m.peerIdByAddr addr target.network = some senderId ∧
      out = .packet target.addr (packet.setHeader ⟨.delivery, senderId, header.port⟩) := by
  simp only [relayForward, Option.bind_eq_bind, Option.bind_eq_some_iff] at h
  obtain ⟨header, hh, target, ht, senderId, hs, hout⟩ := h
  exact ⟨header, target, senderId, hh, ht, hs, (Option.some.inj hout).symm⟩

/-- A `Forward` from a peer that the derper knows leaves it as the datagram of the direct path. -/
theorem sends_forward {env : Env} {s : State} {addr : SocketAddr} {x stamped : PeerId}
    {target : PeerEntry} (htarget : s.manager.get x = some target)
    (hstamped : s.manager.peerIdByAddr addr target.network = some stamped) {datagram : List UInt8}
    (hsize : PacketHeader.len + datagram.length < maxPacketLen) (now : UInt64) :
    ∃ relayed, relayed.inner = (NoeioPacket.new ⟨.delivery, stamped, 0⟩ datagram).inner ∧
      sends env s (.recv now addr (NoeioPacket.new ⟨.forward, x, 0⟩ datagram).inner) =
        [.packet target.addr relayed] := by
  have hrecv : handleUdpRecv (NoeioPacket.new ⟨.forward, x, 0⟩ datagram).inner addr =
      .ok (NoeioPacket.new ⟨.forward, x, 0⟩ datagram) := by
    rw [handleUdpRecv, if_neg (by rw [NoeioPacket.length_new]; omega), NoeioPacket.tryFrom_new]
    exact if_neg nofun
  have hparse := NoeioPacket.parseHeader_new ⟨.forward, x, 0⟩ datagram
  have hpayload := NoeioPacket.payload_new ⟨.forward, x, 0⟩ datagram
  refine ⟨(NoeioPacket.new ⟨.forward, x, 0⟩ datagram).setHeader ⟨.delivery, stamped, 0⟩, ?_, ?_⟩
  · exact NoeioPacket.inner_of_parseHeader (NoeioPacket.parseHeader_setHeader _ _)
      (NoeioPacket.payload_setHeader hpayload _)
  · have hrelay : relayForward s.manager addr (NoeioPacket.new ⟨.forward, x, 0⟩ datagram) =
        some (.packet target.addr
          ((NoeioPacket.new ⟨.forward, x, 0⟩ datagram).setHeader ⟨.delivery, stamped, 0⟩)) := by
      simp only [relayForward, hparse, htarget, hstamped, Option.bind_eq_bind, Option.bind_some]
      rfl
    simp only [sends, stepOut, hrecv, handlePacketRecv, hrelay]
    rfl

/-- The receiver sends only a relayed packet or the answer to a ping. -/
theorem sends_recv {env : Env} {s : State} {now : UInt64} {addr : SocketAddr} {data : List UInt8}
    {out : Output} (h : out ∈ sends env s (.recv now addr data)) :
    ∃ packet, handleUdpRecv data addr = .ok packet ∧
      ((packet.packetType = .forward ∧ relayForward s.manager addr packet = some out) ∨
        (packet.packetType = .tunnelPing ∧ out = answerPing addr packet)) := by
  simp only [sends, stepOut] at h
  split at h
  · rename_i packet hu
    refine ⟨packet, hu, ?_⟩
    unfold handlePacketRecv at h
    split at h
    · rename_i ht
      exact Or.inl ⟨ht, Option.mem_toList.mp h⟩
    · rename_i ht
      exact Or.inr ⟨ht, List.mem_singleton.mp h⟩
    · split at h <;> cases h
    all_goals cases h
  · cases h

/-- Every `SyncRoute` on the wire was waiting in one of the two broadcast tasks. -/
theorem waiting_of_sends {env : Env} {s : State} {e : Event} {push : RoutePush}
    (h : .syncRoute push ∈ sends env s e) : push ∈ s.spawned ∨ push ∈ s.burying := by
  cases e with
  | recv now addr data =>
    obtain ⟨packet, -, ⟨-, hout⟩ | ⟨-, hout⟩⟩ := sends_recv h
    · obtain ⟨_, _, _, _, _, _, hout⟩ := relayForward_eq_some hout
      cases hout
    · cases hout
  | sync peers =>
    simp only [sends, stepOut] at h
    split at h <;> cases h
  | send index =>
    simp only [sends, stepOut] at h
    split at h
    · rename_i p hp
      obtain rfl := Output.syncRoute.inj (List.mem_singleton.mp h)
      exact Or.inl (List.mem_of_getElem? hp)
    · cases h
  | gone peers =>
    simp only [sends, stepOut] at h
    split at h
    · split at h <;> cases h
    · cases h
  | bury =>
    simp only [sends, stepOut] at h
    split at h
    · rename_i p rest hb
      obtain rfl := Output.syncRoute.inj (List.mem_singleton.mp h)
      exact Or.inr (hb ▸ List.mem_cons_self)
    · cases h
  | expire | evict | expireAddr | evictAddr | remove => cases h

/-- Every other packet on the wire was sent by the receiver. -/
theorem recv_of_sends {env : Env} {s : State} {e : Event} {toAddr : SocketAddr} {p : NoeioPacket}
    (h : .packet toAddr p ∈ sends env s e) : ∃ now addr data, e = .recv now addr data := by
  cases e with
  | recv now addr data => exact ⟨now, addr, data, rfl⟩
  | sync peers =>
    simp only [sends, stepOut] at h
    split at h <;> cases h
  | send index =>
    simp only [sends, stepOut] at h
    split at h
    · cases List.mem_singleton.mp h
    · cases h
  | gone peers =>
    simp only [sends, stepOut] at h
    split at h
    · split at h <;> cases h
    · cases h
  | bury =>
    simp only [sends, stepOut] at h
    split at h
    · cases List.mem_singleton.mp h
    · cases h
  | expire | evict | expireAddr | evictAddr | remove => cases h

/-! ## What the broadcasts contain -/

theorem mem_syncRoutes {peers : List (PeerId × PeerEntry)} {push : RoutePush} :
    push ∈ syncRoutes peers ↔
      ∃ t target p peer, (t, target) ∈ peers ∧ (p, peer) ∈ peers ∧ t ≠ p ∧
        target.network = peer.network ∧ ∃ peerInfo ∈ peer.info.peers, peerInfo.peerId ≠ t ∧
          push = ⟨t, target.addr, target.network, syncInfo peer.info peerInfo⟩ := by
  simp only [syncRoutes, List.mem_flatMap, Prod.exists]
  constructor
  · rintro ⟨t, target, ht, p, peer, hp, h⟩
    split at h
    · cases h
    · rename_i htp
      split at h
      · cases h
      · rename_i hnet
        obtain ⟨peerInfo, hmem, hif⟩ := List.mem_filterMap.mp h
        split at hif
        · cases hif
        · rename_i hid
          exact ⟨t, target, p, peer, ht, hp, htp, not_not.mp hnet, peerInfo, hmem, hid,
            (Option.some.inj hif).symm⟩
  · rintro ⟨t, target, p, peer, ht, hp, htp, hnet, peerInfo, hmem, hid, rfl⟩
    refine ⟨t, target, ht, p, peer, hp, ?_⟩
    rw [if_neg htp, if_neg (not_not.mpr hnet)]
    exact List.mem_filterMap.mpr ⟨peerInfo, hmem, if_neg hid⟩

theorem mem_tombstones {peers : List (PeerId × PeerEntry)} {dead : Gone} {push : RoutePush} :
    push ∈ tombstones peers dead ↔
      ∃ t target, (t, target) ∈ peers ∧ t ≠ dead.peerId ∧ target.network = dead.network ∧
        ∃ peerInfo ∈ dead.info.peers, peerInfo.networkId = dead.network ∧
          push = ⟨t, target.addr, target.network, tombstone dead peerInfo⟩ := by
  simp only [tombstones, List.mem_flatMap]
  constructor
  · rintro ⟨peerInfo, hmem, h⟩
    split at h
    · cases h
    · rename_i hnet
      obtain ⟨⟨t, target⟩, ht, rfl⟩ := List.mem_map.mp h
      obtain ⟨ht, hf⟩ := List.mem_filter.mp ht
      obtain ⟨hid, htn⟩ := of_decide_eq_true hf
      exact ⟨t, target, ht, hid, htn, peerInfo, hmem, not_not.mp hnet, rfl⟩
  · rintro ⟨t, target, ht, hid, htn, peerInfo, hmem, hnet, rfl⟩
    refine ⟨peerInfo, hmem, ?_⟩
    rw [if_neg (not_not.mpr hnet)]
    exact List.mem_map.mpr ⟨(t, target), List.mem_filter.mpr ⟨ht, decide_eq_true ⟨hid, htn⟩⟩, rfl⟩

/-- A live peer of a snapshot is alive in the table the snapshot was taken of. -/
theorem get_of_mem_perm {m : PeerManager} {peers : List (PeerId × PeerEntry)} {x : PeerId}
    {e : PeerEntry} (hp : peers.Perm m.alivePeers) (h : (x, e) ∈ peers) : m.get x = some e :=
  TtlCache.mem_iter.mp (hp.mem_iff.mp h)

end Noeio.Derp
