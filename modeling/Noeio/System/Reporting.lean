import Noeio.Common.Accepted
import Noeio.Daemon.Gate
import Noeio.Daemon.Publication
import Noeio.Daemon.Versions
import Noeio.Derp.Liveness

/-!
# From a node to the derper

`register_host_info` of `noeio/src/daemon.rs` writes what the node says about itself, once for each
derper. What it says is made by tasks that interleave: STUN responses set the address, `register_nic`
adds peers with a copy of the advertised list, and requests change the list and then the copies.

None of them says anything that the bytes cannot carry (`Speaks`): the candidates have no flow
information, and a block gets into a peer only through the list, where the gate has it in network form.
So whatever the interleaving, a derper that gets the whole datagram and accepts the token folds exactly
what the node says into its table, and one that refuses the token does nothing (`report_understood`).
-/

namespace Noeio

open Derp

/-- A derper of the list: where it is, our token for it, and what the system looks up for it. -/
structure ReportTarget where
  addr : SocketAddr
  token : String
  lookup : Lookup
  deriving DecidableEq

/-- One round of `register_host_info`: the datagrams, each with the address it goes to. -/
def Daemon.registerHostInfo (self : Daemon) (crates : WireCrates) (derpers : List ReportTarget) :
    List (SocketAddr × List UInt8) :=
  match self.hostInfo, self.nicPeers with
  | some host, peerId :: _ =>
    derpers.map fun derper =>
      (derper.addr, reportDatagram peerId derper.token
        ((self.reportInfo derper.lookup host).toBytes crates))
  -- no STUN response yet, or no nic
  | _, _ => []

/-! ## The host side of a node -/

/-- The node with the calls that it serves, and the STUN responses. -/
inductive Speaking.Event where
  | serve (e : Served.Event)
  | stun (response : StunResponse)

namespace Speaking

def step (env : RouteEnv) (s : Served) : Event → Served
  | .serve e => s.step env e
  | .stun response => { s with shared := s.shared.stunResponse response }

/-- A STUN response carries an address and a port. -/
def Plain : Event → Prop
  | .serve _ => True
  | .stun response => response.addr.NoFlowinfo

end Speaking

/-! ## What a host says -/

namespace HostInfo

theorem carried_new {addr : SocketAddr} (h : addr.NoFlowinfo) (hostname : String) (now : UInt64) :
    (HostInfo.new addr hostname now).Carried where
  natAddr := h
  localAddrs _ haddr := absurd haddr List.not_mem_nil
  peers _ hpeer := absurd hpeer List.not_mem_nil

theorem Carried.refresh {existing newInfo : HostInfo} (h : existing.Carried) (hnew : newInfo.Carried) :
    (existing.refresh newInfo).Carried :=
  ⟨hnew.natAddr, h.localAddrs, h.peers⟩

theorem Carried.advertise {host : HostInfo} (h : host.Carried) {routes : List Ipv4Cidr}
    (hroutes : ∀ c ∈ routes, c.network = c) (now : UInt64) : (host.advertise routes now).Carried := by
  refine ⟨h.natAddr, h.localAddrs, fun peer hpeer => ?_⟩
  obtain ⟨p, hp, rfl⟩ := List.mem_map.mp hpeer
  have hcarried := h.peers p hp
  exact ⟨⟨hcarried.flow.natAddr, hcarried.flow.localAddrs⟩, hroutes⟩

theorem Carried.addPeer {host : HostInfo} (h : host.Carried) {peer : PeerInfo} (hpeer : peer.Carried) :
    (host.addPeer peer).Carried := by
  unfold HostInfo.addPeer
  split
  · refine ⟨h.natAddr, h.localAddrs, fun p hp => ?_⟩
    rcases Publishing.mem_modify hp with hp | ⟨q, hq, rfl⟩
    · exact h.peers p hp
    · have hcarried := h.peers q hq
      exact ⟨⟨hcarried.flow.natAddr, hcarried.flow.localAddrs⟩, hcarried.routes⟩
  · refine ⟨h.natAddr, h.localAddrs, fun p hp => ?_⟩
    rcases List.mem_append.mp hp with hp | hp
    · exact h.peers p hp
    · rw [List.mem_singleton.mp hp]
      exact hpeer

theorem Carried.withLocalAddrs {host : HostInfo} (h : host.Carried) {localAddrs : List SocketAddr}
    (haddrs : ∀ addr ∈ localAddrs, addr.NoFlowinfo) : (host.withLocalAddrs localAddrs).Carried := by
  refine ⟨h.natAddr, haddrs, fun peer hpeer => ?_⟩
  obtain ⟨p, hp, rfl⟩ := List.mem_map.mp hpeer
  have hcarried := h.peers p hp
  exact ⟨⟨hcarried.flow.natAddr, haddrs⟩, hcarried.routes⟩

end HostInfo

theorem noFlowinfo_reportLocalAddrs {port : UInt16} {primary : Option IpAddr}
    {overlayIps : List IpAddr} : ∀ addr ∈ reportLocalAddrs port primary overlayIps, addr.NoFlowinfo := by
  intro addr haddr
  unfold reportLocalAddrs at haddr
  split at haddr
  · rename_i ip
    split at haddr
    · rw [List.mem_singleton.mp haddr]
      cases ip with
      | v4 a => trivial
      | v6 a => rfl
    · cases haddr
  · cases haddr

theorem Daemon.carried_reportInfo (d : Daemon) (lookup : Lookup) {host : HostInfo} (h : host.Carried) :
    (d.reportInfo lookup host).Carried := by
  unfold Daemon.reportInfo
  split
  · exact h.withLocalAddrs noFlowinfo_reportLocalAddrs
  · exact h

theorem Daemon.carried_createPeer {d : Daemon} {parseUuid : String → Except String NetworkId}
    {peerId : PeerId} {ip : IpAddr} {network : String} {peer : PeerInfo}
    (h : d.createPeer parseUuid peerId ip network = .ok peer) : peer.Carried := by
  unfold Daemon.createPeer PeerInfo.new at h
  cases hnetwork : parseUuid network with
  | error err =>
    rw [hnetwork] at h
    cases h
  | ok networkId =>
    rw [hnetwork] at h
    cases h
    refine ⟨⟨fun addr haddr => ?_, fun addr haddr => absurd haddr List.not_mem_nil⟩, fun c hc => ?_⟩
    · cases haddr
    · obtain ⟨route, -, rfl⟩ := List.mem_map.mp hc
      exact Ipv4Cidr.network_network route

/-! ## What is said at all times -/

/-- What the call is about to put into the host info can be carried. -/
def Call.Plain : Call → Prop
  | .publish routes => ∀ c ∈ routes, c.network = c
  | .register _ _ peer => peer.Carried
  | .addPeer peer => peer.Carried
  | _ => True

theorem Daemon.Stepped.plain {env : RouteEnv} {d e : Daemon} {now : UInt64} {call : Call}
    {next : Option Call} (h : Daemon.Stepped env d now call e next)
    (hhost : ∀ host ∈ d.hostInfo, host.Carried) (hcall : call.Plain)
    (hcarried : ∀ c ∈ call.carried, c.network = c) :
    (∀ host ∈ e.hostInfo, host.Carried) ∧ ∀ call' ∈ next, call'.Plain := by
  cases h with
  | written h hne =>
    refine ⟨hhost, ?_⟩
    rintro _ ⟨⟩ c hc
    refine hcarried c ?_
    cases call <;> cases h <;> exact hc
  | published =>
    refine ⟨fun host hpublished => ?_, fun _ hnext => by cases hnext⟩
    obtain ⟨old, hold, rfl⟩ := Option.map_eq_some_iff.mp hpublished
    exact (hhost old hold).advertise hcall now
  | created h =>
    refine ⟨hhost, ?_⟩
    rintro _ ⟨⟩
    exact Daemon.carried_createPeer h
  | registered =>
    refine ⟨hhost, ?_⟩
    rintro _ ⟨⟩
    exact hcall
  | added =>
    refine ⟨fun host hadded => ?_, fun _ hnext => by cases hnext⟩
    unfold Daemon.addPeer at hadded
    split at hadded
    · rename_i old hold
      obtain rfl := Option.some.inj hadded
      exact (hhost old hold).addPeer hcall
    · exact hhost host hadded
  | accepted | advertiseRead | withdrawRead =>
    refine ⟨hhost, ?_⟩
    rintro _ ⟨⟩
    trivial
  | advertiseRefused | withdrawRefused | same | nicRefused =>
    exact ⟨hhost, fun _ hnext => by cases hnext⟩

namespace Speaking

variable {env : RouteEnv} {controlPlane : List IpAddr} {s : Served}

/-- The list passed the gate, and the host and every call in flight say only what can be carried. -/
structure Speaks (env : RouteEnv) (controlPlane : List IpAddr) (s : Served) : Prop where
  gate : Served.Inv env controlPlane s
  host : ∀ host ∈ s.shared.hostInfo, host.Carried
  calls : ∀ call ∈ s.calls, call.2.Plain

theorem Speaks.stun (h : Speaks env controlPlane s) {response : StunResponse}
    (hplain : response.addr.NoFlowinfo) : Speaks env controlPlane (step env s (.stun response)) := by
  have hnew := HostInfo.carried_new hplain response.hostname response.now
  have hbase : (s.shared.stunResponse response).toNoeioDaemon = s.shared.toNoeioDaemon := by
    unfold Daemon.stunResponse
    split <;> rfl
  refine ⟨⟨?_, ?_, h.gate.writes, fun c hc => h.gate.admitted c ?_⟩, fun host hhost => ?_, h.calls⟩
  · simp only [step, hbase]
    exact h.gate.controlPlane_eq
  · simp only [step, hbase]
    exact h.gate.nodup
  · simpa only [Served.held, step, hbase] using hc
  · simp only [step, Daemon.stunResponse] at hhost
    split at hhost
    · rename_i existing hexisting
      obtain rfl := Option.some.inj hhost
      exact (h.host existing hexisting).refresh hnew
    · obtain rfl := Option.some.inj hhost
      exact hnew

theorem Speaks.resume (h : Speaks env controlPlane s) {call : (RouteRequest ⊕ NicRequest) × Call}
    (hcall : call ∈ s.calls) (now : UInt64) :
    Speaks env controlPlane (s.advance call (s.shared.atomic env call.2 now)) := by
  have hcarried : ∀ c ∈ call.2.carried, c.network = c := fun c hc =>
    (h.gate.admitted c (Served.mem_held.mpr (Or.inr ⟨call, hcall, hc⟩))).network
  obtain ⟨hhost, hnext⟩ := (Daemon.stepped_atomic env s.shared call.2 now).plain h.host
    (h.calls call hcall) hcarried
  refine ⟨h.gate.resume hcall now, hhost, fun call' hcall' => ?_⟩
  rcases Tasks.mem_advance.mp hcall' with ⟨-, hk⟩ | hold
  · exact hnext _ hk
  · exact h.calls call' (Tasks.mem_of_mem_rest hold)

theorem Speaks.step (h : Speaks env controlPlane s) {e : Event} (he : Plain e) :
    Speaks env controlPlane (step env s e) := by
  cases e with
  | stun response => exact h.stun he
  | serve e =>
    cases e with
    | start r =>
      refine ⟨h.gate.start r, h.host, fun call hcall => ?_⟩
      rcases List.mem_cons.mp hcall with rfl | hcall
      · rcases r with (cidrs | cidrs) | r <;> trivial
      · exact h.calls call hcall
    | resume call now =>
      by_cases hcall : call ∈ s.calls
      · simp only [Speaking.step, Served.step, Tasks.step, if_pos hcall]
        exact h.resume hcall now
      · simp only [Speaking.step, Served.step, Tasks.step, if_neg hcall]
        exact h

theorem speaks_run {cfg : RouterConfig} {d : Daemon} (hboot : Daemon.main env cfg controlPlane = .ok d)
    {es : List Event} (hes : ∀ e ∈ es, Plain e) :
    Speaks env controlPlane (Runs.run (step env) ⟨d, []⟩ es) := by
  have hnone : d.hostInfo = none := by
    obtain ⟨cfg', -, hnew⟩ := bind_eq_ok hboot
    cases hnew
    rfl
  have hnew : Speaks env controlPlane ⟨d, []⟩ := by
    refine ⟨Served.inv_main hboot, fun host hhost => ?_, fun call hcall => absurd hcall List.not_mem_nil⟩
    rw [hnone] at hhost
    cases hhost
  refine Runs.invariant (P := fun _ s => Speaks env controlPlane s) hnew ?_ (Runs.meets_of_forall hes)
  exact fun _ _ _ h he => h.step he

/-! ## The derper's side -/

theorem length_reportDatagram (peerId : PeerId) (token : String) (host : List UInt8) :
    (reportDatagram peerId token host).length = token.utf8ByteSize + host.length + 11 := by
  simp only [reportDatagram, NoeioPacket.new, ReportPayload.toBytes, TokenFrame.encode,
    List.length_append, PacketHeader.length_toBytes, length_asBytes, BigEndian.toBe16,
    PacketHeader.len, List.length_cons, List.length_nil]
  omega

/-- What the node says arrives as it was said, if the derper accepts the token and knows its
network. -/
theorem reportOf_reportDatagram {derp : Derp.Env} {crates : WireCrates}
    (hcodec : crates.protoHost.Inverts) (hread : derp.hostInfo = HostInfo.tryFrom crates)
    {info : HostInfo} (hinfo : info.Carried) {token : String} {peerId : PeerId}
    (hsize : (reportDatagram peerId token (info.toBytes crates)).length < maxPacketLen)
    (now : UInt64) (src : SocketAddr) :
    reportOf derp (.recv now src (reportDatagram peerId token (info.toBytes crates))) =
      ((verify derp.decode now derp.secret token).toOption.bind fun claims =>
        derp.parseUuid claims.sub).map fun network => (src, network, info) := by
  let header : PacketHeader := ⟨.report, peerId, 0⟩
  let payload := ReportPayload.toBytes token (info.toBytes crates)
  have hudp : handleUdpRecv (reportDatagram peerId token (info.toBytes crates)) src =
      .ok (NoeioPacket.new header payload) := by
    rw [handleUdpRecv, if_neg (Nat.not_le.mpr hsize), reportDatagram, NoeioPacket.tryFrom_new]
    exact if_neg fun htype => by cases htype
  have htoken : token.utf8ByteSize < 2 ^ 16 := by
    rw [length_reportDatagram, maxPacketLen] at hsize
    omega
  have hreport : ReportPayload.tryFrom derp.hostInfo payload = .ok ⟨token, info⟩ := by
    rw [ReportPayload.tryFrom_toBytes_iff.mpr htoken, hread, hinfo.reencodes hcodec]
    rfl
  have haccept : acceptReport derp now (NoeioPacket.new header payload) =
      ((verify derp.decode now derp.secret token).toOption.bind fun claims =>
        derp.parseUuid claims.sub).map fun network => (network, info) := by
    simp only [acceptReport, NoeioPacket.parseHeader_new, NoeioPacket.payload_new, hreport,
      Option.bind_eq_bind, Option.bind_some, Except.toOption]
    cases verify derp.decode now derp.secret token with
    | error err => rfl
    | ok claims =>
      simp only [Option.bind_some]
      cases derp.parseUuid claims.sub <;> rfl
  have htype : (NoeioPacket.new header payload).packetType = .report := rfl
  simp only [reportOf, hudp, htype, if_true, haccept, Option.map_map]
  rfl

/-- What a node says is what the derper hears. After every run of STUN responses, nic registrations
and route requests from boot, in any interleaving, a round of reports sends every derper what the node
says to it. If the datagram fits, a derper that accepts the token for a network folds exactly this host
into its table, so that each of its peers in the network is stored with it unless something newer is,
and a derper that refuses the token stays as it is. -/
theorem report_understood (env : RouteEnv) {cfg : RouterConfig} {d : Daemon}
    (hboot : Daemon.main env cfg controlPlane = .ok d) {es : List Event} (hes : ∀ e ∈ es, Plain e)
    (crates : WireCrates) (hcodec : crates.protoHost.Inverts) (derp : Derp.Env)
    (hread : derp.hostInfo = HostInfo.tryFrom crates) :
    let node := (Runs.run (step env) ⟨d, []⟩ es).shared
    ∀ derpers, ∀ target ∈ derpers, ∀ info, node.buildReport target.lookup = some info →
      ∃ data, (target.addr, data) ∈ node.registerHostInfo crates derpers ∧
        (data.length < maxPacketLen → ∀ now src t,
          (∀ claims network, verify derp.decode now derp.secret target.token = .ok claims →
            derp.parseUuid claims.sub = some network →
            Derp.step derp t (.recv now src data) =
                { t with manager := handleReport t.manager src network info } ∧
              ∀ peer ∈ info.peers, peer.networkId = network →
                (Derp.step derp t (.recv now src data)).manager.get peer.peerId =
                  some (PeerManager.merge (t.manager.get peer.peerId) ⟨src, info, network⟩)) ∧
          ((∀ claims, verify derp.decode now derp.secret target.token = .ok claims →
              derp.parseUuid claims.sub = none) →
            Derp.step derp t (.recv now src data) = t)) := by
  intro node derpers target htarget info hbuilt
  have hspeaks : Speaks env controlPlane (Runs.run (step env) ⟨d, []⟩ es) := speaks_run hboot hes
  unfold Daemon.buildReport at hbuilt
  cases hhost : node.hostInfo with
  | none =>
    rw [hhost] at hbuilt
    cases hbuilt
  | some host =>
    rw [hhost] at hbuilt
    cases hnics : node.nicPeers with
    | nil =>
      rw [hnics] at hbuilt
      cases hbuilt
    | cons peerId others =>
      rw [hnics] at hbuilt
      obtain rfl := Option.some.inj hbuilt
      have hcarried := node.carried_reportInfo target.lookup (hspeaks.host host hhost)
      refine ⟨reportDatagram peerId target.token
        ((node.reportInfo target.lookup host).toBytes crates), ?_, fun hsize now src t => ?_⟩
      · simp only [Daemon.registerHostInfo, hhost, hnics]
        exact List.mem_map.mpr ⟨target, htarget, rfl⟩
      have hheard := reportOf_reportDatagram hcodec hread hcarried hsize now src
      refine ⟨fun claims network hverify huuid => ?_, fun hrefused => ?_⟩
      · rw [hverify] at hheard
        simp only [Except.toOption, Option.bind_some, huuid, Option.map_some] at hheard
        have hstep := step_of_reportFrom (reportOf_eq_some.mp hheard) t
        refine ⟨hstep, fun peer hpeer hnetwork => ?_⟩
        rw [hstep]
        exact (get_handleReport _ _ _ _ _).trans (if_pos ⟨peer, hpeer, hnetwork, rfl⟩)
      · refine step_of_reportOf_eq_none ?_ t
        rw [hheard]
        cases hverify : verify derp.decode now derp.secret target.token with
        | error err => rfl
        | ok claims =>
          simp only [Except.toOption, Option.bind_some, hrefused claims hverify, Option.map_none]

namespace Sample

open RouteEnv.Sample Served.Sample

/-- A nic is registered, and then the LAN is advertised. -/
def served : List Served.Event :=
  joins awayNic ++ [.resume (.inr awayNic, .addPeer (peerOf awayNic)) 8,
    .start (.inl addLan), .resume (.inl addLan, addLan.entry) 9,
    .resume (.inl addLan, .advertiseRead [lan]) 10,
    .resume (.inl addLan, .advertiseWrite [lan] [office]) 11,
    .resume (.inl addLan, .publish [office, lan]) 12]

def events : List Event :=
  .stun ⟨.v4 (.ofOctets 203 0 113 5) 51820, "host", 7⟩ :: served.map .serve

def target : ReportTarget :=
  ⟨.v4 (.ofOctets 203 0 113 1) 3478, "token", ⟨some 51820, some (.v4 (.ofOctets 192 168 5 2))⟩⟩

def derp : Derp.Env where
  secret := "secret"
  decode token _ := if token = "token" then .ok ⟨"derper", "net", 0, none⟩ else .error .invalidSignature
  parseUuid _ := some (Vector.replicate 16 0)
  hostInfo := HostInfo.tryFrom HostInfo.Sample.crates

/-- The node as the derper has it. -/
def told : HostInfo :=
  ⟨12, .v4 (.ofOctets 203 0 113 5) 51820, .other, "host", [.v4 (.ofOctets 192 168 5 2) 51820],
    [⟨0, 7, .v4 (.ofOctets 172 16 0 5), Vector.replicate 16 0, .other, none,
      [.v4 (.ofOctets 192 168 5 2) 51820], [office, lan], false⟩]⟩

theorem buildReport_events :
    (Runs.run (step linux) ⟨router, []⟩ events).shared.buildReport target.lookup = some told := by
  decide +kernel

theorem plain_events : ∀ e ∈ events, Plain e := by
  intro e he
  rcases List.mem_cons.mp he with rfl | he
  · trivial
  · obtain ⟨_, -, rfl⟩ := List.mem_map.mp he
    trivial

/-- The derper stores the nic under its id, with both blocks. -/
theorem report_understood_events :
    ∃ data, (target.addr, data) ∈
        (Runs.run (step linux) ⟨router, []⟩ events).shared.registerHostInfo HostInfo.Sample.crates
          [target] ∧
      (Derp.step derp Derp.State.new (.recv 20 (.v4 (.ofOctets 192 0 2 1) 1000) data)).manager.get 7 =
        some ⟨.v4 (.ofOctets 192 0 2 1) 1000, told, Vector.replicate 16 0⟩ := by
  have hboot : Daemon.main linux config [] = .ok router := rfl
  obtain ⟨data, hsent, hheard⟩ := report_understood linux hboot plain_events HostInfo.Sample.crates
    ProtoHostInfo.wire_inverts derp rfl [target] target List.mem_cons_self told buildReport_events
  have hshort : ∀ sent ∈ (Runs.run (step linux) ⟨router, []⟩ events).shared.registerHostInfo
      HostInfo.Sample.crates [target], sent.2.length < maxPacketLen := by
    decide +kernel
  have hverify : verify derp.decode 20 derp.secret target.token = .ok ⟨"derper", "net", 0, none⟩ := by
    decide
  obtain ⟨hstored, -⟩ := hheard (hshort _ hsent) 20 (.v4 (.ofOctets 192 0 2 1) 1000) Derp.State.new
  exact ⟨data, hsent, (hstored _ _ hverify rfl).2 _ List.mem_cons_self rfl⟩

end Sample

end Speaking

end Noeio
