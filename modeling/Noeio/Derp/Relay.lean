import Noeio.Derp.Connection

/-!
# The relay stamps only authenticated senders

A `Delivery` carries the id of its sender, and the receiver believes it. The id comes from
the peer table, so the claim is about how entries get there: every entry, through either
branch of `heartbeat`, is what some verified report from the stored address listed
(`Reported`). The hint `byAddr` may be stale or belong to another peer by now, but the
relay reads the table again before it uses the hint.
-/

namespace Noeio.Derp

/-- The entry `e` of the peer `x` is what one of the events reported: a token for the
network of the entry, sent from its address, over a host that lists `x` in that network. -/
def Reported (env : Env) (es : List Event) (x : PeerId) (e : PeerEntry) : Prop :=
  ∃ ev ∈ es, ReportFrom env e.addr e.network e.info ev ∧
    ∃ info ∈ e.info.peers, info.peerId = x ∧ info.networkId = e.network

theorem Reported.concat {env : Env} {es : List Event} {x : PeerId} {e : PeerEntry}
    (h : Reported env es x e) (ev : Event) : Reported env (es ++ [ev]) x e := by
  obtain ⟨a, ha, hrep⟩ := h
  exact ⟨a, List.mem_append_left _ ha, hrep⟩

/-- Every entry of the table and every queued `Gone` was reported. -/
theorem entries_reported (env : Env) (es : List Event) :
    (run env es).manager.Entries (Reported env es) := by
  refine Runs.invariant_of_step (P := fun es (s : State) => s.manager.Entries (Reported env es))
    PeerManager.entries_new (fun es s e h => ?_) es
  refine entries_step (h.mono fun x d hd => hd.concat e) ?_
  intro addr network host hrep info hinfo hnet
  exact ⟨e, List.mem_append_right _ List.mem_cons_self, hrep, info, hinfo, rfl, hnet⟩

/-- What an accepted report carried: a token that verified, with `sub` the network. -/
theorem acceptReport_eq_some {env : Env} {now : UInt64} {packet : NoeioPacket}
    {network : NetworkId} {host : HostInfo}
    (h : acceptReport env now packet = some (network, host)) :
    ∃ payload report claims, packet.payload = some payload ∧
      ReportPayload.tryFrom env.hostInfo payload = .ok report ∧
      verify env.decode now env.secret report.token = .ok claims ∧
      env.parseUuid claims.sub = some network ∧ report.hostInfo = host := by
  have toOption_some : ∀ {ε α : Type} {r : Except ε α} {a : α}, r.toOption = some a → r = .ok a := by
    intro ε α r a hr
    cases r with
    | error err => cases hr
    | ok b => rw [Option.some.inj hr]
  simp only [acceptReport, Option.bind_eq_bind, Option.bind_eq_some_iff] at h
  obtain ⟨-, -, payload, hpay, report, hrep, claims, hver, net, huuid, hret⟩ := h
  obtain ⟨rfl, hhost⟩ := Prod.mk.inj (Option.some.inj hret)
  exact ⟨payload, report, claims, hpay, toOption_some hrep, toOption_some hver, huuid, hhost⟩

/-- The packet `p`, sent to `toAddr` when `e` happens after `es`, relays a `Forward` received
from an address `a` to the address stored for the live peer it names. The stamped sender is
alive, stored with the address `a` and the network of the target, and was listed in that
network by an earlier report from `a` whose token verified for it. Payload and port are
those of the `Forward`. -/
def RelaysAuthentic (env : Env) (es : List Event) (e : Event) (toAddr : SocketAddr)
    (p : NoeioPacket) : Prop :=
  ∃ now a data f header target stamped sender,
    e = .recv now a data ∧ handleUdpRecv data a = .ok f ∧ f.packetType = .forward ∧
    f.parseHeader = some header ∧
    (run env es).manager.get header.peerId = some target ∧ toAddr = target.addr ∧
    p.parseHeader = some ⟨.delivery, stamped, header.port⟩ ∧ p.payload = f.payload ∧
    (run env es).manager.get stamped = some sender ∧ sender.addr = a ∧
    sender.network = target.network ∧
    ∃ now' data' r payload report claims info, .recv now' a data' ∈ es ∧
      handleUdpRecv data' a = .ok r ∧ r.packetType = .report ∧ r.payload = some payload ∧
      ReportPayload.tryFrom env.hostInfo payload = .ok report ∧
      verify env.decode now' env.secret report.token = .ok claims ∧
      env.parseUuid claims.sub = some target.network ∧
      info ∈ report.hostInfo.peers ∧ info.peerId = stamped ∧ info.networkId = target.network

/-- Relay authenticity, for every run and every `Delivery` the derper sends after it. -/
theorem delivery_authentic (env : Env) (es : List Event) (e : Event) (toAddr : SocketAddr)
    (p : NoeioPacket) (hsent : .packet toAddr p ∈ sends env (run env es) e)
    (htype : p.packetType = .delivery) : RelaysAuthentic env es e toAddr p := by
  obtain ⟨now, a, data, rfl⟩ := recv_of_sends hsent
  obtain ⟨f, hf, ⟨hfwd, hrel⟩ | ⟨-, hpong⟩⟩ := sends_recv hsent
  · obtain ⟨header, target, stamped, hh, ht, hs, hout⟩ := relayForward_eq_some hrel
    obtain ⟨rfl, rfl⟩ := Output.packet.inj hout
    obtain ⟨sender, hsender, haddr, hnet⟩ := PeerManager.get_of_peerIdByAddr hs
    obtain ⟨ev, hev, ⟨now', data', r, rfl, hr, hrt, hacc⟩, info, hinfo, hid, hinet⟩ :=
      (entries_reported env es).get hsender
    obtain ⟨payload, report, claims, hpay, hrep, hver, huuid, hhost⟩ := acceptReport_eq_some hacc
    refine ⟨now, a, data, f, header, target, stamped, sender, rfl, hf, hfwd, hh, ht, rfl,
      NoeioPacket.parseHeader_setHeader _ _, ?_, hsender, haddr, hnet, now', data', r, payload,
      report, claims, info, haddr ▸ hev, haddr ▸ hr, hrt, hpay, hrep, hver, hnet ▸ huuid,
      hhost ▸ hinfo, hid, hinet.trans hnet⟩
    rw [NoeioPacket.payload_of_parseHeader hh]
    exact NoeioPacket.payload_setHeader (NoeioPacket.payload_of_parseHeader hh) _
  · -- the answer to a ping is a `TunnelPong`
    obtain ⟨-, rfl⟩ := Output.packet.inj hpong
    cases htype

/-! ## A derper with two networks

The secret, the tokens (signed with it) and the reports (in the text format) of a small
deployment, as the external decoders read them. -/

namespace Sample

def networkA : NetworkId := .replicate 16 1

def networkB : NetworkId := .replicate 16 2

def tokenA : String :=
  "eyJ0eXAiOiJKV1QiLCJhbGciOiJIUzI1NiJ9." ++
  "eyJpc3MiOiJkZXJwZXIiLCJzdWIiOiIwMTAxMDEwMS0wMTAxLTAxMDEtMDEwMS0wMTAxMDEwMTAxMDEi" ++
  "LCJpYXQiOjE3MDAwMDAwMDB9." ++
  "BBKUcBTh5KzvBJJq7PVeOQ1-KFF9JvdKziiUHBdxgKg"

def tokenB : String :=
  "eyJ0eXAiOiJKV1QiLCJhbGciOiJIUzI1NiJ9." ++
  "eyJpc3MiOiJkZXJwZXIiLCJzdWIiOiIwMjAyMDIwMi0wMjAyLTAyMDItMDIwMi0wMjAyMDIwMjAyMDIi" ++
  "LCJpYXQiOjE3MDAwMDAwMDB9." ++
  "5gpdNjX771QTTigN5SKWsuQcQVthpL-zIaGCyDyQjvU"

def uuidA : String := "01010101-0101-0101-0101-010101010101"

def uuidB : String := "02020202-0202-0202-0202-020202020202"

def claims (sub : String) : Claims := ⟨"derper", sub, 1700000000, none⟩

def addr (port : UInt16) : SocketAddr := .v4 (.ofOctets 192 0 2 1) port

def peer (id : PeerId) (lastOctet : UInt8) (network : NetworkId) : PeerInfo :=
  ⟨0, id, .v4 (.ofOctets 10 0 0 lastOctet), network, .other, none, [], [], false⟩

def host (version : UInt64) (port : UInt16) (peers : List PeerInfo) : HostInfo :=
  ⟨version, addr port, .other, "a", [], peers⟩

/-- Peer 1 of network A, alone on its host. -/
def hostOne : HostInfo := host 5 1000 [peer 1 1 networkA]

/-- Peer 2 of network A, alone on its host. -/
def hostTwo : HostInfo := host 5 2000 [peer 2 2 networkA]

/-- Peer 1 of network A on a host that also joined network B as peer 3. -/
def hostMixed : HostInfo := host 6 1000 [peer 1 1 networkA, peer 3 3 networkB]

def textOne : String :=
  "192.0.2.1:1000\r\n1\r\na\r\n1,10.0.0.1," ++ uuidA ++ ",1,,,0\r\n\r\n5"

def textTwo : String :=
  "192.0.2.1:2000\r\n1\r\na\r\n2,10.0.0.2," ++ uuidA ++ ",1,,,0\r\n\r\n5"

def textMixed : String :=
  "192.0.2.1:1000\r\n1\r\na\r\n1,10.0.0.1," ++ uuidA ++ ",1,,,0;3,10.0.0.3," ++ uuidB ++
    ",1,,,0\r\n\r\n6"

def env : Env where
  secret := "secret"
  decode token secret :=
    if secret = "secret" ∧ token = tokenA then .ok (claims uuidA)
    else if secret = "secret" ∧ token = tokenB then .ok (claims uuidB)
    else .error .invalidSignature
  parseUuid sub := if sub = uuidA then some networkA else if sub = uuidB then some networkB else none
  hostInfo bytes :=
    if bytes = asBytes textOne then .ok hostOne
    else if bytes = asBytes textTwo then .ok hostTwo
    else if bytes = asBytes textMixed then .ok hostMixed
    else .error "invalid host info"

def report (port : UInt16) (peerId : PeerId) (text : String) : Event :=
  .recv 0 (addr port) (reportDatagram peerId tokenA (asBytes text))

theorem verify_tokenA : verify env.decode 0 env.secret tokenA = .ok (claims uuidA) := by
  simp [verify, env, claims]

theorem reportFrom_report {text : String} {h : HostInfo} (hh : env.hostInfo (asBytes text) = .ok h)
    (hlen : text.utf8ByteSize < 1000) (port : UInt16) (peerId : PeerId) :
    ReportFrom env (addr port) networkA h (report port peerId text) := by
  refine reportFrom_reportDatagram verify_tokenA ?_ hh ?_ peerId (addr port)
  · simp [env, claims]
  · have htok : tokenA.utf8ByteSize = 185 := by decide +kernel
    rw [htok, length_asBytes, maxPacketLen]
    omega

theorem hostInfo_textOne : env.hostInfo (asBytes textOne) = .ok hostOne := by
  simp [env]

theorem hostInfo_textTwo : env.hostInfo (asBytes textTwo) = .ok hostTwo := by
  have h : asBytes textTwo ≠ asBytes textOne := by decide +kernel
  simp only [env, if_neg h, if_true]

theorem hostInfo_textMixed : env.hostInfo (asBytes textMixed) = .ok hostMixed := by
  have h₁ : asBytes textMixed ≠ asBytes textOne := by decide +kernel
  have h₂ : asBytes textMixed ≠ asBytes textTwo := by decide +kernel
  simp only [env, if_neg h₁, if_neg h₂, if_true]

/-- Peer 1, then peer 2 report themselves. -/
def registered : List Event := [report 1000 1 textOne, report 2000 2 textTwo]

/-- The table after `registered`. -/
def table : PeerManager :=
  handleReport (handleReport .new (addr 1000) networkA hostOne) (addr 2000) networkA hostTwo

theorem run_registered : run env registered = ⟨table, [], []⟩ := by
  have h₁ := reportFrom_report hostInfo_textOne (by decide +kernel) 1000 1
  have h₂ := reportFrom_report hostInfo_textTwo (by decide +kernel) 2000 2
  simp only [run, Runs.run, registered, List.foldl_cons, List.foldl_nil, step_of_reportFrom h₁,
    step_of_reportFrom h₂]
  rfl

/-- Peer 1 forwards two bytes to peer 2. -/
def forward : Event := .recv 0 (addr 1000) (NoeioPacket.new ⟨.forward, 2, 7⟩ [8, 9]).inner

def delivered : NoeioPacket := NoeioPacket.new ⟨.delivery, 1, 7⟩ [8, 9]

theorem delivery_authentic_forward :
    .packet (addr 2000) delivered ∈ sends env (run env registered) forward ∧
      RelaysAuthentic env registered forward (addr 2000) delivered := by
  have hsent : .packet (addr 2000) delivered ∈ sends env (run env registered) forward := by
    rw [run_registered]
    decide +kernel
  exact ⟨hsent, delivery_authentic env registered forward (addr 2000) delivered hsent rfl⟩

end Sample

end Noeio.Derp
