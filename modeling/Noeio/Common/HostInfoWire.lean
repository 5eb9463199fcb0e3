import Noeio.Common.HostInfoText
import Noeio.Common.ProtoHostInfo

/-!
# Hosts and peers on the wire

The protobuf conversions of `noeio-common/src/host_info.rs`, and the conversions from bytes. A
host and a peer are written as protobuf messages. They are read as messages first and as the
legacy text if that fails.

The messages are encoded by `prost`, network ids are read by `uuid` and routes by `smoltcp`;
these are parameters (`WireCrates`).

* `HostInfo.tryFrom_toBytes`, `PeerInfo.tryFrom_toBytes`: what was written is read back.
* `PeerInfo.networkForm_of_tryFromProto`: a peer that was read has its routes in network form.
* `HostInfo.tryFrom_of_text`, `PeerInfo.tryFrom_of_text`: legacy text is not taken for a message.
  Text has no byte that can announce the virtual IP of a peer or the address of a host, so
  whatever else was decoded from it is no valid record.
-/

namespace Noeio

open BigEndian Protobuf Text

/-- The crates the conversions rest on. -/
structure WireCrates where
  protoPeer : ProtoCodec ProtoPeerInfo
  protoHost : ProtoCodec ProtoHostInfo
  uuid : UuidText
  cidr : CidrText

/-! ## The conversions -/

/-- `nat_type_from_proto`. -/
def natTypeFromProto (value : UInt32) : Except String NatType :=
  if value.toNat < 2 ^ 8 then NatType.tryFrom (.ofNat value.toNat) else .error "invalid nat type"

/-- `octets`. -/
def IpAddr.octets : IpAddr → List UInt8
  | .v4 addr => toBytes 4 addr.toNat
  | .v6 addr => toBytes 16 addr.toNat

def noeioIpFromProto (bytes : List UInt8) : Except String IpAddr :=
  if bytes.length = 4 then .ok (.v4 (.ofNat 32 (ofBytes bytes)))
  else if bytes.length = 16 then .ok (.v6 (.ofNat 128 (ofBytes bytes)))
  else .error "invalid noeio ip"

def networkIdFromProto (bytes : List UInt8) : Except String NetworkId :=
  match networkIdOfBytes bytes with
  | some id => .ok id
  | none => .error "invalid network id"

/-- A route is read in network form. -/
def routeFromProto (cidr : CidrText) (route : String) : Except String Ipv4Cidr :=
  match cidr.parse route with
  | some c => .ok c.network
  | none => .error ("invalid advertised route: " ++ route)

namespace PeerInfo

def toProto (cidr : CidrText) (peer : PeerInfo) : ProtoPeerInfo where
  resourceVersion := peer.resourceVersion
  peerId := peer.peerId
  noeioIp := peer.noeioIp.octets
  networkId := peer.networkId.toList
  natType := peer.natType.toByte.toUInt32
  natAddr := peer.natAddrText
  localAddrs := peer.localAddrs.map SocketAddr.display
  advertisedRoutes := peer.advertisedRoutes.map cidr.display
  withdrawn := peer.withdrawn

def toBytes (crates : WireCrates) (peer : PeerInfo) : List UInt8 :=
  crates.protoPeer.encodeToVec (peer.toProto crates.cidr)

/-- `try_from` of a message. -/
def tryFromProto (cidr : CidrText) (proto : ProtoPeerInfo) : Except String PeerInfo := do
  let noeioIp ← noeioIpFromProto proto.noeioIp
  let networkId ← networkIdFromProto proto.networkId
  let natAddr ← parseNatAddr proto.natAddr
  let localAddrs ← proto.localAddrs.mapM SocketAddr.fromStr
  let advertisedRoutes ← proto.advertisedRoutes.mapM (routeFromProto cidr)
  let natType ← natTypeFromProto proto.natType
  return {
    resourceVersion := proto.resourceVersion, peerId := proto.peerId, noeioIp, networkId, natType,
    natAddr, localAddrs, advertisedRoutes, withdrawn := proto.withdrawn }

/-- `try_from` of bytes. -/
def tryFrom (crates : WireCrates) (data : List UInt8) : Except String PeerInfo :=
  match crates.protoPeer.decode data >>= tryFromProto crates.cidr with
  | .ok peer => .ok peer
  | .error _ =>
    match fromUtf8 data with
    | none => .error (Utf8Error.ofBytes data).display
    | some s => tryFromStr crates.uuid s

end PeerInfo

namespace HostInfo

def toProto (cidr : CidrText) (host : HostInfo) : ProtoHostInfo where
  resourceVersion := host.resourceVersion
  natAddr := host.natAddr.display
  natType := host.natType.toByte.toUInt32
  hostname := host.hostname
  localAddrs := host.localAddrs.map SocketAddr.display
  peers := host.peers.map (PeerInfo.toProto cidr)

def toBytes (crates : WireCrates) (host : HostInfo) : List UInt8 :=
  crates.protoHost.encodeToVec (host.toProto crates.cidr)

/-- `try_from_proto`. -/
def tryFromProto (cidr : CidrText) (proto : ProtoHostInfo) : Except String HostInfo := do
  let natAddr ← SocketAddr.fromStr proto.natAddr
  let natType ← natTypeFromProto proto.natType
  let localAddrs ← proto.localAddrs.mapM SocketAddr.fromStr
  let peers ← proto.peers.mapM (PeerInfo.tryFromProto cidr)
  return {
    resourceVersion := proto.resourceVersion, natAddr, natType, hostname := proto.hostname,
    localAddrs, peers }

/-- `try_from` of bytes. -/
def tryFrom (crates : WireCrates) (data : List UInt8) : Except String HostInfo :=
  match crates.protoHost.decode data >>= tryFromProto crates.cidr with
  | .ok host => .ok host
  | .error _ => tryFromLegacy crates.uuid data

end HostInfo

/-! ## Messages are read back -/

/-- The routes are in network form. -/
def PeerInfo.NetworkForm (peer : PeerInfo) : Prop := ∀ c ∈ peer.advertisedRoutes, c.network = c

structure HostInfo.NoFlowinfo (host : HostInfo) : Prop where
  natAddr : host.natAddr.NoFlowinfo
  localAddrs : ∀ addr ∈ host.localAddrs, addr.NoFlowinfo
  peers : ∀ peer ∈ host.peers, peer.NoFlowinfo

theorem natTypeFromProto_toByte (natType : NatType) :
    natTypeFromProto natType.toByte.toUInt32 = .ok natType := by
  cases natType <;> rfl

theorem noeioIpFromProto_octets (ip : IpAddr) : noeioIpFromProto ip.octets = .ok ip := by
  cases ip with
  | v4 addr =>
    have hvalue : ofBytes (toBytes 4 addr.toNat) = addr.toNat := ofBytes_toBytes addr.isLt
    simp [noeioIpFromProto, IpAddr.octets, hvalue]
  | v6 addr =>
    have hvalue : ofBytes (toBytes 16 addr.toNat) = addr.toNat := ofBytes_toBytes addr.isLt
    simp [noeioIpFromProto, IpAddr.octets, hvalue]

theorem networkIdFromProto_toList (id : NetworkId) : networkIdFromProto id.toList = .ok id := by
  rw [networkIdFromProto, networkIdOfBytes_toList]

theorem routeFromProto_display (cidr : CidrText) {c : Ipv4Cidr} (h : c.network = c) :
    routeFromProto cidr (cidr.display c) = .ok c := by
  simp only [routeFromProto, cidr.parse_display, h]

theorem PeerInfo.tryFromProto_toProto (cidr : CidrText) {peer : PeerInfo}
    (hflow : peer.NoFlowinfo) (hroutes : peer.NetworkForm) :
    tryFromProto cidr (peer.toProto cidr) = .ok peer := by
  have hlocal : (peer.localAddrs.map SocketAddr.display).mapM SocketAddr.fromStr =
      .ok peer.localAddrs :=
    mapM_map_eq_ok fun addr haddr => SocketAddr.fromStr_display (hflow.localAddrs addr haddr)
  have hcidrs : (peer.advertisedRoutes.map cidr.display).mapM (routeFromProto cidr) =
      .ok peer.advertisedRoutes :=
    mapM_map_eq_ok fun c hc => routeFromProto_display cidr (hroutes c hc)
  simp only [tryFromProto, toProto, noeioIpFromProto_octets, networkIdFromProto_toList,
    parseNatAddr_natAddrText hflow.natAddr, hlocal, hcidrs, natTypeFromProto_toByte]
  rfl

theorem HostInfo.tryFromProto_toProto (cidr : CidrText) {host : HostInfo}
    (hflow : host.NoFlowinfo) (hroutes : ∀ peer ∈ host.peers, peer.NetworkForm) :
    tryFromProto cidr (host.toProto cidr) = .ok host := by
  have hlocal : (host.localAddrs.map SocketAddr.display).mapM SocketAddr.fromStr =
      .ok host.localAddrs :=
    mapM_map_eq_ok fun addr haddr => SocketAddr.fromStr_display (hflow.localAddrs addr haddr)
  have hpeers : (host.peers.map (PeerInfo.toProto cidr)).mapM (PeerInfo.tryFromProto cidr) =
      .ok host.peers :=
    mapM_map_eq_ok fun peer hpeer =>
      PeerInfo.tryFromProto_toProto cidr (hflow.peers peer hpeer) (hroutes peer hpeer)
  simp only [tryFromProto, toProto, SocketAddr.fromStr_display hflow.natAddr,
    natTypeFromProto_toByte, hlocal, hpeers]
  rfl

/-- A message that was decoded and converted is what the bytes are read as. -/
theorem PeerInfo.tryFrom_of_proto {crates : WireCrates} {data : List UInt8} {peer : PeerInfo}
    (h : crates.protoPeer.decode data >>= tryFromProto crates.cidr = .ok peer) :
    tryFrom crates data = .ok peer := by
  rw [tryFrom, h]

theorem HostInfo.tryFrom_of_proto {crates : WireCrates} {data : List UInt8} {host : HostInfo}
    (h : crates.protoHost.decode data >>= tryFromProto crates.cidr = .ok host) :
    tryFrom crates data = .ok host := by
  rw [tryFrom, h]

theorem PeerInfo.tryFrom_toBytes {crates : WireCrates} (hcodec : crates.protoPeer.Inverts)
    {peer : PeerInfo} (hflow : peer.NoFlowinfo) (hroutes : peer.NetworkForm) :
    tryFrom crates (peer.toBytes crates) = .ok peer := by
  apply tryFrom_of_proto
  rw [toBytes, hcodec]
  exact tryFromProto_toProto crates.cidr hflow hroutes

theorem HostInfo.tryFrom_toBytes {crates : WireCrates} (hcodec : crates.protoHost.Inverts)
    {host : HostInfo} (hflow : host.NoFlowinfo) (hroutes : ∀ peer ∈ host.peers, peer.NetworkForm) :
    tryFrom crates (host.toBytes crates) = .ok host := by
  apply tryFrom_of_proto
  rw [toBytes, hcodec]
  exact tryFromProto_toProto crates.cidr hflow hroutes

/-! ## Routes in network form -/

theorem network_routeFromProto {cidr : CidrText} {route : String} {c : Ipv4Cidr}
    (h : routeFromProto cidr route = .ok c) : c.network = c := by
  unfold routeFromProto at h
  split at h
  · cases h
    exact Ipv4Cidr.network_network _
  · cases h

theorem PeerInfo.networkForm_of_tryFromProto {cidr : CidrText} {proto : ProtoPeerInfo}
    {peer : PeerInfo} (h : tryFromProto cidr proto = .ok peer) : peer.NetworkForm := by
  obtain ⟨noeioIp, -, h⟩ := bind_eq_ok h
  obtain ⟨networkId, -, h⟩ := bind_eq_ok h
  obtain ⟨natAddr, -, h⟩ := bind_eq_ok h
  obtain ⟨localAddrs, -, h⟩ := bind_eq_ok h
  obtain ⟨advertisedRoutes, hroutes, h⟩ := bind_eq_ok h
  obtain ⟨natType, -, h⟩ := bind_eq_ok h
  cases h
  exact forall_mem_of_mapM_eq_ok hroutes fun _ _ => network_routeFromProto

theorem HostInfo.networkForm_of_tryFromProto {cidr : CidrText} {proto : ProtoHostInfo}
    {host : HostInfo} (h : tryFromProto cidr proto = .ok host) :
    ∀ peer ∈ host.peers, peer.NetworkForm := by
  obtain ⟨natAddr, -, h⟩ := bind_eq_ok h
  obtain ⟨natType, -, h⟩ := bind_eq_ok h
  obtain ⟨localAddrs, -, h⟩ := bind_eq_ok h
  obtain ⟨peers, hpeers, h⟩ := bind_eq_ok h
  cases h
  exact forall_mem_of_mapM_eq_ok hpeers fun _ _ => PeerInfo.networkForm_of_tryFromProto

/-! ## Text is not taken for a message -/

/-- The bytes of legacy text: printable ASCII and line ends. -/
def TextByte (b : UInt8) : Prop := b = 0x0A ∨ b = 0x0D ∨ 0x20 ≤ b ∧ b ≤ 0x7E

instance : DecidablePred TextByte :=
  fun b => inferInstanceAs (Decidable (b = 0x0A ∨ b = 0x0D ∨ 0x20 ≤ b ∧ b ≤ 0x7E))

/-- A key that is a control character does not occur in text. -/
theorem not_occurs_of_textByte {data : List UInt8} (hdata : ∀ b ∈ data, TextByte b) {k : Nat}
    (hk : ∀ b : UInt8, b.toNat = k → ¬TextByte b) : ¬Occurs k data := by
  intro hoccurs
  have hlow : ∀ b ∈ data, b.toNat < 128 := by
    intro b hb
    rcases hdata b hb with rfl | rfl | ⟨-, hle⟩
    · decide
    · decide
    · have hle' := UInt8.le_iff_toNat_le.mp hle
      exact Nat.lt_of_le_of_lt hle' (by decide)
  obtain ⟨b, hb, hbk⟩ := mem_of_occurs hoccurs hlow
  exact hk b hbk (hdata b hb)

theorem not_textByte_of_toNat_eq {k : UInt8} (hk : ¬TextByte k) (b : UInt8)
    (hb : b.toNat = k.toNat) : ¬TextByte b := UInt8.toNat_inj.mp hb ▸ hk

/-- A message without a virtual IP is no peer. -/
theorem PeerInfo.tryFromProto_of_noeioIp_eq_nil {cidr : CidrText} {proto : ProtoPeerInfo}
    (h : proto.noeioIp = []) : tryFromProto cidr proto = .error "invalid noeio ip" := by
  rw [tryFromProto, h]
  rfl

/-- A message without an address is no host. -/
theorem HostInfo.tryFromProto_of_natAddr_eq_empty {cidr : CidrText} {proto : ProtoHostInfo}
    (h : proto.natAddr = "") :
    tryFromProto cidr proto = .error "invalid socket address syntax" := by
  rw [tryFromProto, h, SocketAddr.fromStr_empty]
  rfl

theorem PeerInfo.tryFrom_of_text {crates : WireCrates}
    (hcodec : crates.protoPeer.SetOnlyBy (·.noeioIp) [] (key 3 2)) {data : List UInt8}
    (hdata : ∀ b ∈ data, TextByte b) {s : String} (hs : fromUtf8 data = some s) :
    tryFrom crates data = tryFromStr crates.uuid s := by
  have hoccurs : ¬Occurs (key 3 2) data :=
    not_occurs_of_textByte hdata (not_textByte_of_toNat_eq (by decide : ¬TextByte 0x1A))
  have hproto : ∀ peer, crates.protoPeer.decode data >>= tryFromProto crates.cidr ≠ .ok peer := by
    intro peer hpeer
    obtain ⟨proto, hdecode, hpeer⟩ := bind_eq_ok hpeer
    by_cases hip : proto.noeioIp = []
    · rw [tryFromProto_of_noeioIp_eq_nil hip] at hpeer
      cases hpeer
    · exact hoccurs (hcodec data proto hdecode hip)
  rw [tryFrom]
  split
  · rename_i peer hpeer
    exact absurd hpeer (hproto peer)
  · rw [hs]

theorem HostInfo.tryFrom_of_text {crates : WireCrates}
    (hcodec : crates.protoHost.SetOnlyBy (·.natAddr) "" (key 2 2)) {data : List UInt8}
    (hdata : ∀ b ∈ data, TextByte b) :
    tryFrom crates data = tryFromLegacy crates.uuid data := by
  have hoccurs : ¬Occurs (key 2 2) data :=
    not_occurs_of_textByte hdata (not_textByte_of_toNat_eq (by decide : ¬TextByte 0x12))
  have hproto : ∀ host, crates.protoHost.decode data >>= tryFromProto crates.cidr ≠ .ok host := by
    intro host hhost
    obtain ⟨proto, hdecode, hhost⟩ := bind_eq_ok hhost
    by_cases haddr : proto.natAddr = ""
    · rw [tryFromProto_of_natAddr_eq_empty haddr] at hhost
      cases hhost
    · exact hoccurs (hcodec data proto hdecode haddr)
  rw [tryFrom]
  split
  · rename_i host hhost
    exact absurd hhost (hproto host)
  · rfl

theorem toNat_of_addrChar {c : Char} (h : AddrChar c) : 0x20 ≤ c.toNat ∧ c.toNat ≤ 0x7E := by
  rcases h with h | h
  · have hrange := toNat_of_isSome_toDigit h
    omega
  · simp only [List.mem_cons, List.not_mem_nil, or_false] at h
    rcases h with rfl | rfl | rfl | rfl | rfl <;> decide

theorem PeerInfo.toNat_of_mem_toText {uuid : UuidText} {peer : PeerInfo} {c : Char}
    (h : c ∈ (peer.toText uuid).toList) : 0x20 ≤ c.toNat ∧ c.toNat ≤ 0x7E := by
  rcases mem_toText h with (h | rfl | rfl) | rfl
  · exact toNat_of_addrChar h
  · decide
  · decide
  · decide

theorem PeerInfo.textByte_of_mem_toText {uuid : UuidText} {peer : PeerInfo} {b : UInt8}
    (h : b ∈ asBytes (peer.toText uuid)) : TextByte b := by
  have hascii : ∀ c ∈ (peer.toText uuid).toList, c.toNat < 128 :=
    fun c hc => Nat.lt_of_le_of_lt (toNat_of_mem_toText hc).2 (by decide)
  rw [asBytes_of_ascii hascii] at h
  obtain ⟨c, hc, rfl⟩ := List.mem_map.mp h
  have hrange := toNat_of_mem_toText hc
  have hvalue : (UInt8.ofNat c.toNat).toNat = c.toNat := 
    UInt8.toNat_ofNat_of_lt' (Nat.lt_of_le_of_lt hrange.2 (by decide))
  refine Or.inr (Or.inr ⟨?_, ?_⟩)
  · rw [UInt8.le_iff_toNat_le, hvalue]
    exact hrange.1
  · rw [UInt8.le_iff_toNat_le, hvalue]
    exact hrange.2

/-! ## Main results -/

/-- What a host or a peer writes is read back, and peers that were read have their routes in
network form. -/
theorem message_roundtrip (crates : WireCrates) (hpeer : crates.protoPeer.Inverts)
    (hhost : crates.protoHost.Inverts) :
    (∀ host : HostInfo, host.NoFlowinfo → (∀ peer ∈ host.peers, peer.NetworkForm) →
      HostInfo.tryFrom crates (host.toBytes crates) = .ok host) ∧
    (∀ peer : PeerInfo, peer.NoFlowinfo → peer.NetworkForm →
      PeerInfo.tryFrom crates (peer.toBytes crates) = .ok peer) ∧
    (∀ proto peer, PeerInfo.tryFromProto crates.cidr proto = .ok peer → peer.NetworkForm) ∧
    (∀ proto host, HostInfo.tryFromProto crates.cidr proto = .ok host →
      ∀ peer ∈ host.peers, peer.NetworkForm) :=
  ⟨fun _ hflow hroutes => HostInfo.tryFrom_toBytes hhost hflow hroutes,
    fun _ hflow hroutes => PeerInfo.tryFrom_toBytes hpeer hflow hroutes,
    fun _ _ h => PeerInfo.networkForm_of_tryFromProto h,
    fun _ _ h => HostInfo.networkForm_of_tryFromProto h⟩

namespace HostInfo.Sample

def crates : WireCrates := ⟨ProtoPeerInfo.wire, ProtoHostInfo.wire, .hex, .dotted⟩

/-- A subnet router that was evicted. -/
def router : PeerInfo where
  resourceVersion := 7
  peerId := 42
  noeioIp := .v6 0xfd000000000000000000000000000001
  networkId := .replicate 16 0x55
  natType := .symmetric
  natAddr := some (.v4 (.ofOctets 203 0 113 5) 51820)
  localAddrs := [.v6 0xfe800000000000000000000000000001 41641 0 3]
  advertisedRoutes := [.ofOctets 192 168 10 0 24]
  withdrawn := true

def host : HostInfo :=
  ⟨1, .v4 (.ofOctets 203 0 113 5) 51820, .other, "example-host", [], [router]⟩

theorem router_noFlowinfo : router.NoFlowinfo where
  natAddr := by
    rintro addr ⟨rfl⟩
    trivial
  localAddrs := by
    intro addr haddr
    obtain rfl := List.mem_singleton.mp haddr
    exact rfl

theorem host_noFlowinfo : host.NoFlowinfo where
  natAddr := trivial
  localAddrs _ haddr := absurd haddr List.not_mem_nil
  peers _ hpeer := List.mem_singleton.mp hpeer ▸ router_noFlowinfo

theorem router_networkForm : router.NetworkForm := by
  intro c hc
  obtain rfl := List.mem_singleton.mp hc
  decide

theorem message_roundtrip_router :
    HostInfo.tryFrom crates (host.toBytes crates) = .ok host ∧
      PeerInfo.tryFrom crates (router.toBytes crates) = .ok router :=
  have hround := message_roundtrip crates ProtoPeerInfo.wire_inverts
    ProtoHostInfo.wire_inverts
  ⟨hround.1 host host_noFlowinfo fun _ hpeer => List.mem_singleton.mp hpeer ▸ router_networkForm,
    hround.2.1 router router_noFlowinfo router_networkForm⟩

end HostInfo.Sample

/-- Legacy text is read as legacy text, also where its bytes are a message. -/
theorem text_not_misread (crates : WireCrates)
    (hpeer : crates.protoPeer.SetOnlyBy (·.noeioIp) [] (key 3 2))
    (hhost : crates.protoHost.SetOnlyBy (·.natAddr) "" (key 2 2)) :
    (∀ peer : PeerInfo, peer.advertisedRoutes = [] → peer.withdrawn = false → peer.NoFlowinfo →
      PeerInfo.tryFrom crates (asBytes (peer.toText crates.uuid)) = .ok peer) ∧
    ∀ data host, (∀ b ∈ data, TextByte b) → HostInfo.tryFromLegacy crates.uuid data = .ok host →
      HostInfo.tryFrom crates data = .ok host := by
  refine ⟨fun peer hroutes hwithdrawn hflow => ?_, fun data host hdata hlegacy => ?_⟩
  · have htext : ∀ b ∈ asBytes (peer.toText crates.uuid), TextByte b :=
      fun _ => PeerInfo.textByte_of_mem_toText
    rw [PeerInfo.tryFrom_of_text hpeer htext (fromUtf8_asBytes _)]
    exact PeerInfo.tryFromStr_toText crates.uuid hroutes hwithdrawn hflow
  · rw [HostInfo.tryFrom_of_text hhost hdata, hlegacy]

namespace HostInfo.Sample

def roamer : PeerInfo := { router with advertisedRoutes := [], withdrawn := false }

def legacyText : String := "203.0.113.5:51820\r\n1\r\nhost"

def legacyHost : HostInfo := ⟨0, .v4 (.ofOctets 203 0 113 5) 51820, .other, "host", [], []⟩

theorem textByte_legacyText : ∀ b ∈ asBytes legacyText, TextByte b := by
  have hall : (legacyText.toList.all fun c =>
      decide (c.toNat < 128 ∧ TextByte (.ofNat c.toNat))) = true := by
    decide
  have hchar : ∀ c ∈ legacyText.toList, c.toNat < 128 ∧ TextByte (.ofNat c.toNat) :=
    fun c hc => of_decide_eq_true (List.all_eq_true.mp hall c hc)
  rw [asBytes_of_ascii fun c hc => (hchar c hc).1]
  intro b hb
  obtain ⟨c, hc, rfl⟩ := List.mem_map.mp hb
  exact (hchar c hc).2

theorem tryFromLegacy_legacyText :
    HostInfo.tryFromLegacy crates.uuid (asBytes legacyText) = .ok legacyHost := by
  rw [HostInfo.tryFromLegacy, fromUtf8_asBytes]
  decide

theorem text_not_misread_roamer :
    PeerInfo.tryFrom crates (asBytes (roamer.toText crates.uuid)) = .ok roamer ∧
      HostInfo.tryFrom crates (asBytes legacyText) = .ok legacyHost :=
  have hread := text_not_misread crates ProtoPeerInfo.wire_setOnlyBy
    ProtoHostInfo.wire_setOnlyBy
  ⟨hread.1 roamer rfl rfl ⟨router_noFlowinfo.natAddr, router_noFlowinfo.localAddrs⟩,
    hread.2 _ _ textByte_legacyText tryFromLegacy_legacyText⟩

end HostInfo.Sample

end Noeio
