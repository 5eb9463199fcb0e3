import Noeio.Common.HostInfoWire

/-!
# What is accepted can be written

A host or a peer has more values than its bytes can carry: IPv6 flow information is not written, and a
route is read in network form. Whatever is read from bytes, as a message or as legacy text, is
`Carried`: it has none of these values. So a record that was accepted is written to bytes that give
the same record again (`accepted_reencodes`), and a relay may forward it without a loss.
-/

namespace Noeio

theorem SocketAddr.noFlowinfo_of_fromStr {s : String} {addr : SocketAddr}
    (h : SocketAddr.fromStr s = .ok addr) : addr.NoFlowinfo := by
  have hread : ∀ cs found, readSocketAddr cs = some found → found.1.NoFlowinfo := by
    intro cs found hfound
    unfold readSocketAddr at hfound
    cases hv4 : readSocketAddrV4 cs with
    | some v4 =>
      rw [hv4] at hfound
      cases hfound
      simp only [readSocketAddrV4, Option.bind_eq_bind, Option.bind_eq_some_iff] at hv4
      obtain ⟨_, -, _, -, hv4⟩ := hv4
      cases hv4
      trivial
    | none =>
      rw [hv4] at hfound
      simp only [readSocketAddrV6, Option.bind_eq_bind, Option.bind_eq_some_iff] at hfound
      obtain ⟨_, -, _, -, _, -, _, -, hfound⟩ := hfound
      cases hfound
      rfl
  unfold fromStr parseWith at h
  split at h
  · rename_i addr' hfound
    cases h
    exact hread _ _ hfound
  · cases h

/-! ## Peers -/

/-- The bytes of a peer carry all of it. -/
structure PeerInfo.Carried (peer : PeerInfo) : Prop where
  flow : peer.NoFlowinfo
  routes : peer.NetworkForm

theorem noFlowinfo_of_parseNatAddr {s : String} {natAddr : Option SocketAddr}
    (h : parseNatAddr s = .ok natAddr) : ∀ addr ∈ natAddr, addr.NoFlowinfo := by
  unfold parseNatAddr at h
  split at h
  · cases h
    intro addr haddr
    cases haddr
  · cases hread : SocketAddr.fromStr s with
    | error err =>
      rw [hread] at h
      cases h
    | ok addr' =>
      rw [hread] at h
      cases h
      intro addr haddr
      cases haddr
      exact SocketAddr.noFlowinfo_of_fromStr hread

theorem noFlowinfo_of_mapM {texts : List String} {addrs : List SocketAddr}
    (h : texts.mapM SocketAddr.fromStr = .ok addrs) : ∀ addr ∈ addrs, addr.NoFlowinfo :=
  forall_mem_of_mapM_eq_ok h fun _ _ => SocketAddr.noFlowinfo_of_fromStr

theorem noFlowinfo_of_parseAddrs {s : String} {addrs : List SocketAddr}
    (h : parseAddrs s = .ok addrs) : ∀ addr ∈ addrs, addr.NoFlowinfo := by
  unfold parseAddrs at h
  split at h
  · cases h
    exact fun addr haddr => absurd haddr List.not_mem_nil
  · exact noFlowinfo_of_mapM h

namespace PeerInfo

theorem carried_of_tryFromProto {cidr : CidrText} {proto : ProtoPeerInfo} {peer : PeerInfo}
    (h : tryFromProto cidr proto = .ok peer) : peer.Carried := by
  refine ⟨?_, networkForm_of_tryFromProto h⟩
  obtain ⟨noeioIp, -, h⟩ := bind_eq_ok h
  obtain ⟨networkId, -, h⟩ := bind_eq_ok h
  obtain ⟨natAddr, hnat, h⟩ := bind_eq_ok h
  obtain ⟨localAddrs, hlocal, h⟩ := bind_eq_ok h
  obtain ⟨advertisedRoutes, -, h⟩ := bind_eq_ok h
  obtain ⟨natType, -, h⟩ := bind_eq_ok h
  cases h
  exact ⟨noFlowinfo_of_parseNatAddr hnat, noFlowinfo_of_mapM hlocal⟩

/-- Legacy text has no routes. -/
theorem carried_of_tryFromStr {uuid : UuidText} {entry : String} {peer : PeerInfo}
    (h : tryFromStr uuid entry = .ok peer) : peer.Carried := by
  unfold tryFromStr at h
  split at h
  · obtain ⟨resourceVersion, -, h⟩ := bind_eq_ok h
    obtain ⟨peerId, -, h⟩ := bind_eq_ok h
    obtain ⟨vip, -, h⟩ := bind_eq_ok h
    obtain ⟨natType, -, h⟩ := bind_eq_ok h
    obtain ⟨natAddr, hnat, h⟩ := bind_eq_ok h
    obtain ⟨localAddrs, hlocal, h⟩ := bind_eq_ok h
    obtain ⟨plain, hplain, h⟩ := bind_eq_ok h
    obtain ⟨networkId, -, hplain⟩ := bind_eq_ok hplain
    cases hplain
    cases h
    refine ⟨⟨noFlowinfo_of_parseNatAddr hnat, noFlowinfo_of_parseAddrs hlocal⟩, ?_⟩
    intro c hc
    cases hc
  · cases h

theorem carried_of_tryFrom {crates : WireCrates} {data : List UInt8} {peer : PeerInfo}
    (h : tryFrom crates data = .ok peer) : peer.Carried := by
  unfold tryFrom at h
  split at h
  · rename_i decoded hdecoded
    cases h
    obtain ⟨proto, -, hproto⟩ := bind_eq_ok hdecoded
    exact carried_of_tryFromProto hproto
  · split at h
    · cases h
    · exact carried_of_tryFromStr h

theorem Carried.reencodes {crates : WireCrates} (hcodec : crates.protoPeer.Inverts) {peer : PeerInfo}
    (h : peer.Carried) : tryFrom crates (peer.toBytes crates) = .ok peer :=
  tryFrom_toBytes hcodec h.flow h.routes

end PeerInfo

/-! ## Hosts -/

/-- The bytes of a host carry all of it. -/
structure HostInfo.Carried (host : HostInfo) : Prop where
  natAddr : host.natAddr.NoFlowinfo
  localAddrs : ∀ addr ∈ host.localAddrs, addr.NoFlowinfo
  peers : ∀ peer ∈ host.peers, peer.Carried

namespace HostInfo

theorem carried_of_tryFromProto {cidr : CidrText} {proto : ProtoHostInfo} {host : HostInfo}
    (h : tryFromProto cidr proto = .ok host) : host.Carried := by
  obtain ⟨natAddr, hnat, h⟩ := bind_eq_ok h
  obtain ⟨natType, -, h⟩ := bind_eq_ok h
  obtain ⟨localAddrs, hlocal, h⟩ := bind_eq_ok h
  obtain ⟨peers, hpeers, h⟩ := bind_eq_ok h
  cases h
  exact ⟨SocketAddr.noFlowinfo_of_fromStr hnat, noFlowinfo_of_mapM hlocal,
    forall_mem_of_mapM_eq_ok hpeers fun _ _ => PeerInfo.carried_of_tryFromProto⟩

theorem carried_of_tryFromLegacy {uuid : UuidText} {data : List UInt8} {host : HostInfo}
    (h : tryFromLegacy uuid data = .ok host) : host.Carried := by
  unfold tryFromLegacy at h
  split at h
  · cases h
  rename_i text htext
  split at h
  · cases h
  · cases h
  · cases h
  · obtain ⟨resourceVersion, -, h⟩ := bind_eq_ok h
    obtain ⟨natAddr, hnat, h⟩ := bind_eq_ok h
    obtain ⟨natType, -, h⟩ := bind_eq_ok h
    obtain ⟨localAddrs, hlocal, h⟩ := bind_eq_ok h
    simp only at h
    split at h
    · cases h
      exact ⟨SocketAddr.noFlowinfo_of_fromStr hnat, noFlowinfo_of_parseAddrs hlocal,
        fun peer hpeer => absurd hpeer List.not_mem_nil⟩
    · obtain ⟨peers, hpeers, h⟩ := bind_eq_ok h
      cases h
      exact ⟨SocketAddr.noFlowinfo_of_fromStr hnat, noFlowinfo_of_parseAddrs hlocal,
        forall_mem_of_mapM_eq_ok hpeers fun _ _ => PeerInfo.carried_of_tryFromStr⟩

theorem carried_of_tryFrom {crates : WireCrates} {data : List UInt8} {host : HostInfo}
    (h : tryFrom crates data = .ok host) : host.Carried := by
  unfold tryFrom at h
  split at h
  · rename_i decoded hdecoded
    cases h
    obtain ⟨proto, -, hproto⟩ := bind_eq_ok hdecoded
    exact carried_of_tryFromProto hproto
  · exact carried_of_tryFromLegacy h

theorem Carried.reencodes {crates : WireCrates} (hcodec : crates.protoHost.Inverts) {host : HostInfo}
    (h : host.Carried) : tryFrom crates (host.toBytes crates) = .ok host :=
  tryFrom_toBytes hcodec ⟨h.natAddr, h.localAddrs, fun peer hpeer => (h.peers peer hpeer).flow⟩
    fun peer hpeer => (h.peers peer hpeer).routes

end HostInfo

/-- **Reading is a normal form.** Every host and every peer that is read, from a message or from legacy
text, is written as bytes that are read as the same host or peer. -/
theorem accepted_reencodes (crates : WireCrates) (hpeer : crates.protoPeer.Inverts)
    (hhost : crates.protoHost.Inverts) :
    (∀ data host, HostInfo.tryFrom crates data = .ok host →
      HostInfo.tryFrom crates (host.toBytes crates) = .ok host) ∧
      ∀ data peer, PeerInfo.tryFrom crates data = .ok peer →
        PeerInfo.tryFrom crates (peer.toBytes crates) = .ok peer :=
  ⟨fun _ _ h => (HostInfo.carried_of_tryFrom h).reencodes hhost,
    fun _ _ h => (PeerInfo.carried_of_tryFrom h).reencodes hpeer⟩

namespace HostInfo.Sample

/-- Legacy text comes back as a message. -/
theorem accepted_reencodes_legacy :
    HostInfo.tryFrom crates (legacyHost.toBytes crates) = .ok legacyHost := by
  have hread : HostInfo.tryFrom crates (asBytes legacyText) = .ok legacyHost := by
    rw [HostInfo.tryFrom_of_text ProtoHostInfo.wire_setOnlyBy textByte_legacyText]
    exact tryFromLegacy_legacyText
  exact (accepted_reencodes crates ProtoPeerInfo.wire_inverts ProtoHostInfo.wire_inverts).1 _ _ hread

end HostInfo.Sample

end Noeio
