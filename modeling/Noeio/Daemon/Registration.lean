import Noeio.Daemon.HostState

/-!
# Registered nics and reported identities

A node has one id for each nic, in the registry and in the host info it reports, and the two
should name the same ids. `register_nic` writes them one after the other, and two of its paths
write only one. When no STUN response has come yet, the nic is registered and the call fails.
When the IP is listed already, the entry is renamed to the new id and the old nic keeps its
own.

`Clean` excludes the two. In every run of clean calls the tables agree, and a call that fails
has done nothing (`registry_agrees`).
-/

namespace Noeio.Daemon

inductive NicEvent where
  | stun (response : StunResponse)
  /-- `register_nic` with the id it draws, and a STUN response in the middle of the call. -/
  | registerNic (peerId : PeerId) (ip : IpAddr) (network : String)
      (meanwhile : Option StunResponse)

variable (parseUuid : String → Except String NetworkId)

def nicStep (self : Daemon) : NicEvent → Daemon
  | .stun response => self.stunResponse response
  | .registerNic peerId ip network meanwhile =>
    (self.registerNic parseUuid peerId ip network meanwhile).1

/-- The daemon has registered no nic and heard of no STUN server. -/
def Fresh (self : Daemon) : Prop := self.nics = ∅ ∧ self.hostInfo = none

/-- The peers a report would list: none before the first STUN response. -/
def reported (self : Daemon) : List PeerInfo :=
  match self.hostInfo with
  | some host => host.peers
  | none => []

/-- The ids of the registry are the ids of the reported peers. -/
def Agrees (self : Daemon) : Prop := ∀ x, x ∈ self.nics ↔ ∃ p ∈ self.reported, p.peerId = x

/-- The call is refused for its network string, or it finds the host info initialised and its
IP not listed under another id. -/
def Clean (self : Daemon) : NicEvent → Prop
  | .stun _ => True
  | .registerNic peerId ip network meanwhile =>
    (∃ err, parseUuid network = .error err) ∨
      (self.hostInfo.isSome = true ∨ meanwhile.isSome = true) ∧
        ∀ p ∈ self.reported, p.noeioIp = ip → p.peerId = peerId

/-! ## What a step keeps -/

variable {parseUuid}

theorem hostInfo_stunResponse (d : Daemon) (response : StunResponse) :
    ∃ host, (d.stunResponse response).hostInfo = some host ∧ host.peers = d.reported := by
  unfold stunResponse reported
  cases d.hostInfo with
  | none => exact ⟨_, rfl, rfl⟩
  | some host => exact ⟨_, rfl, rfl⟩

@[simp] theorem nics_stunResponse (d : Daemon) (response : StunResponse) :
    (d.stunResponse response).nics = d.nics := by
  unfold stunResponse
  split <;> rfl

@[simp] theorem reported_stunResponse (d : Daemon) (response : StunResponse) :
    (d.stunResponse response).reported = d.reported := by
  obtain ⟨host, hhost, hpeers⟩ := hostInfo_stunResponse d response
  rw [reported, hhost]
  exact hpeers

theorem Agrees.stunResponse {d : Daemon} (h : d.Agrees) (response : StunResponse) :
    (d.stunResponse response).Agrees := by
  intro x
  rw [nics_stunResponse, reported_stunResponse]
  exact h x

theorem createPeer_error {d : Daemon} {peerId : PeerId} {ip : IpAddr} {network err : String}
    (h : parseUuid network = .error err) :
    d.createPeer parseUuid peerId ip network = .error ("failed to create peer: " ++ err) := by
  simp only [createPeer, PeerInfo.new, h]
  rfl

theorem createPeer_ok {d : Daemon} {peerId : PeerId} {ip : IpAddr} {network : String}
    {networkId : NetworkId} (h : parseUuid network = .ok networkId) :
    ∃ peer, d.createPeer parseUuid peerId ip network = .ok peer ∧ peer.peerId = peerId ∧
      peer.noeioIp = ip := by
  simp only [createPeer, PeerInfo.new, h]
  exact ⟨_, rfl, rfl, rfl⟩

/-- The nic and the peer are added together, whatever STUN responses came in between. -/
theorem Agrees.add {d e : Daemon} (h : d.Agrees) {peer : PeerInfo} {host : HostInfo}
    (hnics : e.nics = d.nics.insert peer.peerId peer.noeioIp) (hhost : e.hostInfo = some host)
    (hpeers : host.peers = d.reported)
    (hsame : ∀ p ∈ d.reported, p.noeioIp = peer.noeioIp → p.peerId = peer.peerId) :
    (e.addPeer peer).1.Agrees := by
  rw [← hpeers] at hsame
  have hreported : (e.addPeer peer).1.reported = (host.addPeer peer).peers := by
    simp [addPeer, hhost, reported]
  have hkept : (e.addPeer peer).1.nics = e.nics := by simp [addPeer, hhost]
  intro x
  rw [hreported, hkept, hnics, AList.mem_insert, h x, ← hpeers, HostInfo.mem_peerIds_addPeer hsame]

/-- A clean call fails without doing anything, or succeeds and keeps the agreement. -/
theorem registerNic_clean {d : Daemon} (h : d.Agrees) {peerId : PeerId} {ip : IpAddr}
    {network : String} {meanwhile : Option StunResponse}
    (hclean : d.Clean parseUuid (.registerNic peerId ip network meanwhile)) :
    (∃ err, d.registerNic parseUuid peerId ip network meanwhile = (d, .error err)) ∨
      (d.registerNic parseUuid peerId ip network meanwhile).2 = .ok () ∧
        (d.registerNic parseUuid peerId ip network meanwhile).1.Agrees := by
  cases hp : parseUuid network with
  | error err =>
    left
    simp only [registerNic, createPeer_error hp]
    exact ⟨_, rfl⟩
  | ok networkId =>
    right
    obtain ⟨hinit, hsame⟩ := hclean.resolve_left (by simp [hp])
    have hcreate : ∃ peer, d.createPeer parseUuid peerId ip network = .ok peer ∧
        peer.peerId = peerId ∧ peer.noeioIp = ip := createPeer_ok hp
    obtain ⟨peer, hpeer, rfl, rfl⟩ := hcreate
    simp only [registerNic, hpeer]
    cases meanwhile with
    | none =>
      obtain ⟨host, hhost⟩ := Option.isSome_iff_exists.mp (hinit.resolve_right (by simp))
      have hreg : (d.register peer.peerId peer.noeioIp).hostInfo = some host := hhost
      have hpeers : host.peers = d.reported := by rw [reported, hhost]
      exact ⟨by simp [addPeer, hreg], h.add rfl hreg hpeers hsame⟩
    | some response =>
      obtain ⟨host, hhost, hpeers⟩ :=
        hostInfo_stunResponse (d.register peer.peerId peer.noeioIp) response
      refine ⟨by simp [addPeer, hhost], h.add ?_ hhost hpeers hsame⟩
      rw [nics_stunResponse]
      rfl

theorem Agrees.nicStep {d : Daemon} {e : NicEvent} (h : d.Agrees) (he : d.Clean parseUuid e) :
    (d.nicStep parseUuid e).Agrees := by
  cases e with
  | stun response => exact h.stunResponse response
  | registerNic peerId ip network meanwhile =>
    rcases registerNic_clean h he with ⟨err, heq⟩ | ⟨-, hagrees⟩
    · rw [Daemon.nicStep, heq]
      exact h
    · exact hagrees

theorem Fresh.agrees {d : Daemon} (h : d.Fresh) : d.Agrees := by
  intro x
  simp [h.1, reported, h.2]

/-- In every run of clean calls, with the STUN responses at any point, the registered ids are
the reported ones, and a clean call that returns an error leaves the daemon as it was. -/
theorem registry_agrees (parseUuid : String → Except String NetworkId) (d : Daemon)
    (hfresh : d.Fresh) (es : List NicEvent)
    (hes : Runs.Meets (nicStep parseUuid) (fun _ => Clean parseUuid) d es) :
    (Runs.run (nicStep parseUuid) d es).Agrees ∧
      ∀ peerId ip network meanwhile,
        (Runs.run (nicStep parseUuid) d es).Clean parseUuid
            (.registerNic peerId ip network meanwhile) →
          ∀ err, ((Runs.run (nicStep parseUuid) d es).registerNic parseUuid peerId ip network
              meanwhile).2 = .error err →
            ((Runs.run (nicStep parseUuid) d es).registerNic parseUuid peerId ip network
              meanwhile).1 = Runs.run (nicStep parseUuid) d es := by
  have hrun : (Runs.run (nicStep parseUuid) d es).Agrees :=
    Runs.invariant (P := fun _ => Agrees) hfresh.agrees (fun _ _ _ h he => h.nicStep he) hes
  refine ⟨hrun, ?_⟩
  intro peerId ip network meanwhile hclean err herr
  rcases registerNic_clean hrun hclean with ⟨err', heq⟩ | ⟨hok, -⟩
  · rw [heq]
  · rw [hok] at herr
    cases herr

namespace Sample

def networkText : String := "550e8400-e29b-41d4-a716-446655440000"

def networkBytes : NetworkId := #v[0x55, 0x0e, 0x84, 0x00, 0xe2, 0x9b, 0x41, 0xd4,
  0xa7, 0x16, 0x44, 0x66, 0x55, 0x44, 0x00, 0x00]

/-- Parses the one network of the samples. -/
def parseNetwork (text : String) : Except String NetworkId :=
  if text = networkText then .ok networkBytes else .error "invalid character"

def fresh : Daemon := ⟨.boot ∅ true [] [], none⟩

def response : StunResponse := ⟨.v4 (.ofOctets 198 51 100 7) 4242, "host", 10⟩

def ip : IpAddr := .v4 (.ofOctets 10 0 0 7)

/-- A call with a bad network, then one in whose middle the STUN response arrives. -/
def calls : List NicEvent :=
  [.registerNic 1 ip "home" none, .registerNic 7 ip networkText (some response)]

theorem registry_agrees_calls :
    7 ∈ (Runs.run (nicStep parseNetwork) fresh calls).nics ∧
      (Runs.run (nicStep parseNetwork) fresh calls).Agrees := by
  refine ⟨by decide +kernel, (registry_agrees parseNetwork fresh ⟨rfl, rfl⟩ calls ?_).1⟩
  refine ⟨Or.inl ⟨"invalid character", rfl⟩, Or.inr ⟨Or.inr rfl, ?_⟩, trivial⟩
  intro p hp
  cases hp

/-- Two nics of one IP. -/
def twins : List NicEvent :=
  [.stun response, .registerNic 7 ip networkText none, .registerNic 8 ip networkText none]

/-- A nic that is registered before the first STUN response stays when the call fails, and a
second nic of the same IP takes the reported entry away from the first. -/
theorem registry_differs :
    ((fresh.registerNic parseNetwork 7 ip networkText none).2 =
        .error "host info not initialized" ∧
      7 ∈ (fresh.registerNic parseNetwork 7 ip networkText none).1.nics ∧ 7 ∉ fresh.nics) ∧
    7 ∈ (Runs.run (nicStep parseNetwork) fresh twins).nics ∧
      (Runs.run (nicStep parseNetwork) fresh twins).reported.map (·.peerId) = [8] := by
  refine ⟨⟨rfl, by decide +kernel, by decide +kernel⟩, by decide +kernel, by decide +kernel⟩

end Sample

end Noeio.Daemon
