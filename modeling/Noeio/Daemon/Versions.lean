import Mathlib.Data.List.Chain
import Noeio.Daemon.HostState

/-!
# Versions of reports

A node reports its host info to every derper, and the derper keeps a report only if its
resource version is greater than the stored one. So a report that says something new must
have a greater version than the one before it. The version moves in two places: a STUN
response sets it to the clock, and `set_advertised` raises it. It does not move when a nic
adds a peer, nor when the local addresses change, which each report looks up anew.

`Moves` is the condition on one step. A step that changes what the node says must raise the
version above those already reported, and local addresses may change only together with the
version. `report_versions` proves the discipline for every run of such steps, and
`silent_peer` is a run in which two reports say different things under one version.
-/

namespace Noeio

/-! ## Building a report -/

def IpAddr.isLoopback : IpAddr → Bool
  | .v4 a => a.isLoopback
  | .v6 a => a = 1

def SocketAddr.new (ip : IpAddr) (port : UInt16) : SocketAddr :=
  match ip with
  | .v4 a => .v4 a port
  | .v6 a => .v6 a port 0 0

/-- The candidate for direct paths: the address that the system routes toward the derper
from, if it is none of a loopback or overlay interface. -/
def reportLocalAddrs (port : UInt16) (primary : Option IpAddr) (overlayIps : List IpAddr) :
    List SocketAddr :=
  match primary with
  | some ip => if !ip.isLoopback && ip ∉ overlayIps then [.new ip port] else []
  | none => []

/-- The host info with the candidates on the host and on each of its peers. -/
def HostInfo.withLocalAddrs (host : HostInfo) (localAddrs : List SocketAddr) : HostInfo :=
  { host with localAddrs, peers := host.peers.map (·.withLocalAddrs localAddrs) }

/-- The socket's port and the primary address, as the system gives them for a report. -/
structure Lookup where
  port : Option UInt16
  primary : Option IpAddr
  deriving DecidableEq

namespace Daemon

/-- The host info that goes into a report. -/
def reportInfo (self : Daemon) (lookup : Lookup) (host : HostInfo) : HostInfo :=
  match lookup.port with
  | some port => host.withLocalAddrs (reportLocalAddrs port lookup.primary self.nicIps)
  -- the local port could not be read
  | none => host

/-- What `register_host_info` sends to one derper, unless it skips the report. -/
def buildReport (self : Daemon) (lookup : Lookup) : Option HostInfo :=
  match self.hostInfo with
  | none => none
  | some host => if self.nicPeers = [] then none else some (self.reportInfo lookup host)

end Daemon

/-! ## Runs of a reporting node -/

/-- The daemon, and the reports it has built, each with the derper it is for. -/
structure Reporter where
  daemon : Daemon
  reports : List (String × HostInfo)

namespace Reporter

inductive Event where
  | stun (response : StunResponse)
  | addPeer (peer : PeerInfo)
  | setAdvertised (routes : List Ipv4Cidr) (now : UInt64)
  | registerNic (peerId : PeerId) (ip : IpAddr)
  | report (derper : String) (lookup : Lookup)

def step (self : Reporter) : Event → Reporter
  | .stun response => { self with daemon := self.daemon.stunResponse response }
  | .addPeer peer => { self with daemon := (self.daemon.addPeer peer).1 }
  | .setAdvertised routes now => { self with daemon := self.daemon.setAdvertised routes now }
  | .registerNic peerId ip => { self with daemon := self.daemon.register peerId ip }
  | .report derper lookup =>
    match self.daemon.buildReport lookup with
    | some info => { self with reports := self.reports ++ [(derper, info)] }
    | none => self

/-- The reports for one derper, oldest first. -/
def reportsTo (self : Reporter) (derper : String) : List HostInfo :=
  (self.reports.filter (·.1 = derper)).map (·.2)

/-- Two host infos differ at most in their versions. -/
def SaysSame (a b : HostInfo) : Prop := { a with resourceVersion := b.resourceVersion } = b

instance (a b : HostInfo) : Decidable (SaysSame a b) := inferInstanceAs (Decidable (_ = _))

/-- The later report says the same or has a greater version. -/
def Follows (a b : HostInfo) : Prop := SaysSame a b ∨ a.resourceVersion < b.resourceVersion

/-! ## The condition -/

/-- The version is greater than that of every report so far. -/
def Newer (self : Reporter) (version : UInt64) : Prop :=
  ∀ report ∈ self.reports, report.2.resourceVersion < version

/-- The local addresses of the host and of its peers. -/
def candidates (host : HostInfo) : List SocketAddr × List (List SocketAddr) :=
  (host.localAddrs, host.peers.map (·.localAddrs))

/-- The system finds the local addresses that the last report carries. Without a port there are
none but the host's own. -/
def SameAddrs (self : Reporter) (lookup : Lookup) (host last : HostInfo) : Prop :=
  match lookup.port with
  | some port =>
    let addrs := reportLocalAddrs port lookup.primary self.daemon.nicIps
    last.localAddrs = addrs ∧ ∀ p ∈ last.peers, p.localAddrs = addrs
  | none => candidates last = candidates host

/-- A step that changes what the node says goes with a version above the reported ones. -/
def Moves (self : Reporter) : Event → Prop
  | .stun response => ∀ host, self.daemon.hostInfo = some host →
      self.Newer response.now ∨ response.now = host.resourceVersion ∧
        response.addr = host.natAddr ∧ response.hostname = host.hostname ∧ host.natType = .other
  | .addPeer peer => ∀ host, self.daemon.hostInfo = some host →
      self.Newer host.resourceVersion ∨ (∃ p ∈ host.peers, p.noeioIp = peer.noeioIp) ∧
        ∀ p ∈ host.peers, p.noeioIp = peer.noeioIp → p.peerId = peer.peerId
  | .setAdvertised routes now => routes ≠ self.daemon.advertised →
      ∀ host, self.daemon.hostInfo = some host →
        self.Newer now ∨ host.resourceVersion < host.resourceVersion + 1
  | .registerNic _ _ => True
  | .report derper lookup => ∀ host, self.daemon.hostInfo = some host →
      ∀ last ∈ (self.reportsTo derper).getLast?, last.resourceVersion < host.resourceVersion ∨
        self.SameAddrs lookup host last

/-! ## What a host info says besides its version and its addresses -/

def body (host : HostInfo) : HostInfo := { host.withLocalAddrs [] with resourceVersion := 0 }

theorem peers_eq_of_candidates {l l' : List PeerInfo}
    (hbody : l.map (·.withLocalAddrs []) = l'.map (·.withLocalAddrs []))
    (haddrs : l.map (·.localAddrs) = l'.map (·.localAddrs)) : l = l' := by
  induction l generalizing l' with
  | nil => simpa using hbody.symm
  | cons p l ih =>
    cases l' with
    | nil => cases hbody
    | cons q l' =>
      obtain ⟨hhead, htail⟩ := List.cons.inj hbody
      obtain ⟨haddr, hrest⟩ := List.cons.inj haddrs
      have hpq : p = q := by
        cases p
        cases q
        simp_all [PeerInfo.withLocalAddrs]
      rw [hpq, ih htail hrest]

theorem saysSame_of_body {a b : HostInfo} (hbody : body a = body b)
    (haddrs : candidates a = candidates b) : SaysSame a b := by
  obtain ⟨haddr, hpeers⟩ := Prod.mk.inj haddrs
  cases a
  cases b
  simp only [body, HostInfo.withLocalAddrs, HostInfo.mk.injEq, true_and] at hbody
  obtain ⟨hnat, htype, hname, hmap⟩ := hbody
  simp only [SaysSame, HostInfo.mk.injEq, true_and]
  exact ⟨hnat, htype, hname, haddr, peers_eq_of_candidates hmap hpeers⟩

@[simp] theorem body_reportInfo (d : Daemon) (lookup : Lookup) (host : HostInfo) :
    body (d.reportInfo lookup host) = body host := by
  unfold Daemon.reportInfo
  split
  · simp [body, HostInfo.withLocalAddrs, Function.comp_def, PeerInfo.withLocalAddrs]
  · rfl

@[simp] theorem resourceVersion_reportInfo (d : Daemon) (lookup : Lookup) (host : HostInfo) :
    (d.reportInfo lookup host).resourceVersion = host.resourceVersion := by
  unfold Daemon.reportInfo
  split <;> rfl

/-- A report of the same body that finds the same addresses carries the same ones. -/
theorem candidates_reportInfo {s : Reporter} {lookup : Lookup} {host last : HostInfo}
    (h : s.SameAddrs lookup host last) (hbody : body last = body host) :
    candidates last = candidates (s.daemon.reportInfo lookup host) := by
  unfold SameAddrs at h
  unfold Daemon.reportInfo
  cases hport : lookup.port with
  | none =>
    rw [hport] at h
    exact h
  | some port =>
    rw [hport] at h
    obtain ⟨haddrs, hpeers⟩ := h
    have hlen : last.peers.length = host.peers.length := by
      have hlen := congrArg (fun host => host.peers.length) hbody
      simpa [body, HostInfo.withLocalAddrs] using hlen
    have hmap : last.peers.map (·.localAddrs) =
        List.replicate host.peers.length
          (reportLocalAddrs port lookup.primary s.daemon.nicIps) := by
      rw [List.map_congr_left hpeers, List.map_const', hlen]
    simp [candidates, HostInfo.withLocalAddrs, haddrs, hmap, PeerInfo.withLocalAddrs,
      Function.comp_def]

/-! ## What a step keeps -/

/-- Every report is older than the current host info, or of its version and with its body. -/
structure Disciplined (s : Reporter) : Prop where
  chain : ∀ derper, (s.reportsTo derper).IsChain Follows
  current : ∀ report ∈ s.reports, ∃ host, s.daemon.hostInfo = some host ∧
    (report.2.resourceVersion < host.resourceVersion ∨
      report.2.resourceVersion = host.resourceVersion ∧ body report.2 = body host)

/-- The host info may change to a version above the reported ones, or in nothing but its
addresses. -/
theorem Disciplined.of_host {s t : Reporter} (h : s.Disciplined) (hreports : t.reports = s.reports)
    (hhost : ∀ host, s.daemon.hostInfo = some host → ∃ host', t.daemon.hostInfo = some host' ∧
      (s.Newer host'.resourceVersion ∨
        host'.resourceVersion = host.resourceVersion ∧ body host' = body host)) :
    t.Disciplined := by
  constructor
  · intro derper
    rw [reportsTo, hreports]
    exact h.chain derper
  · intro report hreport
    rw [hreports] at hreport
    obtain ⟨host, hs, hold⟩ := h.current report hreport
    obtain ⟨host', ht, hnewer | ⟨hversion, hbody⟩⟩ := hhost host hs
    · exact ⟨host', ht, Or.inl (hnewer report hreport)⟩
    · refine ⟨host', ht, ?_⟩
      rw [hversion, hbody]
      exact hold

theorem Disciplined.newer_of_lt {s : Reporter} (h : s.Disciplined) {host : HostInfo}
    (hhost : s.daemon.hostInfo = some host) {version : UInt64}
    (hlt : host.resourceVersion < version) : s.Newer version := by
  intro report hreport
  obtain ⟨host', hhost', hold⟩ := h.current report hreport
  obtain rfl := Option.some.inj (hhost.symm.trans hhost')
  rcases hold with hless | ⟨heq, -⟩
  · exact UInt64.lt_trans hless hlt
  · rw [heq]
    exact hlt

theorem Disciplined.stun {s : Reporter} {response : StunResponse} (h : s.Disciplined)
    (he : s.Moves (.stun response)) : (s.step (.stun response)).Disciplined := by
  refine h.of_host rfl ?_
  intro host hhost
  have hnew : (s.step (.stun response)).daemon.hostInfo =
      some (host.refresh (.new response.addr response.hostname response.now)) := by
    simp [step, Daemon.stunResponse, hhost]
  refine ⟨_, hnew, ?_⟩
  rcases he host hhost with hnewer | ⟨hversion, haddr, hname, htype⟩
  · exact Or.inl hnewer
  · refine Or.inr ⟨hversion, ?_⟩
    simp [body, HostInfo.refresh, HostInfo.new, HostInfo.withLocalAddrs, haddr, hname, htype]

theorem Disciplined.addPeer {s : Reporter} {peer : PeerInfo} (h : s.Disciplined)
    (he : s.Moves (.addPeer peer)) : (s.step (.addPeer peer)).Disciplined := by
  refine h.of_host rfl ?_
  intro host hhost
  have hnew : (s.step (.addPeer peer)).daemon.hostInfo = some (host.addPeer peer) := by
    simp [step, Daemon.addPeer, hhost]
  have hversion : (host.addPeer peer).resourceVersion = host.resourceVersion := by
    unfold HostInfo.addPeer
    split <;> rfl
  refine ⟨_, hnew, ?_⟩
  rcases he host hhost with hnewer | ⟨hlisted, hsame⟩
  · rw [hversion]
    exact Or.inl hnewer
  · rw [HostInfo.addPeer_of_listed hlisted hsame]
    exact Or.inr ⟨rfl, rfl⟩

theorem lt_max_version {v a b : UInt64} (h : v < a ∨ v < b) : v < max a b := by
  change v < if a ≤ b then b else a
  split
  · rename_i hle
    exact h.elim (fun h => UInt64.lt_of_lt_of_le h hle) id
  · rename_i hlt
    exact h.elim id fun h => UInt64.lt_trans h (UInt64.not_le.mp hlt)

theorem Disciplined.setAdvertised {s : Reporter} {routes : List Ipv4Cidr} {now : UInt64}
    (h : s.Disciplined) (he : s.Moves (.setAdvertised routes now)) :
    (s.step (.setAdvertised routes now)).Disciplined := by
  by_cases hroutes : s.daemon.advertised = routes
  · have hsame : s.step (.setAdvertised routes now) = s := by
      simp [step, Daemon.setAdvertised, Daemon.writeAdvertised, hroutes]
    rw [hsame]
    exact h
  · refine h.of_host rfl ?_
    intro host hhost
    have hnew : (s.step (.setAdvertised routes now)).daemon.hostInfo =
        some (host.advertise routes now) := by
      simp [step, Daemon.setAdvertised, Daemon.writeAdvertised, hroutes, Daemon.publishAdvertised,
        hhost]
    refine ⟨_, hnew, Or.inl ?_⟩
    rcases he (Ne.symm hroutes) host hhost with hnewer | hlt
    · intro report hreport
      exact lt_max_version (Or.inl (hnewer report hreport))
    · exact h.newer_of_lt hhost (lt_max_version (Or.inr hlt))

theorem reportsTo_append (s : Reporter) (d derper : String) (info : HostInfo) :
    reportsTo { s with reports := s.reports ++ [(d, info)] } derper =
      s.reportsTo derper ++ if d = derper then [info] else [] := by
  simp only [reportsTo, List.filter_append, List.map_append]
  by_cases hd : d = derper <;> simp [hd]

/-- A report of the current host info follows the last one for its derper. -/
theorem Disciplined.follows {s : Reporter} {derper : String} {lookup : Lookup} (h : s.Disciplined)
    (he : s.Moves (.report derper lookup)) {host last : HostInfo}
    (hhost : s.daemon.hostInfo = some host) (hlast : last ∈ (s.reportsTo derper).getLast?) :
    Follows last (s.daemon.reportInfo lookup host) := by
  have hmem : (derper, last) ∈ s.reports := by
    obtain ⟨⟨d, info⟩, hin, rfl⟩ := List.mem_map.mp (List.mem_of_getLast? hlast)
    obtain ⟨hin, hd⟩ := List.mem_filter.mp hin
    exact of_decide_eq_true hd ▸ hin
  obtain ⟨host', hhost', hold⟩ := h.current _ hmem
  obtain rfl := Option.some.inj (hhost.symm.trans hhost')
  rcases he host hhost last hlast with hless | haddrs
  · exact Or.inr (by simpa using hless)
  · rcases hold with hless | ⟨-, hbody⟩
    · exact Or.inr (by simpa using hless)
    · exact Or.inl (saysSame_of_body (by simpa using hbody) (candidates_reportInfo haddrs hbody))

theorem Disciplined.report {s : Reporter} {derper : String} {lookup : Lookup} (h : s.Disciplined)
    (he : s.Moves (.report derper lookup)) : (s.step (.report derper lookup)).Disciplined := by
  cases hhost : s.daemon.hostInfo with
  | none =>
    have hsame : s.step (.report derper lookup) = s := by
      simp [step, Daemon.buildReport, hhost]
    rw [hsame]
    exact h
  | some host =>
    by_cases hnics : s.daemon.nicPeers = []
    · have hsame : s.step (.report derper lookup) = s := by
        simp [step, Daemon.buildReport, hhost, hnics]
      rw [hsame]
      exact h
    · have hstep : s.step (.report derper lookup) =
          { s with reports := s.reports ++ [(derper, s.daemon.reportInfo lookup host)] } := by
        simp [step, Daemon.buildReport, hhost, hnics]
      rw [hstep]
      constructor
      · intro other
        rw [reportsTo_append]
        split
        · rename_i hd
          subst hd
          refine (h.chain derper).append (List.isChain_singleton _) ?_
          intro last hlast info hinfo
          obtain rfl := Option.some.inj hinfo
          exact h.follows he hhost hlast
        · simpa using h.chain other
      · intro report hreport
        rcases List.mem_append.mp hreport with hold | hnew
        · exact h.current report hold
        · obtain rfl := List.mem_singleton.mp hnew
          exact ⟨host, hhost, Or.inr (by simp)⟩

theorem Disciplined.step {s : Reporter} {e : Event} (h : s.Disciplined) (he : s.Moves e) :
    (s.step e).Disciplined := by
  cases e with
  | stun response => exact h.stun he
  | addPeer peer => exact h.addPeer he
  | setAdvertised routes now => exact h.setAdvertised he
  | registerNic peerId ip => exact h.of_host rfl fun host hhost => ⟨host, hhost, Or.inr ⟨rfl, rfl⟩⟩
  | report derper lookup => exact h.report he

/-- Report version discipline: in every run whose steps raise the version where they have to,
of any two successive reports for one derper that differ in more than their versions, the
later one has the greater version. -/
theorem report_versions (d : Daemon) (es : List Event)
    (hes : Runs.Meets step (fun _ => Moves) ⟨d, []⟩ es) (derper : String) :
    ((Runs.run step ⟨d, []⟩ es).reportsTo derper).IsChain fun a b =>
      ¬ SaysSame a b → a.resourceVersion < b.resourceVersion := by
  have hnew : Disciplined ⟨d, []⟩ := ⟨fun _ => List.isChain_nil, fun _ h => nomatch h⟩
  have hrun : (Runs.run step ⟨d, []⟩ es).Disciplined :=
    Runs.invariant (P := fun _ => Disciplined) hnew (fun _ _ _ h he => h.step he) hes
  exact (hrun.chain derper).imp fun a b hfollows => hfollows.resolve_left

namespace Sample

def node : Reporter := ⟨⟨.boot (AList.insert 7 (.v4 (.ofOctets 10 0 0 7)) ∅) true [] [], none⟩, []⟩

def response : StunResponse := ⟨.v4 (.ofOctets 198 51 100 7) 4242, "host", 10⟩

def peer : PeerInfo :=
  ⟨0, 7, .v4 (.ofOctets 10 0 0 7), .replicate 16 1, .other, none, [], [], false⟩

def lookup : Lookup := ⟨some 4242, some (.v4 (.ofOctets 192 168 1 2))⟩

/-- The node reports, advertises a LAN after its clock was set back, and reports again. -/
def advertised : List Event :=
  [.stun response, .addPeer peer, .report "derp" lookup,
    .setAdvertised [.ofOctets 192 168 5 0 24] 5, .report "derp" lookup]

theorem report_versions_advertised :
    ((Runs.run step node advertised).reportsTo "derp").map (·.resourceVersion) = [10, 11] ∧
      ((Runs.run step node advertised).reportsTo "derp").IsChain fun a b =>
        ¬ SaysSame a b → a.resourceVersion < b.resourceVersion := by
  refine ⟨by decide +kernel, report_versions node.daemon advertised ⟨?_, ?_, ?_, ?_, ?_, trivial⟩ _⟩
  · rintro host ⟨⟩
  · rintro host -
    exact Or.inl fun _ hreport => nomatch hreport
  · rintro host - last ⟨⟩
  · rintro - host ⟨⟩
    exact Or.inr (by decide)
  · rintro host ⟨⟩ last ⟨⟩
    exact Or.inl (by decide)

/-- The node reports once before its nic has added a peer. -/
def silent : List Event :=
  [.stun response, .report "derp" lookup, .addPeer peer, .report "derp" lookup]

/-- The report with the peer has the version of the one without. A derper that has stored one of that
version drops the other; here the first lists no peer, and there is nothing to store. -/
theorem silent_peer :
    ((Runs.run step node silent).reportsTo "derp").map (·.peers.length) = [0, 1] ∧
      ¬ ((Runs.run step node silent).reportsTo "derp").IsChain fun a b =>
        ¬ SaysSame a b → a.resourceVersion < b.resourceVersion := by
  decide +kernel

end Sample

end Reporter

end Noeio
