import Noeio.Derp.Relay

/-!
# Networks are kept apart

A report is authorised for one network, and three places rely on it: the loop over the
reported peers, the table, and the two broadcasts. Each filters by something else. The loop
drops the peers outside the token's network but stores the whole host with the others; the
sync task compares the networks of two table entries and then sends every entry of the
stored host; the gone task compares each entry with the network of the dead peer.

* `syncRoute_isolated`: when no accepted report mixes networks, every `SyncRoute` stays in
  the network of its target. `syncRoute_leaks` is the run in which one does not.
* `report_noninterference_iff`: exactly when a report leaves the entries of all other
  networks alone. The table is keyed by the peer id only, so a newer report for an id of
  another network takes the entry over.
-/

namespace Noeio.Derp

/-! ## Route pushes -/

/-- An accepted report lists only peers of the token's network, or none of them. -/
def NetworkScoped (env : Env) (e : Event) : Prop :=
  ∀ addr network host, ReportFrom env addr network host e →
    (∃ info ∈ host.peers, info.networkId = network) →
      ∀ info ∈ host.peers, info.networkId = network

/-- `sent` is the listed peer, up to its version, its paths and the tombstone flag. -/
def SamePeer (sent listed : PeerInfo) : Prop :=
  sent.networkId = listed.networkId ∧ sent.peerId = listed.peerId ∧
    sent.noeioIp = listed.noeioIp ∧ sent.advertisedRoutes = listed.advertisedRoutes

theorem samePeer_syncInfo (host : HostInfo) (info : PeerInfo) : SamePeer (syncInfo host info) info :=
  ⟨rfl, rfl, rfl, rfl⟩

theorem samePeer_tombstone (dead : Gone) (info : PeerInfo) : SamePeer (tombstone dead info) info :=
  ⟨rfl, rfl, rfl, rfl⟩

/-- The push carries a peer of the network its target is registered in, as listed by a
report whose token verified for that network. -/
structure Isolated (env : Env) (es : List Event) (push : RoutePush) : Prop where
  network : push.info.networkId = push.network
  target : ∃ pre, pre <+: es ∧ ∃ entry, (run env pre).manager.get push.target = some entry ∧
    entry.addr = push.toAddr ∧ entry.network = push.network
  listed : ∃ addr host, (∃ e ∈ es, ReportFrom env addr push.network host e) ∧
    ∃ info ∈ host.peers, info.networkId = push.network ∧ SamePeer push.info info

theorem Isolated.concat {env : Env} {es : List Event} {push : RoutePush}
    (h : Isolated env es push) (e : Event) : Isolated env (es ++ [e]) push where
  network := h.network
  target := by
    obtain ⟨pre, hpre, hget⟩ := h.target
    exact ⟨pre, hpre.trans (List.prefix_append _ _), hget⟩
  listed := by
    obtain ⟨addr, host, ⟨ev, hev, hrep⟩, hinfo⟩ := h.listed
    exact ⟨addr, host, ⟨ev, List.mem_append_left _ hev, hrep⟩, hinfo⟩

/-- The stored host of an entry lists only peers of the entry's network. -/
def Scoped (_x : PeerId) (e : PeerEntry) : Prop := ∀ info ∈ e.info.peers, info.networkId = e.network

theorem entries_scoped {env : Env} {es : List Event} (h : ∀ e ∈ es, NetworkScoped env e) :
    (run env es).manager.Entries Scoped := by
  induction es using List.reverseRecOn with
  | nil => exact PeerManager.entries_new
  | append_singleton es e ih =>
    rw [run_concat]
    refine entries_step (ih fun a ha => h a (List.mem_append_left _ ha)) ?_
    intro addr network host hrep info hinfo hnet
    exact h e (List.mem_append_right _ List.mem_cons_self) addr network host hrep
      ⟨info, hinfo, hnet⟩

/-- A push built from an entry `d` of the table, to a target alive in the same network. -/
theorem isolated_of_entry {env : Env} {es : List Event} {x t : PeerId} {d target : PeerEntry}
    {info sent : PeerInfo} (hd : Reported env es x d) (hinfo : info ∈ d.info.peers)
    (hnet : info.networkId = d.network) (ht : (run env es).manager.get t = some target)
    (htnet : target.network = d.network) (hsame : SamePeer sent info) :
    Isolated env es ⟨t, target.addr, target.network, sent⟩ where
  network := by
    rw [hsame.1, hnet, htnet]
  target := ⟨es, List.prefix_rfl, target, ht, rfl, rfl⟩
  listed := by
    obtain ⟨ev, hev, hrep, -⟩ := hd
    refine ⟨d.addr, d.info, ⟨ev, hev, ?_⟩, info, hinfo, hnet.trans htnet.symm, hsame⟩
    rw [htnet]
    exact hrep

theorem waiting_isolated {env : Env} {es : List Event} (h : ∀ e ∈ es, NetworkScoped env e) :
    ∀ push, push ∈ (run env es).spawned ∨ push ∈ (run env es).burying → Isolated env es push := by
  induction es using List.reverseRecOn with
  | nil =>
    intro push hpush
    rcases hpush with hpush | hpush <;> cases hpush
  | append_singleton es e ih =>
    have hes : ∀ a ∈ es, NetworkScoped env a := fun a ha => h a (List.mem_append_left _ ha)
    have hrep := entries_reported env es
    intro push hpush
    rw [run_concat] at hpush
    rcases hpush with hpush | hpush
    · rcases mem_spawned_step hpush with hold | ⟨peers, rfl, hperm, hnew⟩
      · exact (ih hes push (Or.inl hold)).concat e
      · obtain ⟨t, target, p, peer, ht, hp, -, hnet, info, hinfo, -, rfl⟩ := mem_syncRoutes.mp hnew
        have hpeer := get_of_mem_perm hperm hp
        exact (isolated_of_entry (hrep.get hpeer) hinfo ((entries_scoped hes).get hpeer info hinfo)
          (get_of_mem_perm hperm ht) hnet (samePeer_syncInfo _ _)).concat _
    · rcases mem_burying_step hpush with hold | ⟨peers, dead, rest, rfl, hperm, -, hgone, hnew⟩
      · exact (ih hes push (Or.inr hold)).concat e
      · obtain ⟨t, target, ht, -, htnet, info, hinfo, hnet, rfl⟩ := mem_tombstones.mp hnew
        obtain ⟨addr, hdead⟩ := hrep.gone dead (hgone ▸ List.mem_cons_self)
        exact (isolated_of_entry hdead hinfo hnet (get_of_mem_perm hperm ht) htnet
          (samePeer_tombstone _ _)).concat _

/-- Network isolation of route pushes: in every run in which no accepted report mixes
networks, every `SyncRoute` sent stays in the network of its target. -/
theorem syncRoute_isolated (env : Env) (es : List Event) (hscoped : ∀ e ∈ es, NetworkScoped env e)
    (e : Event) (push : RoutePush) (hsent : .syncRoute push ∈ sends env (run env es) e) :
    Isolated env es push :=
  waiting_isolated hscoped push (waiting_of_sends hsent)

namespace Sample

/-- Both peers of network A report and the sync task runs. -/
def synced : List Event := registered ++ [.sync table.alivePeers]

theorem networkScoped_report {text : String} {h : HostInfo}
    (hh : env.hostInfo (asBytes text) = .ok h) (hlen : text.utf8ByteSize < 1000)
    (hscoped : ∀ info ∈ h.peers, info.networkId = networkA) (port : UInt16) (peerId : PeerId) :
    NetworkScoped env (report port peerId text) := by
  intro addr network host hrep _
  obtain ⟨-, rfl, rfl⟩ := (reportFrom_report hh hlen port peerId).unique hrep
  exact hscoped

theorem networkScoped_sync (peers : List (PeerId × PeerEntry)) : NetworkScoped env (.sync peers) := by
  rintro addr network host ⟨now, data, packet, heq, -⟩
  cases heq

/-- The first push after `synced`: peer 1 to peer 2. -/
def pushOne : RoutePush := ⟨2, addr 2000, networkA, syncInfo hostOne (peer 1 1 networkA)⟩

theorem syncRoute_isolated_synced :
    .syncRoute pushOne ∈ sends env (run env synced) (.send 0) ∧ Isolated env synced pushOne := by
  have hsent : .syncRoute pushOne ∈ sends env (run env synced) (.send 0) := by
    rw [synced, run_concat, run_registered]
    decide +kernel
  have hscoped : ∀ e ∈ synced, NetworkScoped env e := by
    simp only [synced, registered, List.cons_append, List.nil_append, List.forall_mem_cons,
      List.not_mem_nil, IsEmpty.forall_iff, implies_true, and_true]
    exact ⟨networkScoped_report hostInfo_textOne (by decide +kernel) (by decide) 1000 1,
      networkScoped_report hostInfo_textTwo (by decide +kernel) (by decide) 2000 2,
      networkScoped_sync _⟩
  exact ⟨hsent, syncRoute_isolated env synced hscoped (.send 0) pushOne hsent⟩

/-- The table after peer 2 and a host in two networks have reported with a token for A. -/
def tableMixed : PeerManager :=
  handleReport (handleReport .new (addr 2000) networkA hostTwo) (addr 1000) networkA hostMixed

def mixed : List Event :=
  [report 2000 2 textTwo, report 1000 1 textMixed, .sync tableMixed.alivePeers]

/-- Peer 3, reported outside the token's network, on its way to peer 2. -/
def leaked : RoutePush := ⟨2, addr 2000, networkA, syncInfo hostMixed (peer 3 3 networkB)⟩

theorem run_mixed : run env mixed = step env ⟨tableMixed, [], []⟩ (.sync tableMixed.alivePeers) := by
  have h₁ := reportFrom_report hostInfo_textTwo (by decide +kernel) 2000 2
  have h₂ := reportFrom_report hostInfo_textMixed (by decide +kernel) 1000 1
  simp only [run, Runs.run, mixed, List.foldl_cons, List.foldl_nil, step_of_reportFrom h₁,
    step_of_reportFrom h₂]
  rfl

/-- The derper tells peer 2, registered in network A, about a peer of network B. -/
theorem syncRoute_leaks :
    .syncRoute leaked ∈ sends env (run env mixed) (.send 2) ∧
      ((run env mixed).manager.get leaked.target).map (·.network) = some networkA ∧
      leaked.network = networkA ∧ leaked.info.networkId = networkB ∧ networkA ≠ networkB := by
  rw [run_mixed]
  decide +kernel

end Sample

/-! ## Reports and the table -/

/-- A report for network `N` leaves every entry of another network as it was if and only if
it is not newer than the stored entry of any such peer it lists. -/
theorem report_noninterference_iff (env : Env) (s : State) (e : Event) (addr : SocketAddr)
    (network : NetworkId) (host : HostInfo) (hrep : ReportFrom env addr network host e) :
    (∀ x entry, s.manager.get x = some entry → entry.network ≠ network →
        (step env s e).manager.get x = some entry) ↔
      ∀ info ∈ host.peers, info.networkId = network →
        ∀ entry, s.manager.get info.peerId = some entry → entry.network ≠ network →
          host.resourceVersion ≤ entry.info.resourceVersion := by
  simp only [step_of_reportFrom hrep s, get_handleReport]
  constructor
  · intro h info hinfo hnet entry hget hne
    have hkept := h info.peerId entry hget hne
    rw [if_pos ⟨info, hinfo, hnet, rfl⟩, hget, Option.some.injEq] at hkept
    by_contra hv
    -- the newer report replaced the entry, and with it its network
    rw [PeerManager.merge, if_neg hv] at hkept
    exact hne (hkept ▸ rfl)
  · intro h x entry hget hne
    split
    · rename_i hlisted
      obtain ⟨info, hinfo, hnet, rfl⟩ := hlisted
      rw [hget, PeerManager.merge, if_pos (h info hinfo hnet entry hget hne)]
    · exact hget

namespace Sample

/-- Peer 1 is registered in network B. -/
def stateB : State :=
  ⟨handleReport .new (addr 3000) networkB (host 4 3000 [peer 1 1 networkB]), [], []⟩

def entryB : PeerEntry := ⟨addr 3000, host 4 3000 [peer 1 1 networkB], networkB⟩

/-- A report for network A that lists peer 2 leaves peer 1 of network B alone. -/
theorem report_noninterference_stateB :
    stateB.manager.get 1 = some entryB ∧
      (step env stateB (report 2000 2 textTwo)).manager.get 1 = some entryB := by
  have hrep := reportFrom_report hostInfo_textTwo (by decide +kernel) 2000 2
  have hget : stateB.manager.get 1 = some entryB := by decide +kernel
  refine ⟨hget, (report_noninterference_iff env stateB _ _ _ _ hrep).mpr ?_ 1 entryB hget
    (by decide)⟩
  intro info hinfo _ entry hentry
  obtain rfl := List.mem_singleton.mp hinfo
  have hnone : stateB.manager.get (peer 2 2 networkA).peerId = none := by decide +kernel
  rw [hnone] at hentry
  cases hentry

/-- A report for network A that lists peer 1 with a newer version takes it over. -/
theorem report_interferes :
    ReportFrom env (addr 1000) networkA hostOne (report 1000 1 textOne) ∧
      stateB.manager.get 1 = some entryB ∧ entryB.network ≠ networkA ∧
      (step env stateB (report 1000 1 textOne)).manager.get 1 = some ⟨addr 1000, hostOne, networkA⟩ ∧
      (step env stateB (report 1000 1 textOne)).manager.get 1 ≠ some entryB := by
  have hrep := reportFrom_report hostInfo_textOne (by decide +kernel) 1000 1
  refine ⟨hrep, ?_⟩
  rw [step_of_reportFrom hrep stateB]
  decide +kernel

end Sample

end Noeio.Derp
