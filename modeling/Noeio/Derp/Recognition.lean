import Noeio.Derp.Liveness

/-!
# The relay knows every live peer

The relay stamps a `Forward` with the peer that `by_addr` has for its source address, and drops it if
there is none. The hint is an entry of a cache of its own, with a time to live of its own, and a later
report of another peer from the same address takes it over. So a live peer could be unknown to the
relay.

It is not, as long as all reports from one address for one network list one peer (`live_is_relayed`).
Every heartbeat inserts the entry of the peer and the hint for the address of that entry together, so
the hint of a live peer is never the older of the two (`Hinted.backed`).
-/

namespace Noeio.Derp

/-- Where the datagrams of a peer come from, and the network it is in. -/
def PeerEntry.source (e : PeerEntry) : SocketAddr × NetworkId := (e.addr, e.network)

/-! ## Hints after a report -/

theorem PeerManager.byAddr_heartbeat (m : PeerManager) (x : PeerId) (info : HostInfo)
    (addr : SocketAddr) (network : NetworkId) :
    (m.heartbeat x info addr network).byAddr =
      m.byAddr.insert (merge (m.get x) ⟨addr, info, network⟩).source x := by
  rcases heartbeat_cases m x info addr network with ⟨prev, hx, hv, heq⟩ | ⟨hv, heq⟩
  · rw [heq, hx, merge, if_pos hv]
    rfl
  · have hmerge : merge (m.get x) ⟨addr, info, network⟩ = ⟨addr, info, network⟩ := by
      cases hx : m.get x with
      | none => rfl
      | some prev => exact if_neg (UInt64.not_le.mpr (hv prev hx))
    rw [heq, hmerge]
    rfl

/-- A hint is as before after a report, or it is for the address of a listed peer and names one. -/
theorem byAddr_handleReport (m : PeerManager) (addr : SocketAddr) (network : NetworkId)
    (host : HostInfo) (key : SocketAddr × NetworkId) :
    (∃ x ∈ listedIn network host,
      (PeerManager.merge (m.get x) ⟨addr, host, network⟩).source = key ∧
        (handleReport m addr network host).byAddr.get key = some x) ∨
    (∀ x ∈ listedIn network host,
        (PeerManager.merge (m.get x) ⟨addr, host, network⟩).source ≠ key) ∧
      (handleReport m addr network host).byAddr.get key = m.byAddr.get key ∧
      ((handleReport m addr network host).byAddr.Holds key → m.byAddr.Holds key) := by
  unfold handleReport listedIn
  generalize host.peers = infos
  induction infos generalizing m with
  | nil => exact Or.inr ⟨nofun, rfl, id⟩
  | cons info infos ih =>
    rw [List.foldl_cons]
    by_cases hnet : info.networkId = network
    · rw [if_neg (not_not.mpr hnet), List.filter_cons_of_pos (by simpa using hnet), List.map_cons]
      -- a heartbeat for the same peer leaves the same entry behind
      have hmerge : ∀ x, PeerManager.merge
          ((m.heartbeat info.peerId host addr info.networkId).get x) ⟨addr, host, network⟩ =
            PeerManager.merge (m.get x) ⟨addr, host, network⟩ := by
        intro x
        rw [PeerManager.get_heartbeat, hnet]
        split
        · rename_i hx
          rw [hx, merge_merge]
        · rfl
      have hbyAddr := m.byAddr_heartbeat info.peerId host addr info.networkId
      rcases ih (m.heartbeat info.peerId host addr info.networkId) with
        ⟨x, hx, hsource, hget⟩ | ⟨hnone, hget, hheld⟩
      · rw [hmerge] at hsource
        exact Or.inl ⟨x, List.mem_cons_of_mem _ hx, hsource, hget⟩
      · rw [hbyAddr, hnet] at hget hheld
        by_cases hkey : (PeerManager.merge (m.get info.peerId) ⟨addr, host, network⟩).source = key
        · refine Or.inl ⟨info.peerId, List.mem_cons_self, hkey, ?_⟩
          rw [hnet, hget, hkey, TtlCache.get_insert, if_pos rfl]
        · refine Or.inr ⟨?_, ?_, fun hk => ?_⟩
          · intro x hx
            rcases List.mem_cons.mp hx with rfl | hx
            · exact hkey
            · rw [← hmerge]
              exact hnone x hx
          · rw [hnet, hget, TtlCache.get_insert, if_neg (Ne.symm hkey)]
          · rw [hnet] at hk
            exact (TtlCache.holds_insert.mp (hheld hk)).resolve_left (Ne.symm hkey)
    · rw [if_pos hnet, List.filter_cons_of_neg (by simpa using hnet)]
      exact ih m

namespace Timed

variable (env : Env) (ttl : Nat)

/-- One of the events is a report from `key.1`, accepted for `key.2`, that lists `x` there. -/
def Registered (es : List Event) (key : SocketAddr × NetworkId) (x : PeerId) : Prop :=
  ∃ act host, .task act ∈ es ∧ ReportFrom env key.1 key.2 host act ∧ x ∈ listedIn key.2 host

/-- All reports from one address for one network list one peer. -/
def SoleSources (es : List Event) : Prop :=
  ∀ key x y, Registered env es key x → Registered env es key y → x = y

structure Hinted (es : List Event) (s : Timed) : Prop where
  times : s.derper.manager.byAddr.Timely ttl s.now s.addrsAt
  entries : ∀ x e, s.derper.manager.get x = some e → Registered env es e.source x
  hints : ∀ key x, s.derper.manager.byAddr.get key = some x → Registered env es key x
  backed : ∀ x e, s.derper.manager.get x = some e →
    (s.derper.manager.byAddr.get e.source).isSome = true ∧ s.peersAt x ≤ s.addrsAt e.source

variable {env ttl}

theorem Registered.concat {es : List Event} {key : SocketAddr × NetworkId} {x : PeerId}
    (h : Registered env es key x) (e : Event) : Registered env (es ++ [e]) key x := by
  obtain ⟨act, host, hact, hrest⟩ := h
  exact ⟨act, host, List.mem_append_left _ hact, hrest⟩

theorem mem_hinted {m : PeerManager} {xs : List PeerId} {key : SocketAddr × NetworkId} :
    key ∈ hinted m xs ↔ ∃ x ∈ xs, ∃ e, m.get x = some e ∧ e.source = key := by
  simp [hinted, PeerEntry.source]

/-- Everything that changes no hint and no entry, and only lets some of them go. -/
theorem Hinted.quiet {es : List Event} {s t : Timed} (h : Hinted env ttl es s) (e : Event)
    (hpeers : ∀ x, t.derper.manager.get x = s.derper.manager.get x)
    (haddrs : ∀ key, t.derper.manager.byAddr.get key = s.derper.manager.byAddr.get key)
    (hheld : ∀ key, t.derper.manager.byAddr.Holds key → s.derper.manager.byAddr.Holds key)
    (hnow : t.now = s.now) (hpeersAt : t.peersAt = s.peersAt) (haddrsAt : t.addrsAt = s.addrsAt) :
    Hinted env ttl (es ++ [e]) t where
  times key hkey := by
    rw [haddrs, hnow, haddrsAt]
    exact h.times key (hheld key hkey)
  entries x d hd := (h.entries x d (hpeers x ▸ hd)).concat e
  hints key x hx := (h.hints key x (haddrs key ▸ hx)).concat e
  backed x d hd := by
    rw [haddrs, hpeersAt, haddrsAt]
    exact h.backed x d (hpeers x ▸ hd)

theorem Hinted.advance {es : List Event} {s : Timed} (h : Hinted env ttl es s)
    (hpeers : s.derper.manager.peers.Timely ttl s.now s.peersAt) (delta : Nat) :
    Hinted env ttl (es ++ [.advance delta]) (s.step env ttl (.advance delta)) := by
  have hmanager := derper_advance env ttl s delta
  have hyounger := hpeers.advance (Nat.le_add_right s.now delta)
  have hget : ∀ x e, (s.step env ttl (.advance delta)).derper.manager.get x = some e →
      s.derper.manager.get x = some e := by
    intro x e hx
    rw [hmanager, PeerManager.get, TtlCache.get_expireAll] at hx
    split at hx
    · cases hx
    · exact hx
  have htimes : (s.step env ttl (.advance delta)).derper.manager.byAddr.Timely ttl (s.now + delta)
      s.addrsAt := by
    rw [hmanager]
    exact h.times.advance (Nat.le_add_right _ _)
  refine ⟨htimes, fun x e he => (h.entries x e (hget x e he)).concat _, fun key x hx => ?_,
    fun x e he => ?_⟩
  · rw [hmanager, TtlCache.get_expireAll] at hx
    split at hx
    · cases hx
    · exact (h.hints key x hx).concat _
  · obtain ⟨hhint, hle⟩ := h.backed x e (hget x e he)
    refine ⟨?_, hle⟩
    -- the hint is held, and it is not older than the entry
    obtain ⟨y, hy⟩ := Option.isSome_iff_exists.mp hhint
    have hheld : (s.step env ttl (.advance delta)).derper.manager.byAddr.Holds e.source := by
      rw [hmanager, TtlCache.holds_expireAll]
      exact TtlCache.Holds.of_get hy
    rw [htimes _ hheld]
    rw [hmanager] at he
    have hyoung := (hyounger x (TtlCache.Holds.of_get he)).mp (Option.isSome_iff_exists.mpr ⟨e, he⟩)
    exact Nat.lt_of_lt_of_le hyoung (Nat.add_le_add_right hle ttl)

section

variable {es : List Event} {s : Timed} {act : Derp.Event} {addr : SocketAddr} {network : NetworkId}
  {host : HostInfo}

theorem heartbeats_report (hreport : ReportFrom env addr network host act) :
    heartbeats env act = listedIn network host := by
  rw [heartbeats, reportOf_eq_some.mpr hreport]

theorem manager_report (hreport : ReportFrom env addr network host act) :
    (s.step env ttl (.task act)).derper.manager = handleReport s.derper.manager addr network host := by
  have htask : Untimed act := by
    obtain ⟨now, data, packet, rfl, -⟩ := hreport
    trivial
  rw [(derper_task env ttl s act).1 htask, step_of_reportFrom hreport]

theorem get_report (hreport : ReportFrom env addr network host act) (x : PeerId) :
    (s.step env ttl (.task act)).derper.manager.get x =
      if x ∈ listedIn network host then
        some (PeerManager.merge (s.derper.manager.get x) ⟨addr, host, network⟩)
      else s.derper.manager.get x := by
  rw [manager_report hreport, get_handleReport]
  exact if_congr mem_listedIn.symm rfl rfl

theorem mem_hinted_report (hreport : ReportFrom env addr network host act)
    {key : SocketAddr × NetworkId} :
    key ∈ hinted (s.step env ttl (.task act)).derper.manager (heartbeats env act) ↔
      ∃ x ∈ listedIn network host,
        (PeerManager.merge (s.derper.manager.get x) ⟨addr, host, network⟩).source = key := by
  rw [mem_hinted, heartbeats_report hreport]
  refine exists_congr fun x => and_congr_right fun hx => ?_
  rw [get_report hreport, if_pos hx]
  constructor
  · rintro ⟨e, he, hsource⟩
    exact Option.some.inj he ▸ hsource
  · exact fun hsource => ⟨_, rfl, hsource⟩

/-- A report inserts the hint for the address of each listed peer's entry, and no other hint. -/
theorem hint_report (hreport : ReportFrom env addr network host act) (key : SocketAddr × NetworkId) :
    ((s.step env ttl (.task act)).addrsAt key = s.now ∧ ∃ x ∈ listedIn network host,
      (PeerManager.merge (s.derper.manager.get x) ⟨addr, host, network⟩).source = key ∧
        (s.step env ttl (.task act)).derper.manager.byAddr.get key = some x) ∨
    ((s.step env ttl (.task act)).addrsAt key = s.addrsAt key ∧
      (∀ x ∈ listedIn network host,
        (PeerManager.merge (s.derper.manager.get x) ⟨addr, host, network⟩).source ≠ key) ∧
      (s.step env ttl (.task act)).derper.manager.byAddr.get key = s.derper.manager.byAddr.get key ∧
      ((s.step env ttl (.task act)).derper.manager.byAddr.Holds key →
        s.derper.manager.byAddr.Holds key)) := by
  have haddrsAt : (s.step env ttl (.task act)).addrsAt key =
      if key ∈ hinted (s.step env ttl (.task act)).derper.manager (heartbeats env act) then s.now
      else s.addrsAt key := rfl
  have hmanager : (s.step env ttl (.task act)).derper.manager =
      handleReport s.derper.manager addr network host := manager_report hreport
  have hmem : key ∈ hinted (s.step env ttl (.task act)).derper.manager (heartbeats env act) ↔ _ :=
    mem_hinted_report hreport
  rw [hmanager] at hmem
  rw [haddrsAt, hmanager]
  rcases byAddr_handleReport s.derper.manager addr network host key with
    ⟨x, hx, hsource, hkey⟩ | ⟨hnone, hkey, hheld⟩
  · exact Or.inl ⟨if_pos (hmem.mpr ⟨x, hx, hsource⟩), x, hx, hsource, hkey⟩
  · refine Or.inr ⟨if_neg fun h => ?_, hnone, hkey, hheld⟩
    obtain ⟨x, hx, hsource⟩ := hmem.mp h
    exact hnone x hx hsource

/-- The entry of a listed peer is the report's or the one from before. -/
theorem Hinted.registered_report (h : Hinted env ttl es s)
    (hreport : ReportFrom env addr network host act) {x : PeerId} {e : PeerEntry}
    (he : (s.step env ttl (.task act)).derper.manager.get x = some e) :
    Registered env (es ++ [.task act]) e.source x := by
  rw [get_report hreport] at he
  split at he
  · rename_i hx
    have hnew : Registered env (es ++ [.task act]) (addr, network) x :=
      ⟨act, host, List.mem_append_right _ List.mem_cons_self, hreport, hx⟩
    obtain rfl := Option.some.inj he
    cases hold : s.derper.manager.get x with
    | none => exact hnew
    | some prev =>
      rw [PeerManager.merge]
      split
      · exact (h.entries x prev hold).concat _
      · exact hnew
  · exact (h.entries x e he).concat _

/-- An accepted report. -/
theorem Hinted.report (hpos : 0 < ttl) (h : Hinted env ttl es s) (hage : ∀ x, s.peersAt x ≤ s.now)
    (hreport : ReportFrom env addr network host act) :
    Hinted env ttl (es ++ [.task act]) (s.step env ttl (.task act)) := by
  have hpeersAt : ∀ x, (s.step env ttl (.task act)).peersAt x =
      if x ∈ listedIn network host then s.now else s.peersAt x := by
    intro x
    rw [← heartbeats_report hreport]
    rfl
  refine ⟨h.times.insert hpos fun key => ?_, fun x e => h.registered_report hreport,
    fun key x hx => ?_, fun x e he => ?_⟩
  · rcases hint_report hreport key with ⟨htime, y, -, -, hkey⟩ | ⟨htime, -, hkey, hheld⟩
    · exact Or.inl ⟨Option.isSome_iff_exists.mpr ⟨y, hkey⟩, htime⟩
    · exact Or.inr ⟨hheld, hkey, htime⟩
  · rcases hint_report hreport key with ⟨-, y, hy, hsource, hkey⟩ | ⟨-, -, hkey, -⟩
    · obtain rfl := Option.some.inj (hkey.symm.trans hx)
      rw [← hsource]
      exact h.registered_report hreport ((get_report hreport y).trans (if_pos hy))
    · exact (h.hints key x (hkey.symm.trans hx)).concat _
  · rcases hint_report hreport e.source with ⟨htime, y, -, -, hkey⟩ | ⟨htime, hnone, hkey, -⟩
    · refine ⟨Option.isSome_iff_exists.mpr ⟨y, hkey⟩, ?_⟩
      rw [hpeersAt, htime]
      split
      · exact Nat.le_refl _
      · exact hage x
    · -- a listed peer's entry would have got a hint
      have hx : x ∉ listedIn network host := by
        intro hx
        rw [get_report hreport, if_pos hx] at he
        exact hnone x hx (congrArg PeerEntry.source (Option.some.inj he))
      rw [get_report hreport, if_neg hx] at he
      rw [hkey, hpeersAt, if_neg hx, htime]
      exact h.backed x e he

end

/-- What is no report changes no hint. -/
theorem byAddr_task {act : Derp.Event} (htime : Untimed act) (hnone : reportOf env act = none)
    (s : State) (key : SocketAddr × NetworkId) :
    (Derp.step env s act).manager.byAddr.get key = s.manager.byAddr.get key ∧
      ((Derp.step env s act).manager.byAddr.Holds key → s.manager.byAddr.Holds key) := by
  cases act with
  | recv now addr data =>
    rw [step_of_reportOf_eq_none hnone]
    exact ⟨rfl, id⟩
  | expire x => exact absurd htime id
  | expireAddr key => exact absurd htime id
  | remove x => exact absurd htime id
  | evict x => exact ⟨rfl, id⟩
  | evictAddr key' => exact ⟨TtlCache.get_evict _ _ _, TtlCache.Holds.of_evict⟩
  | sync peers =>
    simp only [Derp.step, stepOut]
    split <;> exact ⟨rfl, id⟩
  | send index =>
    simp only [Derp.step, stepOut]
    split <;> exact ⟨rfl, id⟩
  | gone peers =>
    simp only [Derp.step, stepOut]
    split
    · split <;> exact ⟨rfl, id⟩
    · exact ⟨rfl, id⟩
  | bury =>
    simp only [Derp.step, stepOut]
    split <;> exact ⟨rfl, id⟩

theorem Hinted.task {es : List Event} {s : Timed} (hpos : 0 < ttl) (h : Hinted env ttl es s)
    (hage : ∀ x, s.peersAt x ≤ s.now) (act : Derp.Event) :
    Hinted env ttl (es ++ [.task act]) (s.step env ttl (.task act)) := by
  cases hr : reportOf env act with
  | some r =>
    obtain ⟨addr, network, host⟩ := r
    exact h.report hpos hage (reportOf_eq_some.mp hr)
  | none =>
    have hxs : heartbeats env act = [] := by rw [heartbeats, hr]
    have htable := tableStep_act env ttl s act
    rw [hxs] at htable
    have hbyAddr : ∀ key, (s.step env ttl (.task act)).derper.manager.byAddr.get key =
          s.derper.manager.byAddr.get key ∧
        ((s.step env ttl (.task act)).derper.manager.byAddr.Holds key →
          s.derper.manager.byAddr.Holds key) := by
      intro key
      by_cases htime : Untimed act
      · rw [(derper_task env ttl s act).1 htime]
        exact byAddr_task htime hr s.derper key
      · rw [((derper_task env ttl s act).2 htime).2]
        exact ⟨rfl, id⟩
    refine h.quiet _ (fun x => (htable.kept x List.not_mem_nil).2) (fun key => (hbyAddr key).1)
      (fun key => (hbyAddr key).2) rfl ?_ ?_
    · simp [step, hxs]
    · simp [step, hxs, hinted]

theorem hinted_run (env : Env) {ttl : Nat} (hpos : 0 < ttl) (es : List Event) :
    Hinted env ttl es (run env ttl es) ∧ ∀ x, (run env ttl es).peersAt x ≤ (run env ttl es).now := by
  induction es using List.reverseRecOn with
  | nil =>
    have hentries : ∀ x d, (run env ttl []).derper.manager.get x ≠ some d := by
      intro x d h
      cases h
    have hhints : ∀ key x, (run env ttl []).derper.manager.byAddr.get key ≠ some x := by
      intro key x h
      cases h
    exact ⟨⟨TtlCache.timely_empty, fun x d h => absurd h (hentries x d),
      fun key x h => absurd h (hhints key x), fun x d h => absurd h (hentries x d)⟩,
      fun x => Nat.le_refl 0⟩
  | append_singleton es e ih =>
    obtain ⟨h, hage⟩ := ih
    rw [run_concat]
    cases e with
    | task act =>
      refine ⟨h.task hpos hage act, fun x => ?_⟩
      simp only [step]
      split
      · exact Nat.le_refl _
      · exact hage x
    | advance delta =>
      refine ⟨h.advance (clocked_run env hpos es).peers delta, fun x => ?_⟩
      exact Nat.le_trans (hage x) (Nat.le_add_right _ _)
    | sweep =>
      obtain ⟨hpeers, -, hbyAddr⟩ := derper_sweep env ttl (run env ttl es)
      refine ⟨h.quiet _ (fun x => (hpeers.kept x List.not_mem_nil).2) ?_ ?_ rfl rfl rfl, hage⟩
      · intro key
        rw [hbyAddr, TtlCache.get_evictAll]
      · intro key hkey
        rw [hbyAddr, TtlCache.holds_evictAll] at hkey
        exact hkey.1

/-- The relay knows every live peer. In every run of the derper with a clock in which all reports from
one address for one network list one peer, a `Forward` from the address of a live peer to a live peer
of its network is relayed: the derper sends exactly one packet, to the address of the other, and its
bytes are those of a `Delivery` from the sender. -/
theorem live_is_relayed (env : Env) (ttl : Nat) (hpos : 0 < ttl) (es : List Event)
    (hsole : SoleSources env es) (x y : PeerId) (e target : PeerEntry)
    (hx : (run env ttl es).derper.manager.get x = some e)
    (hy : (run env ttl es).derper.manager.get y = some target) (hnetwork : e.network = target.network)
    (datagram : List UInt8) (hsize : PacketHeader.len + datagram.length < maxPacketLen)
    (now : UInt64) :
    ∃ relayed, relayed.inner = (NoeioPacket.new ⟨.delivery, x, 0⟩ datagram).inner ∧
      sends env (run env ttl es).derper
          (.recv now e.addr (NoeioPacket.new ⟨.forward, y, 0⟩ datagram).inner) =
        [.packet target.addr relayed] := by
  obtain ⟨h, -⟩ := hinted_run env hpos es
  obtain ⟨z, hz⟩ := Option.isSome_iff_exists.mp (h.backed x e hx).1
  obtain rfl := hsole _ _ _ (h.hints _ z hz) (h.entries x e hx)
  have hstamped : (run env ttl es).derper.manager.peerIdByAddr e.addr target.network = some z := by
    rw [PeerEntry.source, hnetwork] at hz
    have hlive : (run env ttl es).derper.manager.peers.get z = some e := hx
    simp [PeerManager.peerIdByAddr, hz, hlive, hnetwork]
  exact sends_forward hy hstamped hsize now

end Timed

namespace Timed.Sample

open Derp.Sample

/-- Without time passing, the clock makes no difference. -/
theorem derper_tasks {es : List Derp.Event} (h : ∀ act ∈ es, Untimed act) :
    (run env heartbeatTtl (es.map .task)).derper = Derp.run env es := by
  induction es using List.reverseRecOn with
  | nil => rfl
  | append_singleton es act ih =>
    rw [List.map_append, List.map_singleton, Timed.run_concat,
      (derper_task _ _ _ act).1 (h act (by simp)), ih fun a ha => h a (List.mem_append_left _ ha),
      Derp.run_concat]

theorem derper_registered :
    (run env heartbeatTtl (registered.map .task)).derper = ⟨table, [], []⟩ := by
  rw [derper_tasks, run_registered]
  intro act hact
  simp only [registered, List.mem_cons, List.not_mem_nil, or_false] at hact
  rcases hact with rfl | rfl <;> trivial

theorem registered_cases {key : SocketAddr × NetworkId} {x : PeerId}
    (h : Registered env (registered.map .task) key x) :
    (key = (addr 1000, networkA) ∧ x = 1) ∨ (key = (addr 2000, networkA) ∧ x = 2) := by
  obtain ⟨act, host, hact, hreport, hx⟩ := h
  obtain ⟨act', hmem, heq⟩ := List.mem_map.mp hact
  obtain rfl := Event.task.inj heq
  simp only [registered, List.mem_cons, List.not_mem_nil, or_false] at hmem
  rcases hmem with rfl | rfl
  · obtain ⟨haddr, hnetwork, rfl⟩ :=
      hreport.unique (reportFrom_report hostInfo_textOne (by decide +kernel) 1000 1)
    rw [hnetwork] at hx
    exact Or.inl ⟨Prod.ext haddr hnetwork, List.mem_singleton.mp hx⟩
  · obtain ⟨haddr, hnetwork, rfl⟩ :=
      hreport.unique (reportFrom_report hostInfo_textTwo (by decide +kernel) 2000 2)
    rw [hnetwork] at hx
    exact Or.inr ⟨Prod.ext haddr hnetwork, List.mem_singleton.mp hx⟩

theorem live_is_relayed_registered :
    ∃ relayed, relayed.inner = (NoeioPacket.new ⟨.delivery, 1, 0⟩ [8, 9]).inner ∧
      sends env (run env heartbeatTtl (registered.map .task)).derper
          (.recv 0 (addr 1000) (NoeioPacket.new ⟨.forward, 2, 0⟩ [8, 9]).inner) =
        [.packet (addr 2000) relayed] := by
  have hsole : SoleSources env (registered.map .task) := by
    intro key x y hx hy
    rcases registered_cases hx with ⟨rfl, rfl⟩ | ⟨rfl, rfl⟩ <;>
      rcases registered_cases hy with ⟨hkey, rfl⟩ | ⟨hkey, rfl⟩
    · rfl
    · exact absurd hkey (by decide)
    · exact absurd hkey (by decide)
    · rfl
  exact live_is_relayed env heartbeatTtl (by decide) (registered.map .task) hsole 1 2
    ⟨addr 1000, hostOne, networkA⟩ ⟨addr 2000, hostTwo, networkA⟩
    (by rw [derper_registered]; decide +kernel) (by rw [derper_registered]; decide +kernel) rfl [8, 9]
    (by decide) 0

end Timed.Sample

end Noeio.Derp
