import Noeio.Derp.Relay
import Noeio.Lib.TimeToLive

/-!
# How long a peer lives

The derper with a clock. `Connection` lets any entry expire at any time. Here an entry expires when
`HEARTBEAT_TTL` has passed since it was inserted, and the sweeper removes what has expired, every
`SWEEP_INTERVAL` (`noeio-derp/src/connection.rs` and `connection/peer.rs`). A timed event is a list of
events of the derper (`acts`), so whatever holds of every run of the derper holds of every timed one.

`alive_iff_recent` says what the clock adds: a peer is alive exactly while its last accepted report is
younger than the time to live; only a peer whose reports stopped for that long is queued as gone; and
one whose reports stopped is out of the table and queued as gone one sweep interval later at most.

The cache may also do its maintenance on its own at any time (`evict`); `remove` is never called.
-/

namespace Noeio.Derp

/-- Milliseconds, as `sweepInterval`. -/
def heartbeatTtl : Nat := 60000

def sweepInterval : Nat := 10000

/-! ## Reports -/

/-- The report in a datagram, if it is accepted. -/
def reportOf (env : Env) : Event → Option (SocketAddr × NetworkId × HostInfo)
  | .recv now addr data =>
    match handleUdpRecv data addr with
    | .ok packet =>
      if packet.packetType = .report then
        (acceptReport env now packet).map fun (network, host) => (addr, network, host)
      else none
    | .error _ => none
  | _ => none

/-- The peers for which a report is a heartbeat. -/
def listedIn (network : NetworkId) (host : HostInfo) : List PeerId :=
  (host.peers.filter (·.networkId = network)).map (·.peerId)

def heartbeats (env : Env) (e : Event) : List PeerId :=
  match reportOf env e with
  | some (_, network, host) => listedIn network host
  | none => []

theorem reportOf_eq_some {env : Env} {e : Event} {addr : SocketAddr} {network : NetworkId}
    {host : HostInfo} :
    reportOf env e = some (addr, network, host) ↔ ReportFrom env addr network host e := by
  constructor
  · intro h
    unfold reportOf at h
    split at h
    · rename_i now a data
      split at h
      · rename_i packet hu
        split at h
        · rename_i ht
          obtain ⟨⟨n, info⟩, ha, heq⟩ := Option.map_eq_some_iff.mp h
          obtain ⟨rfl, hrest⟩ := Prod.mk.inj heq
          obtain ⟨rfl, rfl⟩ := Prod.mk.inj hrest
          exact ⟨now, data, packet, rfl, hu, ht, ha⟩
        · cases h
      · cases h
    · cases h
  · rintro ⟨now, data, packet, rfl, hu, ht, ha⟩
    simp [reportOf, hu, ht, ha]

theorem mem_listedIn {network : NetworkId} {host : HostInfo} {x : PeerId} :
    x ∈ listedIn network host ↔ ∃ info ∈ host.peers, info.networkId = network ∧ info.peerId = x := by
  simp [listedIn, and_assoc]

/-! ## What leaves the table

Of what the table holds, only expired entries leave it, and each is queued as gone. -/

namespace PeerManager

/-- The queue grows by `new` from `m` to `m'`: peers that had expired, among them every peer that is
not held any more. -/
structure Reaps (m m' : PeerManager) (new : List Gone) : Prop where
  gone : m'.gone = m.gone ++ new
  expired : ∀ g ∈ new, m.peers.Holds g.peerId ∧ m.get g.peerId = none
  buried : ∀ x, m.peers.Holds x → ¬ m'.peers.Holds x → ∃ g ∈ new, g.peerId = x

theorem Reaps.quiet {m m' : PeerManager} (hgone : m'.gone = m.gone) (hpeers : m'.peers = m.peers) :
    Reaps m m' [] where
  gone := by rw [hgone, List.append_nil]
  expired g hg := nomatch hg
  buried x hx hx' := absurd (hpeers ▸ hx) hx'

theorem Reaps.trans {m m₁ m₂ : PeerManager} {a b : List Gone} (h : Reaps m m₁ a) (h' : Reaps m₁ m₂ b)
    (hexpired : ∀ x, m₁.peers.Holds x → m₁.get x = none → m.peers.Holds x ∧ m.get x = none) :
    Reaps m m₂ (a ++ b) where
  gone := by rw [h'.gone, h.gone, List.append_assoc]
  expired g hg := by
    rcases List.mem_append.mp hg with hg | hg
    · exact h.expired g hg
    · obtain ⟨hheld, hnone⟩ := h'.expired g hg
      exact hexpired _ hheld hnone
  buried x hx hx' := by
    by_cases hmid : m₁.peers.Holds x
    · obtain ⟨g, hg, hid⟩ := h'.buried x hmid hx'
      exact ⟨g, List.mem_append_right _ hg, hid⟩
    · obtain ⟨g, hg, hid⟩ := h.buried x hx hmid
      exact ⟨g, List.mem_append_left _ hg, hid⟩

theorem reaps_evict (m : PeerManager) (x : PeerId) :
    Reaps m (m.evict x) (evictionListener (m.peers.evictRemoval x)) where
  gone := rfl
  expired g hg := by
    obtain ⟨r, hr, rfl⟩ := mem_evictionListener hg
    obtain ⟨hkey, -⟩ := TtlCache.evictRemoval_stored hr
    unfold TtlCache.evictRemoval at hr
    split at hr
    · rename_i v hv
      rw [hkey]
      exact ⟨by simp [TtlCache.Holds, hv], by simp [get, TtlCache.get, hv]⟩
    · cases hr
  buried y hy hy' := by
    rw [evict, TtlCache.holds_evict] at hy'
    obtain ⟨rfl, hnone⟩ : y = x ∧ m.peers.get y = none := by
      by_contra hnot
      exact hy' ⟨hy, hnot⟩
    obtain ⟨v, hv | hv⟩ := TtlCache.holds_iff_stored.mp hy
    · rw [TtlCache.get_eq_some.mpr hv] at hnone
      cases hnone
    · refine ⟨⟨y, v.info, v.network⟩, ?_, rfl⟩
      simp [TtlCache.evictRemoval, hv, evictionListener]

theorem reaps_heartbeat (m : PeerManager) (x : PeerId) (info : HostInfo) (addr : SocketAddr)
    (network : NetworkId) :
    Reaps m (m.heartbeat x info addr network) (evictionListener (m.peers.insertRemoval x)) where
  gone := by
    rcases heartbeat_cases m x info addr network with ⟨prev, -, -, heq⟩ | ⟨-, heq⟩ <;>
    · rw [heq]
      rfl
  expired g hg := by
    unfold TtlCache.insertRemoval at hg
    split at hg
    · cases hg
    · rename_i v hv
      obtain rfl := List.mem_singleton.mp hg
      exact ⟨by simp [TtlCache.Holds, hv], by simp [get, TtlCache.get, hv]⟩
    · cases hg
  buried y hy hy' := absurd (holds_heartbeat.mpr (Or.inr hy)) hy'

end PeerManager

theorem reaps_handleReport (m : PeerManager) (addr : SocketAddr) (network : NetworkId)
    (host : HostInfo) : ∃ new, m.Reaps (handleReport m addr network host) new := by
  unfold handleReport
  generalize host.peers = infos
  induction infos generalizing m with
  | nil => exact ⟨[], .quiet rfl rfl⟩
  | cons info infos ih =>
    rw [List.foldl_cons]
    split
    · exact ih m
    · obtain ⟨new, hnew⟩ := ih (m.heartbeat info.peerId host addr info.networkId)
      refine ⟨_, (PeerManager.reaps_heartbeat m _ _ _ _).trans hnew fun x hx hnone => ?_⟩
      -- the peer of the heartbeat is alive now
      rw [PeerManager.get_heartbeat] at hnone
      split at hnone
      · cases hnone
      · rename_i hne
        exact ⟨(PeerManager.holds_heartbeat.mp hx).resolve_left hne, hnone⟩

/-- A datagram that is no accepted report leaves the state as it is. -/
theorem step_of_reportOf_eq_none {env : Env} {now : UInt64} {addr : SocketAddr} {data : List UInt8}
    (h : reportOf env (.recv now addr data) = none) (s : State) :
    step env s (.recv now addr data) = s := by
  rcases step_recv env s now addr data with ⟨network, host, hrep, -⟩ | heq
  · rw [reportOf_eq_some.mpr hrep] at h
    cases h
  · exact heq

/-- An event whose moment is not for the clock to decide. -/
def Untimed : Event → Prop
  | .expire _ | .expireAddr _ | .remove _ => False
  | _ => True

/-- From `s` to `t` the peers `xs` are refreshed and all others stay as they were. What leaves the
table is queued, or the first of the queue is taken. -/
structure TableStep (s t : State) (xs : List PeerId) : Prop where
  refreshed : ∀ x ∈ xs, (t.manager.get x).isSome = true
  kept : ∀ x, x ∉ xs → (t.manager.peers.Holds x → s.manager.peers.Holds x) ∧
    t.manager.get x = s.manager.get x
  queue : (∃ new, s.manager.Reaps t.manager new) ∨
    ∃ dead, s.manager.gone = dead :: t.manager.gone ∧ t.manager.peers = s.manager.peers

theorem TableStep.quiet {s t : State} (hpeers : t.manager.peers = s.manager.peers)
    (hgone : t.manager.gone = s.manager.gone) : TableStep s t [] where
  refreshed x hx := nomatch hx
  kept x _ := by
    rw [PeerManager.get, hpeers]
    exact ⟨id, rfl⟩
  queue := Or.inl ⟨[], .quiet hgone hpeers⟩

theorem tableStep_task (env : Env) (s : State) {e : Event} (htime : Untimed e) :
    TableStep s (step env s e) (heartbeats env e) := by
  cases e with
  | recv now addr data =>
    cases hr : reportOf env (.recv now addr data) with
    | none =>
      have hxs : heartbeats env (.recv now addr data) = [] := by rw [heartbeats, hr]
      rw [step_of_reportOf_eq_none hr, hxs]
      exact .quiet rfl rfl
    | some r =>
      obtain ⟨a, network, host⟩ := r
      have hxs : heartbeats env (.recv now addr data) = listedIn network host := by
        rw [heartbeats, hr]
      rw [hxs, step_of_reportFrom (reportOf_eq_some.mp hr)]
      refine ⟨fun x hx => ?_, fun x hx => ?_, Or.inl (reaps_handleReport _ _ _ _)⟩
      · rw [get_handleReport, if_pos (mem_listedIn.mp hx)]
        rfl
      · rw [get_handleReport, if_neg fun hl => hx (mem_listedIn.mpr hl)]
        refine ⟨fun hh => ?_, rfl⟩
        exact (holds_handleReport.mp hh).resolve_left fun hl => hx (mem_listedIn.mpr hl)
  | expire x => exact absurd htime id
  | expireAddr key => exact absurd htime id
  | remove x => exact absurd htime id
  | evict x =>
    refine ⟨fun _ h => absurd h List.not_mem_nil, fun y _ => ⟨fun hh => ?_, ?_⟩,
      Or.inl ⟨_, PeerManager.reaps_evict _ x⟩⟩
    · exact TtlCache.Holds.of_evict hh
    · exact TtlCache.get_evict _ _ _
  | evictAddr key => exact .quiet rfl rfl
  | sync peers =>
    refine .quiet ?_ ?_ <;>
    · simp only [step, stepOut]
      split <;> rfl
  | send index =>
    refine .quiet ?_ ?_ <;>
    · simp only [step, stepOut]
      split <;> rfl
  | gone peers =>
    by_cases hen : ∃ dead rest, s.burying = [] ∧ s.manager.gone = dead :: rest ∧
        peers.Perm s.manager.alivePeers
    · obtain ⟨dead, rest, hb, hg, hperm⟩ := hen
      have hstep : step env s (.gone peers) =
          { s with manager := { s.manager with gone := rest }, burying := tombstones peers dead } := by
        simp [step, stepOut, hb, hg, hperm]
      rw [hstep]
      exact ⟨fun _ h => absurd h List.not_mem_nil, fun y _ => ⟨id, rfl⟩, Or.inr ⟨dead, hg, rfl⟩⟩
    · have hstep : step env s (.gone peers) = s := by
        simp only [step, stepOut]
        split
        · rename_i dead rest hb hg
          rw [if_neg fun hperm => hen ⟨dead, rest, hb, hg, hperm⟩]
        · rfl
      rw [hstep]
      exact .quiet rfl rfl
  | bury =>
    refine .quiet ?_ ?_ <;>
    · simp only [step, stepOut]
      split <;> rfl

/-! ## The derper with a clock -/

structure Timed where
  derper : State
  now : Nat
  /-- When the entry of each peer was inserted last. -/
  peersAt : PeerId → Nat
  addrsAt : SocketAddr × NetworkId → Nat
  sweptAt : Nat

namespace Timed

inductive Event where
  /-- A task of the derper, or the cache on its own, takes a step. -/
  | task (e : Derp.Event)
  | advance (delta : Nat)
  /-- The sweeper runs the maintenance of both caches. -/
  | sweep

def new : Timed := ⟨.new, 0, fun _ => 0, fun _ => 0, 0⟩

variable (env : Env) (ttl : Nat)

/-- The hints that a report has inserted: where the table now has the peers it lists. -/
def hinted (m : PeerManager) (xs : List PeerId) : List (SocketAddr × NetworkId) :=
  xs.filterMap fun x => (m.get x).map fun entry => (entry.addr, entry.network)

/-- The events of the derper that make up a timed event. -/
def acts (s : Timed) : Event → List Derp.Event
  -- time decides what expires
  | .task (.expire _) | .task (.expireAddr _) | .task (.remove _) => []
  | .task e => [e]
  | .advance delta =>
    (s.derper.manager.peers.due ttl (s.now + delta) s.peersAt).map .expire ++
      (s.derper.manager.byAddr.due ttl (s.now + delta) s.addrsAt).map .expireAddr
  | .sweep =>
    s.derper.manager.peers.overdue.map .evict ++ s.derper.manager.byAddr.overdue.map .evictAddr

def step (s : Timed) (e : Event) : Timed :=
  let derper := Runs.run (Derp.step env) s.derper (s.acts ttl e)
  match e with
  | .task e =>
    let xs := heartbeats env e
    let keys := hinted derper.manager xs
    { s with
      derper
      peersAt := fun x => if x ∈ xs then s.now else s.peersAt x
      addrsAt := fun key => if key ∈ keys then s.now else s.addrsAt key }
  | .advance delta => { s with derper, now := s.now + delta }
  | .sweep => { s with derper, sweptAt := s.now }

def run (es : List Event) : Timed := Runs.run (step env ttl) new es

def duration : Event → Nat
  | .advance delta => delta
  | .task _ | .sweep => 0

/-- The time that has passed. -/
def clock : List Event → Nat
  | [] => 0
  | e :: es => duration e + clock es

/-- The event is an accepted report that lists `x` in the network of its token. -/
def Reports (e : Event) (x : PeerId) : Prop := ∃ act, e = .task act ∧ x ∈ heartbeats env act

/-- The last accepted report of `x` came at the time `t`. -/
def LastReport (es : List Event) (x : PeerId) (t : Nat) : Prop :=
  ∃ pre e post, es = pre ++ e :: post ∧ Reports env e x ∧ clock pre = t ∧
    ∀ e' ∈ post, ¬ Reports env e' x

/-- The sweeper is never late: no more than `interval` passes without a sweep. -/
def Punctual (interval : Nat) (_es : List Event) (s : Timed) (e : Event) : Prop :=
  ∀ delta, e = .advance delta → s.now + delta ≤ s.sweptAt + interval

/-- `g` is queued on the way from `s` to `t`. -/
def Queued (s t : State) (g : Gone) : Prop :=
  ∃ new, t.manager.gone = s.manager.gone ++ new ∧ g ∈ new

/-- `x` was queued as gone after its last report, which came at `t`. -/
def Buried (es : List Event) (x : PeerId) (t : Nat) : Prop :=
  ∃ pre e g, pre ++ [e] <+: es ∧ LastReport env pre x t ∧ g.peerId = x ∧
    Queued (run env ttl pre).derper (run env ttl (pre ++ [e])).derper g

theorem clock_concat (es : List Event) (e : Event) : clock (es ++ [e]) = clock es + duration e := by
  induction es with
  | nil => exact Nat.add_comm _ _
  | cons a es ih => rw [List.cons_append, clock, clock, ih, Nat.add_assoc]

theorem clock_le_append (es es' : List Event) : clock es ≤ clock (es ++ es') := by
  induction es with
  | nil => exact Nat.zero_le _
  | cons a es ih => exact Nat.add_le_add_left ih _

variable {env ttl}

variable (env ttl) in
theorem run_concat (es : List Event) (e : Event) :
    run env ttl (es ++ [e]) = (run env ttl es).step env ttl e :=
  Runs.run_concat _ _ _ _

theorem lastReport_concat {es : List Event} {e : Event} {x : PeerId} {t : Nat} :
    LastReport env (es ++ [e]) x t ↔
      (Reports env e x ∧ t = clock es) ∨ (¬ Reports env e x ∧ LastReport env es x t) := by
  constructor
  · rintro ⟨pre, a, post, heq, ha, rfl, hpost⟩
    rcases List.eq_nil_or_concat' post with rfl | ⟨post, b, rfl⟩
    · obtain ⟨rfl, hae⟩ := List.append_inj' heq rfl
      obtain rfl := List.cons.inj hae |>.1
      exact Or.inl ⟨ha, rfl⟩
    · have hsplit : es ++ [e] = (pre ++ a :: post) ++ [b] := by simp [heq]
      obtain ⟨rfl, hb⟩ := List.append_inj' hsplit rfl
      obtain rfl := List.cons.inj hb |>.1
      refine Or.inr ⟨hpost e (by simp), pre, a, post, rfl, ha, rfl, fun b hb => hpost b ?_⟩
      exact List.mem_append_left _ hb
  · rintro (⟨he, rfl⟩ | ⟨he, pre, a, post, rfl, ha, rfl, hpost⟩)
    · exact ⟨es, e, [], rfl, he, rfl, nofun⟩
    · refine ⟨pre, a, post ++ [e], by simp, ha, rfl, fun b hb => ?_⟩
      rcases List.mem_append.mp hb with hb | hb
      · exact hpost b hb
      · rw [List.mem_singleton.mp hb]
        exact he

theorem Buried.concat {es : List Event} {x : PeerId} {t : Nat} (h : Buried env ttl es x t) (e : Event) :
    Buried env ttl (es ++ [e]) x t := by
  obtain ⟨pre, a, g, hpre, hrest⟩ := h
  exact ⟨pre, a, g, hpre.trans (List.prefix_append _ _), hrest⟩

/-! ## What a timed event does -/

theorem run_expire (env : Env) (s : State) (xs : List PeerId) :
    Runs.run (Derp.step env) s (xs.map .expire) =
      { s with manager := { s.manager with peers := s.manager.peers.expireAll xs } } := by
  induction xs generalizing s with
  | nil => rfl
  | cons x xs ih => exact ih _

theorem run_expireAddr (env : Env) (s : State) (keys : List (SocketAddr × NetworkId)) :
    Runs.run (Derp.step env) s (keys.map .expireAddr) =
      { s with manager := { s.manager with byAddr := s.manager.byAddr.expireAll keys } } := by
  induction keys generalizing s with
  | nil => rfl
  | cons key keys ih => exact ih _

variable (env ttl) in
theorem derper_advance (s : Timed) (delta : Nat) :
    (s.step env ttl (.advance delta)).derper.manager =
      { s.derper.manager with
        peers := s.derper.manager.peers.expireAll
          (s.derper.manager.peers.due ttl (s.now + delta) s.peersAt)
        byAddr := s.derper.manager.byAddr.expireAll
          (s.derper.manager.byAddr.due ttl (s.now + delta) s.addrsAt) } := by
  simp only [step, acts, Runs.run_append, run_expire, run_expireAddr]

theorem run_evictAddr (env : Env) (s : State) (keys : List (SocketAddr × NetworkId)) :
    Runs.run (Derp.step env) s (keys.map .evictAddr) =
      { s with manager :=
          { s.manager with byAddr := s.manager.byAddr.evictAll keys } } := by
  induction keys generalizing s with
  | nil => rfl
  | cons key keys ih => exact ih _

/-- The maintenance of the table, for the peers `xs`: of these, all that have expired leave it. -/
theorem run_evict (env : Env) (s : State) (xs : List PeerId) :
    ∃ m new, Runs.run (Derp.step env) s (xs.map .evict) = { s with manager := m } ∧
      s.manager.Reaps m new ∧ m.byAddr = s.manager.byAddr ∧
      ∀ x, m.get x = s.manager.get x ∧
        (m.peers.Holds x ↔ s.manager.peers.Holds x ∧ ¬ (x ∈ xs ∧ s.manager.get x = none)) := by
  induction xs generalizing s with
  | nil =>
    refine ⟨s.manager, [], rfl, .quiet rfl rfl, rfl, fun x => ⟨rfl, ?_⟩⟩
    simp
  | cons x xs ih =>
    obtain ⟨m, new, hrun, hreaps, haddr, htable⟩ := ih { s with manager := s.manager.evict x }
    have hget : ∀ y, (s.manager.evict x).get y = s.manager.get y := TtlCache.get_evict _ x
    refine ⟨m, _, hrun, (PeerManager.reaps_evict s.manager x).trans hreaps ?_, haddr, fun y => ?_⟩
    · intro y hy hnone
      exact ⟨TtlCache.Holds.of_evict hy, (hget y).symm.trans hnone⟩
    · obtain ⟨hsame, hheld⟩ := htable y
      refine ⟨hsame.trans (hget y), ?_⟩
      have hevict : (s.manager.evict x).peers.Holds y ↔
          s.manager.peers.Holds y ∧ ¬ (y = x ∧ s.manager.get y = none) := TtlCache.holds_evict
      rw [hheld, hget, hevict, List.mem_cons]
      tauto

theorem derper_sweep (env : Env) (ttl : Nat) (s : Timed) :
    TableStep s.derper (s.step env ttl .sweep).derper [] ∧
      (∀ x, (s.step env ttl .sweep).derper.manager.peers.Holds x →
        (s.step env ttl .sweep).derper.manager.get x ≠ none) ∧
      (s.step env ttl .sweep).derper.manager.byAddr =
        s.derper.manager.byAddr.evictAll s.derper.manager.byAddr.overdue := by
  obtain ⟨m, new, hrun, hreaps, haddr, htable⟩ :=
    run_evict env s.derper s.derper.manager.peers.overdue
  have hderper : (s.step env ttl .sweep).derper =
      { s.derper with manager :=
          { m with byAddr := m.byAddr.evictAll s.derper.manager.byAddr.overdue } } := by
    simp only [step, acts, Runs.run_append, hrun, run_evictAddr]
  rw [hderper]
  refine ⟨⟨nofun, fun x _ => ?_, Or.inl ⟨new, hreaps.gone, hreaps.expired, hreaps.buried⟩⟩, ?_, ?_⟩
  · exact ⟨fun hx => ((htable x).2.mp hx).1, (htable x).1⟩
  · intro x hx hnone
    obtain ⟨hheld, hnot⟩ := (htable x).2.mp hx
    rw [PeerManager.get] at hnone
    have hnone' : s.derper.manager.get x = none := (htable x).1.symm.trans hnone
    exact hnot ⟨TtlCache.mem_overdue.mpr ⟨hheld, hnone'⟩, hnone'⟩
  · rw [haddr]

/-- A task takes its step, unless the clock decides. -/
theorem derper_task (env : Env) (ttl : Nat) (s : Timed) (act : Derp.Event) :
    (Untimed act → (s.step env ttl (.task act)).derper = Derp.step env s.derper act) ∧
      (¬ Untimed act →
        reportOf env act = none ∧ (s.step env ttl (.task act)).derper = s.derper) := by
  cases act with
  | expire x => exact ⟨nofun, fun _ => ⟨rfl, rfl⟩⟩
  | expireAddr key => exact ⟨nofun, fun _ => ⟨rfl, rfl⟩⟩
  | remove x => exact ⟨nofun, fun _ => ⟨rfl, rfl⟩⟩
  | recv | evict | evictAddr | sync | send | gone | bury =>
    exact ⟨fun _ => rfl, fun hnot => absurd trivial hnot⟩

theorem tableStep_act (env : Env) (ttl : Nat) (s : Timed) (act : Derp.Event) :
    TableStep s.derper (s.step env ttl (.task act)).derper (heartbeats env act) := by
  by_cases htime : Untimed act
  · rw [(derper_task env ttl s act).1 htime]
    exact tableStep_task env s.derper htime
  · obtain ⟨hnone, hderper⟩ := (derper_task env ttl s act).2 htime
    rw [hderper, heartbeats, hnone]
    exact .quiet rfl rfl

/-! ## The invariant -/

variable (env ttl) in
structure Clocked (es : List Event) (s : Timed) : Prop where
  now : s.now = clock es
  peers : s.derper.manager.peers.Timely ttl s.now s.peersAt
  reported : ∀ x t, LastReport env es x t → s.peersAt x = t
  held : ∀ x, s.derper.manager.peers.Holds x → ∃ t, LastReport env es x t
  buried : ∀ x t, LastReport env es x t → ¬ s.derper.manager.peers.Holds x → Buried env ttl es x t
  swept : s.sweptAt ≤ s.now
  overdue : ∀ x, s.derper.manager.peers.Holds x → s.derper.manager.get x = none →
    s.sweptAt < s.peersAt x + ttl

/-- A step of a task or of the sweeper. -/
theorem Clocked.table {es : List Event} {e : Event} {xs : List PeerId} (hpos : 0 < ttl)
    (h : Clocked env ttl es (run env ttl es))
    (htable : TableStep (run env ttl es).derper (run env ttl (es ++ [e])).derper xs)
    (hxs : ∀ x, x ∈ xs ↔ Reports env e x) (hduration : duration e = 0)
    (hnow : (run env ttl (es ++ [e])).now = (run env ttl es).now)
    (hat : ∀ x, (run env ttl (es ++ [e])).peersAt x =
      if x ∈ xs then (run env ttl es).now else (run env ttl es).peersAt x)
    (hswept : (run env ttl (es ++ [e])).sweptAt ≤ (run env ttl es).now)
    (hoverdue : ∀ x, (run env ttl (es ++ [e])).derper.manager.peers.Holds x →
      (run env ttl (es ++ [e])).derper.manager.get x = none → x ∉ xs →
        (run env ttl (es ++ [e])).sweptAt < (run env ttl es).peersAt x + ttl) :
    Clocked env ttl (es ++ [e]) (run env ttl (es ++ [e])) where
  now := by rw [hnow, h.now, clock_concat, hduration, Nat.add_zero]
  peers := by
    rw [hnow]
    refine h.peers.insert hpos fun x => ?_
    by_cases hx : x ∈ xs
    · exact Or.inl ⟨htable.refreshed x hx, (hat x).trans (if_pos hx)⟩
    · exact Or.inr ⟨(htable.kept x hx).1, (htable.kept x hx).2, (hat x).trans (if_neg hx)⟩
  reported x t hlast := by
    rw [hat]
    rcases lastReport_concat.mp hlast with ⟨he, rfl⟩ | ⟨he, hlast⟩
    · rw [if_pos ((hxs x).mpr he), h.now]
    · rw [if_neg fun hx => he ((hxs x).mp hx)]
      exact h.reported x t hlast
  held x hx := by
    by_cases hin : x ∈ xs
    · exact ⟨_, lastReport_concat.mpr (Or.inl ⟨(hxs x).mp hin, rfl⟩)⟩
    · obtain ⟨t, ht⟩ := h.held x ((htable.kept x hin).1 hx)
      exact ⟨t, lastReport_concat.mpr (Or.inr ⟨fun he => hin ((hxs x).mpr he), ht⟩)⟩
  buried x t hlast hx := by
    rcases lastReport_concat.mp hlast with ⟨he, -⟩ | ⟨he, hlast⟩
    · obtain ⟨v, hv⟩ := Option.isSome_iff_exists.mp (htable.refreshed x ((hxs x).mpr he))
      exact absurd (TtlCache.Holds.of_get hv) hx
    · by_cases hold : (run env ttl es).derper.manager.peers.Holds x
      · rcases htable.queue with ⟨new, hreaps⟩ | ⟨dead, -, hpeers⟩
        · obtain ⟨g, hg, hid⟩ := hreaps.buried x hold hx
          exact ⟨es, e, g, List.prefix_rfl, hlast, hid, new, hreaps.gone, hg⟩
        · rw [hpeers] at hx
          exact absurd hold hx
      · exact (h.buried x t hlast hold).concat e
  swept := by rwa [hnow]
  overdue x hx hnone := by
    by_cases hin : x ∈ xs
    · obtain ⟨v, hv⟩ := Option.isSome_iff_exists.mp (htable.refreshed x hin)
      rw [hv] at hnone
      cases hnone
    · rw [hat, if_neg hin]
      exact hoverdue x hx hnone hin

theorem Clocked.advance {es : List Event} {delta : Nat} (h : Clocked env ttl es (run env ttl es)) :
    Clocked env ttl (es ++ [.advance delta]) (run env ttl (es ++ [.advance delta])) := by
  rw [run_concat]
  have hmanager := derper_advance env ttl (run env ttl es) delta
  have hquiet : ∀ x, ¬ Reports env (.advance delta) x := by
    rintro x ⟨act, heq, -⟩
    cases heq
  have hlast : ∀ x t, LastReport env (es ++ [.advance delta]) x t ↔ LastReport env es x t := by
    intro x t
    rw [lastReport_concat]
    simp [hquiet]
  refine ⟨?_, ?_, fun x t ht => h.reported x t ((hlast x t).mp ht), fun x hx => ?_, ?_, ?_, ?_⟩
  · rw [clock_concat, ← h.now]
    rfl
  · rw [hmanager]
    exact h.peers.advance (Nat.le_add_right _ _)
  · rw [hmanager, TtlCache.holds_expireAll] at hx
    obtain ⟨t, ht⟩ := h.held x hx
    exact ⟨t, (hlast x t).mpr ht⟩
  · intro x t ht hx
    rw [hmanager, TtlCache.holds_expireAll] at hx
    exact (h.buried x t ((hlast x t).mp ht) hx).concat _
  · exact Nat.le_trans h.swept (Nat.le_add_right _ _)
  · intro x hx hnone
    rw [hmanager, TtlCache.holds_expireAll] at hx
    cases hold : (run env ttl es).derper.manager.get x with
    | none => exact h.overdue x hx hold
    | some v =>
      have hyoung := (h.peers x hx).mp (by rw [← PeerManager.get, hold]; rfl)
      exact Nat.lt_of_le_of_lt h.swept hyoung

theorem clocked_run (env : Env) {ttl : Nat} (hpos : 0 < ttl) (es : List Event) :
    Clocked env ttl es (run env ttl es) := by
  induction es using List.reverseRecOn with
  | nil =>
    have hnone : ∀ x t, ¬ LastReport env [] x t := by
      rintro x t ⟨pre, e, post, heq, -⟩
      simp at heq
    exact ⟨rfl, TtlCache.timely_empty, fun x t ht => absurd ht (hnone x t), nofun,
      fun x t ht => absurd ht (hnone x t), Nat.le_refl 0, nofun⟩
  | append_singleton es e ih =>
    cases e with
    | advance delta => exact ih.advance
    | task act =>
      have htable := tableStep_act env ttl (run env ttl es) act
      rw [← run_concat] at htable
      have hstep := run_concat env ttl es (.task act)
      refine ih.table hpos htable ?_ rfl (by rw [hstep]; rfl) ?_ ?_ fun x hx hnone hin => ?_
      · intro x
        constructor
        · exact fun hx => ⟨act, rfl, hx⟩
        · rintro ⟨act', heq, hx⟩
          cases heq
          exact hx
      · intro x
        rw [hstep]
        rfl
      · rw [hstep]
        exact ih.swept
      · obtain ⟨hheld, hsame⟩ := htable.kept x hin
        rw [hstep]
        exact ih.overdue x (hheld hx) (hsame.symm.trans hnone)
    | sweep =>
      obtain ⟨htable, halive, -⟩ := derper_sweep env ttl (run env ttl es)
      rw [← run_concat] at htable halive
      have hstep := run_concat env ttl es .sweep
      refine ih.table hpos htable ?_ rfl (by rw [hstep]; rfl) ?_ ?_ fun x hx hnone _ => ?_
      · intro x
        refine ⟨nofun, ?_⟩
        rintro ⟨act, heq, -⟩
        cases heq
      · intro x
        rw [hstep]
        rfl
      · rw [hstep]
        exact Nat.le_refl _
      · exact absurd hnone (halive x hx)

/-! ## Alive and gone -/

theorem punctual_run {interval : Nat} {es : List Event}
    (hes : Runs.Meets (step env ttl) (Punctual interval) new es) :
    (run env ttl es).now ≤ (run env ttl es).sweptAt + interval := by
  refine Runs.invariant (P := fun _ s => s.now ≤ s.sweptAt + interval) (Nat.zero_le _) ?_ hes
  intro es s e h he
  cases e with
  | task act => exact h
  | advance delta => exact he delta rfl
  | sweep => exact Nat.le_add_right _ _

/-- A peer that is held and not alive had its last report at least the time to live ago. -/
theorem Clocked.stale {es : List Event} (h : Clocked env ttl es (run env ttl es)) {x : PeerId}
    (hheld : (run env ttl es).derper.manager.peers.Holds x)
    (hnone : (run env ttl es).derper.manager.get x = none) :
    ∃ t, LastReport env es x t ∧ t + ttl ≤ clock es := by
  obtain ⟨t, ht⟩ := h.held x hheld
  refine ⟨t, ht, ?_⟩
  have hnot : ¬ (run env ttl es).now < (run env ttl es).peersAt x + ttl := by
    rw [← h.peers x hheld, ← PeerManager.get, hnone]
    simp
  rw [h.reported x t ht, h.now] at hnot
  exact Nat.not_lt.mp hnot

/-- Only what has expired is queued. -/
theorem Clocked.queued {es : List Event} (h : Clocked env ttl es (run env ttl es)) {e : Event} {g : Gone}
    (hqueued : Queued (run env ttl es).derper (run env ttl (es ++ [e])).derper g) :
    ∃ t, LastReport env es g.peerId t ∧ t + ttl ≤ clock es := by
  obtain ⟨new, hgone, hg⟩ := hqueued
  rw [run_concat] at hgone
  have htable : ∀ xs, TableStep (run env ttl es).derper ((run env ttl es).step env ttl e).derper xs →
      ∃ t, LastReport env es g.peerId t ∧ t + ttl ≤ clock es := by
    intro xs htable
    rcases htable.queue with ⟨new', hreaps⟩ | ⟨dead, htake, -⟩
    · obtain rfl := List.append_cancel_left (hgone.symm.trans hreaps.gone)
      obtain ⟨hheld, hnone⟩ := hreaps.expired g hg
      exact h.stale hheld hnone
    · have hlength := congrArg List.length htake
      rw [hgone, List.length_cons, List.length_append] at hlength
      omega
  cases e with
  | task act => exact htable _ (tableStep_act env ttl _ act)
  | sweep => exact htable _ (derper_sweep env ttl _).1
  | advance delta =>
    rw [derper_advance] at hgone
    obtain rfl := List.append_right_eq_self.mp hgone.symm
    cases hg

/-- The life of a peer. In every run of the derper with a clock in which the sweeper is never late, a
peer is alive if and only if its last accepted report is younger than the time to live. Only a peer
whose last report is older than that is ever queued as gone. And once the time to live and one sweep
interval have passed since the last report of a peer, it is not in the table any more and has been
queued as gone since. -/
theorem alive_iff_recent (env : Env) (ttl interval : Nat) (hpos : 0 < ttl) (es : List Event)
    (hes : Runs.Meets (step env ttl) (Punctual interval) new es) :
    (∀ x, ((run env ttl es).derper.manager.get x).isSome = true ↔
      ∃ t, LastReport env es x t ∧ clock es < t + ttl) ∧
    (∀ e g, Queued (run env ttl es).derper (run env ttl (es ++ [e])).derper g →
      ∃ t, LastReport env es g.peerId t ∧ t + ttl ≤ clock es) ∧
    ∀ x t, LastReport env es x t → t + ttl + interval ≤ clock es →
      ¬ (run env ttl es).derper.manager.peers.Holds x ∧ Buried env ttl es x t := by
  have h := clocked_run env hpos es
  refine ⟨fun x => ⟨fun halive => ?_, ?_⟩, fun e g => h.queued, fun x t ht hlate => ?_⟩
  · obtain ⟨v, hv⟩ := Option.isSome_iff_exists.mp halive
    have hheld := TtlCache.Holds.of_get hv
    obtain ⟨t, ht⟩ := h.held x hheld
    have hyoung := (h.peers x hheld).mp halive
    rw [h.reported x t ht, h.now] at hyoung
    exact ⟨t, ht, hyoung⟩
  · rintro ⟨t, ht, hyoung⟩
    by_cases hheld : (run env ttl es).derper.manager.peers.Holds x
    · refine (h.peers x hheld).mpr ?_
      rwa [h.reported x t ht, h.now]
    · -- a peer that is queued was late, and its last report is this one
      obtain ⟨pre, e, g, hpre, hlast, rfl, hqueued⟩ := h.buried x t ht hheld
      obtain ⟨t', ht', hlate⟩ := (clocked_run env hpos pre).queued hqueued
      obtain rfl := ((clocked_run env hpos pre).reported _ _ ht').symm.trans
        ((clocked_run env hpos pre).reported _ _ hlast)
      obtain ⟨post, rfl⟩ := hpre
      have hle := clock_le_append pre ([e] ++ post)
      rw [← List.append_assoc] at hle
      omega
  · have hnot : ¬ (run env ttl es).derper.manager.peers.Holds x := by
      intro hheld
      have hpunctual := punctual_run hes
      have hstale : (run env ttl es).derper.manager.get x = none := by
        rw [← Option.not_isSome_iff_eq_none, PeerManager.get, h.peers x hheld, h.reported x t ht, h.now]
        omega
      have hswept := h.overdue x hheld hstale
      rw [h.reported x t ht] at hswept
      rw [h.now] at hpunctual
      omega
    exact ⟨hnot, h.buried x t ht hnot⟩

end Timed

namespace Timed.Sample

open Derp.Sample

/-- The sweeper runs `n` times, and nothing else happens. -/
def silence : Nat → List Event
  | 0 => []
  | n + 1 => .advance sweepInterval :: .sweep :: silence n

/-- Peer 1 reports once. -/
def fallsSilent : List Event := .task (report 1000 1 textOne) :: silence 7

theorem reports_textOne {x : PeerId} : Reports env (.task (report 1000 1 textOne)) x ↔ x = 1 := by
  have hreport : reportOf env (report 1000 1 textOne) = some (addr 1000, networkA, hostOne) :=
    reportOf_eq_some.mpr (reportFrom_report hostInfo_textOne (by decide +kernel) 1000 1)
  have hlisted : heartbeats env (report 1000 1 textOne) = [1] := by
    rw [heartbeats, hreport]
    rfl
  constructor
  · rintro ⟨act, heq, hx⟩
    cases heq
    rwa [hlisted, List.mem_singleton] at hx
  · rintro rfl
    exact ⟨_, rfl, hlisted ▸ List.mem_singleton_self 1⟩

theorem not_reports_silence {n : Nat} {e : Event} (h : e ∈ silence n) (x : PeerId) :
    ¬ Reports env e x := by
  induction n with
  | zero => cases h
  | succ n ih =>
    rcases List.mem_cons.mp h with rfl | h
    · rintro ⟨act, heq, -⟩
      cases heq
    · rcases List.mem_cons.mp h with rfl | h
      · rintro ⟨act, heq, -⟩
        cases heq
      · exact ih h

theorem punctual_silence {h : List Event} {s : Timed} (hs : s.now = s.sweptAt) (n : Nat) :
    Runs.MeetsFrom (step env heartbeatTtl) (Punctual sweepInterval) h s (silence n) := by
  induction n generalizing h s with
  | zero => trivial
  | succ n ih =>
    refine ⟨?_, nofun, ih rfl⟩
    intro delta heq
    obtain rfl := Event.advance.inj heq
    exact Nat.le_of_eq (congrArg (· + sweepInterval) hs)

/-- After a minute and a sweep interval the peer is gone. -/
theorem alive_iff_recent_silent :
    ¬ (run env heartbeatTtl fallsSilent).derper.manager.peers.Holds 1 ∧
      Buried env heartbeatTtl fallsSilent 1 0 := by
  have hpunctual :
      Runs.Meets (step env heartbeatTtl) (Punctual sweepInterval) new fallsSilent :=
    ⟨nofun, punctual_silence rfl 7⟩
  have hlast : LastReport env fallsSilent 1 0 :=
    ⟨[], _, silence 7, rfl, reports_textOne.mpr rfl, rfl, fun e he => not_reports_silence he 1⟩
  exact (alive_iff_recent env heartbeatTtl sweepInterval (by decide) fallsSilent hpunctual).2.2 1 0
    hlast (by decide)

end Timed.Sample

end Noeio.Derp
