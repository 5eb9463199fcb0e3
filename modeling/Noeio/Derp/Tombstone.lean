import Noeio.Derp.Relay

/-!
# Tombstones

A `SyncRoute` with `withdrawn` set tells a node that a peer is gone. The gone task builds
it from the host stored when one id died, long after the death was queued, and sends it
later still; the sync task forwards the flag of whatever a reporter listed. So there are
four ways to bury a peer that is well: the report itself carries the flag, the host of the
dead id lists a second id that is alive, the id came back while its `Gone` was queued, or
it came back while the gone task was still sending.

`Truthful` excludes exactly these, one condition for each place, and `tombstone_authentic`
proves that in every run of truthful steps a withdrawn peer was evicted before and has no
entry while the tombstone is sent. `buried_alive` is a run of three reports that ends with
a tombstone for a live peer.
-/

namespace Noeio.Derp

/-- The event `e`, taken in `s`, cannot lead to a tombstone for a peer that is well. -/
structure Truthful (env : Env) (s : State) (e : Event) : Prop where
  /-- A report that is stored carries no tombstones of its own. -/
  flag : ∀ addr network host, ReportFrom env addr network host e →
    (∃ info ∈ host.peers, info.networkId = network) → ∀ info ∈ host.peers, info.withdrawn = false
  /-- No peer is registered while the gone task still has a tombstone of it to send. -/
  register : ∀ addr network host, ReportFrom env addr network host e →
    ∀ info ∈ host.peers, info.networkId = network →
      ∀ push ∈ s.burying, push.info.peerId ≠ info.peerId
  /-- When the gone task takes a `Gone`, no peer that its host lists in its network has an
  entry in the table. -/
  take : ∀ peers dead rest, e = .gone peers → s.burying = [] → s.manager.gone = dead :: rest →
    ∀ info ∈ dead.info.peers, info.networkId = dead.network →
      ¬ s.manager.peers.Holds info.peerId

/-- The peer `x` had an entry in the table which the cache then removed. -/
def Evicted (env : Env) (es : List Event) (x : PeerId) : Prop :=
  Runs.Lost (step env) (fun s => s.manager.peers.Holds x) State.new es

/-! ## Who was in the table -/

/-- Every peer the host of the entry lists in the entry's network has had an entry of its
own. -/
def HeldOnce (env : Env) (es : List Event) (_x : PeerId) (d : PeerEntry) : Prop :=
  ∃ pre, pre <+: es ∧ ∀ info ∈ d.info.peers, info.networkId = d.network →
    (run env pre).manager.peers.Holds info.peerId

theorem entries_heldOnce (env : Env) (es : List Event) :
    (run env es).manager.Entries (HeldOnce env es) := by
  induction es using List.reverseRecOn with
  | nil => exact PeerManager.entries_new
  | append_singleton es e ih =>
    rw [run_concat]
    refine entries_step (ih.mono ?_) ?_
    · rintro x d ⟨pre, hpre, hheld⟩
      exact ⟨pre, hpre.trans (List.prefix_append _ _), hheld⟩
    · intro addr network host hrep _ _ _
      refine ⟨es ++ [e], List.prefix_rfl, ?_⟩
      intro info hinfo hnet
      rw [run_concat, step_of_reportFrom hrep]
      exact holds_handleReport.mpr (Or.inl ⟨info, hinfo, hnet, rfl⟩)

/-- A peer that had an entry and has none was evicted. -/
theorem evicted_of_not_holds {env : Env} {pre es : List Event} {x : PeerId} (hpre : pre <+: es)
    (hheld : (run env pre).manager.peers.Holds x) (hnow : ¬ (run env es).manager.peers.Holds x) :
    Evicted env es x := by
  obtain ⟨post, rfl⟩ := hpre
  exact Runs.exists_last_change (Q := fun s : State => s.manager.peers.Holds x) hheld hnow

/-! ## Truthful runs -/

/-- No stored or queued host carries a tombstone. -/
def Unflagged (_x : PeerId) (d : PeerEntry) : Prop := ∀ info ∈ d.info.peers, info.withdrawn = false

/-- What a truthful run keeps: live broadcasts are live, and whoever is being buried was
evicted and did not come back. -/
structure Mourning (env : Env) (es : List Event) (s : State) : Prop where
  entries : s.manager.Entries Unflagged
  spawned : ∀ push ∈ s.spawned, push.info.withdrawn = false
  burying : ∀ push ∈ s.burying,
    ¬ s.manager.peers.Holds push.info.peerId ∧ Evicted env es push.info.peerId

theorem Mourning.step {env : Env} {es : List Event} {e : Event}
    (h : Mourning env es (run env es)) (he : Truthful env (run env es) e) :
    Mourning env (es ++ [e]) (step env (run env es) e) where
  entries := entries_step h.entries fun addr network host hrep info hinfo hnet =>
    he.flag addr network host hrep ⟨info, hinfo, hnet⟩
  spawned := by
    intro push hpush
    rcases mem_spawned_step hpush with hold | ⟨peers, -, hperm, hnew⟩
    · exact h.spawned push hold
    · obtain ⟨t, target, p, peer, -, hp, -, -, info, hinfo, -, rfl⟩ := mem_syncRoutes.mp hnew
      exact h.entries.get (get_of_mem_perm hperm hp) info hinfo
  burying := by
    intro push hpush
    -- the peers of the table only grow by reports, and a truthful one lists nobody buried
    have hkept : ¬ (run env es).manager.peers.Holds push.info.peerId →
        (∀ addr network host, ReportFrom env addr network host e → push ∈ (run env es).burying) →
        ¬ (Derp.step env (run env es) e).manager.peers.Holds push.info.peerId := by
      intro hnow hwait hnext
      rcases holds_step hnext with hold | ⟨addr, network, host, hrep, info, hinfo, hnet, hid⟩
      · exact hnow hold
      · exact he.register addr network host hrep info hinfo hnet push
          (hwait addr network host hrep) hid.symm
    rcases mem_burying_step hpush with hold | ⟨peers, dead, rest, rfl, hperm, hb, hg, hnew⟩
    · obtain ⟨hnow, hev⟩ := h.burying push hold
      exact ⟨hkept hnow fun _ _ _ _ => hold, hev.concat e⟩
    · obtain ⟨t, target, -, -, -, info, hinfo, hnet, rfl⟩ := mem_tombstones.mp hnew
      have hnow := he.take peers dead rest rfl hb hg info hinfo hnet
      obtain ⟨addr, pre, hpre, hheld⟩ := (entries_heldOnce env es).gone dead
        (hg ▸ List.mem_cons_self)
      refine ⟨hkept hnow ?_, (evicted_of_not_holds hpre (hheld info hinfo hnet) hnow).concat _⟩
      rintro addr network host ⟨now, data, packet, heq, -⟩
      cases heq

theorem mourning_run {env : Env} {es : List Event}
    (hes : Runs.Meets (step env) (fun _ => Truthful env) State.new es) :
    Mourning env es (run env es) := by
  induction es using List.reverseRecOn with
  | nil =>
    refine ⟨PeerManager.entries_new, ?_, ?_⟩
    · intro push hpush
      cases hpush
    · intro push hpush
      cases hpush
  | append_singleton es e ih =>
    obtain ⟨hes, he⟩ := Runs.meets_concat.mp hes
    rw [run_concat]
    exact (ih hes).step he

/-- Tombstone authenticity: in every run of truthful steps, a `SyncRoute` with `withdrawn`
set is sent only after the entry of its peer was evicted and only while it has no live
entry. -/
theorem tombstone_authentic (env : Env) (es : List Event)
    (htruthful : Runs.Meets (step env) (fun _ => Truthful env) State.new es) (e : Event)
    (push : RoutePush) (hsent : .syncRoute push ∈ sends env (run env es) e)
    (hwithdrawn : push.info.withdrawn = true) :
    Evicted env es push.info.peerId ∧ (run env es).manager.get push.info.peerId = none := by
  have hinv := mourning_run htruthful
  rcases waiting_of_sends hsent with hlive | hbury
  · rw [hinv.spawned push hlive] at hwithdrawn
    cases hwithdrawn
  · obtain ⟨hnow, hev⟩ := hinv.burying push hbury
    exact ⟨hev, TtlCache.get_eq_none_of_not_holds hnow⟩

namespace Sample

theorem truthful_report {text : String} {h : HostInfo} (hh : env.hostInfo (asBytes text) = .ok h)
    (hlen : text.utf8ByteSize < 1000) (hlive : ∀ info ∈ h.peers, info.withdrawn = false)
    (port : UInt16) (peerId : PeerId) {s : State} (hs : s.burying = []) :
    Truthful env s (report port peerId text) where
  flag addr network host hrep _ := by
    obtain ⟨-, -, rfl⟩ := (reportFrom_report hh hlen port peerId).unique hrep
    exact hlive
  register addr network host hrep info _ _ push hpush := by
    rw [hs] at hpush
    cases hpush
  take peers dead rest heq := by cases heq

theorem truthful_of_quiet {s : State} {e : Event} (hrecv : ∀ now addr data, e ≠ .recv now addr data)
    (hgone : ∀ peers, e ≠ .gone peers) : Truthful env s e where
  flag addr network host := by
    rintro ⟨now, data, packet, heq, -⟩
    exact absurd heq (hrecv now addr data)
  register addr network host := by
    rintro ⟨now, data, packet, heq, -⟩
    exact absurd heq (hrecv now addr data)
  take peers dead rest heq := absurd heq (hgone peers)

/-- The table after peer 1 has expired and was removed. -/
def tableTwo : PeerManager := (table.expire 1).evict 1

/-- Peer 1 stops reporting, and the gone task takes it up. -/
def departed : List Event :=
  registered ++ [.expire 1] ++ [.evict 1] ++ [.gone tableTwo.alivePeers]

def buryOne : RoutePush :=
  ⟨2, addr 2000, networkA, tombstone ⟨1, hostOne, networkA⟩ (peer 1 1 networkA)⟩

theorem run_departed : run env departed = step env ⟨tableTwo, [], []⟩ (.gone tableTwo.alivePeers) := by
  simp only [departed, run_concat, run_registered]
  rfl

theorem truthful_departed : Runs.Meets (step env) (fun _ => Truthful env) State.new departed := by
  have h₁ := reportFrom_report hostInfo_textOne (by decide +kernel) 1000 1
  have hreg : Runs.Meets (step env) (fun _ => Truthful env) State.new registered := by
    refine ⟨truthful_report hostInfo_textOne (by decide +kernel) (by decide) 1000 1 rfl, ?_, trivial⟩
    refine truthful_report hostInfo_textTwo (by decide +kernel) (by decide) 2000 2 ?_
    rw [step_of_reportFrom h₁]
    rfl
  simp only [departed, Runs.meets_concat]
  refine ⟨⟨⟨hreg, truthful_of_quiet (by simp) (by simp)⟩, truthful_of_quiet (by simp) (by simp)⟩,
    ?_, ?_, ?_⟩
  · rintro addr network host ⟨now, data, packet, heq, -⟩
    cases heq
  · rintro addr network host ⟨now, data, packet, heq, -⟩
    cases heq
  · intro peers dead rest _ _ hg info hinfo _
    have hstate : Runs.run (step env) State.new (registered ++ [.expire 1] ++ [.evict 1]) =
        ⟨tableTwo, [], []⟩ := by
      rw [Runs.run_concat, Runs.run_concat, ← run, run_registered]
      rfl
    rw [hstate] at hg ⊢
    have hqueue : tableTwo.gone = [⟨1, hostOne, networkA⟩] := by decide +kernel
    obtain ⟨rfl, -⟩ := List.cons.inj (hqueue.symm.trans hg)
    obtain rfl := List.mem_singleton.mp hinfo
    decide +kernel

theorem tombstone_authentic_departed :
    .syncRoute buryOne ∈ sends env (run env departed) .bury ∧ buryOne.info.withdrawn = true ∧
      Evicted env departed 1 ∧ (run env departed).manager.get 1 = none := by
  have hsent : .syncRoute buryOne ∈ sends env (run env departed) .bury := by
    rw [run_departed]
    decide +kernel
  exact ⟨hsent, rfl, tombstone_authentic env departed truthful_departed .bury buryOne hsent rfl⟩

/-- The table after peer 1 has expired and reported again before maintenance ran. -/
def tableBack : PeerManager := handleReport (table.expire 1) (addr 1000) networkA hostOne

/-- Peer 1 misses its time to live and reports again; the expired entry it replaces is
queued as gone. -/
def returned : List Event :=
  registered ++ [.expire 1] ++ [report 1000 1 textOne] ++ [.gone tableBack.alivePeers]

theorem run_returned :
    run env returned = step env ⟨tableBack, [], []⟩ (.gone tableBack.alivePeers) := by
  have h₁ := reportFrom_report hostInfo_textOne (by decide +kernel) 1000 1
  simp only [returned, run_concat, run_registered, step_of_reportFrom h₁]
  rfl

/-- The derper buries peer 1 while it is alive. -/
theorem buried_alive :
    .syncRoute buryOne ∈ sends env (run env returned) .bury ∧ buryOne.info.withdrawn = true ∧
      (run env returned).manager.get buryOne.info.peerId =
        some ⟨addr 1000, hostOne, networkA⟩ := by
  rw [run_returned]
  decide +kernel

end Sample

end Noeio.Derp
