import Noeio.Daemon.Registration
import Noeio.Daemon.RouteService

/-!
# The broadcast copies of the list

Every peer of the host info carries a copy of the advertised list, and a report broadcasts the
copies. `set_advertised` replaces the list under one lock and the copies under another, and
`register_nic` copies the list before it adds its peer. Two calls that cross can therefore put
an old list over a new one, and nothing repairs it until the next change.

A stale copy does no harm while a call that will publish the current list is still in flight.
This is the invariant, and `Timely` is the condition that keeps it: a call that brings an old
list does so only while such a call is on its way (`broadcast_is_advertised`).
-/

namespace Noeio

namespace Daemon

/-- What is broadcast is what is advertised. -/
def Published (self : Daemon) : Prop :=
  ∀ p ∈ self.reported, p.advertisedRoutes = self.advertised

instance (self : Daemon) : Decidable self.Published := inferInstanceAs (Decidable (∀ p ∈ _, _))

end Daemon

/-- The daemon with the calls of `set_advertised` and `register_nic` that it serves. -/
abbrev Publishing := Tasks.State (List Ipv4Cidr ⊕ NicRequest) Call Daemon

namespace Publishing

abbrev Event := Tasks.Event (List Ipv4Cidr ⊕ NicRequest) Call UInt64

def step (env : RouteEnv) : Publishing → Event → Publishing :=
  Tasks.step (Sum.elim Call.setAdvertised NicRequest.entry) (Daemon.atomic env)

/-- A call is about to publish the current list. -/
def Awaiting (s : Publishing) : Prop := ∃ call ∈ s.calls, call.2 = .publish s.shared.advertised

/-- A list other than the current one is published, or comes with a new peer, only while a call
is about to publish the current one. -/
def Timely (s : Publishing) : Event → Prop
  | .resume (_, .publish routes) _ =>
    routes = s.shared.advertised ∨ s.shared.reported = [] ∨ s.Awaiting
  | .resume (_, .addPeer peer) _ =>
    peer.advertisedRoutes = s.shared.advertised ∨
      (∃ p ∈ s.shared.reported, p.noeioIp = peer.noeioIp) ∨ s.Awaiting
  | _ => True

/-! ## The copies after a step -/

theorem mem_modify {α : Type*} {f : α → α} {l : List α} {i : Nat} {x : α}
    (h : x ∈ l.modify i f) : x ∈ l ∨ ∃ y ∈ l, x = f y := by
  obtain ⟨j, hj⟩ := List.mem_iff_getElem?.mp h
  rw [List.getElem?_modify] at hj
  obtain ⟨y, hy, hx⟩ := Option.map_eq_some_iff.mp hj
  have hmem : y ∈ l := List.mem_of_getElem? hy
  split at hx
  · exact Or.inr ⟨y, hmem, hx.symm⟩
  · exact Or.inl (hx ▸ hmem)

variable {d : Daemon} {routes : List Ipv4Cidr}

/-- A peer is renamed, or listed with the list it brings. -/
theorem routes_of_mem_addPeer {host : HostInfo} {peer p : PeerInfo}
    (h : ∀ q ∈ host.peers, q.advertisedRoutes = routes)
    (hpeer : peer.advertisedRoutes = routes ∨ ∃ q ∈ host.peers, q.noeioIp = peer.noeioIp)
    (hp : p ∈ (host.addPeer peer).peers) : p.advertisedRoutes = routes := by
  unfold HostInfo.addPeer at hp
  split at hp
  · rcases mem_modify hp with hp | ⟨q, hq, rfl⟩
    · exact h p hp
    · exact h q hq
  · rename_i hnew
    rcases List.mem_append.mp hp with hp | hp
    · exact h p hp
    · rw [List.mem_singleton.mp hp]
      refine hpeer.resolve_right ?_
      rintro ⟨q, hq, hip⟩
      exact hnew (by simpa using ⟨q, hq, hip⟩)

theorem published_addPeer {peer : PeerInfo} (h : d.Published)
    (hpeer : peer.advertisedRoutes = d.advertised ∨
      ∃ q ∈ d.reported, q.noeioIp = peer.noeioIp) : (d.addPeer peer).1.Published := by
  intro p hp
  rw [Daemon.toNoeioDaemon_addPeer]
  cases hhost : d.hostInfo with
  | none =>
    have hreported : (d.addPeer peer).1.reported = d.reported := by simp [Daemon.addPeer, hhost]
    exact h p (hreported ▸ hp)
  | some host =>
    have hpeers : d.reported = host.peers := by simp [Daemon.reported, hhost]
    have hreported : (d.addPeer peer).1.reported = (host.addPeer peer).peers := by
      simp [Daemon.addPeer, Daemon.reported, hhost]
    rw [hreported] at hp
    rw [Daemon.Published, hpeers] at h
    rw [hpeers] at hpeer
    exact routes_of_mem_addPeer h hpeer hp

theorem reported_publishAdvertised (now : UInt64) :
    (d.publishAdvertised routes now).reported =
      d.reported.map fun p => { p with advertisedRoutes := routes } := by
  unfold Daemon.publishAdvertised Daemon.reported
  cases d.hostInfo with
  | none => rfl
  | some host => rfl

/-! ## The current list is there, or on its way -/

/-- Every copy is current, or a call is about to make it so. -/
def Sound (s : Publishing) : Prop := s.shared.Published ∨ s.Awaiting

variable {env : RouteEnv} {s : Publishing} {r : List Ipv4Cidr ⊕ NicRequest} {k : Call}
  {e : Daemon} {next : Option Call} {now : UInt64}

/-- A call that is about to publish the current list stays when another takes a step. -/
theorem Awaiting.advance (h : s.Awaiting) (hk : k ≠ .publish s.shared.advertised)
    (hadv : e.advertised = s.shared.advertised) : Awaiting (s.advance (r, k) (e, next)) := by
  obtain ⟨call, hcall, hpub⟩ := h
  have hne : call ≠ (r, k) := by
    rintro rfl
    exact hk hpub
  exact ⟨call, Tasks.mem_advance.mpr (Or.inr (Tasks.mem_rest_of_ne hne hcall)), hadv ▸ hpub⟩

theorem Sound.keep (h : s.Sound) (hk : k ≠ .publish s.shared.advertised)
    (hadv : e.advertised = s.shared.advertised) (hreported : e.reported = s.shared.reported) :
    Sound (s.advance (r, k) (e, next)) := by
  rcases h with h | h
  · left
    intro p hp
    exact (h p (hreported ▸ hp)).trans hadv.symm
  · exact Or.inr (h.advance hk hadv)

theorem Sound.publish (h : s.Sound) {routes : List Ipv4Cidr}
    (htime : s.Timely (.resume (r, .publish routes) now)) :
    Sound (s.advance (r, .publish routes) (s.shared.publishAdvertised routes now, none)) := by
  by_cases hroutes : routes = s.shared.advertised
  · left
    intro p hp
    obtain ⟨q, -, rfl⟩ := List.mem_map.mp (reported_publishAdvertised now ▸ hp)
    exact hroutes
  · have hk : Call.publish routes ≠ .publish s.shared.advertised := by simpa using hroutes
    rcases htime.resolve_left hroutes with hnone | hawait
    · refine h.imp (fun _ p hp => ?_) fun h => h.advance hk rfl
      obtain ⟨q, hq, -⟩ := List.mem_map.mp (reported_publishAdvertised now ▸ hp)
      simp [hnone] at hq
    · exact Or.inr (hawait.advance hk rfl)

theorem Sound.addPeer (h : s.Sound) {peer : PeerInfo}
    (htime : s.Timely (.resume (r, .addPeer peer) now)) :
    Sound (s.advance (r, .addPeer peer) ((s.shared.addPeer peer).1, none)) := by
  have hadv : (s.shared.addPeer peer).1.advertised = s.shared.advertised := by
    rw [Daemon.toNoeioDaemon_addPeer]
  rw [Timely, ← or_assoc] at htime
  rcases h with h | h
  · rcases htime with hpeer | hawait
    · exact Or.inl (published_addPeer h hpeer)
    · exact Or.inr (hawait.advance (by simp) hadv)
  · exact Or.inr (h.advance (by simp) hadv)

theorem Sound.resume (h : s.Sound) (hstep : Daemon.Stepped env s.shared now k e next)
    (htime : s.Timely (.resume (r, k) now)) : Sound (s.advance (r, k) (e, next)) := by
  cases hstep with
  | published => exact h.publish htime
  | added => exact h.addPeer htime
  | @written _ routes hw hne =>
    exact Or.inr ⟨(r, .publish routes), Tasks.mem_advance.mpr (Or.inl ⟨rfl, rfl⟩), rfl⟩
  | same hw =>
    refine h.keep ?_ rfl rfl
    rintro rfl
    cases hw
  | _ => exact h.keep (by simp) rfl rfl

/-- **What is broadcast is what is advertised** once all calls have returned, in every run in
which an old list comes only while a call is about to publish the current one. -/
theorem broadcast_is_advertised (env : RouteEnv) {d : Daemon} (hd : d.Published) {es : List Event}
    (hes : Runs.Meets (step env) (fun _ => Timely) ⟨d, []⟩ es)
    (hdone : (Runs.run (step env) ⟨d, []⟩ es).calls = []) :
    (Runs.run (step env) ⟨d, []⟩ es).shared.Published := by
  have hsound : Sound (Runs.run (step env) ⟨d, []⟩ es) := by
    refine Tasks.invariant (P := fun _ s => Sound s) (Or.inl hd) ?_ ?_ ?_ hes
    · intro _ _ r h _
      rcases h with h | ⟨call, hcall, hpub⟩
      · exact Or.inl h
      · exact Or.inr ⟨call, List.mem_cons_of_mem _ hcall, hpub⟩
    · intro _ _ _ now h htime _
      exact h.resume (Daemon.stepped_atomic env _ _ now) htime
    · intro _ _ _ _ h
      exact h
  rcases hsound with h | ⟨call, hcall, -⟩
  · exact h
  · rw [hdone] at hcall
    cases hcall

namespace Sample

open RouteEnv.Sample

/-- The peer of nic `id`, made while nothing is advertised. -/
def peer (id : PeerId) : PeerInfo :=
  ⟨0, id, .v4 (.ofNat 32 id.toNat), Vector.replicate 16 0, .other, none, [], [], false⟩

/-- A node with one nic that advertises nothing. -/
def node : Daemon where
  toNoeioDaemon := .boot ∅ false [] []
  hostInfo := some ⟨1, .v4 (.ofOctets 1 2 3 4) 5, .other, "node", [], [peer 7]⟩

def nic : NicRequest := ⟨8, .v4 (.ofNat 32 8), "net"⟩

/-- A nic that has read the old list is added while the new one is about to be published. -/
def overtaken : List Event :=
  [.start (.inl [lan]), .start (.inr nic), .resume (.inr nic, nic.entry) 1,
    .resume (.inl [lan], .setAdvertised [lan]) 2,
    .resume (.inr nic, .register 8 nic.ip (peer 8)) 3, .resume (.inr nic, .addPeer (peer 8)) 4,
    .resume (.inl [lan], .publish [lan]) 5]

theorem broadcast_is_advertised_overtaken :
    (Runs.run (step linux) ⟨node, []⟩ overtaken).shared.reported.map (·.peerId) = [7, 8] ∧
      (Runs.run (step linux) ⟨node, []⟩ overtaken).shared.advertised = [lan] ∧
      (Runs.run (step linux) ⟨node, []⟩ overtaken).shared.Published := by
  have hawait : Awaiting (Runs.run (step linux) ⟨node, []⟩ (overtaken.take 5)) :=
    ⟨(.inl [lan], .publish [lan]), .tail _ (.head _), rfl⟩
  have hmeets : Runs.Meets (step linux) (fun _ => Timely) ⟨node, []⟩ overtaken :=
    ⟨trivial, trivial, trivial, trivial, trivial, Or.inr (Or.inr hawait), Or.inl rfl, trivial⟩
  exact ⟨by decide, by decide, broadcast_is_advertised linux (by decide) hmeets (by decide)⟩

/-- The first list is published after the second, which has replaced it. -/
def crossing : List Event :=
  [.start (.inl [lan]), .start (.inl [office]), .resume (.inl [lan], .setAdvertised [lan]) 1,
    .resume (.inl [office], .setAdvertised [office]) 2,
    .resume (.inl [office], .publish [office]) 3, .resume (.inl [lan], .publish [lan]) 4]

theorem broadcasts_old_list :
    node.hostInfo.isSome = true ∧ node.Published ∧
      (Runs.run (step linux) ⟨node, []⟩ crossing).calls = [] ∧
      (Runs.run (step linux) ⟨node, []⟩ crossing).shared.advertised = [office] ∧
      (Runs.run (step linux) ⟨node, []⟩ crossing).shared.reported.map (·.advertisedRoutes) =
        [[lan]] ∧
      ¬ (Runs.run (step linux) ⟨node, []⟩ crossing).shared.Published := by
  decide

end Sample

end Publishing

end Noeio
