import Noeio.Daemon.Election
import Noeio.Daemon.Lookup
import Noeio.Daemon.Withdrawal

/-!
# Failover

What a tombstone does to the exits. The peers of a network may advertise the same block, and the
lowest of them is the exit for it; the others stand by. When the exit is withdrawn, the next refresh
elects the lowest of the others (`Standby`), and the entries of the other peers stay. So the lookup
changes for the addresses that the withdrawn peer carried, and for no others (`failover`). Such an
address goes to the standby of its block. Without a standby, and if it is the virtual IP of the peer,
it goes to whatever longest entry is left for it.

The election comes first, for any two lists of advertisements that differ in one peer
(`mem_accepted_without`). A tombstone makes such a pair of lists out of a router in which no peer id
has two virtual IPs (`without_bury`).
-/

namespace Noeio

/-! ## The election without a peer -/

section
variable {l l' : List (PeerId × Ipv4Cidr)} {x q : PeerId} {n : Ipv4Cidr}

/-- The list `l'` advertises what `l` does, but for the peer `x`. -/
def Without (x : PeerId) (l l' : List (PeerId × Ipv4Cidr)) : Prop :=
  ∀ p n, Advertises l' p n ↔ p ≠ x ∧ Advertises l p n

/-- The peer that takes the block `n` over from `x`: the lowest of the others that advertise
it. -/
structure Standby (l : List (PeerId × Ipv4Cidr)) (x : PeerId) (n : Ipv4Cidr) (q : PeerId) :
    Prop where
  ne : q ≠ x
  advertises : Advertises l q n
  lowest : ∀ r, r ≠ x → Advertises l r n → q ≤ r

theorem Standby.unique {r : PeerId} (hq : Standby l x n q) (hr : Standby l x n r) : q = r :=
  UInt32.le_antisymm (hq.lowest r hr.ne hr.advertises) (hr.lowest q hq.ne hq.advertises)

theorem Without.lowest_iff (h : Without x l l') : Lowest l' n q ↔ Standby l x n q := by
  constructor
  · rintro ⟨hadv, hlow⟩
    obtain ⟨hne, hadv⟩ := (h q n).mp hadv
    exact ⟨hne, hadv, fun r hr hradv => hlow r ((h r n).mpr ⟨hr, hradv⟩)⟩
  · intro hq
    refine ⟨(h q n).mpr ⟨hq.ne, hq.advertises⟩, fun r hr => ?_⟩
    obtain ⟨hne, hadv⟩ := (h r n).mp hr
    exact hq.lowest r hne hadv

/-- Without `x`, the lowest peer of a block is the same as before, or takes over from `x`. -/
theorem standby_iff : Standby l x n q ↔ (q ≠ x ∧ Lowest l n q) ∨ Lowest l n x ∧ Standby l x n q := by
  constructor
  · intro hq
    obtain ⟨p, hp⟩ := exists_lowest hq.advertises
    by_cases hx : p = x
    · exact Or.inr ⟨hx ▸ hp, hq⟩
    · have hle : q ≤ p := hq.lowest p hx hp.1
      have heq : q = p := UInt32.le_antisymm hle (hp.2 q hq.advertises)
      exact Or.inl ⟨hq.ne, heq ▸ hp⟩
  · rintro (⟨hne, hlow⟩ | ⟨-, hq⟩)
    · exact ⟨hne, hlow.1, fun r _ hr => hlow.2 r hr⟩
    · exact hq

/-- The accepted entries without `x`: those of the others stay, and those of `x` go to the peers
that stand by. -/
theorem mem_accepted_without {policy : ConsumerPolicy} (h : Without x l l') :
    (n, q) ∈ accepted policy l' ↔
      (q ≠ x ∧ (n, q) ∈ accepted policy l) ∨ (n, x) ∈ accepted policy l ∧ Standby l x n q := by
  rw [mem_accepted, mem_accepted, mem_accepted, h.lowest_iff, standby_iff]
  tauto

end

/-! ## The table of a node -/

namespace NoeioDaemon

section
variable {d : NoeioDaemon} {interfaces : List Interface}

theorem mem_subnets_refresh {e : Ipv4Cidr × PeerId} :
    e ∈ (d.refreshSubnets interfaces).router.subnets ↔
      e ∈ accepted (d.consumerPolicy interfaces) d.advertisements := Router.mem_setSubnets

variable (d interfaces) in
theorem tabled_refresh : (d.refreshSubnets interfaces).router.Tabled := by
  refine Router.tabled_setSubnets d.router fun e he => ?_
  obtain ⟨n, p⟩ := e
  obtain ⟨-, -, ⟨c, -, rfl⟩, -⟩ := mem_accepted.mp he
  exact Ipv4Cidr.network_network c

/-- A block has one exit. -/
theorem exit_unique {n : Ipv4Cidr} {p q : PeerId}
    (hp : (n, p) ∈ (d.refreshSubnets interfaces).router.subnets)
    (hq : (n, q) ∈ (d.refreshSubnets interfaces).router.subnets) : p = q :=
  ((mem_accepted.mp (mem_subnets_refresh.mp hp)).2.2).unique
    (mem_accepted.mp (mem_subnets_refresh.mp hq)).2.2

end

/-! ## After a tombstone -/

section
variable {d : NoeioDaemon} {m : SyncRoute}

/-- The node after the push. -/
def bury (self : NoeioDaemon) (m : SyncRoute) : NoeioDaemon :=
  (self.applySyncRoute m.peer m.localPeerId).1

theorem store_bury (hw : m.peer.withdrawn = true) : (d.bury m).router.store =
    d.router.store.removeById Router.peerIdOf m.peer.peerId := by
  rw [← Router.store_removeByPeerId, ← Router.receive_withdrawn d.router hw]
  rfl

variable (hexact : d.router.store.Exact Router.peerIdOf) (hw : m.peer.withdrawn = true)
include hexact hw

theorem get_bury {ip : IpAddr} {p : Peer} :
    (d.bury m).router.get ip = some p ↔
      d.router.get ip = some p ∧ p.info.peerId ≠ m.peer.peerId := by
  simp only [← Router.get_store, store_bury hw]
  constructor
  · intro hp
    have hkept : IndexedStore.All (fun ip p => d.router.store.get ip = some p) d.router.store :=
      fun _ _ h => h
    exact ⟨hkept.removeById m.peer.peerId ip p hp,
      (IndexedStore.removeById_all_iff m.peer.peerId).mpr (hexact.2 m.peer.peerId) ip p hp⟩
  · rintro ⟨hp, hne⟩
    exact hexact.1.get_removeById hp hne

theorem exact_bury : (d.bury m).router.store.Exact Router.peerIdOf := by
  rw [store_bury hw]
  exact hexact.removeById m.peer.peerId

theorem without_bury :
    Without m.peer.peerId d.advertisements (d.bury m).advertisements := by
  intro p n
  simp only [Advertises, mem_advertisements, get_bury hexact hw]
  constructor
  · rintro ⟨c, ⟨ip, peer, ⟨hget, hne⟩, rfl, hc⟩, hn⟩
    exact ⟨hne, c, ⟨ip, peer, hget, rfl, hc⟩, hn⟩
  · rintro ⟨hne, c, ⟨ip, peer, hget, rfl, hc⟩, hn⟩
    exact ⟨c, ⟨ip, peer, ⟨hget, hne⟩, rfl, hc⟩, hn⟩

/-- The one stored peer of an id that is left is the one from before. -/
theorem getByPeerId_bury {ip : IpAddr} {p : Peer} (hp : d.router.get ip = some p)
    (hne : p.info.peerId ≠ m.peer.peerId) :
    (d.bury m).router.getByPeerId p.info.peerId = some p := by
  have hget : (d.bury m).router.store.get ip = some p := (get_bury hexact hw).mpr ⟨hp, hne⟩
  have hbyId := (exact_bury hexact hw).getById hget
  rwa [Router.getById_store] at hbyId

variable {interfaces : List Interface}

theorem mem_subnets_bury {n : Ipv4Cidr} {q : PeerId} :
    (n, q) ∈ ((d.bury m).refreshSubnets interfaces).router.subnets ↔
      (q ≠ m.peer.peerId ∧ (n, q) ∈ (d.refreshSubnets interfaces).router.subnets) ∨
        (n, m.peer.peerId) ∈ (d.refreshSubnets interfaces).router.subnets ∧
          Standby d.advertisements m.peer.peerId n q := by
  have hpolicy : (d.bury m).consumerPolicy interfaces = d.consumerPolicy interfaces := rfl
  rw [mem_subnets_refresh, mem_subnets_refresh, mem_subnets_refresh, hpolicy]
  exact mem_accepted_without (without_bury hexact hw)

/-- An entry of another peer that was the one for an address still is. -/
theorem longest_bury {a : Ipv4Addr} {e : Ipv4Cidr × PeerId}
    (he : (d.refreshSubnets interfaces).router.Longest a e) (hne : e.2 ≠ m.peer.peerId) :
    ((d.bury m).refreshSubnets interfaces).router.Longest a e := by
  obtain ⟨hmem, ha, hlongest⟩ := he
  refine ⟨(mem_subnets_bury hexact hw).mpr (Or.inl ⟨hne, hmem⟩), ha, fun f hf hfa => ?_⟩
  rcases (mem_subnets_bury hexact hw).mp hf with ⟨-, hf⟩ | ⟨hx, -⟩
  · exact hlongest f hf hfa
  · rcases hlongest (f.1, m.peer.peerId) hx hfa with hlt | ⟨heq, -⟩
    · exact Or.inl hlt
    · -- the block of `e` would have two exits
      have heq : f.1 = e.1 := heq
      rw [heq] at hx
      exact absurd (exit_unique hmem hx) hne

/-- The entry of the withdrawn peer that was the one for an address goes to its standby. -/
theorem longest_standby {a : Ipv4Addr} {n : Ipv4Cidr} {q : PeerId}
    (hn : (d.refreshSubnets interfaces).router.Longest a (n, m.peer.peerId))
    (hq : Standby d.advertisements m.peer.peerId n q) :
    ((d.bury m).refreshSubnets interfaces).router.Longest a (n, q) := by
  obtain ⟨hmem, ha, hlongest⟩ := hn
  refine ⟨(mem_subnets_bury hexact hw).mpr (Or.inr ⟨hmem, hq⟩), ha, fun f hf hfa => ?_⟩
  rcases (mem_subnets_bury hexact hw).mp hf with ⟨hne, hf⟩ | ⟨hx, hstandby⟩
  · rcases hlongest f hf hfa with hlt | ⟨heq, -⟩
    · exact Or.inl hlt
    · have heq : f.1 = n := heq
      have hfn : (n, f.2) ∈ (d.refreshSubnets interfaces).router.subnets := heq ▸ hf
      exact absurd (exit_unique hfn hmem) hne
  · rcases hlongest (f.1, m.peer.peerId) hx hfa with hlt | ⟨heq, -⟩
    · exact Or.inl hlt
    · have heq : f.1 = n := heq
      rw [heq] at hstandby
      exact Or.inr ⟨heq, UInt32.le_of_eq (hq.unique hstandby)⟩

/-- A peer that is stored after the tombstone was stored before it. -/
theorem get_bury_eq_none {ip : IpAddr}
    (h : ∀ p, d.router.get ip = some p → p.info.peerId = m.peer.peerId) :
    (d.bury m).router.get ip = none := by
  rw [Option.eq_none_iff_forall_ne_some]
  intro p hp
  obtain ⟨hbefore, hne⟩ := (get_bury hexact hw).mp hp
  exact hne (h p hbefore)

omit hw in
/-- The exit of the entry for an address carries it. -/
theorem lookup_exit {a : Ipv4Addr} {e : Ipv4Cidr × PeerId} (hget : d.router.get (.v4 a) = none)
    (he : (d.refreshSubnets interfaces).router.Longest a e) :
    ∃ ip p, d.router.get ip = some p ∧ p.info.peerId = e.2 ∧
      (d.refreshSubnets interfaces).router.lookup (.v4 a) = some p := by
  obtain ⟨ip, p, -, hp, hbyId, hid, -, -⟩ := exit_of_mem_subnets hexact he.1
  refine ⟨ip, p, hp, hid, ?_⟩
  rw [(tabled_refresh d interfaces).longestPrefixMatch.exit a hget e he]
  exact hbyId

omit hexact hw in
/-- An address that no entry contains is carried by the peer that has it, if any. -/
theorem lookup_of_no_exit {a : Ipv4Addr}
    (h : ∀ e ∈ (d.refreshSubnets interfaces).router.subnets, e.1.containsAddr a = false) :
    (d.refreshSubnets interfaces).router.lookup (.v4 a) = d.router.get (.v4 a) := by
  have hmatch := (tabled_refresh d interfaces).longestPrefixMatch
  cases hget : d.router.get (.v4 a) with
  | some p => exact hmatch.host a p hget
  | none => exact hmatch.miss a hget h

omit hexact hw in
variable (d interfaces) in
theorem exists_longest_or (a : Ipv4Addr) :
    (∃ e, (d.refreshSubnets interfaces).router.Longest a e) ∨
      ∀ e ∈ (d.refreshSubnets interfaces).router.subnets, e.1.containsAddr a = false := by
  by_cases h : ∃ e ∈ (d.refreshSubnets interfaces).router.subnets, e.1.containsAddr a = true
  · exact Or.inl ((tabled_refresh d interfaces).longestPrefixMatch.exists_longest a h)
  · exact Or.inr fun e he => by simpa using fun ha => h ⟨e, he, ha⟩

/-- The addresses that are in no entry stay so. -/
theorem no_exit_bury {a : Ipv4Addr}
    (h : ∀ e ∈ (d.refreshSubnets interfaces).router.subnets, e.1.containsAddr a = false) :
    ∀ e ∈ ((d.bury m).refreshSubnets interfaces).router.subnets, e.1.containsAddr a = false := by
  rintro ⟨n, q⟩ he
  rcases (mem_subnets_bury hexact hw).mp he with ⟨-, he⟩ | ⟨he, -⟩
  · exact h (n, q) he
  · exact h (n, m.peer.peerId) he

/-- What the withdrawn peer does not carry is looked up as before. -/
theorem lookup_bury {ip : IpAddr}
    (h : ∀ p, (d.refreshSubnets interfaces).router.lookup ip = some p →
      p.info.peerId ≠ m.peer.peerId) :
    ((d.bury m).refreshSubnets interfaces).router.lookup ip =
      (d.refreshSubnets interfaces).router.lookup ip := by
  cases hget : d.router.get ip with
  | some host =>
    -- the address of a peer
    have hbefore : (d.refreshSubnets interfaces).router.lookup ip = some host :=
      Router.lookup_of_get hget
    have hkept : ((d.bury m).refreshSubnets interfaces).router.get ip = some host :=
      (get_bury hexact hw).mpr ⟨hget, h host hbefore⟩
    exact (Router.lookup_of_get hkept).trans hbefore.symm
  | none =>
    have hgone : (d.bury m).router.get ip = none := get_bury_eq_none hexact hw fun p hp => by
      cases hget.symm.trans hp
    cases ip with
    | v6 a => exact (Router.lookup_v6 hgone).trans (Router.lookup_v6 hget).symm
    | v4 a =>
      rcases exists_longest_or d interfaces a with ⟨e, he⟩ | hnone
      · -- the exit is another peer, and still the exit
        obtain ⟨ip, p, hp, hid, hlookup⟩ := lookup_exit hexact hget he
        have hne := h p hlookup
        have hlongest := longest_bury hexact hw he (hid ▸ hne)
        have hmatch := (tabled_refresh (d.bury m) interfaces).longestPrefixMatch
        rw [hmatch.exit a hgone e hlongest, ← hid, hlookup]
        exact getByPeerId_bury hexact hw hp hne
      · rw [lookup_of_no_exit (no_exit_bury hexact hw hnone), lookup_of_no_exit hnone, hgone, hget]

/-- What the withdrawn peer carried, as its own address or as an exit. -/
theorem get_of_lookup_withdrawn {ip : IpAddr} {p : Peer}
    (hp : (d.refreshSubnets interfaces).router.lookup ip = some p)
    (hid : p.info.peerId = m.peer.peerId) : (d.bury m).router.get ip = none := by
  refine get_bury_eq_none hexact hw fun host hhost => ?_
  have hlookup : (d.refreshSubnets interfaces).router.lookup ip = some host :=
    Router.lookup_of_get hhost
  obtain rfl := Option.some.inj (hlookup.symm.trans hp)
  exact hid

/-- The withdrawn peer carries nothing any more. -/
theorem lookup_bury_ne {ip : IpAddr} {p : Peer}
    (hp : ((d.bury m).refreshSubnets interfaces).router.lookup ip = some p) :
    p.info.peerId ≠ m.peer.peerId := by
  have hstored : ∃ ip, (d.bury m).router.get ip = some p :=
    Router.get_of_lookup (r := ((d.bury m).refreshSubnets interfaces).router) hp
  obtain ⟨ip, hget⟩ := hstored
  exact ((get_bury hexact hw).mp hget).2

end

/-- An address that the withdrawn peer carried, after the tombstone: the peer that takes its block
over carries it; in general, the exit of the longest entry that is left, and nobody if none is. -/
structure Inherited (before after : Router) (l : List (PeerId × Ipv4Cidr)) (x : PeerId)
    (ip : IpAddr) : Prop where
  standby : ∀ a n q, ip = .v4 a → before.Longest a (n, x) → Standby l x n q →
    ∃ p, after.lookup ip = some p ∧ p.info.peerId = q
  exit : ∀ a e, ip = .v4 a → after.Longest a e → ∃ p, after.lookup ip = some p ∧ p.info.peerId = e.2
  nobody : (∀ a, ip = .v4 a → ∀ e ∈ after.subnets, e.1.containsAddr a = false) →
    after.lookup ip = none

theorem inherited_bury {d : NoeioDaemon} {m : SyncRoute} {interfaces : List Interface}
    (hexact : d.router.store.Exact Router.peerIdOf) (hw : m.peer.withdrawn = true) {ip : IpAddr}
    {p : Peer} (hp : (d.refreshSubnets interfaces).router.lookup ip = some p)
    (hid : p.info.peerId = m.peer.peerId) :
    Inherited (d.refreshSubnets interfaces).router ((d.bury m).refreshSubnets interfaces).router
      d.advertisements m.peer.peerId ip := by
  have hgone := get_of_lookup_withdrawn hexact hw hp hid
  have hexit : ∀ a e, ip = .v4 a →
      ((d.bury m).refreshSubnets interfaces).router.Longest a e →
        ∃ q, ((d.bury m).refreshSubnets interfaces).router.lookup ip = some q ∧
          q.info.peerId = e.2 := by
    rintro a e rfl he
    obtain ⟨-, q, -, hq, hlookup⟩ := lookup_exit (exact_bury hexact hw) hgone he
    exact ⟨q, hlookup, hq⟩
  refine ⟨fun a n q ha hn hq => hexit a (n, q) ha (longest_standby hexact hw hn hq), hexit, ?_⟩
  intro hnone
  cases ip with
  | v4 a => rw [lookup_of_no_exit (hnone a rfl), hgone]
  | v6 a => exact Router.lookup_v6 hgone

variable (nics : AList (fun _ : PeerId => IpAddr)) (acceptRoutes : Bool)
  (advertised : List Ipv4Cidr) (controlPlane : List IpAddr)

/-- Failover. After any pushes in which no peer id is seen with two virtual IPs, and with the table
refreshed before and after a tombstone for the peer `x`: the entries of the other peers stay, each
block of `x` goes to the lowest of the other peers that advertise it, and there are no others. Every
address that `x` did not carry is looked up as before, every address that it carried is `Inherited`,
and it carries none any more. -/
theorem failover (es : List Event) (hone : Router.OneIpPerId (pushes es)) (m : SyncRoute)
    (hw : m.peer.withdrawn = true) (interfaces : List Interface) :
    let d := run nics acceptRoutes advertised controlPlane es
    let before := (d.refreshSubnets interfaces).router
    let after := ((d.bury m).refreshSubnets interfaces).router
    let x := m.peer.peerId
    (∀ n q, (n, q) ∈ after.subnets ↔ (q ≠ x ∧ (n, q) ∈ before.subnets) ∨
      (n, x) ∈ before.subnets ∧ Standby d.advertisements x n q) ∧
    (∀ ip, (∀ p, before.lookup ip = some p → p.info.peerId ≠ x) →
      after.lookup ip = before.lookup ip) ∧
    (∀ ip p, before.lookup ip = some p → p.info.peerId = x →
      Inherited before after d.advertisements x ip) ∧
    ∀ ip p, after.lookup ip = some p → p.info.peerId ≠ x := by
  intro d before after x
  have hexact : d.router.store.Exact Router.peerIdOf :=
    (synced_run nics acceptRoutes advertised controlPlane es).exact hone
  refine ⟨fun n q => ?_, fun ip h => ?_, fun ip p hp hid => ?_, fun ip p hp => ?_⟩
  · exact mem_subnets_bury hexact hw
  · exact lookup_bury hexact hw h
  · exact inherited_bury hexact hw hp hid
  · exact lookup_bury_ne hexact hw hp

namespace Sample

/-- The peers 1 and 2 advertise the same LAN. -/
def twins : List Event :=
  [.syncRoute (push 5 2 (.v4 (.ofOctets 10 0 0 2)) [lan]),
    .syncRoute (push 5 1 (.v4 (.ofOctets 10 0 0 1)) [lan])]

/-- A host of the LAN is reached through peer 1, and after its tombstone through peer 2. -/
theorem failover_twins :
    let d := run oneNic true [] [derper] twins
    ((d.refreshSubnets []).router.lookup (.v4 (.ofOctets 192 168 5 9))).map (·.info.peerId) = some 1 ∧
      ∃ p, ((d.bury bury).refreshSubnets []).router.lookup (.v4 (.ofOctets 192 168 5 9)) = some p ∧
        p.info.peerId = 2 := by
  have hone : Router.OneIpPerId (pushes twins) := by
    unfold Router.OneIpPerId
    decide
  have hlongest : ((run oneNic true [] [derper] twins).refreshSubnets []).router.Longest
      (.ofOctets 192 168 5 9) (lan, 1) := (tabled_refresh _ _).find?_eq_some_iff.mp (by decide +kernel)
  have hadv : (run oneNic true [] [derper] twins).advertisements = [(1, lan), (2, lan)] := by
    decide +kernel
  have hstandby : Standby (run oneNic true [] [derper] twins).advertisements 1 lan 2 := by
    rw [hadv]
    refine ⟨by decide, ⟨lan, by simp, by decide⟩, ?_⟩
    rintro r hne ⟨c, hc, -⟩
    simp only [List.mem_cons, Prod.mk.injEq, List.not_mem_nil, or_false] at hc
    rcases hc with ⟨rfl, -⟩ | ⟨rfl, -⟩
    · exact absurd rfl hne
    · exact UInt32.le_refl _
  obtain ⟨-, -, hinherited, -⟩ := failover oneNic true [] [derper] twins hone bury rfl []
  have hcarried : (((run oneNic true [] [derper] twins).refreshSubnets []).router.lookup
      (.v4 (.ofOctets 192 168 5 9))).map (·.info.peerId) = some 1 := by
    decide +kernel
  obtain ⟨p, hp, hid⟩ := Option.map_eq_some_iff.mp hcarried
  exact ⟨hcarried, (hinherited _ p hp hid).standby _ lan 2 rfl hlongest hstandby⟩

end Sample

end NoeioDaemon

end Noeio
