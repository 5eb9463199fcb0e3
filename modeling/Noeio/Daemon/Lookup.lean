import Noeio.Daemon.Router

/-!
# Who carries an address and who may send from it

`Router::lookup` scans the subnet table from the front. The table stays sorted through
replacement and removal (`Tabled`), and among blocks in network form that contain one address
the order of the table is the order of preference: longer prefixes first, then lower peer ids
(`precedes_of_contains`). So the first hit of the scan is the `Longest` one
(`lookup_is_longest_prefix`).

`Router::allowed_source` is the other direction. It reads what a peer advertises and not what
this node accepts, so a peer may also send from the address of another one that its blocks
contain, and from ours; `allowed_source_exact` says from which addresses it may.
-/

namespace Noeio.Router

/-- The entry `e` is the one for `a`: it contains `a`, and every other entry that does has a
shorter prefix, or the same block with a higher peer id. -/
def Longest (r : Router) (a : Ipv4Addr) (e : Ipv4Cidr × PeerId) : Prop :=
  e ∈ r.subnets ∧ e.1.containsAddr a = true ∧
    ∀ f ∈ r.subnets, f.1.containsAddr a = true →
      f.1.prefixLen < e.1.prefixLen ∨ f.1 = e.1 ∧ e.2 ≤ f.2

/-- `lookup` is longest-prefix match over the subnet table. -/
structure LongestPrefixMatch (r : Router) : Prop where
  /-- A peer's own address wins. -/
  host : ∀ a p, r.get (.v4 a) = some p → r.lookup (.v4 a) = some p
  exit : ∀ a, r.get (.v4 a) = none → ∀ e, r.Longest a e → r.lookup (.v4 a) = r.getByPeerId e.2
  exists_longest : ∀ a, (∃ e ∈ r.subnets, e.1.containsAddr a = true) → ∃ e, r.Longest a e
  miss : ∀ a, r.get (.v4 a) = none → (∀ e ∈ r.subnets, e.1.containsAddr a = false) →
    r.lookup (.v4 a) = none

/-- The entry is in network form. -/
def Normalized (e : Ipv4Cidr × PeerId) : Prop := e.1.network = e.1

/-- The subnet table is sorted, and its blocks are in network form. -/
structure Tabled (r : Router) : Prop where
  sorted : SortedTable.Sorted precedes r.subnets
  normalized : ∀ e ∈ r.subnets, Normalized e

/-- Among normalized blocks that contain one address, the order of the table says which is
longer, and between equal ones which peer id is lower. -/
theorem precedes_of_contains {e f : Ipv4Cidr × PeerId} (he : Normalized e) (hf : Normalized f)
    {a : Ipv4Addr} (hea : e.1.containsAddr a = true) (hfa : f.1.containsAddr a = true) :
    precedes e f = true ↔ f.1.prefixLen < e.1.prefixLen ∨ f.1 = e.1 ∧ e.2 ≤ f.2 := by
  have hsame : e.1.prefixLen = f.1.prefixLen → f.1 = e.1 := by
    intro hp
    have hnet := Ipv4Cidr.network_eq_of_meets ⟨a, hea, hfa⟩ hp
    rw [← he, ← hf, hnet]
  rw [precedes_iff]
  constructor
  · rintro (h | ⟨hp, hle⟩)
    · exact Or.inl h
    · have heq := hsame hp
      rw [heq] at hle
      rcases hle with hlt | ⟨-, hle⟩
      · exact absurd hlt (Nat.lt_irrefl _)
      · exact Or.inr ⟨heq, UInt32.le_iff_toNat_le.mpr hle⟩
  · rintro (h | ⟨heq, hle⟩)
    · exact Or.inl h
    · rw [heq]
      exact Or.inr ⟨rfl, Or.inr ⟨rfl, UInt32.le_iff_toNat_le.mp hle⟩⟩

theorem Tabled.find?_eq_some_iff {r : Router} (h : r.Tabled) {a : Ipv4Addr}
    {e : Ipv4Cidr × PeerId} :
    r.subnets.find? (·.1.containsAddr a) = some e ↔ r.Longest a e := by
  rw [h.sorted.find?_eq_some_iff isOrder_precedes, Longest]
  refine and_congr_right fun hmem => and_congr_right fun hea => ?_
  refine forall₂_congr fun f hf => imp_congr_right fun hfa => ?_
  exact precedes_of_contains (h.normalized e hmem) (h.normalized f hf) hea hfa

/-- A longest entry is the one for the address if its block has no other exit. -/
theorem Tabled.longest_of_le {r : Router} (h : r.Tabled) {a : Ipv4Addr} {e : Ipv4Cidr × PeerId}
    (he : e ∈ r.subnets) (ha : e.1.containsAddr a = true)
    (hle : ∀ f ∈ r.subnets, f.1.containsAddr a = true → f.1.prefixLen ≤ e.1.prefixLen)
    (hone : ∀ f ∈ r.subnets, f.1 = e.1 → f.2 = e.2) : r.Longest a e := by
  refine ⟨he, ha, fun f hf hfa => ?_⟩
  rcases Nat.lt_or_eq_of_le (hle f hf hfa) with hlt | heq
  · exact Or.inl hlt
  · -- two blocks of one length that share an address
    have hsame : f.1 = e.1 := by
      rw [← h.normalized f hf, ← h.normalized e he, Ipv4Cidr.network_eq_of_meets ⟨a, hfa, ha⟩ heq]
    exact Or.inr ⟨hsame, UInt32.le_of_eq (hone f hf hsame).symm⟩

theorem Tabled.longestPrefixMatch {r : Router} (h : r.Tabled) : r.LongestPrefixMatch where
  host _ _ hp := lookup_of_get hp
  exit a hget e he := by
    have hfind := h.find?_eq_some_iff.mpr he
    unfold lookup
    rw [hget]
    simp only [hfind, Option.bind_eq_bind, Option.bind_some]
  exists_longest a := by
    rintro ⟨e, hmem, hea⟩
    have hsome : (r.subnets.find? (·.1.containsAddr a)).isSome = true :=
      List.find?_isSome.mpr ⟨e, hmem, hea⟩
    obtain ⟨f, hf⟩ := Option.isSome_iff_exists.mp hsome
    exact ⟨f, h.find?_eq_some_iff.mp hf⟩
  miss a hget hnone := by
    have hfind : r.subnets.find? (·.1.containsAddr a) = none := by
      rw [List.find?_eq_none]
      intro e he
      simp [hnone e he]
    unfold lookup
    rw [hget]
    simp only [hfind, Option.bind_eq_bind, Option.bind_none]

/-! ## What the operations do to the table -/

theorem remove_eq_some {r r' : Router} {ip : IpAddr} {p : Peer} (h : r.remove ip = (some p, r')) :
    r.get ip = some p ∧ r'.subnets = r.subnets.filter fun e => e.2 ≠ p.info.peerId := by
  unfold remove at h
  split at h
  · cases h
  · rename_i peer hpeer
    obtain ⟨hp, rfl⟩ := Prod.mk.inj h
    obtain rfl := Option.some.inj hp
    exact ⟨hpeer, rfl⟩

theorem subnets_remove (r : Router) (ip : IpAddr) :
    ∃ keep : Ipv4Cidr × PeerId → Bool, (r.remove ip).2.subnets = r.subnets.filter keep := by
  unfold remove
  split
  · exact ⟨fun _ => true, by simp⟩
  · exact ⟨_, rfl⟩

theorem Tabled.filter {r r' : Router} (h : r.Tabled) {keep : Ipv4Cidr × PeerId → Bool}
    (hr : r'.subnets = r.subnets.filter keep) : r'.Tabled where
  sorted := hr ▸ h.sorted.filter keep
  normalized e he := h.normalized e (List.mem_of_mem_filter (hr ▸ he))

theorem tabled_new : new.Tabled := ⟨SortedTable.Sorted.nil, fun _ he => by cases he⟩

theorem Tabled.remove {r : Router} (h : r.Tabled) (ip : IpAddr) : (r.remove ip).2.Tabled := by
  obtain ⟨keep, hkeep⟩ := subnets_remove r ip
  exact h.filter hkeep

theorem Tabled.removeByPeerId {r : Router} (h : r.Tabled) (x : PeerId) :
    (r.removeByPeerId x).2.Tabled := by
  unfold Router.removeByPeerId
  split
  · exact h
  · exact h.remove _

theorem tabled_setSubnets (r : Router) {entries : List (Ipv4Cidr × PeerId)}
    (hentries : ∀ e ∈ entries, Normalized e) : (r.setSubnets entries).Tabled where
  sorted := by
    rw [subnets_setSubnets]
    exact SortedTable.sorted_ofList isOrder_precedes entries
  normalized e he := hentries e (mem_setSubnets.mp he)

/-- Every table that is handed over has its blocks in network form. -/
def Op.Normalized : Op → Prop
  | .setSubnets entries => ∀ e ∈ entries, Router.Normalized e
  | _ => True

theorem Tabled.apply {r : Router} (h : r.Tabled) {op : Op} (hop : op.Normalized) :
    (r.apply op).Tabled := by
  cases op with
  | insert peer => exact ⟨h.sorted, h.normalized⟩
  | updateInfo info localPeerId =>
    simp only [Router.apply]
    split
    · exact ⟨h.sorted, h.normalized⟩
    · exact h
  | remove ip => exact h.remove ip
  | removeByPeerId x => exact h.removeByPeerId x
  | setSubnets entries => exact tabled_setSubnets r hop

theorem tabled_run {ops : List Op} (hops : ∀ op ∈ ops, op.Normalized) : (run ops).Tabled :=
  Runs.invariant (P := fun _ => Tabled) tabled_new (fun _ _ _ h hop => h.apply hop)
    (Runs.meets_of_forall hops)

/-- The peer `p` was removed, with the table entries that name its id, and `lookup` is
longest-prefix match over the entries that remain. -/
structure FallsThrough (r r' : Router) (p : Peer) : Prop where
  subnets : ∀ e, e ∈ r'.subnets ↔ e ∈ r.subnets ∧ e.2 ≠ p.info.peerId
  longestPrefixMatch : r'.LongestPrefixMatch

theorem Tabled.fallsThrough {r r' : Router} (h : r.Tabled) {ip : IpAddr} {p : Peer}
    (hremove : r.remove ip = (some p, r')) : r.FallsThrough r' p where
  subnets e := by
    rw [(remove_eq_some hremove).2, List.mem_filter, decide_eq_true_eq]
  longestPrefixMatch := by
    have htabled := h.remove ip
    rw [hremove] at htabled
    exact htabled.longestPrefixMatch

/-- **Lookup is longest-prefix match**: after any sequence of operations in which the subnet
tables are in network form, a peer stored under the address is returned; otherwise the exit
of the longest prefix that contains the address, the lowest peer id first, is resolved through
the id index; otherwise nothing is returned. After the removal of a peer no entry names its
id, and the match goes to the longest of the entries that remain. -/
theorem lookup_is_longest_prefix (ops : List Op) (hops : ∀ op ∈ ops, op.Normalized) :
    (run ops).LongestPrefixMatch ∧
      (∀ ip p r', (run ops).remove ip = (some p, r') → (run ops).FallsThrough r' p) ∧
      ∀ x p r', (run ops).removeByPeerId x = (some p, r') → (run ops).FallsThrough r' p := by
  have h := tabled_run hops
  refine ⟨h.longestPrefixMatch, fun ip p r' hr => h.fallsThrough hr, fun x p r' hr => ?_⟩
  unfold removeByPeerId at hr
  split at hr
  · cases hr
  · exact h.fallsThrough hr

namespace Sample

def exitPeer (x : PeerId) (last : UInt8) : Peer :=
  .new ⟨1, x, .v4 (.ofOctets 110 20 0 last), .replicate 16 1, .other, none, [], [], false⟩ 7

def nestedExits : List (Ipv4Cidr × PeerId) :=
  [(.ofOctets 10 0 0 0 8, 2), (.ofOctets 192 168 10 0 24, 1), (.ofOctets 10 1 0 0 16, 1)]

/-- Two exits with nested prefixes. -/
def nested : List Op := [.insert (exitPeer 1 1), .insert (exitPeer 2 9), .setSubnets nestedExits]

/-- The longer prefix wins, and its block falls to the other exit once its peer is removed. -/
theorem lookup_is_longest_prefix_nested :
    ((run nested).lookup (.v4 (.ofOctets 10 1 2 3))).map (·.info.peerId) = some 1 ∧
      (((run nested).remove (.v4 (.ofOctets 110 20 0 1))).2.lookup
        (.v4 (.ofOctets 10 1 2 3))).map (·.info.peerId) = some 2 := by
  have hops : ∀ op ∈ nested, op.Normalized := by
    simp only [nested, List.mem_cons, List.not_mem_nil, or_false]
    rintro op (rfl | rfl | rfl)
    · trivial
    · trivial
    · unfold Op.Normalized Normalized
      decide
  obtain ⟨hlpm, hremove, -⟩ := lookup_is_longest_prefix nested hops
  have hmem : ∀ e, e ∈ (run nested).subnets ↔ e ∈ nestedExits := fun _ => mem_setSubnets
  have hfall := hremove (.v4 (.ofOctets 110 20 0 1)) (exitPeer 1 1)
    ((run nested).remove (.v4 (.ofOctets 110 20 0 1))).2 (Prod.ext (by decide +kernel) rfl)
  have hlong : (run nested).Longest (.ofOctets 10 1 2 3) (.ofOctets 10 1 0 0 16, 1) := by
    simp only [Longest, hmem]
    decide
  have hnext : ((run nested).remove (.v4 (.ofOctets 110 20 0 1))).2.Longest (.ofOctets 10 1 2 3)
      (.ofOctets 10 0 0 0 8, 2) := by
    simp only [Longest, hfall.subnets, hmem, and_imp]
    decide
  refine ⟨?_, ?_⟩
  · rw [hlpm.exit _ (by decide +kernel) _ hlong]
    decide +kernel
  · rw [hfall.longestPrefixMatch.exit _ (by decide +kernel) _ hnext]
    decide +kernel

end Sample

/-! ## Allowed sources -/

/-- One of the advertised blocks contains the address. -/
def Covers (info : PeerInfo) (a : IpAddr) : Prop :=
  ∃ v, a = .v4 v ∧ ∃ c ∈ info.advertisedRoutes, c.containsAddr v = true

theorem allowedSource_iff {info : PeerInfo} {a : IpAddr} :
    allowedSource info a = true ↔ a = info.noeioIp ∨ Covers info a := by
  unfold allowedSource Covers
  split
  · rename_i ha
    simp [ha]
  · rename_i ha
    cases a with
    | v4 v => simp [ha, List.any_eq_true]
    | v6 v => simp [ha]

/-- **Allowed sources**: after any sequence of operations, a stored peer may send from the
address of another stored peer if and only if one of the blocks it advertises contains that
address, and from any address (of our own nics, say) if and only if it has that address or
advertises a block that contains it. So an address that no stored peer advertises is given to
the one peer that has it. -/
theorem allowed_source_exact (ops : List Op) :
    (∀ ip p ip' q, (run ops).get ip = some p → (run ops).get ip' = some q → ip ≠ ip' →
      (allowedSource p.info q.info.noeioIp = true ↔ Covers p.info q.info.noeioIp)) ∧
    (∀ ip p a, (run ops).get ip = some p →
      (allowedSource p.info a = true ↔ a = p.info.noeioIp ∨ Covers p.info a)) ∧
    ∀ ip q, (run ops).get ip = some q →
      (∀ ip' p, (run ops).get ip' = some p → ¬ Covers p.info q.info.noeioIp) →
        ∃! ip', ∃ p, (run ops).get ip' = some p ∧ allowedSource p.info q.info.noeioIp = true := by
  have hat := (wellIndexed_run ops).atIp
  have hown : ∀ ip p ip' q, (run ops).get ip = some p → (run ops).get ip' = some q →
      q.info.noeioIp = p.info.noeioIp → ip = ip' := by
    intro ip p ip' q hp hq heq
    rw [← hat ip p hp, ← hat ip' q hq, heq]
  refine ⟨fun ip p ip' q hp hq hne => ?_, fun ip p a _ => allowedSource_iff, ?_⟩
  · rw [allowedSource_iff]
    exact or_iff_right fun heq => hne (hown ip p ip' q hp hq heq)
  · intro ip q hq hclear
    refine ⟨ip, ⟨q, hq, allowedSource_iff.mpr (Or.inl rfl)⟩, ?_⟩
    rintro ip' ⟨p, hp, hallowed⟩
    rcases allowedSource_iff.mp hallowed with heq | hcovers
    · exact hown ip' p ip q hp hq heq
    · exact absurd hcovers (hclear ip' p hp)

namespace Sample

/-- A peer that advertises the block all overlay addresses are in. -/
def swallower : Peer :=
  .new ⟨1, 3, .v4 (.ofOctets 110 20 0 3), .replicate 16 1, .other, none, [],
    [.ofOctets 110 20 0 0 16], false⟩ 7

def swallowing : List Op := [.insert (exitPeer 1 1), .insert swallower]

theorem allowed_source_exact_swallowing :
    allowedSource swallower.info (.v4 (.ofOctets 110 20 0 1)) = true ∧
      ¬ allowedSource (exitPeer 1 1).info (.v4 (.ofOctets 110 20 0 3)) = true := by
  have hone : (run swallowing).get (.v4 (.ofOctets 110 20 0 1)) = some (exitPeer 1 1) := by
    decide +kernel
  have hthree : (run swallowing).get (.v4 (.ofOctets 110 20 0 3)) = some swallower := by
    decide +kernel
  obtain ⟨hother, -, -⟩ := allowed_source_exact swallowing
  refine ⟨(hother _ _ _ _ hthree hone (by decide)).mpr ⟨_, rfl, _, List.mem_cons_self, ?_⟩, ?_⟩
  · decide
  · intro hallowed
    obtain ⟨-, -, c, hc, -⟩ := (hother _ _ _ _ hone hthree (by decide)).mp hallowed
    cases hc

/-- The peer may send from the address of its neighbour, and from one of our own nics. -/
theorem speaks_for_others :
    (run swallowing).get (.v4 (.ofOctets 110 20 0 3)) = some swallower ∧
      (run swallowing).get (.v4 (.ofOctets 110 20 0 1)) = some (exitPeer 1 1) ∧
      allowedSource swallower.info (exitPeer 1 1).info.noeioIp = true ∧
      allowedSource swallower.info (.v4 (.ofOctets 110 20 0 7)) = true := by
  refine ⟨?_, ?_, ?_, ?_⟩ <;> decide +kernel

end Sample

end Noeio.Router
