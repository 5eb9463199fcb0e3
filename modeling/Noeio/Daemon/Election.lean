import Noeio.Daemon.NoeioDaemon

/-!
# Which exits are accepted

What `Routes.decide` decides, in terms of addresses. The code compares blocks by their first
addresses and prefix lengths, and keeps the lowest peer id for each prefix while it walks over
the list; the specification `ConsumerPolicy.reason` says which addresses must not be shared
and who the lowest peer is. `decide_exact` is their agreement, entry by entry.

From it, the accepted table has one exit for each prefix (`decide_exact`) and is the same
whatever the order in which the advertisements come (`accepted_order_free`): which entries are
accepted depends on the set of advertisements only, and the table is sorted.
-/

namespace Noeio

/-! ## Overlap -/

theorem overlaps_iff {a b : Ipv4Cidr} : overlaps a b = true ↔ a.Meets b := by
  rw [overlaps, Bool.or_eq_true]
  constructor
  · rintro (h | h)
    · exact Ipv4Cidr.meets_of_containsSubnet h
    · exact (Ipv4Cidr.meets_of_containsSubnet h).symm
  · intro h
    rcases Nat.le_total a.prefixLen b.prefixLen with hp | hp
    · exact Or.inl (Ipv4Cidr.containsSubnet_of_meets h hp)
    · exact Or.inr (Ipv4Cidr.containsSubnet_of_meets h.symm hp)

theorem any_overlaps_iff {blocks : List Ipv4Cidr} {c : Ipv4Cidr} :
    blocks.any (overlaps · c) = true ↔ ∃ b ∈ blocks, b.Meets c := by
  simp only [List.any_eq_true, overlaps_iff]

/-! ## The election -/

/-- The peer `p` advertises a block with the network form `n`. -/
def Advertises (advertised : List (PeerId × Ipv4Cidr)) (p : PeerId) (n : Ipv4Cidr) : Prop :=
  ∃ c, (p, c) ∈ advertised ∧ c.network = n

/-- `p` is the lowest peer id that advertises `n`. -/
def Lowest (advertised : List (PeerId × Ipv4Cidr)) (n : Ipv4Cidr) (p : PeerId) : Prop :=
  Advertises advertised p n ∧ ∀ q, Advertises advertised q n → p ≤ q

theorem Lowest.unique {advertised : List (PeerId × Ipv4Cidr)} {n : Ipv4Cidr} {p q : PeerId}
    (hp : Lowest advertised n p) (hq : Lowest advertised n q) : p = q :=
  UInt32.le_antisymm (hp.2 q hq.1) (hq.2 p hp.1)

theorem advertises_concat {advertised : List (PeerId × Ipv4Cidr)} {q p : PeerId}
    {c n : Ipv4Cidr} : Advertises (advertised ++ [(q, c)]) p n ↔
      Advertises advertised p n ∨ p = q ∧ c.network = n := by
  simp only [Advertises, List.mem_append, List.mem_singleton, Prod.mk.injEq]
  constructor
  · rintro ⟨d, h | ⟨rfl, rfl⟩, hd⟩
    · exact Or.inl ⟨d, h, hd⟩
    · exact Or.inr ⟨rfl, hd⟩
  · rintro (⟨d, h, hd⟩ | ⟨rfl, hc⟩)
    · exact ⟨d, Or.inl h, hd⟩
    · exact ⟨c, Or.inr ⟨rfl, rfl⟩, hc⟩

theorem active_concat (advertised : List (PeerId × Ipv4Cidr)) (q : PeerId) (c : Ipv4Cidr) :
    active (advertised ++ [(q, c)]) = (active advertised).insert c.network
      (match (active advertised).lookup c.network with
        | some p => min p q
        | none => q) := by
  rw [active, List.foldl_append]
  rfl

/-- The first peer to advertise a prefix is the lowest so far. -/
theorem lowest_of_first {before : List (PeerId × Ipv4Cidr)} {c : Ipv4Cidr} (q : PeerId)
    (h : ∀ p, ¬ Advertises before p c.network) : Lowest (before ++ [(q, c)]) c.network q := by
  refine ⟨advertises_concat.mpr (Or.inr ⟨rfl, rfl⟩), fun r hr => ?_⟩
  rcases advertises_concat.mp hr with hr | ⟨rfl, -⟩
  · exact absurd hr (h r)
  · exact UInt32.le_refl _

/-- The next one takes over if it is lower. -/
theorem Lowest.concat {before : List (PeerId × Ipv4Cidr)} {c : Ipv4Cidr} {old : PeerId}
    (h : Lowest before c.network old) (q : PeerId) :
    Lowest (before ++ [(q, c)]) c.network (min old q) := by
  obtain ⟨hadv, hlow⟩ := h
  have hmin : min old q = if old ≤ q then old else q := rfl
  rw [hmin]
  split
  · rename_i hle
    refine ⟨advertises_concat.mpr (Or.inl hadv), fun r hr => ?_⟩
    rcases advertises_concat.mp hr with hr | ⟨rfl, -⟩
    · exact hlow r hr
    · exact hle
  · rename_i hgt
    refine ⟨advertises_concat.mpr (Or.inr ⟨rfl, rfl⟩), fun r hr => ?_⟩
    rcases advertises_concat.mp hr with hr | ⟨rfl, -⟩
    · exact UInt32.le_trans (UInt32.le_of_lt (UInt32.not_le.mp hgt)) (hlow r hr)
    · exact UInt32.le_refl _

/-- After any part of the list, the map holds the lowest peer so far of each prefix. -/
theorem lookup_active (advertised : List (PeerId × Ipv4Cidr)) (n : Ipv4Cidr) :
    (∀ p, (active advertised).lookup n = some p → Lowest advertised n p) ∧
      ((active advertised).lookup n = none → ∀ p, ¬ Advertises advertised p n) := by
  induction advertised using List.reverseRecOn with
  | nil => simp [active, Advertises]
  | append_singleton before e ih =>
    obtain ⟨q, c⟩ := e
    obtain ⟨hsome, hnone⟩ := ih
    rw [active_concat]
    by_cases hn : c.network = n
    · subst hn
      rw [AList.lookup_insert]
      refine ⟨fun p hp => ?_, fun h => by cases h⟩
      cases hold : (active before).lookup c.network with
      | none =>
        rw [hold] at hp
        obtain rfl := Option.some.inj hp
        exact lowest_of_first _ (hnone hold)
      | some old =>
        rw [hold] at hp
        obtain rfl := Option.some.inj hp
        exact (hsome old hold).concat q
    · have hne : n ≠ c.network := fun h => hn h.symm
      have hsame : ∀ p, Advertises (before ++ [(q, c)]) p n ↔ Advertises before p n := by
        intro p
        rw [advertises_concat]
        simp [hn]
      rw [AList.lookup_insert_ne hne]
      refine ⟨fun p hp => ?_, fun h p => ?_⟩
      · obtain ⟨hadv, hlow⟩ := hsome p hp
        exact ⟨(hsame p).mpr hadv, fun r hr => hlow r ((hsame r).mp hr)⟩
      · rw [hsame]
        exact hnone h p

theorem lookup_active_eq_some {advertised : List (PeerId × Ipv4Cidr)} {n : Ipv4Cidr} {p : PeerId} :
    (active advertised).lookup n = some p ↔ Lowest advertised n p := by
  obtain ⟨hsome, hnone⟩ := lookup_active advertised n
  refine ⟨hsome p, fun h => ?_⟩
  cases hl : (active advertised).lookup n with
  | none => exact absurd h.1 (hnone hl p)
  | some q => rw [(hsome q hl).unique h]

theorem exists_lowest {advertised : List (PeerId × Ipv4Cidr)} {n : Ipv4Cidr} {p : PeerId}
    (h : Advertises advertised p n) : ∃ q, Lowest advertised n q := by
  obtain ⟨hsome, hnone⟩ := lookup_active advertised n
  cases hl : (active advertised).lookup n with
  | none => exact absurd h (hnone hl p)
  | some q => exact ⟨q, hsome q hl⟩

/-! ## The decisions -/

/-- The block shares addresses with a network the host is attached to. -/
def ConsumerPolicy.MeetsLan (policy : ConsumerPolicy) (n : Ipv4Cidr) : Prop :=
  ∃ lan ∈ policy.localLans, lan.Meets n

/-- The block shares addresses with a block the host advertises. -/
def ConsumerPolicy.MeetsOwn (policy : ConsumerPolicy) (n : Ipv4Cidr) : Prop :=
  ∃ own ∈ policy.selfAdvertised, own.Meets n

/-- The block is too large or contains an address that must be spared. -/
def ConsumerPolicy.Unfit (policy : ConsumerPolicy) (n : Ipv4Cidr) : Prop :=
  n.prefixLen < 8 ∨ ∃ a, n.containsAddr a = true ∧ policy.guarded.Sensitive a

/-- A lower peer advertises the block. -/
def Outbid (advertised : List (PeerId × Ipv4Cidr)) (p : PeerId) (n : Ipv4Cidr) : Prop :=
  ∃ q, Advertises advertised q n ∧ q < p

open Classical in
/-- Why the block `n` of the peer `p` is not installed, in terms of addresses: the first of
the conditions that fails. -/
noncomputable def ConsumerPolicy.reason (policy : ConsumerPolicy)
    (advertised : List (PeerId × Ipv4Cidr)) (p : PeerId) (n : Ipv4Cidr) : Option Rejection :=
  if policy.MeetsLan n then some .localLan
  else if policy.MeetsOwn n then some .selfAdvertised
  else if policy.Unfit n then some .invalid
  else if Outbid advertised p n then some .standby
  else none

/-- The block can be installed if its peer is elected. -/
structure ConsumerPolicy.Acceptable (policy : ConsumerPolicy) (n : Ipv4Cidr) : Prop where
  lan : ∀ lan ∈ policy.localLans, ¬ lan.Meets n
  own : ∀ own ∈ policy.selfAdvertised, ¬ own.Meets n
  prefixLen : 8 ≤ n.prefixLen
  spared : ∀ a, n.containsAddr a = true → ¬ policy.guarded.Sensitive a

theorem ConsumerPolicy.acceptable_iff {policy : ConsumerPolicy} {n : Ipv4Cidr} :
    policy.Acceptable n ↔ ¬ policy.MeetsLan n ∧ ¬ policy.MeetsOwn n ∧ ¬ policy.Unfit n := by
  simp only [MeetsLan, MeetsOwn, Unfit, not_or, Nat.not_lt, not_exists, not_and]
  constructor
  · intro h
    exact ⟨h.lan, h.own, h.prefixLen, h.spared⟩
  · rintro ⟨hlan, hown, hprefixLen, hspared⟩
    exact ⟨hlan, hown, hprefixLen, hspared⟩

section
variable {policy : ConsumerPolicy} {advertised : List (PeerId × Ipv4Cidr)} {p : PeerId} {n : Ipv4Cidr}

open Classical in
/-- For an acceptable block only the election is left. -/
theorem ConsumerPolicy.reason_of_acceptable (h : policy.Acceptable n) :
    policy.reason advertised p n = if Outbid advertised p n then some .standby else none := by
  obtain ⟨hlan, hown, hfit⟩ := acceptable_iff.mp h
  rw [reason, if_neg hlan, if_neg hown, if_neg hfit]

theorem ConsumerPolicy.acceptable_of_reason
    (h : policy.reason advertised p n = none ∨ policy.reason advertised p n = some .standby) :
    policy.Acceptable n := by
  unfold reason at h
  split at h
  · simp at h
  rename_i hlan
  split at h
  · simp at h
  rename_i hown
  split at h
  · simp at h
  rename_i hfit
  exact acceptable_iff.mpr ⟨hlan, hown, hfit⟩

theorem ConsumerPolicy.reason_eq_none (h : Advertises advertised p n) :
    policy.reason advertised p n = none ↔ policy.Acceptable n ∧ Lowest advertised n p := by
  constructor
  · intro hnone
    have hok := acceptable_of_reason (Or.inl hnone)
    rw [reason_of_acceptable hok] at hnone
    split at hnone
    · cases hnone
    rename_i hlow
    exact ⟨hok, h, fun q hq => UInt32.not_lt.mp fun hlt => hlow ⟨q, hq, hlt⟩⟩
  · rintro ⟨hok, -, hlow⟩
    rw [reason_of_acceptable hok, if_neg]
    rintro ⟨q, hq, hlt⟩
    exact UInt32.not_le.mpr hlt (hlow q hq)

/-- A standby block is acceptable and advertised by a lower peer. -/
theorem ConsumerPolicy.outbid_of_reason (h : policy.reason advertised p n = some .standby) :
    policy.Acceptable n ∧ Outbid advertised p n := by
  have hok := acceptable_of_reason (Or.inr h)
  rw [reason_of_acceptable hok] at h
  split at h
  · rename_i hbid
    exact ⟨hok, hbid⟩
  · cases h

end

theorem validateCidr_ne_ok {c : Ipv4Cidr} {guarded : Protected} :
    validateCidr c guarded ≠ .ok () ↔
      c.prefixLen < 8 ∨ ∃ a, c.containsAddr a = true ∧ guarded.Sensitive a := by
  rw [ne_eq, validateCidr_eq_ok, not_and_or, Nat.not_le]
  simp only [not_forall, not_not, exists_prop]
  rfl

theorem lookup_active_ne {advertised : List (PeerId × Ipv4Cidr)} {p : PeerId} {n : Ipv4Cidr}
    (h : Advertises advertised p n) :
    (active advertised).lookup n ≠ some p ↔ ∃ q, Advertises advertised q n ∧ q < p := by
  rw [ne_eq, lookup_active_eq_some, Lowest, not_and]
  constructor
  · intro hlow
    have hq := hlow h
    push Not at hq
    obtain ⟨q, hq, hlt⟩ := hq
    exact ⟨q, hq, UInt32.not_le.mp hlt⟩
  · rintro ⟨q, hq, hlt⟩ - hlow
    exact UInt32.not_le.mpr hlt (hlow q hq)

/-- Each advertisement is decided by the first condition that fails. -/
theorem decide_eq_map {policy : ConsumerPolicy} (hon : policy.acceptRoutes = true)
    (advertised : List (PeerId × Ipv4Cidr)) :
    Routes.decide policy advertised =
      advertised.map fun (p, c) => ⟨c.network, p, policy.reason advertised p c.network⟩ := by
  unfold Routes.decide
  rw [if_neg (by simp [hon])]
  refine List.map_congr_left fun e he => ?_
  obtain ⟨p, c⟩ := e
  have hadv : Advertises advertised p c.network := ⟨c, he, rfl⟩
  classical
  refine congrArg (Decision.mk c.network p) ?_
  exact if_congr any_overlaps_iff rfl (if_congr any_overlaps_iff rfl
    (if_congr validateCidr_ne_ok rfl (if_congr (lookup_active_ne hadv) rfl rfl)))

theorem mem_decide {policy : ConsumerPolicy} (hon : policy.acceptRoutes = true)
    {advertised : List (PeerId × Ipv4Cidr)} {n : Ipv4Cidr} {p : PeerId} :
    ⟨n, p, none⟩ ∈ Routes.decide policy advertised ↔
      policy.Acceptable n ∧ Lowest advertised n p := by
  rw [decide_eq_map hon]
  simp only [List.mem_map, Prod.exists, Decision.mk.injEq]
  constructor
  · rintro ⟨q, c, hmem, rfl, rfl, hnone⟩
    exact (ConsumerPolicy.reason_eq_none ⟨c, hmem, rfl⟩).mp hnone
  · rintro ⟨hok, hlow⟩
    obtain ⟨c, hmem, rfl⟩ := hlow.1
    exact ⟨p, c, hmem, rfl, rfl, (ConsumerPolicy.reason_eq_none hlow.1).mpr ⟨hok, hlow⟩⟩

/-- **`decide` accepts exactly the right exits**: with routes accepted, each advertisement is
decided by the first condition that fails; it is accepted if and only if its block is
acceptable and its peer is the lowest that advertises it; so a prefix has at most one accepted
peer, and exactly one if it is advertised and acceptable. -/
theorem decide_exact (policy : ConsumerPolicy) (hon : policy.acceptRoutes = true)
    (advertised : List (PeerId × Ipv4Cidr)) :
    Routes.decide policy advertised =
        (advertised.map fun (p, c) => ⟨c.network, p, policy.reason advertised p c.network⟩) ∧
      (∀ p c, (p, c) ∈ advertised → (policy.reason advertised p c.network = none ↔
        policy.Acceptable c.network ∧ Lowest advertised c.network p)) ∧
      ∀ n, (∀ p q, ⟨n, p, none⟩ ∈ Routes.decide policy advertised →
          ⟨n, q, none⟩ ∈ Routes.decide policy advertised → p = q) ∧
        ((∃ p, Advertises advertised p n) → policy.Acceptable n →
          ∃! p, ⟨n, p, none⟩ ∈ Routes.decide policy advertised) := by
  have hunique : ∀ n p q, ⟨n, p, none⟩ ∈ Routes.decide policy advertised →
      ⟨n, q, none⟩ ∈ Routes.decide policy advertised → p = q := by
    intro n p q hp hq
    exact ((mem_decide hon).mp hp).2.unique ((mem_decide hon).mp hq).2
  refine ⟨decide_eq_map hon advertised, fun p c hmem => ?_, fun n => ⟨hunique n, ?_⟩⟩
  · exact ConsumerPolicy.reason_eq_none ⟨c, hmem, rfl⟩
  · rintro ⟨p, hp⟩ hok
    obtain ⟨q, hq⟩ := exists_lowest hp
    have hmem := (mem_decide hon).mpr ⟨hok, hq⟩
    exact ⟨q, hmem, fun r hr => hunique n r q hr hmem⟩

namespace Sample

def consumer : ConsumerPolicy :=
  ⟨true, [.ofOctets 192 168 1 0 24], [.ofOctets 172 16 0 0 16], ⟨[], [.v4 (.ofOctets 203 0 113 9)]⟩⟩

def ten : Ipv4Cidr := .ofOctets 10 0 0 0 8

/-- Two exits for one prefix, one of them with host bits set. -/
def twoExits : List (PeerId × Ipv4Cidr) := [(20, ten), (10, .ofOctets 10 0 0 7 8)]

theorem decide_exact_twoExits :
    Routes.decide consumer twoExits = [⟨ten, 20, some .standby⟩, ⟨ten, 10, none⟩] ∧
      ∀ p, ⟨ten, p, none⟩ ∈ Routes.decide consumer twoExits → p = 10 := by
  have hdecide : Routes.decide consumer twoExits =
      [⟨ten, 20, some .standby⟩, ⟨ten, 10, none⟩] := by
    decide +kernel
  have hten : ⟨ten, 10, none⟩ ∈ Routes.decide consumer twoExits := by
    rw [hdecide]
    exact List.mem_cons_of_mem _ List.mem_cons_self
  exact ⟨hdecide, fun p hp => ((decide_exact consumer rfl twoExits).2.2 ten).1 p 10 hp hten⟩

end Sample

/-! ## The accepted table -/

/-- The entries that `refresh_subnets` hands to `set_subnets`. -/
def accepted (policy : ConsumerPolicy) (advertised : List (PeerId × Ipv4Cidr)) :
    List (Ipv4Cidr × PeerId) :=
  ((Routes.decide policy advertised).filter (·.rejected = none)).map fun d => (d.cidr, d.peerId)

theorem mem_accepted_decide {policy : ConsumerPolicy} {advertised : List (PeerId × Ipv4Cidr)}
    {n : Ipv4Cidr} {p : PeerId} :
    (n, p) ∈ accepted policy advertised ↔ ⟨n, p, none⟩ ∈ Routes.decide policy advertised := by
  simp only [accepted, List.mem_map, List.mem_filter, decide_eq_true_eq, Prod.mk.injEq]
  constructor
  · rintro ⟨⟨cidr, peerId, rejected⟩, ⟨h, rfl⟩, rfl, rfl⟩
    exact h
  · intro h
    exact ⟨_, ⟨h, rfl⟩, rfl, rfl⟩

theorem mem_accepted {policy : ConsumerPolicy} {advertised : List (PeerId × Ipv4Cidr)}
    {n : Ipv4Cidr} {p : PeerId} :
    (n, p) ∈ accepted policy advertised ↔
      policy.acceptRoutes = true ∧ policy.Acceptable n ∧ Lowest advertised n p := by
  rw [mem_accepted_decide]
  cases hon : policy.acceptRoutes with
  | false => simp [Routes.decide, hon]
  | true => simpa using mem_decide hon

/-- The lists contain the same peers with the same blocks in network form. -/
def SameAdvertisements (l l' : List (PeerId × Ipv4Cidr)) : Prop :=
  ∀ p n, Advertises l p n ↔ Advertises l' p n

theorem mem_accepted_congr {policy : ConsumerPolicy} {l l' : List (PeerId × Ipv4Cidr)}
    (h : SameAdvertisements l l') (e : Ipv4Cidr × PeerId) :
    e ∈ accepted policy l ↔ e ∈ accepted policy l' := by
  obtain ⟨n, p⟩ := e
  have hlow : Lowest l n p ↔ Lowest l' n p := by
    simp only [Lowest, h _ _]
  rw [mem_accepted, mem_accepted, hlow]

/-- **The order of the advertisements does not matter**: from any two lists with the same
peers and blocks in network form, in any order and with any repetition, the accepted entries
make the same subnet table; so every address is looked up alike and the same routes are
desired. -/
theorem accepted_order_free (policy : ConsumerPolicy) {l l' : List (PeerId × Ipv4Cidr)}
    (h : SameAdvertisements l l') (d : NoeioDaemon) :
    (d.router.setSubnets (accepted policy l)).subnets =
        (d.router.setSubnets (accepted policy l')).subnets ∧
      (∀ ip, (d.router.setSubnets (accepted policy l)).lookup ip =
        (d.router.setSubnets (accepted policy l')).lookup ip) ∧
      ({ d with router := d.router.setSubnets (accepted policy l) } : NoeioDaemon).desiredRoutes =
        ({ d with router := d.router.setSubnets (accepted policy l') } : NoeioDaemon).desiredRoutes := by
  rw [d.router.setSubnets_congr (mem_accepted_congr h)]
  exact ⟨rfl, fun _ => rfl, rfl⟩

theorem Sample.accepted_order_free_twoExits :
    ((Router.new.setSubnets (accepted consumer twoExits)).subnets =
      (Router.new.setSubnets (accepted consumer [(10, ten), (20, ten), (10, ten)])).subnets) ∧
    (Router.new.setSubnets (accepted consumer twoExits)).subnets = [(ten, 10)] := by
  have hsame : SameAdvertisements twoExits [(10, ten), (20, ten), (10, ten)] := by
    have hnet : (Ipv4Cidr.ofOctets 10 0 0 7 8).network = ten := by decide
    have hten : ten.network = ten := by decide
    intro p n
    simp only [Advertises, twoExits, List.mem_cons, List.not_mem_nil, or_false, Prod.mk.injEq,
      or_and_right, exists_or, and_assoc, exists_and_left, exists_eq_left, hnet, hten]
    tauto
  refine ⟨(accepted_order_free consumer hsame ⟨∅, .new, true, [], [], []⟩).1, ?_⟩
  decide +kernel

end Noeio
