import Noeio.Daemon.Reconciler

/-!
# Memory and kernel

The reconciler compares the desired routes with its memory, not with the kernel's table, so a
pass restores only what the memory knows to be missing. `Believed` says that the two agree:
every remembered key whose nic has an interface has its route in the table.

Everything on the host changes one or the other. Nics are registered, a state file is read,
other people add and delete routes, passes delete and add them, and any operation may fail.
`Undisturbed` names the steps after which the memory is still right, and `reconcile_heals`
proves that in every run of such steps a pass without failures ends with all desired routes in
the table. `not_healed` is the run of the module's own documentation, `ip route del` by hand
and one more pass, after which the route is still gone.
-/

namespace Noeio

/-- The registered nics with their interface indexes, and the reconciler. -/
structure Host where
  nics : AList (fun _ : PeerId => UInt32)
  reconciler : Reconciler

namespace Host

def new (table : RoutingTable) : Host := ⟨∅, ∅, table⟩

def ifindexOf (self : Host) (nic : PeerId) : Option UInt32 := self.nics.lookup nic

inductive Event where
  /-- The keys of the lines of a state file that parse. -/
  | restore (keys : List RouteKey)
  | register (nic : PeerId) (tunIndex : UInt32)
  | outsideAdd (route : KernelRoute)
  | outsideDelete (route : KernelRoute)
  | reconcile (desired : Finset RouteKey) (faults : Faults)

def step (self : Host) : Event → Host
  | .restore keys =>
    { self with reconciler.installed := self.reconciler.installed ∪ keys.toFinset }
  | .register nic tunIndex => { self with nics := self.nics.insert nic tunIndex }
  | .outsideAdd route => { self with reconciler.table := route :: self.reconciler.table }
  | .outsideDelete route => { self with reconciler.table := self.reconciler.table.erase route }
  | .reconcile desired faults =>
    { self with reconciler := (self.reconciler.reconcile self.ifindexOf faults desired).1 }

/-- The kernel holds the route of the key, through the interface of its nic. -/
def Holds (self : Host) (key : RouteKey) : Prop :=
  ∃ index, self.ifindexOf key.nic = some index ∧
    ∃ r ∈ self.reconciler.table, key.hits (some index) r = true

/-- What the reconciler remembers is there. -/
def Believed (self : Host) : Prop :=
  ∀ key ∈ self.reconciler.installed, (self.ifindexOf key.nic).isSome = true → self.Holds key

/-- A pass does not take its own routes away: no key it deletes without an interface, or
through the same interface, has the prefix of a key that stays, and no add that fails is taken for
one that found its route there. -/
structure Separate (h : Host) (desired : Finset RouteKey) (faults : Faults) : Prop where
  del : ∀ key ∈ h.reconciler.installed, key ∈ desired ∨ faults.del key ≠ none →
    ∀ other ∈ h.reconciler.installed, other ∉ desired → faults.del other = none →
      other.cidr = key.cidr →
        ∃ index, h.ifindexOf other.nic = some index ∧ h.ifindexOf key.nic ≠ some index
  add : ∀ key ∈ desired, key ∉ h.reconciler.installed →
    ∀ err, faults.add key = some err → isRouteExists err = false

/-- The step does not set the memory and the table apart. -/
def Undisturbed (self : Host) : Event → Prop
  | .restore keys => ∀ key ∈ keys, self.ifindexOf key.nic = none
  | .register nic _ => ∀ key ∈ self.reconciler.installed, key.nic ≠ nic
  | .outsideAdd _ => True
  | .outsideDelete route => ∀ key ∈ self.reconciler.installed,
      ∀ index, self.ifindexOf key.nic = some index → key.hits (some index) route = false
  | .reconcile desired faults => self.Separate desired faults

end Host

/-! ## What a pass remembers -/

namespace Reconciler

variable {ifindex : PeerId → Option UInt32} {faults : Faults}

theorem Deleted.installed_subset {key : RouteKey} {s t : Reconciler}
    (h : Deleted ifindex faults key s t) : t.installed ⊆ s.installed := by
  cases h with
  | taken hfault => exact Finset.erase_subset _ _
  | missing hfault => exact Finset.erase_subset _ _
  | failed hfault => exact Finset.Subset.refl _

theorem installed_foldl_delete (keys : List RouteKey) (s : Reconciler × Nat) :
    (keys.foldl (delete ifindex faults) s).1.installed ⊆ s.1.installed := by
  refine foldl_delete (P := fun t => t.installed ⊆ s.1.installed) (Finset.Subset.refl _) ?_
  intro key _ t t' ht hdel
  exact Finset.Subset.trans hdel.installed_subset ht

/-- A key whose delete was not refused is forgotten. -/
theorem not_mem_foldl_delete {keys : List RouteKey} {s : Reconciler × Nat} {key : RouteKey}
    (hkey : key ∈ keys) (hfault : faults.del key = none) :
    key ∉ (keys.foldl (delete ifindex faults) s).1.installed := by
  induction keys generalizing s with
  | nil => cases hkey
  | cons other keys ih =>
    rcases List.mem_cons.mp hkey with rfl | hmem
    · intro hin
      have hstep : Deleted ifindex faults key s.1 (delete ifindex faults s key).1 := deleted s key
      have hin := installed_foldl_delete keys _ hin
      revert hin
      generalize (delete ifindex faults s key).1 = t at hstep
      cases hstep with
      | taken hf => exact Finset.notMem_erase _ _
      | missing hf => rw [hfault] at hf; cases hf
      | failed hf => rw [hfault] at hf; cases hf
    · exact ih hmem

/-- A key that no delete is for stays. -/
theorem mem_foldl_delete {keys : List RouteKey} {s : Reconciler × Nat} {key : RouteKey}
    (hkey : key ∉ keys) (h : key ∈ s.1.installed) :
    key ∈ (keys.foldl (delete ifindex faults) s).1.installed := by
  refine foldl_delete (P := fun t => key ∈ t.installed) h ?_
  intro other hother t t' ht hdel
  have hne : key ≠ other := fun heq => hkey (heq ▸ hother)
  cases hdel with
  | taken hf => exact Finset.mem_erase.mpr ⟨hne, ht⟩
  | missing hf => exact Finset.mem_erase.mpr ⟨hne, ht⟩
  | failed hf => exact ht

/-- A route that no delete hits stays. -/
theorem mem_table_foldl_delete {keys : List RouteKey} {s : Reconciler × Nat} {r : KernelRoute}
    (hr : r ∈ s.1.table)
    (hmiss : ∀ key ∈ keys, faults.del key = none → key.hits (ifindex key.nic) r = false) :
    r ∈ (keys.foldl (delete ifindex faults) s).1.table := by
  refine foldl_delete (P := fun t => r ∈ t.table) hr ?_
  intro key hkey t t' ht hdel
  cases hdel with
  | taken hf => exact (List.mem_eraseP_of_neg (by simp [hmiss key hkey hf])).mpr ht
  | missing hf => exact ht
  | failed hf => exact ht

theorem table_foldl_add (keys : List RouteKey) (s : Reconciler × Nat) :
    s.1.table ⊆ (keys.foldl (add ifindex faults) s).1.table := by
  refine foldl_add (P := fun t => s.1.table ⊆ t.table) (List.Subset.refl _) ?_
  intro key _ t t' ht hadd
  exact List.Subset.trans ht hadd.table_subset

/-- A key that is remembered after the adds was remembered before, or its route is in the
table. -/
theorem installed_foldl_add {keys : List RouteKey} {s : Reconciler × Nat}
    (hexists : ∀ key ∈ keys, ∀ err, faults.add key = some err → isRouteExists err = false)
    {key : RouteKey} (h : key ∈ (keys.foldl (add ifindex faults) s).1.installed) :
    key ∈ s.1.installed ∨ ∃ index, ifindex key.nic = some index ∧
      key.route index ∈ (keys.foldl (add ifindex faults) s).1.table := by
  refine foldl_add (P := fun t => ∀ key ∈ t.installed, key ∈ s.1.installed ∨
    ∃ index, ifindex key.nic = some index ∧ key.route index ∈ t.table) (fun _ => Or.inl) ?_ key h
  intro other hother t t' ht hadd key hkey
  have hold : key ∈ t.installed → key ∈ s.1.installed ∨
      ∃ index, ifindex key.nic = some index ∧ key.route index ∈ t'.table := by
    intro hmem
    rcases ht key hmem with hs | ⟨index, hindex, hroute⟩
    · exact Or.inl hs
    · exact Or.inr ⟨index, hindex, hadd.table_subset hroute⟩
  cases hadd with
  | placed hindex hfault =>
    rcases Finset.mem_insert.mp hkey with rfl | hmem
    · refine Or.inr ⟨_, hindex, ?_⟩
      split
      · assumption
      · simp
    · exact hold hmem
  | blocked hindex hfault hexist =>
    rw [hexists other hother _ hfault] at hexist
    cases hexist
  | failed hfault => exact hold hkey

/-- Without faults every key with an interface is remembered. -/
theorem mem_foldl_add {keys : List RouteKey} {s : Reconciler × Nat} {key : RouteKey}
    (h : key ∈ s.1.installed ∨ key ∈ keys ∧ (ifindex key.nic).isSome = true)
    (hfault : ∀ key, faults.add key = none) :
    key ∈ (keys.foldl (add ifindex faults) s).1.installed := by
  induction keys generalizing s with
  | nil => exact h.elim id fun h => absurd h.1 (by simp)
  | cons other keys ih =>
    apply ih
    have hstep : Added ifindex faults other s.1 (add ifindex faults s other).1 := added s other
    generalize (add ifindex faults s other).1 = t at hstep ⊢
    rcases h with hold | ⟨hmem, hindex⟩
    · left
      cases hstep with
      | placed hi hf => exact Finset.mem_insert_of_mem hold
      | blocked hi hf he => exact Finset.mem_insert_of_mem hold
      | failed hf => exact hold
    · rcases List.mem_cons.mp hmem with rfl | hmem
      · left
        cases hstep with
        | placed hi hf => exact Finset.mem_insert_self _ _
        | blocked hi hf he => exact Finset.mem_insert_self _ _
        | failed hf =>
          rcases hf with hf | ⟨err, hf⟩
          · rw [hf] at hindex
            cases hindex
          · rw [hfault] at hf
            cases hf
      · exact Or.inr ⟨hmem, hindex⟩

theorem mem_diff_missing {desired installed : Finset RouteKey} {key : RouteKey} :
    key ∈ (diff desired installed).1 ↔ key ∈ desired ∧ key ∉ installed := by
  simp [diff]

theorem mem_diff_extra {desired installed : Finset RouteKey} {key : RouteKey} :
    key ∈ (diff desired installed).2 ↔ key ∈ installed ∧ key ∉ desired := by
  simp [diff]

/-- After a pass without faults every desired key with an interface is remembered. -/
theorem mem_installed_reconcile (s : Reconciler) {desired : Finset RouteKey} {key : RouteKey}
    (hkey : key ∈ desired) (hindex : (ifindex key.nic).isSome = true) :
    key ∈ (s.reconcile ifindex .none desired).1.installed := by
  refine mem_foldl_add ?_ fun _ => rfl
  by_cases hin : key ∈ s.installed
  · left
    refine mem_foldl_delete ?_ hin
    exact fun hex => (mem_diff_extra.mp hex).2 hkey
  · exact Or.inr ⟨mem_diff_missing.mpr ⟨hkey, hin⟩, hindex⟩

end Reconciler

/-! ## What a step keeps -/

namespace Host

theorem route_hits (key : RouteKey) (index : UInt32) :
    key.hits (some index) (key.route index) = true :=
  RouteKey.hits_iff.mpr ⟨rfl, rfl, fun _ h => h ▸ rfl⟩

theorem cidr_eq_of_hits {key other : RouteKey} {i j : Option UInt32} {r : KernelRoute}
    (hkey : key.hits i r = true) (hother : other.hits j r = true) : other.cidr = key.cidr := by
  obtain ⟨hd, hl, -⟩ := RouteKey.hits_iff.mp hkey
  obtain ⟨hd', hl', -⟩ := RouteKey.hits_iff.mp hother
  have haddr := IpAddr.v4.inj (hd'.symm.trans hd)
  have hlen := hl'.symm.trans hl
  cases hc : key.cidr
  cases hc' : other.cidr
  simp_all

/-- A pass that takes none of its own routes away leaves the memory right. -/
theorem Believed.reconcile {h : Host} {desired : Finset RouteKey} {faults : Faults}
    (hb : h.Believed) (hsep : h.Separate desired faults) :
    (h.step (.reconcile desired faults)).Believed := by
  intro key hkey hindex
  have hmissing : ∀ key ∈ (diff desired h.reconciler.installed).1, ∀ err,
      faults.add key = some err → isRouteExists err = false := by
    intro key hmem
    obtain ⟨hd, hi⟩ := Reconciler.mem_diff_missing.mp hmem
    exact hsep.add key hd hi
  rcases Reconciler.installed_foldl_add hmissing hkey with hmid | ⟨index, hi, hroute⟩
  · -- the key was there before the deletes, and none of them hits its route
    have hin := Reconciler.installed_foldl_delete _ _ hmid
    have hstays : key ∈ desired ∨ faults.del key ≠ none := by
      by_contra hgone
      push Not at hgone
      exact Reconciler.not_mem_foldl_delete (Reconciler.mem_diff_extra.mpr ⟨hin, hgone.1⟩)
        hgone.2 hmid
    obtain ⟨index, hi, r, hr, hhit⟩ := hb key hin hindex
    refine ⟨index, hi, r, Reconciler.table_foldl_add _ _
      (Reconciler.mem_table_foldl_delete hr ?_), hhit⟩
    intro other hother hfault
    obtain ⟨hoin, hodes⟩ := Reconciler.mem_diff_extra.mp hother
    by_contra hohit
    rw [Bool.not_eq_false] at hohit
    obtain ⟨j, hj, hne⟩ :=
      hsep.del key hin hstays other hoin hodes hfault (cidr_eq_of_hits hhit hohit)
    have h1 := (RouteKey.hits_iff.mp hhit).2.2 index rfl
    have h2 := (RouteKey.hits_iff.mp hohit).2.2 j hj
    rw [h1] at h2
    exact hne (hi.trans h2)
  · exact ⟨index, hi, _, hroute, route_hits key index⟩

theorem Believed.step {h : Host} {e : Event} (hb : h.Believed) (he : h.Undisturbed e) :
    (h.step e).Believed := by
  cases e with
  | restore keys =>
    intro key hkey hindex
    rcases Finset.mem_union.mp hkey with hold | hnew
    · exact hb key hold hindex
    · have hnone : h.ifindexOf key.nic = none := he key (List.mem_toFinset.mp hnew)
      have hsome : (h.ifindexOf key.nic).isSome = true := hindex
      rw [hnone] at hsome
      cases hsome
  | register nic tunIndex =>
    intro key hkey hindex
    have hlook : (h.step (.register nic tunIndex)).ifindexOf key.nic = h.ifindexOf key.nic :=
      AList.lookup_insert_ne (he key hkey)
    obtain ⟨index, hi, hr⟩ := hb key hkey (by rwa [← hlook])
    exact ⟨index, hlook.trans hi, hr⟩
  | outsideAdd route =>
    intro key hkey hindex
    obtain ⟨index, hi, r, hr, hhit⟩ := hb key hkey hindex
    exact ⟨index, hi, r, List.mem_cons_of_mem _ hr, hhit⟩
  | outsideDelete route =>
    intro key hkey hindex
    obtain ⟨index, hi, r, hr, hhit⟩ := hb key hkey hindex
    have hne : r ≠ route := by
      rintro rfl
      rw [he key hkey index hi] at hhit
      cases hhit
    exact ⟨index, hi, r, (List.mem_erase_of_ne hne).mpr hr, hhit⟩
  | reconcile desired faults => exact hb.reconcile he

theorem believed_run {table : RoutingTable} {es : List Event}
    (hes : Runs.Meets step (fun _ => Undisturbed) (new table) es) :
    (Runs.run step (new table) es).Believed := by
  refine Runs.invariant (P := fun _ => Believed) ?_ (fun _ _ _ hb he => hb.step he) hes
  intro key hkey
  exact absurd hkey (Finset.notMem_empty _)

/-! ## Healing -/

/-- In every run of undisturbed steps that ends with a pass without failures, over a desired
set whose nics all have an interface, the kernel then holds every desired route. -/
theorem reconcile_heals (table : RoutingTable) (es : List Event) (desired : Finset RouteKey)
    (hes : Runs.Meets step (fun _ => Undisturbed) (new table) (es ++ [.reconcile desired .none]))
    (hnics : ∀ key ∈ desired, ((Runs.run step (new table) es).ifindexOf key.nic).isSome = true) :
    ∀ key ∈ desired, (Runs.run step (new table) (es ++ [.reconcile desired .none])).Holds key := by
  intro key hkey
  have hb := believed_run hes
  rw [Runs.run_concat] at hb ⊢
  exact hb key (Reconciler.mem_installed_reconcile _ hkey (hnics key hkey)) (hnics key hkey)

/-- A pass that has nothing to delete and does not fail is undisturbed. -/
theorem separate_of_subset {h : Host} {desired : Finset RouteKey}
    (hsub : h.reconciler.installed ⊆ desired) : h.Separate desired .none where
  del _ _ _ _ hother hgone := absurd (hsub hother) hgone
  add _ _ _ _ herr := nomatch herr

namespace Sample

/-- The LAN behind a peer, and the peer itself. -/
def lan : RouteKey := ⟨7, .ofOctets 192 168 5 0 24⟩

def peer : RouteKey := ⟨7, .host (.ofOctets 10 0 0 1)⟩

/-- A route of somebody else. -/
def uplink : KernelRoute := ⟨.v4 (.ofOctets 0 0 0 0), 0, some 2, none⟩

/-- The nic comes up, the LAN is installed, and somebody deletes the default route. -/
def joined : List Event := [.register 7 3, .reconcile {lan} .none, .outsideDelete uplink]

theorem reconcile_heals_joined :
    (Runs.run step (new [uplink]) (joined ++ [.reconcile {lan, peer} .none])).Holds lan ∧
      (Runs.run step (new [uplink]) (joined ++ [.reconcile {lan, peer} .none])).Holds peer := by
  have hlan : (Runs.run step (new [uplink])
      [.register 7 3, .reconcile {lan} .none]).reconciler.installed = {lan} := by decide +kernel
  have hjoined : (Runs.run step (new [uplink]) joined).reconciler.installed = {lan} := hlan
  have hholds : ∀ key ∈ ({lan, peer} : Finset RouteKey),
      (Runs.run step (new [uplink]) (joined ++ [.reconcile {lan, peer} .none])).Holds key := by
    refine reconcile_heals [uplink] joined {lan, peer} ⟨?_, ?_, ?_, ?_, trivial⟩ ?_
    · intro key hkey
      exact absurd hkey (Finset.notMem_empty _)
    · exact separate_of_subset (Finset.empty_subset _)
    · intro key hkey index _
      obtain rfl := Finset.mem_singleton.mp (hlan ▸ hkey)
      exact Bool.eq_false_iff.mpr fun hit => absurd (RouteKey.hits_iff.mp hit).1 (by decide)
    · apply separate_of_subset
      refine Finset.Subset.trans (Finset.Subset.antisymm_iff.mp hjoined).1 ?_
      exact Finset.singleton_subset_iff.mpr (by simp)
    · intro key hkey
      rcases Finset.mem_insert.mp hkey with rfl | hkey
      · decide +kernel
      · obtain rfl := Finset.mem_singleton.mp hkey
        decide +kernel
  exact ⟨hholds lan (by simp), hholds peer (by simp)⟩

/-- The route to the LAN is deleted by hand, and the next pass runs. -/
def interfered : List Event :=
  [.register 7 3, .reconcile {lan} .none, .outsideDelete (lan.route 3), .reconcile {lan} .none]

/-- The pass does nothing, and the route stays away. -/
theorem not_healed :
    ((Runs.run step (new []) interfered).ifindexOf lan.nic).isSome = true ∧
      ¬ (Runs.run step (new []) interfered).Holds lan := by
  refine ⟨by decide +kernel, ?_⟩
  rintro ⟨index, -, r, hr, -⟩
  have htable : (Runs.run step (new []) interfered).reconciler.table = [] := by decide +kernel
  rw [htable] at hr
  cases hr

end Sample

end Host

end Noeio
