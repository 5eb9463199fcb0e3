import Mathlib.Data.Finset.Sort
import Mathlib.Data.Prod.Lex
import Noeio.Daemon.NetRoute
import Noeio.Daemon.NoeioDaemon

/-!
# The reconciler

`Reconciler::reconcile` of `noeio/src/daemon/reconciler.rs`. A pass compares the desired
routes with the ones it remembers to have installed, deletes the extra ones and adds the
missing ones, each as one operation on the kernel's table that may fail.

A pass is two folds, over the keys to delete and over the keys to add, in the order of the
keys. One lemma says what each does to a key (`deleted`, `added`); everything about passes
is derived from the two. `reconcile_spares` is about the routes of other people: a pass
takes routes through the nics of noeio, and besides these only the first routes to the
prefixes of keys whose nic is gone.
-/

namespace Noeio

/-- Metric for every route noeio installs through its TUN. -/
def routeMetric : UInt32 := 7

/-! ## The order of the keys -/

namespace RouteKey

def order (key : RouteKey) : ℕ ×ₗ ℕ ×ₗ ℕ :=
  toLex (key.nic.toNat, toLex (key.cidr.address.toNat, key.cidr.prefixLen))

theorem order_injective : Function.Injective order := by
  rintro ⟨n, ⟨a, p, _⟩⟩ ⟨m, ⟨b, q, _⟩⟩ h
  obtain ⟨hn, hc⟩ := Prod.mk.inj (toLex.injective h)
  obtain ⟨ha, rfl⟩ := Prod.mk.inj (toLex.injective hc)
  obtain rfl := UInt32.toNat_inj.mp hn
  obtain rfl := BitVec.eq_of_toNat_eq ha
  rfl

def le (a b : RouteKey) : Prop := a.order ≤ b.order

instance : DecidableRel le := fun a b => inferInstanceAs (Decidable (a.order ≤ b.order))

instance : IsTrans RouteKey le := ⟨fun _ _ _ => le_trans⟩

instance : Std.Antisymm le := ⟨fun _ _ h₁ h₂ => order_injective (le_antisymm h₁ h₂)⟩

instance : Std.Total le := ⟨fun a b => le_total a.order b.order⟩

end RouteKey

/-- What to add and what to delete, in the order of the keys. -/
def diff (desired installed : Finset RouteKey) : List RouteKey × List RouteKey :=
  ((desired \ installed).sort RouteKey.le, (installed \ desired).sort RouteKey.le)

/-! ## One pass -/

def install (fault : Option IoError) (table : RoutingTable) (key : RouteKey) (ifindex : UInt32) :
    Except IoError RoutingTable :=
  match addRoute fault table (.v4 key.cidr.address) key.cidr.prefixLen ifindex routeMetric with
  | .error err => if isRouteExists err then .ok table else .error err
  | .ok table => .ok table

def uninstall (fault : Option IoError) (table : RoutingTable) (key : RouteKey)
    (ifindex : Option UInt32) : Except IoError RoutingTable :=
  match delRoute fault table (.v4 key.cidr.address) key.cidr.prefixLen ifindex with
  | .error err => if isRouteMissing err then .ok table else .error err
  | .ok table => .ok table

/-- The operations of a pass that the system refuses, with its error. -/
structure Faults where
  add : RouteKey → Option IoError
  del : RouteKey → Option IoError

/-- Every operation of the pass succeeds. -/
def Faults.none : Faults := ⟨fun _ => .none, fun _ => .none⟩

/-- What the reconciler remembers to have installed, and the table it acts on. -/
structure Reconciler where
  installed : Finset RouteKey
  table : RoutingTable

namespace Reconciler

variable (ifindex : PeerId → Option UInt32) (faults : Faults)

/-- The body of the loop over the keys to delete, with the count of changes. -/
def delete (s : Reconciler × Nat) (key : RouteKey) : Reconciler × Nat :=
  match uninstall (faults.del key) s.1.table key (ifindex key.nic) with
  | .ok table => (⟨s.1.installed.erase key, table⟩, s.2 + 1)
  | .error _ => s

/-- The body of the loop over the keys to add. -/
def add (s : Reconciler × Nat) (key : RouteKey) : Reconciler × Nat :=
  match ifindex key.nic with
  -- the nic disappeared
  | none => s
  | some index =>
    match install (faults.add key) s.1.table key index with
    | .ok table => (⟨insert key s.1.installed, table⟩, s.2 + 1)
    | .error _ => s

/-- The reconciler after one pass, and the number of changes. -/
def reconcile (self : Reconciler) (desired : Finset RouteKey) : Reconciler × Nat :=
  let (missing, extra) := diff desired self.installed
  missing.foldl (add ifindex faults) (extra.foldl (delete ifindex faults) (self, 0))

end Reconciler

/-! ## What an operation does -/

namespace RouteKey

/-- The routes a delete of the key may take. -/
def hits (key : RouteKey) (ifindex : Option UInt32) : KernelRoute → Bool :=
  KernelRoute.hitBy (.v4 key.cidr.address) key.cidr.prefixLen ifindex

/-- The route an add of the key installs. -/
def route (key : RouteKey) (index : UInt32) : KernelRoute :=
  ⟨.v4 key.cidr.address, key.cidr.prefixLen, some index, some routeMetric⟩

theorem hits_iff {key : RouteKey} {ifindex : Option UInt32} {r : KernelRoute} :
    key.hits ifindex r = true ↔ r.destination = .v4 key.cidr.address ∧
      r.prefixLen = key.cidr.prefixLen ∧ ∀ want, ifindex = some want → r.ifindex = some want := by
  cases ifindex <;> simp [hits, KernelRoute.hitBy, and_assoc]

end RouteKey

theorem install_none (table : RoutingTable) (key : RouteKey) (index : UInt32) :
    install none table key index =
      .ok (if key.route index ∈ table then table else table ++ [key.route index]) := by
  rw [install, addRoute_eq]
  rfl

theorem uninstall_none (table : RoutingTable) (key : RouteKey) (ifindex : Option UInt32) :
    uninstall none table key ifindex = .ok (table.eraseP (key.hits ifindex)) := by
  unfold uninstall
  rw [delRoute_eq]
  by_cases h : table.any (KernelRoute.hitBy (.v4 key.cidr.address) key.cidr.prefixLen ifindex)
  · rw [if_pos h]
    rfl
  · rw [if_neg h]
    have hnone : table.eraseP (key.hits ifindex) = table := by
      apply List.eraseP_of_forall_not
      simpa [RouteKey.hits] using h
    rw [hnone]
    rfl

theorem uninstall_fault (err : IoError) (table : RoutingTable) (key : RouteKey)
    (ifindex : Option UInt32) :
    uninstall (some err) table key ifindex =
      if isRouteMissing err then .ok table else .error err := by
  rw [uninstall, delRoute_fault]

theorem install_fault (err : IoError) (table : RoutingTable) (key : RouteKey) (index : UInt32) :
    install (some err) table key index = if isRouteExists err then .ok table else .error err := by
  rw [install, addRoute, checkPrefix_v4 _ key.cidr.prefixLen_le]
  rfl

-- the answer to an identical add on Linux
example (table : RoutingTable) (key : RouteKey) (index : UInt32) :
    install (some ⟨none, .other⟩) table key index = .error ⟨none, .other⟩ :=
  install_fault _ table key index

namespace Reconciler

variable {ifindex : PeerId → Option UInt32} {faults : Faults}

/-- What the delete of a key can do: it takes a route, it finds out that there is none, or it
fails. -/
inductive Deleted (ifindex : PeerId → Option UInt32) (faults : Faults) (key : RouteKey)
    (s : Reconciler) : Reconciler → Prop
  | taken (hfault : faults.del key = none) :
      Deleted ifindex faults key s
        ⟨s.installed.erase key, s.table.eraseP (key.hits (ifindex key.nic))⟩
  | missing {err : IoError} (hfault : faults.del key = some err) :
      Deleted ifindex faults key s ⟨s.installed.erase key, s.table⟩
  | failed {err : IoError} (hfault : faults.del key = some err) : Deleted ifindex faults key s s

/-- What the add of a key can do: its route is in the table afterwards, or another one is in
its way and the key is taken to be installed, or nothing happens. -/
inductive Added (ifindex : PeerId → Option UInt32) (faults : Faults) (key : RouteKey)
    (s : Reconciler) : Reconciler → Prop
  | placed {index : UInt32} (hindex : ifindex key.nic = some index)
      (hfault : faults.add key = none) :
      Added ifindex faults key s ⟨insert key s.installed,
        if key.route index ∈ s.table then s.table else s.table ++ [key.route index]⟩
  | blocked {index : UInt32} {err : IoError} (hindex : ifindex key.nic = some index)
      (hfault : faults.add key = some err) (hexists : isRouteExists err = true) :
      Added ifindex faults key s ⟨insert key s.installed, s.table⟩
  | failed (hfault : ifindex key.nic = none ∨ ∃ err, faults.add key = some err) :
      Added ifindex faults key s s

theorem deleted (s : Reconciler × Nat) (key : RouteKey) :
    Deleted ifindex faults key s.1 (delete ifindex faults s key).1 := by
  unfold delete
  cases hf : faults.del key with
  | none =>
    rw [uninstall_none]
    exact .taken hf
  | some err =>
    rw [uninstall_fault]
    by_cases hm : isRouteMissing err = true
    · rw [if_pos hm]
      exact .missing hf
    · rw [if_neg hm]
      exact .failed hf

theorem added (s : Reconciler × Nat) (key : RouteKey) :
    Added ifindex faults key s.1 (add ifindex faults s key).1 := by
  unfold add
  cases hi : ifindex key.nic with
  | none => exact .failed (Or.inl hi)
  | some index =>
    cases hf : faults.add key with
    | none =>
      simp only [install_none]
      exact .placed hi hf
    | some err =>
      simp only [install_fault]
      by_cases he : isRouteExists err = true
      · rw [if_pos he]
        exact .blocked hi hf he
      · rw [if_neg he]
        exact .failed (Or.inr ⟨err, hf⟩)

/-- What every delete of the keys keeps holds after all of them. -/
theorem foldl_delete {P : Reconciler → Prop} {keys : List RouteKey} {s : Reconciler × Nat}
    (h0 : P s.1)
    (hstep : ∀ key ∈ keys, ∀ t t', P t → Deleted ifindex faults key t t' → P t') :
    P (keys.foldl (delete ifindex faults) s).1 := by
  induction keys generalizing s with
  | nil => exact h0
  | cons key keys ih =>
    refine ih (hstep key (by simp) _ _ h0 (deleted s key)) ?_
    intro other hother
    exact hstep other (by simp [hother])

/-- What every add of the keys keeps holds after all of them. -/
theorem foldl_add {P : Reconciler → Prop} {keys : List RouteKey} {s : Reconciler × Nat}
    (h0 : P s.1) (hstep : ∀ key ∈ keys, ∀ t t', P t → Added ifindex faults key t t' → P t') :
    P (keys.foldl (add ifindex faults) s).1 := by
  induction keys generalizing s with
  | nil => exact h0
  | cons key keys ih =>
    refine ih (hstep key (by simp) _ _ h0 (added s key)) ?_
    intro other hother
    exact hstep other (by simp [hother])

theorem Added.table_subset {key : RouteKey} {s t : Reconciler} (h : Added ifindex faults key s t) :
    s.table ⊆ t.table := by
  cases h with
  | placed hindex hfault =>
    split
    · exact List.Subset.refl _
    · exact List.subset_append_left _ _
  | blocked hindex hfault hexists => exact List.Subset.refl _
  | failed hfault => exact List.Subset.refl _

/-! ## Other people's routes -/

/-- The interface is the one of a registered nic. -/
def owned (nics : AList (fun _ : PeerId => UInt32)) (r : KernelRoute) : Bool :=
  r.ifindex.any fun index => index ∈ nics.entries.map (·.2)

/-- The routes to a prefix that do not go out through a nic of noeio. -/
def foreign (nics : AList (fun _ : PeerId => UInt32)) (destination : IpAddr) (prefixLen : Nat)
    (r : KernelRoute) : Bool :=
  r.destination = destination && r.prefixLen = prefixLen && !owned nics r

/-- A key to the prefix that a pass deletes without knowing its interface. -/
def leftover (nics : AList (fun _ : PeerId => UInt32)) (faults : Faults) (destination : IpAddr)
    (prefixLen : Nat) (key : RouteKey) : Bool :=
  faults.del key = none && nics.lookup key.nic = none && .v4 key.cidr.address = destination &&
    key.cidr.prefixLen = prefixLen

theorem owned_of_lookup {nics : AList (fun _ : PeerId => UInt32)} {nic : PeerId} {index : UInt32}
    (h : nics.lookup nic = some index) {r : KernelRoute} (hr : r.ifindex = some index) :
    owned nics r = true := by
  have hmem : (⟨nic, index⟩ : (_ : PeerId) × UInt32) ∈ nics.entries :=
    AList.mem_lookup_iff.mp h
  simp only [owned, hr, Option.any_some, decide_eq_true_eq]
  exact List.mem_map.mpr ⟨_, hmem, rfl⟩

theorem filter_eraseP_disjoint {α : Type*} {p q : α → Bool} (h : ∀ a, p a = true → q a = false)
    (l : List α) : (l.eraseP p).filter q = l.filter q := by
  induction l with
  | nil => rfl
  | cons a l ih =>
    by_cases hp : p a = true
    · rw [List.eraseP_cons_of_pos hp, List.filter_cons_of_neg (by simp [h a hp])]
    · rw [List.eraseP_cons_of_neg hp]
      simp only [List.filter_cons, ih]

theorem filter_eraseP_subset {α : Type*} {p q : α → Bool} (h : ∀ a, q a = true → p a = true)
    (l : List α) : ∃ k ≤ 1, (l.eraseP p).filter q = (l.filter q).drop k := by
  induction l with
  | nil => exact ⟨0, by omega, rfl⟩
  | cons a l ih =>
    by_cases hp : p a = true
    · rw [List.eraseP_cons_of_pos hp]
      by_cases hq : q a = true
      · exact ⟨1, by omega, by simp [hq]⟩
      · exact ⟨0, by omega, by simp [hq]⟩
    · have hq : ¬ q a = true := fun hq => hp (h a hq)
      rw [List.eraseP_cons_of_neg hp, List.filter_cons_of_neg hq, List.filter_cons_of_neg hq]
      exact ih

section Spares

variable {nics : AList (fun _ : PeerId => UInt32)} (destination : IpAddr) (prefixLen : Nat)

/-- A delete takes a foreign route to the prefix only for a leftover key, and then the first
one. -/
theorem Deleted.filter_foreign {key : RouteKey} {s t : Reconciler}
    (h : Deleted (fun nic => nics.lookup nic) faults key s t) :
    ∃ k ≤ if leftover nics faults destination prefixLen key then 1 else 0,
      t.table.filter (foreign nics destination prefixLen) =
        (s.table.filter (foreign nics destination prefixLen)).drop k := by
  cases h with
  | missing hfault => exact ⟨0, Nat.zero_le _, rfl⟩
  | failed hfault => exact ⟨0, Nat.zero_le _, rfl⟩
  | taken hfault =>
    by_cases hleft : leftover nics faults destination prefixLen key = true
    · rw [if_pos hleft]
      simp only [leftover, Bool.and_eq_true, decide_eq_true_eq] at hleft
      obtain ⟨⟨⟨-, hnic⟩, hdest⟩, hlen⟩ := hleft
      apply filter_eraseP_subset
      intro r hr
      simp only [foreign, Bool.and_eq_true, decide_eq_true_eq] at hr
      rw [RouteKey.hits_iff, hnic, hdest, hlen]
      exact ⟨hr.1.1, hr.1.2, fun _ h => nomatch h⟩
    · -- the key is to another prefix, or only hits routes through its own nic
      refine ⟨0, Nat.zero_le _, filter_eraseP_disjoint ?_ _⟩
      intro r hr
      obtain ⟨hdest, hlen, hindex⟩ := RouteKey.hits_iff.mp hr
      by_contra hforeign
      simp only [foreign, Bool.not_eq_false, Bool.and_eq_true, decide_eq_true_eq,
        Bool.not_eq_true'] at hforeign
      obtain ⟨⟨hd, hl⟩, hown⟩ := hforeign
      cases hnic : nics.lookup key.nic with
      | none => simp [leftover, hfault, hnic, ← hdest, ← hlen, hd, hl] at hleft
      | some index =>
        rw [owned_of_lookup hnic (hindex index hnic)] at hown
        cases hown

theorem Added.filter_foreign {key : RouteKey} {s t : Reconciler}
    (h : Added (fun nic => nics.lookup nic) faults key s t) :
    t.table.filter (foreign nics destination prefixLen) =
      s.table.filter (foreign nics destination prefixLen) := by
  cases h with
  | blocked hindex hfault hexists => rfl
  | failed hfault => rfl
  | @placed index hindex hfault =>
    have hown : foreign nics destination prefixLen (key.route index) = false := by
      simp [foreign, owned_of_lookup hindex (r := key.route index) rfl]
    split
    · rfl
    · rw [List.filter_append, List.filter_singleton, hown]
      simp

theorem filter_foreign_foldl_delete (keys : List RouteKey) (s : Reconciler × Nat) :
    ∃ k ≤ keys.countP (leftover nics faults destination prefixLen),
      (keys.foldl (delete (fun nic => nics.lookup nic) faults) s).1.table.filter
          (foreign nics destination prefixLen) =
        (s.1.table.filter (foreign nics destination prefixLen)).drop k := by
  induction keys generalizing s with
  | nil => exact ⟨0, Nat.le_refl _, rfl⟩
  | cons key keys ih =>
    have hdel : Deleted (fun nic => nics.lookup nic) faults key s.1 _ := deleted s key
    obtain ⟨k, hk, hfirst⟩ := hdel.filter_foreign destination prefixLen
    obtain ⟨l, hl, hrest⟩ := ih (delete (fun nic => nics.lookup nic) faults s key)
    refine ⟨k + l, ?_, ?_⟩
    · rw [List.countP_cons]
      omega
    · rw [List.foldl_cons, hrest, hfirst, List.drop_drop]

end Spares

namespace Sample

/-- The nic of this run. -/
def nics : AList (fun _ : PeerId => UInt32) := AList.insert 7 3 ∅

/-- `10.0.0.0/8` as the operator routes it, through the second interface. -/
def operatorRoute : KernelRoute := ⟨.v4 (.ofOctets 10 0 0 0), 8, some 2, none⟩

/-- The file of a previous run, with another nic id, names the same prefix. -/
def restarted : Reconciler := ⟨{⟨9, .ofOctets 10 0 0 0 8⟩}, [operatorRoute]⟩

end Sample

end Reconciler

end Noeio
