import Noeio.Daemon.Healing
import Noeio.Daemon.Nat

/-!
# Shutdown beside the reconciler loop

The loop of `reconciler::spawn` and `NoeioDaemon::shutdown` run as two tasks. Both make a pass of
the reconciler, which holds the lock of the memory from start to end, and both call `converge`,
which holds no lock: it computes its target, reads the record of what is applied, changes the
kernel and writes the record, and the other task may take any steps in between. Nothing stops
the loop, so it goes on beside the shutdown and after it.

All steps on the kernel succeed here. What the router makes of the peers at a moment, and what
`nat_target` returns, are arguments of the steps.

The RPC service is dropped when the shutdown begins, but the tasks of its connections may outlive
it. So nics may come up and routes may be advertised at any time.

`InOrder` names the ways in which the others get in the way of the shutdown. The loop does so in
three: a pass that installs routes after the last one, a target that is applied after the kernel
was cleaned, and a `converge` that finds nothing on record while the loop has yet to record what it
applied. A connection does so in one: it advertises routes after the shutdown has cleared the list
and before its target is computed. `clean_after_shutdown` proves that nothing else does.
-/

namespace Noeio

def NatFaults.none : NatFaults := fun _ => false

namespace Shutdown

/-- The points of `converge`. -/
inductive Converge where
  | target
  | read (want : Option AppliedNat)
  | apply (want : Option AppliedNat)
  | record (want : Option AppliedNat)
  deriving DecidableEq

/-- The points of the loop. -/
inductive LoopPoint where
  /-- It waits for a notification or the tick. -/
  | idle
  /-- The desired routes are read off the router. -/
  | pass (desired : Finset RouteKey)
  | converge (point : Converge)

/-- The points of `shutdown`. -/
inductive ShutdownPoint where
  /-- Not called yet. -/
  | serving
  | pass
  | clear
  | converge (point : Converge)
  | returned

structure State where
  nics : AList (fun _ : PeerId => UInt32)
  reconciler : Reconciler
  nat : NatHost
  advertised : List Ipv4Cidr
  loop : LoopPoint
  shutdown : ShutdownPoint

inductive Event where
  | register (nic : PeerId) (tunIndex : UInt32)
  | advertise (routes : List Ipv4Cidr)
  | wake (desired : Finset RouteKey)
  | loop (natTarget : Option AppliedNat)
  | terminate
  | shutdown (natTarget : Option AppliedNat)

/-- A step of `converge`, and its next point unless it returns. -/
def convergeStep (advertised : List Ipv4Cidr) (natTarget : Option AppliedNat) (nat : NatHost) :
    Converge → NatHost × Option Converge
  | .target => (nat, some (.read (if advertised = [] then none else natTarget)))
  | .read want => (nat, if nat.applied = want then none else some (.apply want))
  | .apply want =>
    match nat.kernel.changeTo .none want with
    | (kernel, .ok ()) => ({ nat with kernel }, some (.record want))
    | (kernel, .error _) => ({ nat with kernel }, none)
  | .record want => ({ nat with applied := want }, none)

namespace State

/-- A host that noeio has not touched, whose reconciler remembers what the file of a previous
run said. -/
def start (v0 : Bool) (restored : Finset RouteKey) (table : RoutingTable)
    (advertised : List Ipv4Cidr) : State :=
  ⟨∅, ⟨restored, table⟩, .untouched v0, advertised, .idle, .serving⟩

def pass (self : State) (desired : Finset RouteKey) : Reconciler :=
  (self.reconciler.reconcile (fun nic => self.nics.lookup nic) .none desired).1

/-- The interface is new: no nic has it, and no route goes out through it. -/
def NewInterface (self : State) (tunIndex : UInt32) : Prop :=
  tunIndex ∉ self.nics.entries.map (·.2) ∧
    ∀ r ∈ self.reconciler.table, r.ifindex ≠ some tunIndex

instance (self : State) (tunIndex : UInt32) : Decidable (self.NewInterface tunIndex) :=
  inferInstanceAs (Decidable (_ ∧ _))

def loopStep (self : State) (natTarget : Option AppliedNat) : State :=
  match self.loop with
  | .idle => self
  | .pass desired => { self with reconciler := self.pass desired, loop := .converge .target }
  | .converge point =>
    let (nat, next) := convergeStep self.advertised natTarget self.nat point
    { self with nat, loop := next.elim .idle .converge }

def shutdownStep (self : State) (natTarget : Option AppliedNat) : State :=
  match self.shutdown with
  | .serving | .returned => self
  | .pass => { self with reconciler := self.pass ∅, shutdown := .clear }
  | .clear => { self with advertised := [], shutdown := .converge .target }
  | .converge point =>
    let (nat, next) := convergeStep self.advertised natTarget self.nat point
    { self with nat, shutdown := next.elim .returned .converge }

/-- Nics come up at any time, with an id and an interface of their own. -/
def step (self : State) : Event → State
  | .register nic tunIndex =>
    if self.nics.lookup nic = none ∧ self.NewInterface tunIndex then
      { self with nics := self.nics.insert nic tunIndex }
    else self
  | .advertise routes => { self with advertised := routes }
  | .wake desired =>
    match self.loop with
    | .idle => { self with loop := .pass desired }
    | _ => self
  | .loop natTarget => self.loopStep natTarget
  | .terminate =>
    match self.shutdown with
    | .serving => { self with shutdown := .pass }
    | _ => self
  | .shutdown natTarget => self.shutdownStep natTarget

end State

/-- The rules of that target are refused, so nothing is applied. -/
def Refused (t : AppliedNat) : Prop :=
  ∃ err, Ruleset.new t.overlay t.lanIf t.tunIf true = .error err

/-- The shutdown has made its pass. -/
def ShutdownPoint.PassDone : ShutdownPoint → Prop
  | .serving | .pass => False
  | .clear | .converge _ | .returned => True

/-- The shutdown is done with the kernel. -/
def ShutdownPoint.NatDone : ShutdownPoint → Prop
  | .converge (.record _) | .returned => True
  | _ => False

/-- The loop installs no route once the shutdown has made its pass, and applies no target once
the shutdown is done with the kernel. The shutdown does not find its target on record while the
loop has yet to record one that it applied. The list stays empty from its clear to the target. -/
def InOrder (s : State) : Event → Prop
  | .loop _ =>
    (∀ desired, s.loop = .pass desired → s.shutdown.PassDone →
      ∀ key ∈ desired, s.nics.lookup key.nic = none) ∧
    ∀ t, s.loop = .converge (.apply (some t)) → s.shutdown.NatDone → Refused t
  | .shutdown _ =>
    ∀ want, s.shutdown = .converge (.read want) → s.nat.applied = want →
      ∀ t, s.loop ≠ .converge (.record (some t))
  | .advertise routes => s.shutdown = .converge .target → routes = []
  | _ => True

/-- A pass of the run put the route into the table. -/
def Installed (s : State) (es : List Event) (r : KernelRoute) : Prop :=
  Runs.Happened State.step s es fun t e =>
    r ∉ t.reconciler.table ∧ r ∈ (t.step e).reconciler.table

/-- Shutdown has returned, and no call of `reconcile` or `converge` is in progress. -/
def Over (s : State) : Prop := s.shutdown = .returned ∧ s.loop = .idle

/-- The host is as it was: no table, the original value, and none of the routes of the run. -/
def Clean (v0 : Bool) (s : State) (es : List Event) : Prop :=
  (Runs.run State.step s es).nat.kernel.table = none ∧
    (Runs.run State.step s es).nat.kernel.ipForward = v0 ∧
    ∀ r, Installed s es r → r ∉ (Runs.run State.step s es).reconciler.table

end Shutdown

/-! ## Passes without faults -/

namespace Reconciler

/-- No two nics have one interface. -/
def Distinct (nics : AList (fun _ : PeerId => UInt32)) : Prop :=
  ∀ n m index, nics.lookup n = some index → nics.lookup m = some index → n = m

/-- Whatever goes out through a nic was installed for a key that is remembered, and is there
once. -/
structure Owns (nics : AList (fun _ : PeerId => UInt32)) (s : Reconciler) : Prop where
  key : ∀ r ∈ s.table, ∀ nic index, nics.lookup nic = some index → r.ifindex = some index →
    ∃ key ∈ s.installed, key.nic = nic ∧ r = key.route index
  once : ∀ r nic index, nics.lookup nic = some index → r.ifindex = some index →
    s.table.count r ≤ 1

section
variable {nics : AList (fun _ : PeerId => UInt32)} {key : RouteKey} {s t : Reconciler}

/-- Among the routes of noeio, the delete of a key takes the route of the key only. -/
theorem Owns.eq_route (hs : s.Owns nics) {index : UInt32} (hindex : nics.lookup key.nic = some index)
    {r : KernelRoute} (hr : r ∈ s.table) (hhit : key.hits (some index) r = true) :
    r = key.route index := by
  obtain ⟨hdest, hlen, hif⟩ := RouteKey.hits_iff.mp hhit
  obtain ⟨key', -, hnic, rfl⟩ := hs.key r hr key.nic index hindex (hif index rfl)
  have hcidr : key'.cidr = key.cidr :=
    Host.cidr_eq_of_hits hhit (Host.route_hits key' index)
  rw [RouteKey.route, RouteKey.route, hcidr]

theorem Owns.deleted (hs : s.Owns nics)
    (h : Deleted (fun nic => nics.lookup nic) .none key s t) : t.Owns nics := by
  cases h with
  | missing hfault => cases hfault
  | failed hfault => cases hfault
  | taken hfault =>
    have honce : ∀ r nic index, nics.lookup nic = some index → r.ifindex = some index →
        (s.table.eraseP (key.hits (nics.lookup key.nic))).count r ≤ 1 := fun r nic index hi hr =>
      (List.eraseP_sublist.count_le r).trans (hs.once r nic index hi hr)
    refine ⟨fun r hr nic index hindex hif => ?_, honce⟩
    have hin := List.mem_of_mem_eraseP hr
    obtain ⟨key', hkey', hnic, rfl⟩ := hs.key r hin nic index hindex hif
    refine ⟨key', Finset.mem_erase.mpr ⟨?_, hkey'⟩, hnic, rfl⟩
    rintro rfl
    -- the route of the key was there once, and the delete has taken it
    subst hnic
    have hhit : key'.hits (nics.lookup key'.nic) (key'.route index) = true := by
      rw [hindex]
      exact Host.route_hits key' index
    obtain ⟨r, l₁, l₂, hbefore, hr', htable, herase⟩ := List.exists_of_eraseP hin hhit
    rw [hindex] at hr'
    have hsame : r = key'.route index :=
      hs.eq_route hindex (htable ▸ List.mem_append_right _ List.mem_cons_self) hr'
    have hcount := hs.once _ key'.nic index hindex hif
    rw [htable, hsame, List.count_append, List.count_cons_self] at hcount
    rw [herase] at hr
    have hpos := List.count_pos_iff.mpr hr
    rw [List.count_append] at hpos
    omega

theorem Owns.added (hnics : Distinct nics) (hs : s.Owns nics)
    (h : Added (fun nic => nics.lookup nic) .none key s t) : t.Owns nics := by
  cases h with
  | blocked hindex hfault => cases hfault
  | failed hfault => exact hs
  | @placed index hindex hfault =>
    have hindex : nics.lookup key.nic = some index := hindex
    by_cases hin : key.route index ∈ s.table
    · rw [if_pos hin]
      refine ⟨fun r hr nic index hi hif => ?_, hs.once⟩
      obtain ⟨key', hkey', hnic⟩ := hs.key r hr nic index hi hif
      exact ⟨key', Finset.mem_insert_of_mem hkey', hnic⟩
    · rw [if_neg hin]
      refine ⟨fun r hr nic index' hi hif => ?_, fun r nic index' hi hif => ?_⟩
      · rcases List.mem_append.mp hr with hr | hr
        · obtain ⟨key', hkey', hnic⟩ := hs.key r hr nic index' hi hif
          exact ⟨key', Finset.mem_insert_of_mem hkey', hnic⟩
        · obtain rfl := List.mem_singleton.mp hr
          obtain rfl : index = index' := Option.some.inj hif
          exact ⟨key, Finset.mem_insert_self _ _, hnics _ _ index hindex hi, rfl⟩
      · have hcount := hs.once r nic index' hi hif
        rw [List.count_append, List.count_singleton]
        split
        · rename_i heq
          have hzero : s.table.count r = 0 :=
            List.count_eq_zero.mpr fun hmem => hin (beq_iff_eq.mp heq ▸ hmem)
          omega
        · exact hcount

theorem Owns.reconcile (hnics : Distinct nics) (hs : s.Owns nics) (desired : Finset RouteKey) :
    (s.reconcile (fun nic => nics.lookup nic) .none desired).1.Owns nics := by
  refine foldl_add (P := fun t => t.Owns nics) (foldl_delete (P := fun t => t.Owns nics) hs ?_) ?_
  · intro key _ t t' ht hdel
    exact ht.deleted hdel
  · intro key _ t t' ht hadd
    exact ht.added hnics hadd

/-- What a pass puts into the table goes out through a nic. -/
theorem mem_table_reconcile {desired : Finset RouteKey} {r : KernelRoute}
    (hr : r ∈ (s.reconcile (fun nic => nics.lookup nic) .none desired).1.table) :
    r ∈ s.table ∨ ∃ nic index, nics.lookup nic = some index ∧ r.ifindex = some index := by
  have hdel : ∀ r ∈ ((diff desired s.installed).2.foldl
      (delete (fun nic => nics.lookup nic) .none) (s, 0)).1.table, r ∈ s.table := by
    refine foldl_delete (P := fun t => ∀ r ∈ t.table, r ∈ s.table) (fun _ hr => hr) ?_
    intro key _ t t' ht hdeleted r hr
    cases hdeleted with
    | taken hfault => exact ht r (List.mem_of_mem_eraseP hr)
    | missing hfault => exact ht r hr
    | failed hfault => exact ht r hr
  refine foldl_add (P := fun t => ∀ r ∈ t.table, r ∈ s.table ∨
    ∃ nic index, nics.lookup nic = some index ∧ r.ifindex = some index)
    (fun r hr => Or.inl (hdel r hr)) ?_ r hr
  intro key _ t t' ht hadded r hr
  cases hadded with
  | @placed index hindex hfault =>
    split at hr
    · exact ht r hr
    · rcases List.mem_append.mp hr with hr | hr
      · exact ht r hr
      · obtain rfl := List.mem_singleton.mp hr
        exact Or.inr ⟨key.nic, index, hindex, rfl⟩
  | blocked hindex hfault => exact ht r hr
  | failed hfault => exact ht r hr

/-- A pass that wants nothing forgets everything. -/
theorem installed_reconcile_empty (ifindex : PeerId → Option UInt32) (s : Reconciler) :
    (s.reconcile ifindex .none ∅).1.installed = ∅ := by
  apply Finset.eq_empty_of_forall_notMem
  intro key hkey
  have hdel : key ∈ ((diff ∅ s.installed).2.foldl (delete ifindex .none) (s, 0)).1.installed := by
    have hmissing : (diff ∅ s.installed).1 = [] := by simp [diff]
    simpa only [reconcile, hmissing, List.foldl_nil] using hkey
  refine not_mem_foldl_delete (mem_diff_extra.mpr ⟨?_, Finset.notMem_empty _⟩) rfl hdel
  exact installed_foldl_delete _ _ hdel

/-- A pass whose keys have no interface remembers nothing new. -/
theorem installed_reconcile_subset {ifindex : PeerId → Option UInt32} {desired : Finset RouteKey}
    (h : ∀ key ∈ desired, ifindex key.nic = none) (s : Reconciler) :
    (s.reconcile ifindex .none desired).1.installed ⊆ s.installed := by
  refine foldl_add (P := fun t => t.installed ⊆ s.installed) (installed_foldl_delete _ _) ?_
  intro key hkey t t' ht hadded
  have hnone := h key (mem_diff_missing.mp hkey).1
  cases hadded with
  | placed hindex hfault => cases hnone.symm.trans hindex
  | blocked hindex hfault => cases hnone.symm.trans hindex
  | failed hfault => exact ht

end

end Reconciler

/-! ## Changes of the kernel without faults -/

namespace NatKernel

/-- No table, and no value to restore. -/
def Untouched (k : NatKernel) : Prop := k.table = none ∧ k.saved = none

theorem changeTo_down (k : NatKernel) :
    k.changeTo .none none = (⟨none, k.original, none⟩, .ok ()) := by
  have hok : (k.changeTo .none none).2 = .ok () := by
    cases hsaved : k.saved <;> simp [changeTo, clear, restore, NatOutcome.andThen, NatFaults.none,
      hsaved]
  exact Prod.ext (changeTo_none_of_ok hok) hok

theorem changeTo_refused {k : NatKernel} {t : AppliedNat} (h : Shutdown.Refused t) :
    ∃ err, k.changeTo .none (some t) = (k, .error err) := by
  have hearly : NatHost.Call.StopsEarly ⟨some t, .none⟩ t := Or.inr (Or.inl h)
  exact changeTo_of_stopsEarly hearly

theorem changeTo_up {k : NatKernel} {t : AppliedNat} (h : ¬ Shutdown.Refused t) :
    (k.changeTo .none (some t)).2 = .ok () := by
  have hearly : ¬ NatHost.Call.StopsEarly ⟨some t, .none⟩ t := by
    rintro (hopen | hrefused | hcreate)
    · cases hopen
    · exact h hrefused
    · cases hcreate
  exact changeTo_of_goesThrough hearly ⟨rfl, rfl, fun _ => ⟨rfl, rfl⟩, fun _ => rfl⟩

/-- The original value is saved before forwarding is turned on. -/
theorem original_changeTo_up (k : NatKernel) {t : AppliedNat} (h : ¬ Shutdown.Refused t) :
    (k.changeTo .none (some t)).1.original = k.original := by
  obtain ⟨rules, -, hkernel⟩ := changeTo_some_of_ok (changeTo_up (k := k) h)
  rw [hkernel]
  rfl

end NatKernel

namespace Shutdown

/-- What a step of `converge` can do. -/
inductive ConvergeEffect (advertised : List Ipv4Cidr) (natTarget : Option AppliedNat)
    (nat : NatHost) : Converge → NatHost × Option Converge → Prop
  | target : ConvergeEffect advertised natTarget nat .target
      (nat, some (.read (if advertised = [] then none else natTarget)))
  | same (want : Option AppliedNat) (h : nat.applied = want) :
    ConvergeEffect advertised natTarget nat (.read want) (nat, none)
  | differs (want : Option AppliedNat) (h : nat.applied ≠ want) :
    ConvergeEffect advertised natTarget nat (.read want) (nat, some (.apply want))
  | refused (t : AppliedNat) (h : Refused t) :
    ConvergeEffect advertised natTarget nat (.apply (some t)) (nat, none)
  | up (t : AppliedNat) (h : ¬ Refused t) (kernel : NatKernel)
    (horiginal : kernel.original = nat.kernel.original) :
    ConvergeEffect advertised natTarget nat (.apply (some t))
      ({ nat with kernel }, some (.record (some t)))
  | down : ConvergeEffect advertised natTarget nat (.apply none)
      ({ nat with kernel := ⟨none, nat.kernel.original, none⟩ }, some (.record none))
  | record (want : Option AppliedNat) :
    ConvergeEffect advertised natTarget nat (.record want) ({ nat with applied := want }, none)

theorem convergeStep_effect (advertised : List Ipv4Cidr) (natTarget : Option AppliedNat)
    (nat : NatHost) (point : Converge) :
    ConvergeEffect advertised natTarget nat point
      (convergeStep advertised natTarget nat point) := by
  cases point with
  | target => exact .target
  | read want =>
    simp only [convergeStep]
    split
    · exact .same want ‹_›
    · exact .differs want ‹_›
  | apply want =>
    cases want with
    | none =>
      simp only [convergeStep, NatKernel.changeTo_down]
      exact .down
    | some t =>
      by_cases hrefused : Refused t
      · obtain ⟨err, herr⟩ := NatKernel.changeTo_refused (k := nat.kernel) hrefused
        simp only [convergeStep, herr]
        exact .refused t hrefused
      · have hok := NatKernel.changeTo_up (k := nat.kernel) hrefused
        have horiginal := NatKernel.original_changeTo_up nat.kernel hrefused
        simp only [convergeStep]
        generalize nat.kernel.changeTo .none (some t) = out at hok horiginal
        obtain ⟨kernel, result⟩ := out
        obtain rfl : result = .ok () := hok
        exact .up t hrefused kernel horiginal
  | record want => exact .record want

/-! ## The routes -/

section
variable {s₀ s : State} {es : List Event}

/-- What is in the table and was put there goes out through a nic, and the memory is empty once
the shutdown has made its pass. -/
structure RoutesAccounted (s₀ : State) (es : List Event) (s : State) : Prop where
  distinct : Reconciler.Distinct s.nics
  owns : s.reconciler.Owns s.nics
  installed : ∀ r, Installed s₀ es r → r ∈ s.reconciler.table →
    ∃ nic index, s.nics.lookup nic = some index ∧ r.ifindex = some index
  emptied : s.shutdown.PassDone → s.reconciler.installed = ∅

theorem RoutesAccounted.register (h : RoutesAccounted s₀ es s) {nic : PeerId} {tunIndex : UInt32}
    (hnew : s.nics.lookup nic = none) (hinterface : s.NewInterface tunIndex) :
    Reconciler.Distinct (s.nics.insert nic tunIndex) ∧
      s.reconciler.Owns (s.nics.insert nic tunIndex) ∧
      ∀ n index, s.nics.lookup n = some index →
        (s.nics.insert nic tunIndex).lookup n = some index := by
  have hold : ∀ n index, (s.nics.insert nic tunIndex).lookup n = some index →
      (n = nic ∧ index = tunIndex) ∨ s.nics.lookup n = some index := by
    intro n index hindex
    by_cases hn : n = nic
    · subst hn
      rw [AList.lookup_insert] at hindex
      exact Or.inl ⟨rfl, (Option.some.inj hindex).symm⟩
    · exact Or.inr ((AList.lookup_insert_ne hn).symm.trans hindex)
  have hfresh : ∀ n, s.nics.lookup n ≠ some tunIndex := fun n hn =>
    hinterface.1 (List.mem_map.mpr ⟨⟨n, tunIndex⟩, AList.mem_lookup_iff.mp hn, rfl⟩)
  refine ⟨fun n m index hn hm => ?_, ⟨fun r hr n index hn hif => ?_, fun r n index hn hif => ?_⟩,
    fun n index hn => ?_⟩
  · rcases hold n index hn with ⟨hnic, hindex⟩ | hn
    · rcases hold m index hm with ⟨hnic', -⟩ | hm
      · exact hnic.trans hnic'.symm
      · exact absurd (hindex ▸ hm) (hfresh m)
    · rcases hold m index hm with ⟨-, hindex⟩ | hm
      · exact absurd (hindex ▸ hn) (hfresh n)
      · exact h.distinct n m index hn hm
  · rcases hold n index hn with ⟨-, rfl⟩ | hn
    · exact absurd hif (hinterface.2 r hr)
    · exact h.owns.key r hr n index hn hif
  · rcases hold n index hn with ⟨-, rfl⟩ | hn
    · rw [List.count_eq_zero.mpr fun hr => hinterface.2 r hr hif]
      exact Nat.zero_le 1
    · exact h.owns.once r n index hn hif
  · have hne : n ≠ nic := by
      rintro rfl
      cases hnew.symm.trans hn
    exact (AList.lookup_insert_ne hne).trans hn

/-- A step that leaves the nics and the reconciler alone. -/
theorem RoutesAccounted.frame (h : RoutesAccounted s₀ es s) (hs : s = Runs.run State.step s₀ es)
    {e : Event} (hnics : (s.step e).nics = s.nics)
    (hreconciler : (s.step e).reconciler = s.reconciler)
    (hshutdown : (s.step e).shutdown.PassDone → s.shutdown.PassDone) :
    RoutesAccounted s₀ (es ++ [e]) (s.step e) where
  distinct := hnics ▸ h.distinct
  owns := by
    rw [hnics, hreconciler]
    exact h.owns
  installed r hr hin := by
    rw [hreconciler] at hin
    rw [hnics]
    rcases Runs.happened_concat.mp hr with hr | ⟨hout, -⟩
    · exact h.installed r hr hin
    · exact absurd (hs ▸ hin) hout
  emptied hdone := by
    rw [hreconciler]
    exact h.emptied (hshutdown hdone)

/-- A pass of one of the two tasks. -/
theorem RoutesAccounted.pass (h : RoutesAccounted s₀ es s) (hs : s = Runs.run State.step s₀ es)
    {e : Event} (desired : Finset RouteKey) (hnics : (s.step e).nics = s.nics)
    (hreconciler : (s.step e).reconciler = s.pass desired)
    (hempty : (s.step e).shutdown.PassDone → (s.pass desired).installed = ∅) :
    RoutesAccounted s₀ (es ++ [e]) (s.step e) where
  distinct := hnics ▸ h.distinct
  owns := by
    rw [hnics, hreconciler]
    exact h.owns.reconcile h.distinct desired
  installed r hr hin := by
    rw [hreconciler] at hin
    rw [hnics]
    rcases Reconciler.mem_table_reconcile hin with hold | hnic
    · rcases Runs.happened_concat.mp hr with hr | ⟨hout, -⟩
      · exact h.installed r hr hold
      · exact absurd (hs ▸ hold) hout
    · exact hnic
  emptied hdone := by
    rw [hreconciler]
    exact hempty hdone

theorem RoutesAccounted.step (h : RoutesAccounted s₀ es s) (hs : s = Runs.run State.step s₀ es)
    {e : Event} (he : InOrder s e) : RoutesAccounted s₀ (es ++ [e]) (s.step e) := by
  cases e with
  | register nic tunIndex =>
    by_cases hnew : s.nics.lookup nic = none ∧ s.NewInterface tunIndex
    · obtain ⟨hdistinct, howns, hkept⟩ := h.register hnew.1 hnew.2
      have hstep : s.step (.register nic tunIndex) =
          { s with nics := s.nics.insert nic tunIndex } := if_pos hnew
      rw [hstep]
      refine ⟨hdistinct, howns, fun r hr hin => ?_, h.emptied⟩
      rcases Runs.happened_concat.mp hr with hr | ⟨hout, -⟩
      · obtain ⟨n, index, hindex, hif⟩ := h.installed r hr hin
        exact ⟨n, index, hkept n index hindex, hif⟩
      · exact absurd (hs ▸ hin) hout
    · have hstep : s.step (.register nic tunIndex) = s := if_neg hnew
      exact h.frame hs (by rw [hstep]) (by rw [hstep]) (by rw [hstep]; exact id)
  | advertise routes => exact h.frame hs rfl rfl id
  | wake desired =>
    refine h.frame hs ?_ ?_ ?_ <;> simp only [State.step] <;> split <;> first | rfl | exact id
  | terminate =>
    refine h.frame hs ?_ ?_ ?_ <;> simp only [State.step] <;> split <;>
      first | rfl | exact id | exact fun h => h.elim
  | loop natTarget =>
    cases hloop : s.loop with
    | idle => refine h.frame hs ?_ ?_ ?_ <;> simp only [State.step, State.loopStep, hloop, imp_self]
    | converge point =>
      refine h.frame hs ?_ ?_ ?_ <;> simp only [State.step, State.loopStep, hloop, imp_self]
    | pass desired =>
      have hstep : s.step (.loop natTarget) =
          { s with reconciler := s.pass desired, loop := .converge .target } := by
        simp only [State.step, State.loopStep, hloop]
      refine h.pass hs desired (by rw [hstep]) (by rw [hstep]) fun hdone => ?_
      rw [hstep] at hdone
      have hnone : ∀ key ∈ desired, s.nics.lookup key.nic = none := he.1 desired hloop hdone
      have hsub : (s.pass desired).installed ⊆ s.reconciler.installed :=
        Reconciler.installed_reconcile_subset hnone s.reconciler
      rw [h.emptied hdone] at hsub
      exact Finset.subset_empty.mp hsub
  | shutdown natTarget =>
    cases hshutdown : s.shutdown with
    | serving | returned =>
      refine h.frame hs ?_ ?_ ?_ <;> simp only [State.step, State.shutdownStep, hshutdown, imp_self]
    | pass =>
      have hstep : s.step (.shutdown natTarget) =
          { s with reconciler := s.pass ∅, shutdown := .clear } := by
        simp only [State.step, State.shutdownStep, hshutdown]
      refine h.pass hs ∅ (by rw [hstep]) (by rw [hstep]) fun _ => ?_
      exact Reconciler.installed_reconcile_empty _ _
    | clear | converge =>
      refine h.frame hs ?_ ?_ ?_ <;> simp only [State.step, State.shutdownStep, hshutdown]
      exact fun _ => trivial

end

/-! ## The table and the sysctl -/

def Converge.want : Converge → Option AppliedNat
  | .target => none
  | .read want | .apply want | .record want => want

/-- The original value is never lost. Where nothing is on record nothing is applied, unless the
loop is about to record it; and nothing is once the shutdown is done with the kernel. -/
structure NatAccounted (v0 : Bool) (s : State) : Prop where
  original : s.nat.kernel.original = v0
  recorded : s.nat.applied = none → (∀ t, s.loop ≠ .converge (.record (some t))) →
    s.nat.kernel.Untouched
  recording : s.loop = .converge (.record none) → s.nat.kernel.Untouched
  cleared : s.shutdown = .converge .target → s.advertised = []
  want : ∀ point, s.shutdown = .converge point → point.want = none
  done : s.shutdown.NatDone → s.nat.kernel.Untouched

section
variable {v0 : Bool} {s : State}

theorem natAccounted_start (v0 : Bool) (restored : Finset RouteKey) (table : RoutingTable)
    (advertised : List Ipv4Cidr) : NatAccounted v0 (.start v0 restored table advertised) where
  original := rfl
  recorded _ _ := ⟨rfl, rfl⟩
  recording h := nomatch h
  cleared h := nomatch h
  want _ h := nomatch h
  done h := h.elim

/-- A step of `converge` in the loop. -/
theorem NatAccounted.loop_converge (h : NatAccounted v0 s) {point : Converge}
    (hloop : s.loop = .converge point)
    (he : ∀ t, point = .apply (some t) → s.shutdown.NatDone → Refused t)
    {out : NatHost × Option Converge} {natTarget : Option AppliedNat}
    (hout : ConvergeEffect s.advertised natTarget s.nat point out) :
    NatAccounted v0 { s with nat := out.1, loop := out.2.elim .idle .converge } := by
  have hkept : (∀ t, point ≠ .record (some t)) → s.nat.applied = none →
      s.nat.kernel.Untouched := by
    intro hpoint hnone
    refine h.recorded hnone fun t ht => hpoint t ?_
    exact LoopPoint.converge.inj (hloop.symm.trans ht)
  cases hout with
  | target => exact ⟨h.original, fun hnone _ => hkept nofun hnone, nofun, h.cleared, h.want, h.done⟩
  | same want hsame =>
    exact ⟨h.original, fun hnone _ => hkept nofun hnone, nofun, h.cleared, h.want, h.done⟩
  | differs want hdiffers =>
    exact ⟨h.original, fun hnone _ => hkept nofun hnone, nofun, h.cleared, h.want, h.done⟩
  | refused t hrefused =>
    exact ⟨h.original, fun hnone _ => hkept nofun hnone, nofun, h.cleared, h.want, h.done⟩
  | up t hnot kernel horiginal =>
    refine ⟨horiginal.trans h.original, fun _ hrecord => absurd rfl (hrecord t), nofun, h.cleared,
      h.want, fun hdone => ?_⟩
    exact absurd (he t rfl hdone) hnot
  | down =>
    exact ⟨h.original, fun _ _ => ⟨rfl, rfl⟩, fun _ => ⟨rfl, rfl⟩, h.cleared, h.want,
      fun _ => ⟨rfl, rfl⟩⟩
  | record want =>
    refine ⟨h.original, fun hnone _ => ?_, nofun, h.cleared, h.want, h.done⟩
    have hnone : want = none := hnone
    exact h.recording (hnone ▸ hloop)

/-- A step of `converge` in the shutdown. -/
theorem NatAccounted.shutdown_converge (h : NatAccounted v0 s) {point : Converge}
    (hshutdown : s.shutdown = .converge point)
    (he : ∀ want, point = .read want → s.nat.applied = want →
      ∀ t, s.loop ≠ .converge (.record (some t)))
    {out : NatHost × Option Converge} {natTarget : Option AppliedNat}
    (hout : ConvergeEffect s.advertised natTarget s.nat point out) :
    NatAccounted v0 { s with nat := out.1, shutdown := out.2.elim .returned .converge } := by
  have hwant := h.want point hshutdown
  cases hout with
  | target =>
    refine ⟨h.original, h.recorded, h.recording, nofun, fun point' hpoint' => ?_, nofun⟩
    obtain rfl := ShutdownPoint.converge.inj hpoint'
    exact if_pos (h.cleared hshutdown)
  | same want hsame =>
    refine ⟨h.original, h.recorded, h.recording, nofun, nofun, fun _ => ?_⟩
    exact h.recorded (hsame.trans hwant) (he want rfl hsame)
  | differs want hdiffers =>
    refine ⟨h.original, h.recorded, h.recording, nofun, fun point' hpoint' => ?_, nofun⟩
    obtain rfl := ShutdownPoint.converge.inj hpoint'
    exact hwant
  | refused t => cases hwant
  | up t => cases hwant
  | down =>
    refine ⟨h.original, fun _ _ => ⟨rfl, rfl⟩, fun _ => ⟨rfl, rfl⟩, nofun,
      fun point' hpoint' => ?_, fun _ => ⟨rfl, rfl⟩⟩
    obtain rfl := ShutdownPoint.converge.inj hpoint'
    rfl
  | record want =>
    have hdone := h.done (hshutdown ▸ trivial)
    exact ⟨h.original, fun _ _ => hdone, fun _ => hdone, nofun, nofun, fun _ => hdone⟩

theorem NatAccounted.step (h : NatAccounted v0 s) {e : Event} (he : InOrder s e) :
    NatAccounted v0 (s.step e) := by
  cases e with
  | register nic tunIndex =>
    simp only [State.step]
    split
    · exact ⟨h.original, h.recorded, h.recording, h.cleared, h.want, h.done⟩
    · exact h
  | advertise routes => exact ⟨h.original, h.recorded, h.recording, he, h.want, h.done⟩
  | wake desired =>
    simp only [State.step]
    split
    · rename_i hidle
      refine ⟨h.original, fun hnone _ => h.recorded hnone ?_, nofun, h.cleared, h.want, h.done⟩
      intro t ht
      cases hidle.symm.trans ht
    · exact h
  | terminate =>
    simp only [State.step]
    split
    · exact ⟨h.original, h.recorded, h.recording, nofun, nofun, fun hdone => hdone.elim⟩
    · exact h
  | loop natTarget =>
    cases hloop : s.loop with
    | idle =>
      simp only [State.step, State.loopStep, hloop]
      exact h
    | pass desired =>
      simp only [State.step, State.loopStep, hloop]
      refine ⟨h.original, fun hnone _ => h.recorded hnone ?_, nofun, h.cleared, h.want, h.done⟩
      intro t ht
      cases hloop.symm.trans ht
    | converge point =>
      simp only [State.step, State.loopStep, hloop]
      refine h.loop_converge hloop (fun t ht => ?_)
        (convergeStep_effect s.advertised natTarget s.nat point)
      exact he.2 t (ht ▸ hloop)
  | shutdown natTarget =>
    cases hshutdown : s.shutdown with
    | serving | returned =>
      simp only [State.step, State.shutdownStep, hshutdown]
      exact h
    | pass =>
      simp only [State.step, State.shutdownStep, hshutdown]
      exact ⟨h.original, h.recorded, h.recording, nofun, nofun, fun hdone => hdone.elim⟩
    | clear =>
      simp only [State.step, State.shutdownStep, hshutdown]
      refine ⟨h.original, h.recorded, h.recording, fun _ => rfl, fun point hpoint => ?_,
        fun hdone => hdone.elim⟩
      obtain rfl := ShutdownPoint.converge.inj hpoint
      rfl
    | converge point =>
      simp only [State.step, State.shutdownStep, hshutdown]
      refine h.shutdown_converge hshutdown (fun want hwant => ?_)
        (convergeStep_effect s.advertised natTarget s.nat point)
      exact he want (hwant ▸ hshutdown)

end

/-! ## Runs -/

section
variable {v0 : Bool} {restored : Finset RouteKey} {table : RoutingTable}
  {advertised : List Ipv4Cidr} {es : List Event}

theorem routesAccounted_run
    (hes : Runs.Meets State.step (fun _ => InOrder) (.start v0 restored table advertised) es) :
    RoutesAccounted (.start v0 restored table advertised) es
      (Runs.run State.step (.start v0 restored table advertised) es) := by
  induction es using List.reverseRecOn with
  | nil =>
    refine ⟨nofun, ⟨nofun, nofun⟩, fun r hr => ?_, fun hdone => hdone.elim⟩
    obtain ⟨pre, e, post, heq, -⟩ := hr
    cases pre <;> cases heq
  | append_singleton es e ih =>
    obtain ⟨hes, he⟩ := Runs.meets_concat.mp hes
    rw [Runs.run_concat]
    exact (ih hes).step rfl he

theorem natAccounted_run
    (hes : Runs.Meets State.step (fun _ => InOrder) (.start v0 restored table advertised) es) :
    NatAccounted v0 (Runs.run State.step (.start v0 restored table advertised) es) :=
  Runs.invariant (P := fun _ s => NatAccounted v0 s) (natAccounted_start v0 restored table advertised)
    (fun _ _ _ h he => h.step he) hes

/-- **Shutdown leaves the host clean**, in every run whose steps are in order. -/
theorem clean_after_shutdown (v0 : Bool) (restored : Finset RouteKey) (table : RoutingTable)
    (advertised : List Ipv4Cidr) (es : List Event)
    (hes : Runs.Meets State.step (fun _ => InOrder) (.start v0 restored table advertised) es)
    (hover : Over (Runs.run State.step (.start v0 restored table advertised) es)) :
    Clean v0 (.start v0 restored table advertised) es := by
  have hroutes := routesAccounted_run hes
  have hnat := natAccounted_run hes
  obtain ⟨htable, hsaved⟩ := hnat.done (hover.1 ▸ trivial)
  refine ⟨htable, ?_, fun r hr hin => ?_⟩
  · have horiginal := hnat.original
    rw [NatKernel.original, hsaved] at horiginal
    exact horiginal
  · obtain ⟨nic, index, hindex, hif⟩ := hroutes.installed r hr hin
    obtain ⟨key, hkey, -⟩ := hroutes.owns.key r hin nic index hindex hif
    rw [hroutes.emptied (hover.1 ▸ trivial)] at hkey
    exact absurd hkey (Finset.notMem_empty key)

end

namespace Sample

open Host.Sample NatHost.Sample

def lanCidr : Ipv4Cidr := .ofOctets 192 168 1 0 24

def start : State := .start false ∅ [] [lanCidr]

/-- One turn of the loop, and then the shutdown. -/
def orderly : List Event :=
  [.register 7 3, .wake {lan}, .loop none, .loop (some lanNat), .loop none, .loop none, .loop none,
    .terminate, .shutdown none, .shutdown none, .shutdown none, .shutdown none, .shutdown none,
    .shutdown none]

theorem inOrder_loop {s : State} (h : s.shutdown = .serving) (natTarget : Option AppliedNat) :
    InOrder s (.loop natTarget) := by
  refine ⟨fun _ _ hdone => ?_, fun _ _ hdone => ?_⟩
  · exact (h ▸ hdone : ShutdownPoint.serving.PassDone).elim
  · exact (h ▸ hdone : ShutdownPoint.serving.NatDone).elim

theorem inOrder_shutdown {s : State} (h : s.loop = .idle) (natTarget : Option AppliedNat) :
    InOrder s (.shutdown natTarget) := by
  intro _ _ _ t ht
  cases h.symm.trans ht

theorem clean_after_shutdown_orderly : Clean false start orderly := by
  refine clean_after_shutdown false ∅ [] [lanCidr] orderly ?_ ⟨by rfl, by rfl⟩
  exact ⟨trivial, trivial, inOrder_loop rfl _, inOrder_loop rfl _, inOrder_loop rfl _,
    inOrder_loop rfl _, inOrder_loop rfl _, trivial, inOrder_shutdown rfl _, inOrder_shutdown rfl _,
    inOrder_shutdown rfl _, inOrder_shutdown rfl _, inOrder_shutdown rfl _, inOrder_shutdown rfl _,
    trivial⟩

/-- The loop wakes once more after the shutdown. -/
def lateWake : List Event :=
  [.register 7 3, .terminate, .shutdown none, .shutdown none, .shutdown none, .shutdown none,
    .wake {lan}, .loop none, .loop none, .loop none]

/-- The shutdown overtakes a `converge` of the loop. -/
def overtaken : List Event :=
  [.wake ∅, .loop none, .loop (some lanNat), .loop none, .terminate, .shutdown none,
    .shutdown none, .shutdown none, .shutdown none, .loop none, .loop none]

/-- A route of noeio is left in the one, and the table and the sysctl in the other. -/
theorem not_clean :
    (Over (Runs.run State.step start lateWake) ∧ ¬ Clean false start lateWake) ∧
      Over (Runs.run State.step start overtaken) ∧ ¬ Clean false start overtaken := by
  refine ⟨⟨⟨by rfl, by rfl⟩, fun h => ?_⟩, ⟨by rfl, by rfl⟩, fun h => ?_⟩
  · have hinstalled : Installed start lateWake (lan.route 3) :=
      ⟨lateWake.take 7, .loop none, lateWake.drop 8, rfl, by decide +kernel, by decide +kernel⟩
    exact absurd (h.2.2 _ hinstalled) (by decide +kernel)
  · exact absurd h.1 (by decide +kernel)

end Sample

end Shutdown

end Noeio
