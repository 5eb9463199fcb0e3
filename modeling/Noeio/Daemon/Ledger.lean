import Noeio.Daemon.Reconciler
import Noeio.Lib.Runs
import Noeio.Lib.SetLog

/-!
# The ledger of the reconciler

What the reconciler remembers to have installed is what its operations on the kernel make of
it. `Reconciler.attempts` reads off the two loops of a pass which operations they make and which
of them succeed, in order, and `reconcile_eq_replay` says that the memory after the pass is
the replay of these attempts, with one change counted for each success.

A pass attempts what `diff` says and nothing else: one delete for each extra key and one add for
each missing key whose nic has an interface, whatever the kernel answers (`map_attempts`).
`ledger_of_passes` is about whole runs of passes, over any desired sets, interfaces, failures and tables.
-/

namespace Noeio

open SetLog

namespace Reconciler

section Attempts

variable (ifindex : PeerId → Option UInt32) (faults : Faults)

/-- The call of `uninstall` in the loop over the keys to delete. -/
def deleteAttempt (s : Reconciler × Nat) (key : RouteKey) : List (Attempt RouteKey) :=
  [⟨.erase, key, (uninstall (faults.del key) s.1.table key (ifindex key.nic)).isOk⟩]

/-- The call of `install` in the loop over the keys to add. -/
def addAttempt (s : Reconciler × Nat) (key : RouteKey) : List (Attempt RouteKey) :=
  match ifindex key.nic with
  | none => []
  | some index => [⟨.insert, key, (install (faults.add key) s.1.table key index).isOk⟩]

/-- The operations of a pass with their outcomes, in order. -/
def attempts (self : Reconciler) (desired : Finset RouteKey) : List (Attempt RouteKey) :=
  let (missing, extra) := diff desired self.installed
  let deleted := extra.foldl (delete ifindex faults) (self, 0)
  logged (delete ifindex faults) (deleteAttempt ifindex faults) (self, 0) extra ++
    logged (add ifindex faults) (addAttempt ifindex faults) deleted missing

end Attempts

variable (ifindex : PeerId → Option UInt32) (faults : Faults)

/-! ## The memory is the replay of the attempts -/

theorem delete_eq_replay (s : Reconciler × Nat) (key : RouteKey) :
    (delete ifindex faults s key).1.installed =
        replay s.1.installed (deleteAttempt ifindex faults s key) ∧
      (delete ifindex faults s key).2 =
        s.2 + (deleteAttempt ifindex faults s key).countP (·.ok) := by
  unfold delete deleteAttempt
  cases uninstall (faults.del key) s.1.table key (ifindex key.nic) with
  | error err => exact ⟨rfl, rfl⟩
  | ok table => exact ⟨rfl, rfl⟩

theorem add_eq_replay (s : Reconciler × Nat) (key : RouteKey) :
    (add ifindex faults s key).1.installed =
        replay s.1.installed (addAttempt ifindex faults s key) ∧
      (add ifindex faults s key).2 = s.2 + (addAttempt ifindex faults s key).countP (·.ok) := by
  unfold add addAttempt
  cases ifindex key.nic with
  | none => exact ⟨rfl, rfl⟩
  | some index =>
    cases hinstall : install (faults.add key) s.1.table key index with
    | error err => simp [hinstall, Except.isOk, Except.toBool, replay, Attempt.apply]
    | ok table => simp [hinstall, Except.isOk, Except.toBool, replay, Attempt.apply, Op.apply]

theorem reconcile_eq_replay (self : Reconciler) (desired : Finset RouteKey) :
    (self.reconcile ifindex faults desired).1.installed =
        replay self.installed (self.attempts ifindex faults desired) ∧
      (self.reconcile ifindex faults desired).2 =
        (self.attempts ifindex faults desired).countP (·.ok) := by
  obtain ⟨hdel, hdelCount⟩ := foldl_logged (fun s : Reconciler × Nat => s.1.installed) (·.2)
    (delete_eq_replay ifindex faults) (self, 0)
    (diff desired self.installed).2
  obtain ⟨hadd, haddCount⟩ := foldl_logged (fun s : Reconciler × Nat => s.1.installed) (·.2)
    (add_eq_replay ifindex faults) ((diff desired self.installed).2.foldl (delete ifindex faults) (self, 0))
    (diff desired self.installed).1
  constructor
  · rw [attempts, replay_append, ← hdel]
    exact hadd
  · rw [attempts, List.countP_append]
    rw [Nat.zero_add] at hdelCount
    rw [← hdelCount]
    exact haddCount

/-! ## What a pass attempts -/

theorem map_attempts (self : Reconciler) (desired : Finset RouteKey) :
    (self.attempts ifindex faults desired).map (fun a => (a.op, a.key)) =
      (diff desired self.installed).2.map (Op.erase, ·) ++
        ((diff desired self.installed).1.filter fun key => (ifindex key.nic).isSome).map
          (Op.insert, ·) := by
  have hdel : ∀ s key, (deleteAttempt ifindex faults s key).map (fun a => (a.op, a.key)) =
      [(Op.erase, key)] := fun s key => rfl
  have hadd : ∀ s key, (addAttempt ifindex faults s key).map (fun a => (a.op, a.key)) =
      if (ifindex key.nic).isSome then [(Op.insert, key)] else [] := by
    intro s key
    unfold addAttempt
    cases ifindex key.nic <;> rfl
  rw [attempts, List.map_append, map_logged _ _ hdel, map_logged _ _ hadd, ← List.map_eq_flatMap]
  congr 1
  induction (diff desired self.installed).1 with
  | nil => rfl
  | cons key keys ih =>
    rw [List.flatMap_cons, ih, List.filter_cons]
    split <;> rfl

theorem mem_extra {desired installed : Finset RouteKey} {key : RouteKey} :
    key ∈ (diff desired installed).2 ↔ key ∈ installed \ desired := by
  rw [diff, Finset.mem_sort]

theorem mem_missing {desired installed : Finset RouteKey} {key : RouteKey} :
    key ∈ (diff desired installed).1 ↔ key ∈ desired \ installed := by
  rw [diff, Finset.mem_sort]

/-- No key is attempted twice. -/
theorem nodup_attempts (self : Reconciler) (desired : Finset RouteKey) :
    ((self.attempts ifindex faults desired).map (·.key)).Nodup := by
  have hkeys : (self.attempts ifindex faults desired).map (·.key) =
      ((self.attempts ifindex faults desired).map fun a => (a.op, a.key)).map (·.2) := by
    rw [List.map_map]
    rfl
  have hsnd : ∀ (op : Op) (keys : List RouteKey), (keys.map (op, ·)).map (·.2) = keys := by
    intro op keys
    rw [List.map_map]
    exact List.map_id keys
  rw [hkeys, map_attempts, List.map_append, hsnd, hsnd]
  refine List.nodup_append'.mpr ⟨Finset.sort_nodup _ _, (Finset.sort_nodup _ _).filter _, ?_⟩
  intro key hextra hmissing
  have hin := Finset.mem_sdiff.mp (mem_extra.mp hextra)
  have hnot := Finset.mem_sdiff.mp (mem_missing.mp (List.mem_filter.mp hmissing).1)
  exact hnot.2 hin.1

theorem mem_attempts (self : Reconciler) (desired : Finset RouteKey) (op : Op) (key : RouteKey) :
    (op, key) ∈ (self.attempts ifindex faults desired).map (fun a => (a.op, a.key)) ↔
      match op with
      | .erase => key ∈ self.installed \ desired
      | .insert => key ∈ desired \ self.installed ∧ (ifindex key.nic).isSome = true := by
  rw [map_attempts]
  cases op <;> simp [mem_extra, mem_missing]

/-- Each operation that a pass calls for is attempted exactly once, and no other is attempted. -/
theorem countP_attempts (self : Reconciler) (desired : Finset RouteKey) (op : Op)
    (key : RouteKey) :
    (self.attempts ifindex faults desired).countP (fun a => a.op = op && a.key = key) =
      if (op, key) ∈ (self.attempts ifindex faults desired).map (fun a => (a.op, a.key)) then 1
      else 0 := by
  have hnodup : ((self.attempts ifindex faults desired).map fun a => (a.op, a.key)).Nodup := by
    apply List.Nodup.of_map (·.2)
    rw [List.map_map]
    exact nodup_attempts ifindex faults self desired
  rw [← List.Nodup.count hnodup, List.count, List.countP_map]
  congr 1

/-- The attempts are what the memory and the desired set call for. -/
theorem called_attempts (self : Reconciler) (desired : Finset RouteKey) :
    Called self.installed (self.attempts ifindex faults desired) := by
  intro a ha
  have hmem := (mem_attempts ifindex faults self desired a.op a.key).mp
    (List.mem_map.mpr ⟨a, ha, rfl⟩)
  cases hop : a.op with
  | erase =>
    rw [hop] at hmem
    simp [(Finset.mem_sdiff.mp hmem).1]
  | insert =>
    rw [hop] at hmem
    simp [(Finset.mem_sdiff.mp hmem.1).2]

/-- A pass counts its changes of the memory. -/
theorem reconcile_snd (self : Reconciler) (desired : Finset RouteKey) :
    (self.reconcile ifindex faults desired).2 =
      (symmDiff self.installed (self.reconcile ifindex faults desired).1.installed).card := by
  obtain ⟨hset, hcount⟩ := reconcile_eq_replay ifindex faults self desired
  rw [hset, hcount, card_symmDiff_replay (called_attempts ifindex faults self desired)
    (nodup_attempts ifindex faults self desired)]

/-- A key that is desired and remembered is not touched. -/
theorem key_notMem_of_mem_attempts {self : Reconciler} {desired : Finset RouteKey}
    {a : Attempt RouteKey} (ha : a ∈ self.attempts ifindex faults desired) :
    a.key ∉ self.installed ∩ desired := by
  intro hkeep
  obtain ⟨hinstalled, hdesired⟩ := Finset.mem_inter.mp hkeep
  have hmem := (mem_attempts ifindex faults self desired a.op a.key).mp
    (List.mem_map.mpr ⟨a, ha, rfl⟩)
  have hop : a.op = .erase := (called_attempts ifindex faults self desired a ha).mp hinstalled
  rw [hop] at hmem
  exact (Finset.mem_sdiff.mp hmem).2 hdesired

theorem inter_subset_reconcile (self : Reconciler) (desired : Finset RouteKey) :
    self.installed ∩ desired ⊆ (self.reconcile ifindex faults desired).1.installed := by
  intro key hkeep
  by_contra hlost
  -- then the key is among the changes, so it was attempted
  have hchanged : key ∈ symmDiff self.installed
      (self.reconcile ifindex faults desired).1.installed :=
    Finset.mem_symmDiff.mpr (Or.inl ⟨(Finset.mem_inter.mp hkeep).1, hlost⟩)
  rw [(reconcile_eq_replay ifindex faults self desired).1,
    mem_symmDiff_replay (called_attempts ifindex faults self desired)] at hchanged
  obtain ⟨a, ha, -, rfl⟩ := hchanged
  exact key_notMem_of_mem_attempts ifindex faults ha hkeep

/-- When every attempt succeeds and every missing key has an interface, the pass ends with
the desired set. -/
theorem installed_reconcile_eq {self : Reconciler} {desired : Finset RouteKey}
    (hok : ∀ a ∈ self.attempts ifindex faults desired, a.ok = true)
    (hindex : ∀ key ∈ desired, key ∉ self.installed → (ifindex key.nic).isSome = true) :
    (self.reconcile ifindex faults desired).1.installed = desired := by
  have hchanges : ∀ key, key ∈ symmDiff self.installed
      (self.reconcile ifindex faults desired).1.installed ↔ key ∈ symmDiff self.installed desired := by
    intro key
    rw [(reconcile_eq_replay ifindex faults self desired).1,
      mem_symmDiff_replay (called_attempts ifindex faults self desired), Finset.mem_symmDiff]
    have hmem := mem_attempts ifindex faults self desired
    constructor
    · rintro ⟨a, ha, -, rfl⟩
      have ha' := (hmem a.op a.key).mp (List.mem_map.mpr ⟨a, ha, rfl⟩)
      cases hop : a.op with
      | erase =>
        rw [hop] at ha'
        exact Or.inl (Finset.mem_sdiff.mp ha')
      | insert =>
        rw [hop] at ha'
        exact Or.inr (Finset.mem_sdiff.mp ha'.1)
    · rintro (⟨hin, hout⟩ | ⟨hin, hout⟩)
      · obtain ⟨a, ha, heq⟩ := List.mem_map.mp
          ((hmem .erase key).mpr (Finset.mem_sdiff.mpr ⟨hin, hout⟩))
        exact ⟨a, ha, hok a ha, (Prod.mk.inj heq).2⟩
      · obtain ⟨a, ha, heq⟩ := List.mem_map.mp
          ((hmem .insert key).mpr ⟨Finset.mem_sdiff.mpr ⟨hin, hout⟩, hindex key hin hout⟩)
        exact ⟨a, ha, hok a ha, (Prod.mk.inj heq).2⟩
  exact symmDiff_right_injective _ (Finset.ext hchanges)

/-- With the desired set in memory there is nothing to attempt. -/
theorem attempts_eq_nil {self : Reconciler} {desired : Finset RouteKey}
    (h : self.installed = desired) : self.attempts ifindex faults desired = [] := by
  have hmap := map_attempts ifindex faults self desired
  rw [h, diff, Finset.sdiff_self, Finset.sort_empty] at hmap
  exact List.map_eq_nil_iff.mp hmap

/-! ## Runs of passes -/

/-- One call of `reconcile`: its arguments, what the system refuses, and the table the call
finds, which others may have changed since the last one. -/
structure Pass where
  desired : Finset RouteKey
  ifindex : PeerId → Option UInt32
  faults : Faults
  table : RoutingTable

/-- The reconciler that the pass runs on. -/
def Pass.on (pass : Pass) (installed : Finset RouteKey) : Reconciler := ⟨installed, pass.table⟩

def Pass.attempts (pass : Pass) (installed : Finset RouteKey) : List (Attempt RouteKey) :=
  (pass.on installed).attempts pass.ifindex pass.faults pass.desired

/-- What is remembered after the pass, and the number of changes. -/
def Pass.reconcile (pass : Pass) (installed : Finset RouteKey) : Finset RouteKey × Nat :=
  let (after, changed) := (pass.on installed).reconcile pass.ifindex pass.faults pass.desired
  (after.installed, changed)

/-- The memory of the reconciler and all operations it has attempted. -/
structure Ledger where
  installed : Finset RouteKey
  log : List (Attempt RouteKey)

def Ledger.step (self : Ledger) (pass : Pass) : Ledger where
  installed := (pass.reconcile self.installed).1
  log := self.log ++ pass.attempts self.installed

/-- The memory is what the log of the whole run makes of the restored keys. -/
theorem installed_run (restored : Finset RouteKey) (passes : List Pass) :
    (Runs.run Ledger.step ⟨restored, []⟩ passes).installed =
      replay restored (Runs.run Ledger.step ⟨restored, []⟩ passes).log := by
  refine Runs.invariant_of_step (P := fun _ (s : Ledger) => s.installed = replay restored s.log) rfl
    ?_ passes
  intro _ s pass hs
  rw [Ledger.step, replay_append, ← hs]
  exact (reconcile_eq_replay pass.ifindex pass.faults (pass.on s.installed) pass.desired).1

/-- The ledger over any run of passes from any restored set. The memory is the restored keys and
the keys whose latest successful operation was an install, less those whose latest successful
operation was a delete. A further pass, whatever it wants and whatever fails, keeps the keys it
wants and has, attempts each extra key and each missing key with an interface exactly once,
and returns the number of its changes. Where all attempts succeed and all nics have an
interface it ends with the desired set, and the next pass for the same set attempts nothing. -/
theorem ledger_of_passes (restored : Finset RouteKey) (passes : List Pass) :
    let s := Runs.run Ledger.step ⟨restored, []⟩ passes
    (∀ key, key ∈ s.installed ↔
      (key ∈ restored ∨ latest s.log key = some .insert) ∧ latest s.log key ≠ some .erase) ∧
    ∀ pass : Pass,
      let after := pass.reconcile s.installed
      let log := pass.attempts s.installed
      s.installed ∩ pass.desired ⊆ after.1 ∧
      (∀ key, log.countP (fun a => a.op = .insert && a.key = key) =
        if key ∈ pass.desired \ s.installed ∧ (pass.ifindex key.nic).isSome = true then 1 else 0) ∧
      (∀ key, log.countP (fun a => a.op = .erase && a.key = key) =
        if key ∈ s.installed \ pass.desired then 1 else 0) ∧
      after.2 = (symmDiff s.installed after.1).card ∧ after.2 = log.countP (·.ok) ∧
      ((∀ a ∈ log, a.ok = true) → (∀ key ∈ pass.desired, (pass.ifindex key.nic).isSome = true) →
        after.1 = pass.desired ∧
        ∀ again : Pass, again.desired = pass.desired → again.attempts after.1 = []) := by
  intro s
  refine ⟨?_, ?_⟩
  · intro key
    have hreplay : s.installed = replay restored s.log := installed_run restored passes
    rw [hreplay, mem_replay]
  · intro pass after log
    have hcount := countP_attempts pass.ifindex pass.faults (pass.on s.installed) pass.desired
    have hmem := mem_attempts pass.ifindex pass.faults (pass.on s.installed) pass.desired
    refine ⟨inter_subset_reconcile pass.ifindex pass.faults (pass.on s.installed) pass.desired,
      ?_, ?_, reconcile_snd pass.ifindex pass.faults (pass.on s.installed) pass.desired,
      (reconcile_eq_replay pass.ifindex pass.faults (pass.on s.installed) pass.desired).2, ?_⟩
    · intro key
      rw [show log.countP _ = _ from hcount .insert key]
      simp only [hmem .insert key]
      rfl
    · intro key
      rw [show log.countP _ = _ from hcount .erase key]
      simp only [hmem .erase key]
      rfl
    · intro hok hindex
      have hafter : after.1 = pass.desired :=
        installed_reconcile_eq pass.ifindex pass.faults hok fun key hkey _ => hindex key hkey
      refine ⟨hafter, ?_⟩
      intro again hdesired
      exact attempts_eq_nil again.ifindex again.faults (hafter.trans hdesired.symm)

end Reconciler

end Noeio
