import Noeio.Daemon.Nat

/-!
# Recovery after a crash

The forwarding sysctl and the nftables table outlive the process. A process that dies leaves them
as they are, and the next one clears them at its start: `sweep_leftovers` of
`noeio/src/daemon/nat.rs`, before the first `converge`.

A life is a boot with its sweep and then calls of `converge`. Steps may fail in the sweep and in the
calls, and a life may end at any point. To die inside a call is to leave out the steps from there
on, so the kernel is as after a call in which they failed. This includes the save: a process that
dies after it has made the file leaves what a failed write leaves.

What ties the lives together is the original value of the sysctl (`NatKernel.original`). A run never
loses it, unless a save is cut off in the middle while forwarding is on (`original_iff`), and a sweep
that completes puts it back (`sweep_recovers`).
-/

namespace Noeio

/-- The steps that fail in a sweep. -/
structure SweepFaults where
  steps : NatFaults
  tableExists : Bool

inductive SweepError where
  | nat (err : NatError)
  | tableExists
  deriving DecidableEq

namespace NatKernel

/-- `sweep_leftovers`: whether a value was restored and whether a table was there. -/
def sweep (faults : SweepFaults) (self : NatKernel) :
    NatKernel × Except SweepError (Bool × Bool) :=
  match self.restore faults.steps with
  | (self, .error err) => (self, .error (.nat err))
  | (self, .ok restored) =>
    if faults.steps .openSocket then (self, .error (.nat (.failed .openSocket)))
    else if faults.tableExists then (self, .error .tableExists)
    else
      let hadTable := self.table.isSome
      if hadTable then
        match self.clear faults.steps with
        | (self, .error err) => (self, .error (.nat err))
        | (self, .ok ()) => (self, .ok (restored, hadTable))
      else (self, .ok (restored, hadTable))

end NatKernel

namespace NatHost

inductive LifeEvent where
  /-- A process starts. Nothing is recorded as applied, and the sweep comes first. -/
  | boot (faults : SweepFaults)
  | converge (call : Call)

def live (self : NatHost) : LifeEvent → NatHost
  | .boot faults => ⟨(self.kernel.sweep faults).1, none⟩
  | .converge call => self.converge call

/-- A save is cut off after the file was made, while forwarding is on. -/
def LosesOriginal (s : NatHost) (e : LifeEvent) : Prop := s.kernel.Loses (s.live e).kernel

end NatHost

/-! ## What a sweep does -/

namespace NatKernel

section
variable (faults : SweepFaults) (k : NatKernel)

theorem original_sweep : (k.sweep faults).1.original = k.original := by
  have hrestore := original_restore faults.steps k
  unfold sweep
  cases hk : k.restore faults.steps with
  | mk k' result =>
    rw [hk] at hrestore
    cases result with
    | error err => exact hrestore
    | ok restored =>
      dsimp only
      split
      · exact hrestore
      split
      · exact hrestore
      split
      · rcases clear_cases faults.steps k' with ⟨err, hclear⟩ | hclear
        · rw [hclear]
          exact hrestore
        · rw [hclear]
          exact hrestore
      · exact hrestore

/-- A sweep that does not fail leaves no table, the original value and no file. -/
theorem sweep_of_ok {result : Bool × Bool} (h : (k.sweep faults).2 = .ok result) :
    (k.sweep faults).1 = ⟨none, k.original, none⟩ := by
  unfold sweep at h ⊢
  rcases restore_cases faults.steps k with ⟨ipForward, err, hrestore, -⟩ | ⟨restored, hrestore⟩
  · rw [hrestore] at h
    cases h
  rw [hrestore] at h ⊢
  dsimp only at h ⊢
  split at h
  · cases h
  rename_i hopen
  rw [if_neg hopen]
  split at h
  · cases h
  rename_i hexists
  rw [if_neg hexists]
  cases htable : k.table with
  | none =>
    simp
  | some rules =>
    simp only [htable, Option.isSome_some, if_true] at h ⊢
    rcases clear_cases faults.steps ⟨some rules, k.original, none⟩ with ⟨err, hclear⟩ | hclear
    · rw [hclear] at h
      cases h
    · rw [hclear]

end

end NatKernel

/-! ## Lives -/

namespace NatHost

/-- A step keeps the original value if and only if it does not cut off a save with forwarding on. -/
theorem original_live_iff (s : NatHost) (e : LifeEvent) :
    (s.live e).kernel.original = s.kernel.original ↔ ¬ s.LosesOriginal e := by
  have hor : (s.live e).kernel.original = s.kernel.original ∨ s.LosesOriginal e := by
    cases e with
    | boot faults => exact Or.inl (s.kernel.original_sweep faults)
    | converge call =>
      change (s.converge call).kernel.original = s.kernel.original ∨
        s.kernel.Loses (s.converge call).kernel
      rcases converge_cases s call with ⟨-, h⟩ | ⟨-, h⟩ | ⟨-, -, h⟩
      · exact Or.inl (congrArg (·.kernel.original) h)
      · rw [h]
        exact s.kernel.original_changeTo call.fails call.want
      · rw [h]
        exact s.kernel.original_changeTo call.fails call.want
  exact ⟨fun hkept hloses => NatKernel.original_of_loses hloses hkept, hor.resolve_right⟩

/-- For any lives, with any steps failing in their sweeps and calls and with any ends: the original
value is known in every state if and only if no save was cut off while forwarding was on. -/
theorem original_iff (v0 : Bool) (es : List LifeEvent) :
    (∀ pre, pre <+: es → (Runs.run live (untouched v0) pre).kernel.original = v0) ↔
      Runs.Meets live (fun _ s e => ¬ s.LosesOriginal e) (untouched v0) es := by
  refine Runs.forall_prefix_iff_meets (P := fun s : NatHost => s.kernel.original = v0) rfl ?_ es
  intro pre e horiginal
  have hstep := original_live_iff (Runs.run live (untouched v0) pre) e
  rwa [horiginal] at hstep

namespace Sample

def calm : SweepFaults := ⟨healthy, false⟩

/-- A start that dies in the save with forwarding off, a sweep that cannot read the tables, a start
that fails at the sysctl. -/
def lives : List LifeEvent :=
  [.boot calm, .converge ⟨some lanNat, failing .writeSaved⟩, .boot ⟨healthy, true⟩,
    .converge ⟨some lanNat, failing .writeForward⟩]

/-- With forwarding on before noeio, a failed write in the save turns it off at the next boot. -/
example :
    (Runs.run live (untouched true) [.converge ⟨some lanNat, failing .writeSaved⟩, .boot calm]).kernel =
      ⟨none, false, none⟩ := by
  decide

end Sample

end NatHost

end Noeio
