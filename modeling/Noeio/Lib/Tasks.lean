import Noeio.Lib.Runs

/-!
# Interleaved calls on a shared state

Any number of requests are served at once over one shared state. Serving a request is a
sequence of atomic steps, each of which reads or writes the shared state under a lock. Between
two steps the call keeps its local variables, and any other call may take a step.

* `entry r` is the point at which a call for the request `r` starts.
* `atomic shared k input` is the atomic step of a call at the point `k`: the shared state after
  it and the next point, or `none` when the call returns.
* A call in flight is a request with the point its call has reached. Calls that agree on both
  are interchangeable, so an event names a call by its value.

A run is a run of `step` in the sense of `Noeio.Lib.Runs`, and `invariant` is its induction rule
with the events taken apart.
-/

namespace Tasks

/-- The shared state and the calls in flight. -/
structure State (ρ κ σ : Type*) where
  shared : σ
  calls : List (ρ × κ)

inductive Event (ρ κ ι : Type*) where
  | start (request : ρ)
  | resume (call : ρ × κ) (input : ι)

variable {ρ κ σ ι : Type*}

/-- The other calls in flight. -/
def State.rest [DecidableEq ρ] [DecidableEq κ] (s : State ρ κ σ) (call : ρ × κ) : List (ρ × κ) :=
  s.calls.erase call

/-- The state after `call` has taken a step that led to `next`. -/
def State.advance [DecidableEq ρ] [DecidableEq κ] (s : State ρ κ σ) (call : ρ × κ)
    (next : σ × Option κ) : State ρ κ σ :=
  ⟨next.1, (next.2.map (call.1, ·)).toList ++ s.rest call⟩

def step [DecidableEq ρ] [DecidableEq κ] (entry : ρ → κ) (atomic : σ → κ → ι → σ × Option κ)
    (s : State ρ κ σ) : Event ρ κ ι → State ρ κ σ
  | .start r => { s with calls := (r, entry r) :: s.calls }
  | .resume call input =>
    if call ∈ s.calls then s.advance call (atomic s.shared call.2 input) else s

/-- The requests of a run, oldest first. -/
def requests (es : List (Event ρ κ ι)) : List ρ :=
  es.filterMap fun
    | .start r => some r
    | .resume _ _ => none

@[simp] theorem requests_start (es : List (Event ρ κ ι)) (r : ρ) :
    requests (es ++ [.start r]) = requests es ++ [r] := by
  simp [requests]

@[simp] theorem requests_resume (es : List (Event ρ κ ι)) (call : ρ × κ) (input : ι) :
    requests (es ++ [.resume call input]) = requests es := by
  simp [requests]

section
variable [DecidableEq ρ] [DecidableEq κ] {entry : ρ → κ} {atomic : σ → κ → ι → σ × Option κ}
  {s : State ρ κ σ} {call other : ρ × κ}

theorem mem_of_mem_rest (h : other ∈ s.rest call) : other ∈ s.calls := List.mem_of_mem_erase h

theorem mem_rest_of_ne (hne : other ≠ call) (h : other ∈ s.calls) : other ∈ s.rest call :=
  (List.mem_erase_of_ne hne).mpr h

theorem perm_rest (h : call ∈ s.calls) : s.calls.Perm (call :: s.rest call) :=
  List.perm_cons_erase h

theorem mem_advance {next : σ × Option κ} :
    other ∈ (s.advance call next).calls ↔
      (other.1 = call.1 ∧ next.2 = some other.2) ∨ other ∈ s.rest call := by
  obtain ⟨r, k⟩ := other
  simp only [State.advance, List.mem_append, Option.mem_toList, Option.map_eq_some_iff,
    Prod.mk.injEq]
  constructor
  · rintro (⟨k', hk', hr, rfl⟩ | h)
    · exact Or.inl ⟨hr.symm, hk'⟩
    · exact Or.inr h
  · rintro (⟨hr, hk⟩ | h)
    · exact Or.inl ⟨k, hk, hr.symm, rfl⟩
    · exact Or.inr h

/-- What holds at the start, and is kept by every request that comes in and by every atomic
step of a call in flight that meets `C`, holds after every run whose events all meet `C`. -/
theorem invariant {C : List (Event ρ κ ι) → State ρ κ σ → Event ρ κ ι → Prop}
    {P : List (Event ρ κ ι) → State ρ κ σ → Prop} (h0 : P [] s)
    (hstart : ∀ es t r, P es t → C es t (.start r) →
      P (es ++ [.start r]) { t with calls := (r, entry r) :: t.calls })
    (hresume : ∀ es t call input, P es t → C es t (.resume call input) → call ∈ t.calls →
      P (es ++ [.resume call input]) (t.advance call (atomic t.shared call.2 input)))
    (hidle : ∀ es t call input, P es t → P (es ++ [.resume call input]) t)
    {es : List (Event ρ κ ι)} (hes : Runs.Meets (step entry atomic) C s es) :
    P es (Runs.run (step entry atomic) s es) := by
  refine Runs.invariant h0 ?_ hes
  intro es t e hP hC
  cases e with
  | start r => exact hstart es t r hP hC
  | resume call input =>
    by_cases hmem : call ∈ t.calls
    · rw [step, if_pos hmem]
      exact hresume es t call input hP hC hmem
    · rw [step, if_neg hmem]
      exact hidle es t call input hP

end

end Tasks
