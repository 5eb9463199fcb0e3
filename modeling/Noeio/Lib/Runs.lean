import Mathlib.Data.List.Induction
import Mathlib.Tactic.Common

/-!
# Runs of a step function

A system is a step function `step : σ → ε → σ` on states, and a run is the list of
the events taken so far, oldest first. Events that are not enabled leave the state as
it is, so every list of events is a run.

* `run step s es` is the state after the events `es`.
* `Meets step C s es` says that every event of the run meets the condition `C`. The
  condition may read the events before it and the state it is taken in.
* `invariant` is the induction rule of the library: what holds at the start and is kept
  by every step that meets the condition holds after every such run. The invariant may
  mention the history, which is how a state is tied to the events that led to it.
* `forall_prefix_iff_meets`: where a condition says exactly which steps keep a property, it says
  exactly which runs do.
* `simulation`: two systems related at the start, and kept so by every event, end related.
* `simulation_filterMap`: so do two systems where an event of the first stands for an event of the
  second or for none.
* `blocks`: where an event of one system stands for a list of events of another that may depend on
  the state, `run_blocks` gives the run of the other system.
* `Happened step s es Q` says that some event of the run was `Q` in the state it was taken in.
* `exists_last_change`: a property that held once and does not hold at the end was lost
  at one particular event.
-/

namespace Runs

variable {σ ε : Type*}

/-- The state reached from `s` over the events `es`, oldest first. -/
def run (step : σ → ε → σ) (s : σ) (es : List ε) : σ := es.foldl step s

@[simp] theorem run_nil (step : σ → ε → σ) (s : σ) : run step s [] = s := rfl

@[simp] theorem run_concat (step : σ → ε → σ) (s : σ) (es : List ε) (e : ε) :
    run step s (es ++ [e]) = step (run step s es) e := by
  simp [run]

theorem run_append (step : σ → ε → σ) (s : σ) (as bs : List ε) :
    run step s (as ++ bs) = run step (run step s as) bs :=
  List.foldl_append

/-- Every event of `es` meets `C` in the state it is taken in, after the events `h`. -/
def MeetsFrom (step : σ → ε → σ) (C : List ε → σ → ε → Prop) : List ε → σ → List ε → Prop
  | _, _, [] => True
  | h, s, e :: es => C h s e ∧ MeetsFrom step C (h ++ [e]) (step s e) es

/-- Every event of the run `es` from `s` meets `C`. -/
def Meets (step : σ → ε → σ) (C : List ε → σ → ε → Prop) (s : σ) (es : List ε) : Prop :=
  MeetsFrom step C [] s es

theorem meetsFrom_concat {step : σ → ε → σ} {C : List ε → σ → ε → Prop} {h : List ε} {s : σ}
    {es : List ε} {e : ε} :
    MeetsFrom step C h s (es ++ [e]) ↔
      MeetsFrom step C h s es ∧ C (h ++ es) (run step s es) e := by
  induction es generalizing h s with
  | nil => simp [MeetsFrom, run]
  | cons a as ih =>
    have hrun : run step s (a :: as) = run step (step s a) as := rfl
    simp only [List.cons_append, MeetsFrom, ih, hrun, List.append_assoc, List.nil_append, and_assoc]

theorem meets_concat {step : σ → ε → σ} {C : List ε → σ → ε → Prop} {s : σ} {es : List ε} {e : ε} :
    Meets step C s (es ++ [e]) ↔ Meets step C s es ∧ C es (run step s es) e := by
  simpa [Meets] using meetsFrom_concat (h := [])

theorem meets_true {step : σ → ε → σ} {s : σ} {es : List ε} :
    Meets step (fun _ _ _ => True) s es := by
  induction es using List.reverseRecOn with
  | nil => trivial
  | append_singleton as a ih => exact meets_concat.mpr ⟨ih, trivial⟩

/-- A condition on the events alone is met when every event of the run meets it. -/
theorem meets_of_forall {step : σ → ε → σ} {C : ε → Prop} {s : σ} {es : List ε}
    (h : ∀ e ∈ es, C e) : Meets step (fun _ _ e => C e) s es := by
  induction es using List.reverseRecOn with
  | nil => trivial
  | append_singleton as a ih =>
    refine meets_concat.mpr ⟨ih fun e he => h e (List.mem_append_left _ he), ?_⟩
    exact h a (List.mem_append_right _ List.mem_cons_self)

/-- What holds at the start and is kept by every step that meets `C` holds after every run
whose steps all meet `C`. -/
theorem invariant {step : σ → ε → σ} {C : List ε → σ → ε → Prop} {P : List ε → σ → Prop} {s : σ}
    (h0 : P [] s) (hstep : ∀ es t e, P es t → C es t e → P (es ++ [e]) (step t e))
    {es : List ε} (hes : Meets step C s es) : P es (run step s es) := by
  induction es using List.reverseRecOn with
  | nil => exact h0
  | append_singleton as a ih =>
    obtain ⟨has, ha⟩ := meets_concat.mp hes
    rw [run_concat]
    exact hstep as _ a (ih has) ha

/-- The rule without a condition: what every step keeps holds after every run. -/
theorem invariant_of_step {step : σ → ε → σ} {P : List ε → σ → Prop} {s : σ}
    (h0 : P [] s) (hstep : ∀ es t e, P es t → P (es ++ [e]) (step t e))
    (es : List ε) : P es (run step s es) := by
  induction es using List.reverseRecOn with
  | nil => exact h0
  | append_singleton as a ih =>
    rw [run_concat]
    exact hstep as _ a ih

/-- Where `C` says of every step from a `P` state whether it keeps `P`, a run stays in `P`
exactly if all its steps meet `C`. -/
theorem forall_prefix_iff_meets {step : σ → ε → σ} {C : List ε → σ → ε → Prop} {P : σ → Prop}
    {s : σ} (h0 : P s)
    (hstep : ∀ pre e, P (run step s pre) → (P (step (run step s pre) e) ↔ C pre (run step s pre) e))
    (es : List ε) : (∀ pre, pre <+: es → P (run step s pre)) ↔ Meets step C s es := by
  induction es using List.reverseRecOn with
  | nil =>
    simp only [List.prefix_nil, forall_eq, run_nil]
    exact iff_of_true h0 trivial
  | append_singleton as a ih =>
    rw [meets_concat, ← ih]
    constructor
    · intro h
      have has : P (run step s as) := h as (List.prefix_append as [a])
      refine ⟨fun pre hpre => h pre (hpre.trans (List.prefix_append as [a])), ?_⟩
      have hlast : P (run step s (as ++ [a])) := h (as ++ [a]) (List.prefix_refl _)
      rw [run_concat] at hlast
      exact (hstep as a has).mp hlast
    · rintro ⟨hbefore, ha⟩ pre hpre
      rcases List.prefix_concat_iff.mp hpre with rfl | hpre
      · rw [run_concat]
        exact (hstep as a (hbefore as (List.prefix_refl as))).mpr ha
      · exact hbefore pre hpre

/-- Two systems that take the same events stay related if every event keeps them related. -/
theorem simulation {τ : Type*} {step : σ → ε → σ} {step' : τ → ε → τ} {R : σ → τ → Prop} {s : σ}
    {t : τ} (h0 : R s t) (hstep : ∀ s t e, R s t → R (step s e) (step' t e)) (es : List ε) :
    R (run step s es) (run step' t es) := by
  induction es using List.reverseRecOn with
  | nil => exact h0
  | append_singleton as a ih =>
    rw [run_concat, run_concat]
    exact hstep _ _ a ih

/-- A system in which an event stands for an event of another one or for none follows the run of what
its events stand for, if each step that meets `C` follows. -/
theorem simulation_filterMap {τ δ : Type*} {step : σ → ε → σ} {step' : τ → δ → τ}
    {spec : ε → Option δ} {C : List ε → σ → ε → Prop} {R : σ → τ → Prop} {s : σ} {t : τ} (h0 : R s t)
    (hstep : ∀ es s t e, R s t → C es s e → R (step s e) (run step' t (spec e).toList))
    {es : List ε} (hes : Meets step C s es) :
    R (run step s es) (run step' t (es.filterMap spec)) := by
  induction es using List.reverseRecOn with
  | nil => exact h0
  | append_singleton as a ih =>
    obtain ⟨has, ha⟩ := meets_concat.mp hes
    have hlast : [a].filterMap spec = (spec a).toList := by
      cases hspec : spec a with
      | none => simp [hspec]
      | some d => simp [hspec]
    rw [run_concat, List.filterMap_append, hlast, run_append]
    exact hstep as _ _ a (ih has) ha

/-- What a run does to another system, if an event stands for the events `acts`. -/
def blocks {δ : Type*} (step : σ → ε → σ) (acts : σ → ε → List δ) : σ → List ε → List δ
  | _, [] => []
  | s, e :: es => acts s e ++ blocks step acts (step s e) es

theorem run_blocks {τ δ : Type*} {step : σ → ε → σ} {step' : τ → δ → τ} {acts : σ → ε → List δ}
    {f : σ → τ} (hstep : ∀ s e, f (step s e) = run step' (f s) (acts s e)) (s : σ) (es : List ε) :
    f (run step s es) = run step' (f s) (blocks step acts s es) := by
  induction es generalizing s with
  | nil => rfl
  | cons e es ih =>
    have hrun : run step s (e :: es) = run step (step s e) es := rfl
    rw [hrun, ih, hstep, blocks, run_append]

/-- At some point of the run an event was taken that is `Q` in the state before it. -/
def Happened (step : σ → ε → σ) (s : σ) (es : List ε) (Q : σ → ε → Prop) : Prop :=
  ∃ pre e post, es = pre ++ e :: post ∧ Q (run step s pre) e

section
variable {step : σ → ε → σ} {s : σ} {es : List ε} {Q : σ → ε → Prop}

theorem Happened.concat (h : Happened step s es Q) (e : ε) : Happened step s (es ++ [e]) Q := by
  obtain ⟨pre, a, post, rfl, hQ⟩ := h
  exact ⟨pre, a, post ++ [e], by simp, hQ⟩

theorem happened_last {e : ε} (h : Q (run step s es) e) : Happened step s (es ++ [e]) Q :=
  ⟨es, e, [], rfl, h⟩

theorem happened_concat {e : ε} :
    Happened step s (es ++ [e]) Q ↔ Happened step s es Q ∨ Q (run step s es) e := by
  constructor
  · rintro ⟨pre, a, post, heq, hQ⟩
    rcases List.eq_nil_or_concat post with rfl | ⟨post, b, rfl⟩
    · obtain ⟨rfl, hae⟩ := List.append_inj' heq rfl
      exact Or.inr ((List.cons.inj hae).1 ▸ hQ)
    · have hinit : es = pre ++ a :: post := by
        have hassoc : es ++ [e] = (pre ++ a :: post) ++ [b] := by simpa using heq
        exact (List.append_inj' hassoc rfl).1
      exact Or.inl ⟨pre, a, post, hinit, hQ⟩
  · rintro (h | h)
    · exact h.concat e
    · exact happened_last h

end

/-- `Q` held at some point of the run and was lost by one of its events. -/
def Lost (step : σ → ε → σ) (Q : σ → Prop) (s : σ) (es : List ε) : Prop :=
  ∃ pre e post, es = pre ++ e :: post ∧ Q (run step s pre) ∧ ¬ Q (step (run step s pre) e)

theorem Lost.concat {step : σ → ε → σ} {Q : σ → Prop} {s : σ} {es : List ε}
    (h : Lost step Q s es) (e : ε) : Lost step Q s (es ++ [e]) := by
  obtain ⟨pre, a, post, rfl, hQ, hnQ⟩ := h
  exact ⟨pre, a, post ++ [e], by simp, hQ, hnQ⟩

/-- A property that held after some part of the run and does not hold at its end was lost
on the way. -/
theorem exists_last_change {step : σ → ε → σ} {Q : σ → Prop} {s : σ} {pre post : List ε}
    (hpre : Q (run step s pre)) (hend : ¬ Q (run step s (pre ++ post))) :
    Lost step Q s (pre ++ post) := by
  induction post using List.reverseRecOn with
  | nil => exact absurd (by simpa using hpre) hend
  | append_singleton as a ih =>
    rw [← List.append_assoc] at hend ⊢
    by_cases hmid : Q (run step s (pre ++ as))
    · rw [run_concat] at hend
      exact ⟨pre ++ as, a, [], rfl, hmid, hend⟩
    · exact (ih hmid).concat a

end Runs
