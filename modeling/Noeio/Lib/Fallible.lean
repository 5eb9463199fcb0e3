import Mathlib.Tactic.Common

/-!
# Steps that may fail

What a chain of fallible steps (`Except`) has done when it succeeds: each step has
(`bind_eq_ok`, `exists_of_map_eq_ok`), and each element of a list has been read
(`forall_mem_of_mapM_eq_ok`). A list that was written element by element is read back
(`mapM_map_eq_ok`).
-/

theorem bind_eq_ok {α β ε : Type} {x : Except ε α} {f : α → Except ε β} {b : β}
    (h : x >>= f = .ok b) : ∃ a, x = .ok a ∧ f a = .ok b := by
  cases x with
  | error e => cases h
  | ok a => exact ⟨a, rfl, h⟩

theorem exists_of_map_eq_ok {α β ε : Type} {x : Except ε α} {f : α → β} {b : β}
    (h : x.map f = .ok b) : ∃ a, x = .ok a ∧ f a = b := by
  cases x with
  | error err => cases h
  | ok a => exact ⟨a, rfl, Except.ok.inj h⟩

theorem forall_mem_of_mapM_eq_ok {α β ε : Type} {P : β → Prop} {f : α → Except ε β} {xs : List α}
    {ys : List β} (h : xs.mapM f = .ok ys) (hf : ∀ x y, f x = .ok y → P y) : ∀ y ∈ ys, P y := by
  induction xs generalizing ys with
  | nil =>
    cases h
    exact fun y hy => absurd hy List.not_mem_nil
  | cons x xs ih =>
    rw [List.mapM_cons] at h
    obtain ⟨y, hy, h⟩ := bind_eq_ok h
    obtain ⟨ys', hys', h⟩ := bind_eq_ok h
    cases h
    intro z hz
    rcases List.mem_cons.mp hz with rfl | hz
    · exact hf x z hy
    · exact ih hys' z hz

theorem mapM_map_eq_ok {α β ε : Type} {write : α → β} {read : β → Except ε α} {xs : List α}
    (h : ∀ x ∈ xs, read (write x) = .ok x) : (xs.map write).mapM read = .ok xs := by
  induction xs with
  | nil => rfl
  | cons x xs ih =>
    rw [List.map_cons, List.mapM_cons, h x List.mem_cons_self,
      ih fun y hy => h y (List.mem_cons_of_mem x hy)]
    rfl
