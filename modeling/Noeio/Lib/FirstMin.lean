import Mathlib.Order.Lattice
import Noeio.Lib.VersionedRegister

/-!
# The first minimum of a list

`firstMin` is `Iterator::min_by_key`: of several least elements it takes the first. It is the
register of `Noeio.Lib.VersionedRegister` under the dual order, where what was written first
stays until something strictly better comes (`firstMin_eq_writes`).
-/

namespace FirstMin

open VersionedRegister OrderDual

variable {α β : Type*} [LinearOrder β] {key : α → β}

def firstMin (key : α → β) : List α → Option α
  | [] => none
  | a :: as => some (as.foldl (fun best a => if key a < key best then a else best) a)

theorem keep_toDual (best a : α) :
    keep (toDual ∘ key) (some best) a = if key a < key best then a else best := by
  by_cases h : key a < key best
  · rw [if_pos h]
    exact if_neg (not_le.mpr h)
  · rw [if_neg h]
    exact if_pos (not_lt.mp h)

theorem firstMin_eq_writes (l : List α) : firstMin key l = writes (toDual ∘ key) none l := by
  cases l with
  | nil => rfl
  | cons a as =>
    rw [firstMin, writes, List.foldl_cons, keep]
    induction as generalizing a with
    | nil => rfl
    | cons b as ih =>
      rw [List.foldl_cons, List.foldl_cons, keep_toDual]
      exact ih _

theorem firstMin_eq_none {l : List α} : firstMin key l = none ↔ l = [] := by
  cases l <;> simp [firstMin]

theorem mem_of_firstMin {l : List α} {a : α} (h : firstMin key l = some a) : a ∈ l := by
  rw [firstMin_eq_writes] at h
  exact (newest_writes h).1

theorem firstMin_le {l : List α} {a : α} (h : firstMin key l = some a) :
    ∀ b ∈ l, key a ≤ key b := by
  rw [firstMin_eq_writes] at h
  exact (newest_writes h).2

/-- What stands before the first minimum is greater. -/
theorem firstMin_split {l : List α} {a : α} (h : firstMin key l = some a) :
    ∃ pre post, l = pre ++ a :: post ∧ (∀ b ∈ pre, key a < key b) ∧ ∀ b ∈ post, key a ≤ key b := by
  rw [firstMin_eq_writes] at h
  exact firstNewest_writes h

end FirstMin
