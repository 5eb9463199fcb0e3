import Mathlib.Algebra.Group.Nat.Defs
import Mathlib.Tactic.Common

/-!
# Arithmetic that may overflow

A build with overflow checks stops at an overflow (`Panic`), a build without wraps. `checks` says
which of the two the code is. Where the exact result fits, the builds agree and the result is
exact (`overflowing_of_fits`, `product_of_fits`).
-/

namespace Checked

/-- What stops a thread. -/
inductive Panic where
  | overflow
  | notCharBoundary
  deriving DecidableEq

/-- An operation with the result `wrapped`, which is exact if it `fits`. -/
def overflowing {α : Type} (checks fits : Bool) (wrapped : α) : Except Panic α :=
  if checks && !fits then .error .overflow else .ok wrapped

section
variable (checks : Bool)

def add (a b : UInt64) : Except Panic UInt64 :=
  overflowing checks (a.toNat + b.toNat < 2 ^ 64) (a + b)

def mul (a b : UInt64) : Except Panic UInt64 :=
  overflowing checks (a.toNat * b.toNat < 2 ^ 64) (a * b)

def sub8 (a b : UInt8) : Except Panic UInt8 := overflowing checks (b ≤ a) (a - b)

/-- The shift amount wraps too. -/
def shl {w : Nat} (x : BitVec w) (n : UInt8) : Except Panic (BitVec w) :=
  overflowing checks (n.toNat < w) (x <<< (n.toNat % w))

end

variable {checks : Bool}

theorem overflowing_of_fits {α : Type} {fits : Bool} (h : fits = true) (wrapped : α) :
    overflowing checks fits wrapped = .ok wrapped := by
  rw [overflowing, h, Bool.not_true, Bool.and_false]
  exact if_neg Bool.false_ne_true

theorem add_of_fits (checks : Bool) {a b : UInt64} (h : a.toNat + b.toNat < 2 ^ 64) :
    add checks a b = .ok (a + b) ∧ (a + b).toNat = a.toNat + b.toNat := by
  refine ⟨overflowing_of_fits (decide_eq_true h) _, ?_⟩
  rw [UInt64.toNat_add, Nat.mod_eq_of_lt h]

theorem mul_of_fits (checks : Bool) {a b : UInt64} (h : a.toNat * b.toNat < 2 ^ 64) :
    mul checks a b = .ok (a * b) ∧ (a * b).toNat = a.toNat * b.toNat := by
  refine ⟨overflowing_of_fits (decide_eq_true h) _, ?_⟩
  rw [UInt64.toNat_mul, Nat.mod_eq_of_lt h]

/-- One factor after the other: no step overflows if the whole product fits. -/
theorem product_of_fits (checks : Bool) {factors : List UInt64}
    (hpos : ∀ b ∈ factors, 0 < b.toNat) {a : UInt64}
    (h : a.toNat * (factors.map UInt64.toNat).prod < 2 ^ 64) :
    ∃ c, factors.foldlM (mul checks) a = .ok c ∧
      c.toNat = a.toNat * (factors.map UInt64.toNat).prod := by
  induction factors generalizing a with
  | nil => exact ⟨a, rfl, (Nat.mul_one _).symm⟩
  | cons b factors ih =>
    rw [List.map_cons, List.prod_cons, ← Nat.mul_assoc] at h ⊢
    have hrest : 0 < (factors.map UInt64.toNat).prod := by
      refine List.prod_pos_iff_forall_pos_nat.mpr (List.forall_mem_map.mpr fun c hc => ?_)
      exact hpos c (List.mem_cons_of_mem b hc)
    have hstep : a.toNat * b.toNat < 2 ^ 64 :=
      Nat.lt_of_le_of_lt (Nat.le_mul_of_pos_right _ hrest) h
    obtain ⟨hmul, hvalue⟩ := mul_of_fits checks hstep
    rw [← hvalue] at h ⊢
    rw [List.foldlM_cons, hmul]
    exact ih (fun c hc => hpos c (List.mem_cons_of_mem b hc)) h

theorem sub8_of_le {a b : UInt8} (h : b ≤ a) : sub8 checks a b = .ok (a - b) :=
  overflowing_of_fits (decide_eq_true h) _

theorem shl_of_lt {w : Nat} {x : BitVec w} {n : UInt8} (h : n.toNat < w) :
    shl checks x n = .ok (x <<< n.toNat) := by
  rw [shl, overflowing_of_fits (decide_eq_true h), Nat.mod_eq_of_lt h]

end Checked
