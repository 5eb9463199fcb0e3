import Mathlib.Algebra.Group.Nat.Defs
import Mathlib.Tactic.Common

/-!
# Big-endian bytes of fixed-width integers

`toBe16`, `toBe32` and `toBe64` write an integer most significant byte first, `ofBe16`, `ofBe32`
and `ofBe64` read the bytes back. `toBytes` and `ofBytes` do so with any number of bytes.
-/

namespace BigEndian

def toBe16 (x : UInt16) : List UInt8 := [UInt8.ofNat (x.toNat / 2 ^ 8), UInt8.ofNat x.toNat]

def ofBe16 (a b : UInt8) : UInt16 := UInt16.ofNat (a.toNat * 2 ^ 8 + b.toNat)

def toBe32 (x : UInt32) : List UInt8 :=
  [UInt8.ofNat (x.toNat / 2 ^ 24), UInt8.ofNat (x.toNat / 2 ^ 16),
    UInt8.ofNat (x.toNat / 2 ^ 8), UInt8.ofNat x.toNat]

def ofBe32 (a b c d : UInt8) : UInt32 :=
  UInt32.ofNat (((a.toNat * 2 ^ 8 + b.toNat) * 2 ^ 8 + c.toNat) * 2 ^ 8 + d.toNat)

def toBe64 (x : UInt64) : List UInt8 :=
  [UInt8.ofNat (x.toNat / 2 ^ 56), UInt8.ofNat (x.toNat / 2 ^ 48),
    UInt8.ofNat (x.toNat / 2 ^ 40), UInt8.ofNat (x.toNat / 2 ^ 32),
    UInt8.ofNat (x.toNat / 2 ^ 24), UInt8.ofNat (x.toNat / 2 ^ 16),
    UInt8.ofNat (x.toNat / 2 ^ 8), UInt8.ofNat x.toNat]

def ofBe64 (a b c d e f g h : UInt8) : UInt64 :=
  UInt64.ofNat (((((((a.toNat * 2 ^ 8 + b.toNat) * 2 ^ 8 + c.toNat) * 2 ^ 8 + d.toNat) * 2 ^ 8 +
    e.toNat) * 2 ^ 8 + f.toNat) * 2 ^ 8 + g.toNat) * 2 ^ 8 + h.toNat)

/-- The higher bytes and the next one. -/
theorem div_mul_add_byte (n k : Nat) :
    n / 2 ^ (k + 8) * 2 ^ 8 + n / 2 ^ k % 2 ^ 8 = n / 2 ^ k := by
  rw [Nat.pow_add, ← Nat.div_div_eq_div_mul]
  omega

theorem ofBe16_toBe16 (x : UInt16) :
    ofBe16 (UInt8.ofNat (x.toNat / 2 ^ 8)) (UInt8.ofNat x.toNat) = x := by
  apply UInt16.toNat_inj.mp
  have hx := x.toNat_lt
  simp only [ofBe16, UInt8.toNat_ofNat', UInt16.toNat_ofNat']
  omega

theorem ofBe32_toBe32 (x : UInt32) :
    ofBe32 (UInt8.ofNat (x.toNat / 2 ^ 24)) (UInt8.ofNat (x.toNat / 2 ^ 16))
      (UInt8.ofNat (x.toNat / 2 ^ 8)) (UInt8.ofNat x.toNat) = x := by
  apply UInt32.toNat_inj.mp
  have hx := x.toNat_lt
  have htop : x.toNat / 2 ^ 24 % 2 ^ 8 = x.toNat / 2 ^ 24 := by omega
  have hlast := div_mul_add_byte x.toNat 0
  rw [Nat.pow_zero, Nat.div_one] at hlast
  simp only [ofBe32, UInt8.toNat_ofNat', UInt32.toNat_ofNat']
  rw [htop, div_mul_add_byte x.toNat 16, div_mul_add_byte x.toNat 8, hlast, Nat.mod_eq_of_lt hx]

theorem ofBe64_toBe64 (x : UInt64) :
    ofBe64 (UInt8.ofNat (x.toNat / 2 ^ 56)) (UInt8.ofNat (x.toNat / 2 ^ 48))
      (UInt8.ofNat (x.toNat / 2 ^ 40)) (UInt8.ofNat (x.toNat / 2 ^ 32))
      (UInt8.ofNat (x.toNat / 2 ^ 24)) (UInt8.ofNat (x.toNat / 2 ^ 16))
      (UInt8.ofNat (x.toNat / 2 ^ 8)) (UInt8.ofNat x.toNat) = x := by
  apply UInt64.toNat_inj.mp
  have hx := x.toNat_lt
  have htop : x.toNat / 2 ^ 56 % 2 ^ 8 = x.toNat / 2 ^ 56 := by omega
  have hlast := div_mul_add_byte x.toNat 0
  rw [Nat.pow_zero, Nat.div_one] at hlast
  simp only [ofBe64, UInt8.toNat_ofNat', UInt64.toNat_ofNat']
  rw [htop, div_mul_add_byte x.toNat 48, div_mul_add_byte x.toNat 40, div_mul_add_byte x.toNat 32,
    div_mul_add_byte x.toNat 24, div_mul_add_byte x.toNat 16, div_mul_add_byte x.toNat 8, hlast,
    Nat.mod_eq_of_lt hx]

theorem toBe16_ofBe16 (a b : UInt8) : toBe16 (ofBe16 a b) = [a, b] := by
  have ha := a.toNat_lt
  have hb := b.toNat_lt
  simp only [toBe16, ofBe16, UInt16.toNat_ofNat', List.cons.injEq, and_true]
  refine ⟨?_, ?_⟩ <;>
    · apply UInt8.toNat_inj.mp
      simp only [UInt8.toNat_ofNat']
      omega

theorem toBe32_ofBe32 (a b c d : UInt8) : toBe32 (ofBe32 a b c d) = [a, b, c, d] := by
  have ha := a.toNat_lt
  have hb := b.toNat_lt
  have hc := c.toNat_lt
  have hd := d.toNat_lt
  simp only [toBe32, ofBe32, UInt32.toNat_ofNat', List.cons.injEq, and_true]
  refine ⟨?_, ?_, ?_, ?_⟩ <;>
    · apply UInt8.toNat_inj.mp
      simp only [UInt8.toNat_ofNat']
      omega

/-! ## Any number of bytes -/

/-- The lowest `k` bytes. -/
def toBytes : Nat → Nat → List UInt8
  | 0, _ => []
  | k + 1, n => toBytes k (n / 2 ^ 8) ++ [UInt8.ofNat n]

def ofBytes (bytes : List UInt8) : Nat := bytes.foldl (fun n b => n * 2 ^ 8 + b.toNat) 0

@[simp] theorem length_toBytes (k n : Nat) : (toBytes k n).length = k := by
  induction k generalizing n with
  | zero => rfl
  | succ k ih => rw [toBytes, List.length_append, ih, List.length_singleton]

theorem ofBytes_toBytes {k n : Nat} (h : n < 2 ^ (8 * k)) : ofBytes (toBytes k n) = n := by
  induction k generalizing n with
  | zero =>
    obtain rfl : n = 0 := by simpa using h
    rfl
  | succ k ih =>
    have hhigh : n / 2 ^ 8 < 2 ^ (8 * k) := by
      rw [Nat.div_lt_iff_lt_mul (by decide), ← Nat.pow_add]
      exact h
    have hfold : ofBytes (toBytes (k + 1) n) =
        ofBytes (toBytes k (n / 2 ^ 8)) * 2 ^ 8 + (UInt8.ofNat n).toNat := by
      simp only [ofBytes, toBytes, List.foldl_append, List.foldl_cons, List.foldl_nil]
    rw [hfold, ih hhigh, UInt8.toNat_ofNat']
    omega

end BigEndian
