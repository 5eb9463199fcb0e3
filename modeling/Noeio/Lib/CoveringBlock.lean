import Mathlib.Data.List.Pairwise
import Mathlib.Data.Nat.Bitwise
import Noeio.Lib.Ipv4Cidr

/-!
# The smallest block that covers a list of addresses

Words of `w` bits agree in some number of leading bits (`commonPrefix`), which is the largest `n`
with equal quotients by `2 ^ (w - n)` (`high_eq_iff`). Words between two others agree with them
wherever the two agree (`high_eq_of_between`). So of a sorted list only the ends matter: the
block of the first address with the common prefix of both ends is the smallest one that contains
all of them (`smallestCover_of_ends`).
-/

/-! ## Common prefixes -/

namespace BitVec

variable {w : Nat}

/-- In how many leading bits two words agree. -/
def commonPrefix (x y : BitVec w) : Nat := (x ^^^ y).clz.toNat

theorem commonPrefix_le (x y : BitVec w) : commonPrefix x y ≤ w := by
  have hle := BitVec.le_def.mp (BitVec.clz_le (x := x ^^^ y))
  rwa [BitVec.natCast_eq_ofNat, BitVec.toNat_ofNat, Nat.mod_eq_of_lt Nat.lt_two_pow_self] at hle

theorem lt_two_pow_iff {x : BitVec w} {n : Nat} (hn : n ≤ w) :
    x.toNat < 2 ^ (w - n) ↔ n ≤ x.clz.toNat := by
  constructor
  · intro hx
    by_cases hzero : x = 0
    · rw [BitVec.clz_eq_iff_eq_zero.mpr hzero, BitVec.natCast_eq_ofNat, BitVec.toNat_ofNat,
        Nat.mod_eq_of_lt Nat.lt_two_pow_self]
      exact hn
    · by_cases hw : 0 < w
      · have hlow := BitVec.two_pow_sub_clz_le_toNat_of_ne_zero hw hzero
        have hexp := (Nat.pow_lt_pow_iff_right (by omega)).mp (Nat.lt_of_le_of_lt hlow hx)
        omega
      · omega
  · intro hle
    have hhigh := BitVec.toNat_lt_two_pow_sub_clz (x := x)
    exact Nat.lt_of_lt_of_le hhigh (Nat.pow_le_pow_right (by omega) (by omega))

/-- The quotients are equal exactly up to the common prefix. -/
theorem high_eq_iff {x y : BitVec w} {n : Nat} (hn : n ≤ w) :
    x.toNat / 2 ^ (w - n) = y.toNat / 2 ^ (w - n) ↔ n ≤ commonPrefix x y := by
  have hxor : x.toNat / 2 ^ (w - n) = y.toNat / 2 ^ (w - n) ↔
      (x ^^^ y).toNat / 2 ^ (w - n) = 0 := by
    rw [BitVec.toNat_xor, Nat.xor_div_two_pow, Nat.xor_eq_zero_iff]
  rw [hxor, Nat.div_eq_zero_iff_lt (Nat.two_pow_pos _), lt_two_pow_iff hn, commonPrefix]

end BitVec

/-! ## Between the ends -/

namespace CoveringBlock

theorem high_eq_of_between {x y z k : Nat} (hxz : x ≤ z) (hzy : z ≤ y)
    (h : x / 2 ^ k = y / 2 ^ k) : x / 2 ^ k = z / 2 ^ k := by
  have hlow := Nat.div_le_div_right (c := 2 ^ k) hxz
  have hhigh := Nat.div_le_div_right (c := 2 ^ k) hzy
  omega

theorem between_of_sorted {α : Type*} {R : α → α → Prop} [Std.Refl R] {xs : List α}
    (h : xs.Pairwise R) {first last x : α} (hfirst : xs.head? = some first)
    (hlast : xs.getLast? = some last) (hx : x ∈ xs) : R first x ∧ R x last := by
  have hne := List.ne_nil_of_mem hx
  rw [List.head?_eq_some_head hne, Option.some.injEq] at hfirst
  rw [List.getLast?_eq_some_getLast hne, Option.some.injEq] at hlast
  subst hfirst hlast
  exact ⟨h.rel_head hx, h.rel_getLast hx⟩

end CoveringBlock

/-! ## Covering blocks -/

namespace Ipv4Cidr

/-- The block is in network form, contains the addresses, and no block with a longer prefix
contains them. -/
structure SmallestCover (c : Ipv4Cidr) (addrs : List Ipv4Addr) : Prop where
  network : c.network = c
  contains : ∀ a ∈ addrs, c.containsAddr a = true
  longest : ∀ d : Ipv4Cidr, (∀ a ∈ addrs, d.containsAddr a = true) → d.prefixLen ≤ c.prefixLen

open CoveringBlock

theorem smallestCover_of_ends {addrs : List Ipv4Addr} (hsorted : addrs.Pairwise (· ≤ ·))
    {first last : Ipv4Addr} (hfirst : addrs.head? = some first)
    (hlast : addrs.getLast? = some last) :
    SmallestCover (network ⟨first, BitVec.commonPrefix first last,
      BitVec.commonPrefix_le first last⟩) addrs := by
  have hle := BitVec.commonPrefix_le first last
  have hends := (BitVec.high_eq_iff hle).mpr (Nat.le_refl (BitVec.commonPrefix first last))
  refine ⟨network_network _, fun a ha => ?_, fun d hd => ?_⟩
  · have : Std.Refl fun a b : Ipv4Addr => a ≤ b := ⟨BitVec.le_refl⟩
    obtain ⟨hlow, hhigh⟩ := between_of_sorted hsorted hfirst hlast ha
    rw [containsAddr_network, containsAddr_iff]
    exact high_eq_of_between hlow hhigh hends
  · -- a block that contains both ends has no more bits than they agree in
    have hdfirst := containsAddr_iff.mp (hd first (List.mem_of_head? hfirst))
    have hdlast := containsAddr_iff.mp (hd last (List.mem_of_getLast? hlast))
    exact (BitVec.high_eq_iff d.prefixLen_le).mp (hdfirst.symm.trans hdlast)

end Ipv4Cidr
