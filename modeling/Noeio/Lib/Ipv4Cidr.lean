import Mathlib.Algebra.Group.Nat.Defs
import Mathlib.Tactic.Common

/-!
# IPv4 addresses and CIDR blocks

An address is its 32 bits and a block `a.b.c.d/n` is an address with a prefix length of
at most 32. The address of a block may have host bits set; `network` clears them.

Everything about blocks is decided by one fact: a block contains an address exactly when
the two agree on the bits above its host part (`containsAddr_iff`). Nested prefixes then
reduce to divisions by powers of two (`high_eq_of_le`).
-/

abbrev Ipv4Addr := BitVec 32

namespace Ipv4Addr

def ofOctets (a b c d : UInt8) : Ipv4Addr :=
  BitVec.ofNat 32 (((a.toNat * 256 + b.toNat) * 256 + c.toNat) * 256 + d.toNat)

def localhost : Ipv4Addr := ofOctets 127 0 0 1

/-- `127.0.0.0/8`. -/
def isLoopback (a : Ipv4Addr) : Bool := a.toNat / 2 ^ 24 == 127

/-- `169.254.0.0/16`. -/
def isLinkLocal (a : Ipv4Addr) : Bool := a.toNat / 2 ^ 16 == 169 * 256 + 254

end Ipv4Addr

structure Ipv4Cidr where
  address : Ipv4Addr
  prefixLen : Nat
  prefixLen_le : prefixLen ≤ 32
  deriving DecidableEq

namespace Ipv4Cidr

def netmask (c : Ipv4Cidr) : BitVec 32 :=
  if c.prefixLen = 0 then 0 else BitVec.allOnes 32 <<< (32 - c.prefixLen)

/-- The block with its host bits cleared. -/
def network (c : Ipv4Cidr) : Ipv4Cidr := { c with address := c.address &&& c.netmask }

def containsAddr (c : Ipv4Cidr) (a : Ipv4Addr) : Bool :=
  c.netmask &&& c.address == c.netmask &&& a

def containsSubnet (c d : Ipv4Cidr) : Bool :=
  c.prefixLen ≤ d.prefixLen && c.containsAddr d.address

/-- The block `a.b.c.d/prefixLen`, where a prefix length above 32 counts as 32. -/
def ofOctets (a b c d : UInt8) (prefixLen : Nat) : Ipv4Cidr :=
  ⟨.ofOctets a b c d, min prefixLen 32, Nat.min_le_right prefixLen 32⟩

/-- The block of one address. -/
def host (a : Ipv4Addr) : Ipv4Cidr := ⟨a, 32, Nat.le_refl 32⟩

/-! ## Containment is agreement above the host part -/

theorem netmask_getLsbD (c : Ipv4Cidr) (i : Nat) :
    c.netmask.getLsbD i = (decide (i < 32) && decide (32 - c.prefixLen ≤ i)) := by
  unfold netmask
  split
  · rename_i h
    by_cases hi : i < 32 <;> simp [h, hi]
  · rw [BitVec.getLsbD_shiftLeft, BitVec.getLsbD_allOnes]
    have hlt : i < 32 → i - (32 - c.prefixLen) < 32 := by omega
    by_cases hi : i < 32
    · by_cases hp : i < 32 - c.prefixLen
      · simp [hi, hp, Nat.not_le.mpr hp]
      · simp [hi, hp, hlt hi, Nat.not_lt.mp hp]
    · simp [hi]

theorem containsAddr_iff {c : Ipv4Cidr} {a : Ipv4Addr} :
    c.containsAddr a = true ↔
      c.address.toNat / 2 ^ (32 - c.prefixLen) = a.toNat / 2 ^ (32 - c.prefixLen) := by
  rw [containsAddr, beq_iff_eq, ← Nat.shiftRight_eq_div_pow, ← Nat.shiftRight_eq_div_pow]
  constructor
  · intro h
    apply Nat.eq_of_testBit_eq
    intro i
    have hbit := congrArg (fun x => x.getLsbD (32 - c.prefixLen + i)) h
    simp only [BitVec.getLsbD_and, netmask_getLsbD] at hbit
    rw [Nat.testBit_shiftRight, Nat.testBit_shiftRight, ← BitVec.getLsbD, ← BitVec.getLsbD]
    by_cases hi : 32 - c.prefixLen + i < 32
    · simpa [hi] using hbit
    · rw [BitVec.getLsbD_of_ge _ _ (by omega), BitVec.getLsbD_of_ge _ _ (by omega)]
  · intro h
    apply BitVec.eq_of_getLsbD_eq
    intro i hi
    simp only [BitVec.getLsbD_and, netmask_getLsbD]
    by_cases hp : 32 - c.prefixLen ≤ i
    · have hbit := congrArg (fun x => x.testBit (i - (32 - c.prefixLen))) h
      simp only [Nat.testBit_shiftRight, Nat.add_sub_cancel' hp] at hbit
      simp only [hi, hp, decide_true, Bool.true_and, BitVec.getLsbD]
      exact hbit
    · simp [hp]

/-- Agreement above bit `j` gives agreement above every higher bit. -/
theorem high_eq_of_le {x y j k : Nat} (hjk : j ≤ k) (h : x / 2 ^ j = y / 2 ^ j) :
    x / 2 ^ k = y / 2 ^ k := by
  obtain ⟨i, rfl⟩ := Nat.exists_eq_add_of_le hjk
  rw [Nat.pow_add, ← Nat.div_div_eq_div_mul, ← Nat.div_div_eq_div_mul, h]

@[simp] theorem network_netmask (c : Ipv4Cidr) : c.network.netmask = c.netmask := rfl

@[simp] theorem network_network (c : Ipv4Cidr) : c.network.network = c.network := by
  simp [network, netmask, BitVec.and_assoc]

@[simp] theorem containsAddr_network (c : Ipv4Cidr) (a : Ipv4Addr) :
    c.network.containsAddr a = c.containsAddr a := by
  have h : c.netmask &&& (c.address &&& c.netmask) = c.netmask &&& c.address := by
    rw [BitVec.and_comm c.address, ← BitVec.and_assoc, BitVec.and_self]
  unfold containsAddr
  rw [network_netmask]
  simp only [network, h]

theorem containsAddr_host {a b : Ipv4Addr} : (host a).containsAddr b = true ↔ a = b := by
  rw [containsAddr_iff]
  simp [host, BitVec.toNat_eq]

theorem containsAddr_self (c : Ipv4Cidr) : c.containsAddr c.address = true := by
  simp [containsAddr]

/-- The two blocks share an address. -/
def Meets (c d : Ipv4Cidr) : Prop := ∃ a, c.containsAddr a = true ∧ d.containsAddr a = true

theorem Meets.symm {c d : Ipv4Cidr} (h : c.Meets d) : d.Meets c := by
  obtain ⟨a, hc, hd⟩ := h
  exact ⟨a, hd, hc⟩

/-- Of two blocks that share an address, the wider one contains the other. -/
theorem containsSubnet_of_meets {c d : Ipv4Cidr} (h : c.Meets d)
    (hp : c.prefixLen ≤ d.prefixLen) : c.containsSubnet d = true := by
  obtain ⟨a, hc, hd⟩ := h
  have hwide : 32 - d.prefixLen ≤ 32 - c.prefixLen := by omega
  have hda := high_eq_of_le hwide (containsAddr_iff.mp hd)
  have hcd : c.containsAddr d.address = true :=
    containsAddr_iff.mpr ((containsAddr_iff.mp hc).trans hda.symm)
  simp [containsSubnet, hp, hcd]

theorem meets_of_containsSubnet {c d : Ipv4Cidr} (h : c.containsSubnet d = true) : c.Meets d := by
  simp only [containsSubnet, Bool.and_eq_true] at h
  exact ⟨d.address, h.2, containsAddr_self d⟩

/-- Two blocks of one prefix length that share an address have the same network form. -/
theorem network_eq_of_meets {c d : Ipv4Cidr} (h : c.Meets d) (hp : c.prefixLen = d.prefixLen) :
    c.network = d.network := by
  obtain ⟨a, hc, hd⟩ := h
  obtain ⟨x, n, hn⟩ := c
  obtain ⟨y, m, hm⟩ := d
  simp only at hp
  subst hp
  simp only [containsAddr, beq_iff_eq] at hc hd
  have hsame : x &&& netmask ⟨x, n, hn⟩ = y &&& netmask ⟨y, n, hm⟩ := by
    rw [BitVec.and_comm x, BitVec.and_comm y]
    exact hc.trans hd.symm
  simp [network, hsame]

/-- A block of prefix at least 8 that contains a loopback address is a loopback block. -/
theorem isLoopback_of_containsAddr {c : Ipv4Cidr} {a : Ipv4Addr} (hp : 8 ≤ c.prefixLen)
    (hc : c.containsAddr a = true) (ha : a.isLoopback = true) : c.address.isLoopback = true := by
  have h := high_eq_of_le (show 32 - c.prefixLen ≤ 24 by omega) (containsAddr_iff.mp hc)
  simp only [Ipv4Addr.isLoopback, beq_iff_eq] at ha ⊢
  exact h.trans ha

/-- A block that contains a link-local address is a link-local block, or short enough to
contain the whole link-local range and so its first address. -/
theorem linkLocal_of_containsAddr {c : Ipv4Cidr} {a : Ipv4Addr} (hc : c.containsAddr a = true)
    (ha : a.isLinkLocal = true) :
    c.address.isLinkLocal = true ∨ c.containsAddr (Ipv4Addr.ofOctets 169 254 0 0) = true := by
  rw [containsAddr_iff] at hc
  simp only [Ipv4Addr.isLinkLocal, beq_iff_eq] at ha ⊢
  by_cases hp : 16 ≤ c.prefixLen
  · exact Or.inl ((high_eq_of_le (by omega) hc).trans ha)
  · right
    rw [containsAddr_iff, hc]
    apply high_eq_of_le (show 16 ≤ 32 - c.prefixLen by omega)
    rw [ha]
    rfl

end Ipv4Cidr
