import Mathlib.Logic.Function.Basic
import Noeio.Lib.BigEndian

/-!
# nf_tables

Tables of nf_tables and what their rules do to an IPv4 packet. A rule is a list of expressions
over a file of registers: an expression loads bytes, masks them, compares them or acts. A
comparison that fails and a load past the end of the packet end the rule (`NFT_BREAK`); a
verdict ends the chain. The registers are not cleared between rules.

Two notions carry the proofs about rules. `Loads` says of a list of expressions which bytes it
leaves in a register, and `Tests` which packets it lets pass. Both compose: a masked load is a
load (`Loads.bitwise`), a load that is compared is a test (`Loads.cmp`), and two tests in a row are
their conjunction (`Tests.append`).
-/

namespace NfTables

open BigEndian

/-! ## Packets -/

/-- The byte order of the host. -/
inductive Endian where
  | little
  | big

/-- The bytes of an integer in memory, from its big-endian bytes. -/
def Endian.native : Endian → List UInt8 → List UInt8
  | .little, bytes => bytes.reverse
  | .big, bytes => bytes

/-- The name of an interface. -/
abbrev IfName := { name : List UInt8 // name.length ≤ 15 ∧ 0 ∉ name }

/-- A name in the `IFNAMSIZ` bytes of a buffer, the rest of which is zero. -/
def padName (name : List UInt8) : List UInt8 := name ++ List.replicate (16 - name.length) 0

structure Packet where
  /-- The packet from its network header on. -/
  network : List UInt8
  /-- The packet from its transport header on, if it has one. -/
  transport : List UInt8
  iifname : IfName
  oifname : IfName
  l4proto : UInt8
  ctState : UInt32
  /-- The segment size that the route of the packet allows. -/
  tcpMss : UInt16
  length_network : 20 ≤ network.length

namespace Packet

def saddr (p : Packet) : BitVec 32 :=
  (ofBe32 (p.network.getD 12 0) (p.network.getD 13 0) (p.network.getD 14 0)
    (p.network.getD 15 0)).toBitVec

/-- The byte with the flags of the TCP header. -/
def tcpFlags (p : Packet) : Option UInt8 := if p.l4proto = 6 then p.transport[13]? else none

/-- `NF_CT_STATE_BIT(IP_CT_ESTABLISHED)` -/
def established (p : Packet) : Bool := p.ctState &&& 2 != 0

/-- `NF_CT_STATE_BIT(IP_CT_RELATED)` -/
def related (p : Packet) : Bool := p.ctState &&& 4 != 0

end Packet

/-! ## Expressions -/

inductive MetaKey where
  | l4proto
  | iifname
  | oifname

inductive PayloadBase where
  | network
  | transport

inductive CmpOp where
  | eq
  | neq

def CmpOp.holds : CmpOp → List UInt8 → List UInt8 → Bool
  | .eq, a, b => a == b
  | .neq, a, b => a != b

abbrev Verdict := UInt32

/-- `NF_ACCEPT` -/
def accept : Verdict := 1

/-- An expression as the kernel has parsed it. -/
inductive Expr where
  | metadata (key : MetaKey) (dreg : Nat)
  | payload (base : PayloadBase) (offset len dreg : Nat)
  | bitwise (sreg dreg len : Nat) (mask xor : List UInt8)
  | cmp (op : CmpOp) (sreg : Nat) (data : List UInt8)
  | immediate (verdict : Verdict)
  | ctState (dreg : Nat)
  | rtTcpMss (dreg : Nat)
  /-- `ntoh` and `hton` are one operation. -/
  | byteorder (sreg dreg len size : Nat)
  /-- Writes into an option of the TCP header. -/
  | exthdr (sreg : Nat) (kind : UInt8) (offset len : Nat)
  | masq (flags : UInt32)

/-! ### Attributes -/

abbrev Attributes := List (UInt16 × List UInt8)

/-- The value of an attribute; a later one overrides an earlier one. -/
def Attributes.get (attrs : Attributes) (kind : UInt16) : Option (List UInt8) :=
  (attrs.reverse.find? (·.1 = kind)).map (·.2)

def Attributes.getU32 (attrs : Attributes) (kind : UInt16) : Option Nat :=
  match attrs.get kind with
  | some [a, b, c, d] => some (ofBe32 a b c d).toNat
  | _ => none

def Attributes.getU8 (attrs : Attributes) (kind : UInt16) : Option UInt8 :=
  match attrs.get kind with
  | some [a] => some a
  | _ => none

/-- The registers that hold data: four of 16 bytes, and sixteen of 4 bytes in the same place. -/
def IsDataRegister (r : Nat) : Prop := 1 ≤ r ∧ r ≤ 4 ∨ 8 ≤ r ∧ r ≤ 23

instance (r : Nat) : Decidable (IsDataRegister r) :=
  inferInstanceAs (Decidable (1 ≤ r ∧ r ≤ 4 ∨ 8 ≤ r ∧ r ≤ 23))

def Attributes.getRegister (attrs : Attributes) (kind : UInt16) : Option Nat :=
  (attrs.getU32 kind).filter fun r => IsDataRegister r

/-- The expression with the name and the attributes, numbered as in `nf_tables.h`. What the
kernel would refuse, or accepts in a form that is not modelled, is `none`. -/
def parse (name : String) (attrs : Attributes) : Option Expr :=
  match name with
  | "ct" => do
    let dreg ← attrs.getRegister 1
    guard (attrs.getU32 2 = some 0 ∧ attrs.get 3 = none ∧ attrs.get 4 = none)
    return .ctState dreg
  | "rt" => do
    let dreg ← attrs.getRegister 1
    guard (attrs.getU32 2 = some 3)
    return .rtTcpMss dreg
  | "byteorder" => do
    let sreg ← attrs.getRegister 1
    let dreg ← attrs.getRegister 2
    let op ← attrs.getU32 3
    let len ← attrs.getU32 4
    let size ← attrs.getU32 5
    guard (op ≤ 1 ∧ 0 < len ∧ len ≤ 16 ∧ (size = 2 ∨ size = 4 ∨ size = 8))
    return .byteorder sreg dreg len size
  | "exthdr" => do
    let sreg ← attrs.getRegister 7
    let kind ← attrs.getU8 2
    let offset ← attrs.getU32 3
    let len ← attrs.getU32 4
    guard (attrs.getU32 6 = some 1 ∧ attrs.get 1 = none ∧ attrs.get 5 = none ∧ 2 ≤ offset ∧
      (len = 2 ∨ len = 4))
    return .exthdr sreg kind offset len
  | "masq" => do
    guard (attrs.get 2 = none ∧ attrs.get 3 = none)
    match attrs.get 1 with
    | none => return .masq 0
    | some _ =>
      let flags ← attrs.getU32 1
      return .masq (UInt32.ofNat flags)
  | _ => none

/-! ## Execution -/

/-- The bytes of the registers. -/
abbrev Registers := Nat → UInt8

namespace Registers

/-- Where a register begins. -/
def offset (r : Nat) : Nat := if r ≤ 4 then 16 * r else 4 * (r - 4)

def load (regs : Registers) (sreg len : Nat) : List UInt8 :=
  (List.range len).map fun i => regs (offset sreg + i)

def write (regs : Registers) (dreg : Nat) (bytes : List UInt8) : Registers := fun i =>
  if offset dreg ≤ i then bytes.getD (i - offset dreg) (regs i) else regs i

/-- A register is written in words, and the rest of the last word is zero. -/
def store (regs : Registers) (dreg : Nat) (bytes : List UInt8) : Registers :=
  regs.write dreg (bytes ++ List.replicate ((4 - bytes.length % 4) % 4) 0)

theorem load_write (regs : Registers) (r : Nat) (bytes : List UInt8) {len : Nat}
    (h : len ≤ bytes.length) : (regs.write r bytes).load r len = bytes.take len := by
  apply List.ext_getElem
  · simp [load, h]
  · intro i hi _
    have hlen : i < len := by simpa [load] using hi
    have hbytes : i < bytes.length := Nat.lt_of_lt_of_le hlen h
    simp [load, write, hbytes]

theorem load_store (regs : Registers) (r : Nat) (bytes : List UInt8) :
    (regs.store r bytes).load r bytes.length = bytes := by
  rw [store, load_write _ _ _ (by simp), List.take_left' rfl]

end Registers

inductive Effect where
  | masquerade (flags : UInt32)
  /-- The bytes at `offset` of the TCP option `kind` are set, where the packet has the option. -/
  | setTcpOption (kind : UInt8) (offset : Nat) (value : List UInt8)
  deriving DecidableEq

/-- What an expression does to the run of its rule. -/
inductive Step where
  | next (regs : Registers)
  | act (effect : Effect)
  /-- `NFT_BREAK` -/
  | mismatch
  | stop (effects : List Effect) (verdict : Verdict)

def applyMask (bytes mask xor : List UInt8) : List UInt8 :=
  List.zipWith (· ^^^ ·) (List.zipWith (· &&& ·) bytes mask) xor

/-- Every `size` bytes of a register in the other order, on a host where that is not the
order of the network. -/
def swap (e : Endian) (regs : Registers) (sreg len size : Nat) : List UInt8 :=
  match e with
  | .big => regs.load sreg len
  | .little =>
    (List.range len).map fun i =>
      regs (Registers.offset sreg + (i / size * size + (size - 1 - i % size)))

section
variable (e : Endian) (p : Packet)

def Packet.metadata : MetaKey → List UInt8
  | .l4proto => [p.l4proto]
  | .iifname => padName p.iifname
  | .oifname => padName p.oifname

def Packet.header : PayloadBase → List UInt8
  | .network => p.network
  | .transport => p.transport

/-- The bytes of a header, if the packet is long enough. -/
def Packet.read (base : PayloadBase) (offset len : Nat) : Option (List UInt8) :=
  if offset + len ≤ (p.header base).length then some (((p.header base).drop offset).take len)
  else none

def exec (regs : Registers) : Expr → Step
  | .metadata key dreg => .next (regs.store dreg (p.metadata key))
  | .payload base offset len dreg =>
    match p.read base offset len with
    | some bytes => .next (regs.store dreg bytes)
    | none => .mismatch
  | .bitwise sreg dreg len mask xor =>
    .next (regs.store dreg (applyMask (regs.load sreg len) mask xor))
  | .cmp op sreg data =>
    if op.holds (regs.load sreg data.length) data then .next regs else .mismatch
  | .immediate verdict => .stop [] verdict
  | .ctState dreg => .next (regs.store dreg (e.native (toBe32 p.ctState)))
  | .rtTcpMss dreg => .next (regs.store dreg (e.native (toBe16 p.tcpMss)))
  | .byteorder sreg dreg len size => .next (regs.write dreg (swap e regs sreg len size))
  | .exthdr sreg kind offset len => .act (.setTcpOption kind offset (regs.load sreg len))
  | .masq flags => .stop [.masquerade flags] accept

structure Outcome where
  regs : Registers
  effects : List Effect
  verdict : Option Verdict

def runRule : List Expr → Registers → Outcome
  | [], regs => ⟨regs, [], none⟩
  | expr :: rest, regs =>
    match exec e p regs expr with
    | .next regs => runRule rest regs
    | .act effect =>
      let out := runRule rest regs
      { out with effects := effect :: out.effects }
    | .mismatch => ⟨regs, [], none⟩
    | .stop effects verdict => ⟨regs, effects, some verdict⟩

/-- The rules of a chain, up to the first verdict. -/
def runRules : List (List Expr) → Registers → Outcome
  | [], regs => ⟨regs, [], none⟩
  | rule :: rest, regs =>
    let out := runRule e p rule regs
    match out.verdict with
    | some _ => out
    | none =>
      let later := runRules rest out.regs
      { later with effects := out.effects ++ later.effects }

/-! ## Loads and tests -/

/-- The expressions leave these bytes in the register, or the rule ends with them. -/
def Loads (exprs : List Expr) (r : Nat) : Option (List UInt8) → Prop
  | some bytes => ∀ regs, ∃ regs', Registers.load regs' r bytes.length = bytes ∧
      ∀ rest, runRule e p (exprs ++ rest) regs = runRule e p rest regs'
  | none => ∀ regs, ∃ regs', ∀ rest, runRule e p (exprs ++ rest) regs = ⟨regs', [], none⟩

/-- The expressions let the packet pass exactly if `P`, and do nothing else. -/
structure Tests (exprs : List Expr) (P : Prop) : Prop where
  pass : P → ∀ regs, ∃ regs', ∀ rest,
    runRule e p (exprs ++ rest) regs = runRule e p rest regs'
  stop : ¬ P → ∀ regs, ∃ regs', ∀ rest, runRule e p (exprs ++ rest) regs = ⟨regs', [], none⟩

end

section
variable {e : Endian} {p : Packet} {exprs more : List Expr} {P Q : Prop}

theorem Tests.append (h : Tests e p exprs P) (hmore : Tests e p more Q) :
    Tests e p (exprs ++ more) (P ∧ Q) := by
  constructor
  · rintro ⟨hP, hQ⟩ regs
    obtain ⟨mid, hmid⟩ := h.pass hP regs
    obtain ⟨last, hlast⟩ := hmore.pass hQ mid
    refine ⟨last, fun rest => ?_⟩
    rw [List.append_assoc, hmid, hlast]
  · intro hnot regs
    by_cases hP : P
    · obtain ⟨mid, hmid⟩ := h.pass hP regs
      obtain ⟨last, hlast⟩ := hmore.stop (fun hQ => hnot ⟨hP, hQ⟩) mid
      refine ⟨last, fun rest => ?_⟩
      rw [List.append_assoc, hmid, hlast]
    · obtain ⟨last, hlast⟩ := h.stop hP regs
      refine ⟨last, fun rest => ?_⟩
      rw [List.append_assoc, hlast]

theorem Tests.congr (h : Tests e p exprs P) (hiff : P ↔ Q) : Tests e p exprs Q :=
  ⟨fun hQ => h.pass (hiff.mpr hQ), fun hQ => h.stop (mt hiff.mp hQ)⟩

theorem loads_metadata (key : MetaKey) (r : Nat) :
    Loads e p [.metadata key r] r (some (p.metadata key)) := by
  intro regs
  exact ⟨_, Registers.load_store regs r _, fun rest => rfl⟩

theorem loads_ctState (r : Nat) :
    Loads e p [.ctState r] r (some (e.native (toBe32 p.ctState))) := by
  intro regs
  exact ⟨_, Registers.load_store regs r _, fun rest => rfl⟩

theorem loads_payload (base : PayloadBase) (offset len r : Nat) :
    Loads e p [.payload base offset len r] r (p.read base offset len) := by
  cases hread : p.read base offset len with
  | some bytes =>
    intro regs
    refine ⟨regs.store r bytes, Registers.load_store regs r bytes, fun rest => ?_⟩
    simp only [List.cons_append, List.nil_append, runRule, exec, hread]
  | none =>
    intro regs
    refine ⟨regs, fun rest => ?_⟩
    simp only [List.cons_append, List.nil_append, runRule, exec, hread]

theorem Loads.bitwise {r len : Nat} {value : Option (List UInt8)} (h : Loads e p exprs r value)
    (r' : Nat) (mask xor : List UInt8) (hlen : ∀ bytes, value = some bytes → bytes.length = len) :
    Loads e p (exprs ++ [.bitwise r r' len mask xor]) r'
      (value.map fun bytes => applyMask bytes mask xor) := by
  cases value with
  | some bytes =>
    intro regs
    obtain ⟨mid, hload, hmid⟩ := h regs
    refine ⟨mid.store r' (applyMask bytes mask xor), Registers.load_store mid r' _, fun rest => ?_⟩
    rw [List.append_assoc, hmid, List.cons_append, List.nil_append, runRule, exec,
      ← hlen bytes rfl, hload]
  | none =>
    intro regs
    obtain ⟨mid, hmid⟩ := h regs
    refine ⟨mid, fun rest => ?_⟩
    rw [List.append_assoc, hmid]

theorem Loads.cmp {r : Nat} {value : Option (List UInt8)} (h : Loads e p exprs r value) (op : CmpOp)
    (data : List UInt8) (hlen : ∀ bytes, value = some bytes → bytes.length = data.length) :
    Tests e p (exprs ++ [.cmp op r data]) (∃ bytes, value = some bytes ∧ op.holds bytes data) := by
  cases value with
  | some bytes =>
    constructor
    · rintro ⟨_, ⟨⟩, hholds⟩ regs
      obtain ⟨mid, hload, hmid⟩ := h regs
      refine ⟨mid, fun rest => ?_⟩
      rw [List.append_assoc, hmid, List.cons_append, List.nil_append, runRule, exec,
        ← hlen bytes rfl, hload, if_pos hholds]
    · intro hnot regs
      obtain ⟨mid, hload, hmid⟩ := h regs
      have hfails : ¬ op.holds bytes data = true := fun hholds => hnot ⟨bytes, rfl, hholds⟩
      refine ⟨mid, fun rest => ?_⟩
      rw [List.append_assoc, hmid, List.cons_append, List.nil_append, runRule, exec,
        ← hlen bytes rfl, hload, if_neg hfails]
  | none =>
    constructor
    · rintro ⟨_, ⟨⟩, -⟩
    · intro _ regs
      obtain ⟨mid, hmid⟩ := h regs
      refine ⟨mid, fun rest => ?_⟩
      rw [List.append_assoc, hmid]

/-- A rule is its test followed by what it does. -/
theorem Tests.run (h : Tests e p exprs P) (rest : List Expr) (regs : Registers) :
    (P ∧ ∃ regs', runRule e p (exprs ++ rest) regs = runRule e p rest regs') ∨
      (¬ P ∧ ∃ regs', runRule e p (exprs ++ rest) regs = ⟨regs', [], none⟩) := by
  by_cases hP : P
  · obtain ⟨regs', hpass⟩ := h.pass hP regs
    exact Or.inl ⟨hP, regs', hpass rest⟩
  · obtain ⟨regs', hstop⟩ := h.stop hP regs
    exact Or.inr ⟨hP, regs', hstop rest⟩

theorem loads_rtTcpMss (r : Nat) :
    Loads e p [.rtTcpMss r] r (some (e.native (toBe16 p.tcpMss))) := by
  intro regs
  exact ⟨_, Registers.load_store regs r _, fun rest => rfl⟩

/-- Sixteen bits of the host, in the order of the network. -/
theorem Loads.byteorder {r r' : Nat} {x : UInt16}
    (h : Loads e p exprs r (some (e.native (toBe16 x)))) :
    Loads e p (exprs ++ [.byteorder r r' 2 2]) r' (some (toBe16 x)) := by
  intro regs
  obtain ⟨mid, hload, hmid⟩ := h regs
  have hlen : (e.native (toBe16 x)).length = 2 := by cases e <;> rfl
  rw [hlen] at hload
  have hswap : swap e mid r 2 2 = toBe16 x := by
    cases e with
    | big => exact hload
    | little =>
      change (mid.load r 2).reverse = toBe16 x
      rw [hload, Endian.native, List.reverse_reverse]
  refine ⟨mid.write r' (toBe16 x), Registers.load_write mid r' _ (Nat.le_refl _), fun rest => ?_⟩
  rw [List.append_assoc, hmid, List.cons_append, List.nil_append, runRule, exec, hswap]

/-! ## Rules and chains -/

/-- The rule acts on the packet exactly if `P`. -/
def Acts (e : Endian) (p : Packet) (rule : List Expr) (P : Prop) (effects : List Effect)
    (verdict : Option Verdict) : Prop :=
  ∀ regs, (P ∧ ∃ regs', runRule e p rule regs = ⟨regs', effects, verdict⟩) ∨
    (¬ P ∧ ∃ regs', runRule e p rule regs = ⟨regs', [], none⟩)

theorem Tests.immediate (h : Tests e p exprs P) (verdict : Verdict) :
    Acts e p (exprs ++ [.immediate verdict]) P [] (some verdict) := h.run [.immediate verdict]

theorem Tests.masq (h : Tests e p exprs P) (flags : UInt32) :
    Acts e p (exprs ++ [.masq flags]) P [.masquerade flags] (some accept) := h.run [.masq flags]

theorem Tests.exthdr (h : Tests e p exprs P) {kind : UInt8} {offset r : Nat} {bytes : List UInt8}
    (hmore : Loads e p more r (some bytes)) :
    Acts e p (exprs ++ (more ++ [.exthdr r kind offset bytes.length])) P
      [.setTcpOption kind offset bytes] none := by
  intro regs
  refine (h.run (more ++ [.exthdr r kind offset bytes.length]) regs).imp_left ?_
  rintro ⟨hP, mid, hmid⟩
  obtain ⟨last, hload, hlast⟩ := hmore mid
  refine ⟨hP, last, ?_⟩
  rw [hmid, hlast, runRule, exec, hload]
  rfl

section
variable {rule : List Expr} {rest : List (List Expr)} {effects : List Effect}

/-- Of rules with one verdict the chain takes it if one of them matches. -/
theorem Acts.verdict_cons {verdict : Verdict} (h : Acts e p rule P [] (some verdict))
    (hrest : ∀ regs, (runRules e p rest regs).verdict = some verdict ↔ Q) (regs : Registers) :
    (runRules e p (rule :: rest) regs).verdict = some verdict ↔ P ∨ Q := by
  rcases h regs with ⟨hP, regs', hrule⟩ | ⟨hP, regs', hrule⟩
  · rw [runRules, hrule]
    exact iff_of_true rfl (Or.inl hP)
  · rw [runRules, hrule]
    simpa [hP] using hrest regs'

/-- A rule without a verdict leaves the packet to the next one. -/
theorem Acts.effects_cons {a : Effect} (h : Acts e p rule P effects none)
    (hrest : ∀ regs, a ∈ (runRules e p rest regs).effects ↔ Q) (regs : Registers) :
    a ∈ (runRules e p (rule :: rest) regs).effects ↔ (P ∧ a ∈ effects) ∨ Q := by
  rcases h regs with ⟨hP, regs', hrule⟩ | ⟨hP, regs', hrule⟩
  · rw [runRules, hrule]
    simp [hP, hrest regs']
  · rw [runRules, hrule]
    simp [hP, hrest regs']

theorem Acts.effects_last {a : Effect} {verdict : Option Verdict}
    (h : Acts e p rule P effects verdict) (regs : Registers) :
    a ∈ (runRules e p [rule] regs).effects ↔ P ∧ a ∈ effects := by
  rcases h regs with ⟨hP, regs', hrule⟩ | ⟨hP, regs', hrule⟩
  · rw [runRules, hrule]
    cases verdict <;> simp [hP, runRules]
  · rw [runRules, hrule]
    simp [hP, runRules]

end

end

/-! ### Loaded values -/

theorem Packet.read_transport (p : Packet) (offset : Nat) :
    p.read .transport offset 1 = p.transport[offset]?.map fun byte => [byte] := by
  have hheader : p.header .transport = p.transport := rfl
  rw [read, hheader]
  by_cases hlen : offset + 1 ≤ p.transport.length
  · rw [if_pos hlen, List.getElem?_eq_getElem hlen, List.drop_eq_getElem_cons hlen]
    rfl
  · rw [if_neg hlen, List.getElem?_eq_none (Nat.le_of_not_lt hlen)]
    rfl

/-- The four bytes of the source address. -/
theorem Packet.read_saddr (p : Packet) :
    p.read .network 12 4 = some (toBe32 (UInt32.ofBitVec p.saddr)) := by
  have hlen := p.length_network
  have hheader : p.header .network = p.network := rfl
  have hbytes : (p.network.drop 12).take 4 =
      [p.network.getD 12 0, p.network.getD 13 0, p.network.getD 14 0, p.network.getD 15 0] := by
    have hget : ∀ i (hi : i < p.network.length), p.network[i] = p.network.getD i 0 := by
      intro i hi
      rw [List.getD_eq_getElem?_getD, List.getElem?_eq_getElem hi, Option.getD_some]
    rw [List.drop_eq_getElem_cons (by omega), List.drop_eq_getElem_cons (by omega),
      List.drop_eq_getElem_cons (by omega), List.drop_eq_getElem_cons (by omega),
      hget, hget, hget, hget]
    rfl
  rw [read, hheader, if_pos (by omega), hbytes, saddr]
  exact congrArg some (toBe32_ofBe32 ..).symm

theorem applyMask_toBe32 (x mask : UInt32) :
    applyMask (toBe32 x) (toBe32 mask) [0, 0, 0, 0] = toBe32 (x &&& mask) := by
  simp only [applyMask, toBe32, List.zipWith_cons_cons, List.zipWith_nil_left, UInt8.xor_zero,
    UInt32.toNat_and, Nat.and_div_two_pow, UInt8.ofNat_and]

theorem toBe32_inj {x y : UInt32} : toBe32 x = toBe32 y ↔ x = y := by
  refine ⟨fun h => ?_, congrArg toBe32⟩
  simp only [toBe32, List.cons.injEq, and_true] at h
  obtain ⟨h₃, h₂, h₁, h₀⟩ := h
  rw [← ofBe32_toBe32 x, ← ofBe32_toBe32 y, h₃, h₂, h₁, h₀]

theorem native_inj {e : Endian} {a b : List UInt8} : e.native a = e.native b ↔ a = b := by
  cases e with
  | big => exact Iff.rfl
  | little => exact List.reverse_inj

/-- What is masked in memory is the masked integer. -/
theorem applyMask_native (e : Endian) (x mask : UInt32) :
    applyMask (e.native (toBe32 x)) (e.native (toBe32 mask)) [0, 0, 0, 0] =
      e.native (toBe32 (x &&& mask)) := by
  cases e with
  | big => exact applyMask_toBe32 x mask
  | little =>
    rw [Endian.native, ← applyMask_toBe32]
    rfl

theorem length_padName {name : List UInt8} (h : name.length ≤ 15) : (padName name).length = 16 := by
  simp only [padName, List.length_append, List.length_replicate]
  omega

/-- Padding loses nothing of a name. -/
theorem padName_inj {a b : List UInt8} (ha : 0 ∉ a) (hb : 0 ∉ b) : padName a = padName b ↔ a = b := by
  have hread : ∀ name : List UInt8, 0 ∉ name → (padName name).takeWhile (· ≠ 0) = name := by
    intro name h
    have hall : ∀ byte ∈ name, decide (byte ≠ 0) = true := by
      intro byte hbyte
      simpa using fun hzero : byte = 0 => h (hzero ▸ hbyte)
    rw [padName, List.takeWhile_append_of_pos hall]
    simp
  refine ⟨fun h => ?_, congrArg padName⟩
  rw [← hread a ha, ← hread b hb, h]

/-! ## Tables -/

inductive Hook where
  | preRouting
  | localIn
  | forward
  | localOut
  | postRouting
  deriving DecidableEq

/-- A base chain. -/
structure Chain where
  name : String
  kind : String
  hook : Hook
  priority : Int32
  policy : Verdict
  rules : List (List Expr)

/-- The chains of every table. -/
abbrev Tables := String → Option (List Chain)

inductive Command where
  | newTable (table : String) (create : Bool)
  | delTable (table : String)
  | newChain (table : String) (create : Bool) (chain : Chain)
  | newRule (table chain : String) (create append : Bool) (rule : List Expr)

/-- Whether an expression may stand in the chain. -/
def Expr.allowedIn (chain : Chain) : Expr → Bool
  | .masq _ => chain.kind = "nat" ∧ chain.hook = .postRouting
  | .rtTcpMss _ => chain.hook = .forward ∨ chain.hook = .localOut ∨ chain.hook = .postRouting
  | _ => true

/-- Whether the kernel has chains of this kind at this hook. -/
def Chain.valid (chain : Chain) : Bool :=
  chain.kind = "filter" ∨ chain.kind = "nat" ∧ chain.hook ≠ .forward

/-- `NLM_F_APPEND` puts the rule last, and without it it comes first. -/
def Chain.addRule (chain : Chain) (append : Bool) (rule : List Expr) : Chain :=
  { chain with rules := if append then chain.rules ++ [rule] else rule :: chain.rules }

@[simp] theorem Chain.name_addRule (chain : Chain) (append : Bool) (rule : List Expr) :
    (chain.addRule append rule).name = chain.name := rfl

namespace Tables

open Function (update)

/-- A command of a transaction. What the kernel would refuse is `none`, and so is a second chain of
one name, which would be an update. -/
def apply (tables : Tables) : Command → Option Tables
  | .newTable table create =>
    match tables table with
    | some _ => some tables
    | none => if create then some (update tables table (some [])) else none
  | .delTable table =>
    match tables table with
    | some _ => some (update tables table none)
    | none => none
  | .newChain table create chain =>
    match tables table with
    | some chains =>
      if create ∧ chain.valid ∧ ∀ c ∈ chains, c.name ≠ chain.name then
        some (update tables table (some (chains ++ [chain])))
      else none
    | none => none
  | .newRule table name create append rule =>
    match tables table with
    | some chains =>
      match chains.find? (·.name = name) with
      | some chain =>
        if create ∧ ∀ expr ∈ rule, expr.allowedIn chain then
          some (update tables table
            (some (chains.map fun c => if c.name = name then c.addRule append rule else c)))
        else none
      | none => none
    | none => none

/-- A transaction succeeds as a whole or not at all. -/
def transact (tables : Tables) (commands : List Command) : Option Tables :=
  commands.foldlM apply tables

theorem transact_cons {tables next : Tables} {command : Command} (h : tables.apply command = some next)
    (rest : List Command) : tables.transact (command :: rest) = next.transact rest := by
  rw [transact, List.foldlM_cons, h]
  rfl

section
variable (tables : Tables) {table : String} {chains : List Chain}

theorem apply_delTable {chains : List Chain} (h : tables table = some chains) :
    tables.apply (.delTable table) = some (update tables table none) := by
  rw [apply, h]

theorem apply_newTable :
    apply (update tables table none) (.newTable table true) =
      some (update tables table (some [])) := by
  simp [apply]

theorem apply_newChain {chain : Chain} (hvalid : chain.valid = true)
    (hnew : ∀ c ∈ chains, c.name ≠ chain.name) :
    apply (update tables table (some chains)) (.newChain table true chain) =
      some (update tables table (some (chains ++ [chain]))) := by
  rw [apply, Function.update_self]
  exact (if_pos ⟨rfl, hvalid, hnew⟩).trans (by rw [Function.update_idem])

theorem apply_newRule (pre post : List Chain) (chain : Chain) {rule : List Expr}
    (hpre : ∀ c ∈ pre, c.name ≠ chain.name) (hpost : ∀ c ∈ post, c.name ≠ chain.name)
    (hallowed : ∀ expr ∈ rule, expr.allowedIn chain = true) :
    apply (update tables table (some (pre ++ chain :: post)))
        (.newRule table chain.name true true rule) =
      some (update tables table (some (pre ++ chain.addRule true rule :: post))) := by
  have hothers : ∀ l : List Chain, (∀ c ∈ l, c.name ≠ chain.name) →
      l.map (fun c => if c.name = chain.name then c.addRule true rule else c) = l := by
    intro l hl
    exact (List.map_congr_left fun c hc => if_neg (hl c hc)).trans (List.map_id l)
  have hfind : (pre ++ chain :: post).find? (·.name = chain.name) = some chain := by
    have hnone : pre.find? (·.name = chain.name) = none :=
      List.find?_eq_none.mpr fun c hc => by simpa using hpre c hc
    rw [List.find?_append, hnone, Option.none_or, List.find?_cons_of_pos (by simp)]
  rw [apply, Function.update_self]
  dsimp only
  rw [hfind]
  refine (if_pos ⟨rfl, hallowed⟩).trans ?_
  rw [Function.update_idem, List.map_append, List.map_cons, hothers pre hpre, hothers post hpost,
    if_pos rfl]

end

end Tables

/-- The run of the rules of a chain, if the table has it. -/
def runChain (e : Endian) (p : Packet) (chains : List Chain) (name : String) (regs : Registers) :
    Outcome :=
  match chains.find? (·.name = name) with
  | some chain => runRules e p chain.rules regs
  | none => ⟨regs, [], none⟩

end NfTables
