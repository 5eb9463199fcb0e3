import Mathlib.Data.List.DropRight
import Noeio.Lib.Ipv4Cidr

/-!
# The text of a CIDR block

`CidrText` is what a program may rely on when it writes blocks as text and reads them back:
what was written reads as the block it came from. `CidrText.dotted` is the usual form
`a.b.c.d/n`, with one to three digits for an octet and one or two for the prefix length.

`trim` is the trimming of a string at both ends, by the white space of Unicode.
-/

/-! ## White space -/

namespace Text

/-- The characters with the property `White_Space`. -/
def isWhitespace (c : Char) : Bool :=
  let n := c.toNat
  (9 ≤ n && n ≤ 13) || n == 0x20 || n == 0x85 || n == 0xA0 || n == 0x1680 ||
    (0x2000 ≤ n && n ≤ 0x200A) || n == 0x2028 || n == 0x2029 || n == 0x202F || n == 0x205F ||
    n == 0x3000

def trim (s : String) : String :=
  String.ofList ((s.toList.dropWhile isWhitespace).rdropWhile isWhitespace)

/-! ## Numbers -/

def digits (n : Nat) : List Char := Nat.toDigits 10 n

/-- A number of at most `maxDigits` decimal digits that is below `maxValue`. -/
def number (maxDigits maxValue : Nat) (cs : List Char) : Option Nat :=
  if cs ≠ [] ∧ cs.length ≤ maxDigits ∧ cs.all Char.isDigit then
    let value := cs.foldl (fun value c => value * 10 + (c.toNat - '0'.toNat)) 0
    if value < maxValue then some value else none
  else none

set_option maxRecDepth 4000 in
theorem number_digits : ∀ n < 256,
    number 3 256 (digits n) = some n ∧ '.' ∉ digits n ∧ '/' ∉ digits n := by
  decide

theorem number_digits_prefixLen : ∀ n < 33,
    number 2 33 (digits n) = some n ∧ '/' ∉ digits n := by
  decide

end Text

/-! ## Blocks -/

/-- A way to write blocks as text and to read them, which reads what it has written. -/
structure CidrText where
  parse : String → Option Ipv4Cidr
  display : Ipv4Cidr → String
  parse_display : ∀ c, parse (display c) = some c

theorem CidrText.display_inj (text : CidrText) {c c' : Ipv4Cidr} :
    text.display c = text.display c' ↔ c = c' := by
  refine ⟨fun h => ?_, fun h => congrArg text.display h⟩
  have hread := text.parse_display c
  rw [h, text.parse_display c'] at hread
  exact (Option.some.inj hread).symm

namespace Ipv4Addr

/-- The octet of weight `256 ^ i`. -/
def octet (a : Ipv4Addr) (i : Nat) : Nat := a.toNat / 256 ^ i % 256

theorem octet_lt (a : Ipv4Addr) (i : Nat) : a.octet i < 256 := Nat.mod_lt _ (by decide)

theorem ofOctets_octet (a : Ipv4Addr) :
    ofOctets (.ofNat (a.octet 3)) (.ofNat (a.octet 2)) (.ofNat (a.octet 1)) (.ofNat (a.octet 0)) =
      a := by
  have hmod : ∀ i, (UInt8.ofNat (a.octet i)).toNat = a.octet i :=
    fun i => UInt8.toNat_ofNat_of_lt' (a.octet_lt i)
  have ha : a.toNat < 2 ^ 32 := a.isLt
  apply BitVec.eq_of_toNat_eq
  simp only [ofOctets, hmod, BitVec.toNat_ofNat]
  unfold octet
  omega

end Ipv4Addr

namespace CidrText

open Text

/-- The text of an address, before it becomes a string. -/
def addrChars (a : Ipv4Addr) : List Char :=
  ['.'].intercalate
    [digits (a.octet 3), digits (a.octet 2), digits (a.octet 1), digits (a.octet 0)]

def cidrChars (c : Ipv4Cidr) : List Char :=
  ['/'].intercalate [addrChars c.address, digits c.prefixLen]

def parseAddr (cs : List Char) : Option Ipv4Addr :=
  match cs.splitOn '.' with
  | [a, b, c, d] => do
    let a ← number 3 256 a
    let b ← number 3 256 b
    let c ← number 3 256 c
    let d ← number 3 256 d
    return .ofOctets (.ofNat a) (.ofNat b) (.ofNat c) (.ofNat d)
  | _ => none

def parseCidr (cs : List Char) : Option Ipv4Cidr :=
  match cs.splitOn '/' with
  | [addr, len] => do
    let addr ← parseAddr addr
    let len ← number 2 33 len
    if h : len ≤ 32 then some ⟨addr, len, h⟩ else none
  | _ => none

theorem parseAddr_addrChars (a : Ipv4Addr) : parseAddr (addrChars a) = some a := by
  have hoctet : ∀ i, number 3 256 (digits (a.octet i)) = some (a.octet i) :=
    fun i => (number_digits _ (a.octet_lt i)).1
  have hdot : ∀ i, '.' ∉ digits (a.octet i) := fun i => (number_digits _ (a.octet_lt i)).2.1
  rw [parseAddr, addrChars, List.splitOn_intercalate '.' (by simp [hdot]) (by simp)]
  simp [hoctet, Ipv4Addr.ofOctets_octet]

theorem slash_not_mem_addrChars (a : Ipv4Addr) : '/' ∉ addrChars a := by
  have hslash : ∀ i, '/' ∉ digits (a.octet i) := fun i => (number_digits _ (a.octet_lt i)).2.2
  simp [addrChars, hslash]

theorem parseCidr_cidrChars (c : Ipv4Cidr) : parseCidr (cidrChars c) = some c := by
  obtain ⟨hlen, hslash⟩ := number_digits_prefixLen c.prefixLen (Nat.lt_succ_of_le c.prefixLen_le)
  have hpieces : ∀ l ∈ [addrChars c.address, digits c.prefixLen], '/' ∉ l := by
    simp [slash_not_mem_addrChars, hslash]
  rw [parseCidr, cidrChars, List.splitOn_intercalate '/' hpieces (by simp)]
  simp [parseAddr_addrChars, hlen, c.prefixLen_le]

/-- The form `a.b.c.d/n`. -/
def dotted : CidrText where
  parse s := parseCidr s.toList
  display c := String.ofList (cidrChars c)
  parse_display c := by rw [String.toList_ofList, parseCidr_cidrChars]

example : dotted.parse "192.168.10.1/24" = some (.ofOctets 192 168 10 1 24) := by
  decide

end CidrText
