import Noeio.Lib.CidrText

/-!
# The text of an IP address

Addresses are written as `a.b.c.d` and as groups of hexadecimal digits, where the longest run of
zero groups is written `::`. A reader takes characters from the front of a text and returns what
it read with the rest. The readers are those of the usual recursive descent parser: an IPv6
address may end in an IPv4 address, and `::` may stand for one group or more.

What was written is read back, up to the first character that cannot continue it
(`readIpv4Addr_addrChars`, `readIpv6Addr_ipv6Chars`).
-/

abbrev Ipv6Addr := BitVec 128

namespace Text

/-! ## Numbers in a radix -/

def toDigit (radix : Nat) (c : Char) : Option Nat :=
  let value :=
    if '0' ≤ c ∧ c ≤ '9' then c.toNat - '0'.toNat
    else if 'a' ≤ c ∧ c ≤ 'z' then c.toNat - 'a'.toNat + 10
    else if 'A' ≤ c ∧ c ≤ 'Z' then c.toNat - 'A'.toNat + 10
    else radix
  if value < radix then some value else none

def digitsValue (radix : Nat) (ds : List Char) : Nat :=
  ds.foldl (fun value c => value * radix + (toDigit radix c).getD 0) 0

/-- The number at the front of the text. -/
def readNumber (radix bound : Nat) (maxDigits : Option Nat) (allowZeroPrefix : Bool)
    (cs : List Char) : Option (Nat × List Char) :=
  let isDigit := fun c => (toDigit radix c).isSome
  let ds := cs.takeWhile isDigit
  if ds = [] then none
  else if maxDigits.any (· < ds.length) then none
  else if !allowZeroPrefix && ds.head? == some '0' && 1 < ds.length then none
  else if bound ≤ digitsValue radix ds then none
  else some (digitsValue radix ds, cs.dropWhile isDigit)

/-- The text does not go on with a digit. -/
def NoDigit (radix : Nat) (rest : List Char) : Prop := ∀ c ∈ rest.head?, toDigit radix c = none

theorem toDigit_digitChar {radix d : Nat} (hradix : radix ≤ 16) (hd : d < radix) :
    toDigit radix d.digitChar = some d := by
  have hall : ∀ radix < 17, ∀ d < radix, toDigit radix (Nat.digitChar d) = some d := by decide
  exact hall radix (by omega) d hd

/-- A hexadecimal digit is between `0` and `f`. -/
theorem toNat_of_isSome_toDigit {c : Char} (h : (toDigit 16 c).isSome = true) :
    48 ≤ c.toNat ∧ c.toNat ≤ 102 := by
  have h0 : '0'.val.toNat = 48 := rfl
  have h9 : '9'.val.toNat = 57 := rfl
  have ha : 'a'.val.toNat = 97 := rfl
  have hz : 'z'.val.toNat = 122 := rfl
  have hA : 'A'.val.toNat = 65 := rfl
  have hZ : 'Z'.val.toNat = 90 := rfl
  simp only [toDigit, Char.le_def, UInt32.le_iff_toNat_le, h0, h9, ha, hz, hA, hZ, Char.toNat]
    at h ⊢
  split_ifs at h <;> simp at h <;> omega

theorem eq_digitChar_of_mem_toDigits {radix n : Nat} (hradix : 1 < radix) {c : Char}
    (h : c ∈ Nat.toDigits radix n) : ∃ d < radix, c = d.digitChar := by
  induction n using Nat.strongRecOn with
  | ind n ih =>
    rw [Nat.toDigits_eq_if hradix] at h
    split at h
    · rename_i hn
      exact ⟨n, hn, List.mem_singleton.mp h⟩
    · rename_i hn
      rcases List.mem_append.mp h with h | h
      · exact ih (n / radix) (Nat.div_lt_self (by omega) hradix) h
      · exact ⟨n % radix, Nat.mod_lt _ (by omega), List.mem_singleton.mp h⟩

theorem isSome_toDigit_of_mem {radix n : Nat} (hradix : 1 < radix) (hle : radix ≤ 16) {c : Char}
    (h : c ∈ Nat.toDigits radix n) : (toDigit radix c).isSome = true := by
  obtain ⟨d, hd, rfl⟩ := eq_digitChar_of_mem_toDigits hradix h
  rw [toDigit_digitChar hle hd]
  rfl

/-- Decimal digits are hexadecimal digits. -/
theorem isSome_toDigit_of_mem_digits {n : Nat} {c : Char} (h : c ∈ digits n) :
    (toDigit 16 c).isSome = true := by
  obtain ⟨d, hd, rfl⟩ := eq_digitChar_of_mem_toDigits (by omega) h
  rw [toDigit_digitChar (by omega) (by omega)]
  rfl

theorem digitsValue_toDigits {radix : Nat} (hradix : 1 < radix) (hle : radix ≤ 16) (n : Nat) :
    digitsValue radix (Nat.toDigits radix n) = n := by
  induction n using Nat.strongRecOn with
  | ind n ih =>
    rw [Nat.toDigits_eq_if hradix]
    split
    · rename_i hn
      simp [digitsValue, toDigit_digitChar hle hn]
    · rename_i hn
      have hlast : n % radix < radix := Nat.mod_lt _ (by omega)
      have hhigh := ih (n / radix) (Nat.div_lt_self (by omega) hradix)
      unfold digitsValue at hhigh ⊢
      rw [List.foldl_append, hhigh, List.foldl_cons, List.foldl_nil, toDigit_digitChar hle hlast,
        Option.getD_some, Nat.mul_comm, Nat.div_add_mod]

/-- Only zero is written with a leading zero. -/
theorem eq_zero_of_head?_toDigits {radix n : Nat} (hradix : 1 < radix)
    (h : (Nat.toDigits radix n).head? = some '0') : n = 0 := by
  induction n using Nat.strongRecOn with
  | ind n ih =>
    rw [Nat.toDigits_eq_if hradix] at h
    split at h
    · simpa using h
    · rename_i hn
      have hne : Nat.toDigits radix (n / radix) ≠ [] := Nat.toDigits_ne_nil
      rw [List.head?_append_of_ne_nil _ hne] at h
      have hzero := ih (n / radix) (Nat.div_lt_self (by omega) hradix) h
      rw [Nat.div_eq_zero_iff] at hzero
      omega

theorem takeWhile_append_rest {p : Char → Bool} {ds rest : List Char} (hds : ∀ c ∈ ds, p c = true)
    (hrest : ∀ c ∈ rest.head?, p c = false) : (ds ++ rest).takeWhile p = ds := by
  rw [List.takeWhile_append_of_pos hds]
  cases rest with
  | nil => simp
  | cons c rest => simp [hrest c rfl]

theorem dropWhile_append_rest {p : Char → Bool} {ds rest : List Char} (hds : ∀ c ∈ ds, p c = true)
    (hrest : ∀ c ∈ rest.head?, p c = false) : (ds ++ rest).dropWhile p = rest := by
  rw [List.dropWhile_append_of_pos hds]
  cases rest with
  | nil => simp
  | cons c rest => simp [hrest c rfl]

/-- A number is read as it was written. -/
theorem readNumber_toDigits {radix bound n : Nat} {maxDigits : Option Nat} {allowZeroPrefix : Bool}
    (hradix : 1 < radix) (hle : radix ≤ 16) (hbound : n < bound)
    (hmax : ∀ m ∈ maxDigits, (Nat.toDigits radix n).length ≤ m) {rest : List Char}
    (hrest : NoDigit radix rest) :
    readNumber radix bound maxDigits allowZeroPrefix (Nat.toDigits radix n ++ rest) =
      some (n, rest) := by
  have hds : ∀ c ∈ Nat.toDigits radix n, (toDigit radix c).isSome = true :=
    fun c hc => isSome_toDigit_of_mem hradix hle hc
  have hstop : ∀ c ∈ rest.head?, (toDigit radix c).isSome = false :=
    fun c hc => by rw [hrest c hc]; rfl
  have hmany : maxDigits.any (· < (Nat.toDigits radix n).length) = false := by
    cases maxDigits with
    | none => rfl
    | some m => simpa using hmax m rfl
  have hzero : ¬((Nat.toDigits radix n).head? = some '0' ∧ 1 < (Nat.toDigits radix n).length) := by
    rintro ⟨hhead, hlen⟩
    obtain rfl := eq_zero_of_head?_toDigits hradix hhead
    rw [Nat.toDigits_zero] at hlen
    exact absurd hlen (by decide)
  simp only [readNumber, takeWhile_append_rest hds hstop, dropWhile_append_rest hds hstop,
    digitsValue_toDigits hradix hle, hmany]
  rw [if_neg Nat.toDigits_ne_nil, if_neg (by simp), if_neg (by grind), if_neg (by omega)]

theorem readNumber_of_noDigit {radix bound : Nat} {maxDigits : Option Nat}
    {allowZeroPrefix : Bool} {cs : List Char} (h : NoDigit radix cs) :
    readNumber radix bound maxDigits allowZeroPrefix cs = none := by
  have hstop : ∀ c ∈ cs.head?, (toDigit radix c).isSome = false := fun c hc => by rw [h c hc]; rfl
  have htake : ([] ++ cs).takeWhile (fun c => (toDigit radix c).isSome) = [] :=
    takeWhile_append_rest (List.forall_mem_nil _) hstop
  rw [List.nil_append] at htake
  simp only [readNumber, htake, if_true]

/-- What follows the number is at a place of the text, or behind it. -/
theorem head?_of_readNumber {radix bound n : Nat} {maxDigits : Option Nat}
    {allowZeroPrefix : Bool} {sep : Char} {hs more rest : List Char} (hhs : sep ∉ hs)
    (hmore : NoDigit radix more) (hsep : more.head? ≠ some sep)
    (h : readNumber radix bound maxDigits allowZeroPrefix (hs ++ more) = some (n, rest)) :
    rest.head? ≠ some sep := by
  have hdrop : ((hs ++ more).dropWhile fun c => (toDigit radix c).isSome).head? ≠ some sep := by
    clear h
    induction hs with
    | nil =>
      rw [dropWhile_append_rest (by simp) (fun c hc => by rw [hmore c hc]; rfl)]
      exact hsep
    | cons c hs ih =>
      rw [List.cons_append, List.dropWhile_cons]
      split
      · exact ih fun hmem => hhs (List.mem_cons_of_mem c hmem)
      · rintro ⟨rfl⟩
        exact hhs List.mem_cons_self
  simp only [readNumber] at h
  split at h
  · cases h
  split at h
  · cases h
  split at h
  · cases h
  split at h
  · cases h
  cases h
  exact hdrop

/-! ## Separators -/

def readChar (expected : Char) : List Char → Option (List Char)
  | [] => none
  | c :: cs => if c = expected then some cs else none

/-- A part after its separator, which the first part does not have. -/
def readSeparator {α : Type} (sep : Char) (first : Bool)
    (inner : List Char → Option (α × List Char)) (cs : List Char) : Option (α × List Char) :=
  if first then inner cs else (readChar sep cs).bind inner

@[simp] theorem readChar_cons (c : Char) (cs : List Char) : readChar c (c :: cs) = some cs := by
  simp [readChar]

theorem readChar_eq_none {c : Char} {cs : List Char} (h : cs.head? ≠ some c) :
    readChar c cs = none := by
  cases cs with
  | nil => rfl
  | cons d cs =>
    have hne : d ≠ c := fun hd => h (by rw [hd, List.head?_cons])
    rw [readChar, if_neg hne]

end Text

open Text

/-! ## IPv4 -/

namespace Ipv4Addr

def readOctet : List Char → Option (Nat × List Char) := readNumber 10 256 (some 3) false

def readIpv4Addr (cs : List Char) : Option (Ipv4Addr × List Char) := do
  let (a, cs) ← readSeparator '.' true readOctet cs
  let (b, cs) ← readSeparator '.' false readOctet cs
  let (c, cs) ← readSeparator '.' false readOctet cs
  let (d, cs) ← readSeparator '.' false readOctet cs
  return (.ofOctets (.ofNat a) (.ofNat b) (.ofNat c) (.ofNat d), cs)

theorem readOctet_digits {n : Nat} (h : n < 256) {rest : List Char} (hrest : NoDigit 10 rest) :
    readOctet (digits n ++ rest) = some (n, rest) := by
  refine readNumber_toDigits (by omega) (by omega) h ?_ hrest
  rintro m ⟨rfl⟩
  exact (Nat.length_toDigits_le_iff (by omega) (by omega)).mpr (by omega)

theorem noDigit_dot (rest : List Char) : NoDigit 10 ('.' :: rest) := by
  rintro c ⟨rfl⟩
  decide

/-- An IPv4 address is read as it was written. -/
theorem readIpv4Addr_addrChars (a : Ipv4Addr) {rest : List Char} (hrest : NoDigit 10 rest) :
    readIpv4Addr (CidrText.addrChars a ++ rest) = some (a, rest) := by
  have hchars : CidrText.addrChars a ++ rest =
      digits (a.octet 3) ++ '.' :: (digits (a.octet 2) ++
        '.' :: (digits (a.octet 1) ++ '.' :: (digits (a.octet 0) ++ rest))) := by
    simp [CidrText.addrChars]
  rw [hchars]
  simp [readIpv4Addr, readSeparator, readOctet_digits (a.octet_lt _), noDigit_dot, hrest,
    ofOctets_octet]

/-- A text that starts with something else than an octet and a dot is not an IPv4 address. -/
theorem readIpv4Addr_eq_none {hs more : List Char} (hhs : '.' ∉ hs) (hmore : NoDigit 10 more)
    (hdot : more.head? ≠ some '.') : readIpv4Addr (hs ++ more) = none := by
  unfold readIpv4Addr
  simp only [readSeparator, if_true, Bool.false_eq_true, if_false]
  cases hread : readOctet (hs ++ more) with
  | none => rfl
  | some found =>
    obtain ⟨n, rest⟩ := found
    have hhead : rest.head? ≠ some '.' := head?_of_readNumber hhs hmore hdot hread
    simp [readChar_eq_none hhead]

end Ipv4Addr

/-! ## IPv6 -/

namespace Ipv6Addr

open Ipv4Addr

/-- The group of weight `2 ^ (16 * i)`. -/
def segment (a : Ipv6Addr) (i : Nat) : Nat := a.toNat / 65536 ^ i % 65536

def segments (a : Ipv6Addr) : List Nat := [7, 6, 5, 4, 3, 2, 1, 0].map a.segment

def ofSegments (gs : List Nat) : Ipv6Addr :=
  BitVec.ofNat 128 (gs.foldl (fun value g => value * 65536 + g) 0)

def toIpv4Mapped : List Nat → Option Ipv4Addr
  | [0, 0, 0, 0, 0, 0xffff, ab, cd] =>
    some (.ofOctets (.ofNat (ab / 256)) (.ofNat ab) (.ofNat (cd / 256)) (.ofNat cd))
  | _ => none

structure Span where
  start : Nat
  len : Nat

/-- The longest run of zeros, the first one if there are several. -/
def findZeroes : List Nat → Nat → Span → Span → Span
  | [], _, _, longest => longest
  | g :: gs, i, current, longest =>
    if g = 0 then
      let current : Span :=
        { start := if current.len = 0 then i else current.start, len := current.len + 1 }
      findZeroes gs (i + 1) current (if longest.len < current.len then current else longest)
    else findZeroes gs (i + 1) ⟨0, 0⟩ longest

def groupChars (g : Nat) : List Char := Nat.toDigits 16 g

/-- Groups with a separator before each one but the first. -/
def groupsChars : Bool → List Nat → List Char
  | _, [] => []
  | first, g :: gs => (if first then [] else [':']) ++ groupChars g ++ groupsChars false gs

def ipv6Chars (a : Ipv6Addr) : List Char :=
  let gs := a.segments
  match toIpv4Mapped gs with
  | some ip => [':', ':', 'f', 'f', 'f', 'f', ':'] ++ CidrText.addrChars ip
  | none =>
    let zeroes := findZeroes gs 0 ⟨0, 0⟩ ⟨0, 0⟩
    if 1 < zeroes.len then
      groupsChars true (gs.take zeroes.start) ++ [':', ':'] ++
        groupsChars true (gs.drop (zeroes.start + zeroes.len))
    else groupsChars true gs

/-- At most `limit` groups, whether an IPv4 address was among them, and the rest. -/
def readGroups : (limit : Nat) → (first : Bool) → List Char → List Nat × Bool × List Char
  | 0, _, cs => ([], false, cs)
  | limit + 1, first, cs =>
    -- an IPv4 address takes two groups
    match if limit = 0 then none else readSeparator ':' first readIpv4Addr cs with
    | some (ip, rest) =>
      ([ip.octet 3 * 256 + ip.octet 2, ip.octet 1 * 256 + ip.octet 0], true, rest)
    | none =>
      match readSeparator ':' first (readNumber 16 65536 (some 4) true) cs with
      | some (g, rest) =>
        let (gs, ipv4, rest) := readGroups limit false rest
        (g :: gs, ipv4, rest)
      | none => ([], false, cs)

def readIpv6Addr (cs : List Char) : Option (Ipv6Addr × List Char) :=
  let (head, headIpv4, rest) := readGroups 8 true cs
  if head.length = 8 then some (ofSegments head, rest)
  -- an IPv4 address is not allowed before the zeros
  else if headIpv4 then none
  else do
    let rest ← readChar ':' rest
    let rest ← readChar ':' rest
    let (tail, _, rest) := readGroups (8 - (head.length + 1)) true rest
    return (ofSegments (head ++ List.replicate (8 - tail.length - head.length) 0 ++ tail), rest)

/-- The higher segments and the next one. -/
theorem div_mul_add_segment (a : Ipv6Addr) (i : Nat) :
    a.toNat / 65536 ^ (i + 1) * 65536 + a.segment i = a.toNat / 65536 ^ i := by
  rw [segment, Nat.pow_succ, ← Nat.div_div_eq_div_mul]
  omega

theorem ofSegments_segments (a : Ipv6Addr) : ofSegments a.segments = a := by
  have ha : a.toNat < 65536 ^ 8 := a.isLt
  have htop : 0 * 65536 + a.segment 7 = a.toNat / 65536 ^ 7 := by
    rw [← div_mul_add_segment, Nat.div_eq_of_lt ha]
  apply BitVec.eq_of_toNat_eq
  simp only [ofSegments, segments, List.map_cons, List.map_nil, List.foldl_cons, List.foldl_nil]
  rw [htop, div_mul_add_segment, div_mul_add_segment, div_mul_add_segment, div_mul_add_segment,
    div_mul_add_segment, div_mul_add_segment, div_mul_add_segment, Nat.pow_zero, Nat.div_one,
    BitVec.toNat_ofNat, Nat.mod_eq_of_lt a.isLt]

@[simp] theorem length_segments (a : Ipv6Addr) : a.segments.length = 8 := rfl

theorem lt_of_mem_segments {a : Ipv6Addr} {g : Nat} (h : g ∈ a.segments) : g < 65536 := by
  obtain ⟨i, -, rfl⟩ := List.mem_map.mp h
  exact Nat.mod_lt _ (by omega)

/-! ## The run of zeros -/

/-- The places of the span hold zeros. -/
def Zeroes (gs : List Nat) (span : Span) : Prop :=
  ∀ j, span.start ≤ j → j < span.start + span.len → gs[j]? = some 0

theorem zeroes_empty (gs : List Nat) : Zeroes gs ⟨0, 0⟩ := fun _ _ hj => absurd hj (by simp)

/-- A zero behind the span, or the first zero of a new one. -/
theorem Zeroes.extend {gs : List Nat} {span : Span} {i : Nat} (h : Zeroes gs span)
    (hend : span.len ≠ 0 → span.start + span.len = i) (hi : gs[i]? = some 0) :
    Zeroes gs ⟨if span.len = 0 then i else span.start, span.len + 1⟩ ∧
      (if span.len = 0 then i else span.start) + (span.len + 1) = i + 1 := by
  by_cases hlen : span.len = 0
  · rw [if_pos hlen, hlen]
    refine ⟨fun j hstart hj => ?_, rfl⟩
    simp only at hstart hj
    obtain rfl : j = i := by omega
    exact hi
  · rw [if_neg hlen]
    have hplace := hend hlen
    refine ⟨fun j hstart hj => ?_, by omega⟩
    simp only at hstart hj
    by_cases hji : j = i
    · rw [hji, hi]
    · exact h j hstart (by omega)

theorem zeroes_findZeroes {gs rest : List Nat} {i : Nat} {current longest : Span}
    (hrest : gs.drop i = rest) (hcurrent : Zeroes gs current)
    (hend : current.len ≠ 0 → current.start + current.len = i) (hlongest : Zeroes gs longest) :
    Zeroes gs (findZeroes rest i current longest) := by
  induction rest generalizing i current longest with
  | nil => exact hlongest
  | cons g rest ih =>
    have hg : gs[i]? = some g := by rw [← List.head?_drop, hrest, List.head?_cons]
    have hdrop : gs.drop (i + 1) = rest := by rw [← List.tail_drop, hrest, List.tail_cons]
    rw [findZeroes]
    split
    · rename_i hzero
      obtain ⟨hnext, hnextEnd⟩ := hcurrent.extend hend (hzero ▸ hg)
      exact ih hdrop hnext (fun _ => hnextEnd)
        (iteInduction (motive := Zeroes gs) (fun _ => hnext) (fun _ => hlongest))
    · exact ih hdrop (zeroes_empty gs) (fun h => absurd rfl h) hlongest

theorem eq_of_zeroes {gs : List Nat} {span : Span} (h : Zeroes gs span) :
    gs = gs.take span.start ++ List.replicate span.len 0 ++ gs.drop (span.start + span.len) := by
  have hmid : (gs.drop span.start).take span.len = List.replicate span.len 0 := by
    apply List.ext_getElem?
    intro j
    rw [List.getElem?_take, List.getElem?_replicate]
    split
    · rename_i hj
      rw [List.getElem?_drop]
      exact h _ (by omega) (by omega)
    · rfl
  rw [← hmid, List.append_assoc, ← List.drop_drop, List.take_append_drop, List.take_append_drop]

/-! ## Groups are read back -/

/-- The text does not go on with a digit, a dot or a further group. -/
structure Stops (rest : List Char) : Prop where
  noDigit : NoDigit 16 rest
  noDot : rest.head? ≠ some '.'
  noGroup : ∀ more, rest = ':' :: more → NoDigit 16 more

theorem noDigit_ten {rest : List Char} (h : NoDigit 16 rest) : NoDigit 10 rest := by
  intro c hc
  have hhex := h c hc
  simp only [toDigit, ite_eq_right_iff, reduceCtorEq, imp_false, Nat.not_lt] at hhex ⊢
  split_ifs at hhex ⊢ <;> omega

theorem noDigit_colon (rest : List Char) : NoDigit 16 (':' :: rest) := by
  rintro c ⟨rfl⟩
  decide

theorem readIpv4Addr_of_noDigit {cs : List Char} (h : NoDigit 16 cs) : readIpv4Addr cs = none := by
  simp [readIpv4Addr, readSeparator, readOctet, readNumber_of_noDigit (noDigit_ten h)]

theorem Stops.readSeparator_eq_none {α : Type} {rest : List Char} (h : Stops rest)
    {inner : List Char → Option (α × List Char)}
    (hinner : ∀ cs, NoDigit 16 cs → inner cs = none) (first : Bool) :
    readSeparator ':' first inner rest = none := by
  unfold readSeparator
  split
  · exact hinner rest h.noDigit
  · cases hread : readChar ':' rest with
    | none => rfl
    | some more =>
      cases rest with
      | nil => cases hread
      | cons c rest =>
        rw [readChar] at hread
        split at hread
        · rename_i hc
          cases hread
          exact hinner more (h.noGroup more (by rw [hc]))
        · cases hread

theorem readSeparator_append {α : Type} (first : Bool) (inner : List Char → Option (α × List Char))
    (cs : List Char) :
    readSeparator ':' first inner ((if first then [] else [':']) ++ cs) = inner cs := by
  cases first <;> simp [readSeparator]

theorem dot_notMem_groupChars (g : Nat) : '.' ∉ groupChars g := by
  intro h
  have hdigit := isSome_toDigit_of_mem (by omega) (by omega) h
  exact absurd hdigit (by decide)

/-- A group is no IPv4 address, and is read as a group. -/
theorem readGroups_succ {g : Nat} (hg : g < 65536) (limit : Nat) (first : Bool) {rest : List Char}
    (hrest : NoDigit 16 rest) (hdot : rest.head? ≠ some '.') :
    readGroups (limit + 1) first ((if first then [] else [':']) ++ (groupChars g ++ rest)) =
      (g :: (readGroups limit false rest).1, (readGroups limit false rest).2) := by
  have hipv4 : readIpv4Addr (groupChars g ++ rest) = none :=
    readIpv4Addr_eq_none (dot_notMem_groupChars g) (noDigit_ten hrest) hdot
  have hgroup : readNumber 16 65536 (some 4) true (groupChars g ++ rest) = some (g, rest) := by
    refine readNumber_toDigits (by omega) (by omega) hg ?_ hrest
    rintro m ⟨rfl⟩
    exact (Nat.length_toDigits_le_iff (by omega) (by omega)).mpr (by omega)
  simp only [readGroups, readSeparator_append, hipv4, hgroup, ite_self]

theorem noDigit_groupsChars (gs : List Nat) {rest : List Char} (hrest : Stops rest) :
    NoDigit 16 (groupsChars false gs ++ rest) ∧ (groupsChars false gs ++ rest).head? ≠ some '.' := by
  cases gs with
  | nil => exact ⟨hrest.noDigit, hrest.noDot⟩
  | cons g gs => exact ⟨noDigit_colon _, by simp [groupsChars]⟩

theorem readGroups_groupsChars {gs : List Nat} (hgs : ∀ g ∈ gs, g < 65536) {limit : Nat}
    (hlen : gs.length ≤ limit) (first : Bool) {rest : List Char} (hrest : Stops rest) :
    readGroups limit first (groupsChars first gs ++ rest) = (gs, false, rest) := by
  induction gs generalizing limit first with
  | nil =>
    rw [groupsChars, List.nil_append]
    cases limit with
    | zero => rfl
    | succ limit =>
      have hipv4 := hrest.readSeparator_eq_none (fun _ => readIpv4Addr_of_noDigit) first
      have hgroup : readSeparator ':' first (readNumber 16 65536 (some 4) true) rest = none :=
        hrest.readSeparator_eq_none (fun _ => readNumber_of_noDigit) first
      simp only [readGroups, hipv4, hgroup, ite_self]
  | cons g gs ih =>
    rw [List.length_cons] at hlen
    obtain ⟨k, rfl⟩ : ∃ k, limit = k + 1 := ⟨limit - 1, by omega⟩
    have hnext := noDigit_groupsChars gs hrest
    rw [groupsChars, List.append_assoc, List.append_assoc,
      readGroups_succ (hgs g List.mem_cons_self) k first hnext.1 hnext.2,
      ih (fun g hg => hgs g (List.mem_cons_of_mem _ hg)) (by omega) false]

/-! ## Addresses are read back -/

theorem stops_nil : Stops [] where
  noDigit := by rintro c ⟨⟩
  noDot := by simp
  noGroup := by rintro more ⟨⟩

theorem stops_cons {c : Char} (hdigit : toDigit 16 c = none) (hdot : c ≠ '.') (hcolon : c ≠ ':')
    (rest : List Char) : Stops (c :: rest) where
  noDigit := by
    rintro d ⟨rfl⟩
    exact hdigit
  noDot := by simpa using hdot
  noGroup := by
    rintro more ⟨rfl⟩
    exact absurd rfl hcolon

theorem stops_colons (rest : List Char) : Stops (':' :: ':' :: rest) where
  noDigit := noDigit_colon _
  noDot := by simp
  noGroup := by
    rintro more ⟨rfl⟩
    exact noDigit_colon rest

theorem readIpv6Addr_groups {gs : List Nat} (hgs : ∀ g ∈ gs, g < 65536) (hlen : gs.length = 8)
    {rest : List Char} (hrest : Stops rest) :
    readIpv6Addr (groupsChars true gs ++ rest) = some (ofSegments gs, rest) := by
  simp only [readIpv6Addr, readGroups_groupsChars hgs (Nat.le_of_eq hlen) true hrest, hlen, if_true]

theorem readIpv6Addr_compressed {head tail : List Nat} (hhead : ∀ g ∈ head, g < 65536)
    (htail : ∀ g ∈ tail, g < 65536) (hlen : head.length + tail.length < 8) {rest : List Char}
    (hrest : Stops rest) :
    readIpv6Addr (groupsChars true head ++ ':' :: ':' :: (groupsChars true tail ++ rest)) =
      some (ofSegments (head ++ List.replicate (8 - tail.length - head.length) 0 ++ tail), rest) := by
  have hfront := readGroups_groupsChars hhead (by omega : head.length ≤ 8) true
    (stops_colons (groupsChars true tail ++ rest))
  have hback := readGroups_groupsChars htail (by omega : tail.length ≤ 8 - (head.length + 1)) true
    hrest
  have hne : head.length ≠ 8 := by omega
  simp only [readIpv6Addr, hfront, if_neg hne, readChar_cons, Option.bind_eq_bind,
    Option.bind_some, hback, Bool.false_eq_true, if_false, Option.pure_def]

theorem readIpv6Addr_mapped (ip : Ipv4Addr) {rest : List Char} (hrest : NoDigit 10 rest) :
    readIpv6Addr
        (':' :: ':' :: 'f' :: 'f' :: 'f' :: 'f' :: ':' :: (CidrText.addrChars ip ++ rest)) =
      some (ofSegments [0, 0, 0, 0, 0, 0xffff, ip.octet 3 * 256 + ip.octet 2,
        ip.octet 1 * 256 + ip.octet 0], rest) := by
  have hfront : ∀ more, readGroups 8 true (':' :: ':' :: more) = ([], false, ':' :: ':' :: more) :=
    fun more => readGroups_groupsChars (List.forall_mem_nil _) (Nat.zero_le 8) true
      (stops_colons more)
  have hffff : readGroups 7 true
      ('f' :: 'f' :: 'f' :: 'f' :: ':' :: (CidrText.addrChars ip ++ rest)) =
        ([0xffff, ip.octet 3 * 256 + ip.octet 2, ip.octet 1 * 256 + ip.octet 0], true, rest) := by
    have hgroup := readGroups_succ (by decide : 0xffff < 65536) 6 true
      (noDigit_colon (CidrText.addrChars ip ++ rest)) (by simp)
    have hipv4 : readGroups 6 false (':' :: (CidrText.addrChars ip ++ rest)) =
        ([ip.octet 3 * 256 + ip.octet 2, ip.octet 1 * 256 + ip.octet 0], true, rest) := by
      simp [readGroups, readSeparator, readIpv4Addr_addrChars ip hrest]
    rw [hipv4] at hgroup
    exact hgroup
  simp [readIpv6Addr, hfront, hffff]

theorem eq_of_toIpv4Mapped {gs : List Nat} (hgs : ∀ g ∈ gs, g < 65536) {ip : Ipv4Addr}
    (h : toIpv4Mapped gs = some ip) :
    [0, 0, 0, 0, 0, 0xffff, ip.octet 3 * 256 + ip.octet 2, ip.octet 1 * 256 + ip.octet 0] = gs := by
  unfold toIpv4Mapped at h
  split at h
  · rename_i ab cd
    cases h
    have hab : ab < 65536 := hgs ab (by simp)
    have hcd : cd < 65536 := hgs cd (by simp)
    simp only [octet, ofOctets, UInt8.toNat_ofNat', BitVec.toNat_ofNat, List.cons.injEq, true_and,
      and_true]
    omega
  · cases h

/-- An IPv6 address is read as it was written. -/
theorem readIpv6Addr_ipv6Chars (a : Ipv6Addr) {rest : List Char} (hrest : Stops rest) :
    readIpv6Addr (ipv6Chars a ++ rest) = some (a, rest) := by
  have hgs : ∀ g ∈ a.segments, g < 65536 := fun g => lt_of_mem_segments
  unfold ipv6Chars
  dsimp only
  split
  · rename_i ip hmapped
    have hread := readIpv6Addr_mapped ip (noDigit_ten hrest.noDigit)
    rw [eq_of_toIpv4Mapped hgs hmapped, ofSegments_segments] at hread
    exact hread
  · have hempty := zeroes_empty a.segments
    have hzeroes : Zeroes a.segments (findZeroes a.segments 0 ⟨0, 0⟩ ⟨0, 0⟩) :=
      zeroes_findZeroes List.drop_zero hempty (fun h => absurd rfl h) hempty
    generalize findZeroes a.segments 0 ⟨0, 0⟩ ⟨0, 0⟩ = zeroes at hzeroes ⊢
    have hsplit := eq_of_zeroes hzeroes
    have hlen := congrArg List.length hsplit
    rw [List.length_append, List.length_append, List.length_replicate, length_segments] at hlen
    split
    · have hhead : ∀ g ∈ a.segments.take zeroes.start, g < 65536 :=
        fun g hg => hgs g (List.mem_of_mem_take hg)
      have htail : ∀ g ∈ a.segments.drop (zeroes.start + zeroes.len), g < 65536 :=
        fun g hg => hgs g (List.mem_of_mem_drop hg)
      have hread := readIpv6Addr_compressed hhead htail (by omega) hrest
      have hrun : 8 - (a.segments.drop (zeroes.start + zeroes.len)).length -
          (a.segments.take zeroes.start).length = zeroes.len := by omega
      rw [hrun, ← hsplit, ofSegments_segments] at hread
      simpa using hread
    · have hread := readIpv6Addr_groups hgs (length_segments a) hrest
      rwa [ofSegments_segments] at hread

/-- An address is not taken for one of the other kind. -/
theorem readIpv4Addr_ipv6Chars (a : Ipv6Addr) : readIpv4Addr (ipv6Chars a) = none := by
  have hgroups : ∀ gs {rest}, Stops rest → readIpv4Addr (groupsChars true gs ++ rest) = none := by
    intro gs rest hrest
    cases gs with
    | nil => exact readIpv4Addr_of_noDigit hrest.noDigit
    | cons g gs =>
      have hnext := noDigit_groupsChars gs hrest
      rw [groupsChars, if_pos rfl, List.nil_append, List.append_assoc]
      exact readIpv4Addr_eq_none (dot_notMem_groupChars g) (noDigit_ten hnext.1) hnext.2
  unfold ipv6Chars
  dsimp only
  split
  · exact readIpv4Addr_of_noDigit (noDigit_colon _)
  · split
    · rw [List.append_assoc]
      exact hgroups _ (stops_colons _)
    · have hall := hgroups a.segments stops_nil
      rwa [List.append_nil] at hall

/-! ## The characters of an address -/

theorem mem_groupsChars {c : Char} {first : Bool} {gs : List Nat} (h : c ∈ groupsChars first gs) :
    (toDigit 16 c).isSome = true ∨ c = ':' := by
  induction gs generalizing first with
  | nil => cases h
  | cons g gs ih =>
    rw [groupsChars, List.mem_append, List.mem_append] at h
    rcases h with (h | h) | h
    · cases first with
      | true => cases h
      | false => exact Or.inr (List.mem_singleton.mp h)
    · exact Or.inl (isSome_toDigit_of_mem (by omega) (by omega) h)
    · exact ih h

theorem mem_addrChars {c : Char} {a : Ipv4Addr} (h : c ∈ CidrText.addrChars a) :
    (toDigit 16 c).isSome = true ∨ c = '.' := by
  simp only [CidrText.addrChars, List.intercalate_cons_cons, List.intercalate_singleton,
    List.mem_append, List.mem_singleton] at h
  rcases h with (h | rfl) | (h | rfl) | (h | rfl) | h
  case inl.inr | inr.inl.inr | inr.inr.inl.inr => exact Or.inr rfl
  all_goals exact Or.inl (isSome_toDigit_of_mem_digits h)

theorem mem_ipv6Chars {c : Char} {a : Ipv6Addr} (h : c ∈ ipv6Chars a) :
    (toDigit 16 c).isSome = true ∨ c = ':' ∨ c = '.' := by
  have hgroups : ∀ gs, c ∈ groupsChars true gs → (toDigit 16 c).isSome = true ∨ c = ':' ∨ c = '.' :=
    fun gs hc => (mem_groupsChars hc).imp_right Or.inl
  unfold ipv6Chars at h
  dsimp only at h
  split at h
  · rcases List.mem_append.mp h with h | h
    · simp only [List.mem_cons, List.not_mem_nil, or_false] at h
      rcases h with rfl | rfl | rfl | rfl | rfl | rfl | rfl <;> decide
    · exact (mem_addrChars h).imp_right Or.inr
  · split at h
    · rcases List.mem_append.mp h with h | h
      · rcases List.mem_append.mp h with h | h
        · exact hgroups _ h
        · simp only [List.mem_cons, List.not_mem_nil, or_false, or_self] at h
          exact Or.inr (Or.inl h)
      · exact hgroups _ h
    · exact hgroups _ h

end Ipv6Addr
