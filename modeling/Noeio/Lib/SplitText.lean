import Noeio.Lib.CidrText

/-!
# Splitting text and reading numbers

`splitn` cuts a text at the first occurrences of a pattern, into a given number of pieces at
most, and the last piece is the rest. What was joined with a separator that is in none of the
pieces is cut at the same places (`splitn_intercalate`). `strSplit` and `strSplitn` do so with
strings.

`splitAt` cuts a text at a byte, which must be the start of a character.

`parseUnsigned` reads a decimal number below a bound, digit by digit. A leading `+` is allowed
and a leading zero is. A number is read as it was written (`parseUnsigned_repr`), and what is read
is a numeral (`parseUnsigned_eq_ok_iff`).
-/

namespace Text

/-! ## Pieces -/

/-- The text before the first occurrence of the pattern, and the text after it. -/
def breakOn (pat : List Char) : List Char → Option (List Char × List Char)
  | [] => if pat = [] then some ([], []) else none
  | c :: cs =>
    if pat.isPrefixOf (c :: cs) then some ([], (c :: cs).drop pat.length)
    else (breakOn pat cs).map fun (before, after) => (c :: before, after)

def splitn (pat : List Char) : Nat → List Char → List (List Char)
  | 0, _ => []
  | 1, cs => [cs]
  | n + 2, cs =>
    match breakOn pat cs with
    | some (before, after) => before :: splitn pat (n + 1) after
    | none => [cs]

theorem breakOn_append {sep : Char} {before : List Char} (h : sep ∉ before) (after : List Char) :
    breakOn [sep] (before ++ sep :: after) = some (before, after) := by
  induction before with
  | nil => simp [breakOn]
  | cons c before ih =>
    have hc : sep ≠ c := fun hc => h (hc ▸ List.mem_cons_self)
    have hbefore : sep ∉ before := fun hmem => h (List.mem_cons_of_mem c hmem)
    simp [breakOn, hc, ih hbefore]

theorem breakOn_of_notMem {sep : Char} {cs : List Char} (h : sep ∉ cs) :
    breakOn [sep] cs = none := by
  induction cs with
  | nil => simp [breakOn]
  | cons c cs ih =>
    have hc : sep ≠ c := fun hc => h (hc ▸ List.mem_cons_self)
    have hcs : sep ∉ cs := fun hmem => h (List.mem_cons_of_mem c hmem)
    simp [breakOn, hc, ih hcs]

/-- Joined pieces are cut where they were joined. -/
theorem splitn_intercalate {sep : Char} {pieces : List (List Char)} (hne : pieces ≠ [])
    (h : ∀ piece ∈ pieces, sep ∉ piece) {n : Nat} (hn : pieces.length ≤ n) :
    splitn [sep] n ([sep].intercalate pieces) = pieces := by
  induction pieces generalizing n with
  | nil => exact absurd rfl hne
  | cons piece pieces ih =>
    have hpiece := h piece List.mem_cons_self
    cases pieces with
    | nil =>
      rw [List.intercalate_singleton]
      match n, hn with
      | 1, _ => rfl
      | n + 2, _ => rw [splitn, breakOn_of_notMem hpiece]
    | cons second pieces =>
      rw [List.length_cons, List.length_cons] at hn
      obtain ⟨k, rfl⟩ : ∃ k, n = k + 2 := ⟨n - 2, by omega⟩
      have hrest : splitn [sep] (k + 1) ([sep].intercalate (second :: pieces)) =
          second :: pieces := by
        refine ih (by simp) (fun p hp => h p (List.mem_cons_of_mem piece hp)) ?_
        rw [List.length_cons]
        omega
      rw [List.intercalate_cons_cons, List.append_assoc, List.singleton_append, splitn,
        breakOn_append hpiece]
      simp only [hrest]

theorem mem_intercalate {sep c : Char} {pieces : List (List Char)}
    (h : c ∈ [sep].intercalate pieces) : c = sep ∨ ∃ piece ∈ pieces, c ∈ piece := by
  induction pieces with
  | nil => simp at h
  | cons piece pieces ih =>
    cases pieces with
    | nil => exact Or.inr ⟨piece, List.mem_cons_self, by simpa using h⟩
    | cons second pieces =>
      rw [List.intercalate_cons_cons, List.mem_append, List.mem_append] at h
      rcases h with (h | h) | h
      · exact Or.inr ⟨piece, List.mem_cons_self, h⟩
      · exact Or.inl (List.mem_singleton.mp h)
      · exact (ih h).imp_right fun ⟨p, hp, hc⟩ => ⟨p, List.mem_cons_of_mem piece hp, hc⟩

/-! ## Pieces of strings -/

def strSplit (sep : Char) (s : String) : List String := (s.toList.splitOn sep).map String.ofList

def strSplitn (n : Nat) (pat s : String) : List String :=
  (splitn pat.toList n s.toList).map String.ofList

theorem ofList_toList_map (pieces : List String) :
    (pieces.map String.toList).map String.ofList = pieces := by
  simp [List.map_map, Function.comp_def]

theorem notMem_of_mem_map_toList {sep : Char} {pieces : List String}
    (h : ∀ piece ∈ pieces, sep ∉ piece.toList) : ∀ cs ∈ pieces.map String.toList, sep ∉ cs := by
  intro cs hcs
  obtain ⟨piece, hpiece, rfl⟩ := List.mem_map.mp hcs
  exact h piece hpiece

theorem mem_strIntercalate {sep c : Char} {pieces : List String}
    (h : c ∈ ((String.singleton sep).intercalate pieces).toList) :
    c = sep ∨ ∃ piece ∈ pieces, c ∈ piece.toList := by
  rw [String.toList_intercalate, String.toList_singleton] at h
  refine (mem_intercalate h).imp_right fun ⟨cs, hcs, hc⟩ => ?_
  obtain ⟨piece, hpiece, rfl⟩ := List.mem_map.mp hcs
  exact ⟨piece, hpiece, hc⟩

theorem strSplit_intercalate {sep : Char} {pieces : List String} (hne : pieces ≠ [])
    (h : ∀ piece ∈ pieces, sep ∉ piece.toList) :
    strSplit sep ((String.singleton sep).intercalate pieces) = pieces := by
  rw [strSplit, String.toList_intercalate, String.toList_singleton,
    List.splitOn_intercalate sep (notMem_of_mem_map_toList h) (by simpa using hne),
    ofList_toList_map]

theorem strSplitn_intercalate {sep : Char} {pieces : List String} (hne : pieces ≠ [])
    (h : ∀ piece ∈ pieces, sep ∉ piece.toList) {n : Nat} (hn : pieces.length ≤ n) :
    strSplitn n (String.singleton sep) ((String.singleton sep).intercalate pieces) = pieces := by
  rw [strSplitn, String.toList_intercalate, String.toList_singleton,
    splitn_intercalate (by simpa using hne) (notMem_of_mem_map_toList h) (by simpa using hn),
    ofList_toList_map]

/-! ## Cutting at a byte -/

def byteSize : List Char → Nat
  | [] => 0
  | c :: cs => c.utf8Size + byteSize cs

def splitAt : List Char → Nat → Option (List Char × List Char)
  | cs, 0 => some ([], cs)
  | [], _ + 1 => none
  | c :: cs, mid + 1 =>
    if c.utf8Size ≤ mid + 1 then
      (splitAt cs (mid + 1 - c.utf8Size)).map fun (before, after) => (c :: before, after)
    else none

def strSplitAt (s : String) (mid : Nat) : Option (String × String) :=
  (splitAt s.toList mid).map fun (before, after) => (String.ofList before, String.ofList after)

theorem utf8ByteSize_ofList (cs : List Char) : (String.ofList cs).utf8ByteSize = byteSize cs := by
  induction cs with
  | nil => rfl
  | cons c cs ih =>
    rw [String.ofList_cons, String.utf8ByteSize_append, String.utf8ByteSize_singleton, ih]
    rfl

theorem utf8ByteSize_eq (s : String) : s.utf8ByteSize = byteSize s.toList := by
  rw [← utf8ByteSize_ofList, String.ofList_toList]

theorem byteSize_append (cs ds : List Char) : byteSize (cs ++ ds) = byteSize cs + byteSize ds := by
  induction cs with
  | nil => simp [byteSize]
  | cons c cs ih => rw [List.cons_append, byteSize, ih, byteSize, Nat.add_assoc]

theorem splitAt_cons {c : Char} {mid : Nat} (hmid : c.utf8Size ≤ mid) (cs : List Char) :
    splitAt (c :: cs) mid =
      (splitAt cs (mid - c.utf8Size)).map fun (before, after) => (c :: before, after) := by
  have hpos := c.utf8Size_pos
  obtain ⟨k, rfl⟩ : ∃ k, mid = k + 1 := ⟨mid - 1, by omega⟩
  rw [splitAt, if_pos hmid]

theorem splitAt_append (before after : List Char) (k : Nat) :
    splitAt (before ++ after) (byteSize before + k) =
      (splitAt after k).map fun (more, rest) => (before ++ more, rest) := by
  induction before with
  | nil => simp [byteSize]
  | cons c before ih =>
    have hsize : byteSize (c :: before) = c.utf8Size + byteSize before := rfl
    have hmid : byteSize (c :: before) + k - c.utf8Size = byteSize before + k := by omega
    rw [List.cons_append, splitAt_cons (by omega), hmid, ih, Option.map_map]
    rfl

/-- A cut before the last byte is one before the last character, if that is a single byte, and
else it is inside the character. -/
theorem strSplitAt_last {s : String} {cs : List Char} {c : Char} (h : s.toList = cs ++ [c]) :
    strSplitAt s (s.utf8ByteSize - 1) =
      if c.toNat < 128 then some (String.ofList cs, String.ofList [c]) else none := by
  have hpos := c.utf8Size_pos
  have hmid : s.utf8ByteSize - 1 = byteSize cs + (c.utf8Size - 1) := by
    have hsize : s.utf8ByteSize = byteSize cs + c.utf8Size := by
      rw [utf8ByteSize_eq, h, byteSize_append]
      rfl
    omega
  have hascii : c.toNat < 128 ↔ c.utf8Size = 1 := by
    rw [Char.utf8Size_eq_one_iff, UInt32.le_iff_toNat_le]
    exact Nat.lt_succ_iff
  rw [strSplitAt, h, hmid, splitAt_append]
  split
  · rename_i hc
    rw [hascii.mp hc, splitAt]
    simp
  · rename_i hc
    rw [hascii] at hc
    obtain ⟨k, hk⟩ : ∃ k, c.utf8Size - 1 = k + 1 := ⟨c.utf8Size - 2, by omega⟩
    rw [hk, splitAt, if_neg (by omega)]
    rfl

/-! ## Numbers -/

/-- The digits behind a leading `+`, which does not stand alone. -/
def unsigned : List Char → List Char
  | '+' :: c :: cs => c :: cs
  | cs => cs

/-- The digits are read into `value`. -/
def readDigits (bound : Nat) : Nat → List Char → Except String Nat
  | value, [] => .ok value
  | value, c :: cs =>
    if !c.isDigit then .error "invalid digit found in string"
    else
      let value := 10 * value + (c.toNat - '0'.toNat)
      if value < bound then readDigits bound value cs
      else .error "number too large to fit in target type"

def parseUnsigned (bound : Nat) (s : String) : Except String Nat :=
  match s.toList with
  | [] => .error "cannot parse integer from empty string"
  | cs => readDigits bound 0 (unsigned cs)

theorem le_ofDigitChars (value : Nat) (cs : List Char) : value ≤ Nat.ofDigitChars 10 cs value := by
  induction cs generalizing value with
  | nil => exact Nat.le_of_eq Nat.ofDigitChars_nil.symm
  | cons c cs ih =>
    rw [Nat.ofDigitChars_cons]
    have hstep := ih (10 * value + (c.toNat - '0'.toNat))
    omega

theorem readDigits_eq {bound value : Nat} {cs : List Char} (hdigits : ∀ c ∈ cs, c.isDigit = true)
    (hbound : Nat.ofDigitChars 10 cs value < bound) :
    readDigits bound value cs = .ok (Nat.ofDigitChars 10 cs value) := by
  induction cs generalizing value with
  | nil => rw [readDigits, Nat.ofDigitChars_nil]
  | cons c cs ih =>
    rw [Nat.ofDigitChars_cons] at hbound ⊢
    have hvalue := Nat.lt_of_le_of_lt (le_ofDigitChars _ cs) hbound
    rw [readDigits, hdigits c List.mem_cons_self]
    simp only [Bool.not_true, Bool.false_eq_true, if_false, if_pos hvalue]
    exact ih (fun d hd => hdigits d (List.mem_cons_of_mem c hd)) hbound

/-- A numeral of the number, with leading zeros perhaps. -/
def Decimal (cs : List Char) (n : Nat) : Prop :=
  cs ≠ [] ∧ (∀ c ∈ cs, c.isDigit = true) ∧ Nat.ofDigitChars 10 cs 0 = n

/-- A numeral of the number, with a leading `+` perhaps. -/
def Unsigned (cs : List Char) (n : Nat) : Prop :=
  Decimal cs n ∨ ∃ value, cs = '+' :: value ∧ Decimal value n

theorem readDigits_eq_ok_iff {bound value n : Nat} {cs : List Char} (hvalue : value < bound) :
    readDigits bound value cs = .ok n ↔
      (∀ c ∈ cs, c.isDigit = true) ∧ Nat.ofDigitChars 10 cs value = n ∧ n < bound := by
  constructor
  · intro h
    induction cs generalizing value with
    | nil =>
      rw [readDigits, Except.ok.injEq] at h
      subst h
      exact ⟨fun c hc => absurd hc List.not_mem_nil, Nat.ofDigitChars_nil, hvalue⟩
    | cons c cs ih =>
      rw [readDigits] at h
      split at h
      · cases h
      rename_i hdigit
      simp only at h
      split at h
      · rename_i hnext
        obtain ⟨hdigits, hread, hbound⟩ := ih hnext h
        rw [Bool.not_eq_true', Bool.not_eq_false] at hdigit
        refine ⟨List.forall_mem_cons.mpr ⟨hdigit, hdigits⟩, ?_, hbound⟩
        rw [Nat.ofDigitChars_cons]
        exact hread
      · cases h
  · rintro ⟨hdigits, rfl, hbound⟩
    exact readDigits_eq hdigits hbound

theorem not_decimal_of_mem {cs : List Char} {c : Char} (hc : c ∈ cs) (hdigit : c.isDigit = false)
    (n : Nat) : ¬ Decimal cs n := by
  intro h
  rw [h.2.1 c hc] at hdigit
  cases hdigit

/-- The numbers that are read are the numerals below the bound. -/
theorem parseUnsigned_eq_ok_iff {bound n : Nat} (hbound : 0 < bound) {s : String} :
    parseUnsigned bound s = .ok n ↔ Unsigned s.toList n ∧ n < bound := by
  have hread : ∀ cs, cs ≠ [] → (readDigits bound 0 cs = .ok n ↔ Decimal cs n ∧ n < bound) := by
    intro cs hne
    rw [readDigits_eq_ok_iff hbound, Decimal, and_iff_right hne, and_assoc]
  unfold parseUnsigned Unsigned
  generalize s.toList = cs
  have hplus : ∀ value, ¬ Decimal ('+' :: value) n :=
    fun value => not_decimal_of_mem List.mem_cons_self (by decide) n
  cases cs with
  | nil => simp [Decimal]
  | cons c cs =>
    by_cases hc : c = '+'
    · subst hc
      cases cs with
      | nil =>
        have hunsigned : unsigned ['+'] = ['+'] := rfl
        simp only [hunsigned, hread _ (List.cons_ne_nil _ _), List.cons.injEq, true_and,
          exists_eq_left']
        simp [Decimal]
      | cons d rest =>
        have hunsigned : unsigned ('+' :: d :: rest) = d :: rest := rfl
        simp only [hunsigned, hread _ (List.cons_ne_nil _ _), List.cons.injEq, true_and,
          exists_eq_left', hplus, false_or]
    · have hunsigned : unsigned (c :: cs) = c :: cs := by
        unfold unsigned
        split
        · rename_i heq
          cases heq
          exact absurd rfl hc
        · rfl
      simp only [hunsigned, hread _ (List.cons_ne_nil _ _), List.cons.injEq, hc, false_and,
        exists_false, or_false]

/-- A text is the numeral of one number. -/
theorem Unsigned.unique {cs : List Char} {n m : Nat} (hn : Unsigned cs n) (hm : Unsigned cs m) :
    n = m := by
  have hbound : 0 < max n m + 1 := by omega
  have hs : (String.ofList cs).toList = cs := String.toList_ofList
  have hreadn : parseUnsigned (max n m + 1) (String.ofList cs) = .ok n :=
    (parseUnsigned_eq_ok_iff hbound).mpr ⟨hs.symm ▸ hn, by omega⟩
  have hreadm : parseUnsigned (max n m + 1) (String.ofList cs) = .ok m :=
    (parseUnsigned_eq_ok_iff hbound).mpr ⟨hs.symm ▸ hm, by omega⟩
  rw [hreadn] at hreadm
  exact Except.ok.inj hreadm

theorem isDigit_of_mem_digits {n : Nat} {c : Char} (h : c ∈ digits n) : c.isDigit = true :=
  Nat.isDigit_of_mem_toDigits (by omega) (by omega) h

theorem unsigned_digits (n : Nat) : unsigned (digits n) = digits n := by
  unfold unsigned
  split
  · rename_i c cs heq
    have hplus : '+' ∈ digits n := heq ▸ List.mem_cons_self
    exact absurd (isDigit_of_mem_digits hplus) (by decide)
  · rfl

/-- A number below the bound is read as it was written. -/
theorem parseUnsigned_digits {bound n : Nat} (h : n < bound) {s : String}
    (hs : s.toList = digits n) : parseUnsigned bound s = .ok n := by
  have hvalue : Nat.ofDigitChars 10 (digits n) 0 = n := Nat.ofDigitChars_ten_toDigits
  have hread : readDigits bound 0 (digits n) = .ok n := by
    rw [readDigits_eq (fun c hc => isDigit_of_mem_digits hc) (by rw [hvalue]; exact h), hvalue]
  unfold parseUnsigned
  rw [hs]
  split
  · rename_i heq
    exact absurd heq Nat.toDigits_ne_nil
  · rw [unsigned_digits, hread]

theorem parseUnsigned_repr {bound n : Nat} (h : n < bound) : parseUnsigned bound n.repr = .ok n :=
  parseUnsigned_digits h Nat.toList_repr

end Text
