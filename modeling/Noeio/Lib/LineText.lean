import Noeio.Lib.SplitText

/-!
# Texts of lines

`lines` cuts a text into its lines as `str::lines` does: at line feeds, without the carriage
return before one, and with no empty line after the last one. What was written line by line is
read line by line (`strLines_join`).

`OneWord` says that blocks are written without white space, so that they can be one field of a
line; the form `a.b.c.d/n` is (`dotted_oneWord`).
-/

namespace Text

/-! ## Lines -/

def stripCarriageReturn (line : List Char) : List Char :=
  if line.getLast? = some '\r' then line.dropLast else line

def lines (cs : List Char) : List (List Char) :=
  let pieces := cs.splitOn '\n'
  pieces.dropLast.map stripCarriageReturn ++ (pieces.getLast?.filter (· ≠ [])).toList

def strLines (s : String) : List String := (lines s.toList).map String.ofList

/-- The text before the first separator, and the text after it. -/
def strSplitOnce (sep : Char) (s : String) : Option (String × String) :=
  (breakOn [sep] s.toList).map fun (before, after) => (String.ofList before, String.ofList after)

theorem flatMap_line_eq_intercalate (ls : List (List Char)) :
    ls.flatMap (· ++ ['\n']) = ['\n'].intercalate (ls ++ [[]]) := by
  induction ls with
  | nil => rfl
  | cons l ls ih =>
    rw [List.flatMap_cons, ih]
    cases ls with
    | nil => simp
    | cons l' ls => simp [List.intercalate_cons_cons]

theorem lines_flatMap {ls : List (List Char)} (hfeed : ∀ l ∈ ls, '\n' ∉ l)
    (hreturn : ∀ l ∈ ls, '\r' ∉ l) : lines (ls.flatMap (· ++ ['\n'])) = ls := by
  have hpieces : ∀ l ∈ ls ++ [[]], '\n' ∉ l := by
    intro l hl
    rcases List.mem_append.mp hl with hl | hl
    · exact hfeed l hl
    · rw [List.mem_singleton.mp hl]
      exact List.not_mem_nil
  have hstrip : ls.map stripCarriageReturn = ls := by
    have hline : ∀ l ∈ ls, stripCarriageReturn l = id l := by
      intro l hl
      apply if_neg
      intro hlast
      exact hreturn l hl (List.mem_of_getLast? hlast)
    rw [List.map_congr_left hline, List.map_id]
  rw [lines, flatMap_line_eq_intercalate, List.splitOn_intercalate '\n' hpieces (by simp)]
  simp [hstrip]

theorem strLines_join {ls : List String} (hfeed : ∀ l ∈ ls, '\n' ∉ l.toList)
    (hreturn : ∀ l ∈ ls, '\r' ∉ l.toList) : strLines (String.join (ls.map (· ++ "\n"))) = ls := by
  have htext : (String.join (ls.map (· ++ "\n"))).toList =
      (ls.map String.toList).flatMap (· ++ ['\n']) := by
    simp [String.toList_join, List.flatMap_map]
  rw [strLines, htext, lines_flatMap, ofList_toList_map]
  · exact notMem_of_mem_map_toList hfeed
  · exact notMem_of_mem_map_toList hreturn

theorem strSplitOnce_append {sep : Char} {before : String} (h : sep ∉ before.toList)
    (after : String) :
    strSplitOnce sep (before ++ String.singleton sep ++ after) = some (before, after) := by
  have htext : (before ++ String.singleton sep ++ after).toList =
      before.toList ++ sep :: after.toList := by
    simp
  rw [strSplitOnce, htext, breakOn_append h]
  simp

/-! ## White space at the ends -/

theorem isWhitespace_of_isDigit {c : Char} (h : c.isDigit = true) : isWhitespace c = false := by
  have hrange : 48 ≤ c.toNat ∧ c.toNat ≤ 57 := Char.isDigit_iff_toNat.mp h
  simp only [isWhitespace, Bool.or_eq_false_iff, Bool.and_eq_false_imp, decide_eq_true_eq,
    decide_eq_false_iff_not, beq_eq_false_iff_ne]
  omega

theorem trim_eq_self {s : String} (hhead : ∀ c ∈ s.toList.head?, isWhitespace c = false)
    (hlast : ∀ c ∈ s.toList.getLast?, isWhitespace c = false) : trim s = s := by
  have hdrop : s.toList.dropWhile isWhitespace = s.toList := by
    cases hs : s.toList with
    | nil => rfl
    | cons c cs => exact List.dropWhile_cons_of_neg (by simpa [hs] using hhead)
  have hrdrop : s.toList.rdropWhile isWhitespace = s.toList := by
    apply List.rdropWhile_eq_self_iff.mpr
    intro hne
    simpa using hlast _ (List.getLast?_eq_some_getLast hne)
  rw [trim, hdrop, hrdrop, String.ofList_toList]

end Text

namespace CidrText

open Text

/-- Blocks are written as one word. -/
structure OneWord (cidr : CidrText) : Prop where
  ne_empty : ∀ c, cidr.display c ≠ ""
  not_whitespace : ∀ c, ∀ ch ∈ (cidr.display c).toList, isWhitespace ch = false

theorem dotted_oneWord : dotted.OneWord where
  ne_empty c := by
    intro h
    have hchars : cidrChars c = [] := by simpa [dotted] using h
    simp [cidrChars, List.intercalate_cons_cons] at hchars
  not_whitespace c ch hch := by
    have hdigits : ∀ n, ch ∈ digits n → isWhitespace ch = false :=
      fun n h => isWhitespace_of_isDigit (isDigit_of_mem_digits h)
    simp only [dotted, String.toList_ofList, cidrChars, addrChars, List.intercalate_cons_cons,
      List.intercalate_singleton, List.mem_append, List.mem_singleton] at hch
    rcases hch with (((h | rfl) | (h | rfl) | (h | rfl) | h) | rfl) | h
    case inl.inr | inl.inl.inl.inr | inl.inl.inr.inl.inr | inl.inl.inr.inr.inl.inr => decide
    all_goals exact hdigits _ h

end CidrText
