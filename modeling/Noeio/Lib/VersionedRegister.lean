import Mathlib.Data.List.Basic
import Mathlib.Data.List.Induction
import Mathlib.Tactic.Common

/-!
# A register that keeps the newest version

A register holds at most one value. A write replaces the held value only if its version is
strictly newer, so of two writes with one version the first stays (`keep`). After any
sequence of writes the register holds a newest one of them (`newest_writes`), in fact the first
of the newest (`writes_eq_find?`), and where different writes have different versions, that is
one and the same value for every order and any repetition (`writes_eq_of_mem_iff`).
-/

namespace VersionedRegister

variable {α ν : Type*} [LE ν] {ver : α → ν}

/-- `a` is one of `l` and none of them is newer. -/
def Newest (ver : α → ν) (l : List α) (a : α) : Prop := a ∈ l ∧ ∀ b ∈ l, ver b ≤ ver a

theorem Newest.congr {l l' : List α} (h : ∀ a, a ∈ l ↔ a ∈ l') {a : α} (ha : Newest ver l a) :
    Newest ver l' a :=
  ⟨(h a).mp ha.1, fun b hb => ha.2 b ((h b).mpr hb)⟩

theorem Newest.unique [Std.IsLinearOrder ν] {l : List α}
    (hinj : ∀ a ∈ l, ∀ b ∈ l, ver a = ver b → a = b) {a b : α} (ha : Newest ver l a)
    (hb : Newest ver l b) : a = b :=
  hinj a ha.1 b hb.1 (Std.le_antisymm (hb.2 a ha.1) (ha.2 b hb.1))

variable [DecidableLE ν]

/-- What the register holds after the write `new`, given what it held before. -/
def keep (ver : α → ν) (cur : Option α) (new : α) : α :=
  match cur with
  | some old => if ver new ≤ ver old then old else new
  | none => new

/-- The register after the writes `l`. -/
def writes (ver : α → ν) (cur : Option α) (l : List α) : Option α :=
  l.foldl (fun cur new => some (keep ver cur new)) cur

theorem writes_eq_none {cur : Option α} {l : List α} :
    writes ver cur l = none ↔ cur = none ∧ l = [] := by
  induction l generalizing cur with
  | nil => simp [writes]
  | cons new l ih =>
    have h := @ih (some (keep ver cur new))
    simp only [reduceCtorEq, false_and, iff_false] at h
    simpa [writes] using h

variable [LT ν] [Std.IsLinearOrder ν] [Std.LawfulOrderLT ν]

/-- One write: whatever was newest before, `keep` is newest now. -/
theorem newest_keep (cur : Option α) (new : α) :
    Newest ver (cur.toList ++ [new]) (keep ver cur new) := by
  cases cur with
  | none =>
    refine ⟨List.mem_singleton_self new, ?_⟩
    intro b hb
    rw [List.mem_singleton.mp hb]
    exact Std.le_refl _
  | some old =>
    simp only [Option.toList_some, List.cons_append, List.nil_append, keep]
    split
    · rename_i hle
      refine ⟨List.mem_cons_self, ?_⟩
      simp only [List.mem_cons, List.not_mem_nil, or_false, forall_eq_or_imp, forall_eq]
      exact ⟨Std.le_refl _, hle⟩
    · rename_i hnle
      refine ⟨List.mem_cons_of_mem _ List.mem_cons_self, ?_⟩
      simp only [List.mem_cons, List.not_mem_nil, or_false, forall_eq_or_imp, forall_eq]
      exact ⟨Std.le_of_lt (Std.not_le.mp hnle), Std.le_refl _⟩

theorem newest_writes {cur : Option α} {l : List α} {a : α} (h : writes ver cur l = some a) :
    Newest ver (cur.toList ++ l) a := by
  induction l generalizing cur with
  | nil =>
    obtain rfl : cur = some a := h
    refine ⟨by simp, ?_⟩
    intro b hb
    obtain rfl : b = a := by simpa using hb
    exact Std.le_refl _
  | cons new l ih =>
    obtain ⟨hmem, hmax⟩ := @ih (some (keep ver cur new)) h
    obtain ⟨hkeep, hold⟩ : Newest ver (cur.toList ++ [new]) (keep ver cur new) := newest_keep cur new
    have hle : ver (keep ver cur new) ≤ ver a := hmax _ (by simp)
    constructor
    · rcases List.mem_append.mp hmem with ha | ha
      · obtain rfl : a = keep ver cur new := by simpa using ha
        rcases List.mem_append.mp hkeep with hk | hk
        · exact List.mem_append_left _ hk
        · exact List.mem_append_right _ (List.mem_cons.mpr (Or.inl (List.mem_singleton.mp hk)))
      · exact List.mem_append_right _ (List.mem_cons_of_mem _ ha)
    · intro b hb
      rcases List.mem_append.mp hb with hb | hb
      · exact Std.le_trans (hold b (List.mem_append_left _ hb)) hle
      · rcases List.mem_cons.mp hb with rfl | hb
        · exact Std.le_trans (hold b (List.mem_append_right _ List.mem_cons_self)) hle
        · exact hmax b (List.mem_append_right _ hb)

/-! ## The first of the newest -/

/-- `a` is newest in `l`, and everything before it is older. -/
def FirstNewest (ver : α → ν) (l : List α) (a : α) : Prop :=
  ∃ pre post, l = pre ++ a :: post ∧ (∀ b ∈ pre, ver b < ver a) ∧ ∀ b ∈ post, ver b ≤ ver a

omit [DecidableLE ν] in
theorem FirstNewest.newest {l : List α} {a : α} (h : FirstNewest ver l a) : Newest ver l a := by
  obtain ⟨pre, post, rfl, hpre, hpost⟩ := h
  refine ⟨by simp, ?_⟩
  intro b hb
  rcases List.mem_append.mp hb with hb | hb
  · exact Std.le_of_lt (hpre b hb)
  · rcases List.mem_cons.mp hb with rfl | hb
    · exact Std.le_refl _
    · exact hpost b hb

/-- The first of the newest stays the first of the newest under one more write, or the write is
newer than all before it and takes its place. -/
theorem FirstNewest.keep {l : List α} {a : α} (h : FirstNewest ver l a) (new : α) :
    FirstNewest ver (l ++ [new]) (VersionedRegister.keep ver (some a) new) := by
  simp only [VersionedRegister.keep]
  by_cases hle : ver new ≤ ver a
  · obtain ⟨pre, post, rfl, hpre, hpost⟩ := h
    rw [if_pos hle]
    refine ⟨pre, post ++ [new], by simp, hpre, ?_⟩
    intro b hb
    rcases List.mem_append.mp hb with hb | hb
    · exact hpost b hb
    · exact List.mem_singleton.mp hb ▸ hle
  · rw [if_neg hle]
    refine ⟨l, [], rfl, ?_, fun b hb => absurd hb List.not_mem_nil⟩
    intro b hb
    have hb : ver b ≤ ver a := h.newest.2 b hb
    exact Std.not_le.mp fun hnew => hle (Std.le_trans hnew hb)

/-- The register holds the first of the newest writes. -/
theorem firstNewest_writes {l : List α} {a : α} (h : writes ver none l = some a) :
    FirstNewest ver l a := by
  induction l using List.reverseRecOn generalizing a with
  | nil => cases h
  | append_singleton l new ih =>
    rw [writes, List.foldl_concat, Option.some.injEq] at h
    subst h
    cases hl : writes ver none l with
    | none =>
      obtain ⟨-, rfl⟩ := writes_eq_none.mp hl
      exact ⟨[], [], rfl, by simp, by simp⟩
    | some old =>
      rw [writes] at hl
      rw [hl]
      exact (ih hl).keep new

/-- The register as a search in the list of the writes. -/
theorem writes_eq_find? (l : List α) :
    writes ver none l = l.find? fun a => ∀ b ∈ l, ver b ≤ ver a := by
  cases hl : writes ver none l with
  | none =>
    obtain ⟨-, rfl⟩ := writes_eq_none.mp hl
    rfl
  | some a =>
    have hfirst := firstNewest_writes hl
    obtain ⟨pre, post, heq, hpre, -⟩ := id hfirst
    refine (List.find?_eq_some_iff_append.mpr ⟨?_, pre, post, heq, ?_⟩).symm
    · simpa using hfirst.newest.2
    · intro b hb
      have hnot : ¬ ∀ c ∈ l, ver c ≤ ver b :=
        fun h => Std.not_le.mpr (hpre b hb) (h a hfirst.newest.1)
      simpa using hnot

/-- Where versions tell the writes apart, order and repetition do not matter. -/
theorem writes_eq_of_mem_iff {l l' : List α} (hinj : ∀ a ∈ l, ∀ b ∈ l, ver a = ver b → a = b)
    (h : ∀ a, a ∈ l ↔ a ∈ l') : writes ver none l = writes ver none l' := by
  cases hl : writes ver none l with
  | none =>
    obtain ⟨-, rfl⟩ := writes_eq_none.mp hl
    have hl' : l' = [] := List.eq_nil_iff_forall_not_mem.mpr fun a ha => by simpa using (h a).mpr ha
    exact (writes_eq_none.mpr ⟨rfl, hl'⟩).symm
  | some a =>
    cases hl' : writes ver none l' with
    | none =>
      obtain ⟨-, rfl⟩ := writes_eq_none.mp hl'
      have ha := (newest_writes hl).1
      exact absurd ((h a).mp (by simpa using ha)) List.not_mem_nil
    | some b =>
      have ha : Newest ver l a := newest_writes hl
      have hb : Newest ver l' b := newest_writes hl'
      rw [ha.unique hinj (hb.congr fun c => (h c).symm)]

end VersionedRegister
