import Mathlib.Data.List.Dedup
import Mathlib.Data.List.Sort

/-!
# Sorted tables

A table is a list of entries in the order `le`, each entry once. `ofList` makes one from any
list. Two things come from the order.

* A table is determined by its entries (`Sorted.eq_of_mem_iff`), so what `ofList` makes does
  not depend on the order or the repetitions of what it is given (`ofList_congr`).
* A linear scan returns the least entry that meets its predicate
  (`Sorted.find?_eq_some_iff`).
-/

namespace SortedTable

variable {α : Type*} {le : α → α → Bool}

/-- `le` is a total order. -/
structure IsOrder (le : α → α → Bool) : Prop where
  trans : ∀ {a b c}, le a b = true → le b c = true → le a c = true
  total : ∀ a b, (le a b || le b a) = true
  antisymm : ∀ {a b}, le a b = true → le b a = true → a = b

structure Sorted (le : α → α → Bool) (table : List α) : Prop where
  pairwise : table.Pairwise fun a b => le a b = true
  nodup : table.Nodup

/-- The entries in order, each once. -/
def ofList [DecidableEq α] (le : α → α → Bool) (entries : List α) : List α :=
  (entries.mergeSort le).dedup

theorem IsOrder.refl (h : IsOrder le) (a : α) : le a a = true := by
  have htotal := h.total a a
  rwa [Bool.or_self] at htotal

theorem Sorted.filter {table : List α} (h : Sorted le table) (p : α → Bool) :
    Sorted le (table.filter p) :=
  ⟨h.pairwise.filter p, h.nodup.filter p⟩

theorem Sorted.nil : Sorted le ([] : List α) := ⟨List.Pairwise.nil, List.nodup_nil⟩

/-- A table is determined by its entries. -/
theorem Sorted.eq_of_mem_iff {table table' : List α} (horder : IsOrder le) (h : Sorted le table)
    (h' : Sorted le table') (hmem : ∀ a, a ∈ table ↔ a ∈ table') : table = table' := by
  have hperm : table.Perm table' := (List.perm_ext_iff_of_nodup h.nodup h'.nodup).mpr hmem
  exact hperm.eq_of_pairwise (fun a b _ _ hab hba => horder.antisymm hab hba) h.pairwise h'.pairwise

theorem pairwise_mergeSort (horder : IsOrder le) (entries : List α) :
    (entries.mergeSort le).Pairwise fun a b => le a b = true :=
  @List.pairwise_mergeSort _ le (fun _ _ _ => horder.trans) horder.total entries

section ofList

variable [DecidableEq α]

@[simp] theorem mem_ofList {entries : List α} {a : α} : a ∈ ofList le entries ↔ a ∈ entries := by
  rw [ofList, List.mem_dedup]
  exact (List.mergeSort_perm entries le).mem_iff

theorem sorted_ofList (horder : IsOrder le) (entries : List α) : Sorted le (ofList le entries) := by
  refine ⟨?_, List.nodup_dedup _⟩
  exact (pairwise_mergeSort horder entries).sublist (List.dedup_sublist _)

theorem ofList_congr (horder : IsOrder le) {entries entries' : List α}
    (h : ∀ a, a ∈ entries ↔ a ∈ entries') : ofList le entries = ofList le entries' := by
  refine (sorted_ofList horder entries).eq_of_mem_iff horder (sorted_ofList horder entries') ?_
  intro a
  rw [mem_ofList, mem_ofList]
  exact h a

end ofList

/-- What a scan finds comes before everything else that it could have found. -/
theorem Sorted.le_of_find? {table : List α} (horder : IsOrder le) (h : Sorted le table)
    {p : α → Bool} {a b : α} (ha : table.find? p = some a) (hb : b ∈ table) (hpb : p b = true) :
    le a b = true := by
  obtain ⟨-, before, after, rfl, hbefore⟩ := List.find?_eq_some_iff_append.mp ha
  rcases List.mem_append.mp hb with hb | hb
  · have hnp := hbefore b hb
    rw [hpb] at hnp
    cases hnp
  · rcases List.mem_cons.mp hb with rfl | hb
    · exact horder.refl b
    · have htail := (List.pairwise_append.mp h.pairwise).2.1
      exact (List.pairwise_cons.mp htail).1 b hb

/-- A scan returns the least entry that meets the predicate. -/
theorem Sorted.find?_eq_some_iff {table : List α} (horder : IsOrder le) (h : Sorted le table)
    {p : α → Bool} {a : α} :
    table.find? p = some a ↔ a ∈ table ∧ p a = true ∧ ∀ b ∈ table, p b = true → le a b = true := by
  constructor
  · intro ha
    exact ⟨List.mem_of_find?_eq_some ha, List.find?_some ha, fun b => h.le_of_find? horder ha⟩
  · rintro ⟨hmem, hpa, hleast⟩
    have hsome : (table.find? p).isSome = true := List.find?_isSome.mpr ⟨a, hmem, hpa⟩
    obtain ⟨b, hb⟩ := Option.isSome_iff_exists.mp hsome
    have hba := h.le_of_find? horder hb hmem hpa
    have hab := hleast b (List.mem_of_find?_eq_some hb) (List.find?_some hb)
    rw [hb, horder.antisymm hab hba]

end SortedTable
