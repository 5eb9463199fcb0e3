import Mathlib.Data.List.Nodup

/-!
# Lists with one entry for each key

A list of entries that is searched by a key: `get` is the first entry with the key, `put`
replaces that entry or appends a new one. `put` keeps the keys distinct (`nodup_put`), and of
the other keys it changes nothing (`get_put`). With distinct keys an entry is in the list
exactly if it is what `get` finds (`mem_iff_get`). An entry behind one with its key stays where it
is (`getElem?_put`).

`addOnce` collects values without repeating one.
-/

namespace KeyedList

variable {α κ : Type*} [DecidableEq κ] {key : α → κ}

/-- `*slot = entry` for the first entry with that key, else `push`. -/
def put (key : α → κ) (entry : α) : List α → List α
  | [] => [entry]
  | a :: as => if key a = key entry then entry :: as else a :: put key entry as

def get (key : α → κ) (l : List α) (k : κ) : Option α := l.find? (key · = k)

theorem get_put (entry : α) (l : List α) (k : κ) :
    get key (put key entry l) k = if key entry = k then some entry else get key l k := by
  unfold get
  induction l with
  | nil => by_cases h : key entry = k <;> simp [put, h]
  | cons a as ih =>
    rw [put]
    by_cases ha : key a = key entry
    · rw [if_pos ha, List.find?_cons, List.find?_cons, ha]
      by_cases hk : key entry = k <;> simp [hk]
    · rw [if_neg ha, List.find?_cons, List.find?_cons, ih]
      by_cases hk : key entry = k
      · have hak : key a ≠ k := fun h => ha (h.trans hk.symm)
        simp [hk, hak]
      · simp [hk]

/-- To put back what is there changes nothing. -/
theorem put_of_get {l : List α} {a : α} (h : get key l (key a) = some a) : put key a l = l := by
  induction l with
  | nil => cases h
  | cons b bs ih =>
    rw [put]
    by_cases hb : key b = key a
    · have hba : b = a := by simpa [get, hb] using h
      rw [if_pos hb, hba]
    · have hbs : get key bs (key a) = some a := by simpa [get, hb] using h
      rw [if_neg hb, ih hbs]

theorem put_of_get_eq_none {entry : α} {l : List α} (h : get key l (key entry) = none) :
    put key entry l = l ++ [entry] := by
  induction l with
  | nil => rfl
  | cons b bs ih =>
    have hboth : key b ≠ key entry ∧ get key bs (key entry) = none := by simpa [get] using h
    rw [put, if_neg hboth.1, ih hboth.2]
    rfl

theorem map_put (entry : α) (l : List α) :
    (put key entry l).map key =
      if key entry ∈ l.map key then l.map key else l.map key ++ [key entry] := by
  induction l with
  | nil => simp [put]
  | cons a as ih =>
    rw [put]
    by_cases ha : key a = key entry
    · simp [ha]
    · rw [if_neg ha, List.map_cons, ih]
      by_cases hmem : key entry ∈ as.map key
      · simp [hmem]
      · simp [hmem, Ne.symm ha]

theorem nodup_put {entry : α} {l : List α} (h : (l.map key).Nodup) :
    ((put key entry l).map key).Nodup := by
  rw [map_put]
  split
  · exact h
  · rename_i hnew
    refine List.nodup_append'.mpr ⟨h, List.nodup_singleton _, ?_⟩
    intro k hk hentry
    rw [List.mem_singleton.mp hentry] at hk
    exact hnew hk

/-- An entry that has another key, or comes after one with its key, is not replaced. -/
theorem getElem?_put {entry a : α} {l : List α} {i : ℕ} (hi : l[i]? = some a)
    (h : key a ≠ key entry ∨ key a ∈ (l.take i).map key) : (put key entry l)[i]? = some a := by
  induction l generalizing i with
  | nil => cases hi
  | cons b bs ih =>
    rw [put]
    cases i with
    | zero =>
      obtain rfl : b = a := Option.some.inj hi
      have hne : key b ≠ key entry := by simpa using h
      rw [if_neg hne]
      rfl
    | succ i =>
      have hi : bs[i]? = some a := hi
      by_cases hb : key b = key entry
      · rw [if_pos hb]
        exact hi
      · rw [if_neg hb]
        refine ih hi ?_
        rw [List.take_succ_cons, List.map_cons, List.mem_cons] at h
        rcases h with hne | heq | hmem
        · exact Or.inl hne
        · exact Or.inl (heq ▸ hb)
        · exact Or.inr hmem

theorem mem_of_mem_put {entry a : α} {l : List α} (h : a ∈ put key entry l) : a = entry ∨ a ∈ l := by
  induction l with
  | nil => exact Or.inl (List.mem_singleton.mp h)
  | cons b bs ih =>
    rw [put] at h
    split at h
    · exact (List.mem_cons.mp h).imp_right (List.mem_cons_of_mem b)
    · rcases List.mem_cons.mp h with rfl | h
      · exact Or.inr List.mem_cons_self
      · exact (ih h).imp_right (List.mem_cons_of_mem b)

/-- What the entries are numbered with stays distinct when the new entry has a number of its own. -/
theorem nodup_map_put {β : Type*} {f : α → β} {entry : α} {l : List α} (h : (l.map f).Nodup)
    (hnew : f entry ∉ l.map f) : ((put key entry l).map f).Nodup := by
  induction l with
  | nil => exact List.nodup_singleton _
  | cons b bs ih =>
    obtain ⟨hb, hbs⟩ := List.nodup_cons.mp h
    rw [List.map_cons, List.mem_cons, not_or] at hnew
    rw [put]
    split
    · exact List.nodup_cons.mpr ⟨hnew.2, hbs⟩
    · refine List.nodup_cons.mpr ⟨fun hmem => ?_, ih hbs hnew.2⟩
      obtain ⟨a, ha, heq⟩ := List.mem_map.mp hmem
      rcases mem_of_mem_put ha with rfl | ha
      · exact hnew.1 heq
      · exact hb (List.mem_map.mpr ⟨a, ha, heq⟩)

theorem get_filter (p : κ → Bool) (l : List α) (k : κ) :
    get key (l.filter fun a => p (key a)) k = if p k then get key l k else none := by
  unfold get
  rw [List.find?_filter]
  by_cases hp : p k = true
  · rw [if_pos hp]
    congr 1
    funext a
    by_cases ha : key a = k
    · simp [ha, hp]
    · simp [ha]
  · rw [if_neg hp, List.find?_eq_none]
    intro a _
    simp only [decide_eq_true_eq, Bool.decide_and, Bool.and_eq_true, not_and]
    rintro hpa rfl
    exact hp hpa

theorem get_eq_none {l : List α} {k : κ} : get key l k = none ↔ k ∉ l.map key := by
  simp [get]

theorem key_of_get {l : List α} {k : κ} {a : α} (h : get key l k = some a) : key a = k := by
  simpa using List.find?_some h

theorem mem_of_get {l : List α} {k : κ} {a : α} (h : get key l k = some a) : a ∈ l :=
  List.mem_of_find?_eq_some h

theorem mem_iff_get {l : List α} (hnodup : (l.map key).Nodup) {a : α} :
    a ∈ l ↔ get key l (key a) = some a := by
  refine ⟨fun ha => ?_, mem_of_get⟩
  cases hget : get key l (key a) with
  | none => exact absurd (List.mem_map_of_mem ha) (get_eq_none.mp hget)
  | some b =>
    rw [List.inj_on_of_nodup_map hnodup (mem_of_get hget) ha (key_of_get hget)]

/-! ## Collecting without repetition -/

def addOnce (acc : List κ) (k : κ) : List κ := if k ∈ acc then acc else acc ++ [k]

theorem nodup_addOnce {acc : List κ} (h : acc.Nodup) (k : κ) : (addOnce acc k).Nodup := by
  unfold addOnce
  split
  · exact h
  · rename_i hk
    refine List.nodup_append'.mpr ⟨h, List.nodup_singleton k, ?_⟩
    intro a ha hak
    exact hk (List.mem_singleton.mp hak ▸ ha)

theorem mem_foldl_addOnce {l acc : List κ} {k : κ} : k ∈ l.foldl addOnce acc ↔ k ∈ acc ∨ k ∈ l := by
  induction l generalizing acc with
  | nil => simp
  | cons a as ih =>
    have hone : k ∈ addOnce acc a ↔ k ∈ acc ∨ k = a := by
      unfold addOnce
      by_cases ha : a ∈ acc
      · rw [if_pos ha]
        exact ⟨Or.inl, fun h => h.elim id fun heq => heq ▸ ha⟩
      · rw [if_neg ha, List.mem_append, List.mem_singleton]
    rw [List.foldl_cons, ih, hone, List.mem_cons, or_assoc]

/-- What was collected first stays in front. -/
theorem prefix_foldl_addOnce (l acc : List κ) : acc <+: l.foldl addOnce acc := by
  induction l generalizing acc with
  | nil => exact List.prefix_refl acc
  | cons a as ih =>
    refine List.IsPrefix.trans ?_ (ih (addOnce acc a))
    unfold addOnce
    split
    · exact List.prefix_refl acc
    · exact List.prefix_append acc [a]

theorem nodup_foldl_addOnce {l acc : List κ} (h : acc.Nodup) : (l.foldl addOnce acc).Nodup := by
  induction l generalizing acc with
  | nil => exact h
  | cons a as ih => exact ih (nodup_addOnce h a)

end KeyedList
