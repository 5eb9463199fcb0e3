import Mathlib.Data.List.AList
import Mathlib.Tactic.Common

/-!
# A store with a secondary index

Values of type `V` are stored under keys of type `K`; each value has an identity `idOf v`,
and an index takes an identity back to a key. The two maps are kept by hand: `put` stores a
value, drops the index entry of the value it displaces and points the new identity at the
key; `remove` drops the value and the index entry of its identity. Nothing stops two values
from having one identity, so the index may lose track of a value.

* `Sound`: what the index answers is right. Every operation keeps it, whatever the
  identities (`Sound.put`, `Sound.remove`).
* `Resolved i`: no value of identity `i` is out of reach. Removal by identity removes all
  values of that identity exactly when this held before (`removeById_all_iff`).
* `Exact`: the index is the inverse of the store. It is kept as long as no identity is put
  under two keys (`Exact.put`).
-/

structure IndexedStore (K I V : Type*) where
  values : AList (fun _ : K => V)
  index : AList (fun _ : I => K)

namespace IndexedStore

variable {K I V : Type*} [DecidableEq K] [DecidableEq I] {idOf : V → I}

def empty : IndexedStore K I V := ⟨∅, ∅⟩

def get (s : IndexedStore K I V) (k : K) : Option V := s.values.lookup k

def getById (s : IndexedStore K I V) (i : I) : Option V := (s.index.lookup i).bind s.get

def put (idOf : V → I) (s : IndexedStore K I V) (k : K) (v : V) : IndexedStore K I V where
  values := s.values.insert k v
  index :=
    let kept := match s.get k with
      | some old => if idOf old ≠ idOf v then s.index.erase (idOf old) else s.index
      | none => s.index
    kept.insert (idOf v) k

def remove (idOf : V → I) (s : IndexedStore K I V) (k : K) : IndexedStore K I V :=
  match s.get k with
  | some v => ⟨s.values.erase k, s.index.erase (idOf v)⟩
  | none => s

def removeById (idOf : V → I) (s : IndexedStore K I V) (i : I) : IndexedStore K I V :=
  match s.index.lookup i with
  | some k => s.remove idOf k
  | none => s

/-- What the index answers is a key under which a value of that identity is stored. -/
def Sound (idOf : V → I) (s : IndexedStore K I V) : Prop :=
  ∀ i k, s.index.lookup i = some k → ∃ v, s.get k = some v ∧ idOf v = i

/-- The index knows of every value of the identity `i`. -/
def Resolved (idOf : V → I) (s : IndexedStore K I V) (i : I) : Prop :=
  ∀ k v, s.get k = some v → idOf v = i → s.index.lookup i = some k

/-- The index is the inverse of the store. -/
def Exact (idOf : V → I) (s : IndexedStore K I V) : Prop :=
  Sound idOf s ∧ ∀ i, Resolved idOf s i

/-! ## The values -/

omit [DecidableEq I] in
@[simp] theorem get_empty (k : K) : (empty : IndexedStore K I V).get k = none := rfl

theorem get_put (s : IndexedStore K I V) (k j : K) (v : V) :
    (s.put idOf k v).get j = if j = k then some v else s.get j := by
  by_cases h : j = k
  · subst h
    simp [get, put]
  · simp [get, put, h, AList.lookup_insert_ne h]

theorem get_remove (s : IndexedStore K I V) (k j : K) :
    (s.remove idOf k).get j = if j = k then none else s.get j := by
  unfold remove
  cases hk : s.get k with
  | none =>
    by_cases h : j = k
    · subst h
      simp [hk]
    · simp [h]
  | some v =>
    by_cases h : j = k
    · subst h
      simp [get]
    · simp [get, h, AList.lookup_erase_ne h]

/-- A property of everything stored. -/
def All (Φ : K → V → Prop) (s : IndexedStore K I V) : Prop := ∀ k v, s.get k = some v → Φ k v

theorem All.put {Φ : K → V → Prop} {s : IndexedStore K I V} (h : All Φ s) {k : K} {v : V}
    (hv : Φ k v) : All Φ (s.put idOf k v) := by
  intro j w hw
  rw [get_put] at hw
  split at hw
  · rename_i hj
    obtain rfl := Option.some.inj hw
    exact hj ▸ hv
  · exact h j w hw

theorem All.remove {Φ : K → V → Prop} {s : IndexedStore K I V} (h : All Φ s) (k : K) :
    All Φ (s.remove idOf k) := by
  intro j w hw
  rw [get_remove] at hw
  split at hw
  · cases hw
  · exact h j w hw

theorem All.removeById {Φ : K → V → Prop} {s : IndexedStore K I V} (h : All Φ s) (i : I) :
    All Φ (s.removeById idOf i) := by
  unfold IndexedStore.removeById
  split
  · exact h.remove _
  · exact h

/-! ## The index -/

/-- A `put` decides the identity of the new value, forgets that of the displaced one and
leaves every other. -/
theorem index_put (s : IndexedStore K I V) (k : K) (v : V) (i : I) :
    (s.put idOf k v).index.lookup i =
      if i = idOf v then some k
      else if (s.get k).map idOf = some i then none else s.index.lookup i := by
  by_cases hi : i = idOf v
  · subst hi
    simp [put]
  · rw [if_neg hi, put]
    simp only [AList.lookup_insert_ne hi]
    cases hk : s.get k with
    | none => simp
    | some old =>
      by_cases hold : idOf old = idOf v
      · have hne : ¬ idOf v = i := fun h => hi h.symm
        simp [hold, hne]
      · by_cases hio : i = idOf old
        · subst hio
          simp [hold]
        · have hne : ¬ idOf old = i := fun h => hio h.symm
          simp [hold, AList.lookup_erase_ne hio, hne]

theorem index_remove (s : IndexedStore K I V) (k : K) (i : I) :
    (s.remove idOf k).index.lookup i =
      if (s.get k).map idOf = some i then none else s.index.lookup i := by
  unfold remove
  cases hk : s.get k with
  | none => simp
  | some old =>
    by_cases hio : i = idOf old
    · subst hio
      simp
    · have hne : ¬ idOf old = i := fun h => hio h.symm
      simp [AList.lookup_erase_ne hio, hne]

theorem sound_empty : Sound idOf (empty : IndexedStore K I V) := by
  intro i k h
  simp [empty] at h

/-- An index entry that survives does not point at the key that was touched. -/
theorem Sound.ne_of_index {s : IndexedStore K I V} (h : Sound idOf s) {k j : K} {i : I}
    (hi : s.index.lookup i = some j) (hne : (s.get k).map idOf ≠ some i) : j ≠ k := by
  rintro rfl
  obtain ⟨v, hv, hid⟩ := h i j hi
  exact hne (by simp [hv, hid])

theorem Sound.put {s : IndexedStore K I V} (h : Sound idOf s) (k : K) (v : V) :
    Sound idOf (s.put idOf k v) := by
  intro i j hj
  rw [index_put] at hj
  split at hj
  · rename_i hi
    obtain rfl := Option.some.inj hj
    exact ⟨v, by simp [get_put], hi.symm⟩
  · split at hj
    · cases hj
    · rename_i hne
      obtain ⟨w, hw, hid⟩ := h i j hj
      exact ⟨w, by simpa [get_put, h.ne_of_index hj hne] using hw, hid⟩

theorem Sound.remove {s : IndexedStore K I V} (h : Sound idOf s) (k : K) :
    Sound idOf (s.remove idOf k) := by
  intro i j hj
  rw [index_remove] at hj
  split at hj
  · cases hj
  · rename_i hne
    obtain ⟨w, hw, hid⟩ := h i j hj
    exact ⟨w, by simpa [get_remove, h.ne_of_index hj hne] using hw, hid⟩

theorem Sound.removeById {s : IndexedStore K I V} (h : Sound idOf s) (i : I) :
    Sound idOf (s.removeById idOf i) := by
  unfold IndexedStore.removeById
  split
  · exact h.remove _
  · exact h

/-- Whatever the index resolves to has the identity that was asked for. -/
theorem Sound.idOf_getById {s : IndexedStore K I V} (h : Sound idOf s) {i : I} {v : V}
    (hv : s.getById i = some v) : idOf v = i ∧ ∃ k, s.index.lookup i = some k ∧ s.get k = some v := by
  obtain ⟨k, hk, hget⟩ := Option.bind_eq_some_iff.mp hv
  obtain ⟨w, hw, hid⟩ := h i k hk
  obtain rfl := Option.some.inj (hw.symm.trans hget)
  exact ⟨hid, k, hk, hget⟩

/-- Removal by identity leaves the values of all other identities. -/
theorem Sound.get_removeById {s : IndexedStore K I V} (h : Sound idOf s) {i : I} {k : K} {v : V}
    (hk : s.get k = some v) (hid : idOf v ≠ i) : (s.removeById idOf i).get k = some v := by
  unfold IndexedStore.removeById
  split
  · rename_i j hj
    have hkj : k ≠ j := by
      rintro rfl
      obtain ⟨w, hw, hwi⟩ := h i k hj
      obtain rfl := Option.some.inj (hw.symm.trans hk)
      exact hid hwi
    simpa [get_remove, hkj] using hk
  · exact hk

/-- Removal by identity leaves no value of that identity if and only if the index knew of
all of them. -/
theorem removeById_all_iff {s : IndexedStore K I V} (i : I) :
    All (fun _ v => idOf v ≠ i) (s.removeById idOf i) ↔ Resolved idOf s i := by
  constructor
  · intro h k v hk hid
    by_contra hne
    refine h k v ?_ hid
    unfold removeById
    split
    · rename_i j hj
      have hjk : k ≠ j := fun hkj => hne (hkj ▸ hj)
      simpa [get_remove, hjk] using hk
    · exact hk
  · intro h k v hk hid
    unfold removeById at hk
    split at hk
    · rename_i j hj
      rw [get_remove] at hk
      split at hk
      · cases hk
      · rename_i hkj
        exact hkj (Option.some.inj ((h k v hk hid).symm.trans hj))
    · rename_i hnone
      rw [h k v hk hid] at hnone
      cases hnone

/-! ## The exact index -/

theorem exact_empty : Exact idOf (empty : IndexedStore K I V) :=
  ⟨sound_empty, fun i k v hk => by simp at hk⟩

theorem Exact.index_iff {s : IndexedStore K I V} (h : Exact idOf s) {i : I} {k : K} :
    s.index.lookup i = some k ↔ ∃ v, s.get k = some v ∧ idOf v = i := by
  constructor
  · exact h.1 i k
  · rintro ⟨v, hk, hid⟩
    exact h.2 i k v hk hid

theorem Exact.getById {s : IndexedStore K I V} (h : Exact idOf s) {k : K} {v : V}
    (hk : s.get k = some v) : s.getById (idOf v) = some v := by
  rw [IndexedStore.getById, h.2 (idOf v) k v hk rfl]
  exact hk

/-- Two stored values of one identity are the same. -/
theorem Exact.key_unique {s : IndexedStore K I V} (h : Exact idOf s) {k j : K} {v w : V}
    (hk : s.get k = some v) (hj : s.get j = some w) (hid : idOf v = idOf w) : k = j :=
  Option.some.inj ((h.2 _ k v hk hid).symm.trans (h.2 _ j w hj rfl))

theorem Exact.put {s : IndexedStore K I V} (h : Exact idOf s) {k : K} {v : V}
    (hfree : ∀ j w, s.get j = some w → idOf w = idOf v → j = k) : Exact idOf (s.put idOf k v) := by
  refine ⟨h.1.put k v, ?_⟩
  intro i j w hj hid
  rw [get_put] at hj
  rw [index_put]
  split at hj
  · rename_i hjk
    obtain rfl := Option.some.inj hj
    rw [if_pos hid.symm, hjk]
  · rename_i hjk
    have hiv : i ≠ idOf v := fun hi => hjk (hfree j w hj (hid.trans hi))
    have hold : ¬ (s.get k).map idOf = some i := by
      intro hi
      obtain ⟨old, hk, hold⟩ := Option.map_eq_some_iff.mp hi
      exact hjk (h.key_unique hj hk (hid.trans hold.symm))
    rw [if_neg hiv, if_neg hold]
    exact h.2 i j w hj hid

theorem Exact.remove {s : IndexedStore K I V} (h : Exact idOf s) (k : K) :
    Exact idOf (s.remove idOf k) := by
  refine ⟨h.1.remove k, ?_⟩
  intro i j w hj hid
  rw [get_remove] at hj
  rw [index_remove]
  split at hj
  · cases hj
  · rename_i hjk
    have hold : ¬ (s.get k).map idOf = some i := by
      intro hi
      obtain ⟨old, hk, hold⟩ := Option.map_eq_some_iff.mp hi
      exact hjk (h.key_unique hj hk (hid.trans hold.symm))
    rw [if_neg hold]
    exact h.2 i j w hj hid

theorem Exact.removeById {s : IndexedStore K I V} (h : Exact idOf s) (i : I) :
    Exact idOf (s.removeById idOf i) := by
  unfold IndexedStore.removeById
  split
  · exact h.remove _
  · exact h

end IndexedStore
