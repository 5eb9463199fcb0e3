import Mathlib.Data.List.AList

/-!
# A cache with a time to live and lazy removal

A key of the cache is absent, alive, or expired and not yet removed. Time is not
modelled: `expire` is the moment a key's time to live runs out, and it may happen to any
live key at any time. An expired key answers no read and is skipped by iteration, but its
slot stays until `evict` (the maintenance pass), a new insertion, or an explicit
invalidation takes it away.

The eviction listener of such a cache is told about every value that leaves it. The
`…Removal` functions give what it is told by the operation of the same name; an insertion
over a live value reports `replaced`, one over an expired value reports `expired`.
-/

/-- Why a value left the cache. -/
inductive RemovalCause where
  | expired
  | explicit
  | replaced
  | size
  deriving DecidableEq, Repr

/-- What the eviction listener is told. -/
structure Removal (K V : Type*) where
  key : K
  value : V
  cause : RemovalCause
  deriving DecidableEq, Repr

/-- A value held by the cache, with its time to live running or run out. -/
inductive Slot (V : Type*) where
  | live (value : V)
  | expired (value : V)
  deriving DecidableEq, Repr

structure TtlCache (K V : Type*) where
  slots : AList (fun _ : K => Slot V)

namespace TtlCache

variable {K V : Type*} [DecidableEq K]

def empty : TtlCache K V := ⟨∅⟩

/-- Some value is held under `k`, alive or expired. -/
def Holds (c : TtlCache K V) (k : K) : Prop := (c.slots.lookup k).isSome

instance (c : TtlCache K V) (k : K) : Decidable (c.Holds k) :=
  inferInstanceAs (Decidable ((c.slots.lookup k).isSome = true))

def get (c : TtlCache K V) (k : K) : Option V :=
  match c.slots.lookup k with
  | some (.live v) => some v
  | _ => none

def insert (c : TtlCache K V) (k : K) (v : V) : TtlCache K V := ⟨c.slots.insert k (.live v)⟩

def insertRemoval (c : TtlCache K V) (k : K) : Option (Removal K V) :=
  match c.slots.lookup k with
  | some (.live v) => some ⟨k, v, .replaced⟩
  | some (.expired v) => some ⟨k, v, .expired⟩
  | none => none

def invalidate (c : TtlCache K V) (k : K) : TtlCache K V := ⟨c.slots.erase k⟩

def invalidateRemoval (c : TtlCache K V) (k : K) : Option (Removal K V) :=
  match c.slots.lookup k with
  | some (.live v) => some ⟨k, v, .explicit⟩
  | some (.expired v) => some ⟨k, v, .expired⟩
  | none => none

/-- The time to live of `k` runs out. -/
def expire (c : TtlCache K V) (k : K) : TtlCache K V :=
  match c.slots.lookup k with
  | some (.live v) => ⟨c.slots.insert k (.expired v)⟩
  | _ => c

/-- Maintenance removes `k` if it has expired. -/
def evict (c : TtlCache K V) (k : K) : TtlCache K V :=
  match c.slots.lookup k with
  | some (.expired _) => ⟨c.slots.erase k⟩
  | _ => c

def evictRemoval (c : TtlCache K V) (k : K) : Option (Removal K V) :=
  match c.slots.lookup k with
  | some (.expired v) => some ⟨k, v, .expired⟩
  | _ => none

/-- The live entries. -/
def iter (c : TtlCache K V) : List (K × V) :=
  c.slots.entries.filterMap fun e =>
    match e.2 with
    | .live v => some (e.1, v)
    | .expired _ => none

/-! ## Reads after each operation -/

theorem get_eq_some {c : TtlCache K V} {k : K} {v : V} :
    c.get k = some v ↔ c.slots.lookup k = some (.live v) := by
  unfold get
  split <;> simp_all

theorem Holds.of_get {c : TtlCache K V} {k : K} {v : V} (h : c.get k = some v) : c.Holds k := by
  simp [Holds, get_eq_some.mp h]

theorem get_eq_none_of_not_holds {c : TtlCache K V} {k : K} (h : ¬ c.Holds k) : c.get k = none := by
  cases hg : c.get k with
  | none => rfl
  | some v => exact absurd (Holds.of_get hg) h

theorem get_insert (c : TtlCache K V) (k j : K) (v : V) :
    (c.insert k v).get j = if j = k then some v else c.get j := by
  by_cases h : j = k
  · subst h
    simp [get, insert]
  · simp [get, insert, h, AList.lookup_insert_ne h]

theorem holds_insert {c : TtlCache K V} {k j : K} {v : V} :
    (c.insert k v).Holds j ↔ j = k ∨ c.Holds j := by
  by_cases h : j = k
  · subst h
    simp [Holds, insert]
  · simp [Holds, insert, h, AList.lookup_insert_ne h]

theorem get_expire (c : TtlCache K V) (k j : K) :
    (c.expire k).get j = if j = k then none else c.get j := by
  by_cases h : j = k
  · subst h
    cases hl : c.slots.lookup j with
    | none => simp [get, expire, hl]
    | some w => cases w <;> simp [get, expire, hl]
  · unfold expire
    split <;> simp [get, h, AList.lookup_insert_ne h]

/-- Expiry keeps the slot, so it changes what is alive and not what is held. -/
theorem holds_expire {c : TtlCache K V} {k j : K} : (c.expire k).Holds j ↔ c.Holds j := by
  unfold expire
  split
  · rename_i v hv
    by_cases h : j = k
    · subst h
      simp [Holds, hv]
    · simp [Holds, AList.lookup_insert_ne h]
  · rfl

/-- Maintenance removes only what no read would have answered. -/
@[simp] theorem get_evict (c : TtlCache K V) (k j : K) : (c.evict k).get j = c.get j := by
  unfold evict
  split
  · rename_i v hv
    by_cases h : j = k
    · subst h
      simp [get, hv]
    · simp [get, AList.lookup_erase_ne h]
  · rfl

theorem mem_iter {c : TtlCache K V} {k : K} {v : V} : (k, v) ∈ c.iter ↔ c.get k = some v := by
  rw [get_eq_some, ← Option.mem_def, AList.mem_lookup_iff]
  unfold iter
  rw [List.mem_filterMap]
  constructor
  · rintro ⟨⟨j, w⟩, hmem, hw⟩
    cases w with
    | live w =>
      obtain ⟨rfl, rfl⟩ := Prod.mk.inj (Option.some.inj hw)
      exact hmem
    | expired w => cases hw
  · intro h
    exact ⟨_, h, rfl⟩

/-! ## What is held, and what the listener is told -/

/-- `v` is the value held under `k`, alive or expired. -/
def Stored (c : TtlCache K V) (k : K) (v : V) : Prop :=
  c.slots.lookup k = some (.live v) ∨ c.slots.lookup k = some (.expired v)

theorem Stored.of_get {c : TtlCache K V} {k : K} {v : V} (h : c.get k = some v) : c.Stored k v :=
  Or.inl (get_eq_some.mp h)

theorem Stored.holds {c : TtlCache K V} {k : K} {v : V} (h : c.Stored k v) : c.Holds k := by
  rcases h with h | h <;> simp [Holds, h]

theorem holds_iff_stored {c : TtlCache K V} {k : K} : c.Holds k ↔ ∃ v, c.Stored k v := by
  constructor
  · intro h
    obtain ⟨w, hw⟩ := Option.isSome_iff_exists.mp h
    cases w with
    | live v => exact ⟨v, Or.inl hw⟩
    | expired v => exact ⟨v, Or.inr hw⟩
  · rintro ⟨v, hv⟩
    exact hv.holds

theorem not_stored_empty (k : K) (v : V) : ¬ (empty : TtlCache K V).Stored k v := by
  simp [Stored, empty]

theorem Stored.of_insert {c : TtlCache K V} {k j : K} {v w : V} (h : (c.insert k v).Stored j w) :
    (j = k ∧ w = v) ∨ c.Stored j w := by
  by_cases hj : j = k
  · subst hj
    simp only [Stored, insert, AList.lookup_insert, Option.some.injEq, Slot.live.injEq,
      reduceCtorEq, or_false] at h
    exact Or.inl ⟨rfl, h.symm⟩
  · simp only [Stored, insert, AList.lookup_insert_ne hj] at h
    exact Or.inr h

theorem Stored.of_invalidate {c : TtlCache K V} {k j : K} {w : V}
    (h : (c.invalidate k).Stored j w) : c.Stored j w := by
  by_cases hj : j = k
  · subst hj
    simp [Stored, invalidate] at h
  · simpa only [Stored, invalidate, AList.lookup_erase_ne hj] using h

theorem Stored.of_expire {c : TtlCache K V} {k j : K} {w : V} (h : (c.expire k).Stored j w) :
    c.Stored j w := by
  unfold expire at h
  split at h
  · rename_i v hv
    by_cases hj : j = k
    · subst hj
      simp only [Stored, AList.lookup_insert, Option.some.injEq, reduceCtorEq, Slot.expired.injEq,
        false_or] at h
      exact Or.inl (h ▸ hv)
    · simpa only [Stored, AList.lookup_insert_ne hj] using h
  · exact h

theorem Stored.of_evict {c : TtlCache K V} {k j : K} {w : V} (h : (c.evict k).Stored j w) :
    c.Stored j w := by
  unfold evict at h
  split at h
  · exact Stored.of_invalidate (c := c) (k := k) h
  · exact h

theorem Holds.of_invalidate {c : TtlCache K V} {k j : K} (h : (c.invalidate k).Holds j) :
    c.Holds j := by
  obtain ⟨w, hw⟩ := holds_iff_stored.mp h
  exact hw.of_invalidate.holds

theorem Holds.of_evict {c : TtlCache K V} {k j : K} (h : (c.evict k).Holds j) : c.Holds j := by
  obtain ⟨w, hw⟩ := holds_iff_stored.mp h
  exact hw.of_evict.holds

theorem insertRemoval_stored {c : TtlCache K V} {k : K} {r : Removal K V}
    (h : c.insertRemoval k = some r) : r.key = k ∧ c.Stored k r.value := by
  unfold insertRemoval at h
  split at h
  · rename_i v hv
    obtain rfl := Option.some.inj h
    exact ⟨rfl, Or.inl hv⟩
  · rename_i v hv
    obtain rfl := Option.some.inj h
    exact ⟨rfl, Or.inr hv⟩
  · cases h

theorem invalidateRemoval_stored {c : TtlCache K V} {k : K} {r : Removal K V}
    (h : c.invalidateRemoval k = some r) : r.key = k ∧ c.Stored k r.value := by
  unfold invalidateRemoval at h
  split at h
  · rename_i v hv
    obtain rfl := Option.some.inj h
    exact ⟨rfl, Or.inl hv⟩
  · rename_i v hv
    obtain rfl := Option.some.inj h
    exact ⟨rfl, Or.inr hv⟩
  · cases h

theorem evictRemoval_stored {c : TtlCache K V} {k : K} {r : Removal K V}
    (h : c.evictRemoval k = some r) : r.key = k ∧ c.Stored k r.value := by
  unfold evictRemoval at h
  split at h
  · rename_i v hv
    obtain rfl := Option.some.inj h
    exact ⟨rfl, Or.inr hv⟩
  · cases h

end TtlCache
