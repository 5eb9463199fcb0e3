import Noeio.Lib.TtlCache

/-!
# A clock for a cache with a time to live

`TtlCache` says nothing about when a key expires. With a clock and the time of each insertion the
moment is fixed: a value is alive while less than `ttl` has passed since it was inserted (`Timely`).
The insertion of a value now keeps this (`Timely.insert`). When the clock moves, the keys that are then
`due` expire (`Timely.advance`).
-/

namespace TtlCache

variable {K V : Type*} [DecidableEq K]

/-- The keys whose time to live has run out at `now`. -/
def due (ttl now : Nat) (insertedAt : K → Nat) (c : TtlCache K V) : List K :=
  c.slots.keys.filter fun k => insertedAt k + ttl ≤ now

def expireAll (c : TtlCache K V) (ks : List K) : TtlCache K V := ks.foldl expire c

def evictAll (c : TtlCache K V) (ks : List K) : TtlCache K V := ks.foldl evict c

/-- What maintenance finds to remove. -/
def overdue (c : TtlCache K V) : List K := c.slots.keys.filter fun k => (c.get k).isNone

/-- Of what is held, exactly what was inserted less than `ttl` ago is alive. -/
def Timely (ttl now : Nat) (insertedAt : K → Nat) (c : TtlCache K V) : Prop :=
  ∀ k, c.Holds k → ((c.get k).isSome = true ↔ now < insertedAt k + ttl)

theorem holds_iff_mem_keys {c : TtlCache K V} {k : K} : c.Holds k ↔ k ∈ c.slots.keys := by
  rw [Holds, AList.lookup_isSome, AList.mem_keys]

theorem mem_due {ttl now : Nat} {insertedAt : K → Nat} {c : TtlCache K V} {k : K} :
    k ∈ c.due ttl now insertedAt ↔ c.Holds k ∧ insertedAt k + ttl ≤ now := by
  rw [due, List.mem_filter, holds_iff_mem_keys, decide_eq_true_eq]

theorem mem_overdue {c : TtlCache K V} {k : K} : k ∈ c.overdue ↔ c.Holds k ∧ c.get k = none := by
  rw [overdue, List.mem_filter, holds_iff_mem_keys, Option.isNone_iff_eq_none]

theorem holds_evict {c : TtlCache K V} {k j : K} :
    (c.evict k).Holds j ↔ c.Holds j ∧ ¬ (j = k ∧ c.get j = none) := by
  unfold evict
  split
  · rename_i v hv
    by_cases h : j = k
    · subst h
      simp [Holds, get, hv]
    · simp [Holds, h, AList.lookup_erase_ne h]
  · rename_i hnot
    refine ⟨fun h => ⟨h, ?_⟩, And.left⟩
    rintro ⟨rfl, hnone⟩
    obtain ⟨v, hv⟩ := holds_iff_stored.mp h
    rcases hv with hv | hv
    · rw [get_eq_some.mpr hv] at hnone
      cases hnone
    · exact hnot v hv

theorem get_expireAll (c : TtlCache K V) (ks : List K) (j : K) :
    (c.expireAll ks).get j = if j ∈ ks then none else c.get j := by
  induction ks generalizing c with
  | nil => simp [expireAll]
  | cons k ks ih =>
    have hcons : c.expireAll (k :: ks) = (c.expire k).expireAll ks := rfl
    rw [hcons, ih, get_expire]
    by_cases hj : j ∈ ks
    · simp [hj]
    · simp [hj]

theorem holds_expireAll {c : TtlCache K V} {ks : List K} {j : K} :
    (c.expireAll ks).Holds j ↔ c.Holds j := by
  induction ks generalizing c with
  | nil => rfl
  | cons k ks ih =>
    have hcons : c.expireAll (k :: ks) = (c.expire k).expireAll ks := rfl
    rw [hcons, ih, holds_expire]

@[simp] theorem get_evictAll (c : TtlCache K V) (ks : List K) (j : K) :
    (c.evictAll ks).get j = c.get j := by
  induction ks generalizing c with
  | nil => rfl
  | cons k ks ih => exact (ih _).trans (get_evict c k j)

theorem holds_evictAll {c : TtlCache K V} {ks : List K} {j : K} :
    (c.evictAll ks).Holds j ↔ c.Holds j ∧ ¬ (j ∈ ks ∧ c.get j = none) := by
  induction ks generalizing c with
  | nil => simp [evictAll]
  | cons k ks ih =>
    have hcons : c.evictAll (k :: ks) = (c.evict k).evictAll ks := rfl
    rw [hcons, ih, get_evict, holds_evict, List.mem_cons]
    tauto

section Rules

variable {ttl now : Nat} {insertedAt insertedAt' : K → Nat} {c c' : TtlCache K V}

theorem timely_empty : Timely ttl now insertedAt (empty : TtlCache K V) := by
  intro k h
  cases h

/-- What holds `k` alive after the insertion and leaves all others as they were. -/
theorem Timely.insert (h : Timely ttl now insertedAt c) (hpos : 0 < ttl)
    (hchange : ∀ k, (c'.get k).isSome = true ∧ insertedAt' k = now ∨
      (c'.Holds k → c.Holds k) ∧ c'.get k = c.get k ∧ insertedAt' k = insertedAt k) :
    Timely ttl now insertedAt' c' := by
  intro k hk
  rcases hchange k with ⟨halive, hnow⟩ | ⟨hheld, hget, hat⟩
  · rw [hnow]
    exact ⟨fun _ => Nat.lt_add_of_pos_right hpos, fun _ => halive⟩
  · rw [hget, hat]
    exact h k (hheld hk)

theorem Timely.advance (h : Timely ttl now insertedAt c) {now' : Nat} (hle : now ≤ now') :
    Timely ttl now' insertedAt (c.expireAll (c.due ttl now' insertedAt)) := by
  intro k hk
  have hheld : c.Holds k := holds_expireAll.mp hk
  rw [get_expireAll]
  by_cases hdue : insertedAt k + ttl ≤ now'
  · rw [if_pos (mem_due.mpr ⟨hheld, hdue⟩)]
    simp [Nat.not_lt.mpr hdue]
  · rw [if_neg fun hmem => hdue (mem_due.mp hmem).2]
    have halive : now < insertedAt k + ttl := by omega
    exact ⟨fun _ => Nat.not_le.mp hdue, fun _ => (h k hheld).mpr halive⟩

end Rules

end TtlCache
