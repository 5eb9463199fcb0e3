import Mathlib.Data.Finset.Card
import Mathlib.Data.Finset.SymmDiff
import Mathlib.Data.List.Induction

/-!
# Sets and the operations on them

A set is changed by operations that each insert or erase one key and that may fail. An
`Attempt` is an operation with its outcome, and `replay` is the set after a log of attempts,
oldest first.

* `mem_replay`: a key is in the set if it was at the start or its latest successful operation
  was an insert, unless its latest successful operation was an erase.
* `card_symmDiff_replay`: in a log that has at most one attempt for each key, and only ones
  that the set calls for, every success is one change of the set.

A loop over keys makes for each key a list of attempts that may depend on the state
(`logged`). `foldl_logged` says that what every turn of the loop does to the set and to a count
of changes is said of the whole loop.
-/

namespace SetLog

inductive Op where
  | insert
  | erase
  deriving DecidableEq

/-- An operation on a key, and whether it succeeded. -/
structure Attempt (κ : Type*) where
  op : Op
  key : κ
  ok : Bool
  deriving DecidableEq

variable {κ : Type*} [DecidableEq κ]

def Op.apply : Op → κ → Finset κ → Finset κ
  | .insert, key, s => Insert.insert key s
  | .erase, key, s => s.erase key

def Attempt.apply (s : Finset κ) (a : Attempt κ) : Finset κ :=
  if a.ok then a.op.apply a.key s else s

/-- The set after the attempts of the log. -/
def replay (s : Finset κ) (log : List (Attempt κ)) : Finset κ := log.foldl Attempt.apply s

@[simp] theorem replay_nil (s : Finset κ) : replay s [] = s := rfl

theorem replay_append (s : Finset κ) (log more : List (Attempt κ)) :
    replay s (log ++ more) = replay (replay s log) more := List.foldl_append

/-- The latest operation on the key that succeeded. -/
def latest (log : List (Attempt κ)) (key : κ) : Option Op :=
  ((log.filter fun a => a.ok && a.key = key).getLast?).map (·.op)

@[simp] theorem latest_nil (key : κ) : latest [] key = none := rfl

theorem latest_concat (log : List (Attempt κ)) (a : Attempt κ) (key : κ) :
    latest (log ++ [a]) key = if a.ok ∧ a.key = key then some a.op else latest log key := by
  rw [latest, List.filter_append, List.filter_singleton]
  by_cases h : a.ok ∧ a.key = key
  · have hdec : (a.ok && a.key = key) = true := by simpa using h
    rw [if_pos h, hdec]
    simp
  · have hdec : (a.ok && a.key = key) = false := by simpa using h
    rw [if_neg h, hdec, cond_false, List.append_nil]
    rfl

theorem mem_replay {s : Finset κ} {log : List (Attempt κ)} {key : κ} :
    key ∈ replay s log ↔
      (key ∈ s ∨ latest log key = some .insert) ∧ latest log key ≠ some .erase := by
  induction log using List.reverseRecOn with
  | nil => simp
  | append_singleton log a ih =>
    rw [replay_append, latest_concat]
    change key ∈ Attempt.apply (replay s log) a ↔ _
    obtain ⟨op, k, ok⟩ := a
    by_cases h : ok = true ∧ k = key
    · obtain ⟨rfl, rfl⟩ := h
      rw [if_pos ⟨rfl, rfl⟩]
      cases op <;> simp [Attempt.apply, Op.apply]
    · rw [if_neg h, ← ih]
      cases ok with
      | false => rfl
      | true =>
        have hne : key ≠ k := fun heq => h ⟨rfl, heq.symm⟩
        cases op <;> simp [Attempt.apply, Op.apply, hne]

/-! ## One attempt for each key -/

/-- The latest success for a key is one of the attempts. -/
theorem exists_of_latest {log : List (Attempt κ)} {key : κ} {op : Op}
    (h : latest log key = some op) : ∃ a ∈ log, a.ok = true ∧ a.key = key ∧ a.op = op := by
  obtain ⟨a, ha, hop⟩ := Option.map_eq_some_iff.mp h
  have hmem : a ∈ log.filter fun a => a.ok && a.key = key := List.mem_of_getLast? ha
  simp only [List.mem_filter, Bool.and_eq_true, decide_eq_true_eq] at hmem
  exact ⟨a, hmem.1, hmem.2.1, hmem.2.2, hop⟩

theorem latest_eq_none {log : List (Attempt κ)} {key : κ} :
    latest log key = none ↔ ∀ a ∈ log, a.ok = true → a.key ≠ key := by
  simp [latest]

/-- The set has no key that the log inserts, and every key that it erases. -/
def Called (s : Finset κ) (log : List (Attempt κ)) : Prop :=
  ∀ a ∈ log, a.key ∈ s ↔ a.op = .erase

theorem mem_symmDiff_replay {s : Finset κ} {log : List (Attempt κ)} (hcalled : Called s log)
    {key : κ} : key ∈ symmDiff s (replay s log) ↔ ∃ a ∈ log, a.ok = true ∧ a.key = key := by
  rw [Finset.mem_symmDiff, mem_replay]
  cases hlatest : latest log key with
  | none =>
    have hnone : ¬ ∃ a ∈ log, a.ok = true ∧ a.key = key := by
      rintro ⟨a, ha, hok, hkey⟩
      exact latest_eq_none.mp hlatest a ha hok hkey
    simp [hnone]
  | some op =>
    obtain ⟨a, ha, hok, rfl, rfl⟩ := exists_of_latest hlatest
    have hin : a.key ∈ s ↔ a.op = .erase := hcalled a ha
    have hsome : ∃ b ∈ log, b.ok = true ∧ b.key = a.key := ⟨a, ha, hok, rfl⟩
    cases hop : a.op <;> simp [hin, hop, hsome]

theorem card_symmDiff_replay {s : Finset κ} {log : List (Attempt κ)} (hcalled : Called s log)
    (hnodup : (log.map (·.key)).Nodup) :
    (symmDiff s (replay s log)).card = log.countP (·.ok) := by
  have hset : symmDiff s (replay s log) = ((log.filter (·.ok)).map (·.key)).toFinset := by
    ext key
    simp [mem_symmDiff_replay hcalled, and_assoc]
  have hsub : ((log.filter (·.ok)).map (·.key)).Nodup :=
    hnodup.sublist (List.filter_sublist.map _)
  rw [hset, List.toFinset_card_of_nodup hsub, List.length_map, List.countP_eq_length_filter]

/-! ## Loops -/

section Loops

variable {σ α β : Type*} (step : σ → α → σ) (attempts : σ → α → List β)

/-- What a loop over a list attempts, turn after turn. -/
def logged : σ → List α → List β
  | _, [] => []
  | s, a :: as => attempts s a ++ logged (step s a) as

theorem map_logged {γ : Type*} {f : β → γ} {g : α → List γ}
    (h : ∀ s a, (attempts s a).map f = g a) (s : σ) (as : List α) :
    (logged step attempts s as).map f = as.flatMap g := by
  induction as generalizing s with
  | nil => rfl
  | cons a as ih => rw [logged, List.map_append, h, ih, List.flatMap_cons]

variable {step : σ → α → σ} {attempts : σ → α → List (Attempt κ)}

theorem foldl_logged (set : σ → Finset κ) (count : σ → Nat)
    (h : ∀ s a, set (step s a) = replay (set s) (attempts s a) ∧
      count (step s a) = count s + (attempts s a).countP (·.ok)) (s : σ) (as : List α) :
    set (as.foldl step s) = replay (set s) (logged step attempts s as) ∧
      count (as.foldl step s) = count s + (logged step attempts s as).countP (·.ok) := by
  induction as generalizing s with
  | nil => exact ⟨rfl, rfl⟩
  | cons a as ih =>
    obtain ⟨hset, hcount⟩ := h s a
    obtain ⟨ihset, ihcount⟩ := ih (step s a)
    rw [List.foldl_cons, logged, replay_append, List.countP_append]
    constructor
    · rw [ihset, hset]
    · rw [ihcount, hcount, Nat.add_assoc]

end Loops

end SetLog
