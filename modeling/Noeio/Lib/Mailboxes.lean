import Mathlib.Logic.Function.Basic
import Mathlib.Data.List.Basic
import Mathlib.Tactic.Common

/-!
# Replicas behind first-in first-out mailboxes

Each node has a replica, and messages to it wait in the order they were sent; a delivery
takes the first message for a node and folds it into the replica. Nothing is lost.

`eventual s n` is the replica of `n` once everything now in flight has arrived. A delivery
does not change it (`eventual_deliver`) and a send folds the new messages into it
(`eventual_send`), so a property of the eventual replicas has to be checked at the sends
only, and holds of the replicas themselves when nothing is in flight
(`eventual_of_quiet`).

Mailboxes of encoded messages stand for mailboxes of the messages themselves (`Encodes`) as long as
a replica makes of the encoding what the other makes of the message (`Encodes.deliver`).
-/

structure Mailboxes (N R M : Type*) where
  replica : N → R
  inFlight : List (N × M)

namespace Mailboxes

variable {N R M : Type*} [DecidableEq N] (apply : R → M → R)

/-- The messages of `ms` that are for `n`, in order. -/
def mail (n : N) (ms : List (N × M)) : List M := (ms.filter (·.1 = n)).map (·.2)

def send (s : Mailboxes N R M) (ms : List (N × M)) : Mailboxes N R M :=
  { s with inFlight := s.inFlight ++ ms }

/-- The first message for `n`, if there is one, arrives. -/
def deliver (s : Mailboxes N R M) (n : N) : Mailboxes N R M :=
  match s.inFlight.find? (·.1 = n) with
  | some (_, m) =>
    { replica := Function.update s.replica n (apply (s.replica n) m)
      inFlight := s.inFlight.eraseP (·.1 = n) }
  | none => s

def eventual (s : Mailboxes N R M) (n : N) : R := (mail n s.inFlight).foldl apply (s.replica n)

variable {apply}

theorem mem_mail {n : N} {ms : List (N × M)} {m : M} : m ∈ mail n ms ↔ (n, m) ∈ ms := by
  simp only [mail, List.mem_map, List.mem_filter, decide_eq_true_eq]
  constructor
  · rintro ⟨⟨k, m'⟩, ⟨hmem, rfl⟩, rfl⟩
    exact hmem
  · intro hmem
    exact ⟨(n, m), ⟨hmem, rfl⟩, rfl⟩

theorem eventual_of_quiet {s : Mailboxes N R M} (h : s.inFlight = []) (n : N) :
    s.eventual apply n = s.replica n := by
  rw [eventual, h]
  rfl

theorem eventual_send (s : Mailboxes N R M) (ms : List (N × M)) (n : N) :
    (s.send ms).eventual apply n = (mail n ms).foldl apply (s.eventual apply n) := by
  simp only [eventual, send, mail, List.filter_append, List.map_append, List.foldl_append]

/-- The first message for `n` heads its mailbox, and taking it leaves the rest. -/
theorem mail_eq_cons {n k : N} {m : M} {ms : List (N × M)} (h : ms.find? (·.1 = n) = some (k, m)) :
    mail n ms = m :: mail n (ms.eraseP (·.1 = n)) := by
  induction ms with
  | nil => cases h
  | cons a ms ih =>
    by_cases ha : a.1 = n
    · rw [List.find?_cons_of_pos (by simpa using ha)] at h
      obtain rfl := Option.some.inj h
      obtain rfl : k = n := ha
      simp [mail]
    · rw [List.find?_cons_of_neg (by simpa using ha)] at h
      simpa [mail, ha] using ih h

/-- The mailboxes of the others are untouched. -/
theorem mail_eraseP_ne {n k : N} (hk : k ≠ n) (ms : List (N × M)) :
    mail k (ms.eraseP (·.1 = n)) = mail k ms := by
  induction ms with
  | nil => rfl
  | cons a ms ih =>
    by_cases ha : a.1 = n
    · have hak : ¬ a.1 = k := fun h => hk (h.symm.trans ha)
      rw [List.eraseP_cons_of_pos (by simpa using ha), mail, mail,
        List.filter_cons_of_neg (by simpa using hak)]
    · by_cases hak : a.1 = k
      · simpa [mail, ha, hak, hk] using ih
      · simpa [mail, ha, hak] using ih

theorem eventual_deliver (s : Mailboxes N R M) (n k : N) :
    (s.deliver apply n).eventual apply k = s.eventual apply k := by
  unfold deliver
  split
  · rename_i j m hfind
    by_cases hk : k = n
    · subst hk
      simp only [eventual, Function.update_self, mail_eq_cons hfind, List.foldl_cons]
    · simp only [eventual, Function.update_of_ne hk, mail_eraseP_ne hk]
  · rfl

/-! ## Encoded messages -/

section
variable {R' M' : Type*} {enc : M → M'} {Rel : R → R' → Prop} {s : Mailboxes N R M}
  {t : Mailboxes N R' M'}

omit [DecidableEq N] in
/-- The messages with their contents encoded. -/
def encoded (enc : M → M') (ms : List (N × M)) : List (N × M') := ms.map fun (n, m) => (n, enc m)

/-- `t` has the messages of `s`, encoded, and its replicas are in the relation `Rel` to those of `s`. -/
structure Encodes (enc : M → M') (Rel : R → R' → Prop) (s : Mailboxes N R M)
    (t : Mailboxes N R' M') : Prop where
  inFlight : t.inFlight = encoded enc s.inFlight
  replica : ∀ n, Rel (s.replica n) (t.replica n)

omit [DecidableEq N] in
theorem Encodes.send (h : Encodes enc Rel s t) (ms : List (N × M)) :
    Encodes enc Rel (s.send ms) (t.send (encoded enc ms)) := by
  refine ⟨?_, h.replica⟩
  simp only [Mailboxes.send, h.inFlight, encoded, List.map_append]

theorem Encodes.deliver {apply' : R' → M' → R'} (h : Encodes enc Rel s t) (n : N)
    (happly : ∀ m, (n, m) ∈ s.inFlight → ∀ r r', Rel r r' → Rel (apply r m) (apply' r' (enc m))) :
    Encodes enc Rel (s.deliver apply n) (t.deliver apply' n) := by
  have hfind : t.inFlight.find? (·.1 = n) =
      (s.inFlight.find? (·.1 = n)).map fun (n, m) => (n, enc m) := by
    rw [h.inFlight, encoded, List.find?_map]
    rfl
  have herase : t.inFlight.eraseP (·.1 = n) = encoded enc (s.inFlight.eraseP (·.1 = n)) := by
    rw [h.inFlight, encoded, List.eraseP_map]
    rfl
  cases hnext : s.inFlight.find? (·.1 = n) with
  | none =>
    rw [hnext] at hfind
    simp only [Mailboxes.deliver, hnext, hfind, Option.map_none]
    exact h
  | some next =>
    obtain ⟨k, m⟩ := next
    obtain rfl : k = n := by simpa using List.find?_some hnext
    rw [hnext] at hfind
    simp only [Mailboxes.deliver, hnext, hfind, Option.map_some]
    refine ⟨herase, (Function.forall_update_iff t.replica fun j r' =>
      Rel (Function.update s.replica k (apply (s.replica k) m) j) r').mpr ⟨?_, fun j hj => ?_⟩⟩
    · rw [Function.update_self]
      exact happly m (List.mem_of_find?_eq_some hnext) _ _ (h.replica k)
    · rw [Function.update_of_ne hj]
      exact h.replica j

/-- A replica that moves by itself stays in its relation. -/
theorem Encodes.update (h : Encodes enc Rel s t) {n : N} {r' : R'} (hr' : Rel (s.replica n) r') :
    Encodes enc Rel s { t with replica := Function.update t.replica n r' } := by
  refine ⟨h.inFlight, ?_⟩
  exact (Function.forall_update_iff t.replica fun k r => Rel (s.replica k) r).mpr
    ⟨hr', fun k _ => h.replica k⟩

end

end Mailboxes
