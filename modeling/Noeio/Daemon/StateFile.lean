import Noeio.Common.Report
import Noeio.Daemon.Ledger
import Noeio.Lib.LineText

/-!
# The state file of the reconciler

`Reconciler::restore`, `persist` and `parse_line` of `noeio/src/daemon/reconciler.rs`. The keys
that are installed are written to a file, one line for each key in the order of the keys, and
read back when the daemon starts again.

`restore_persist` is the round trip, `mem_restore` what is read of any file. A pass writes the
file only when it has changed something, so a file with bad or repeated lines stays as it is until
then; `state_file_mirrors` says that it still means the installed set after every pass of every
run whose writes succeed.
-/

namespace Noeio

open Text

namespace Reconciler

variable (cidr : CidrText)

/-- The line of a key, without the line feed. -/
def stateLine (key : RouteKey) : String := key.nic.toNat.repr ++ " " ++ cidr.display key.cidr

/-- The body that `persist` writes. -/
def persist (installed : Finset RouteKey) : List UInt8 :=
  asBytes (String.join (((installed.sort RouteKey.le).map (stateLine cidr)).map (· ++ "\n")))

def parseLine (line : String) : Option RouteKey := do
  let (nic, block) ← strSplitOnce ' ' line
  let nic ← (parseUnsigned (2 ^ 32) nic).toOption
  let block ← cidr.parse block
  return ⟨.ofNat nic, block⟩

/-- The lines of the file that are looked at. -/
def stateLines (content : String) : List String :=
  ((strLines content).map trim).filter (· ≠ "")

/-- The body of the loop over the lines; a bad line is skipped. -/
def restoreLine (installed : Finset RouteKey) (line : String) : Finset RouteKey :=
  match parseLine cidr line with
  | some key => insert key installed
  | none => installed

/-- The installed set after `restore`; `file` are the bytes of the state file, if there is one. -/
def restore (file : Option (List UInt8)) (installed : Finset RouteKey) : Finset RouteKey :=
  match file.bind fromUtf8 with
  -- missing, or not text
  | none => installed
  | some content => (stateLines content).foldl (restoreLine cidr) installed

variable {cidr}

/-! ## What is read -/

theorem mem_foldl_restoreLine {lines : List String} {installed : Finset RouteKey}
    {key : RouteKey} : key ∈ lines.foldl (restoreLine cidr) installed ↔
      key ∈ installed ∨ ∃ line ∈ lines, parseLine cidr line = some key := by
  induction lines generalizing installed with
  | nil => simp
  | cons line lines ih =>
    rw [List.foldl_cons, ih, restoreLine]
    cases hline : parseLine cidr line with
    | none => simp [hline]
    | some found =>
      simp only [Finset.mem_insert, List.mem_cons, exists_eq_or_imp, hline, Option.some.injEq,
        @eq_comm _ found]
      tauto

/-- Of a text, the keys of the lines that parse are added. -/
theorem mem_restore (content : String) (installed : Finset RouteKey) (key : RouteKey) :
    key ∈ restore cidr (some (asBytes content)) installed ↔
      key ∈ installed ∨ ∃ line ∈ stateLines content, parseLine cidr line = some key := by
  rw [restore, Option.bind_some, fromUtf8_asBytes]
  exact mem_foldl_restoreLine

/-- A file that is missing or is not text adds nothing. -/
theorem restore_of_unreadable {file : Option (List UInt8)} (h : file.bind fromUtf8 = none)
    (installed : Finset RouteKey) : restore cidr file installed = installed := by
  rw [restore, h]

/-! ## What is written -/

theorem not_whitespace_of_mem_repr {n : Nat} {c : Char} (h : c ∈ n.repr.toList) :
    isWhitespace c = false := by
  rw [Nat.toList_repr] at h
  exact isWhitespace_of_isDigit (isDigit_of_mem_digits h)

theorem toList_stateLine (key : RouteKey) : (stateLine cidr key).toList =
    key.nic.toNat.repr.toList ++ ' ' :: (cidr.display key.cidr).toList := by
  simp [stateLine]

theorem parseLine_stateLine (key : RouteKey) : parseLine cidr (stateLine cidr key) = some key := by
  have hspace : ' ' ∉ key.nic.toNat.repr.toList := by
    intro hmem
    have hnot := not_whitespace_of_mem_repr hmem
    exact absurd hnot (by decide)
  have hsplit : strSplitOnce ' ' (stateLine cidr key) =
      some (key.nic.toNat.repr, cidr.display key.cidr) := strSplitOnce_append hspace _
  have hnic : parseUnsigned (2 ^ 32) key.nic.toNat.repr = .ok key.nic.toNat :=
    parseUnsigned_repr key.nic.toNat_lt
  simp only [parseLine, hsplit, Option.bind_eq_bind, Option.bind_some, hnic, Except.toOption,
    cidr.parse_display, UInt32.ofNat_toNat]
  rfl

section OneWord

variable (hword : cidr.OneWord)
include hword

/-- A line has white space only between its two fields. -/
theorem mem_stateLine {key : RouteKey} {c : Char} (h : c ∈ (stateLine cidr key).toList) :
    c = ' ' ∨ isWhitespace c = false := by
  rw [toList_stateLine, List.mem_append, List.mem_cons] at h
  rcases h with h | h | h
  · exact Or.inr (not_whitespace_of_mem_repr h)
  · exact Or.inl h
  · exact Or.inr (hword.not_whitespace _ _ h)

theorem trim_stateLine (key : RouteKey) : trim (stateLine cidr key) = stateLine cidr key := by
  apply trim_eq_self
  · intro c hc
    rw [toList_stateLine, List.head?_append_of_ne_nil] at hc
    · exact not_whitespace_of_mem_repr (List.mem_of_mem_head? hc)
    · rw [Nat.toList_repr]
      exact Nat.toDigits_ne_nil
  · intro c hc
    have hne : (cidr.display key.cidr).toList ≠ [] := by
      simpa using hword.ne_empty key.cidr
    rw [toList_stateLine, List.getLast?_append_of_ne_nil _ (by simp),
      List.getLast?_cons_of_ne_nil hne] at hc
    exact hword.not_whitespace _ _ (List.mem_of_getLast? hc)

theorem stateLines_join (keys : List RouteKey) :
    stateLines (String.join ((keys.map (stateLine cidr)).map (· ++ "\n"))) =
      keys.map (stateLine cidr) := by
  have hnot : ∀ c, isWhitespace c = true → c ≠ ' ' → ∀ line ∈ keys.map (stateLine cidr),
      c ∉ line.toList := by
    intro c hwhite hspace line hline hmem
    obtain ⟨key, -, rfl⟩ := List.mem_map.mp hline
    rcases mem_stateLine hword hmem with h | h
    · exact hspace h
    · rw [hwhite] at h
      cases h
  have hlines := strLines_join (hnot '\n' (by decide) (by decide))
    (hnot '\r' (by decide) (by decide))
  have htrim : ∀ key ∈ keys, (trim ∘ stateLine cidr) key = stateLine cidr key :=
    fun key _ => trim_stateLine hword key
  rw [stateLines, hlines, List.map_map, List.map_congr_left htrim]
  apply List.filter_eq_self.mpr
  intro line hline
  obtain ⟨key, -, rfl⟩ := List.mem_map.mp hline
  have hne : stateLine cidr key ≠ "" := by
    intro h
    have hchars : (stateLine cidr key).toList =
        key.nic.toNat.repr.toList ++ ' ' :: (cidr.display key.cidr).toList := toList_stateLine key
    rw [h] at hchars
    simp at hchars
  simpa using hne

/-- What was written for a set is read as that set. -/
theorem restore_persist (installed : Finset RouteKey) :
    restore cidr (some (persist cidr installed)) ∅ = installed := by
  ext key
  rw [persist, mem_restore, stateLines_join hword]
  constructor
  · rintro (h | ⟨line, hline, hparse⟩)
    · cases h
    · obtain ⟨written, hwritten, rfl⟩ := List.mem_map.mp hline
      rw [parseLine_stateLine, Option.some.injEq] at hparse
      exact hparse ▸ (Finset.mem_sort _).mp hwritten
  · intro h
    exact Or.inr ⟨_, List.mem_map_of_mem ((Finset.mem_sort _).mpr h), parseLine_stateLine key⟩

end OneWord

/-! ## Runs -/

/-- How the write of the file ends. A write that fails leaves anything in its place. -/
inductive Write where
  | done
  | failed (left : Option (List UInt8))

/-- What the reconciler remembers, and the bytes of its state file. -/
structure Mirrored where
  installed : Finset RouteKey
  file : Option (List UInt8)

namespace Mirrored

variable (cidr)

/-- The start of the daemon over the file of a previous run. -/
def restored (file : Option (List UInt8)) : Mirrored := ⟨restore cidr file ∅, file⟩

/-- One pass with its write, which is skipped when nothing has changed. -/
def step (self : Mirrored) : Pass × Write → Mirrored
  | (pass, write) =>
    let (installed, changed) := pass.reconcile self.installed
    if changed > 0 then
      match write with
      | .done => ⟨installed, some (persist cidr installed)⟩
      | .failed left => ⟨installed, left⟩
    else ⟨installed, self.file⟩

/-- The file means what the reconciler remembers. -/
def Mirrors (self : Mirrored) : Prop := restore cidr self.file ∅ = self.installed

variable {cidr}

/-- A pass that counts no change leaves the memory as it is. -/
theorem reconcile_fst_of_snd_eq_zero {pass : Pass} {installed : Finset RouteKey}
    (h : (pass.reconcile installed).2 = 0) : (pass.reconcile installed).1 = installed := by
  have hcard : (pass.reconcile installed).2 =
      (symmDiff installed (pass.reconcile installed).1).card :=
    reconcile_snd pass.ifindex pass.faults (pass.on installed) pass.desired
  rw [h] at hcard
  have hempty := Finset.card_eq_zero.mp hcard.symm
  exact (symmDiff_eq_bot.mp hempty).symm

theorem mirrors_step (hword : cidr.OneWord) {self : Mirrored} (h : self.Mirrors cidr)
    (pass : Pass) : (step cidr self (pass, .done)).Mirrors cidr := by
  unfold step
  by_cases hchanged : (pass.reconcile self.installed).2 > 0
  · simp only [if_pos hchanged]
    exact restore_persist hword _
  · simp only [if_neg hchanged]
    have hsame : (pass.reconcile self.installed).1 = self.installed :=
      reconcile_fst_of_snd_eq_zero (by omega)
    rw [Mirrors, hsame]
    exact h

end Mirrored

/-- The state file and the ledger. What is written for a set of keys is restored as that set; of
any text exactly the keys of the lines that parse are restored, and nothing of a file that is
missing or not text; and in every run of a restore and passes whose writes succeed, the file
means the installed set after each pass. -/
theorem state_file_mirrors (cidr : CidrText) (hword : cidr.OneWord) :
    (∀ installed : Finset RouteKey,
      restore cidr (some (persist cidr installed)) ∅ = installed) ∧
    (∀ (content : String) (installed : Finset RouteKey) (key : RouteKey),
      key ∈ restore cidr (some (asBytes content)) installed ↔
        key ∈ installed ∨ ∃ line ∈ stateLines content, parseLine cidr line = some key) ∧
    (∀ (file : Option (List UInt8)) (installed : Finset RouteKey), file.bind fromUtf8 = none →
      restore cidr file installed = installed) ∧
    ∀ (file : Option (List UInt8)) (passes : List (Pass × Write)),
      (∀ pass ∈ passes, pass.2 = .done) →
        let s := Runs.run (Mirrored.step cidr) (Mirrored.restored cidr file) passes
        restore cidr s.file ∅ = s.installed := by
  refine ⟨restore_persist hword, mem_restore,
    fun file installed h => restore_of_unreadable h installed, ?_⟩
  intro file passes hwrites
  have hmeets : Runs.Meets (Mirrored.step cidr) (fun _ _ pass => pass.2 = .done)
      (Mirrored.restored cidr file) passes := Runs.meets_of_forall hwrites
  have hstart : (Mirrored.restored cidr file).Mirrors cidr := rfl
  refine Runs.invariant (P := fun _ s => Mirrored.Mirrors cidr s) hstart ?_ hmeets
  rintro _ s ⟨pass, write⟩ hs rfl
  exact Mirrored.mirrors_step hword hs pass

/-- A subnet, and one host of another nic. -/
theorem state_file_mirrors_dotted :
    CidrText.dotted.OneWord ∧
      restore .dotted (some (persist .dotted
        {⟨7, .ofOctets 10 0 0 0 8⟩, ⟨9, .ofOctets 192 168 1 5 32⟩})) ∅ =
        {⟨7, .ofOctets 10 0 0 0 8⟩, ⟨9, .ofOctets 192 168 1 5 32⟩} :=
  ⟨CidrText.dotted_oneWord, (state_file_mirrors .dotted CidrText.dotted_oneWord).1 _⟩

end Reconciler

end Noeio
