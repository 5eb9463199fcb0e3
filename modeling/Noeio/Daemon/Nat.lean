import Noeio.Lib.Ipv4Cidr
import Noeio.Lib.Runs

/-!
# Forwarding and source NAT

The advertiser side of a subnet router: `converge` of `noeio/src/daemon/nat.rs`, with the
nftables socket and the forwarding sysctl of `noeio-net-route`. A node that advertises keeps an
nftables table and turns `ip_forward` on, after it has saved the original value to a file. A
node that stops advertising removes the table and puts the original back.

Every step on the kernel may fail (`NatFaults`), and then the rest of the call is skipped.
`converge` writes its target to the record only when all steps have succeeded, and it returns
at once when the record says the target already. A call that fails half-way on the way up
therefore leaves a table that the record does not know of, and the way down does nothing.

The save is two steps: `std::fs::write` makes the file and then writes to it. If the second fails, an
empty file is left, and an empty file reads as `0`. So the original value is lost if forwarding was on
(`NatKernel.Loses`), and in no other case (`original_changeTo`).
-/

namespace Noeio

structure AppliedNat where
  overlay : Ipv4Addr × UInt8
  lanIf : String
  tunIf : String
  deriving DecidableEq

/-! ## The table -/

def ifnamsizMax : Nat := 15

structure Ruleset where
  overlay : Ipv4Addr × UInt8
  lanIf : String
  tunIf : String
  mssClamp : Bool
  deriving DecidableEq

/-- The steps that may fail. -/
inductive NatStep where
  | openSocket
  | createTable
  | replaceTable
  | clearTable
  | readForward
  /-- The directory and the file for the original value are made. -/
  | save
  /-- The original value is written to the new file. -/
  | writeSaved
  | writeForward
  | readSaved
  | removeSaved
  deriving DecidableEq

inductive NatError where
  | failed (step : NatStep)
  /-- Rules that `Ruleset::new` refuses, with its text. -/
  | invalid (text : String)
  deriving DecidableEq

/-- The steps that fail in one call. -/
abbrev NatFaults := NatStep → Bool

def checkIfname (name : String) : Except NatError Unit :=
  let allowed (c : Char) : Bool := c.isAlphanum || c == '-' || c == '_' || c == '.'
  if name.isEmpty || name.utf8ByteSize > ifnamsizMax || !name.toList.all allowed then
    .error (.invalid ("'" ++ name ++ "' is not a valid interface name"))
  else .ok ()

def Ruleset.new (overlay : Ipv4Addr × UInt8) (lanIf tunIf : String) (mssClamp : Bool) :
    Except NatError Ruleset := do
  checkIfname lanIf
  checkIfname tunIf
  if overlay.2 > 32 then
    throw (.invalid ("prefix /" ++ toString overlay.2.toNat ++ " is out of range"))
  return ⟨overlay, lanIf, tunIf, mssClamp⟩

/-- The state that outlives the daemon: the `noeio` table (absent, empty or with rules), the
sysctl, and the file with the value it had before. -/
structure NatKernel where
  table : Option (Option Ruleset)
  ipForward : Bool
  saved : Option Bool
  deriving DecidableEq

/-- What an operation leaves behind and what it returns. -/
abbrev NatOutcome (α : Type) := NatKernel × Except NatError α

/-- The rest of a call, which an error skips. -/
def NatOutcome.andThen {α β : Type} (out : NatOutcome α) (rest : NatKernel → NatOutcome β) :
    NatOutcome β :=
  match out with
  | (kernel, .ok _) => rest kernel
  | (kernel, .error err) => (kernel, .error err)

namespace NatKernel

variable (fails : NatFaults)

/-- `NfSocket::apply`: a batch that creates the table, and a batch that replaces it. -/
def apply (self : NatKernel) (rules : Ruleset) : NatOutcome Unit :=
  if fails .createTable then (self, .error (.failed .createTable))
  else
    let self := { self with table := some (self.table.getD none) }
    if fails .replaceTable then (self, .error (.failed .replaceTable))
    else ({ self with table := some (some rules) }, .ok ())

/-- `NfSocket::clear`. An absent table is success. -/
def clear (self : NatKernel) : NatOutcome Unit :=
  if fails .clearTable then (self, .error (.failed .clearTable))
  else ({ self with table := none }, .ok ())

/-! ## The sysctl -/

/-- `forwarding::enable`. A saved value is kept. -/
def enable (self : NatKernel) : NatOutcome Bool :=
  if fails .readForward then (self, .error (.failed .readForward))
  else
    let current := self.ipForward
    if self.saved = none ∧ fails .save then (self, .error (.failed .save))
    else if self.saved = none ∧ fails .writeSaved then
      -- the file is there, and empty it reads as `0`
      ({ self with saved := some false }, .error (.failed .writeSaved))
    else
      let self := { self with saved := some (self.saved.getD current) }
      if current then (self, .ok false)
      else if fails .writeForward then (self, .error (.failed .writeForward))
      else ({ self with ipForward := true }, .ok true)

/-- `forwarding::restore`. Without a saved value there is nothing to do. -/
def restore (self : NatKernel) : NatOutcome Bool :=
  if fails .readSaved then (self, .error (.failed .readSaved))
  else
    match self.saved with
    | none => (self, .ok false)
    | some original =>
      if fails .readForward then (self, .error (.failed .readForward))
      else if self.ipForward ≠ original ∧ fails .writeForward then
        (self, .error (.failed .writeForward))
      else
        let self := { self with ipForward := original }
        if fails .removeSaved then (self, .error (.failed .removeSaved))
        else ({ self with saved := none }, .ok true)

/-- The blocking part of `converge`. The rules come before the forwarding. -/
def changeTo (self : NatKernel) (want : Option AppliedNat) : NatOutcome Unit :=
  if fails .openSocket then (self, .error (.failed .openSocket))
  else
    match want with
    | some t =>
      match Ruleset.new t.overlay t.lanIf t.tunIf true with
      | .error err => (self, .error err)
      | .ok rules =>
        NatOutcome.andThen (self.apply fails rules) fun self =>
        NatOutcome.andThen (self.enable fails) fun self => (self, .ok ())
    | none =>
      NatOutcome.andThen (self.clear fails) fun self =>
      NatOutcome.andThen (self.restore fails) fun self => (self, .ok ())

end NatKernel

/-! ## Convergence -/

/-- The kernel and the record of what is applied. -/
structure NatHost where
  kernel : NatKernel
  applied : Option AppliedNat
  deriving DecidableEq

namespace NatHost

/-- One call of `converge`: its target and the steps that fail in it. -/
structure Call where
  want : Option AppliedNat
  fails : NatFaults

def converge (self : NatHost) (call : Call) : NatHost :=
  if self.applied = call.want then self
  else
    match self.kernel.changeTo call.fails call.want with
    | (kernel, .ok ()) => ⟨kernel, call.want⟩
    | (kernel, .error _) => { self with kernel }

/-- None of the steps that the call takes fails. -/
def Completes (self : NatHost) (call : Call) : Prop :=
  self.applied = call.want ∨ (self.kernel.changeTo call.fails call.want).2 = .ok ()

/-- A host that noeio has not touched. -/
def untouched (v0 : Bool) : NatHost := ⟨⟨none, v0, none⟩, none⟩

/-- The way up fails before it has changed anything. -/
def Call.StopsEarly (call : Call) (t : AppliedNat) : Prop :=
  call.fails .openSocket = true ∨
    (∃ err, Ruleset.new t.overlay t.lanIf t.tunIf true = .error err) ∨
    call.fails .createTable = true

/-- No step fails on the way up once the table is there. -/
def Call.GoesThrough (call : Call) (k : NatKernel) : Prop :=
  call.fails .replaceTable = false ∧ call.fails .readForward = false ∧
    (k.saved = none → call.fails .save = false ∧ call.fails .writeSaved = false) ∧
    (k.ipForward = false → call.fails .writeForward = false)

/-- A call that starts the NAT, with nothing recorded as applied, does all of it or nothing. -/
def Whole (self : NatHost) (call : Call) : Prop :=
  ∀ t, call.want = some t → self.applied = none →
    call.StopsEarly t ∨ call.GoesThrough self.kernel

end NatHost

/-! ## What the steps do -/

namespace NatKernel

/-- The value of the sysctl before noeio touched it: the saved one, if there is one. -/
def original (self : NatKernel) : Bool := self.saved.getD self.ipForward

/-- The step leaves an empty file although forwarding was on. -/
def Loses (k k' : NatKernel) : Prop := k.saved = none ∧ k.ipForward = true ∧ k'.saved = some false

theorem original_of_loses {k k' : NatKernel} (h : k.Loses k') : k'.original ≠ k.original := by
  obtain ⟨hnone, hforward, hsaved⟩ := h
  simp [original, hnone, hforward, hsaved]

theorem apply_fst (fails : NatFaults) (k : NatKernel) (rules : Ruleset) :
    ∃ table, (k.apply fails rules).1 = { k with table } := by
  unfold apply
  split
  · exact ⟨k.table, rfl⟩
  split
  · exact ⟨_, rfl⟩
  · exact ⟨_, rfl⟩

/-- What `enable` leaves: the table, a saved value if there was one, and the original value unless an
empty file takes its place. -/
theorem enable_keeps (fails : NatFaults) (k : NatKernel) :
    ((k.enable fails).1.original = k.original ∨ k.Loses (k.enable fails).1) ∧
      (k.enable fails).1.table = k.table ∧
      (k.saved ≠ none → (k.enable fails).1.saved = k.saved) := by
  unfold enable
  split
  · exact ⟨Or.inl rfl, rfl, fun _ => rfl⟩
  simp only
  split
  · exact ⟨Or.inl rfl, rfl, fun _ => rfl⟩
  split
  · rename_i htorn
    refine ⟨?_, rfl, fun hsaved => absurd htorn.1 hsaved⟩
    cases hforward : k.ipForward with
    | false => exact Or.inl (by simp [original, htorn.1, hforward])
    | true => exact Or.inr ⟨htorn.1, hforward, rfl⟩
  have hkept : k.saved ≠ none → some (k.saved.getD k.ipForward) = k.saved := by
    intro hsaved
    obtain ⟨v, hv⟩ := Option.ne_none_iff_exists'.mp hsaved
    rw [hv, Option.getD_some]
  split
  · exact ⟨Or.inl rfl, rfl, hkept⟩
  split
  · exact ⟨Or.inl rfl, rfl, hkept⟩
  · exact ⟨Or.inl rfl, rfl, hkept⟩

/-- When nothing fails, forwarding is on and the original value is saved. -/
theorem enable_of_ok {fails : NatFaults} {k : NatKernel} {b : Bool}
    (h : (k.enable fails).2 = .ok b) :
    (k.enable fails).1 = { k with ipForward := true, saved := some k.original } := by
  unfold enable at h ⊢
  split at h
  · cases h
  rename_i hread
  rw [if_neg hread]
  simp only at h ⊢
  split at h
  · cases h
  rename_i hsave
  rw [if_neg hsave]
  split at h
  · cases h
  rename_i htorn
  rw [if_neg htorn]
  split at h
  · rename_i hon
    rw [if_pos hon]
    simp only [← hon, original]
  rename_i hoff
  rw [if_neg hoff]
  split at h
  · cases h
  rename_i hwrite
  rw [if_neg hwrite]
  rfl

theorem clear_cases (fails : NatFaults) (k : NatKernel) :
    (∃ err, k.clear fails = (k, .error err)) ∨
      k.clear fails = ({ k with table := none }, .ok ()) := by
  unfold clear
  split
  · exact Or.inl ⟨_, rfl⟩
  · exact Or.inr rfl

/-- A restore that does not fail leaves the original value and no file. One that fails has
changed the sysctl at most, and only with the file still there. -/
theorem restore_cases (fails : NatFaults) (k : NatKernel) :
    (∃ ipForward err, k.restore fails = ({ k with ipForward }, .error err) ∧
      (k.saved = none → ipForward = k.ipForward)) ∨
      ∃ b, k.restore fails = ({ k with ipForward := k.original, saved := none }, .ok b) := by
  unfold restore
  split
  · exact Or.inl ⟨k.ipForward, _, rfl, fun _ => rfl⟩
  split
  · rename_i hsaved
    have hsame : k = { k with ipForward := k.original, saved := none } := by
      cases k
      cases hsaved
      rfl
    exact Or.inr ⟨false, congrArg (·, _) hsame⟩
  · rename_i original hsaved
    have horiginal : k.original = original := by simp [NatKernel.original, hsaved]
    split
    · exact Or.inl ⟨k.ipForward, _, rfl, fun _ => rfl⟩
    split
    · exact Or.inl ⟨k.ipForward, _, rfl, fun _ => rfl⟩
    simp only
    split
    · exact Or.inl ⟨original, _, rfl, fun h => by simp [hsaved] at h⟩
    · exact Or.inr ⟨true, by rw [horiginal]⟩

theorem original_restore (fails : NatFaults) (k : NatKernel) :
    (k.restore fails).1.original = k.original := by
  rcases restore_cases fails k with ⟨ipForward, err, h, hsaved⟩ | ⟨b, h⟩
  · rw [h]
    cases hk : k.saved with
    | none => simp [original, hk, hsaved hk]
    | some v => simp [original, hk]
  · rw [h]
    rfl

theorem andThen_ok_fst {α : Type} (out : NatOutcome α) :
    (out.andThen fun k => (k, .ok ())).1 = out.1 := by
  obtain ⟨k, result⟩ := out
  cases result <;> rfl

/-- The way up ends where it stops: at the start, after the rules, or after the sysctl. -/
theorem changeTo_some_cases (fails : NatFaults) (k : NatKernel) (t : AppliedNat) :
    ∃ table, (k.changeTo fails (some t)).1 = { k with table } ∨
      (k.changeTo fails (some t)).1 = (NatKernel.enable fails { k with table }).1 := by
  unfold changeTo
  split
  · exact ⟨k.table, Or.inl rfl⟩
  simp only
  split
  · exact ⟨k.table, Or.inl rfl⟩
  rename_i rules _
  obtain ⟨table, happly⟩ := apply_fst fails k rules
  refine ⟨table, ?_⟩
  cases hk : k.apply fails rules with
  | mk k' result =>
    rw [hk] at happly
    obtain rfl : k' = { k with table } := happly
    cases result with
    | error err => exact Or.inl rfl
    | ok u => exact Or.inr (andThen_ok_fst _)

/-- The way down leaves the table or not, and then it is the restore. -/
theorem changeTo_none_cases (fails : NatFaults) (k : NatKernel) :
    ((k.changeTo fails none).1 = k ∧ (k.changeTo fails none).2 ≠ .ok ()) ∨
      (k.changeTo fails none).1 = (NatKernel.restore fails { k with table := none }).1 := by
  unfold changeTo
  split
  · exact Or.inl ⟨rfl, by simp⟩
  simp only
  rcases clear_cases fails k with ⟨err, h⟩ | h
  · rw [h]
    exact Or.inl ⟨rfl, by simp [NatOutcome.andThen]⟩
  · rw [h]
    exact Or.inr (andThen_ok_fst _)

/-- A call keeps the original value, whatever fails in it, unless it leaves an empty file. -/
theorem original_changeTo (fails : NatFaults) (k : NatKernel) (want : Option AppliedNat) :
    (k.changeTo fails want).1.original = k.original ∨ k.Loses (k.changeTo fails want).1 := by
  cases want with
  | none =>
    left
    rcases changeTo_none_cases fails k with ⟨h, -⟩ | h
    · rw [h]
    · rw [h]
      exact original_restore fails { k with table := none }
  | some t =>
    obtain ⟨table, h | h⟩ := changeTo_some_cases fails k t
    · rw [h]
      exact Or.inl rfl
    · rw [h]
      exact (enable_keeps fails { k with table }).1

/-- A saved value stays until the way down is complete. -/
theorem saved_changeTo {fails : NatFaults} {k : NatKernel} {want : Option AppliedNat}
    (hsaved : k.saved ≠ none) (h : (k.changeTo fails want).1.saved = none) :
    want = none ∧ (k.changeTo fails want).2 = .ok () := by
  cases want with
  | some t =>
    obtain ⟨table, hout | hout⟩ := changeTo_some_cases fails k t
    · rw [hout] at h
      exact absurd h hsaved
    · rw [hout, (enable_keeps fails { k with table }).2.2 hsaved] at h
      exact absurd h hsaved
  | none =>
    refine ⟨rfl, ?_⟩
    unfold changeTo at h ⊢
    split at h
    · exact absurd h hsaved
    rename_i hopen
    rw [if_neg hopen]
    simp only at h ⊢
    rcases clear_cases fails k with ⟨err, hclear⟩ | hclear
    · rw [hclear] at h
      exact absurd h hsaved
    rw [hclear] at h ⊢
    rcases restore_cases fails { k with table := none } with ⟨ipForward, err, hres, -⟩ | ⟨b, hres⟩
    · simp only [NatOutcome.andThen, hres] at h
      exact absurd h hsaved
    · simp only [NatOutcome.andThen, hres]

/-- The way down, when nothing fails, ends with no table and the original value. -/
theorem changeTo_none_of_ok {fails : NatFaults} {k : NatKernel}
    (h : (k.changeTo fails none).2 = .ok ()) :
    (k.changeTo fails none).1 = ⟨none, k.original, none⟩ := by
  unfold changeTo at h ⊢
  split at h
  · cases h
  rename_i hopen
  rw [if_neg hopen]
  simp only at h ⊢
  rcases clear_cases fails k with ⟨err, hclear⟩ | hclear
  · rw [hclear] at h
    cases h
  rw [hclear] at h ⊢
  rcases restore_cases fails { k with table := none } with ⟨ipForward, err, hres, -⟩ | ⟨b, hres⟩
  · simp only [NatOutcome.andThen, hres] at h
    cases h
  · simp only [NatOutcome.andThen, hres]
    rfl

theorem andThen_of_ok {α β : Type} {out : NatOutcome α} {rest : NatKernel → NatOutcome β} {b : β}
    (h : (out.andThen rest).2 = .ok b) :
    (∃ a, out.2 = .ok a) ∧ out.andThen rest = rest out.1 := by
  obtain ⟨k, result⟩ := out
  cases result with
  | error err => cases h
  | ok a => exact ⟨⟨a, rfl⟩, rfl⟩

theorem table_apply_of_ok {fails : NatFaults} {k : NatKernel} {rules : Ruleset}
    (h : ∃ a, (k.apply fails rules).2 = .ok a) :
    (k.apply fails rules).1.table = some (some rules) := by
  obtain ⟨a, h⟩ := h
  unfold apply at h ⊢
  split at h
  · cases h
  rename_i hcreate
  rw [if_neg hcreate]
  simp only at h ⊢
  split at h
  · cases h
  rename_i hreplace
  rw [if_neg hreplace]

/-- The way up, when nothing fails, leaves the rules of its target in the table, forwarding on, and
the original value saved. -/
theorem changeTo_some_of_ok {fails : NatFaults} {k : NatKernel} {t : AppliedNat}
    (h : (k.changeTo fails (some t)).2 = .ok ()) :
    ∃ rules, Ruleset.new t.overlay t.lanIf t.tunIf true = .ok rules ∧
      (k.changeTo fails (some t)).1 = ⟨some (some rules), true, some k.original⟩ := by
  unfold changeTo at h ⊢
  split at h
  · cases h
  rename_i hopen
  rw [if_neg hopen]
  simp only at h ⊢
  cases hrules : Ruleset.new t.overlay t.lanIf t.tunIf true with
  | error err =>
    rw [hrules] at h
    cases h
  | ok rules =>
    refine ⟨rules, rfl, ?_⟩
    simp only [hrules] at h ⊢
    obtain ⟨happly, hrest⟩ := andThen_of_ok h
    rw [hrest] at h ⊢
    obtain ⟨⟨b, henable⟩, hlast⟩ := andThen_of_ok h
    have htable := table_apply_of_ok happly
    obtain ⟨table, hkept⟩ := apply_fst fails k rules
    rw [hkept] at hlast henable htable ⊢
    rw [hlast, enable_of_ok henable, htable]
    rfl

theorem changeTo_of_stopsEarly {call : NatHost.Call} {k : NatKernel} {t : AppliedNat}
    (h : call.StopsEarly t) : ∃ err, k.changeTo call.fails (some t) = (k, .error err) := by
  unfold changeTo
  split
  · exact ⟨_, rfl⟩
  rename_i hopen
  rcases h with h | ⟨err, herr⟩ | h
  · exact absurd h hopen
  · simp only [herr]
    exact ⟨err, rfl⟩
  · simp only
    split
    · exact ⟨_, rfl⟩
    · simp only [apply, h, if_true, NatOutcome.andThen]
      exact ⟨_, rfl⟩

theorem changeTo_of_goesThrough {call : NatHost.Call} {k : NatKernel} {t : AppliedNat}
    (hearly : ¬ call.StopsEarly t) (h : call.GoesThrough k) :
    (k.changeTo call.fails (some t)).2 = .ok () := by
  obtain ⟨hreplace, hread, hsave, hwrite⟩ := h
  simp only [NatHost.Call.StopsEarly, not_or, Bool.not_eq_true] at hearly
  obtain ⟨hopen, hvalid, hcreate⟩ := hearly
  cases hrules : Ruleset.new t.overlay t.lanIf t.tunIf true with
  | error err => exact absurd ⟨err, hrules⟩ hvalid
  | ok rules =>
    have hnosave : ¬ (k.saved = none ∧ call.fails .save = true) := by
      rintro ⟨hnone, hfail⟩
      rw [(hsave hnone).1] at hfail
      cases hfail
    have hnotorn : ¬ (k.saved = none ∧ call.fails .writeSaved = true) := by
      rintro ⟨hnone, hfail⟩
      rw [(hsave hnone).2] at hfail
      cases hfail
    cases hforward : k.ipForward with
    | true =>
      simp [changeTo, apply, enable, NatOutcome.andThen, hopen, hrules, hcreate, hreplace, hread,
        hnosave, hnotorn, hforward]
    | false =>
      simp [changeTo, apply, enable, NatOutcome.andThen, hopen, hrules, hcreate, hreplace, hread,
        hnosave, hnotorn, hforward, hwrite hforward]

end NatKernel

/-! ## Runs -/

namespace NatHost

variable {s : NatHost} {call : Call}

/-- What a call does: it returns at once, it completes and records its target, or it fails and
leaves the record. -/
theorem converge_cases (s : NatHost) (call : Call) :
    (s.applied = call.want ∧ s.converge call = s) ∨
      ((s.kernel.changeTo call.fails call.want).2 = .ok () ∧
        s.converge call = ⟨(s.kernel.changeTo call.fails call.want).1, call.want⟩) ∨
      s.applied ≠ call.want ∧ (s.kernel.changeTo call.fails call.want).2 ≠ .ok () ∧
        s.converge call = { s with kernel := (s.kernel.changeTo call.fails call.want).1 } := by
  unfold converge
  by_cases hsame : s.applied = call.want
  · exact Or.inl ⟨hsame, if_pos hsame⟩
  · rw [if_neg hsame]
    rcases s.kernel.changeTo call.fails call.want with ⟨kernel, err | u⟩
    · exact Or.inr (Or.inr ⟨hsame, by simp, rfl⟩)
    · exact Or.inr (Or.inl ⟨rfl, rfl⟩)

/-- The original value is not lost, it is saved while anything is recorded as applied, and where
nothing is recorded nothing is. -/
structure Accounted (v0 : Bool) (s : NatHost) : Prop where
  original : s.kernel.original = v0
  saved : s.applied ≠ none → s.kernel.saved ≠ none
  untouched : s.applied = none → s.kernel.table = none ∧ s.kernel.saved = none

/-- A call that starts the NAT whole leaves no empty file, and no other call makes a file. -/
theorem Accounted.not_loses {v0 : Bool} (h : s.Accounted v0) (hwhole : s.Whole call) :
    ¬ s.kernel.Loses (s.kernel.changeTo call.fails call.want).1 := by
  rintro ⟨hnone, hforward, hsaved⟩
  have happlied : s.applied = none := by_contra fun hsome => h.saved hsome hnone
  cases hwant : call.want with
  | none =>
    rw [hwant] at hsaved
    rcases s.kernel.changeTo_none_cases call.fails with ⟨hout, -⟩ | hout
    · rw [hout, hnone] at hsaved
      cases hsaved
    · rw [hout] at hsaved
      rcases NatKernel.restore_cases call.fails { s.kernel with table := none } with
        ⟨ipForward, err, hres, -⟩ | ⟨b, hres⟩
      · rw [hres] at hsaved
        cases hsaved.symm.trans hnone
      · rw [hres] at hsaved
        cases hsaved
  | some t =>
    rw [hwant] at hsaved
    by_cases hearly : call.StopsEarly t
    · obtain ⟨err, hkept⟩ := NatKernel.changeTo_of_stopsEarly (k := s.kernel) hearly
      rw [hkept] at hsaved
      cases hsaved.symm.trans hnone
    · have hgoes := (hwhole t hwant happlied).resolve_left hearly
      obtain ⟨table, hout | hout⟩ := NatKernel.changeTo_some_cases call.fails s.kernel t
      · rw [hout] at hsaved
        cases hsaved.symm.trans hnone
      · obtain ⟨-, hread, hsave, -⟩ := hgoes
        rw [hout] at hsaved
        simp [NatKernel.enable, hread, hnone, hforward, hsave hnone] at hsaved

theorem Accounted.converge {v0 : Bool} (h : s.Accounted v0) (hwhole : s.Whole call) :
    (s.converge call).Accounted v0 := by
  have horiginal : (s.kernel.changeTo call.fails call.want).1.original = v0 :=
    ((s.kernel.original_changeTo call.fails call.want).resolve_right (h.not_loses hwhole)).trans
      h.original
  rcases converge_cases s call with ⟨-, hout⟩ | ⟨hok, hout⟩ | ⟨hne, herr, hout⟩
  · rw [hout]
    exact h
  · rw [hout]
    refine ⟨horiginal, fun hsome => ?_, fun hnone => ?_⟩
    · obtain ⟨t, ht⟩ : ∃ t, call.want = some t := Option.ne_none_iff_exists'.mp hsome
      rw [ht] at hok ⊢
      obtain ⟨rules, -, hout⟩ := NatKernel.changeTo_some_of_ok hok
      rw [hout]
      simp
    · have hnone : call.want = none := hnone
      rw [hnone] at hok ⊢
      rw [NatKernel.changeTo_none_of_ok hok]
      exact ⟨rfl, rfl⟩
  · rw [hout]
    refine ⟨horiginal, fun hsome hnone => ?_, fun hnone => ?_⟩
    · exact herr (NatKernel.saved_changeTo (h.saved hsome) hnone).2
    have hnone : s.applied = none := hnone
    obtain ⟨t, ht⟩ : ∃ t, call.want = some t :=
      Option.ne_none_iff_exists'.mp fun hwant => hne (hnone.trans hwant.symm)
    rw [ht] at herr ⊢
    by_cases hearly : call.StopsEarly t
    · obtain ⟨err, hkept⟩ := NatKernel.changeTo_of_stopsEarly (k := s.kernel) hearly
      rw [hkept]
      exact h.untouched hnone
    · have hgoes := (hwhole t ht hnone).resolve_left hearly
      exact absurd (NatKernel.changeTo_of_goesThrough hearly hgoes) herr

/-- **The way down is complete**: after any calls, of which those that start the NAT do all of
it or nothing, a call with no target that completes leaves no table and the original value. -/
theorem converge_none_cleans {v0 : Bool} {calls : List Call}
    (hcalls : Runs.Meets converge (fun _ => Whole) (untouched v0) calls) {fails : NatFaults}
    (hdone : (Runs.run converge (untouched v0) calls).Completes ⟨none, fails⟩) :
    ((Runs.run converge (untouched v0) calls).converge ⟨none, fails⟩).kernel.table = none ∧
      ((Runs.run converge (untouched v0) calls).converge ⟨none, fails⟩).kernel.ipForward = v0 := by
  have hacc : (Runs.run converge (untouched v0) calls).Accounted v0 := by
    refine Runs.invariant (P := fun _ s => s.Accounted v0)
      ⟨rfl, fun hsome => absurd rfl hsome, fun _ => ⟨rfl, rfl⟩⟩ ?_ hcalls
    intro _ s call h hwhole
    exact h.converge hwhole
  generalize Runs.run converge (untouched v0) calls = s at hdone hacc
  have hwhole : s.Whole ⟨none, fails⟩ := by
    rintro t ⟨⟩
  have hafter := hacc.converge hwhole
  have hnone : (s.converge ⟨none, fails⟩).applied = none := by
    rcases converge_cases s ⟨none, fails⟩ with ⟨hsame, hout⟩ | ⟨-, hout⟩ | ⟨hne, herr, -⟩
    · rw [hout]
      exact hsame
    · rw [hout]
    · exact absurd hdone (by simp [Completes, hne, herr])
  obtain ⟨htable, hsaved⟩ := hafter.untouched hnone
  refine ⟨htable, ?_⟩
  have horiginal := hafter.original
  rw [NatKernel.original, hsaved] at horiginal
  exact horiginal

namespace Sample

def lanNat : AppliedNat := ⟨(.ofOctets 10 0 0 0, 24), "eth0", "noeio0"⟩

def failing (step : NatStep) : NatFaults := fun s => s = step

def healthy : NatFaults := fun _ => false

/-- A start that fails at the socket, one that succeeds, and a stop that fails at the sysctl. -/
def bumpy : List Call :=
  [⟨some lanNat, failing .openSocket⟩, ⟨some lanNat, healthy⟩, ⟨none, failing .writeForward⟩]

theorem converge_none_cleans_bumpy :
    (Runs.run converge (untouched false) bumpy).kernel = ⟨none, true, some false⟩ ∧
      ((Runs.run converge (untouched false) bumpy).converge ⟨none, healthy⟩).kernel.table = none ∧
      ((Runs.run converge (untouched false) bumpy).converge ⟨none, healthy⟩).kernel.ipForward =
        false := by
  have hsocket : (untouched false).Whole ⟨some lanNat, failing .openSocket⟩ :=
    fun _ _ _ => Or.inl (Or.inl rfl)
  have hstart : (untouched false).Whole ⟨some lanNat, healthy⟩ :=
    fun _ _ _ => Or.inr ⟨rfl, rfl, fun _ => ⟨rfl, rfl⟩, fun _ => rfl⟩
  have hmeets : Runs.Meets converge (fun _ => Whole) (untouched false) bumpy :=
    ⟨hsocket, hstart, nofun, trivial⟩
  exact ⟨by decide, converge_none_cleans hmeets (Or.inr (by decide))⟩

/-- A start that fails after the rules are in place. -/
def halfway : List Call := [⟨some lanNat, failing .writeForward⟩]

/-- The stop that follows finds nothing recorded and does nothing. -/
theorem leaves_table :
    (Runs.run converge (untouched false) halfway).Completes ⟨none, healthy⟩ ∧
      ((Runs.run converge (untouched false) halfway).converge ⟨none, healthy⟩).kernel.table ≠
        none := by
  exact ⟨Or.inl (by decide), by decide⟩

end Sample

end NatHost

end Noeio
