import Noeio.Common.HostInfoText
import Noeio.Derp.Token
import Noeio.Lib.Checked

/-!
# Issuing tokens

How long a token lives, from the command line to its expiry: `parse_ttl` of
`noeio-derp/src/cli.rs`, which reads the lifetime, `create_token` of `rpc/service.rs`, to which it
is sent as a number of seconds, and `issue` of `token.rs`, which adds it to the time of issue.

The code does not check its arithmetic, so `checks` says whether the build does. A text is read as
the lifetime that it says if the product fits and the last byte is a character of its own
(`ttlExact_iff`), and a token expires when it should if the sum fits (`tokenExact_iff`).

The JWT library that signs a token and reads it back is the parameter `Jwt`.
-/

namespace Noeio.Derp

open Text

/-! ## Reading a lifetime -/

def parseU64 (s : String) : Except String UInt64 := (parseUnsigned (2 ^ 64) s).map UInt64.ofNat

/-- What the value of each unit is multiplied by, one factor after the other. -/
def unitFactors : String → Option (List UInt64)
  | "s" => some []
  | "m" => some [60]
  | "h" => some [60, 60]
  | "d" => some [60, 60, 24]
  | _ => none

/-- Parse a human-friendly duration: plain seconds or a number with a `s`/`m`/`h`/`d` suffix. -/
def parseTtl (checks : Bool) (s : String) : Except Checked.Panic (Except String UInt64) :=
  let s := trim s
  let invalid (e : String) : String := "invalid duration '" ++ s ++ "': " ++ e
  if s.isEmpty then .ok (.error "empty duration")
  else if s.toList.all Char.isDigit then .ok ((parseU64 s).mapError invalid)
  else
    match strSplitAt s (s.utf8ByteSize - 1) with
    | none => .error .notCharBoundary
    | some (value, unit) =>
      match parseU64 value with
      | .error e => .ok (.error (invalid e))
      | .ok value =>
        match unitFactors unit with
        | some factors => (factors.foldlM (Checked.mul checks) value).map .ok
        | none => .ok (.error ("invalid duration unit '" ++ unit ++ "', expected s/m/h/d"))

/-! ## Issuing -/

def localIssuer : String := "derper"

/-- 90 days. -/
def defaultTtl : UInt64 := 90 * 24 * 60 * 60

/-- The JWT library: it decodes what it has encoded under the same secret. -/
structure Jwt where
  encode : Claims → String → Except String String
  decode : String → String → Except JwtError Claims
  decode_encode : ∀ {claims secret token}, encode claims secret = .ok token →
    decode token secret = .ok claims

/-- The kinds of `std::io::Error` that `issue` returns, with the text. -/
inductive IssueError where
  | invalidData (text : String)
  | other (text : String)
  deriving DecidableEq

structure Auth where
  isLocal : Bool
  secret : String
  deriving DecidableEq

structure CreateTokenRequest where
  networkId : String
  ttlSeconds : Option UInt64

structure CreateTokenResponse where
  token : String
  expiresAt : Option UInt64
  deriving DecidableEq

inductive Status where
  | failedPrecondition (text : String)
  | invalidArgument (text : String)
  | internal (text : String)
  deriving DecidableEq

section
variable (checks : Bool) (uuid : UuidText) (jwt : Jwt) (now : UInt64)

def issue (secret networkId : String) (ttl : Option UInt64) :
    Except Checked.Panic (Except IssueError (String × Claims)) :=
  match uuid.parseStr networkId with
  | .error err => .ok (.error (.invalidData err))
  | .ok network => do
    let exp ← match ttl with
      | some ttl => (Checked.add checks now ttl).map some
      | none => .ok none
    let claims : Claims := { iss := localIssuer, sub := uuid.hyphenated network, iat := now, exp }
    match jwt.encode claims secret with
    | .error err => return .error (.other err)
    | .ok token => return .ok (token, claims)

def createToken (auth : Auth) (req : CreateTokenRequest) :
    Except Checked.Panic (Except Status CreateTokenResponse) :=
  if !auth.isLocal then
    .ok (.error (.failedPrecondition "local token issuing is disabled (auth.local = false)"))
  else
    let ttl := match req.ttlSeconds with
      | none => some defaultTtl
      -- explicit 0: never expires
      | some 0 => none
      | some secs => some secs
    (issue checks uuid jwt now auth.secret req.networkId ttl).map fun issued =>
      match issued with
      | .error (.invalidData text) => .error (.invalidArgument text)
      | .error (.other text) => .error (.internal text)
      | .ok (token, claims) => .ok { token, expiresAt := claims.exp }

end

/-! ## What a lifetime is -/

def unitSecs : Char → Option Nat
  | 's' => some 1
  | 'm' => some 60
  | 'h' => some (60 * 60)
  | 'd' => some (60 * 60 * 24)
  | _ => none

/-- The trimmed text says how many seconds: a decimal, or a decimal, with a plus sign perhaps, and
a unit. -/
def Lifetime (s : String) (secs : Nat) : Prop :=
  Decimal (trim s).toList secs ∨
    ∃ value unit n k, (trim s).toList = value ++ [unit] ∧ Unsigned value n ∧
      unitSecs unit = some k ∧ secs = n * k

/-- The text is read without a panic, and only as the number of seconds that it says. -/
def TtlExact (checks : Bool) (s : String) : Prop :=
  ∃ result, parseTtl checks s = .ok result ∧
    ∀ secs : UInt64, result = .ok secs → Lifetime s secs.toNat

/-- The trimmed text ends in an ASCII character, and if it is a `u64` and a unit, the product is a
`u64` too. -/
def TtlFits (s : String) : Prop :=
  ∀ value unit, (trim s).toList = value ++ [unit] → unit.toNat < 128 ∧
    ∀ n k, Unsigned value n → n < 2 ^ 64 → unitSecs unit = some k → n * k < 2 ^ 64

/-- What is signed for a lifetime of `ttl` seconds, if the sum fits. -/
def issuedClaims (uuid : UuidText) (network : NetworkId) (now ttl : UInt64) : Claims where
  iss := localIssuer
  sub := uuid.hyphenated network
  iat := now
  exp := if ttl = 0 then none else some (now + ttl)

/-- The request for a lifetime of `ttl` seconds is answered with a token that has no `exp` if `ttl`
is zero and otherwise expires `ttl` seconds after `now`, and that is verified accordingly. -/
def TokenExact (checks : Bool) (uuid : UuidText) (jwt : Jwt) (now : UInt64) (auth : Auth)
    (networkId : String) (ttl : UInt64) : Prop :=
  ∃ response claims,
    createToken checks uuid jwt now auth ⟨networkId, some ttl⟩ = .ok (.ok response) ∧
      response.expiresAt = claims.exp ∧
      claims.exp.map UInt64.toNat = (if ttl = 0 then none else some (now.toNat + ttl.toNat)) ∧
      (∀ t, now ≤ t → (∀ exp, claims.exp = some exp → t ≤ exp) →
        verify jwt.decode t auth.secret response.token = .ok claims) ∧
      ∀ t exp, claims.exp = some exp → exp < t →
        verify jwt.decode t auth.secret response.token = .error (.expired claims)

/-! ## Numbers -/

theorem parseU64_eq_ok_iff {s : String} {n : UInt64} :
    parseU64 s = .ok n ↔ Unsigned s.toList n.toNat := by
  have hread : parseUnsigned (2 ^ 64) s = .ok n.toNat ↔ Unsigned s.toList n.toNat := by
    rw [parseUnsigned_eq_ok_iff (Nat.two_pow_pos 64), and_iff_left n.toNat_lt]
  rw [← hread]
  unfold parseU64
  cases hs : parseUnsigned (2 ^ 64) s with
  | error e => simp [Except.map]
  | ok m =>
    have hm := ((parseUnsigned_eq_ok_iff (Nat.two_pow_pos 64)).mp hs).2
    simp only [Except.map, Except.ok.injEq]
    constructor
    · rintro rfl
      exact (UInt64.toNat_ofNat_of_lt' hm).symm
    · rintro rfl
      exact UInt64.ofNat_toNat

theorem parseU64_ofList {cs : List Char} {n : UInt64} :
    parseU64 (String.ofList cs) = .ok n ↔ Unsigned cs n.toNat := by
  rw [parseU64_eq_ok_iff, String.toList_ofList]

theorem exists_parseU64 {cs : List Char} {n : Nat} (h : Unsigned cs n) (hn : n < 2 ^ 64) :
    ∃ value : UInt64, parseU64 (String.ofList cs) = .ok value ∧ value.toNat = n := by
  have hvalue : (UInt64.ofNat n).toNat = n := UInt64.toNat_ofNat_of_lt' hn
  refine ⟨UInt64.ofNat n, parseU64_ofList.mpr ?_, hvalue⟩
  rw [hvalue]
  exact h

theorem unsigned_iff_of_digits {cs : List Char} (h : ∀ c ∈ cs, c.isDigit = true) {n : Nat} :
    Unsigned cs n ↔ Decimal cs n := by
  refine or_iff_left ?_
  rintro ⟨value, rfl, -⟩
  exact absurd (h '+' List.mem_cons_self) (by decide)

/-! ## Units -/

/-- The factors of a unit multiply up to its seconds. -/
theorem unitSecs_eq (unit : Char) : unitSecs unit =
    (unitFactors (String.ofList [unit])).map fun factors => (factors.map UInt64.toNat).prod := by
  have hchar : ∀ {c : Char}, String.ofList [unit] = String.singleton c → unit = c := by
    intro c h
    have hlist := congrArg String.toList h
    rw [String.toList_ofList, String.toList_singleton] at hlist
    exact List.head_eq_of_cons_eq hlist
  unfold unitFactors
  split
  · rename_i h
    rw [hchar (c := 's') h]
    rfl
  · rename_i h
    rw [hchar (c := 'm') h]
    rfl
  · rename_i h
    rw [hchar (c := 'h') h]
    rfl
  · rename_i h
    rw [hchar (c := 'd') h]
    rfl
  · rename_i hs hm hh hd
    unfold unitSecs
    split
    · exact absurd rfl hs
    · exact absurd rfl hm
    · exact absurd rfl hh
    · exact absurd rfl hd
    · rfl

theorem pos_of_mem_unitFactors {unit : String} {factors : List UInt64}
    (h : unitFactors unit = some factors) : ∀ b ∈ factors, 0 < b.toNat := by
  unfold unitFactors at h
  split at h <;> cases h <;> simp

theorem unit_not_digit {unit : Char} {k : Nat} (h : unitSecs unit = some k) :
    unit.isDigit = false ∧ unit.toNat < 128 ∧ 0 < k := by
  unfold unitSecs at h
  split at h <;> cases h <;> decide

/-! ## The two forms -/

section
variable {checks : Bool} {s : String}

theorem isEmpty_eq_false {value : List Char} {unit : Char} (h : s.toList = value ++ [unit]) :
    s.isEmpty = false := by
  rw [← Bool.not_eq_true, String.isEmpty_iff]
  rintro rfl
  simp at h

/-- Plain seconds. -/
theorem parseTtl_of_digits (checks : Bool) (hne : (trim s).toList ≠ [])
    (hdigits : ∀ c ∈ (trim s).toList, c.isDigit = true) :
    ∃ invalid, parseTtl checks s = .ok ((parseU64 (trim s)).mapError invalid) := by
  have hempty : (trim s).isEmpty = false := by
    obtain ⟨value, unit, hcs⟩ := (List.eq_nil_or_concat' (trim s).toList).resolve_left hne
    exact isEmpty_eq_false hcs
  simp only [parseTtl, hempty, Bool.false_eq_true, if_false, if_pos (List.all_eq_true.mpr hdigits)]
  exact ⟨_, rfl⟩

/-- A value and a unit, which is cut off as the last byte. -/
theorem parseTtl_of_unit (checks : Bool) {value : List Char} {unit : Char} (hcs : (trim s).toList = value ++ [unit])
    (hdigits : ¬ ∀ c ∈ (trim s).toList, c.isDigit = true) :
    ∃ (invalid : String → String) (unknown : String), parseTtl checks s =
      if unit.toNat < 128 then
        match parseU64 (String.ofList value) with
        | .error e => .ok (.error (invalid e))
        | .ok value =>
          match unitFactors (String.ofList [unit]) with
          | some factors => (factors.foldlM (Checked.mul checks) value).map .ok
          | none => .ok (.error unknown)
      else .error .notCharBoundary := by
  simp only [parseTtl, isEmpty_eq_false hcs, Bool.false_eq_true, if_false,
    if_neg (mt List.all_eq_true.mp hdigits), strSplitAt_last hcs]
  by_cases hascii : unit.toNat < 128
  · simp only [if_pos hascii]
    exact ⟨_, _, rfl⟩
  · simp only [if_neg hascii]
    exact ⟨id, "", trivial⟩

/-! ## Reading is exact -/

/-- A value and a unit of a text determine the lifetime. -/
theorem Lifetime.eq_mul {secs n k : Nat} {value : List Char} {unit : Char} (h : Lifetime s secs)
    (hcs : (trim s).toList = value ++ [unit]) (hn : Unsigned value n)
    (hk : unitSecs unit = some k) : secs = n * k := by
  rcases h with h | ⟨value', unit', n', k', hcs', hn', hk', rfl⟩
  · -- a unit is no digit
    have hunit := h.2.1 unit (by simp [hcs])
    rw [(unit_not_digit hk).1] at hunit
    cases hunit
  · rw [hcs] at hcs'
    obtain ⟨rfl, hunit⟩ := List.append_inj' hcs' rfl
    cases hunit
    rw [hk, Option.some.injEq] at hk'
    rw [hk', hn.unique hn']

/-- Every lifetime below `2 ^ 64` is read. -/
theorem parseTtl_of_lifetime {secs : UInt64} (h : Lifetime s secs.toNat) :
    parseTtl checks s = .ok (.ok secs) := by
  rcases h with h | ⟨value, unit, n, k, hcs, hn, hk, hsecs⟩
  · obtain ⟨invalid, hparse⟩ := parseTtl_of_digits checks h.1 h.2.1
    rw [hparse, parseU64_eq_ok_iff.mpr (Or.inl h)]
    rfl
  · obtain ⟨hunit, hascii, hpos⟩ := unit_not_digit hk
    have hdigits : ¬ ∀ c ∈ (trim s).toList, c.isDigit = true := by
      intro h
      rw [h unit (by simp [hcs])] at hunit
      cases hunit
    obtain ⟨invalid, unknown, hparse⟩ := parseTtl_of_unit checks hcs hdigits
    have hlt := secs.toNat_lt
    have hle : n ≤ n * k := Nat.le_mul_of_pos_right n hpos
    obtain ⟨v, hv, rfl⟩ := exists_parseU64 hn (by omega)
    obtain ⟨factors, hfactors, rfl⟩ := Option.map_eq_some_iff.mp ((unitSecs_eq unit).symm.trans hk)
    obtain ⟨c, hproduct, hc⟩ := Checked.product_of_fits checks
      (pos_of_mem_unitFactors hfactors) (a := v) (by omega)
    have hcsecs : c = secs := UInt64.toNat_inj.mp (hc.trans hsecs.symm)
    rw [hparse, if_pos hascii, hv]
    simp only [hfactors, hproduct, Except.map, hcsecs]

theorem ttlExact_of_digits (checks : Bool)
    (hdigits : ∀ c ∈ (trim s).toList, c.isDigit = true) :
    TtlExact checks s ∧ TtlFits s := by
  refine ⟨?_, fun value unit hcs => ?_⟩
  · by_cases hne : (trim s).toList = []
    · have hempty : (trim s).isEmpty = true := by
        rw [String.isEmpty_iff, ← String.toList_eq_nil_iff, hne]
      refine ⟨.error "empty duration", ?_, fun secs h => by cases h⟩
      rw [parseTtl, hempty]
      rfl
    · obtain ⟨invalid, hparse⟩ := parseTtl_of_digits checks hne hdigits
      refine ⟨_, hparse, fun secs h => ?_⟩
      cases hread : parseU64 (trim s) with
      | error e =>
        rw [hread] at h
        cases h
      | ok n =>
        rw [hread] at h
        cases h
        exact Or.inl ((unsigned_iff_of_digits hdigits).mp (parseU64_eq_ok_iff.mp hread))
  · have hunit := hdigits unit (by simp [hcs])
    refine ⟨?_, fun n k _ _ hk => ?_⟩
    · have hrange : 48 ≤ unit.toNat ∧ unit.toNat ≤ 57 := Char.isDigit_iff_toNat.mp hunit
      omega
    · rw [(unit_not_digit hk).1] at hunit
      cases hunit

/-- A text is read exactly if it fits. -/
theorem ttlExact_iff : TtlExact checks s ↔ TtlFits s := by
  by_cases hdigits : ∀ c ∈ (trim s).toList, c.isDigit = true
  · obtain ⟨hexact, hfits⟩ := ttlExact_of_digits checks hdigits
    exact iff_of_true hexact hfits
  have hne : (trim s).toList ≠ [] := by
    intro hnil
    rw [hnil] at hdigits
    exact hdigits fun c hc => absurd hc List.not_mem_nil
  obtain ⟨value, unit, hcs⟩ := (List.eq_nil_or_concat' (trim s).toList).resolve_left hne
  obtain ⟨invalid, unknown, hparse⟩ := parseTtl_of_unit checks hcs hdigits
  constructor
  · rintro ⟨result, hresult, hexact⟩ value' unit' hcs'
    obtain ⟨rfl, hunit⟩ := List.append_inj' (hcs.symm.trans hcs') rfl
    cases hunit
    rw [hparse] at hresult
    split at hresult
    · rename_i hascii
      refine ⟨hascii, fun n k hn hlt hk => ?_⟩
      obtain ⟨v, hv, rfl⟩ := exists_parseU64 hn hlt
      obtain ⟨factors, hfactors, -⟩ := Option.map_eq_some_iff.mp ((unitSecs_eq unit).symm.trans hk)
      rw [hv] at hresult
      simp only [hfactors] at hresult
      -- the product was computed, and it is the one that the text says
      cases hproduct : factors.foldlM (Checked.mul checks) v with
      | error panic =>
        rw [hproduct] at hresult
        cases hresult
      | ok c =>
        rw [hproduct] at hresult
        cases hresult
        rw [← (hexact c rfl).eq_mul hcs hn hk]
        exact c.toNat_lt
    · cases hresult
  · intro hfits
    obtain ⟨hascii, hproducts⟩ := hfits value unit hcs
    rw [if_pos hascii] at hparse
    cases hread : parseU64 (String.ofList value) with
    | error e =>
      rw [hread] at hparse
      exact ⟨_, hparse, fun secs h => by cases h⟩
    | ok v =>
      rw [hread] at hparse
      have hv := parseU64_ofList.mp hread
      cases hfactors : unitFactors (String.ofList [unit]) with
      | none =>
        rw [hfactors] at hparse
        exact ⟨_, hparse, fun secs h => by cases h⟩
      | some factors =>
        have hk := unitSecs_eq unit
        rw [hfactors, Option.map_some] at hk
        obtain ⟨c, hproduct, hc⟩ := Checked.product_of_fits checks
          (pos_of_mem_unitFactors hfactors) (hproducts v.toNat _ hv v.toNat_lt hk)
        simp only [hfactors, hproduct, Except.map] at hparse
        refine ⟨_, hparse, fun secs h => ?_⟩
        cases h
        exact Or.inr ⟨value, unit, v.toNat, _, hcs, hv, hk, hc⟩

example : parseTtl true " 90d\n" = .ok (.ok (90 * 86400)) := by decide +kernel

end

/-! ## Expiry is exact -/

section
variable {decode : String → String → Except JwtError Claims} {secret token : String}
  {claims : Claims} {t : UInt64}

theorem verify_of_le (hdecode : decode token secret = .ok claims)
    (h : ∀ exp, claims.exp = some exp → t ≤ exp) : verify decode t secret token = .ok claims := by
  unfold verify
  rw [hdecode]
  simp only
  split
  · rename_i exp hexp
    exact if_neg (UInt64.not_lt.mpr (h exp hexp))
  · rfl

theorem verify_of_lt (hdecode : decode token secret = .ok claims) {exp : UInt64}
    (hexp : claims.exp = some exp) (h : exp < t) :
    verify decode t secret token = .error (.expired claims) := by
  unfold verify
  rw [hdecode]
  simp only [hexp, if_pos h]

end

section
variable {checks : Bool} {uuid : UuidText} {jwt : Jwt} {now ttl : UInt64} {auth : Auth}
  {networkId : String} {network : NetworkId}

/-- A request that is not refused is answered with what the library signs. -/
theorem createToken_eq (hlocal : auth.isLocal = true) (hid : uuid.parseStr networkId = .ok network)
    {exp : Option UInt64} (hexp : ttl = 0 ∧ exp = none ∨
      ttl ≠ 0 ∧ ∃ sum, Checked.add checks now ttl = .ok sum ∧ exp = some sum) :
    createToken checks uuid jwt now auth ⟨networkId, some ttl⟩ =
      match jwt.encode ⟨localIssuer, uuid.hyphenated network, now, exp⟩ auth.secret with
      | .error err => .ok (.error (.internal err))
      | .ok token => .ok (.ok ⟨token, exp⟩) := by
  rcases hexp with ⟨rfl, rfl⟩ | ⟨hzero, sum, hadd, rfl⟩
  · simp only [createToken, issue, hlocal, hid, Bool.not_true, Bool.false_eq_true, if_false,
      bind, Except.bind]
    cases jwt.encode ⟨localIssuer, uuid.hyphenated network, now, none⟩ auth.secret <;> rfl
  · simp only [createToken, issue, hlocal, hid, Bool.not_true, Bool.false_eq_true, if_false, hadd,
      bind, Except.bind]
    cases hsign : jwt.encode ⟨localIssuer, uuid.hyphenated network, now, some sum⟩ auth.secret with
    | error err =>
      simp only [Except.map, hsign]
      rfl
    | ok token =>
      simp only [Except.map, hsign]
      rfl

theorem createToken_of_fits (hlocal : auth.isLocal = true)
    (hid : uuid.parseStr networkId = .ok network)
    (hfits : ttl = 0 ∨ now.toNat + ttl.toNat < 2 ^ 64) {token : String}
    (hencode : jwt.encode (issuedClaims uuid network now ttl) auth.secret = .ok token) :
    createToken checks uuid jwt now auth ⟨networkId, some ttl⟩ =
      .ok (.ok ⟨token, (issuedClaims uuid network now ttl).exp⟩) := by
  have hexp : ttl = 0 ∧ (issuedClaims uuid network now ttl).exp = none ∨ ttl ≠ 0 ∧
      ∃ sum, Checked.add checks now ttl = .ok sum ∧
        (issuedClaims uuid network now ttl).exp = some sum := by
    by_cases hzero : ttl = 0
    · exact Or.inl ⟨hzero, if_pos hzero⟩
    · have hadd := (Checked.add_of_fits checks (hfits.resolve_left hzero)).1
      exact Or.inr ⟨hzero, _, hadd, if_neg hzero⟩
  have hsigned : jwt.encode ⟨localIssuer, uuid.hyphenated network, now,
      (issuedClaims uuid network now ttl).exp⟩ auth.secret = .ok token := hencode
  rw [createToken_eq hlocal hid hexp, hsigned]

theorem fits_of_tokenExact (h : TokenExact checks uuid jwt now auth networkId ttl) :
    ttl = 0 ∨ now.toNat + ttl.toNat < 2 ^ 64 := by
  obtain ⟨response, claims, -, -, hexp, -⟩ := h
  by_cases hzero : ttl = 0
  · exact Or.inl hzero
  · rw [if_neg hzero] at hexp
    obtain ⟨exp, -, hsum⟩ := Option.map_eq_some_iff.mp hexp
    rw [← hsum]
    exact Or.inr exp.toNat_lt

/-- A token expires exactly if the sum fits. -/
theorem tokenExact_iff (hlocal : auth.isLocal = true)
    (hid : uuid.parseStr networkId = .ok network)
    (hencode : ∃ token, jwt.encode (issuedClaims uuid network now ttl) auth.secret = .ok token) :
    TokenExact checks uuid jwt now auth networkId ttl ↔
      ttl = 0 ∨ now.toNat + ttl.toNat < 2 ^ 64 := by
  constructor
  · exact fits_of_tokenExact
  · intro hfits
    obtain ⟨token, hencode⟩ := hencode
    have hdecode := jwt.decode_encode hencode
    refine ⟨_, _, createToken_of_fits hlocal hid hfits hencode, rfl, ?_,
      fun t _ h => verify_of_le hdecode h, fun t exp hexp h => verify_of_lt hdecode hexp h⟩
    by_cases hzero : ttl = 0
    · rw [issuedClaims, if_pos hzero, if_pos hzero]
      rfl
    · rw [issuedClaims, if_neg hzero, if_neg hzero, Option.map_some]
      exact congrArg some (Checked.add_of_fits true (hfits.resolve_left hzero)).2

end

/-! ## Lifetimes -/

/-- From the text to the expiry: which lifetimes are read as they are written, that those which
are representable all are, and which of them a token keeps. -/
theorem lifetimes_exact_iff (checks : Bool) :
    (∀ s, TtlExact checks s ↔ TtlFits s) ∧
      (∀ s (secs : UInt64), Lifetime s secs.toNat → parseTtl checks s = .ok (.ok secs)) ∧
      ∀ (uuid : UuidText) (jwt : Jwt) (now ttl : UInt64) (auth : Auth) (networkId : String)
        (network : NetworkId), auth.isLocal = true → uuid.parseStr networkId = .ok network →
        (∃ token, jwt.encode (issuedClaims uuid network now ttl) auth.secret = .ok token) →
        (TokenExact checks uuid jwt now auth networkId ttl ↔
          ttl = 0 ∨ now.toNat + ttl.toNat < 2 ^ 64) :=
  ⟨fun _ => ttlExact_iff, fun _ _ => parseTtl_of_lifetime,
    fun _ _ _ _ _ _ _ hlocal hid hencode => tokenExact_iff hlocal hid hencode⟩

namespace Sample

def network : NetworkId :=
  #v[0x0a, 0x1b, 0x2c, 0x3d, 0x4e, 0x5f, 0x60, 0x71, 0x82, 0x93, 0xa4, 0xb5, 0xc6, 0xd7, 0xe8, 0xf9]

def hourAuth : Auth := ⟨true, "test-secret"⟩

/-- An hour from the time 1700000000. -/
def hourClaims : Claims := issuedClaims .hex network 1700000000 3600

def hourToken : String :=
  "eyJ0eXAiOiJKV1QiLCJhbGciOiJIUzI1NiJ9." ++
    "eyJpc3MiOiJkZXJwZXIiLCJzdWIiOiIwYTFiMmMzZC00ZTVmLTYwNzEtODI5My1hNGI1YzZkN2U4ZjkiLCJp" ++
    "YXQiOjE3MDAwMDAwMDAsImV4cCI6MTcwMDAwMzYwMH0." ++
    "OnY5Gi9JPLrGL4UvdjukPcBYPct9AAewkmlIDlpI6DM"

/-- The signature of one set of claims under one secret. -/
def signsOnce (signed : Claims) (key signature : String) : Jwt where
  encode claims secret :=
    if claims = signed ∧ secret = key then .ok signature else .error "not signed"
  decode token secret :=
    if token = signature ∧ secret = key then .ok signed else .error .invalidSignature
  decode_encode := by
    intro claims secret token h
    split at h
    · rename_i hsigned
      cases h
      rw [if_pos ⟨rfl, hsigned.2⟩, hsigned.1]
    · cases h

def hourJwt : Jwt := signsOnce hourClaims "test-secret" hourToken

theorem lifetimes_exact_hour :
    TtlExact true "+1h" ∧ parseTtl true "+1h" = .ok (.ok 3600) ∧
      TokenExact true .hex hourJwt 1700000000 hourAuth (UuidText.hex.hyphenated network) 3600 := by
  obtain ⟨hread, hlifetime, htoken⟩ := lifetimes_exact_iff true
  have hunsigned : Unsigned ['+', '1'] 1 := Or.inr ⟨['1'], rfl, by simp, by simp, by decide⟩
  have hchars : (trim "+1h").toList = ['+', '1'] ++ ['h'] := by decide
  have hfits : TtlFits "+1h" := by
    intro value unit hcs
    obtain ⟨rfl, hunit⟩ := List.append_inj' (hchars.symm.trans hcs) rfl
    cases hunit
    refine ⟨by decide, fun n k hn hlt hk => ?_⟩
    rw [← hunsigned.unique hn]
    cases hk
    decide
  have hhour : Lifetime "+1h" (3600 : UInt64).toNat :=
    Or.inr ⟨_, _, 1, 60 * 60, hchars, hunsigned, rfl, rfl⟩
  refine ⟨(hread _).mpr hfits, hlifetime _ _ hhour, ?_⟩
  have hsigned : hourJwt.encode (issuedClaims .hex network 1700000000 3600) hourAuth.secret =
      .ok hourToken := by
    simp only [hourJwt, signsOnce]
    exact if_pos ⟨rfl, rfl⟩
  exact (htoken .hex hourJwt 1700000000 3600 hourAuth _ network rfl
    (UuidText.hex.parseStr_hyphenated network) ⟨hourToken, hsigned⟩).mpr (Or.inr (by decide))

/-- A text that ends inside a character, a product that wraps to an eternal token, and a sum that
no `exp` can hold. Without overflow checks that token has expired before it is issued. -/
theorem lifetimes_inexact :
    (∀ checks, ¬ TtlExact checks "5é") ∧
      (∀ checks, ¬ TtlExact checks "144115188075855872d") ∧
      parseTtl false "144115188075855872d" = .ok (.ok 0) ∧
      (∀ checks jwt, ¬ TokenExact checks .hex jwt 1700000000 hourAuth
        (UuidText.hex.hyphenated network) 18446744073709551615) ∧
      ∀ jwt response, createToken false .hex jwt 1700000000 hourAuth
        ⟨UuidText.hex.hyphenated network, some 18446744073709551615⟩ = .ok (.ok response) →
        response.expiresAt = some 1699999999 := by
  refine ⟨fun checks h => ?_, fun checks h => ?_, by decide +kernel, fun checks jwt h => ?_, ?_⟩
  · have hchars : (trim "5é").toList = ['5'] ++ ['é'] := by decide
    have hascii := (ttlExact_iff.mp h _ _ hchars).1
    revert hascii
    decide
  · have hchars : (trim "144115188075855872d").toList = "144115188075855872".toList ++ ['d'] := by
      decide
    have hvalue : Unsigned "144115188075855872".toList 144115188075855872 :=
      Or.inl ⟨by decide, List.all_eq_true.mp (by decide), by decide⟩
    have hproduct := (ttlExact_iff.mp h _ _ hchars).2 _ _ hvalue (by decide) rfl
    revert hproduct
    decide
  · have hfits := fits_of_tokenExact h
    revert hfits
    decide
  · intro jwt response h
    have hadd : Checked.add false 1700000000 18446744073709551615 = .ok 1699999999 := by decide
    rw [createToken_eq rfl (UuidText.hex.parseStr_hyphenated network)
      (Or.inr ⟨by decide, _, hadd, rfl⟩)] at h
    split at h
    · cases h
    · cases h
      rfl

end Sample

end Noeio.Derp
