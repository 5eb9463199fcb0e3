import Noeio.Derp.TokenService
import Noeio.Lib.Runs

/-!
# The configuration of the derper

`Config::load` of `noeio-derp/src/config.rs` and the lives of a derper on one machine. A life loads
the settings, issues tokens under the secret in them, and ends. What outlives it is the file.

A secret that is missing is generated, and it is written to the file before it is used. So a load
that completes leaves a file from which every later load reads the same settings (`Settled`), and a
write that tears the file can only take place before there is a secret to lose. A token is accepted
in every later life until it expires (`tokens_survive_restarts`).

The TOML library is the parameter `Toml`; `Sample.toml` is the part of it in which a derper writes its
settings.
-/

namespace Noeio.Derp

structure Config where
  auth : Auth

def Config.default : Config := ⟨⟨true, ""⟩⟩

/-- The TOML library: it parses what it has written. -/
structure Toml where
  parse : String → Except String Config
  display : Config → String
  parse_display : ∀ cfg, parse (display cfg) = .ok cfg

/-! ## Loading -/

/-- What goes wrong in a load. -/
inductive LoadFault where
  | read (err : String)
  | createDir (err : String)
  /-- The write fails, or the process dies in it, and `left` is what it leaves of the file. -/
  | write (err : String) (left : Option String)

/-- The panics of a load, with the error that each of them names. -/
inductive LoadError where
  | read (err : String)
  | parse (err : String)
  | createDir (err : String)
  | write (err : String)

/-- The 32 random bytes, with two digits for each. -/
def generateSecret (bytes : Vector UInt8 32) : String := String.ofList (UuidText.hexBytes bytes.toList)

namespace Config

/-- `persist`: the file that is there afterwards. -/
def persist (self : Config) (toml : Toml) (fault : Option LoadFault) (disk : Option String) :
    Option String × Except LoadError Unit :=
  match fault with
  | some (.createDir err) => (disk, .error (.createDir err))
  | some (.write err left) => (left, .error (.write err))
  | _ => (some (toml.display self), .ok ())

/-- The settings of the file, or the default ones if there is no file. -/
def read (toml : Toml) (fault : Option LoadFault) : Option String → Except LoadError Config
  | none => .ok .default
  | some content =>
    match fault with
    | some (.read err) => .error (.read err)
    | _ => (toml.parse content).mapError .parse

/-- `Config::load`: the file that is there afterwards, and the settings. -/
def load (toml : Toml) (random : Vector UInt8 32) (fault : Option LoadFault) (disk : Option String) :
    Option String × Except LoadError Config :=
  match read toml fault disk with
  | .error err => (disk, .error err)
  | .ok config =>
    if config.auth.isLocal && config.auth.secret.isEmpty then
      let config : Config := ⟨{ config.auth with secret := generateSecret random }⟩
      match config.persist toml fault disk with
      | (disk, .error err) => (disk, .error err)
      | (disk, .ok ()) => (disk, .ok config)
    else (disk, .ok config)

end Config

/-! ## Lives -/

/-- The file, the settings of the process that runs, and the responses to the requests for tokens. -/
structure Lives where
  disk : Option String
  running : Option Auth
  issued : List CreateTokenResponse

inductive LifeEvent where
  | boot (random : Vector UInt8 32) (fault : Option LoadFault)
  | createToken (now : UInt64) (req : CreateTokenRequest)
  /-- A shutdown or a kill. -/
  | stop

namespace Lives

section
variable (toml : Toml) (checks : Bool) (uuid : UuidText) (jwt : Jwt)

/-- A second process loads the settings, and gets no further. -/
def boot (self : Lives) (random : Vector UInt8 32) (fault : Option LoadFault) : Lives :=
  let loaded := Config.load toml random fault self.disk
  { self with
    disk := loaded.1
    running := match loaded.2 with
      | .error _ => self.running
      | .ok config => some (self.running.getD config.auth) }

def step (self : Lives) : LifeEvent → Lives
  | .boot random fault => self.boot toml random fault
  | .createToken now req =>
    match self.running with
    | none => self
    | some auth =>
      match createToken checks uuid jwt now auth req with
      | .ok (.ok response) => { self with issued := self.issued ++ [response] }
      | _ => self
  | .stop => { self with running := none }

def run (disk : Option String) (es : List LifeEvent) : Lives :=
  Runs.run (step toml checks uuid jwt) ⟨disk, none, []⟩ es

end

end Lives

/-! ## The secret -/

theorem length_generateSecret (bytes : Vector UInt8 32) :
    (generateSecret bytes).toList.length = 64 := by
  simp [generateSecret, UuidText.length_hexBytes]

theorem generateSecret_ne_empty (bytes : Vector UInt8 32) : generateSecret bytes ≠ "" := by
  intro hempty
  have hlength := length_generateSecret bytes
  rw [hempty] at hlength
  cases hlength

/-- Every load that completes gives these settings and leaves the file. -/
def Settled (toml : Toml) (disk : Option String) (auth : Auth) : Prop :=
  ∃ content, disk = some content ∧ toml.parse content = .ok ⟨auth⟩ ∧
    (auth.isLocal && auth.secret.isEmpty) = false

section
variable {toml : Toml} {disk : Option String} {auth : Auth}

theorem Settled.unique (h : Settled toml disk auth) {other : Auth} (hother : Settled toml disk other) :
    auth = other := by
  obtain ⟨content, rfl, hparse, -⟩ := h
  obtain ⟨content', hcontent, hparse', -⟩ := hother
  obtain rfl := Option.some.inj hcontent
  exact congrArg Config.auth (Except.ok.inj (hparse.symm.trans hparse'))

theorem Config.parse_of_read {fault : Option LoadFault} {content : String} {config : Config}
    (h : Config.read toml fault (some content) = .ok config) : toml.parse content = .ok config := by
  have hparse : (toml.parse content).mapError LoadError.parse = .ok config := by
    cases fault with
    | none => exact h
    | some fault =>
      cases fault with
      | read err => cases h
      | createDir err => exact h
      | write err left => exact h
  cases hresult : toml.parse content with
  | error err =>
    rw [hresult] at hparse
    cases hparse
  | ok read =>
    rw [hresult] at hparse
    cases hparse
    rfl

theorem Settled.load (h : Settled toml disk auth) (random : Vector UInt8 32)
    (fault : Option LoadFault) :
    (Config.load toml random fault disk).1 = disk ∧
      ∀ config, (Config.load toml random fault disk).2 = .ok config → config.auth = auth := by
  obtain ⟨content, rfl, hparse, hsecret⟩ := h
  unfold Config.load
  cases hread : Config.read toml fault (some content) with
  | error err =>
    refine ⟨rfl, fun config h => ?_⟩
    cases h
  | ok config =>
    obtain rfl : ⟨auth⟩ = config := Except.ok.inj (hparse.symm.trans (Config.parse_of_read hread))
    simp only [hsecret, Bool.false_eq_true, if_false]
    refine ⟨trivial, fun config h => ?_⟩
    cases h
    rfl

/-- A load that completes settles the settings. -/
theorem settled_of_load {random : Vector UInt8 32} {fault : Option LoadFault} {config : Config}
    (h : (Config.load toml random fault disk).2 = .ok config) :
    Settled toml (Config.load toml random fault disk).1 config.auth := by
  unfold Config.load at h ⊢
  cases hread : Config.read toml fault disk with
  | error err =>
    rw [hread] at h
    cases h
  | ok loaded =>
    rw [hread] at h
    simp only at h ⊢
    cases hsecret : loaded.auth.isLocal && loaded.auth.secret.isEmpty with
    | false =>
      simp only [hsecret, Bool.false_eq_true, if_false] at h ⊢
      cases h
      cases disk with
      | none =>
        cases hread
        cases hsecret
      | some content => exact ⟨content, rfl, Config.parse_of_read hread, hsecret⟩
    | true =>
      simp only [hsecret, if_true] at h ⊢
      let generated : Config := ⟨{ loaded.auth with secret := generateSecret random }⟩
      have hwritten : Settled toml (some (toml.display generated)) generated.auth := by
        refine ⟨_, rfl, toml.parse_display generated, ?_⟩
        have hne : (generateSecret random).isEmpty = false := by
          simpa using generateSecret_ne_empty random
        rw [hne, Bool.and_false]
      cases fault with
      | none =>
        cases h
        exact hwritten
      | some fault =>
        cases fault with
        | read err =>
          cases h
          exact hwritten
        | createDir err => cases h
        | write err left => cases h

end

/-! ## The tokens -/

theorem encode_of_issue {checks : Bool} {uuid : UuidText} {jwt : Jwt} {now : UInt64}
    {secret networkId : String} {ttl : Option UInt64} {token : String} {claims : Claims}
    (h : issue checks uuid jwt now secret networkId ttl = .ok (.ok (token, claims))) :
    jwt.encode claims secret = .ok token := by
  unfold issue at h
  cases hnetwork : uuid.parseStr networkId with
  | error err =>
    rw [hnetwork] at h
    cases h
  | ok network =>
    simp only [hnetwork] at h
    -- With a lifetime or without, what follows is the signing.
    cases ttl
    all_goals
      obtain ⟨exp, -, h⟩ := bind_eq_ok h
      split at h
      · cases h
      · rename_i hencode
        cases h
        exact hencode

/-- A response holds a token that the library has signed under the secret. -/
theorem signed_of_createToken {checks : Bool} {uuid : UuidText} {jwt : Jwt} {now : UInt64}
    {auth : Auth} {req : CreateTokenRequest} {response : CreateTokenResponse}
    (h : createToken checks uuid jwt now auth req = .ok (.ok response)) :
    ∃ claims, jwt.encode claims auth.secret = .ok response.token ∧
      claims.exp = response.expiresAt := by
  unfold createToken at h
  split at h
  · cases h
  obtain ⟨issued, hissued, hresponse⟩ := exists_of_map_eq_ok h
  cases issued with
  | error err =>
    cases err with
    | invalidData text => cases hresponse
    | other text => cases hresponse
  | ok issued =>
    obtain ⟨token, claims⟩ := issued
    cases hresponse
    exact ⟨claims, encode_of_issue hissued, rfl⟩

/-- What holds of the lives so far: the settings of the process that runs are settled, and so is the
secret of every token. -/
structure Lives.Kept (toml : Toml) (jwt : Jwt) (s : Lives) : Prop where
  running : ∀ auth, s.running = some auth → Settled toml s.disk auth
  issued : ∀ r ∈ s.issued, ∃ auth claims, Settled toml s.disk auth ∧
    jwt.encode claims auth.secret = .ok r.token ∧ claims.exp = r.expiresAt

namespace Lives

section
variable {toml : Toml} {checks : Bool} {uuid : UuidText} {jwt : Jwt} {s : Lives}

theorem settled_step {auth : Auth} (h : Settled toml s.disk auth) (e : LifeEvent) :
    Settled toml (s.step toml checks uuid jwt e).disk auth := by
  cases e with
  | boot random fault =>
    have hdisk : (s.step toml checks uuid jwt (.boot random fault)).disk = s.disk :=
      (h.load random fault).1
    rw [hdisk]
    exact h
  | createToken now req =>
    have hdisk : (s.step toml checks uuid jwt (.createToken now req)).disk = s.disk := by
      unfold step
      simp only
      split
      · rfl
      · split <;> rfl
    rw [hdisk]
    exact h
  | stop => exact h

theorem Kept.step (h : s.Kept toml jwt) (e : LifeEvent) :
    (s.step toml checks uuid jwt e).Kept toml jwt := by
  cases e with
  | stop =>
    refine ⟨fun auth hauth => ?_, h.issued⟩
    cases hauth
  | createToken now req =>
    cases hrunning : s.running with
    | none =>
      have hsame : s.step toml checks uuid jwt (.createToken now req) = s := by
        simp [Lives.step, hrunning]
      rw [hsame]
      exact h
    | some auth =>
      unfold Lives.step
      simp only [hrunning]
      split
      · rename_i response hresponse
        refine ⟨fun auth' hauth => h.running auth' (hrunning.trans hauth), fun r hr => ?_⟩
        rcases List.mem_append.mp hr with hr | hr
        · exact h.issued r hr
        · obtain ⟨claims, hencode, hexp⟩ := signed_of_createToken hresponse
          rw [List.mem_singleton.mp hr]
          exact ⟨auth, claims, h.running auth hrunning, hencode, hexp⟩
      · exact h
  | boot random fault =>
    have hsettled : ∀ auth, Settled toml s.disk auth →
        Settled toml (s.step toml checks uuid jwt (.boot random fault)).disk auth :=
      fun auth hauth => settled_step hauth _
    refine ⟨fun auth hauth => ?_, fun r hr => ?_⟩
    · have hauth : (match (Config.load toml random fault s.disk).2 with
          | .error _ => s.running
          | .ok config => some (s.running.getD config.auth)) = some auth := hauth
      cases hload : (Config.load toml random fault s.disk).2 with
      | error err =>
        rw [hload] at hauth
        exact hsettled auth (h.running auth hauth)
      | ok config =>
        rw [hload] at hauth
        cases hrunning : s.running with
        | none =>
          rw [hrunning] at hauth
          cases hauth
          exact settled_of_load hload
        | some old =>
          rw [hrunning] at hauth
          cases hauth
          exact hsettled old (h.running old hrunning)
    · obtain ⟨auth, claims, hauth, hencode, hexp⟩ := h.issued r hr
      exact ⟨auth, claims, hsettled auth hauth, hencode, hexp⟩

theorem kept_run (disk : Option String) (es : List LifeEvent) :
    (run toml checks uuid jwt disk es).Kept toml jwt := by
  refine Runs.invariant_of_step (P := fun _ (s : Lives) => s.Kept toml jwt) ?_
    (fun _ _ e h => h.step e) es
  refine ⟨fun auth h => ?_, fun r hr => ?_⟩
  · cases h
  · cases hr

theorem settled_run {disk : Option String} {pre : List LifeEvent} {auth : Auth}
    (h : Settled toml (run toml checks uuid jwt disk pre).disk auth) (post : List LifeEvent) :
    Settled toml (run toml checks uuid jwt disk (pre ++ post)).disk auth := by
  rw [run, Runs.run_append]
  exact Runs.invariant_of_step (P := fun _ (s : Lives) => Settled toml s.disk auth) h
    (fun _ _ e h => settled_step h e) post

end

end Lives

/-- **Tokens survive restarts.** Over any sequence of lives on one machine, whatever random bytes the
loads draw, and whether they complete, fail or die in the write of the file: all processes that run
have the same settings, and a token that one of them has issued is accepted by every later one until
it expires, and no longer. -/
theorem tokens_survive_restarts (toml : Toml) (checks : Bool) (uuid : UuidText) (jwt : Jwt)
    (disk : Option String) (pre post : List LifeEvent) :
    (∀ a b, (Lives.run toml checks uuid jwt disk pre).running = some a →
      (Lives.run toml checks uuid jwt disk (pre ++ post)).running = some b → b = a) ∧
      ∀ r ∈ (Lives.run toml checks uuid jwt disk pre).issued, ∀ auth,
        (Lives.run toml checks uuid jwt disk (pre ++ post)).running = some auth →
        ∃ claims, claims.exp = r.expiresAt ∧
          (∀ t, (∀ exp, r.expiresAt = some exp → t ≤ exp) →
            verify jwt.decode t auth.secret r.token = .ok claims) ∧
          ∀ t exp, r.expiresAt = some exp → exp < t →
            verify jwt.decode t auth.secret r.token = .error (.expired claims) := by
  have hpre : (Lives.run toml checks uuid jwt disk pre).Kept toml jwt := Lives.kept_run disk pre
  have hpost : (Lives.run toml checks uuid jwt disk (pre ++ post)).Kept toml jwt :=
    Lives.kept_run disk (pre ++ post)
  refine ⟨fun a b ha hb => ?_, fun r hr auth hauth => ?_⟩
  · exact (hpost.running b hb).unique (Lives.settled_run (hpre.running a ha) post)
  · obtain ⟨signer, claims, hsigner, hencode, hexp⟩ := hpre.issued r hr
    obtain rfl := (hpost.running auth hauth).unique (Lives.settled_run hsigner post)
    have hdecode := jwt.decode_encode hencode
    refine ⟨claims, hexp, fun t ht => ?_, fun t exp ht hlt => ?_⟩
    · exact verify_of_le hdecode fun exp h => ht exp (hexp.symm.trans h)
    · exact verify_of_lt hdecode (hexp.trans ht) hlt

namespace Sample

/-! ### The files of a derper -/

def quote : Char := Char.ofNat 34

def backslash : Char := Char.ofNat 92

def escape : List Char → List Char
  | [] => []
  | c :: cs => if c = quote ∨ c = backslash then backslash :: c :: escape cs else c :: escape cs

/-- The string up to its closing quote, and the rest. -/
def unescape (escaped : Bool) : List Char → Option (List Char × List Char)
  | [] => none
  | c :: cs =>
    if escaped = false ∧ c = quote then some ([], cs)
    else if escaped = false ∧ c = backslash then unescape true cs
    else (unescape false cs).map fun (secret, rest) => (c :: secret, rest)

theorem unescape_escape (cs rest : List Char) :
    unescape false (escape cs ++ quote :: rest) = some (cs, rest) := by
  induction cs with
  | nil => rfl
  | cons c cs ih =>
    rw [escape]
    by_cases hspecial : c = quote ∨ c = backslash
    · have hbackslash : backslash ≠ quote := by decide
      simp [hspecial, unescape, hbackslash, ih]
    · rw [if_neg hspecial]
      rw [not_or] at hspecial
      simp [unescape, hspecial, ih]

def header (isLocal : Bool) : List Char :=
  (if isLocal then "[auth]\nlocal = true\nsecret = " else "[auth]\nlocal = false\nsecret = ").toList

def written (cfg : Config) : List Char :=
  header cfg.auth.isLocal ++ quote :: (escape cfg.auth.secret.toList ++ [quote, '\n'])

def readAuth (isLocal : Bool) (cs : List Char) : Option Config :=
  if header isLocal ++ [quote] <+: cs then
    match unescape false (cs.drop (header isLocal ++ [quote]).length) with
    | some (secret, ['\n']) => some ⟨⟨isLocal, String.ofList secret⟩⟩
    | _ => none
  else none

theorem readAuth_written (cfg : Config) : readAuth cfg.auth.isLocal (written cfg) = some cfg := by
  have hsplit : written cfg = (header cfg.auth.isLocal ++ [quote]) ++
      (escape cfg.auth.secret.toList ++ [quote, '\n']) := by
    simp [written]
  rw [readAuth, hsplit, if_pos (List.prefix_append _ _), List.drop_left, unescape_escape]
  simp

theorem readAuth_other (cfg : Config) : readAuth (!cfg.auth.isLocal) (written cfg) = none := by
  refine if_neg fun hother => ?_
  have hown : header cfg.auth.isLocal ++ [quote] <+: written cfg := by
    refine ⟨escape cfg.auth.secret.toList ++ [quote, '\n'], ?_⟩
    simp [written]
  have hclash : ∀ b, ¬ (header b ++ [quote] <+: header (!b) ++ [quote]) := by decide +kernel
  rcases List.prefix_or_prefix_of_prefix hown hother with h | h
  · exact hclash _ h
  · refine hclash (!cfg.auth.isLocal) ?_
    rwa [Bool.not_not]

/-- The part of TOML in which a derper writes its settings. An empty file has the default ones. -/
def toml : Toml where
  parse s :=
    if s = "" then .ok .default
    else
      match (readAuth true s.toList).or (readAuth false s.toList) with
      | some cfg => .ok cfg
      | none => .error "invalid settings"
  display cfg := String.ofList (written cfg)
  parse_display cfg := by
    have hne : String.ofList (written cfg) ≠ "" := by
      intro hempty
      have hlist := congrArg String.toList hempty
      rw [String.toList_ofList, written] at hlist
      cases cfg.auth.isLocal <;> simp at hlist
    rw [if_neg hne, String.toList_ofList]
    have hread := readAuth_written cfg
    have hother := readAuth_other cfg
    cases hlocal : cfg.auth.isLocal with
    | true =>
      rw [hlocal] at hread
      rw [hread]
      rfl
    | false =>
      rw [hlocal] at hread hother
      rw [show readAuth true (written cfg) = none from hother, hread]
      rfl

example : toml.display ⟨⟨true, "deadbeef"⟩⟩ = "[auth]\nlocal = true\nsecret = \"deadbeef\"\n" := by
  decide +kernel

/-! ### Two lives -/

def bytes : Vector UInt8 32 := .ofFn fun i => UInt8.ofNat i

def bootToken : String :=
  "eyJ0eXAiOiJKV1QiLCJhbGciOiJIUzI1NiJ9." ++
    "eyJpc3MiOiJkZXJwZXIiLCJzdWIiOiIwYTFiMmMzZC00ZTVmLTYwNzEtODI5My1hNGI1YzZkN2U4ZjkiLCJp" ++
    "YXQiOjE3MDAwMDAwMDAsImV4cCI6MTcwMDAwMzYwMH0." ++
    "C8p1znrYRHuEsOFRjLFF-SVgr9Kf6BZKH7V7DecT2nM"

def bootJwt : Jwt := signsOnce hourClaims (generateSecret bytes) bootToken

/-- A load that dies in the write and leaves an empty file, and a life that issues a token. -/
def firstLives : List LifeEvent :=
  [.boot (.replicate 32 7) (some (.write "killed" (some ""))), .boot bytes none,
    .createToken 1700000000 ⟨UuidText.hex.hyphenated network, some 3600⟩]

def restart : List LifeEvent := [.stop, .boot (.replicate 32 9) none]

theorem tokens_survive_restarts_torn :
    (Lives.run toml true .hex bootJwt none (firstLives ++ restart)).disk =
        some (toml.display ⟨⟨true, generateSecret bytes⟩⟩) ∧
      ∃ claims, claims.exp = some 1700003600 ∧
        verify bootJwt.decode 1700003600 (generateSecret bytes) bootToken = .ok claims ∧
        verify bootJwt.decode 1700003601 (generateSecret bytes) bootToken =
          .error (.expired claims) := by
  obtain ⟨-, haccepted⟩ := tokens_survive_restarts toml true .hex bootJwt none firstLives restart
  have hissued : (⟨bootToken, some 1700003600⟩ : CreateTokenResponse) ∈
      (Lives.run toml true .hex bootJwt none firstLives).issued := by
    decide +kernel
  have hrunning : (Lives.run toml true .hex bootJwt none (firstLives ++ restart)).running =
      some ⟨true, generateSecret bytes⟩ := by
    decide +kernel
  obtain ⟨claims, hexp, hbefore, hafter⟩ := haccepted _ hissued _ hrunning
  refine ⟨by decide +kernel, claims, hexp, hbefore 1700003600 fun exp hle => ?_,
    hafter 1700003601 1700003600 rfl (by decide)⟩
  cases hle
  exact UInt64.le_refl _

end Sample

end Noeio.Derp
