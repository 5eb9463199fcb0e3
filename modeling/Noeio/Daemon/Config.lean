import Noeio.Daemon.Derper
import Noeio.Daemon.Gate
import Noeio.Lib.KeyedList

/-!
# The configuration at boot

`Config::append_stuns`, `append_derpers` and `append_routes` of `noeio/src/config.rs`, which put the
flags of the command line on top of the file, `resolve_control_plane` of
`noeio/src/daemon/routes.rs`, and the way of `main` from the two to the daemon.

A flag that is blank is skipped, and one that is already listed is not listed twice. So the servers
are those of the file, in their order, and then those that only the flags name. The token of a derper
is the last one that the flags give it, and else that of the file (`derpers_after_flags`). The gate of
the advertised routes sees the file and the flags together: the boot passes it exactly if every route
of either passes, and then it advertises these routes and no others (`boot_gated`).
-/

namespace Noeio

open Text (trim)

structure Stun where
  servers : List String
  deriving DecidableEq

structure Derper where
  servers : List DerperInfo
  deriving DecidableEq

structure Config where
  stun : Stun
  derper : Derper
  router : RouterConfig

/-! ## The flags -/

/-- The body of the loops of `append_stuns` and `append_routes`. -/
def appendText (list : List String) (raw : String) : List String :=
  let s := trim raw
  if s.isEmpty then list
  else if list.any (· == s) then list
  else list ++ [s]

/-- The body of the loop of `append_derpers`. -/
def appendDerper (servers : List DerperInfo) (raw token : String) : List DerperInfo :=
  let address := trim raw
  if address.isEmpty then servers
  else
    match KeyedList.get DerperInfo.address servers address with
    | some existing =>
      if token.isEmpty then servers
      else KeyedList.put DerperInfo.address { existing with token } servers
    | none => servers ++ [{ address, token }]

/-- Each server with its token, which may be missing. -/
def pairTokens (derperServers derperTokens : List String) : List (String × String) :=
  derperServers.zipIdx.map fun (address, idx) =>
    (address, (derperTokens[idx]?.map trim).getD "")

namespace Config

def appendStuns (self : Config) (stun : List String) : Config :=
  { self with stun := ⟨stun.foldl appendText self.stun.servers⟩ }

/-- A panic is an error, with its text. -/
def appendDerpers (self : Config) (derperServers derperTokens : List String) :
    Except String Config :=
  if derperTokens.length > derperServers.length then
    .error ("--derper-token has " ++ toString derperTokens.length ++
      " entries but --derper-server has " ++ toString derperServers.length ++
      ": tokens pair positionally with servers")
  else
    let servers := (pairTokens derperServers derperTokens).foldl
      (fun servers (address, token) => appendDerper servers address token) self.derper.servers
    .ok { self with derper := ⟨servers⟩ }

def appendRoutes (self : Config) (advertise : List String) (accept : Bool) : Config :=
  { self with
    router :=
      { advertiseRoutes := advertise.foldl appendText self.router.advertiseRoutes
        acceptRoutes := if accept then true else self.router.acceptRoutes } }

end Config

/-! ## Boot -/

/-- The order of addresses: IPv4 before IPv6. -/
def IpAddr.le : IpAddr → IpAddr → Bool
  | .v4 a, .v4 b => a ≤ b
  | .v4 _, .v6 _ => true
  | .v6 _, .v4 _ => false
  | .v6 a, .v6 b => a ≤ b

namespace Config

/-- The servers of the control plane. -/
def hosts (self : Config) : List String :=
  self.derper.servers.map DerperInfo.address ++ self.stun.servers

/-- `resolve_control_plane`. A host that does not resolve is left out. -/
def resolveControlPlane (self : Config) (lookupHost : String → Option (List IpAddr)) :
    List IpAddr :=
  let out := self.hosts.flatMap fun host => (lookupHost host).getD []
  (out.mergeSort IpAddr.le).destutter (· ≠ ·)

end Config

structure Flags where
  stun : List String
  derperServers : List String
  derperTokens : List String
  advertiseRoutes : List String
  acceptRoutes : Bool

inductive BootError where
  | panic (text : String)
  | advertiseRoutes (errors : List RouteError)

/-- The file with the flags. -/
def Config.withFlags (self : Config) (flags : Flags) : Except String Config := do
  let cfg ← (self.appendStuns flags.stun).appendDerpers flags.derperServers flags.derperTokens
  return cfg.appendRoutes flags.advertiseRoutes flags.acceptRoutes

/-- `Command::Boot` up to its gate, and the daemon that is made of the settings. The socket that is
bound in between is left out. -/
def boot (env : RouteEnv) (lookupHost : String → Option (List IpAddr)) (file : Config)
    (flags : Flags) : Except BootError Daemon :=
  match file.withFlags flags with
  | .error text => .error (.panic text)
  | .ok cfg =>
    match Daemon.main env cfg.router (cfg.resolveControlPlane lookupHost) with
    | .error errors => .error (.advertiseRoutes errors)
    | .ok daemon => .ok daemon

/-! ## Lists of names -/

open KeyedList (addOnce)

/-- The names that are not blank. -/
def named (raws : List String) : List String := (raws.map trim).filter (· ≠ "")

theorem named_concat (raws : List String) (raw : String) :
    named (raws ++ [raw]) = named raws ++ if trim raw = "" then [] else [trim raw] := by
  by_cases hblank : trim raw = ""
  · simp [named, hblank]
  · simp [named, hblank]

theorem appendText_eq (list : List String) (raw : String) :
    appendText list raw = if trim raw = "" then list else addOnce list (trim raw) := by
  unfold appendText
  by_cases hblank : trim raw = ""
  · simp [hblank]
  · by_cases hlisted : trim raw ∈ list
    · simp [hblank, addOnce, hlisted]
    · have hany : list.any (· == trim raw) = false := by
        rw [List.any_eq_false]
        intro s hs
        simpa using ne_of_mem_of_not_mem hs hlisted
      simp [hblank, addOnce, hlisted, hany]

theorem foldl_appendText (list raws : List String) :
    raws.foldl appendText list = (named raws).foldl addOnce list := by
  induction raws using List.reverseRecOn with
  | nil => rfl
  | append_singleton raws raw ih =>
    rw [List.foldl_concat, ih, appendText_eq, named_concat, List.foldl_append]
    by_cases hblank : trim raw = ""
    · rw [if_pos hblank, if_pos hblank]
      rfl
    · rw [if_neg hblank, if_neg hblank]
      rfl

/-! ## The derpers -/

/-- The token of the first server with the address. -/
def tokenOf (servers : List DerperInfo) (address : String) : Option String :=
  (KeyedList.get DerperInfo.address servers address).map DerperInfo.token

/-- The tokens that the flags give to the address, in their order. -/
def tokensFor (pairs : List (String × String)) (address : String) : List String :=
  pairs.filterMap fun (raw, token) => if trim raw = address ∧ token ≠ "" then some token else none

theorem isSome_tokenOf {servers : List DerperInfo} {address : String} :
    (tokenOf servers address).isSome ↔ address ∈ servers.map DerperInfo.address := by
  rw [tokenOf, Option.isSome_map, ← Option.ne_none_iff_isSome, Ne, KeyedList.get_eq_none, not_not]

theorem appendDerper_of_blank {raw : String} (hblank : trim raw = "") (servers : List DerperInfo)
    (token : String) : appendDerper servers raw token = servers := by
  simp [appendDerper, hblank]

/-- What is appended or overwritten has the address, and the token if there is one. -/
theorem appendDerper_eq {raw : String} (hnamed : trim raw ≠ "") (servers : List DerperInfo)
    (token : String) :
    appendDerper servers raw token = KeyedList.put DerperInfo.address
      ⟨trim raw, if token = "" then (tokenOf servers (trim raw)).getD "" else token⟩ servers := by
  have hnonempty : (trim raw).isEmpty = false := by simpa using hnamed
  unfold appendDerper tokenOf
  simp only [hnonempty, Bool.false_eq_true, if_false]
  cases hget : KeyedList.get DerperInfo.address servers (trim raw) with
  | none =>
    have hnew : ∀ token, KeyedList.put DerperInfo.address ⟨trim raw, token⟩ servers =
        servers ++ [⟨trim raw, token⟩] := fun token => KeyedList.put_of_get_eq_none hget
    by_cases htoken : token = ""
    · subst htoken
      exact (hnew "").symm
    · rw [if_neg htoken]
      exact (hnew token).symm
  | some existing =>
    have haddress : existing.address = trim raw := KeyedList.key_of_get hget
    by_cases htoken : token = ""
    · have hsame : existing = ⟨trim raw, existing.token⟩ := by rw [← haddress]
      have hput := KeyedList.put_of_get (haddress ▸ hget)
      subst htoken
      exact hput.symm.trans (congrArg (KeyedList.put DerperInfo.address · servers) hsame)
    · have hempty : token.isEmpty = false := by simpa using htoken
      simp only [hempty, Bool.false_eq_true, if_false, htoken, haddress]

theorem addresses_appendDerper (servers : List DerperInfo) (raw token : String) :
    (appendDerper servers raw token).map DerperInfo.address =
      if trim raw = "" then servers.map DerperInfo.address
      else addOnce (servers.map DerperInfo.address) (trim raw) := by
  by_cases hblank : trim raw = ""
  · rw [appendDerper_of_blank hblank, if_pos hblank]
  · rw [appendDerper_eq hblank, if_neg hblank, KeyedList.map_put]
    rfl

theorem tokenOf_appendDerper (servers : List DerperInfo) (raw token : String) {address : String}
    (hnamed : address ≠ "") :
    ((tokenOf (appendDerper servers raw token) address).getD "") =
      if trim raw = address ∧ token ≠ "" then token else (tokenOf servers address).getD "" := by
  by_cases hblank : trim raw = ""
  · have hother : ¬ (trim raw = address ∧ token ≠ "") :=
      fun h => hnamed (h.1.symm.trans hblank)
    rw [appendDerper_of_blank hblank, if_neg hother]
  · rw [appendDerper_eq hblank, tokenOf, KeyedList.get_put]
    by_cases hsame : trim raw = address
    · subst hsame
      by_cases htoken : token = ""
      · simp [htoken]
      · simp [htoken]
    · simp [hsame, tokenOf]

section
variable (servers : List DerperInfo) (pairs : List (String × String))

/-- The servers after the flags. -/
def appended : List DerperInfo :=
  pairs.foldl (fun servers (address, token) => appendDerper servers address token) servers

theorem appended_concat (raw token : String) :
    appended servers (pairs ++ [(raw, token)]) = appendDerper (appended servers pairs) raw token :=
  List.foldl_concat ..

theorem addresses_appended :
    (appended servers pairs).map DerperInfo.address =
      (named (pairs.map Prod.fst)).foldl addOnce (servers.map DerperInfo.address) := by
  induction pairs using List.reverseRecOn with
  | nil => rfl
  | append_singleton pairs pair ih =>
    obtain ⟨raw, token⟩ := pair
    rw [appended_concat, addresses_appendDerper, ih, List.map_append, List.map_singleton,
      named_concat, List.foldl_append]
    by_cases hblank : trim raw = ""
    · rw [if_pos hblank, if_pos hblank]
      rfl
    · rw [if_neg hblank, if_neg hblank]
      rfl

/-- A server that is blank, or that repeats the address of an earlier one, stays as it is. -/
theorem getElem?_appended {i : ℕ} {s : DerperInfo} (hs : servers[i]? = some s)
    (h : s.address = "" ∨ s.address ∈ (servers.take i).map DerperInfo.address) :
    (appended servers pairs)[i]? = some s := by
  induction pairs using List.reverseRecOn with
  | nil => exact hs
  | append_singleton pairs pair ih =>
    obtain ⟨raw, token⟩ := pair
    rw [appended_concat]
    by_cases hblank : trim raw = ""
    · rw [appendDerper_of_blank hblank]
      exact ih
    rw [appendDerper_eq hblank]
    refine KeyedList.getElem?_put ih (h.imp (fun hempty heq => hblank (heq.symm.trans hempty)) ?_)
    -- the servers before it are those of the file
    have hlen : i ≤ (servers.map DerperInfo.address).length := by
      rw [List.length_map]
      exact Nat.le_of_lt (List.getElem?_eq_some_iff.mp hs).1
    obtain ⟨rest, hrest⟩ := KeyedList.prefix_foldl_addOnce (named (pairs.map Prod.fst))
      (servers.map DerperInfo.address)
    rw [List.map_take, List.map_take, addresses_appended, ← hrest, List.take_append_of_le_length hlen]
    exact id

/-- The last token that the flags give counts, and without one that of the file. -/
theorem tokenOf_appended {address : String} (hnamed : address ≠ "") :
    (tokenOf (appended servers pairs) address).getD "" =
      (tokensFor pairs address).getLast?.getD ((tokenOf servers address).getD "") := by
  induction pairs using List.reverseRecOn with
  | nil => rfl
  | append_singleton pairs pair ih =>
    obtain ⟨raw, token⟩ := pair
    have htokens : tokensFor (pairs ++ [(raw, token)]) address = tokensFor pairs address ++
        if trim raw = address ∧ token ≠ "" then [token] else [] := by
      by_cases hgiven : trim raw = address ∧ token ≠ ""
      · simp [tokensFor, hgiven]
      · simp [tokensFor, hgiven]
    rw [appended_concat, tokenOf_appendDerper _ _ _ hnamed, htokens]
    by_cases hgiven : trim raw = address ∧ token ≠ ""
    · rw [if_pos hgiven, if_pos hgiven, List.getLast?_concat]
      rfl
    · rw [if_neg hgiven, if_neg hgiven, ih, List.append_nil]

end

theorem pairTokens_fst (derperServers derperTokens : List String) :
    (pairTokens derperServers derperTokens).map Prod.fst = derperServers := by
  rw [pairTokens, List.map_map]
  exact List.zipIdx_map_fst 0 derperServers

namespace Config

theorem appendDerpers_eq_ok {cfg cfg' : Config} {derperServers derperTokens : List String} :
    cfg.appendDerpers derperServers derperTokens = .ok cfg' ↔
      derperTokens.length ≤ derperServers.length ∧ cfg' = { cfg with
        derper := ⟨appended cfg.derper.servers (pairTokens derperServers derperTokens)⟩ } := by
  unfold appendDerpers
  by_cases hmany : derperTokens.length > derperServers.length
  · simp only [if_pos hmany, reduceCtorEq, false_iff, not_and]
    omega
  · simp only [if_neg hmany, Except.ok.injEq]
    exact ⟨fun h => ⟨Nat.not_lt.mp hmany, h.symm⟩, fun h => h.2.symm⟩

/-- **The derpers after the flags.** More tokens than servers are refused. Otherwise the servers are
those of the file and then those that only the flags name, each once more at most. The first server
of an address has the last token that the flags give to the address, and otherwise that of the file. A
server of the file that is blank, or that repeats an address, stays as it is. -/
theorem derpers_after_flags (cfg : Config) (derperServers derperTokens : List String) :
    (derperServers.length < derperTokens.length →
      ∃ text, cfg.appendDerpers derperServers derperTokens = .error text) ∧
      (derperTokens.length ≤ derperServers.length → ∃ cfg',
        cfg.appendDerpers derperServers derperTokens = .ok cfg' ∧ cfg'.stun = cfg.stun ∧
        cfg'.router = cfg.router ∧
        cfg'.derper.servers.map DerperInfo.address =
          (named derperServers).foldl addOnce (cfg.derper.servers.map DerperInfo.address) ∧
        (∀ a ∈ cfg'.derper.servers.map DerperInfo.address, a ≠ "" →
          tokenOf cfg'.derper.servers a = some
            ((tokensFor (pairTokens derperServers derperTokens) a).getLast?.getD
              ((tokenOf cfg.derper.servers a).getD ""))) ∧
        ∀ i s, cfg.derper.servers[i]? = some s →
          s.address = "" ∨ s.address ∈ (cfg.derper.servers.take i).map DerperInfo.address →
            cfg'.derper.servers[i]? = some s) := by
  refine ⟨fun hmany => ?_, fun hfit => ?_⟩
  · unfold appendDerpers
    rw [if_pos hmany]
    exact ⟨_, rfl⟩
  · refine ⟨_, appendDerpers_eq_ok.mpr ⟨hfit, rfl⟩, rfl, rfl, ?_, fun a ha hnamed => ?_,
      fun i s hs h => getElem?_appended _ _ hs h⟩
    · rw [addresses_appended, pairTokens_fst]
    · obtain ⟨token, htoken⟩ := Option.isSome_iff_exists.mp (isSome_tokenOf.mpr ha)
      have hgiven := tokenOf_appended cfg.derper.servers (pairTokens derperServers derperTokens) hnamed
      rw [htoken] at hgiven ⊢
      exact congrArg some hgiven

/-- A padded address, a server without a token, and a server that is named twice. -/
example : (Config.appendDerpers ⟨⟨[]⟩, ⟨[⟨"derp.a:8080", "old"⟩]⟩, ⟨[], false⟩⟩
      [" derp.a:8080 ", "derp.b:8080", "derp.a:8080"] ["x", "", "y"]).map
        (fun cfg => cfg.derper.servers) =
    .ok [⟨"derp.a:8080", "y"⟩, ⟨"derp.b:8080", ""⟩] := by
  decide +kernel

end Config

/-! ## The control plane -/

theorem IpAddr.isOrder_le : SortedTable.IsOrder IpAddr.le where
  trans {a b c} hab hbc := by
    cases a <;> cases b <;> cases c <;> simp_all [IpAddr.le]
    · exact BitVec.le_trans hab hbc
    · exact BitVec.le_trans hab hbc
  total a b := by
    cases a <;> cases b <;> simp [IpAddr.le, BitVec.le_total]
  antisymm {a b} hab hba := by
    cases a <;> cases b <;> simp_all [IpAddr.le]
    · exact BitVec.le_antisymm hab hba
    · exact BitVec.le_antisymm hab hba

theorem Config.mem_resolveControlPlane {cfg : Config} {lookupHost : String → Option (List IpAddr)}
    {ip : IpAddr} : ip ∈ cfg.resolveControlPlane lookupHost ↔
      ∃ host ∈ cfg.hosts, ∃ ips, lookupHost host = some ips ∧ ip ∈ ips := by
  have : Std.Antisymm fun a b : IpAddr => IpAddr.le a b = true :=
    ⟨fun _ _ => IpAddr.isOrder_le.antisymm⟩
  have hsorted : cfg.resolveControlPlane lookupHost = SortedTable.ofList IpAddr.le
      (cfg.hosts.flatMap fun host => (lookupHost host).getD []) :=
    (SortedTable.pairwise_mergeSort IpAddr.isOrder_le _).destutter_eq_dedup
  rw [hsorted, SortedTable.mem_ofList, List.mem_flatMap]
  constructor
  · rintro ⟨host, hhost, hip⟩
    cases hlookup : lookupHost host with
    | none => simp [hlookup] at hip
    | some ips => exact ⟨host, hhost, ips, hlookup, by simpa [hlookup] using hip⟩
  · rintro ⟨host, hhost, ips, hlookup, hip⟩
    exact ⟨host, hhost, by simpa [hlookup] using hip⟩

/-! ## The gate at boot -/

namespace RouteEnv

variable {env : RouteEnv} {guarded : Protected} {raws : List String}

/-- There are no errors if every string passes the gate. -/
theorem collect_of_ok (h : ∀ raw ∈ raws, ∃ c,
    validateAdvertisement env.text env.platform raw guarded = .ok c) :
    (env.collect guarded pushNew raws).2 = [] ∧ ∀ c, c ∈ (env.collect guarded pushNew raws).1 ↔
      ∃ raw ∈ raws, parseCidr env.text raw = .ok c := by
  induction raws using List.reverseRecOn with
  | nil => exact ⟨rfl, fun c => by simp [collect]⟩
  | append_singleton raws last ih =>
    obtain ⟨herrors, hmem⟩ := ih fun raw hraw => h raw (List.mem_append_left _ hraw)
    obtain ⟨cidr, hlast⟩ := h last (by simp)
    have hparse := (validateAdvertisement_eq_ok.mp hlast).1
    rw [collect_concat, hlast]
    refine ⟨herrors, fun c => ?_⟩
    rw [mem_pushNew, hmem]
    simp only [List.mem_append, List.mem_singleton]
    constructor
    · rintro (⟨raw, hraw, hc⟩ | rfl)
      · exact ⟨raw, Or.inl hraw, hc⟩
      · exact ⟨last, Or.inr rfl, hparse⟩
    · rintro ⟨raw, hraw | rfl, hc⟩
      · exact Or.inl ⟨raw, hraw, hc⟩
      · exact Or.inr (Except.ok.inj (hc.symm.trans hparse))

end RouteEnv

/-- The configuration is validated if every route passes the gate, and only then. -/
theorem Daemon.main_ok_iff {env : RouteEnv} {cfg : RouterConfig} {controlPlane : List IpAddr} :
    (∃ d, Daemon.main env cfg controlPlane = .ok d) ↔ ∀ raw ∈ cfg.advertiseRoutes, ∃ c,
      validateAdvertisement env.text env.platform raw ⟨[], controlPlane⟩ = .ok c := by
  unfold Daemon.main RouterConfig.validateRoutes
  constructor
  · rintro ⟨d, h⟩ raw hraw
    simp only at h
    split at h
    · cases h
    · rename_i herrors
      exact RouteEnv.ok_of_collect (not_not.mp herrors) hraw
  · intro h
    simp only [(RouteEnv.collect_of_ok h).1]
    exact ⟨_, rfl⟩

/-- The routes that the file and the flags ask for. -/
def routesOf (file : Config) (flags : Flags) : List String :=
  file.router.advertiseRoutes ++ named flags.advertiseRoutes

/-- The servers that the file and the flags name. -/
def hostsOf (file : Config) (flags : Flags) : List String :=
  file.hosts ++ named flags.derperServers ++ named flags.stun

/-- A block that the gate lets through, given the servers. -/
structure Advertisable (env : RouteEnv) (lookupHost : String → Option (List IpAddr))
    (hosts : List String) (c : Ipv4Cidr) : Prop where
  platform : env.platform.canAdvertise = true
  narrow : minPrefixLen ≤ c.prefixLen
  clear : ∀ a, c.containsAddr a = true → a.isLoopback = false ∧ a.isLinkLocal = false
  spares : ∀ host ∈ hosts, ∀ ips, lookupHost host = some ips → ∀ a, .v4 a ∈ ips →
    c.containsAddr a = false

/-- The file with the flags lists what either lists. -/
theorem Config.withFlags_spec {file cfg : Config} {flags : Flags}
    (h : file.withFlags flags = .ok cfg) :
    flags.derperTokens.length ≤ flags.derperServers.length ∧
      (∀ host, host ∈ cfg.hosts ↔ host ∈ hostsOf file flags) ∧
      (∀ raw, raw ∈ cfg.router.advertiseRoutes ↔ raw ∈ routesOf file flags) ∧
      cfg.router.acceptRoutes = (file.router.acceptRoutes || flags.acceptRoutes) := by
  unfold Config.withFlags at h
  cases hderpers : (file.appendStuns flags.stun).appendDerpers flags.derperServers
      flags.derperTokens with
  | error text =>
    rw [hderpers] at h
    cases h
  | ok merged =>
    rw [hderpers] at h
    cases h
    obtain ⟨hfit, rfl⟩ := appendDerpers_eq_ok.mp hderpers
    refine ⟨hfit, fun host => ?_, fun raw => ?_, ?_⟩
    · simp only [Config.hosts, hostsOf, appendRoutes, appendStuns, addresses_appended,
        pairTokens_fst, foldl_appendText, List.mem_append, KeyedList.mem_foldl_addOnce]
      tauto
    · simp only [routesOf, appendRoutes, appendStuns, foldl_appendText, List.mem_append,
        KeyedList.mem_foldl_addOnce]
    · show (if flags.acceptRoutes then true else file.router.acceptRoutes) = _
      cases flags.acceptRoutes with
      | false => simp
      | true => simp

theorem Config.exists_withFlags {file : Config} {flags : Flags}
    (h : flags.derperTokens.length ≤ flags.derperServers.length) :
    ∃ cfg, file.withFlags flags = .ok cfg := by
  unfold Config.withFlags
  rw [appendDerpers_eq_ok.mpr ⟨h, rfl⟩]
  exact ⟨_, rfl⟩

theorem validate_iff_advertisable {env : RouteEnv} {lookupHost : String → Option (List IpAddr)}
    {file cfg : Config} {flags : Flags} (hhosts : ∀ host, host ∈ cfg.hosts ↔ host ∈ hostsOf file flags)
    {raw : String} {c : Ipv4Cidr} :
    validateAdvertisement env.text env.platform raw ⟨[], cfg.resolveControlPlane lookupHost⟩ = .ok c ↔
      parseCidr env.text raw = .ok c ∧ Advertisable env lookupHost (hostsOf file flags) c := by
  rw [validateAdvertisement_eq_ok, validateCidr_eq_ok]
  refine and_congr_right fun _ => ?_
  constructor
  · rintro ⟨hplatform, hnarrow, hclear⟩
    refine ⟨hplatform, hnarrow, fun a ha => ?_, fun host hhost ips hips a ha => ?_⟩
    · have hnot := hclear a ha
      unfold Protected.Sensitive at hnot
      exact ⟨eq_false_of_ne_true fun h => hnot (Or.inl h),
        eq_false_of_ne_true fun h => hnot (Or.inr (Or.inl h))⟩
    · by_contra hcontains
      refine hclear a (by simpa using hcontains) (Or.inr (Or.inr (Or.inr ?_)))
      exact Config.mem_resolveControlPlane.mpr ⟨host, (hhosts host).mpr hhost, ips, hips, ha⟩
  · intro h
    refine ⟨h.platform, h.narrow, fun a ha => ?_⟩
    obtain ⟨hloop, hlocal⟩ := h.clear a ha
    rintro (hbad | hbad | hbad | hbad)
    · rw [hloop] at hbad
      cases hbad
    · rw [hlocal] at hbad
      cases hbad
    · cases hbad
    · obtain ⟨host, hhost, ips, hips, hip⟩ := Config.mem_resolveControlPlane.mp hbad
      rw [h.spares host ((hhosts host).mp hhost) ips hips a hip] at ha
      cases ha

theorem main_of_boot {env : RouteEnv} {lookupHost : String → Option (List IpAddr)} {file : Config}
    {flags : Flags} {d : Daemon} (h : boot env lookupHost file flags = .ok d) :
    ∃ cfg, file.withFlags flags = .ok cfg ∧
      Daemon.main env cfg.router (cfg.resolveControlPlane lookupHost) = .ok d := by
  unfold boot at h
  cases hcfg : file.withFlags flags with
  | error text =>
    rw [hcfg] at h
    cases h
  | ok cfg =>
    rw [hcfg] at h
    simp only at h
    refine ⟨cfg, rfl, ?_⟩
    cases hmain : Daemon.main env cfg.router (cfg.resolveControlPlane lookupHost) with
    | error errors =>
      rw [hmain] at h
      cases h
    | ok daemon =>
      rw [hmain] at h
      cases h
      rfl

theorem acceptRoutes_main {env : RouteEnv} {cfg : RouterConfig} {controlPlane : List IpAddr}
    {d : Daemon} (h : Daemon.main env cfg controlPlane = .ok d) :
    d.acceptRoutes = cfg.acceptRoutes := by
  unfold Daemon.main RouterConfig.validateRoutes at h
  simp only at h
  split at h
  · cases h
  · cases h
    rfl

/-- **The gate at boot.** The boot passes its gate exactly if there are no more tokens than servers and
every route of the file and of the flags is a block that may be advertised: on a platform that can,
not too broad, without loopback or link-local addresses, and without any address of a server of the
file or of the flags. The daemon then advertises the networks of these routes, each once, and nothing
else. -/
theorem boot_gated (env : RouteEnv) (lookupHost : String → Option (List IpAddr)) (file : Config)
    (flags : Flags) :
    ((∃ d, boot env lookupHost file flags = .ok d) ↔
      flags.derperTokens.length ≤ flags.derperServers.length ∧
        ∀ raw ∈ routesOf file flags, ∃ c, parseCidr env.text raw = .ok c ∧
          Advertisable env lookupHost (hostsOf file flags) c) ∧
      ∀ d, boot env lookupHost file flags = .ok d →
        d.acceptRoutes = (file.router.acceptRoutes || flags.acceptRoutes) ∧ d.advertised.Nodup ∧
          ∀ c, c ∈ d.advertised ↔ ∃ raw ∈ routesOf file flags, parseCidr env.text raw = .ok c := by
  constructor
  · constructor
    · rintro ⟨d, hboot⟩
      obtain ⟨cfg, hcfg, hmain⟩ := main_of_boot hboot
      obtain ⟨hfit, hhosts, hroutes, -⟩ := Config.withFlags_spec hcfg
      refine ⟨hfit, fun raw hraw => ?_⟩
      obtain ⟨c, hc⟩ := Daemon.main_ok_iff.mp ⟨d, hmain⟩ raw ((hroutes raw).mpr hraw)
      exact ⟨c, (validate_iff_advertisable hhosts).mp hc⟩
    · rintro ⟨hfit, hall⟩
      obtain ⟨cfg, hcfg⟩ := Config.exists_withFlags hfit
      obtain ⟨-, hhosts, hroutes, -⟩ := Config.withFlags_spec hcfg
      have hgate : ∃ d, Daemon.main env cfg.router (cfg.resolveControlPlane lookupHost) = .ok d := by
        refine Daemon.main_ok_iff.mpr fun raw hraw => ?_
        obtain ⟨c, hc⟩ := hall raw ((hroutes raw).mp hraw)
        exact ⟨c, (validate_iff_advertisable hhosts).mpr hc⟩
      obtain ⟨d, hd⟩ := hgate
      exact ⟨d, by rw [boot, hcfg]; simp only [hd]⟩
  · intro d hboot
    obtain ⟨cfg, hcfg, hmain⟩ := main_of_boot hboot
    obtain ⟨-, -, hroutes, haccept⟩ := Config.withFlags_spec hcfg
    obtain ⟨-, -, hadvertised⟩ := Daemon.main_eq_ok hmain
    have hpassed := RouteEnv.collect_of_ok (Daemon.main_ok_iff.mp ⟨d, hmain⟩)
    refine ⟨?_, ?_, fun c => ?_⟩
    · rw [← haccept]
      exact acceptRoutes_main hmain
    · rw [hadvertised]
      exact RouteEnv.nodup_collect
    · rw [hadvertised, hpassed.2]
      simp only [hroutes]

end Noeio
