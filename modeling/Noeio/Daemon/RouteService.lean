import Noeio.Daemon.HostState
import Noeio.Lib.Tasks

/-!
# The advertised list and its writers

Three entry points feed the list of advertised subnets. At boot `Config::validate_routes`
(`noeio/src/config.rs`) checks the configured strings and writes them back in normalized form,
and `NoeioDaemon::new` parses them again. While the daemon runs, `advertise_route` and
`withdraw_route` (`noeio/src/rpc/service/route.rs`) read the list, compute a new one and hand it
to `set_advertised`.

No lock is held from the read to the write. `Call` lists the points at which another call may
come in between, for these two handlers, for `set_advertised` and for `register_nic`, and
`Daemon.atomic` is what each of them does before it gets to the next one.
-/

namespace Noeio

/-- What the functions of this module take from outside: how the platform writes and reads
blocks, which platform it is, and how network ids are read. -/
structure RouteEnv where
  text : CidrText
  platform : Platform
  parseUuid : String → Except String NetworkId

namespace RouteEnv.Sample

/-- A Linux build, with a parser of network ids that accepts everything. -/
def linux : RouteEnv where
  text := .dotted
  platform := ⟨"linux"⟩
  parseUuid _ := .ok (Vector.replicate 16 0)

def office : Ipv4Cidr := .ofOctets 10 0 0 0 8

def lan : Ipv4Cidr := .ofOctets 192 168 5 0 24

end RouteEnv.Sample

/-! ## Lists of CIDR strings -/

/-- Push a block that is not listed yet. -/
def pushNew (set : List Ipv4Cidr) (cidr : Ipv4Cidr) : List Ipv4Cidr :=
  if cidr ∈ set then set else set ++ [cidr]

/-- The loop over the strings of a request or of the configuration: what passes the gate is
pushed to the first list, and every error to the second. -/
def RouteEnv.collect (env : RouteEnv) (guarded : Protected)
    (push : List Ipv4Cidr → Ipv4Cidr → List Ipv4Cidr) (raws : List String) :
    List Ipv4Cidr × List RouteError :=
  raws.foldl (fun (ok, errors) raw =>
    match validateAdvertisement env.text env.platform raw guarded with
    | .ok cidr => (push ok cidr, errors)
    | .error err => (ok, errors ++ [err])) ([], [])

/-! ## Boot -/

structure RouterConfig where
  advertiseRoutes : List String
  acceptRoutes : Bool

/-- `Config::validate_routes`: the configuration with its routes in normalized form, or every
error. -/
def RouterConfig.validateRoutes (self : RouterConfig) (env : RouteEnv) (guarded : Protected) :
    Except (List RouteError) RouterConfig :=
  let (ok, errors) := env.collect guarded pushNew self.advertiseRoutes
  if errors ≠ [] then .error errors
  else .ok { self with advertiseRoutes := ok.map env.text.display }

/-- The daemon of a validated configuration. -/
def Daemon.new (env : RouteEnv) (cfg : RouterConfig) (controlPlane : List IpAddr) : Daemon where
  nics := ∅
  router := .new
  acceptRoutes := cfg.acceptRoutes
  advertised := cfg.advertiseRoutes.filterMap env.text.parse
  controlPlane := controlPlane
  decisions := []
  hostInfo := none

/-- `main`: the routes are validated with no overlay IP, and then the daemon is made. -/
def Daemon.main (env : RouteEnv) (cfg : RouterConfig) (controlPlane : List IpAddr) :
    Except (List RouteError) Daemon := do
  let cfg ← cfg.validateRoutes env ⟨[], controlPlane⟩
  return .new env cfg controlPlane

/-! ## The handlers -/

inductive Status where
  | failedPrecondition (msg : String)
  | invalidArgument (msg : String)
  deriving DecidableEq

/-- A refusal by the platform has a code of its own. -/
def statusFor (text : CidrText) (errors : List RouteError) : Status :=
  let msg := "; ".intercalate (errors.map (·.display text))
  let consumerOnly : RouteError → Bool := fun
    | .platformConsumerOnly .. => true
    | _ => false
  if errors.any consumerOnly then .failedPrecondition msg else .invalidArgument msg

inductive RouteRequest where
  | advertiseRoute (cidrs : List String)
  | withdrawRoute (cidrs : List String)
  deriving DecidableEq

/-- The first part of `advertise_route`: the blocks of an acceptable request. -/
def RouteEnv.acceptedBy (env : RouteEnv) (guarded : Protected) (cidrs : List String) :
    Except Status (List Ipv4Cidr) :=
  let (accepted, errors) := env.collect guarded (fun ok cidr => ok ++ [cidr]) cidrs
  if errors ≠ [] then .error (statusFor env.text errors)
  else if accepted = [] then .error (.invalidArgument "no CIDR given")
  else .ok accepted

/-- The list `advertise_route` makes of the one it has read. -/
def merge (accepted set : List Ipv4Cidr) : List Ipv4Cidr := accepted.foldl pushNew set

/-- The body of the loop in `withdraw_route`. -/
def RouteEnv.pushRemoved (env : RouteEnv) (remove : List Ipv4Cidr) (raw : String) :
    Except Status (List Ipv4Cidr) :=
  match parseCidr env.text raw with
  | .ok cidr => .ok (remove ++ [cidr])
  | .error err => .error (.invalidArgument (err.display env.text))

/-- The first part of `withdraw_route`: the blocks to remove. -/
def RouteEnv.removedBy (env : RouteEnv) (cidrs : List String) : Except Status (List Ipv4Cidr) :=
  cidrs.foldlM env.pushRemoved []

/-- The list `withdraw_route` makes of the one it has read. -/
def without (remove set : List Ipv4Cidr) : List Ipv4Cidr := set.filter (· ∉ remove)

namespace Daemon

/-- One request from its start to its end with no other in between, and the list in its
response. -/
def serve (self : Daemon) (env : RouteEnv) (now : UInt64) :
    RouteRequest → Daemon × Except Status (List String)
  | .advertiseRoute cidrs =>
    match env.acceptedBy self.guarded cidrs with
    | .error status => (self, .error status)
    | .ok accepted =>
      let self := self.setAdvertised (merge accepted self.advertised) now
      (self, .ok (self.advertised.map env.text.display))
  | .withdrawRoute cidrs =>
    match env.removedBy cidrs with
    | .error status => (self, .error status)
    | .ok remove =>
      let self := self.setAdvertised (without remove self.advertised) now
      (self, .ok (self.advertised.map env.text.display))

end Daemon

/-! ## The atomic steps -/

/-- Where a call is, with its local variables. -/
inductive Call where
  /-- `advertise_route` before it reads the overlay IPs. -/
  | advertiseRoute (cidrs : List String)
  /-- `advertise_route` before it reads the list. -/
  | advertiseRead (accepted : List Ipv4Cidr)
  /-- `advertise_route` before `set_advertised`, with the list it has read. -/
  | advertiseWrite (accepted set : List Ipv4Cidr)
  /-- `withdraw_route` before it reads the list. -/
  | withdrawRoute (cidrs : List String)
  /-- `withdraw_route` before `set_advertised`, with the list it has read. -/
  | withdrawWrite (remove set : List Ipv4Cidr)
  /-- `set_advertised` before its first lock. -/
  | setAdvertised (routes : List Ipv4Cidr)
  /-- `set_advertised` before its second lock. -/
  | publish (routes : List Ipv4Cidr)
  /-- `register_nic` before it reads the list. -/
  | registerNic (peerId : PeerId) (ip : IpAddr) (network : String)
  /-- `register_nic` before it registers the nic. -/
  | register (peerId : PeerId) (ip : IpAddr) (peer : PeerInfo)
  /-- `register_nic` before it adds the peer. -/
  | addPeer (peer : PeerInfo)
  deriving DecidableEq

namespace Daemon

/-- The write of `set_advertised`, which returns at once when the list is the same. -/
def writeStep (self : Daemon) (routes : List Ipv4Cidr) : Daemon × Option Call :=
  match self.writeAdvertised routes with
  | (self, true) => (self, some (.publish routes))
  | (self, false) => (self, none)

/-- One step of a call, and the point it reaches. -/
def atomic (env : RouteEnv) (self : Daemon) : Call → UInt64 → Daemon × Option Call
  | .advertiseRoute cidrs, _ =>
    match env.acceptedBy self.guarded cidrs with
    | .error _ => (self, none)
    | .ok accepted => (self, some (.advertiseRead accepted))
  | .advertiseRead accepted, _ => (self, some (.advertiseWrite accepted self.advertised))
  | .advertiseWrite accepted set, _ => self.writeStep (merge accepted set)
  | .withdrawRoute cidrs, _ =>
    match env.removedBy cidrs with
    | .error _ => (self, none)
    | .ok remove => (self, some (.withdrawWrite remove self.advertised))
  | .withdrawWrite remove set, _ => self.writeStep (without remove set)
  | .setAdvertised routes, _ => self.writeStep routes
  | .publish routes, now => (self.publishAdvertised routes now, none)
  | .registerNic peerId ip network, _ =>
    match self.createPeer env.parseUuid peerId ip network with
    | .error _ => (self, none)
    | .ok peer => (self, some (.register peerId ip peer))
  | .register peerId ip peer, _ => (self.register peerId ip, some (.addPeer peer))
  | .addPeer peer, _ => ((self.addPeer peer).1, none)

end Daemon

def RouteRequest.entry : RouteRequest → Call
  | .advertiseRoute cidrs => .advertiseRoute cidrs
  | .withdrawRoute cidrs => .withdrawRoute cidrs

/-- A `register_nic`, with the id it draws. -/
structure NicRequest where
  peerId : PeerId
  ip : IpAddr
  network : String
  deriving DecidableEq

def NicRequest.entry (request : NicRequest) : Call :=
  .registerNic request.peerId request.ip request.network

/-! ## What the gate lets through -/

section
variable {set accepted remove : List Ipv4Cidr} {c x : Ipv4Cidr}

theorem mem_pushNew : x ∈ pushNew set c ↔ x ∈ set ∨ x = c := by
  unfold pushNew
  split
  · rename_i hmem
    refine ⟨Or.inl, ?_⟩
    rintro (h | rfl)
    · exact h
    · exact hmem
  · simp

theorem nodup_pushNew (h : set.Nodup) : (pushNew set c).Nodup := by
  unfold pushNew
  split
  · exact h
  · rename_i hmem
    rw [List.nodup_append_comm]
    exact h.cons hmem

theorem mem_merge : x ∈ merge accepted set ↔ x ∈ set ∨ x ∈ accepted := by
  unfold merge
  induction accepted generalizing set with
  | nil => simp
  | cons c accepted ih => rw [List.foldl_cons, ih, mem_pushNew, List.mem_cons, or_assoc]

theorem nodup_merge (h : set.Nodup) : (merge accepted set).Nodup := by
  unfold merge
  induction accepted generalizing set with
  | nil => exact h
  | cons c accepted ih => exact ih (nodup_pushNew h)

theorem mem_without : x ∈ without remove set ↔ x ∈ set ∧ x ∉ remove := by
  simp [without]

end

namespace RouteEnv

variable {env : RouteEnv} {guarded : Protected}
  {push : List Ipv4Cidr → Ipv4Cidr → List Ipv4Cidr} {raws : List String}

theorem collect_concat (raw : String) :
    env.collect guarded push (raws ++ [raw]) =
      match validateAdvertisement env.text env.platform raw guarded with
      | .ok cidr => (push (env.collect guarded push raws).1 cidr, (env.collect guarded push raws).2)
      | .error err =>
        ((env.collect guarded push raws).1, (env.collect guarded push raws).2 ++ [err]) := by
  simp [collect]

/-- Every collected block passed the gate. -/
theorem exists_of_mem_collect (hpush : ∀ {set c x}, x ∈ push set c → x ∈ set ∨ x = c)
    {x : Ipv4Cidr} (h : x ∈ (env.collect guarded push raws).1) :
    ∃ raw ∈ raws, validateAdvertisement env.text env.platform raw guarded = .ok x := by
  induction raws using List.reverseRecOn with
  | nil => simp [collect] at h
  | append_singleton raws raw ih =>
    rw [collect_concat] at h
    have hprev : x ∈ (env.collect guarded push raws).1 → ∃ raw' ∈ raws ++ [raw],
        validateAdvertisement env.text env.platform raw' guarded = .ok x := by
      intro h
      obtain ⟨raw', hraw', hok⟩ := ih h
      exact ⟨raw', List.mem_append_left _ hraw', hok⟩
    cases hv : validateAdvertisement env.text env.platform raw guarded with
    | error err =>
      rw [hv] at h
      exact hprev h
    | ok cidr =>
      rw [hv] at h
      rcases hpush h with h | rfl
      · exact hprev h
      · exact ⟨raw, by simp, hv⟩

/-- Without errors, every string passed the gate. -/
theorem ok_of_collect (h : (env.collect guarded push raws).2 = []) {raw : String}
    (hraw : raw ∈ raws) :
    ∃ c, validateAdvertisement env.text env.platform raw guarded = .ok c := by
  induction raws using List.reverseRecOn with
  | nil => cases hraw
  | append_singleton raws last ih =>
    rw [collect_concat] at h
    cases hv : validateAdvertisement env.text env.platform last guarded with
    | error err => simp [hv] at h
    | ok cidr =>
      rw [hv] at h
      rcases List.mem_append.mp hraw with hraw | hraw
      · exact ih h hraw
      · rw [List.mem_singleton.mp hraw]
        exact ⟨cidr, hv⟩

theorem nodup_collect : (env.collect guarded pushNew raws).1.Nodup := by
  induction raws using List.reverseRecOn with
  | nil => exact List.nodup_nil
  | append_singleton raws raw ih =>
    rw [collect_concat]
    split
    · exact nodup_pushNew ih
    · exact ih

/-- An accepted request names only blocks that pass the gate. -/
theorem valid_of_acceptedBy {cidrs : List String} {accepted : List Ipv4Cidr}
    (h : env.acceptedBy guarded cidrs = .ok accepted) {x : Ipv4Cidr} (hx : x ∈ accepted) :
    ∃ raw ∈ cidrs, validateAdvertisement env.text env.platform raw guarded = .ok x := by
  unfold acceptedBy at h
  simp only at h
  split at h
  · cases h
  split at h
  · cases h
  · cases h
    exact exists_of_mem_collect (by simp) hx

/-- One bad CIDR is enough to refuse an advertisement. -/
theorem acceptedBy_of_bad {cidrs : List String} {raw : String} (hraw : raw ∈ cidrs)
    {err : RouteError}
    (hbad : validateAdvertisement env.text env.platform raw guarded = .error err) :
    ∃ status, env.acceptedBy guarded cidrs = .error status := by
  unfold acceptedBy
  simp only
  split
  · exact ⟨_, rfl⟩
  · rename_i herr
    obtain ⟨c, hc⟩ := ok_of_collect (not_not.mp herr) hraw
    rw [hbad] at hc
    cases hc

/-- One bad CIDR is enough to refuse a withdrawal. -/
theorem removedBy_of_bad {cidrs : List String} {raw : String} (hraw : raw ∈ cidrs)
    {err : RouteError} (hbad : parseCidr env.text raw = .error err) :
    ∃ status, env.removedBy cidrs = .error status := by
  unfold removedBy
  generalize [] = remove
  induction cidrs generalizing remove with
  | nil => cases hraw
  | cons first cidrs ih =>
    rw [List.foldlM_cons]
    unfold pushRemoved
    cases hp : parseCidr env.text first with
    | error err => exact ⟨_, rfl⟩
    | ok cidr =>
      rcases List.mem_cons.mp hraw with rfl | hraw
      · rw [hbad] at hp
        cases hp
      · exact ih hraw _

end RouteEnv

/-! ## What a step does -/

/-- The list that a call at a write is about to write. -/
def Call.writes : Call → Option (List Ipv4Cidr)
  | .advertiseWrite accepted set => some (merge accepted set)
  | .withdrawWrite remove set => some (without remove set)
  | .setAdvertised routes => some routes
  | _ => none

/-- The blocks that a call has let through and not written yet. -/
def Call.carried : Call → List Ipv4Cidr
  | .advertiseRead accepted => accepted
  | call => call.writes.getD []

namespace Daemon

/-- What one step of a call can do: the daemon after it and the point reached. -/
inductive Stepped (env : RouteEnv) (d : Daemon) (now : UInt64) : Call → Daemon → Option Call → Prop
  | advertiseRefused {cidrs status} (h : env.acceptedBy d.guarded cidrs = .error status) :
    Stepped env d now (.advertiseRoute cidrs) d none
  | accepted {cidrs accepted} (h : env.acceptedBy d.guarded cidrs = .ok accepted) :
    Stepped env d now (.advertiseRoute cidrs) d (some (.advertiseRead accepted))
  | advertiseRead {accepted} : Stepped env d now (.advertiseRead accepted) d
      (some (.advertiseWrite accepted d.advertised))
  | withdrawRefused {cidrs status} (h : env.removedBy cidrs = .error status) :
    Stepped env d now (.withdrawRoute cidrs) d none
  | withdrawRead {cidrs remove} (h : env.removedBy cidrs = .ok remove) :
    Stepped env d now (.withdrawRoute cidrs) d (some (.withdrawWrite remove d.advertised))
  | same {call} (h : call.writes = some d.advertised) : Stepped env d now call d none
  | written {call routes} (h : call.writes = some routes) (hne : d.advertised ≠ routes) :
    Stepped env d now call { d with advertised := routes } (some (.publish routes))
  | published {routes} :
    Stepped env d now (.publish routes) (d.publishAdvertised routes now) none
  | nicRefused {peerId ip network err}
      (h : d.createPeer env.parseUuid peerId ip network = .error err) :
    Stepped env d now (.registerNic peerId ip network) d none
  | created {peerId ip network peer}
      (h : d.createPeer env.parseUuid peerId ip network = .ok peer) :
    Stepped env d now (.registerNic peerId ip network) d (some (.register peerId ip peer))
  | registered {peerId ip peer} : Stepped env d now (.register peerId ip peer)
      (d.register peerId ip) (some (.addPeer peer))
  | added {peer} : Stepped env d now (.addPeer peer) (d.addPeer peer).1 none

variable {env : RouteEnv} {d : Daemon} {call : Call} {now : UInt64}

theorem stepped_writeStep {routes : List Ipv4Cidr} (h : call.writes = some routes) :
    Stepped env d now call (d.writeStep routes).1 (d.writeStep routes).2 := by
  by_cases hsame : d.advertised = routes
  · subst hsame
    simpa [writeStep, writeAdvertised] using Stepped.same h
  · simpa [writeStep, writeAdvertised, hsame] using Stepped.written h hsame

theorem stepped_atomic (env : RouteEnv) (d : Daemon) (call : Call) (now : UInt64) :
    Stepped env d now call (d.atomic env call now).1 (d.atomic env call now).2 := by
  cases call with
  | advertiseRoute cidrs =>
    rw [atomic]
    split
    · exact .advertiseRefused ‹_›
    · exact .accepted ‹_›
  | advertiseRead accepted => exact .advertiseRead
  | advertiseWrite accepted set => exact stepped_writeStep rfl
  | withdrawRoute cidrs =>
    rw [atomic]
    split
    · exact .withdrawRefused ‹_›
    · exact .withdrawRead ‹_›
  | withdrawWrite remove set => exact stepped_writeStep rfl
  | setAdvertised routes => exact stepped_writeStep rfl
  | publish routes => exact .published
  | registerNic peerId ip network =>
    rw [atomic]
    split
    · exact .nicRefused ‹_›
    · exact .created ‹_›
  | register peerId ip peer => exact .registered
  | addPeer peer => exact .added

namespace Stepped

variable {e : Daemon} {next : Option Call}

theorem controlPlane_eq (h : Stepped env d now call e next) : e.controlPlane = d.controlPlane := by
  cases h with
  | added => rw [toNoeioDaemon_addPeer]
  | _ => rfl

/-- Nics are registered by `register` alone. -/
theorem nics_eq (h : Stepped env d now call e next) :
    e.nics = d.nics ∨ ∃ peerId ip peer, call = .register peerId ip peer ∧
      e.nics = d.nics.insert peerId ip := by
  cases h with
  | registered => exact Or.inr ⟨_, _, _, rfl, rfl⟩
  | added => exact Or.inl (by rw [toNoeioDaemon_addPeer])
  | _ => exact Or.inl rfl

/-- What the gate protects is the same until a nic is registered. -/
theorem guarded_eq (h : Stepped env d now call e next)
    (hcall : ∀ peerId ip peer, call ≠ .register peerId ip peer) : e.guarded = d.guarded := by
  rcases h.nics_eq with hnics | ⟨peerId, ip, peer, rfl, -⟩
  · simp only [NoeioDaemon.guarded, NoeioDaemon.nicIps, hnics, h.controlPlane_eq]
  · exact absurd rfl (hcall peerId ip peer)

end Stepped

end Daemon

end Noeio
