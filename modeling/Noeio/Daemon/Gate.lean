import Noeio.Daemon.RouteService

/-!
# What a node can advertise

The gate on the advertised list, for every interleaving of route requests and nic
registrations. `Stepped.enters` is the reason for all of it: a block gets into the list, or into
the variables of a call that will write it, only by passing `advertise_route`'s validation.

* Whatever the gate checks once and for all holds of the list at all times
  (`advertised_gated`).
* The overlay IPs are not fixed. A nic registered later may lie in a block that was let through
  before, and at boot there is no nic at all. The list stays clear of the overlay IPs as long
  as every nic is registered with an IP outside it (`advertised_avoids_nics`).
-/

namespace Noeio

/-- The daemon with the calls that it serves. -/
abbrev Served := Tasks.State (RouteRequest ⊕ NicRequest) Call Daemon

namespace Served

abbrev Event := Tasks.Event (RouteRequest ⊕ NicRequest) Call UInt64

def step (env : RouteEnv) : Served → Event → Served :=
  Tasks.step (Sum.elim RouteRequest.entry NicRequest.entry) (Daemon.atomic env)

/-- The blocks that are advertised or that a call is about to advertise. -/
def held (s : Served) : List Ipv4Cidr :=
  s.shared.advertised ++ s.calls.flatMap (·.2.carried)

theorem mem_held {s : Served} {c : Ipv4Cidr} :
    c ∈ s.held ↔ c ∈ s.shared.advertised ∨ ∃ call ∈ s.calls, c ∈ call.2.carried := by
  simp only [held, List.mem_append, List.mem_flatMap]

end Served

/-! ## Through the gate only -/

namespace Daemon.Stepped

variable {env : RouteEnv} {d e : Daemon} {now : UInt64} {call : Call} {next : Option Call}

/-- A block that is listed or carried after a step was so before, or has just been accepted. -/
theorem enters (h : Stepped env d now call e next) {c : Ipv4Cidr}
    (hc : c ∈ e.advertised ∨ ∃ call' ∈ next, c ∈ call'.carried) :
    c ∈ d.advertised ∨ c ∈ call.carried ∨ ∃ cidrs accepted, call = .advertiseRoute cidrs ∧
      env.acceptedBy d.guarded cidrs = .ok accepted ∧ c ∈ accepted := by
  cases h with
  | accepted h =>
    rcases hc with hc | ⟨call', hcall', hc⟩
    · exact Or.inl hc
    · cases hcall'
      exact Or.inr (Or.inr ⟨_, _, rfl, h, hc⟩)
  | advertiseRead =>
    rcases hc with hc | ⟨call', hcall', hc⟩
    · exact Or.inl hc
    · cases hcall'
      rcases mem_merge.mp hc with hc | hc
      · exact Or.inl hc
      · exact Or.inr (Or.inl hc)
  | withdrawRead h =>
    rcases hc with hc | ⟨call', hcall', hc⟩
    · exact Or.inl hc
    · cases hcall'
      exact Or.inl (mem_without.mp hc).1
  | written h hne =>
    rcases hc with hc | ⟨call', hcall', hc⟩
    · right
      left
      cases call <;> cases h <;> exact hc
    · cases hcall'
      cases hc
  | added =>
    simp only [toNoeioDaemon_addPeer, Option.not_mem_none, false_and, exists_false, or_false] at hc
    exact Or.inl hc
  | _ =>
    simp only [Option.mem_def, Option.some.injEq, exists_eq_left', Call.carried, Call.writes,
      Option.getD_none, List.not_mem_nil, reduceCtorEq, false_and, exists_false, or_false] at hc
    exact Or.inl hc

/-- What a call is about to write has no duplicates if the list it read has none. -/
theorem nodup (h : Stepped env d now call e next) (hd : d.advertised.Nodup)
    (hcall : ∀ routes, call.writes = some routes → routes.Nodup) :
    e.advertised.Nodup ∧ ∀ call' ∈ next, ∀ routes, call'.writes = some routes → routes.Nodup := by
  cases h with
  | advertiseRead =>
    refine ⟨hd, ?_⟩
    rintro _ ⟨⟩ routes ⟨⟩
    exact nodup_merge hd
  | withdrawRead h =>
    refine ⟨hd, ?_⟩
    rintro _ ⟨⟩ routes ⟨⟩
    exact hd.filter _
  | written h hne =>
    refine ⟨hcall _ h, ?_⟩
    rintro _ ⟨⟩ routes ⟨⟩
  | added => exact ⟨by rwa [toNoeioDaemon_addPeer], by simp⟩
  | accepted | created | registered =>
    refine ⟨hd, ?_⟩
    rintro _ ⟨⟩ routes ⟨⟩
  | _ => exact ⟨hd, by simp⟩

end Daemon.Stepped

namespace Served

variable {env : RouteEnv} {s : Served} {call : (RouteRequest ⊕ NicRequest) × Call} {now : UInt64}

theorem mem_held_advance (hcall : call ∈ s.calls) {c : Ipv4Cidr}
    (hc : c ∈ held (s.advance call (s.shared.atomic env call.2 now))) :
    c ∈ s.held ∨ ∃ cidrs accepted, env.acceptedBy s.shared.guarded cidrs = .ok accepted ∧
      c ∈ accepted := by
  have hstep := Daemon.stepped_atomic env s.shared call.2 now
  have hnext : c ∈ (s.shared.atomic env call.2 now).1.advertised ∨
      (∃ call' ∈ (s.shared.atomic env call.2 now).2, c ∈ call'.carried) ∨
      ∃ call' ∈ s.calls, c ∈ call'.2.carried := by
    rcases mem_held.mp hc with hc | ⟨call', hcall', hc⟩
    · exact Or.inl hc
    · rcases Tasks.mem_advance.mp hcall' with ⟨-, h⟩ | h
      · exact Or.inr (Or.inl ⟨_, h, hc⟩)
      · exact Or.inr (Or.inr ⟨_, Tasks.mem_of_mem_rest h, hc⟩)
  rw [← or_assoc] at hnext
  rcases hnext with hc | hc
  · rcases hstep.enters hc with hc | hc | ⟨cidrs, accepted, -, hok, hc⟩
    · exact Or.inl (mem_held.mpr (Or.inl hc))
    · exact Or.inl (mem_held.mpr (Or.inr ⟨call, hcall, hc⟩))
    · exact Or.inr ⟨cidrs, accepted, hok, hc⟩
  · exact Or.inl (mem_held.mpr (Or.inr hc))

theorem held_start (s : Served) (r : RouteRequest ⊕ NicRequest) :
    held { s with calls := (r, Sum.elim RouteRequest.entry NicRequest.entry r) :: s.calls } =
      s.held := by
  rcases r with (cidrs | cidrs) | r <;> rfl

end Served

/-! ## Boot -/

/-- The strings of a validated configuration parse to the blocks they were made from. -/
theorem Daemon.main_eq_ok {env : RouteEnv} {cfg : RouterConfig} {controlPlane : List IpAddr}
    {d : Daemon} (h : Daemon.main env cfg controlPlane = .ok d) :
    d.nics = ∅ ∧ d.controlPlane = controlPlane ∧
      d.advertised = (env.collect ⟨[], controlPlane⟩ pushNew cfg.advertiseRoutes).1 := by
  unfold Daemon.main RouterConfig.validateRoutes at h
  simp only at h
  split at h
  · cases h
  · cases h
    refine ⟨rfl, rfl, ?_⟩
    have hparse : env.text.parse ∘ env.text.display = some := funext env.text.parse_display
    simp only [Daemon.new, List.filterMap_map, hparse, List.filterMap_some]

/-! ## The gate -/

/-- The block passed the gate on this platform, at whatever overlay IPs there were. -/
structure Admitted (env : RouteEnv) (controlPlane : List IpAddr) (c : Ipv4Cidr) : Prop where
  platform : env.platform.canAdvertise = true
  network : c.network = c
  valid : validateCidr c ⟨[], controlPlane⟩ = .ok ()

theorem admitted_of_validate {env : RouteEnv} {guarded : Protected} {raw : String} {c : Ipv4Cidr}
    (h : validateAdvertisement env.text env.platform raw guarded = .ok c) :
    Admitted env guarded.controlPlane c := by
  obtain ⟨hparse, hplat, hvalid⟩ := validateAdvertisement_eq_ok.mp h
  obtain ⟨hlen, hclear⟩ := validateCidr_eq_ok.mp hvalid
  refine ⟨hplat, network_of_parseCidr hparse, validateCidr_eq_ok.mpr ⟨hlen, ?_⟩⟩
  rintro a ha (h | h | h | h)
  · exact hclear a ha (Or.inl h)
  · exact hclear a ha (Or.inr (Or.inl h))
  · cases h
  · exact hclear a ha (Or.inr (Or.inr (Or.inr h)))

namespace Served

/-- A request that names a bad CIDR, at the point where its strings are checked. -/
def Bad (env : RouteEnv) (d : Daemon) : Call → Prop
  | .advertiseRoute cidrs => ∃ raw ∈ cidrs, ∃ err,
    validateAdvertisement env.text env.platform raw d.guarded = .error err
  | .withdrawRoute cidrs => ∃ raw ∈ cidrs, ∃ err, parseCidr env.text raw = .error err
  | _ => False

/-- What the gate guarantees of a state. -/
structure Gated (env : RouteEnv) (controlPlane : List IpAddr) (s : Served) : Prop where
  nodup : s.shared.advertised.Nodup
  network : ∀ c ∈ s.shared.advertised, c.network = c
  prefixLen : ∀ c ∈ s.shared.advertised, minPrefixLen ≤ c.prefixLen
  clear : ∀ c ∈ s.shared.advertised, ∀ a, c.containsAddr a = true →
    a.isLoopback = false ∧ a.isLinkLocal = false ∧ .v4 a ∉ controlPlane
  platform : env.platform.canAdvertise = false → s.shared.advertised = []
  /-- A request with a bad CIDR returns and changes nothing. -/
  refused : ∀ call ∈ s.calls, Bad env s.shared call.2 → ∀ now,
    step env s (.resume call now) = { s with calls := s.rest call }

/-- What every step keeps. -/
structure Inv (env : RouteEnv) (controlPlane : List IpAddr) (s : Served) : Prop where
  controlPlane_eq : s.shared.controlPlane = controlPlane
  nodup : s.shared.advertised.Nodup
  writes : ∀ call ∈ s.calls, ∀ routes, call.2.writes = some routes → routes.Nodup
  admitted : ∀ c ∈ s.held, Admitted env controlPlane c

variable {env : RouteEnv} {controlPlane : List IpAddr} {s : Served}

theorem inv_main {cfg : RouterConfig} {d : Daemon} (h : Daemon.main env cfg controlPlane = .ok d) :
    Inv env controlPlane ⟨d, []⟩ := by
  obtain ⟨-, hcp, hadv⟩ := Daemon.main_eq_ok h
  refine ⟨hcp, ?_, ?_, ?_⟩
  · rw [hadv]
    exact RouteEnv.nodup_collect
  · rintro call ⟨⟩
  · intro c hc
    have hc : c ∈ d.advertised := by simpa [held] using hc
    rw [hadv] at hc
    obtain ⟨raw, -, hok⟩ := RouteEnv.exists_of_mem_collect mem_pushNew.mp hc
    exact admitted_of_validate hok

theorem Inv.start (h : Inv env controlPlane s) (r : RouteRequest ⊕ NicRequest) :
    Inv env controlPlane
      { s with calls := (r, Sum.elim RouteRequest.entry NicRequest.entry r) :: s.calls } := by
  refine ⟨h.controlPlane_eq, h.nodup, ?_, fun c hc => h.admitted c (held_start s r ▸ hc)⟩
  intro call hcall
  rcases List.mem_cons.mp hcall with rfl | hcall
  · rcases r with (cidrs | cidrs) | r <;> rintro routes ⟨⟩
  · exact h.writes call hcall

theorem Inv.resume (h : Inv env controlPlane s) {call : (RouteRequest ⊕ NicRequest) × Call}
    (hcall : call ∈ s.calls) (now : UInt64) :
    Inv env controlPlane (s.advance call (s.shared.atomic env call.2 now)) := by
  have hstep := Daemon.stepped_atomic env s.shared call.2 now
  obtain ⟨hnodup, hnext⟩ := hstep.nodup h.nodup (h.writes call hcall)
  refine ⟨hstep.controlPlane_eq.trans h.controlPlane_eq, hnodup, ?_, ?_⟩
  · intro call' hcall'
    rcases Tasks.mem_advance.mp hcall' with ⟨-, hk⟩ | hold
    · exact hnext _ hk
    · exact h.writes _ (Tasks.mem_of_mem_rest hold)
  · intro c hc
    rcases mem_held_advance hcall hc with hc | ⟨cidrs, accepted, hok, hc⟩
    · exact h.admitted c hc
    · obtain ⟨raw, -, hvalid⟩ := RouteEnv.valid_of_acceptedBy hok hc
      exact h.controlPlane_eq ▸ admitted_of_validate hvalid

theorem resume_bad {call : (RouteRequest ⊕ NicRequest) × Call} (hcall : call ∈ s.calls)
    (hbad : Bad env s.shared call.2) (now : UInt64) :
    step env s (.resume call now) = { s with calls := s.rest call } := by
  have hatomic : s.shared.atomic env call.2 now = (s.shared, none) := by
    obtain ⟨r, k⟩ := call
    cases k with
    | advertiseRoute cidrs =>
      obtain ⟨raw, hraw, err, herr⟩ := hbad
      obtain ⟨status, hstatus⟩ := RouteEnv.acceptedBy_of_bad hraw herr
      simp [Daemon.atomic, hstatus]
    | withdrawRoute cidrs =>
      obtain ⟨raw, hraw, err, herr⟩ := hbad
      obtain ⟨status, hstatus⟩ := RouteEnv.removedBy_of_bad hraw herr
      simp [Daemon.atomic, hstatus]
    | _ => cases hbad
  rw [step, Tasks.step, if_pos hcall, hatomic]
  rfl

theorem Inv.gated (h : Inv env controlPlane s) : Gated env controlPlane s where
  nodup := h.nodup
  network c hc := (h.admitted c (mem_held.mpr (Or.inl hc))).network
  prefixLen c hc := (validateCidr_eq_ok.mp (h.admitted c (mem_held.mpr (Or.inl hc))).valid).1
  clear c hc a ha := by
    have hclear := (validateCidr_eq_ok.mp (h.admitted c (mem_held.mpr (Or.inl hc))).valid).2 a ha
    simp only [Protected.Sensitive, not_or, Bool.not_eq_true] at hclear
    exact ⟨hclear.1, hclear.2.1, hclear.2.2.2⟩
  platform hplat := by
    rw [List.eq_nil_iff_forall_not_mem]
    intro c hc
    rw [(h.admitted c (mem_held.mpr (Or.inl hc))).platform] at hplat
    cases hplat
  refused _ hcall hbad now := resume_bad hcall hbad now

/-- **The gate.** Whatever was configured and accepted at boot, and however the requests that
follow interleave, the list has no duplicates and only admissible blocks in network form, it is
empty where the platform cannot advertise, and a request with a bad CIDR changes nothing. -/
theorem advertised_gated {cfg : RouterConfig} {d : Daemon}
    (hboot : Daemon.main env cfg controlPlane = .ok d) (es : List Event) :
    Gated env controlPlane (Runs.run (step env) ⟨d, []⟩ es) := by
  have hinv : Inv env controlPlane (Runs.run (step env) ⟨d, []⟩ es) := by
    refine Tasks.invariant (C := fun _ _ _ => True) (P := fun _ s => Inv env controlPlane s)
      (inv_main hboot) ?_ ?_ ?_ Runs.meets_true
    · intro _ _ r h _
      exact h.start r
    · intro _ _ _ now h _ hcall
      exact h.resume hcall now
    · intro _ _ _ _ h
      exact h
  exact hinv.gated

namespace Sample

open RouteEnv.Sample

/-- The office twice, the first time with blanks and host bits. -/
def config : RouterConfig := ⟨[" 10.1.2.3/8", "10.0.0.0/8"], false⟩

def router : Daemon := .new linux ⟨["10.0.0.0/8"], false⟩ []

def addLan : RouteRequest := .advertiseRoute ["192.168.5.9/24"]

/-- The loopback block is refused, the LAN is advertised. -/
def requests : List Event :=
  [.start (.inl (.advertiseRoute ["127.0.0.0/8"])), .start (.inl addLan),
    .resume (.inl addLan, addLan.entry) 1,
    .resume (.inl (.advertiseRoute ["127.0.0.0/8"]), .advertiseRoute ["127.0.0.0/8"]) 2,
    .resume (.inl addLan, .advertiseRead [lan]) 3,
    .resume (.inl addLan, .advertiseWrite [lan] [office]) 4]

theorem advertised_gated_requests :
    Daemon.main linux config [] = .ok router ∧
      (Runs.run (step linux) ⟨router, []⟩ requests).shared.advertised = [office, lan] ∧
      Gated linux [] (Runs.run (step linux) ⟨router, []⟩ requests) := by
  have hboot : Daemon.main linux config [] = .ok router := rfl
  exact ⟨hboot, by decide, advertised_gated hboot requests⟩

end Sample

/-! ## The overlay IPs -/

/-- A nic is registered only with an IP that lies in no block that is advertised or about to
be. -/
def Outside (s : Served) : Event → Prop
  | .resume (_, .register _ ip _) _ => ∀ c ∈ s.held, covers c ip = false
  | _ => True

/-- No block that is advertised or about to be covers an overlay IP. -/
def Apart (s : Served) : Prop := ∀ c ∈ s.held, ∀ ip ∈ s.shared.nicIps, covers c ip = false

theorem mem_nicIps_insert {d e : Daemon} {peerId : PeerId} {ip : IpAddr}
    (h : e.nics = d.nics.insert peerId ip) {x : IpAddr} (hx : x ∈ e.nicIps) :
    x = ip ∨ x ∈ d.nicIps := by
  obtain ⟨entry, hentry, rfl⟩ := List.mem_map.mp hx
  rw [h, AList.entries_insert, List.mem_cons] at hentry
  rcases hentry with rfl | hentry
  · exact Or.inl rfl
  · exact Or.inr (List.mem_map_of_mem ((List.kerase_sublist _ _).subset hentry))

theorem not_covers_of_accepted {guarded : Protected} {cidrs : List String}
    {accepted : List Ipv4Cidr} (hok : env.acceptedBy guarded cidrs = .ok accepted) {c : Ipv4Cidr}
    (hc : c ∈ accepted) {ip : IpAddr} (hip : ip ∈ guarded.overlayIps) : covers c ip = false := by
  obtain ⟨raw, -, hvalid⟩ := RouteEnv.valid_of_acceptedBy hok hc
  have hclear := (validateCidr_eq_ok.mp (validateAdvertisement_eq_ok.mp hvalid).2.2).2
  cases ip with
  | v6 a => rfl
  | v4 a =>
    rw [← Bool.not_eq_true]
    intro ha
    exact hclear a ha (Or.inr (Or.inr (Or.inl hip)))

theorem Apart.resume (h : s.Apart) {call : (RouteRequest ⊕ NicRequest) × Call}
    (hcall : call ∈ s.calls) {now : UInt64} (hout : s.Outside (.resume call now)) :
    Apart (s.advance call (s.shared.atomic env call.2 now)) := by
  intro c hc ip hip
  have hstep := Daemon.stepped_atomic env s.shared call.2 now
  rcases hstep.nics_eq with hnics | ⟨peerId, newIp, peer, hreg, hnics⟩
  · have hold : ip ∈ s.shared.nicIps := by
      rw [NoeioDaemon.nicIps, ← hnics]
      exact hip
    rcases mem_held_advance hcall hc with hc | ⟨cidrs, accepted, hok, hc⟩
    · exact h c hc ip hold
    · exact not_covers_of_accepted hok hc hold
  · obtain ⟨r, k⟩ := call
    subst hreg
    -- a registration lets no block through
    have hheld : c ∈ s.held := by
      rcases mem_held.mp hc with hc | ⟨call', hcall', hc⟩
      · exact mem_held.mpr (Or.inl hc)
      · rcases Tasks.mem_advance.mp hcall' with ⟨-, hk⟩ | hold
        · rw [← Option.some.inj hk] at hc
          cases hc
        · exact mem_held.mpr (Or.inr ⟨call', Tasks.mem_of_mem_rest hold, hc⟩)
    rcases mem_nicIps_insert hnics hip with rfl | hip
    · exact hout c hheld
    · exact h c hheld ip hip

/-- **No overlay IP is advertised**, in every run in which each nic is registered with an IP
outside the blocks that are advertised or about to be. -/
theorem advertised_avoids_nics {cfg : RouterConfig} {d : Daemon}
    (hboot : Daemon.main env cfg controlPlane = .ok d) {es : List Event}
    (hes : Runs.Meets (step env) (fun _ => Outside) ⟨d, []⟩ es) :
    ∀ c ∈ (Runs.run (step env) ⟨d, []⟩ es).shared.advertised,
      ∀ a, .v4 a ∈ (Runs.run (step env) ⟨d, []⟩ es).shared.nicIps → c.containsAddr a = false := by
  have hapart : Apart (Runs.run (step env) ⟨d, []⟩ es) := by
    refine Tasks.invariant (P := fun _ s => Apart s) ?_ ?_ ?_ ?_ hes
    · intro c _ ip hip
      simp [NoeioDaemon.nicIps, (Daemon.main_eq_ok hboot).1] at hip
    · intro _ _ r h _ c hc
      exact h c (held_start _ r ▸ hc)
    · intro _ _ _ _ h hout hcall
      exact h.resume hcall hout
    · intro _ _ _ _ h
      exact h
  intro c hc a ha
  exact hapart c (mem_held.mpr (Or.inl hc)) _ ha

namespace Sample

open RouteEnv.Sample

def nic : NicRequest := ⟨7, .v4 (.ofOctets 10 0 0 5), "net"⟩

/-- The peer of a nic, made while the office is advertised. -/
def peerOf (nic : NicRequest) : PeerInfo :=
  ⟨0, nic.peerId, nic.ip, Vector.replicate 16 0, .other, none, [], [office], false⟩

/-- The nic is registered. -/
def joins (nic : NicRequest) : List Event :=
  [.start (.inr nic), .resume (.inr nic, nic.entry) 1,
    .resume (.inr nic, .register nic.peerId nic.ip (peerOf nic)) 2]

theorem advertises_nic :
    Daemon.main linux config [] = .ok router ∧
      office ∈ (Runs.run (step linux) ⟨router, []⟩ (joins nic)).shared.advertised ∧
      .v4 (.ofOctets 10 0 0 5) ∈
        (Runs.run (step linux) ⟨router, []⟩ (joins nic)).shared.nicIps ∧
      office.containsAddr (.ofOctets 10 0 0 5) = true := by
  exact ⟨rfl, by decide, by decide, by decide⟩

/-- A nic outside the office. -/
def awayNic : NicRequest := ⟨7, .v4 (.ofOctets 172 16 0 5), "net"⟩

theorem advertised_avoids_awayNic :
    (Runs.run (step linux) ⟨router, []⟩ (joins awayNic)).shared.advertised = [office] ∧
      (Runs.run (step linux) ⟨router, []⟩ (joins awayNic)).shared.nicIps = [awayNic.ip] ∧
      office.containsAddr (.ofOctets 172 16 0 5) = false := by
  have hboot : Daemon.main linux config [] = .ok router := rfl
  have hout : ∀ c ∈ [office], covers c awayNic.ip = false := by decide
  have hmeets : Runs.Meets (step linux) (fun _ => Outside) ⟨router, []⟩ (joins awayNic) :=
    ⟨trivial, trivial, hout, trivial⟩
  refine ⟨by decide, by decide, ?_⟩
  exact advertised_avoids_nics hboot hmeets office (by decide) _ (by decide)

end Sample

end Served

end Noeio
