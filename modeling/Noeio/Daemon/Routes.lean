import Mathlib.Data.List.AList
import Noeio.Common.AddrText

/-!
# Subnet route policy

`noeio/src/daemon/routes.rs`: the blacklist shared by advertiser and consumer
(`validateCidr`), the gate that every advertisement passes (`validateAdvertisement`), and the
consumer's decision on every advertised route (`Routes.decide`).

The blacklist checks a few addresses of a block. `validateCidr_eq_ok` says that this is
enough: a block of prefix at least 8 passes exactly when none of its addresses is loopback,
link-local or one of the protected ones.
-/

namespace Noeio

def minPrefixLen : Nat := 8

inductive RouteError where
  /-- Not parseable as `a.b.c.d/n`. -/
  | malformed (s : String)
  | tooBroad (cidr : Ipv4Cidr)
  | overlapsOverlay (cidr : Ipv4Cidr) (overlay : IpAddr)
  | coversControlPlane (cidr : Ipv4Cidr) (addr : IpAddr)
  | reserved (cidr : Ipv4Cidr)
  | platformConsumerOnly (cidr : Ipv4Cidr) (platform : String)
  deriving DecidableEq

def RouteError.display (text : CidrText) : RouteError → String
  | .malformed s => "'" ++ s ++ "' is not a valid IPv4 CIDR"
  | .tooBroad cidr =>
    text.display cidr ++ ": prefix shorter than /" ++ minPrefixLen.repr ++
      " (exit-node routes are not supported)"
  | .overlapsOverlay cidr overlay =>
    text.display cidr ++ " contains this node's overlay address " ++ overlay.display ++
      "; overlay traffic would loop"
  | .coversControlPlane cidr addr =>
    text.display cidr ++ " contains control-plane server " ++ addr.display ++
      " (derper/STUN); the node would lose its relay"
  | .reserved cidr => text.display cidr ++ " is loopback or link-local"
  | .platformConsumerOnly cidr platform =>
    text.display cidr ++
      ": advertising subnet routes (acting as a subnet router) is not supported on " ++ platform ++
      ". This node can still *use* subnet routes advertised by other nodes; advertise " ++
      text.display cidr ++ " from a Linux node instead"

/-- Addresses a block must not swallow. -/
structure Protected where
  overlayIps : List IpAddr
  controlPlane : List IpAddr

/-- An address whose traffic must not go into the tunnel. -/
def Protected.Sensitive (self : Protected) (a : Ipv4Addr) : Prop :=
  a.isLoopback = true ∨ a.isLinkLocal = true ∨ .v4 a ∈ self.overlayIps ∨
    .v4 a ∈ self.controlPlane

instance (self : Protected) (a : Ipv4Addr) : Decidable (self.Sensitive a) :=
  inferInstanceAs (Decidable (_ ∨ _))

/-! ## The blacklist -/

def covers (cidr : Ipv4Cidr) : IpAddr → Bool
  | .v4 v4 => cidr.containsAddr v4
  | .v6 _ => false

def validateCidr (cidr : Ipv4Cidr) (guarded : Protected) : Except RouteError Unit :=
  if cidr.prefixLen < minPrefixLen then .error (.tooBroad cidr)
  else
    let addr := cidr.address
    if addr.isLoopback || addr.isLinkLocal || cidr.containsAddr .localhost ||
        cidr.containsAddr (.ofOctets 169 254 0 0) then
      .error (.reserved cidr)
    else
      match guarded.overlayIps.find? (covers cidr) with
      | some overlay => .error (.overlapsOverlay cidr overlay)
      | none =>
        match guarded.controlPlane.find? (covers cidr) with
        | some addr => .error (.coversControlPlane cidr addr)
        | none => .ok ()

theorem find_covers_eq_none {cidr : Ipv4Cidr} {ips : List IpAddr} :
    ips.find? (covers cidr) = none ↔ ∀ a, cidr.containsAddr a = true → .v4 a ∉ ips := by
  rw [List.find?_eq_none]
  constructor
  · intro h a ha hmem
    exact h _ hmem ha
  · intro h ip hmem hip
    cases ip with
    | v4 a => exact h a hip hmem
    | v6 a => cases hip

/-- The four checks against the reserved ranges find every reserved address of the block. -/
theorem reserved_iff {c : Ipv4Cidr} (hp : minPrefixLen ≤ c.prefixLen) :
    (c.address.isLoopback || c.address.isLinkLocal || c.containsAddr .localhost ||
        c.containsAddr (.ofOctets 169 254 0 0)) = true ↔
      ∃ a, c.containsAddr a = true ∧ (a.isLoopback = true ∨ a.isLinkLocal = true) := by
  simp only [Bool.or_eq_true]
  constructor
  · rintro (((h | h) | h) | h)
    · exact ⟨_, c.containsAddr_self, Or.inl h⟩
    · exact ⟨_, c.containsAddr_self, Or.inr h⟩
    · exact ⟨_, h, Or.inl (by decide)⟩
    · exact ⟨_, h, Or.inr (by decide)⟩
  · rintro ⟨a, hc, ha | ha⟩
    · exact Or.inl (Or.inl (Or.inl (Ipv4Cidr.isLoopback_of_containsAddr hp hc ha)))
    · rcases Ipv4Cidr.linkLocal_of_containsAddr hc ha with h | h
      · exact Or.inl (Or.inl (Or.inr h))
      · exact Or.inr h

/-- A block passes the blacklist if and only if it is not too broad and contains no
sensitive address. -/
theorem validateCidr_eq_ok {c : Ipv4Cidr} {guarded : Protected} :
    validateCidr c guarded = .ok () ↔
      minPrefixLen ≤ c.prefixLen ∧ ∀ a, c.containsAddr a = true → ¬ guarded.Sensitive a := by
  unfold validateCidr Protected.Sensitive
  by_cases hp : c.prefixLen < minPrefixLen
  · have hbroad : ¬ minPrefixLen ≤ c.prefixLen := Nat.not_le.mpr hp
    simp [hp, hbroad]
  · have hres := reserved_iff (Nat.not_lt.mp hp)
    rw [if_neg hp]
    simp only
    split
    · rename_i hbad
      obtain ⟨a, hc, ha⟩ := hres.mp hbad
      simp only [reduceCtorEq, false_iff, not_and, not_forall, not_not]
      intro _
      exact ⟨a, hc, ha.elim Or.inl fun ha => Or.inr (Or.inl ha)⟩
    · rename_i hgood
      have hclear : ∀ a, c.containsAddr a = true →
          ¬ (a.isLoopback = true ∨ a.isLinkLocal = true) :=
        fun a hc ha => hgood (hres.mpr ⟨a, hc, ha⟩)
      cases ho : guarded.overlayIps.find? (covers c) with
      | some ip =>
        have hin := find_covers_eq_none.not.mp (by rw [ho]; simp)
        push Not at hin
        obtain ⟨a, hc, ha⟩ := hin
        simp only [reduceCtorEq, false_iff, not_and, not_forall, not_not]
        exact fun _ => ⟨a, hc, Or.inr (Or.inr (Or.inl ha))⟩
      | none =>
        cases hcp : guarded.controlPlane.find? (covers c) with
        | some ip =>
          have hin := find_covers_eq_none.not.mp (by rw [hcp]; simp)
          push Not at hin
          obtain ⟨a, hc, ha⟩ := hin
          simp only [reduceCtorEq, false_iff, not_and, not_forall, not_not]
          exact fun _ => ⟨a, hc, Or.inr (Or.inr (Or.inr ha))⟩
        | none =>
          simp only [true_iff]
          refine ⟨Nat.not_lt.mp hp, ?_⟩
          rintro a hc (ha | ha | ha | ha)
          · exact hclear a hc (Or.inl ha)
          · exact hclear a hc (Or.inr ha)
          · exact find_covers_eq_none.mp ho a hc ha
          · exact find_covers_eq_none.mp hcp a hc ha

/-! ## Advertisements -/

/-- The platform of a build, by the name of its operating system. -/
structure Platform where
  name : String
  deriving DecidableEq

def Platform.canAdvertise (platform : Platform) : Bool := platform.name == "linux"

/-- Parse and normalize one CIDR string. -/
def parseCidr (text : CidrText) (s : String) : Except RouteError Ipv4Cidr :=
  let s := Text.trim s
  match text.parse s with
  | some cidr => .ok cidr.network
  | none => .error (.malformed s)

/-- Everything an advertisement must pass before it is broadcast. -/
def validateAdvertisement (text : CidrText) (platform : Platform) (s : String)
    (guarded : Protected) : Except RouteError Ipv4Cidr := do
  let cidr ← parseCidr text s
  if !platform.canAdvertise then throw (.platformConsumerOnly cidr platform.name)
  validateCidr cidr guarded
  return cidr

/-- What an error is about: the text that is no block, or the block. -/
def RouteError.subject (text : CidrText) : RouteError → String
  | .malformed s => s
  | .tooBroad cidr | .overlapsOverlay cidr _ | .coversControlPlane cidr _ | .reserved cidr
  | .platformConsumerOnly cidr _ => text.display cidr

theorem RouteError.subject_of_validateCidr {text : CidrText} {c : Ipv4Cidr} {guarded : Protected}
    {err : RouteError} (h : validateCidr c guarded = .error err) :
    err.subject text = text.display c := by
  unfold validateCidr at h
  split at h
  · cases h
    rfl
  simp only at h
  split at h
  · cases h
    rfl
  split at h
  · cases h
    rfl
  split at h
  · cases h
    rfl
  · cases h

/-- The text of an error names what it is about. -/
theorem RouteError.subject_in_display (text : CidrText) (err : RouteError) :
    ∃ before after, err.display text = before ++ err.subject text ++ after := by
  cases err with
  | malformed s => exact ⟨"'", "' is not a valid IPv4 CIDR", rfl⟩
  | _ =>
    simp only [display, subject, String.append_assoc]
    exact ⟨"", _, String.empty_append.symm⟩

theorem network_of_parseCidr {text : CidrText} {s : String} {c : Ipv4Cidr}
    (h : parseCidr text s = .ok c) : c.network = c := by
  unfold parseCidr at h
  simp only at h
  split at h
  · cases h
    exact Ipv4Cidr.network_network _
  · cases h

/-- An advertisement passes if and only if it parses, on a platform that can advertise, to a
block that passes the blacklist. -/
theorem validateAdvertisement_eq_ok {text : CidrText} {platform : Platform} {s : String}
    {guarded : Protected} {c : Ipv4Cidr} :
    validateAdvertisement text platform s guarded = .ok c ↔
      parseCidr text s = .ok c ∧ platform.canAdvertise = true ∧
        validateCidr c guarded = .ok () := by
  unfold validateAdvertisement
  cases hparse : parseCidr text s with
  | error err => simp [bind, Except.bind]
  | ok cidr =>
    cases hplat : platform.canAdvertise with
    | false => simp [bind, Except.bind, throw, throwThe, MonadExceptOf.throw]
    | true =>
      simp only [bind, Except.bind, Except.ok.injEq, true_and]
      constructor
      · intro h
        cases hvalid : validateCidr cidr guarded with
        | error err => simp [hvalid] at h
        | ok u =>
          rw [hvalid] at h
          cases h
          exact ⟨rfl, hvalid⟩
      · rintro ⟨rfl, hvalid⟩
        rw [hvalid]
        rfl

/-- A refusal names what was refused, as a block in network form if it is one. -/
theorem validateAdvertisement_names {text : CidrText} {platform : Platform} {s : String}
    {guarded : Protected} {err : RouteError}
    (h : validateAdvertisement text platform s guarded = .error err) :
    ∃ before after, err.display text = before ++
      ((text.parse (Text.trim s)).map fun c => text.display c.network).getD (Text.trim s) ++
        after := by
  have hsubject : err.subject text =
      ((text.parse (Text.trim s)).map fun c => text.display c.network).getD (Text.trim s) := by
    cases hparse : text.parse (Text.trim s) with
    | none =>
      simp only [validateAdvertisement, parseCidr, hparse] at h
      cases h
      rfl
    | some cidr =>
      simp only [validateAdvertisement, parseCidr, hparse, bind, Except.bind, throw, throwThe,
        MonadExceptOf.throw] at h
      cases hplat : platform.canAdvertise with
      | false =>
        simp only [hplat, Bool.not_false, if_true] at h
        cases h
        rfl
      | true =>
        simp only [hplat, Bool.not_true, Bool.false_eq_true, if_false] at h
        cases hvalid : validateCidr cidr.network guarded with
        | ok u =>
          rw [hvalid] at h
          cases h
        | error why =>
          rw [hvalid] at h
          cases h
          exact RouteError.subject_of_validateCidr hvalid
  rw [← hsubject]
  exact err.subject_in_display text

/-! ## Decisions -/

/-- Why an advertised route is not installed. -/
inductive Rejection where
  | invalid
  | localLan
  | selfAdvertised
  | standby
  | policyOff
  deriving DecidableEq

structure Decision where
  cidr : Ipv4Cidr
  peerId : PeerId
  rejected : Option Rejection
  deriving DecidableEq

structure ConsumerPolicy where
  acceptRoutes : Bool
  localLans : List Ipv4Cidr
  selfAdvertised : List Ipv4Cidr
  guarded : Protected

/-- Two prefixes overlap when either contains the other. -/
def overlaps (a b : Ipv4Cidr) : Bool := a.containsSubnet b || b.containsSubnet a

/-- The lowest peer id for each exact prefix. -/
def active (advertised : List (PeerId × Ipv4Cidr)) : AList (fun _ : Ipv4Cidr => PeerId) :=
  advertised.foldl (fun active (peerId, cidr) =>
    let lowest := match active.lookup cidr.network with
      | some p => min p peerId
      | none => peerId
    active.insert cidr.network lowest) ∅

protected def Routes.decide (policy : ConsumerPolicy) (advertised : List (PeerId × Ipv4Cidr)) :
    List Decision :=
  if !policy.acceptRoutes then
    advertised.map fun (peerId, cidr) => ⟨cidr, peerId, some .policyOff⟩
  else
    let active := active advertised
    advertised.map fun (peerId, cidr) =>
      let cidr := cidr.network
      let rejected :=
        if policy.localLans.any (overlaps · cidr) then some .localLan
        else if policy.selfAdvertised.any (overlaps · cidr) then some .selfAdvertised
        else if validateCidr cidr policy.guarded ≠ .ok () then some .invalid
        else if active.lookup cidr ≠ some peerId then some .standby
        else none
      ⟨cidr, peerId, rejected⟩

/-- An accepted route was advertised by its exit, is in network form and passed the
blacklist. -/
theorem accepted_of_mem_decide {policy : ConsumerPolicy} {advertised : List (PeerId × Ipv4Cidr)}
    {d : Decision} (h : d ∈ Routes.decide policy advertised) (hok : d.rejected = none) :
    ∃ cidr, (d.peerId, cidr) ∈ advertised ∧ d.cidr = cidr.network ∧
      validateCidr d.cidr policy.guarded = .ok () := by
  unfold Routes.decide at h
  split at h
  · obtain ⟨⟨p, c⟩, -, rfl⟩ := List.mem_map.mp h
    cases hok
  · obtain ⟨⟨p, c⟩, hmem, rfl⟩ := List.mem_map.mp h
    refine ⟨c, hmem, rfl, ?_⟩
    simp only at hok ⊢
    split at hok
    · cases hok
    split at hok
    · cases hok
    split at hok
    · cases hok
    · rename_i hvalid
      exact not_not.mp hvalid

/-! ## The local networks -/

/-- An address of a physical interface. -/
inductive IpNetwork where
  | v4 (net : Ipv4Cidr)
  | v6 (ip : BitVec 128) (prefixLen : Nat)

structure Interface where
  isLoopback : Bool
  ips : List IpNetwork

/-- The IPv4 subnets the physical interfaces sit on, our own TUNs left out. -/
def localLans (interfaces : List Interface) (exclude : List IpAddr) : List Ipv4Cidr :=
  ((interfaces.filter fun iface => !iface.isLoopback).flatMap (·.ips)).filterMap (fun net =>
    match net with
    | .v4 v4 => if .v4 v4.address ∉ exclude then some v4.network else none
    | .v6 .. => none)
  |>.filter (·.prefixLen < 32)

end Noeio
