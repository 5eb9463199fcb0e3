import Noeio.Daemon.Nftables
import Noeio.Daemon.NoeioDaemon
import Noeio.Lib.Checked
import Noeio.Lib.CidrText
import Noeio.Lib.CoveringBlock

/-!
# The target of the source NAT

`nat_target`, `covering_prefix` and `default_lan_interface` of `noeio/src/daemon/nat.rs`. The
overlay range is the smallest block that contains every overlay address the node knows, computed
from the least and the greatest of them (`coveringPrefix_of_ends`). The rules are built from it by
`match_saddr`, which masks the block again (`Nftables.matchSaddr`).

`nat_target` reads tables that change meanwhile, so each read is a value of its own (`NatReads`).
-/

namespace Noeio

/-! ## The overlay range -/

/-- The mask, as `covering_prefix` and `match_saddr` both compute it. -/
def prefixMask (checks : Bool) (prefixLen : UInt8) : Except Checked.Panic (BitVec 32) :=
  if prefixLen = 0 then .ok 0
  else do
    let shift ← Checked.sub8 checks 32 prefixLen
    Checked.shl checks (BitVec.allOnes 32) shift

/-- Smallest CIDR containing every address in `ips` (sorted, non-empty). -/
def coveringPrefix (checks : Bool) (ips : List Ipv4Addr) :
    Except Checked.Panic (Option (Ipv4Addr × UInt8)) :=
  match ips.head?, ips.getLast? with
  | some first, some last => do
    let differing := UInt8.ofNat (first ^^^ last).clz.toNat
    let prefixLen := min differing 32
    let mask ← prefixMask checks prefixLen
    return some (first &&& mask, prefixLen)
  | _, _ => return none

def Router.ips (self : Router) : List IpAddr := self.peers.keys

/-! ## The target -/

/-- An interface of the host with its name. -/
structure NetworkInterface extends Interface where
  name : String

/-- What one call of `nat_target` reads, each at its own moment: the nics with their TUNs, the
addresses of the nics and of the peers, the configured interface, the advertised routes and the
interfaces of the host. -/
structure NatReads where
  nics : List (PeerId × String)
  nicIps : List IpAddr
  routerIps : List IpAddr
  lanInterface : String
  advertised : List Ipv4Cidr
  interfaces : List NetworkInterface

namespace NatReads

def overlayIps (self : NatReads) : List Ipv4Addr :=
  let ips := (self.nicIps ++ self.routerIps).filterMap fun ip =>
    match ip with
    | .v4 v4 => some v4
    | .v6 _ => none
  (ips.mergeSort (· ≤ ·)).destutter (· ≠ ·)

end NatReads

/-- The first interface on the first advertised subnet that has one. -/
def defaultLanInterface (text : CidrText) (advertised : List Ipv4Cidr) (tunIf : String)
    (interfaces : List NetworkInterface) : Except String String :=
  let onSubnet (cidr : Ipv4Cidr) (net : IpNetwork) : Bool :=
    match net with
    | .v4 v4 => cidr.containsAddr v4.address
    | .v6 .. => false
  let found := advertised.findSome? fun cidr =>
    interfaces.find? fun iface =>
      !(iface.name == tunIf || iface.isLoopback) && iface.ips.any (onSubnet cidr)
  match found with
  | some iface => .ok iface.name
  | none =>
    .error ("no physical interface has an address inside any advertised subnet (" ++
      ", ".intercalate (advertised.map text.display) ++
      "); set [router] lan_interface explicitly")

def natTarget (checks : Bool) (text : CidrText) (reads : NatReads) :
    Except Checked.Panic (Except String AppliedNat) :=
  match reads.nics.head? with
  | none => return .error "no virtual nic registered yet"
  | some (_, tunIf) => do
    match ← coveringPrefix checks reads.overlayIps with
    | none => return .error "no IPv4 overlay address"
    | some overlay =>
      let lanIf :=
        if reads.lanInterface.isEmpty then
          defaultLanInterface text reads.advertised tunIf reads.interfaces
        else .ok reads.lanInterface
      return lanIf.map fun lanIf => { overlay, lanIf, tunIf }

/-- The reads of a call during which nothing changes. -/
def NoeioDaemon.natReads (self : NoeioDaemon) (tunName : PeerId → String) (lanInterface : String)
    (interfaces : List NetworkInterface) : NatReads where
  nics := self.nicPeers.map fun nic => (nic, tunName nic)
  nicIps := self.nicIps
  routerIps := self.router.ips
  lanInterface := lanInterface
  advertised := self.advertised
  interfaces := interfaces

/-! ## The prefix -/

/-- No shift overflows, and both functions compute the mask of the rules. -/
theorem prefixMask_eq {checks : Bool} {prefixLen : UInt8} (h : prefixLen.toNat ≤ 32) :
    prefixMask checks prefixLen = .ok (Nftables.mask prefixLen) := by
  unfold prefixMask Nftables.mask
  split
  · rfl
  · rename_i hzero
    have hpos : prefixLen.toNat ≠ 0 := fun h => hzero (UInt8.toNat_inj.mp h)
    have hle : prefixLen ≤ 32 := UInt8.le_iff_toNat_le.mpr h
    have hshift : (32 - prefixLen).toNat = 32 - prefixLen.toNat := UInt8.toNat_sub_of_le _ _ hle
    rw [Checked.sub8_of_le hle, ← hshift]
    exact Checked.shl_of_lt (by omega)

/-- Only the ends of the list are looked at: the result is the block of the first address with
the common prefix of both. -/
theorem coveringPrefix_of_ends (checks : Bool) {ips : List Ipv4Addr} {first last : Ipv4Addr}
    (hfirst : ips.head? = some first) (hlast : ips.getLast? = some last) :
    ∃ prefixLen : UInt8, prefixLen.toNat = BitVec.commonPrefix first last ∧
      coveringPrefix checks ips = .ok (some ((Ipv4Cidr.network ⟨first,
        BitVec.commonPrefix first last, BitVec.commonPrefix_le first last⟩).address, prefixLen)) := by
  have hle := BitVec.commonPrefix_le first last
  have hread : (UInt8.ofNat (BitVec.commonPrefix first last)).toNat =
      BitVec.commonPrefix first last := UInt8.toNat_ofNat_of_lt' (Nat.lt_of_le_of_lt hle (by decide))
  have hmin : min (UInt8.ofNat (BitVec.commonPrefix first last)) 32 =
      UInt8.ofNat (BitVec.commonPrefix first last) :=
    if_pos (UInt8.le_iff_toNat_le.mpr (by rw [hread]; exact hle))
  refine ⟨UInt8.ofNat (BitVec.commonPrefix first last), hread, ?_⟩
  simp only [coveringPrefix, hfirst, hlast]
  rw [← BitVec.commonPrefix, hmin, prefixMask_eq (by omega),
    Nftables.mask_eq_netmask first (by omega)]
  simp only [hread]
  rfl

theorem coveringPrefix_smallest (checks : Bool) {ips : List Ipv4Addr} (hne : ips ≠ [])
    (hsorted : ips.Pairwise (· ≤ ·)) :
    ∃ (net : Ipv4Addr) (prefixLen : UInt8) (hle : prefixLen.toNat ≤ 32),
      coveringPrefix checks ips = .ok (some (net, prefixLen)) ∧
        Ipv4Cidr.SmallestCover ⟨net, prefixLen.toNat, hle⟩ ips := by
  have hfirst := List.head?_eq_some_head hne
  have hlast := List.getLast?_eq_some_getLast hne
  obtain ⟨prefixLen, hlen, hcovering⟩ := coveringPrefix_of_ends checks hfirst hlast
  have hle := BitVec.commonPrefix_le (ips.head hne) (ips.getLast hne)
  refine ⟨_, prefixLen, by omega, hcovering, ?_⟩
  have hsmallest := Ipv4Cidr.smallestCover_of_ends hsorted hfirst hlast
  simp only [hlen]
  exact hsmallest

example : coveringPrefix true [.ofOctets 110 20 0 1, .ofOctets 110 20 3 200] =
    .ok (some (.ofOctets 110 20 0 0, 22)) := by
  decide +kernel

/-! ## The collected addresses -/

namespace NatReads

variable {reads : NatReads}

theorem isOrder_le : SortedTable.IsOrder fun a b : Ipv4Addr => decide (a ≤ b) where
  trans hab hbc :=
    decide_eq_true (BitVec.le_trans (of_decide_eq_true hab) (of_decide_eq_true hbc))
  total a b := by simpa using BitVec.le_total a b
  antisymm hab hba := BitVec.le_antisymm (of_decide_eq_true hab) (of_decide_eq_true hba)

/-- The IPv4 addresses that were read, in order and each once. -/
theorem overlayIps_eq : reads.overlayIps = SortedTable.ofList (fun a b => decide (a ≤ b))
    ((reads.nicIps ++ reads.routerIps).filterMap fun ip =>
      match ip with
      | .v4 v4 => some v4
      | .v6 _ => none) := by
  have : Std.Antisymm fun a b : Ipv4Addr => decide (a ≤ b) = true :=
    ⟨fun _ _ => isOrder_le.antisymm⟩
  exact (SortedTable.pairwise_mergeSort isOrder_le _).destutter_eq_dedup

theorem sorted_overlayIps : reads.overlayIps.Pairwise (· ≤ ·) := by
  rw [overlayIps_eq]
  exact (SortedTable.sorted_ofList isOrder_le _).pairwise.imp of_decide_eq_true

theorem mem_overlayIps {a : Ipv4Addr} :
    a ∈ reads.overlayIps ↔ .v4 a ∈ reads.nicIps ++ reads.routerIps := by
  rw [overlayIps_eq, SortedTable.mem_ofList, List.mem_filterMap]
  constructor
  · rintro ⟨ip, hip, hv4⟩
    cases ip with
    | v4 v4 =>
      cases hv4
      exact hip
    | v6 v6 => cases hv4
  · intro h
    exact ⟨.v4 a, h, rfl⟩

end NatReads

/-! ## The target covers them -/

/-- `nat_target` returns, and the overlay of its target is the block of the collected addresses. -/
theorem natTarget_cases (checks : Bool) (text : CidrText) (reads : NatReads) :
    (∃ err, natTarget checks text reads = .ok (.error err)) ∨
      ∃ t, natTarget checks text reads = .ok (.ok t) ∧ reads.overlayIps ≠ [] ∧
        coveringPrefix checks reads.overlayIps = .ok (some t.overlay) := by
  unfold natTarget
  split
  · exact Or.inl ⟨_, rfl⟩
  rename_i tunIf hnic
  by_cases hne : reads.overlayIps = []
  · rw [hne]
    exact Or.inl ⟨_, rfl⟩
  obtain ⟨net, prefixLen, hle, hcovering, -⟩ :=
    coveringPrefix_smallest checks hne NatReads.sorted_overlayIps
  rw [hcovering]
  simp only [bind, Except.bind]
  generalize (if reads.lanInterface.isEmpty then _ else _) = lanIf
  cases lanIf with
  | error err => exact Or.inl ⟨err, rfl⟩
  | ok lanIf => exact Or.inr ⟨⟨(net, prefixLen), lanIf, tunIf⟩, rfl, hne, rfl⟩

theorem covers_of_natTarget {checks : Bool} {text : CidrText} {reads : NatReads} {t : AppliedNat}
    (h : natTarget checks text reads = .ok (.ok t)) :
    t.overlay.2.toNat ≤ 32 ∧ ∀ a, .v4 a ∈ reads.nicIps ++ reads.routerIps →
      Nftables.Covers t.overlay.1 t.overlay.2 a := by
  rcases natTarget_cases checks text reads with ⟨err, herr⟩ | ⟨t', ht', hne, hcovering⟩
  · rw [herr] at h
    cases h
  · rw [ht'] at h
    cases h
    obtain ⟨net, prefixLen, hle, hnet, hsmallest⟩ :=
      coveringPrefix_smallest checks hne NatReads.sorted_overlayIps
    rw [hcovering] at hnet
    have hoverlay : t.overlay = (net, prefixLen) := Option.some.inj (Except.ok.inj hnet)
    rw [hoverlay]
    refine ⟨hle, fun a ha => ?_⟩
    have hcontains := hsmallest.contains a (NatReads.mem_overlayIps.mpr ha)
    exact Ipv4Cidr.containsAddr_iff.mp hcontains

/-- In a call during which nothing changes, the address of every stored peer is read. -/
theorem mem_natReads {d : NoeioDaemon} {tunName : PeerId → String} {lanInterface : String}
    {interfaces : List NetworkInterface} {ip : IpAddr} {peer : Peer}
    (hpeer : d.router.get ip = some peer) :
    ip ∈ (d.natReads tunName lanInterface interfaces).routerIps :=
  AList.lookup_isSome.mp (Option.isSome_iff_exists.mpr ⟨peer, hpeer⟩)

/-- The prefix is the smallest one, and the match that is built from it lets every collected
address pass, without a shift that overflows. -/
theorem covering_prefix_exact (checks : Bool) :
    (∀ ips : List Ipv4Addr, ips ≠ [] → ips.Pairwise (· ≤ ·) →
      ∃ (net : Ipv4Addr) (prefixLen : UInt8) (hle : prefixLen.toNat ≤ 32),
        coveringPrefix checks ips = .ok (some (net, prefixLen)) ∧
          Ipv4Cidr.SmallestCover ⟨net, prefixLen.toNat, hle⟩ ips) ∧
      ∀ (text : CidrText) (reads : NatReads),
        (∃ result, natTarget checks text reads = .ok result) ∧
          ∀ t, natTarget checks text reads = .ok (.ok t) →
            prefixMask checks t.overlay.2 = .ok (Nftables.mask t.overlay.2) ∧
              ∀ e, ∃ P, Nftables.Means e (Nftables.matchSaddr t.overlay.1 t.overlay.2) P ∧
                ∀ p, .v4 p.saddr ∈ reads.nicIps ++ reads.routerIps → P p := by
  refine ⟨fun ips hne hsorted => coveringPrefix_smallest checks hne hsorted,
    fun text reads => ⟨?_, ?_⟩⟩
  · rcases natTarget_cases checks text reads with ⟨err, h⟩ | ⟨t, h, -⟩
    · exact ⟨_, h⟩
    · exact ⟨_, h⟩
  · intro t h
    obtain ⟨hle, hcovers⟩ := covers_of_natTarget h
    refine ⟨prefixMask_eq hle, fun e => ?_⟩
    exact ⟨_, Nftables.means_matchSaddr t.overlay.1 hle, fun p hp => hcovers p.saddr hp⟩

namespace NatTarget.Sample

def overlay (d : UInt8) : Ipv4Addr := .ofOctets 110 20 0 d

/-- A node and two IPv4 peers, with a LAN on `eth0`. -/
def reads : NatReads where
  nics := [(1, "noeio0")]
  nicIps := [.v4 (overlay 5)]
  routerIps := [.v4 (overlay 9), .v6 1, .v4 (overlay 1)]
  lanInterface := ""
  advertised := [.ofOctets 192 168 10 0 24]
  interfaces := [
    ⟨⟨true, [.v4 (.ofOctets 127 0 0 1 8)]⟩, "lo"⟩,
    ⟨⟨false, [.v4 (.ofOctets 192 168 10 7 24)]⟩, "noeio0"⟩,
    ⟨⟨false, [.v6 1 64, .v4 (.ofOctets 192 168 10 1 24)]⟩, "eth0"⟩]

def target : AppliedNat := ⟨(overlay 0, 28), "eth0", "noeio0"⟩

theorem overlayIps_reads : reads.overlayIps = [overlay 1, overlay 5, overlay 9] := by
  rw [NatReads.overlayIps_eq]
  refine (SortedTable.sorted_ofList NatReads.isOrder_le _).eq_of_mem_iff NatReads.isOrder_le
    ⟨by decide, by decide⟩ fun a => ?_
  have hips : a ∈ [overlay 5, overlay 9, overlay 1] ↔ a ∈ [overlay 1, overlay 5, overlay 9] := by
    simp only [List.mem_cons, List.not_mem_nil, or_false]
    grind
  exact SortedTable.mem_ofList.trans hips

theorem natTarget_reads : natTarget true .dotted reads = .ok (.ok target) := by
  have hcovering : coveringPrefix true reads.overlayIps = .ok (some (overlay 0, 28)) := by
    rw [overlayIps_reads]
    decide +kernel
  have hlan : defaultLanInterface .dotted reads.advertised "noeio0" reads.interfaces =
      .ok "eth0" := by
    decide +kernel
  have hnic : reads.nics.head? = some (1, "noeio0") := rfl
  have hempty : reads.lanInterface.isEmpty = true := rfl
  simp only [natTarget, hnic, hcovering, bind, Except.bind, hempty, if_true, hlan]
  rfl

theorem covering_prefix_exact_reads :
    (∃ net prefixLen, ∃ hle : prefixLen.toNat ≤ 32,
      coveringPrefix true [overlay 1, overlay 5, overlay 9] = .ok (some (net, prefixLen)) ∧
        Ipv4Cidr.SmallestCover ⟨net, prefixLen.toNat, hle⟩ [overlay 1, overlay 5, overlay 9]) ∧
      prefixMask true target.overlay.2 = .ok (Nftables.mask target.overlay.2) ∧
        ∃ P, Nftables.Means .little (Nftables.matchSaddr target.overlay.1 target.overlay.2) P ∧
          ∀ p, .v4 p.saddr ∈ reads.nicIps ++ reads.routerIps → P p := by
  obtain ⟨hlist, hreads⟩ := covering_prefix_exact true
  obtain ⟨hmask, hmatch⟩ := (hreads .dotted reads).2 target natTarget_reads
  exact ⟨hlist _ (List.cons_ne_nil _ _) (by decide), hmask, hmatch .little⟩

end NatTarget.Sample

end Noeio
