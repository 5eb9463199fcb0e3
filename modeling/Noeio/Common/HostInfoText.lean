import Noeio.Common.AddrText
import Noeio.Common.Report
import Noeio.Lib.Fallible
import Noeio.Lib.SplitText

/-!
# The legacy text of hosts and peers

The text conversions of `noeio-common/src/host_info.rs`. A peer is seven fields between commas,
a host is up to six segments between line ends, and its peers are entries between semicolons.
Older senders leave trailing fields and segments out.

The network id is written and read by the `uuid` crate, which is a parameter (`UuidText`).
-/

namespace Noeio

open Text

def networkIdOfBytes (bytes : List UInt8) : Option NetworkId :=
  if h : bytes.length = 16 then some ⟨bytes.toArray, List.size_toArray.trans h⟩ else none

@[simp] theorem networkIdOfBytes_toList (id : NetworkId) : networkIdOfBytes id.toList = some id := by
  rw [networkIdOfBytes, dif_pos Vector.length_toList]
  rfl

/-- What the `uuid` crate does: `Uuid::parse_str` reads the hyphenated form, which consists of
hexadecimal digits and hyphens. -/
structure UuidText where
  parseStr : String → Except String NetworkId
  hyphenated : NetworkId → String
  parseStr_hyphenated : ∀ id, parseStr (hyphenated id) = .ok id
  mem_hyphenated : ∀ id, ∀ c ∈ (hyphenated id).toList, (toDigit 16 c).isSome = true ∨ c = '-'

/-! ## The hyphenated form -/

namespace UuidText

def hexByte (b : UInt8) : List Char := [Nat.digitChar (b.toNat / 16), Nat.digitChar (b.toNat % 16)]

def hexBytes (bytes : List UInt8) : List Char := bytes.flatMap hexByte

def readHexBytes : List Char → Option (List UInt8)
  | [] => some []
  | [_] => none
  | high :: low :: cs => do
    let high ← toDigit 16 high
    let low ← toDigit 16 low
    let bytes ← readHexBytes cs
    return .ofNat (high * 16 + low) :: bytes

/-- Groups of four, two, two, two and six bytes. -/
def groups (bytes : List UInt8) : List (List UInt8) :=
  [bytes.take 4, (bytes.drop 4).take 2, (bytes.drop 6).take 2, (bytes.drop 8).take 2,
    bytes.drop 10]

def hexGroups (id : NetworkId) : List (List Char) := (groups id.toList).map hexBytes

def parseHexGroups (cs : List Char) : Except String NetworkId :=
  let pieces := cs.splitOn '-'
  if pieces.map List.length = [8, 4, 4, 4, 12] then
    match readHexBytes pieces.flatten with
    | some bytes =>
      match networkIdOfBytes bytes with
      | some id => .ok id
      | none => .error "invalid length"
    | none => .error "invalid character"
  else .error "invalid group"

theorem readHexBytes_hexBytes (bytes : List UInt8) : readHexBytes (hexBytes bytes) = some bytes := by
  induction bytes with
  | nil => rfl
  | cons b bytes ih =>
    have hb : b.toNat < 256 := b.toNat_lt
    have hhigh : toDigit 16 (Nat.digitChar (b.toNat / 16)) = some (b.toNat / 16) :=
      toDigit_digitChar (by omega) (by omega)
    have hlow : toDigit 16 (Nat.digitChar (b.toNat % 16)) = some (b.toNat % 16) :=
      toDigit_digitChar (by omega) (by omega)
    have hvalue : UInt8.ofNat (b.toNat / 16 * 16 + b.toNat % 16) = b := by
      rw [Nat.div_add_mod', UInt8.ofNat_toNat]
    unfold hexBytes at ih ⊢
    simp only [List.flatMap_cons, hexByte, List.cons_append, List.nil_append, readHexBytes, hhigh,
      hlow, ih, Option.bind_eq_bind, Option.bind_some, hvalue, Option.pure_def]

theorem mem_hexBytes {c : Char} {bytes : List UInt8} (h : c ∈ hexBytes bytes) :
    (toDigit 16 c).isSome = true := by
  obtain ⟨b, -, hc⟩ := List.mem_flatMap.mp h
  have hb : b.toNat < 256 := b.toNat_lt
  simp only [hexByte, List.mem_cons, List.not_mem_nil, or_false] at hc
  rcases hc with rfl | rfl
  · rw [toDigit_digitChar (by omega) (by omega)]
    rfl
  · rw [toDigit_digitChar (by omega) (by omega)]
    rfl

theorem length_hexBytes (bytes : List UInt8) : (hexBytes bytes).length = 2 * bytes.length := by
  simp [hexBytes, hexByte, List.length_flatMap, Nat.mul_comm]

theorem flatten_groups (bytes : List UInt8) : (groups bytes).flatten = bytes := by
  have hcut : ∀ i k, (bytes.drop i).take k ++ bytes.drop (i + k) = bytes.drop i := by
    intro i k
    rw [← List.drop_drop, List.take_append_drop]
  simp only [groups, List.flatten_cons, List.flatten_nil, List.append_nil]
  rw [hcut 8 2, hcut 6 2, hcut 4 2, List.take_append_drop]

theorem parseHexGroups_hexGroups (id : NetworkId) :
    parseHexGroups (['-'].intercalate (hexGroups id)) = .ok id := by
  have hhyphen : ∀ cs ∈ hexGroups id, '-' ∉ cs := by
    intro cs hcs hmem
    obtain ⟨bytes, -, rfl⟩ := List.mem_map.mp hcs
    exact absurd (mem_hexBytes hmem) (by decide)
  have hlengths : (hexGroups id).map List.length = [8, 4, 4, 4, 12] := by
    simp [hexGroups, groups, length_hexBytes]
  have hflatten : (hexGroups id).flatten = hexBytes id.toList :=
    calc (hexGroups id).flatten = hexBytes (groups id.toList).flatten := by
          simp [hexGroups, groups, hexBytes]
      _ = hexBytes id.toList := by rw [flatten_groups]
  rw [parseHexGroups, List.splitOn_intercalate '-' hhyphen (by simp [hexGroups, groups])]
  simp only [hlengths, hflatten, readHexBytes_hexBytes, networkIdOfBytes_toList, if_true]

/-- Lower case digits in hyphenated groups. The other forms that `parse_str` accepts are left
out. -/
def hex : UuidText where
  parseStr s := parseHexGroups s.toList
  hyphenated id := String.ofList (['-'].intercalate (hexGroups id))
  parseStr_hyphenated id := by rw [String.toList_ofList, parseHexGroups_hexGroups]
  mem_hyphenated id c hc := by
    rw [String.toList_ofList] at hc
    rcases mem_intercalate hc with h | ⟨cs, hcs, h⟩
    · exact Or.inr h
    · obtain ⟨bytes, -, rfl⟩ := List.mem_map.mp hcs
      exact Or.inl (mem_hexBytes h)

end UuidText

/-! ## The conversions -/

namespace NatType

/-- `u8::from`. -/
def toByte : NatType → UInt8
  | .symmetric => 0
  | .other => 1

def tryFrom (value : UInt8) : Except String NatType :=
  if value = 0 then .ok .symmetric
  else if value = 1 then .ok .other
  else .error "invalid nat type"

def display (natType : NatType) : String := natType.toByte.toNat.repr

def fromStr (s : String) : Except String NatType := do
  let value ← parseUnsigned (2 ^ 8) s
  tryFrom (.ofNat value)

@[simp] theorem tryFrom_toByte (natType : NatType) : tryFrom natType.toByte = .ok natType := by
  cases natType <;> rfl

theorem fromStr_display (natType : NatType) : fromStr natType.display = .ok natType := by
  rw [fromStr, display, parseUnsigned_repr natType.toByte.toNat_lt]
  simp [Except.bind, bind]

end NatType

/-- `join_addrs`. -/
def joinAddrs (addrs : List SocketAddr) : String := "|".intercalate (addrs.map SocketAddr.display)

/-- `parse_addrs`. -/
def parseAddrs (s : String) : Except String (List SocketAddr) :=
  if s = "" then .ok [] else (strSplit '|' s).mapM SocketAddr.fromStr

/-- An optional address, which the empty text leaves out. -/
def parseNatAddr (s : String) : Except String (Option SocketAddr) :=
  if s = "" then .ok none else (SocketAddr.fromStr s).map some

namespace PeerInfo

/-- The text of the NAT address. -/
def natAddrText (peer : PeerInfo) : String := (peer.natAddr.map SocketAddr.display).getD ""

def textFields (uuid : UuidText) (peer : PeerInfo) : List String :=
  [peer.peerId.toNat.repr, peer.noeioIp.display, uuid.hyphenated peer.networkId,
    peer.natType.display, peer.natAddrText, joinAddrs peer.localAddrs,
    peer.resourceVersion.toNat.repr]

/-- `String::from`. -/
def toText (uuid : UuidText) (peer : PeerInfo) : String := ",".intercalate (peer.textFields uuid)

/-- `try_from` of an entry. -/
def tryFromStr (uuid : UuidText) (entry : String) : Except String PeerInfo :=
  match strSplitn 7 "," entry with
  | peerId :: vip :: network :: natType :: natAddr :: rest => do
    -- a sender that predates local addresses emits five fields
    let localAddrs := rest[0]?.getD ""
    let resourceVersion ← parseUnsigned (2 ^ 64) (rest[1]?.getD "0")
    let peerId ← parseUnsigned (2 ^ 32) peerId
    let vip ← IpAddr.fromStr vip
    let natType ← NatType.fromStr natType
    let natAddr ← parseNatAddr natAddr
    let localAddrs ← parseAddrs localAddrs
    let peer ← PeerInfo.new uuid.parseStr (.ofNat peerId) vip network
    return peer.withResourceVersion (.ofNat resourceVersion) |>.withNatType natType
      |>.withNatAddr natAddr |>.withLocalAddrs localAddrs
  | _ => .error "invalid peer entry"

end PeerInfo

namespace HostInfo

/-- `try_from_legacy`. -/
def tryFromLegacy (uuid : UuidText) (data : List UInt8) : Except String HostInfo :=
  match fromUtf8 data with
  | none => .error (Utf8Error.ofBytes data).display
  | some s =>
    match strSplitn 6 "\r\n" s with
    | [] => .error "missing addr"
    | [_] => .error "missing nat type"
    | [_, _] => .error "missing hostname"
    | addr :: natType :: hostname :: rest => do
      let networks := rest[0]?.getD ""
      let localAddrs := rest[1]?.getD ""
      let resourceVersion ← parseUnsigned (2 ^ 64) (trim (rest[2]?.getD "0"))
      let natAddr ← SocketAddr.fromStr addr
      let natType ← NatType.fromStr natType
      let localAddrs ← parseAddrs localAddrs
      let peers ←
        if networks = "" then .ok [] else (strSplit ';' networks).mapM (PeerInfo.tryFromStr uuid)
      return {
        resourceVersion := .ofNat resourceVersion, natAddr, natType, hostname, localAddrs, peers }

end HostInfo

/-! ## The text of a peer is read back -/

/-- No address of the peer carries IPv6 flow information. -/
structure PeerInfo.NoFlowinfo (peer : PeerInfo) : Prop where
  natAddr : ∀ addr ∈ peer.natAddr, addr.NoFlowinfo
  localAddrs : ∀ addr ∈ peer.localAddrs, addr.NoFlowinfo

/-- The characters of a field. -/
def FieldChar (c : Char) : Prop := AddrChar c ∨ c = '-' ∨ c = '|'

instance : DecidablePred FieldChar :=
  fun c => inferInstanceAs (Decidable (AddrChar c ∨ c = '-' ∨ c = '|'))

theorem parseAddrs_joinAddrs {addrs : List SocketAddr} (h : ∀ addr ∈ addrs, addr.NoFlowinfo) :
    parseAddrs (joinAddrs addrs) = .ok addrs := by
  by_cases hempty : addrs = []
  · subst hempty
    rfl
  have hbar : ∀ s ∈ addrs.map SocketAddr.display, '|' ∉ s.toList := by
    intro s hs hmem
    obtain ⟨addr, -, rfl⟩ := List.mem_map.mp hs
    exact absurd (SocketAddr.addrChar_of_mem_display hmem) (by decide)
  have hsplit : strSplit '|' (joinAddrs addrs) = addrs.map SocketAddr.display :=
    strSplit_intercalate (by simpa using hempty) hbar
  have hne : joinAddrs addrs ≠ "" := by
    intro hjoin
    rw [hjoin] at hsplit
    obtain ⟨addr, haddr⟩ := List.exists_mem_of_ne_nil addrs hempty
    have hmem : addr.display ∈ strSplit '|' "" := hsplit ▸ List.mem_map_of_mem haddr
    exact SocketAddr.display_ne_empty (h addr haddr) (by simpa [strSplit] using hmem)
  rw [parseAddrs, if_neg hne, hsplit]
  exact mapM_map_eq_ok fun addr haddr => SocketAddr.fromStr_display (h addr haddr)

theorem parseNatAddr_natAddrText {peer : PeerInfo} (h : ∀ addr ∈ peer.natAddr, addr.NoFlowinfo) :
    parseNatAddr peer.natAddrText = .ok peer.natAddr := by
  cases haddr : peer.natAddr with
  | none => simp [PeerInfo.natAddrText, haddr, parseNatAddr]
  | some addr =>
    have hflow := h addr haddr
    rw [PeerInfo.natAddrText, haddr, parseNatAddr, Option.map_some, Option.getD_some,
      if_neg (SocketAddr.display_ne_empty hflow), SocketAddr.fromStr_display hflow]
    rfl

theorem fieldChar_of_mem_repr {n : Nat} {c : Char} (h : c ∈ n.repr.toList) : FieldChar c := by
  rw [Nat.toList_repr] at h
  exact Or.inl (addrChar_of_mem_digits h)

theorem fieldChar_of_mem_joinAddrs {addrs : List SocketAddr} {c : Char}
    (h : c ∈ (joinAddrs addrs).toList) : FieldChar c := by
  have hjoined : c ∈ ((String.singleton '|').intercalate (addrs.map SocketAddr.display)).toList := h
  rcases mem_strIntercalate hjoined with rfl | ⟨s, hs, hc⟩
  · decide
  · obtain ⟨addr, -, rfl⟩ := List.mem_map.mp hs
    exact Or.inl (SocketAddr.addrChar_of_mem_display hc)

theorem PeerInfo.fieldChar_of_mem_textFields {uuid : UuidText} {peer : PeerInfo} {field : String}
    {c : Char} (hfield : field ∈ peer.textFields uuid) (h : c ∈ field.toList) : FieldChar c := by
  simp only [textFields, List.mem_cons, List.not_mem_nil, or_false] at hfield
  rcases hfield with rfl | rfl | rfl | rfl | rfl | rfl | rfl
  · exact fieldChar_of_mem_repr h
  · exact Or.inl (IpAddr.addrChar_of_mem_display h)
  · rcases uuid.mem_hyphenated _ c h with h | h
    · exact Or.inl (Or.inl h)
    · exact Or.inr (Or.inl h)
  · exact fieldChar_of_mem_repr h
  · rw [natAddrText] at h
    cases haddr : peer.natAddr with
    | none => simp [haddr] at h
    | some addr =>
      rw [haddr, Option.map_some, Option.getD_some] at h
      exact Or.inl (SocketAddr.addrChar_of_mem_display h)
  · exact fieldChar_of_mem_joinAddrs h
  · exact fieldChar_of_mem_repr h

/-- The text has no place for routes and tombstones, or for flow information. The rest is read
as it was written. -/
theorem PeerInfo.tryFromStr_toText (uuid : UuidText) {peer : PeerInfo}
    (hroutes : peer.advertisedRoutes = []) (hwithdrawn : peer.withdrawn = false)
    (hflow : peer.NoFlowinfo) : tryFromStr uuid (peer.toText uuid) = .ok peer := by
  have hcomma : ∀ field ∈ peer.textFields uuid, ',' ∉ field.toList :=
    fun field hfield hmem => absurd (fieldChar_of_mem_textFields hfield hmem) (by decide)
  have hsplit : strSplitn 7 "," (peer.toText uuid) = peer.textFields uuid :=
    strSplitn_intercalate (by simp [textFields]) hcomma (Nat.le_refl 7)
  rw [tryFromStr, hsplit, textFields]
  simp only [List.getElem?_cons_zero, List.getElem?_cons_succ, Option.getD_some,
    parseUnsigned_repr peer.resourceVersion.toNat_lt, parseUnsigned_repr peer.peerId.toNat_lt,
    IpAddr.fromStr_display, NatType.fromStr_display, parseNatAddr_natAddrText hflow.natAddr,
    parseAddrs_joinAddrs hflow.localAddrs, PeerInfo.new, uuid.parseStr_hyphenated]
  obtain ⟨version, peerId, ip, network, natType, natAddr, localAddrs, routes, withdrawn⟩ := peer
  simp only at hroutes hwithdrawn
  subst hroutes hwithdrawn
  simp [bind, Except.bind, pure, Except.pure, withResourceVersion, withNatType, withNatAddr,
    withLocalAddrs]

theorem PeerInfo.mem_toText {uuid : UuidText} {peer : PeerInfo} {c : Char}
    (h : c ∈ (peer.toText uuid).toList) : FieldChar c ∨ c = ',' := by
  have hjoined : c ∈ ((String.singleton ',').intercalate (peer.textFields uuid)).toList := h
  rcases mem_strIntercalate hjoined with h | ⟨field, hfield, hc⟩
  · exact Or.inr h
  · exact Or.inl (fieldChar_of_mem_textFields hfield hc)

end Noeio
