import Noeio.Common.Report
import Noeio.Lib.Protobuf

/-!
# Protobuf messages

The messages of `noeio-proto/protos/common/v1/host_info.proto`. They are encoded and decoded by
`prost`, which is a parameter here (`ProtoCodec`).

`ProtoPeerInfo.wire` and `ProtoHostInfo.wire` write and read the wire format itself, fields in
the order of their numbers and defaults left out. They show that what is asked of the codecs
can be met.
-/

namespace Noeio

open Protobuf

structure ProtoPeerInfo where
  resourceVersion : UInt64
  peerId : UInt32
  noeioIp : List UInt8
  networkId : List UInt8
  natType : UInt32
  natAddr : String
  localAddrs : List String
  advertisedRoutes : List String
  withdrawn : Bool
  deriving DecidableEq

structure ProtoHostInfo where
  resourceVersion : UInt64
  natAddr : String
  natType : UInt32
  hostname : String
  localAddrs : List String
  peers : List ProtoPeerInfo
  deriving DecidableEq

/-- `prost::Message` for the messages `M`. -/
structure ProtoCodec (M : Type) where
  encodeToVec : M → List UInt8
  decode : List UInt8 → Except String M

/-- What was encoded is decoded. -/
def ProtoCodec.Inverts {M : Type} (codec : ProtoCodec M) : Prop :=
  ∀ m, codec.decode (codec.encodeToVec m) = .ok m

/-- A part of the message differs from its default only where the key stands in the bytes. -/
def ProtoCodec.SetOnlyBy {M α : Type} (codec : ProtoCodec M) (get : M → α) (default : α)
    (key : Nat) : Prop :=
  ∀ bytes m, codec.decode bytes = .ok m → get m ≠ default → Occurs key bytes

/-! ## The wire format of the messages -/

namespace ProtoCodec

/-- The codec of messages that consist of fields. -/
def ofFields {M : Type} (default : M) (fields : M → List Field) (merge : M → Field → Option M) :
    ProtoCodec M where
  encodeToVec m := writeFields (fields m)
  decode bytes :=
    match (readFields bytes).bind (·.foldlM merge default) with
    | some m => .ok m
    | none => .error "failed to decode Protobuf message"

variable {M α : Type} {default : M} {fields : M → List Field} {merge : M → Field → Option M}

theorem inverts_ofFields (hnumber : ∀ m, ∀ f ∈ fields m, f.number ≠ 0)
    (hmerge : ∀ m, (fields m).foldlM merge default = some m) :
    (ofFields default fields merge).Inverts := by
  intro m
  simp only [ofFields, readFields_writeFields (hnumber m), Option.bind_some, hmerge m]

theorem setOnlyBy_ofFields {get : M → α} {k : Nat}
    (hmerge : ∀ m f m', merge m f = some m' → get m' = get m ∨ f.key = k) :
    (ofFields default fields merge).SetOnlyBy get (get default) k := by
  intro bytes m h hset
  simp only [ofFields] at h
  split at h
  · rename_i m' hread
    cases h
    obtain ⟨fs, hfs, hfold⟩ := Option.bind_eq_some_iff.mp hread
    obtain ⟨f, hf, rfl⟩ := exists_of_foldlM hmerge hfold hset
    exact occurs_of_readFields hfs hf
  · cases h

end ProtoCodec

def stringFields (number : Nat) (ss : List String) : List Field :=
  ss.map fun s => ⟨number, .len (asBytes s)⟩

namespace ProtoPeerInfo

def default : ProtoPeerInfo := ⟨0, 0, [], [], 0, "", [], [], false⟩

def fields (m : ProtoPeerInfo) : List Field :=
  optional (m.resourceVersion = 0) ⟨1, .varint m.resourceVersion.toNat⟩ ++
    optional (m.peerId = 0) ⟨2, .varint m.peerId.toNat⟩ ++
    optional (m.noeioIp = []) ⟨3, .len m.noeioIp⟩ ++
    optional (m.networkId = []) ⟨4, .len m.networkId⟩ ++
    optional (m.natType = 0) ⟨5, .varint m.natType.toNat⟩ ++
    optional (m.natAddr = "") ⟨6, .len (asBytes m.natAddr)⟩ ++
    stringFields 7 m.localAddrs ++ stringFields 8 m.advertisedRoutes ++
    optional (m.withdrawn = false) ⟨9, .varint m.withdrawn.toNat⟩

def merge (m : ProtoPeerInfo) (f : Field) : Option ProtoPeerInfo :=
  match f.number, f.value with
  | 1, .varint n => some { m with resourceVersion := UInt64.ofNat n }
  | 2, .varint n => some { m with peerId := UInt32.ofNat n }
  | 3, .len bytes => some { m with noeioIp := bytes }
  | 4, .len bytes => some { m with networkId := bytes }
  | 5, .varint n => some { m with natType := UInt32.ofNat n }
  | 6, .len bytes => (fromUtf8 bytes).map fun s => { m with natAddr := s }
  | 7, .len bytes => (fromUtf8 bytes).map fun s => { m with localAddrs := m.localAddrs ++ [s] }
  | 8, .len bytes =>
    (fromUtf8 bytes).map fun s => { m with advertisedRoutes := m.advertisedRoutes ++ [s] }
  | 9, .varint n => some { m with withdrawn := n ≠ 0 }
  -- a known field of another wire type is an error, an unknown field is skipped
  | number, _ => if number ≤ 9 then none else some m

theorem number_of_mem_fields {m : ProtoPeerInfo} {f : Field} (h : f ∈ m.fields) :
    f.number ≠ 0 := by
  simp only [fields, stringFields, List.mem_append, List.mem_map] at h
  rcases h with (((((((h | h) | h) | h) | h) | h) | ⟨s, -, rfl⟩) | ⟨s, -, rfl⟩) | h
  case inl.inr | inl.inl.inr => simp
  all_goals
    rw [eq_of_mem_optional h]
    simp

/-- Each field sets its part, and together they set all of the message. -/
theorem merge_fields (m : ProtoPeerInfo) : m.fields.foldlM merge default = some m := by
  obtain ⟨version, peerId, ip, network, natType, natAddr, localAddrs, routes, withdrawn⟩ := m
  have hversion : (optional (version = 0) ⟨1, .varint version.toNat⟩).foldlM merge default =
      some ⟨version, 0, [], [], 0, "", [], [], false⟩ :=
    foldlM_optional (fun h => by rw [of_decide_eq_true h, default]) (by simp [merge, default])
  have hpeerId : (optional (peerId = 0) ⟨2, .varint peerId.toNat⟩).foldlM merge
      ⟨version, 0, [], [], 0, "", [], [], false⟩ =
        some ⟨version, peerId, [], [], 0, "", [], [], false⟩ :=
    foldlM_optional (fun h => by rw [of_decide_eq_true h]) (by simp [merge])
  have hip : (optional (ip = []) ⟨3, .len ip⟩).foldlM merge
      ⟨version, peerId, [], [], 0, "", [], [], false⟩ =
        some ⟨version, peerId, ip, [], 0, "", [], [], false⟩ :=
    foldlM_optional (fun h => by rw [of_decide_eq_true h]) (by simp [merge])
  have hnetwork : (optional (network = []) ⟨4, .len network⟩).foldlM merge
      ⟨version, peerId, ip, [], 0, "", [], [], false⟩ =
        some ⟨version, peerId, ip, network, 0, "", [], [], false⟩ :=
    foldlM_optional (fun h => by rw [of_decide_eq_true h]) (by simp [merge])
  have hnatType : (optional (natType = 0) ⟨5, .varint natType.toNat⟩).foldlM merge
      ⟨version, peerId, ip, network, 0, "", [], [], false⟩ =
        some ⟨version, peerId, ip, network, natType, "", [], [], false⟩ :=
    foldlM_optional (fun h => by rw [of_decide_eq_true h]) (by simp [merge])
  have hnatAddr : (optional (natAddr = "") ⟨6, .len (asBytes natAddr)⟩).foldlM merge
      ⟨version, peerId, ip, network, natType, "", [], [], false⟩ =
        some ⟨version, peerId, ip, network, natType, natAddr, [], [], false⟩ :=
    foldlM_optional (fun h => by rw [of_decide_eq_true h]) (by simp [merge, fromUtf8_asBytes])
  have hlocal : (stringFields 7 localAddrs).foldlM merge
      ⟨version, peerId, ip, network, natType, natAddr, [], [], false⟩ =
        some ⟨version, peerId, ip, network, natType, natAddr, localAddrs, [], false⟩ := by
    refine foldlM_repeated (fun ss => mk version peerId ip network natType natAddr ss [] false)
      (fun ss s => ?_) [] localAddrs
    simp [merge, fromUtf8_asBytes]
  have hroutes : (stringFields 8 routes).foldlM merge
      ⟨version, peerId, ip, network, natType, natAddr, localAddrs, [], false⟩ =
        some ⟨version, peerId, ip, network, natType, natAddr, localAddrs, routes, false⟩ := by
    refine foldlM_repeated
      (fun ss => mk version peerId ip network natType natAddr localAddrs ss false)
      (fun ss s => ?_) [] routes
    simp [merge, fromUtf8_asBytes]
  have hwithdrawn : (optional (withdrawn = false) ⟨9, .varint withdrawn.toNat⟩).foldlM merge
      ⟨version, peerId, ip, network, natType, natAddr, localAddrs, routes, false⟩ =
        some ⟨version, peerId, ip, network, natType, natAddr, localAddrs, routes, withdrawn⟩ :=
    foldlM_optional (fun h => by rw [of_decide_eq_true h]) (by cases withdrawn <;> simp [merge])
  exact foldlM_append (foldlM_append (foldlM_append (foldlM_append (foldlM_append (foldlM_append
    (foldlM_append (foldlM_append hversion hpeerId) hip) hnetwork) hnatType) hnatAddr) hlocal)
    hroutes) hwithdrawn

theorem noeioIp_merge {m m' : ProtoPeerInfo} {f : Field} (h : merge m f = some m') :
    m'.noeioIp = m.noeioIp ∨ f.key = key 3 2 := by
  obtain ⟨number, value⟩ := f
  unfold merge at h
  split at h
  case h_3 =>
    rename_i hnumber hvalue
    simp only at hnumber hvalue
    exact Or.inr (by rw [hnumber, hvalue]; rfl)
  case h_6 | h_7 | h_8 =>
    obtain ⟨s, -, rfl⟩ := Option.map_eq_some_iff.mp h
    exact Or.inl rfl
  case h_10 =>
    split at h
    · cases h
    · cases h
      exact Or.inl rfl
  all_goals
    cases h
    exact Or.inl rfl

def wire : ProtoCodec ProtoPeerInfo := .ofFields default fields merge

theorem wire_inverts : wire.Inverts :=
  ProtoCodec.inverts_ofFields (fun _ _ => number_of_mem_fields) merge_fields

theorem wire_setOnlyBy : wire.SetOnlyBy (·.noeioIp) [] (key 3 2) :=
  ProtoCodec.setOnlyBy_ofFields fun _ _ _ => noeioIp_merge

end ProtoPeerInfo

namespace ProtoHostInfo

def default : ProtoHostInfo := ⟨0, "", 0, "", [], []⟩

def fields (m : ProtoHostInfo) : List Field :=
  optional (m.resourceVersion = 0) ⟨1, .varint m.resourceVersion.toNat⟩ ++
    optional (m.natAddr = "") ⟨2, .len (asBytes m.natAddr)⟩ ++
    optional (m.natType = 0) ⟨3, .varint m.natType.toNat⟩ ++
    optional (m.hostname = "") ⟨4, .len (asBytes m.hostname)⟩ ++
    stringFields 5 m.localAddrs ++
    m.peers.map fun peer => ⟨6, .len (writeFields peer.fields)⟩

def merge (m : ProtoHostInfo) (f : Field) : Option ProtoHostInfo :=
  match f.number, f.value with
  | 1, .varint n => some { m with resourceVersion := UInt64.ofNat n }
  | 2, .len bytes => (fromUtf8 bytes).map fun s => { m with natAddr := s }
  | 3, .varint n => some { m with natType := UInt32.ofNat n }
  | 4, .len bytes => (fromUtf8 bytes).map fun s => { m with hostname := s }
  | 5, .len bytes => (fromUtf8 bytes).map fun s => { m with localAddrs := m.localAddrs ++ [s] }
  | 6, .len bytes =>
    ((readFields bytes).bind (·.foldlM ProtoPeerInfo.merge ProtoPeerInfo.default)).map fun peer =>
      { m with peers := m.peers ++ [peer] }
  | number, _ => if number ≤ 6 then none else some m

theorem number_of_mem_fields {m : ProtoHostInfo} {f : Field} (h : f ∈ m.fields) :
    f.number ≠ 0 := by
  simp only [fields, stringFields, List.mem_append, List.mem_map] at h
  rcases h with ((((h | h) | h) | h) | ⟨s, -, rfl⟩) | ⟨peer, -, rfl⟩
  case inr | inl.inr => simp
  all_goals
    rw [eq_of_mem_optional h]
    simp

theorem merge_fields (m : ProtoHostInfo) : m.fields.foldlM merge default = some m := by
  obtain ⟨version, natAddr, natType, hostname, localAddrs, peers⟩ := m
  have hversion : (optional (version = 0) ⟨1, .varint version.toNat⟩).foldlM merge default =
      some ⟨version, "", 0, "", [], []⟩ :=
    foldlM_optional (fun h => by rw [of_decide_eq_true h, default]) (by simp [merge, default])
  have hnatAddr : (optional (natAddr = "") ⟨2, .len (asBytes natAddr)⟩).foldlM merge
      ⟨version, "", 0, "", [], []⟩ = some ⟨version, natAddr, 0, "", [], []⟩ :=
    foldlM_optional (fun h => by rw [of_decide_eq_true h]) (by simp [merge, fromUtf8_asBytes])
  have hnatType : (optional (natType = 0) ⟨3, .varint natType.toNat⟩).foldlM merge
      ⟨version, natAddr, 0, "", [], []⟩ = some ⟨version, natAddr, natType, "", [], []⟩ :=
    foldlM_optional (fun h => by rw [of_decide_eq_true h]) (by simp [merge])
  have hhostname : (optional (hostname = "") ⟨4, .len (asBytes hostname)⟩).foldlM merge
      ⟨version, natAddr, natType, "", [], []⟩ =
        some ⟨version, natAddr, natType, hostname, [], []⟩ :=
    foldlM_optional (fun h => by rw [of_decide_eq_true h]) (by simp [merge, fromUtf8_asBytes])
  have hlocal : (stringFields 5 localAddrs).foldlM merge
      ⟨version, natAddr, natType, hostname, [], []⟩ =
        some ⟨version, natAddr, natType, hostname, localAddrs, []⟩ := by
    refine foldlM_repeated (fun ss => mk version natAddr natType hostname ss []) (fun ss s => ?_)
      [] localAddrs
    simp [merge, fromUtf8_asBytes]
  have hpeers : (peers.map fun peer => ⟨6, .len (writeFields peer.fields)⟩).foldlM merge
      ⟨version, natAddr, natType, hostname, localAddrs, []⟩ =
        some ⟨version, natAddr, natType, hostname, localAddrs, peers⟩ := by
    refine foldlM_repeated (mk version natAddr natType hostname localAddrs) (fun ps peer => ?_)
      [] peers
    have hread := readFields_writeFields fun f hf => ProtoPeerInfo.number_of_mem_fields (m := peer) hf
    simp [merge, hread, ProtoPeerInfo.merge_fields]
  exact foldlM_append (foldlM_append (foldlM_append (foldlM_append (foldlM_append hversion
    hnatAddr) hnatType) hhostname) hlocal) hpeers

theorem natAddr_merge {m m' : ProtoHostInfo} {f : Field} (h : merge m f = some m') :
    m'.natAddr = m.natAddr ∨ f.key = key 2 2 := by
  obtain ⟨number, value⟩ := f
  unfold merge at h
  split at h
  case h_2 =>
    rename_i hnumber hvalue
    simp only at hnumber hvalue
    exact Or.inr (by rw [hnumber, hvalue]; rfl)
  case h_4 | h_5 | h_6 =>
    obtain ⟨s, -, rfl⟩ := Option.map_eq_some_iff.mp h
    exact Or.inl rfl
  case h_7 =>
    split at h
    · cases h
    · cases h
      exact Or.inl rfl
  all_goals
    cases h
    exact Or.inl rfl

def wire : ProtoCodec ProtoHostInfo := .ofFields default fields merge

theorem wire_inverts : wire.Inverts :=
  ProtoCodec.inverts_ofFields (fun _ _ => number_of_mem_fields) merge_fields

theorem wire_setOnlyBy : wire.SetOnlyBy (·.natAddr) "" (key 2 2) :=
  ProtoCodec.setOnlyBy_ofFields fun _ _ _ => natAddr_merge

end ProtoHostInfo

end Noeio
