import Noeio.Common.HostInfo
import Noeio.Lib.BigEndian

/-!
# Wire packets

`noeio-common/src/packet.rs`: a packet is a nine byte header (magic, type, peer id, port)
followed by its payload. `inner` is the wire representation and `packetType` mirrors the
type byte, as in the source.

Everything follows from what the header parser accepts: exactly the bytes of a header, and
anything behind them (`fromBytes_eq_some_iff`). So a packet that parses is its header and its
payload (`inner_of_parseHeader`), and what `new` and `tryFrom` make and the setters keep is a
packet that parses to its own type (`Made.wellFormed`).
-/

namespace Noeio

open BigEndian

inductive NoeioPacketType where
  | ping
  | forward
  | syncRoute
  | report
  | seq
  | ack
  | tunnelPing
  | tunnelPong
  | delivery
  deriving DecidableEq, Repr

namespace NoeioPacketType

def toByte : NoeioPacketType → UInt8
  | ping => 0
  | forward => 1
  | syncRoute => 2
  | report => 3
  | seq => 4
  | ack => 5
  | tunnelPing => 6
  | delivery => 7
  | tunnelPong => 8

def tryFrom (value : UInt8) : Option NoeioPacketType :=
  match value.toNat with
  | 0 => some ping
  | 1 => some forward
  | 2 => some syncRoute
  | 3 => some report
  | 4 => some seq
  | 5 => some ack
  | 6 => some tunnelPing
  | 7 => some delivery
  | 8 => some tunnelPong
  | _ => none

@[simp] theorem tryFrom_toByte (t : NoeioPacketType) : tryFrom t.toByte = some t := by
  cases t <;> rfl

/-- The byte codes are not in the order of the types, but they are the ones that are read. -/
theorem toByte_of_tryFrom {b : UInt8} {t : NoeioPacketType} (h : tryFrom b = some t) :
    t.toByte = b := by
  unfold tryFrom at h
  split at h <;> cases h <;>
    · rename_i hb
      exact UInt8.toNat_inj.mp hb.symm

end NoeioPacketType

structure PacketHeader where
  packetType : NoeioPacketType
  peerId : PeerId
  port : UInt16
  deriving DecidableEq, Repr

namespace PacketHeader

def default : PacketHeader := ⟨.forward, 0, 0⟩

def magic : List UInt8 := [0x4E, 0x4F]

def len : Nat := 9

def toBytes (self : PacketHeader) : List UInt8 :=
  magic ++ self.packetType.toByte :: (toBe32 self.peerId ++ toBe16 self.port)

def fromBytes (bytes : List UInt8) : Option PacketHeader :=
  match bytes with
  | m₀ :: m₁ :: t :: a :: b :: c :: d :: p :: q :: _ =>
    if [m₀, m₁] = magic then
      (NoeioPacketType.tryFrom t).map fun packetType =>
        { packetType, peerId := ofBe32 a b c d, port := ofBe16 p q }
    else none
  -- fewer than `len` bytes
  | _ => none

theorem length_toBytes (h : PacketHeader) : h.toBytes.length = len := rfl

theorem fromBytes_toBytes_append (h : PacketHeader) (rest : List UInt8) :
    fromBytes (h.toBytes ++ rest) = some h := by
  simp only [toBytes, fromBytes, toBe32, toBe16, magic, List.cons_append, List.nil_append,
    ↓reduceIte, NoeioPacketType.tryFrom_toByte, Option.map_some, ofBe32_toBe32, ofBe16_toBe16]

/-- The parser accepts the bytes of a header with anything behind them, and nothing else. -/
theorem fromBytes_eq_some_iff {bytes : List UInt8} {h : PacketHeader} :
    fromBytes bytes = some h ↔ ∃ rest, bytes = h.toBytes ++ rest := by
  constructor
  · intro hb
    unfold fromBytes at hb
    split at hb
    · rename_i m₀ m₁ t a b c d p q rest
      split at hb
      · rename_i hmagic
        obtain ⟨packetType, ht, rfl⟩ := Option.map_eq_some_iff.mp hb
        refine ⟨rest, ?_⟩
        have htype := NoeioPacketType.toByte_of_tryFrom ht
        simp only [toBytes, toBe32_ofBe32, toBe16_ofBe16, htype, ← hmagic]
        rfl
      · cases hb
    · cases hb
  · rintro ⟨rest, rfl⟩
    exact fromBytes_toBytes_append h rest

/-- There is a header to parse if and only if nine bytes are there that start with the magic
and a known type. -/
theorem isSome_fromBytes {bytes : List UInt8} :
    (fromBytes bytes).isSome = true ↔ len ≤ bytes.length ∧ bytes.take 2 = magic ∧
      ∃ t : NoeioPacketType, bytes[2]? = some t.toByte := by
  constructor
  · intro hsome
    obtain ⟨h, hh⟩ := Option.isSome_iff_exists.mp hsome
    obtain ⟨rest, rfl⟩ := fromBytes_eq_some_iff.mp hh
    refine ⟨?_, rfl, h.packetType, rfl⟩
    rw [List.length_append, length_toBytes]
    exact Nat.le_add_right len rest.length
  · rintro ⟨hlen, hmagic, t, ht⟩
    unfold fromBytes
    split
    · simp only [List.take_succ_cons, List.take_zero] at hmagic
      simp only [List.getElem?_cons_succ, List.getElem?_cons_zero, Option.some.injEq] at ht
      simp [hmagic, ht]
    · rename_i hshort
      match bytes, hlen with
      | m₀ :: m₁ :: t :: a :: b :: c :: d :: p :: q :: rest, _ => exact absurd rfl (hshort _ _ _ _ _ _ _ _ _ _)

end PacketHeader

structure NoeioPacket where
  inner : List UInt8
  packetType : NoeioPacketType
  deriving DecidableEq, Repr

namespace NoeioPacket

def payloadOffset : Nat := PacketHeader.len

def new (header : PacketHeader) (payload : List UInt8) : NoeioPacket :=
  { inner := header.toBytes ++ payload, packetType := header.packetType }

def parseHeader (self : NoeioPacket) : Option PacketHeader := PacketHeader.fromBytes self.inner

/-- `inner` filled up with zeros to the length of a header. -/
def resized (self : NoeioPacket) : List UInt8 :=
  if self.inner.length < payloadOffset then
    self.inner ++ List.replicate (payloadOffset - self.inner.length) 0
  else self.inner

def setHeader (self : NoeioPacket) (header : PacketHeader) : NoeioPacket :=
  { inner := header.toBytes ++ self.resized.drop payloadOffset, packetType := header.packetType }

def payload (self : NoeioPacket) : Option (List UInt8) :=
  if payloadOffset ≤ self.inner.length then some (self.inner.drop payloadOffset) else none

def ensureHeader (self : NoeioPacket) : NoeioPacket :=
  if self.inner.length ≥ payloadOffset then self
  else
    let header := self.parseHeader.getD { PacketHeader.default with packetType := self.packetType }
    { self with inner := header.toBytes ++ self.resized.drop payloadOffset }

def setPayload (self : NoeioPacket) (payload : List UInt8) : NoeioPacket :=
  let self := self.ensureHeader
  { self with inner := self.inner.take payloadOffset ++ payload }

def tryFrom (value : List UInt8) : Option NoeioPacket :=
  (PacketHeader.fromBytes value).map fun header =>
    { inner := value, packetType := header.packetType }

/-! ## Rewriting the header -/

@[simp] theorem parseHeader_setHeader (p : NoeioPacket) (h : PacketHeader) :
    (p.setHeader h).parseHeader = some h :=
  PacketHeader.fromBytes_toBytes_append h _

theorem payload_setHeader {p : NoeioPacket} {bytes : List UInt8} (hp : p.payload = some bytes)
    (h : PacketHeader) : (p.setHeader h).payload = some bytes := by
  unfold payload at hp
  split at hp
  · rename_i hlen
    obtain rfl := Option.some.inj hp
    have hres : p.resized = p.inner := if_neg (Nat.not_lt.mpr hlen)
    have hdrop : (h.toBytes ++ p.inner.drop payloadOffset).drop payloadOffset =
        p.inner.drop payloadOffset := List.drop_left' (PacketHeader.length_toBytes h)
    simp only [payload, setHeader, hres, hdrop]
    rw [if_pos]
    simp [PacketHeader.length_toBytes, payloadOffset]
  · cases hp

/-- A packet that parses has a payload: its bytes reach past the header. -/
theorem payload_of_parseHeader {p : NoeioPacket} {h : PacketHeader} (hp : p.parseHeader = some h) :
    p.payload = some (p.inner.drop payloadOffset) := by
  apply if_pos
  unfold parseHeader PacketHeader.fromBytes at hp
  split at hp
  · rename_i heq
    rw [heq]
    simp [payloadOffset, PacketHeader.len]
  · cases hp

/-! ## A packet is its header and its payload -/

@[simp] theorem length_new (h : PacketHeader) (p : List UInt8) :
    (new h p).inner.length = PacketHeader.len + p.length := by
  rw [new, List.length_append, PacketHeader.length_toBytes]

@[simp] theorem tryFrom_new (h : PacketHeader) (p : List UInt8) :
    tryFrom (new h p).inner = some (new h p) := by
  rw [tryFrom, new, PacketHeader.fromBytes_toBytes_append]
  rfl

@[simp] theorem parseHeader_new (h : PacketHeader) (p : List UInt8) :
    (new h p).parseHeader = some h :=
  PacketHeader.fromBytes_toBytes_append h p

@[simp] theorem payload_new (h : PacketHeader) (p : List UInt8) : (new h p).payload = some p := by
  have hlen : payloadOffset ≤ (h.toBytes ++ p).length := by
    rw [List.length_append, PacketHeader.length_toBytes]
    exact Nat.le_add_right payloadOffset p.length
  have hdrop : (h.toBytes ++ p).drop payloadOffset = p :=
    List.drop_left' (PacketHeader.length_toBytes h)
  exact (if_pos hlen).trans (congrArg some hdrop)

theorem inner_of_parseHeader {p : NoeioPacket} {h : PacketHeader} (hp : p.parseHeader = some h)
    {bytes : List UInt8} (hbytes : p.payload = some bytes) : p.inner = (new h bytes).inner := by
  obtain ⟨rest, hrest⟩ := PacketHeader.fromBytes_eq_some_iff.mp hp
  have hpayload : (new h rest).payload = some bytes := by
    have hsame : (new h rest).payload = p.payload := by
      unfold payload
      rw [hrest]
      rfl
    rw [hsame, hbytes]
  rw [payload_new] at hpayload
  obtain rfl := Option.some.inj hpayload
  exact hrest

theorem tryFrom_eq_some {bytes : List UInt8} {q : NoeioPacket} (h : tryFrom bytes = some q) :
    q.inner = bytes ∧ ∃ header, q.parseHeader = some header ∧ header.packetType = q.packetType := by
  obtain ⟨header, hheader, rfl⟩ := Option.map_eq_some_iff.mp h
  exact ⟨rfl, header, hheader, rfl⟩

/-- The packet parses, to the type it says it has. -/
def WellFormed (p : NoeioPacket) : Prop :=
  ∃ header, p.parseHeader = some header ∧ header.packetType = p.packetType

/-- A packet with room for a header keeps it when its payload is replaced. -/
theorem setPayload_of_parseHeader {p : NoeioPacket} {h : PacketHeader}
    (hp : p.parseHeader = some h) (bytes : List UInt8) :
    p.setPayload bytes = ⟨(new h bytes).inner, p.packetType⟩ := by
  obtain ⟨rest, hrest⟩ := PacketHeader.fromBytes_eq_some_iff.mp hp
  have hlen : p.inner.length ≥ payloadOffset := by
    rw [hrest, List.length_append, PacketHeader.length_toBytes]
    exact Nat.le_add_right payloadOffset rest.length
  have htake : p.inner.take payloadOffset = h.toBytes := by
    rw [hrest]
    exact List.take_left' (PacketHeader.length_toBytes h)
  simp only [setPayload, ensureHeader, if_pos hlen, htake, new]

/-- What can be made of a packet in any number of steps. -/
inductive Made : NoeioPacket → Prop
  | new (header : PacketHeader) (payload : List UInt8) : Made (new header payload)
  | tryFrom {bytes : List UInt8} {p : NoeioPacket} (h : tryFrom bytes = some p) : Made p
  | setHeader {p : NoeioPacket} (h : Made p) (header : PacketHeader) : Made (p.setHeader header)
  | setPayload {p : NoeioPacket} (h : Made p) (payload : List UInt8) : Made (p.setPayload payload)

theorem Made.wellFormed {p : NoeioPacket} (h : Made p) : p.WellFormed := by
  induction h with
  | new header payload => exact ⟨header, parseHeader_new header payload, rfl⟩
  | tryFrom h => exact (tryFrom_eq_some h).2
  | setHeader _ header _ => exact ⟨header, parseHeader_setHeader _ header, rfl⟩
  | setPayload _ payload ih =>
    obtain ⟨header, hheader, htype⟩ := ih
    refine ⟨header, ?_, ?_⟩
    · rw [setPayload_of_parseHeader hheader]
      exact parseHeader_new header payload
    · rw [setPayload_of_parseHeader hheader]
      exact htype

/-- **The wire form of packets.** What `new` writes is read back; `tryFrom` accepts exactly the
byte strings of at least nine bytes that start with the magic and a known type, and keeps
their bytes; and every packet that is made from one of the two and rewritten any number of
times parses to its own type, with each setter changing its own part only. -/
theorem wire_faithful :
    (∀ h p, ∃ q, tryFrom (new h p).inner = some q ∧ q.parseHeader = some h ∧ q.payload = some p) ∧
    (∀ b, ((tryFrom b).isSome = true ↔ PacketHeader.len ≤ b.length ∧
        b.take 2 = PacketHeader.magic ∧ ∃ t : NoeioPacketType, b[2]? = some t.toByte) ∧
      ∀ q, tryFrom b = some q →
        ∃ h p, q.parseHeader = some h ∧ q.payload = some p ∧ (new h p).inner = b) ∧
    ∀ q, Made q →
      (∃ h, q.parseHeader = some h ∧ h.packetType = q.packetType) ∧
      (∀ h, (q.setHeader h).parseHeader = some h ∧ (q.setHeader h).packetType = h.packetType ∧
        (q.setHeader h).payload = q.payload) ∧
      ∀ p, (q.setPayload p).parseHeader = q.parseHeader ∧
        (q.setPayload p).packetType = q.packetType ∧ (q.setPayload p).payload = some p := by
  refine ⟨fun h p => ?_, fun b => ⟨?_, fun q hq => ?_⟩, fun q hq => ?_⟩
  · refine ⟨new h p, ?_, parseHeader_new h p, payload_new h p⟩
    simp only [tryFrom, new, PacketHeader.fromBytes_toBytes_append, Option.map_some]
  · rw [tryFrom, Option.isSome_map]
    exact PacketHeader.isSome_fromBytes
  · obtain ⟨hinner, header, hheader, -⟩ := tryFrom_eq_some hq
    have hpayload := payload_of_parseHeader hheader
    refine ⟨header, _, hheader, hpayload, ?_⟩
    rw [← inner_of_parseHeader hheader hpayload, hinner]
  · obtain ⟨header, hheader, htype⟩ := hq.wellFormed
    refine ⟨⟨header, hheader, htype⟩, fun h => ?_, fun p => ?_⟩
    · have hpayload := payload_of_parseHeader hheader
      exact ⟨parseHeader_setHeader q h, rfl, (payload_setHeader hpayload h).trans hpayload.symm⟩
    · rw [setPayload_of_parseHeader hheader, hheader]
      exact ⟨parseHeader_new header p, rfl, payload_new header p⟩

namespace Sample

/-- A `Delivery` of the peer 7, as it is on the wire. -/
def delivery : NoeioPacket := ⟨[0x4E, 0x4F, 7, 0, 0, 0, 7, 0, 80, 1, 2], .delivery⟩

/-- It is read from its bytes and turned round with another header and payload. -/
theorem wire_faithful_delivery :
    tryFrom delivery.inner = some delivery ∧
      ((delivery.setHeader ⟨.forward, 9, 0⟩).setPayload [3]).parseHeader =
        some ⟨.forward, 9, 0⟩ := by
  have hread : tryFrom delivery.inner = some delivery := by decide
  have hmade : Made (delivery.setHeader ⟨.forward, 9, 0⟩) := (Made.tryFrom hread).setHeader _
  refine ⟨hread, ?_⟩
  rw [((wire_faithful.2.2 _ hmade).2.2 [3]).1]
  exact ((wire_faithful.2.2 _ (.tryFrom hread)).2.1 _).1

end Sample

end NoeioPacket

end Noeio
