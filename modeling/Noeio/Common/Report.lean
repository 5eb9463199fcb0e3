import Mathlib.Data.List.Basic
import Mathlib.Data.Nat.Find
import Noeio.Common.Packet

/-!
# Report payloads

`noeio-common/src/packet/token_frame.rs` and `report.rs`: a report is a token behind its
two byte length, then the encoded `HostInfo`. The decoder of `HostInfo` rests on a protobuf
library, so it is the parameter `hostInfo`; it stands for `HostInfo.tryFrom`.
-/

namespace Noeio

open BigEndian

/-- `str::as_bytes`. -/
def asBytes (s : String) : List UInt8 := s.toUTF8.data.toList

/-- `str::from_utf8`. -/
def fromUtf8 (bytes : List UInt8) : Option String := String.fromUTF8? bytes.toByteArray

theorem length_asBytes (s : String) : (asBytes s).length = s.utf8ByteSize := rfl

theorem fromUtf8_asBytes (s : String) : fromUtf8 (asBytes s) = some s := by
  have hbytes : (asBytes s).toByteArray = s.toByteArray := by
    apply ByteArray.ext
    simp [asBytes]
  have hvalid : s.toByteArray.IsValidUTF8 := s.isValidUTF8
  rw [fromUtf8, hbytes, String.fromUTF8?, dif_pos hvalid]
  rfl

theorem asBytes_injective {s t : String} (h : asBytes s = asBytes t) : s = t := by
  have hread := fromUtf8_asBytes s
  rw [h, fromUtf8_asBytes t] at hread
  exact (Option.some.inj hread).symm

theorem asBytes_of_fromUtf8 {bytes : List UInt8} {s : String} (h : fromUtf8 bytes = some s) :
    asBytes s = bytes := by
  unfold fromUtf8 String.fromUTF8? at h
  split at h
  · cases h
    exact List.toList_data_toByteArray
  · cases h

/-- `Utf8Error`: how many bytes are text, and how many behind them begin no character. The bytes may
also end within a character. -/
structure Utf8Error where
  validUpTo : Nat
  errorLen : Option Nat
  deriving DecidableEq

namespace Utf8Error

def display (self : Utf8Error) : String :=
  match self.errorLen with
  | some n =>
    "invalid utf-8 sequence of " ++ n.repr ++ " bytes from index " ++ self.validUpTo.repr
  | none => "incomplete utf-8 byte sequence from index " ++ self.validUpTo.repr

/-- The second bytes that go with the first one of a character of more than one byte. -/
def follows (first second : UInt8) : Bool :=
  if first = 0xE0 then 0xA0 ≤ second && second ≤ 0xBF
  else if first = 0xED then 0x80 ≤ second && second ≤ 0x9F
  else if first = 0xF0 then 0x90 ≤ second && second ≤ 0xBF
  else if first = 0xF4 then 0x80 ≤ second && second ≤ 0x8F
  else 0xC2 ≤ first && first < 0xF4 && 0x80 ≤ second && second ≤ 0xBF

/-- The length of what is no character, for bytes that begin with none. -/
def lengthOf : List UInt8 → Option Nat
  | [] => none
  | [first] => if 0xC2 ≤ first && first ≤ 0xF4 then none else some 1
  | first :: second :: rest =>
    if !follows first second then some 1
    else
      let good := (rest.takeWhile fun b => 0x80 ≤ b && b ≤ 0xBF).length
      -- the character is cut off by the end of the bytes or by the next one
      if good = rest.length then none else some (2 + good)

/-- The error of `from_utf8` for bytes that are no text. -/
def ofBytes (bytes : List UInt8) : Utf8Error :=
  let validUpTo := Nat.findGreatest (fun n => (fromUtf8 (bytes.take n)).isSome) bytes.length
  ⟨validUpTo, lengthOf (bytes.drop validUpTo)⟩

end Utf8Error

/-- The bytes of an ASCII string are the codes of its characters. -/
theorem asBytes_of_ascii {s : String} (h : ∀ c ∈ s.toList, c.toNat < 128) :
    asBytes s = s.toList.map fun c => UInt8.ofNat c.toNat := by
  have hbytes : asBytes s = s.toList.flatMap String.utf8EncodeChar := by
    rw [asBytes, String.toUTF8_eq_toByteArray, ← String.utf8Encode_toList, List.utf8Encode]
    simp
  have hchar : ∀ c ∈ s.toList, String.utf8EncodeChar c = [UInt8.ofNat c.toNat] := by
    intro c hc
    have hsize : c.utf8Size = 1 := by
      rw [Char.utf8Size_eq_one_iff, UInt32.le_iff_toNat_le]
      exact Nat.le_of_lt_succ (h c hc)
    rw [String.utf8EncodeChar_eq_singleton hsize]
    rfl
  rw [hbytes, List.map_eq_flatMap]
  exact List.flatMap_congr hchar

namespace TokenFrame

def encode (token : String) (inner : List UInt8) : List UInt8 :=
  let token := asBytes token
  -- `as u16` keeps the low sixteen bits of the length
  toBe16 (UInt16.ofNat token.length) ++ token ++ inner

def decode (data : List UInt8) : Except String (String × List UInt8) :=
  match data with
  | a :: b :: rest =>
    let tokenLen := (ofBe16 a b).toNat
    if rest.length < tokenLen then .error "payload shorter than declared token length"
    else
      match fromUtf8 (rest.take tokenLen) with
      | none => .error (Utf8Error.ofBytes (rest.take tokenLen)).display
      | some token => .ok (token, rest.drop tokenLen)
  | _ => .error "payload shorter than token length prefix"

/-- A token whose length fits the prefix is framed and read back. -/
theorem decode_encode {token : String} (hlen : token.utf8ByteSize < 2 ^ 16) (inner : List UInt8) :
    decode (encode token inner) = .ok (token, inner) := by
  have hread : (UInt16.ofNat (asBytes token).length).toNat = (asBytes token).length := by
    rw [UInt16.toNat_ofNat', length_asBytes, Nat.mod_eq_of_lt hlen]
  simp only [encode, decode, toBe16, List.cons_append, List.nil_append, ofBe16_toBe16]
  rw [hread, if_neg (by simp), List.take_left' rfl, List.drop_left' rfl, fromUtf8_asBytes]

/-- The bytes that decode are the frames of the tokens that fit. -/
theorem decode_eq_ok_iff {data inner : List UInt8} {token : String} :
    decode data = .ok (token, inner) ↔ token.utf8ByteSize < 2 ^ 16 ∧ data = encode token inner := by
  constructor
  · intro h
    unfold decode at h
    split at h
    · rename_i a b rest
      simp only at h
      split at h
      · cases h
      rename_i hlen
      split at h
      · cases h
      rename_i token' htoken
      cases h
      have hbytes := asBytes_of_fromUtf8 htoken
      have hsize : token.utf8ByteSize = (ofBe16 a b).toNat := by
        rw [← length_asBytes, hbytes, List.length_take]
        omega
      have hlt := (ofBe16 a b).toNat_lt
      refine ⟨by omega, ?_⟩
      simp only [encode, length_asBytes, hsize, UInt16.ofNat_toNat, toBe16_ofBe16]
      simp only [hbytes, List.cons_append, List.nil_append, List.take_append_drop]
    · cases h
  · rintro ⟨hlen, rfl⟩
    exact decode_encode hlen inner

end TokenFrame

structure ReportPayload where
  token : String
  hostInfo : HostInfo
  deriving DecidableEq

namespace ReportPayload

/-- `to_bytes`, given the encoding of the host. -/
def toBytes (token : String) (hostInfo : List UInt8) : List UInt8 := TokenFrame.encode token hostInfo

def tryFrom (hostInfo : List UInt8 → Except String HostInfo) (data : List UInt8) :
    Except String ReportPayload := do
  let (token, inner) ← TokenFrame.decode data
  let hostInfo ← hostInfo inner
  return { token, hostInfo }

/-- A sender's boundary between token and host is the one that is read exactly if the token fits. -/
theorem tryFrom_toBytes_iff {token : String} {inner : List UInt8} :
    (∀ hostInfo, tryFrom hostInfo (toBytes token inner) = (hostInfo inner).map (.mk token)) ↔
      token.utf8ByteSize < 2 ^ 16 := by
  constructor
  · intro h
    -- a decoder that takes anything shows the token that was read
    have hany := h fun _ => .ok ⟨0, .v4 0 0, .other, "", [], []⟩
    have hread : ∃ inner', TokenFrame.decode (toBytes token inner) = .ok (token, inner') := by
      cases hdec : TokenFrame.decode (toBytes token inner) with
      | error err =>
        rw [tryFrom, hdec] at hany
        cases hany
      | ok frame =>
        rw [tryFrom, hdec] at hany
        cases hany
        exact ⟨frame.2, rfl⟩
    obtain ⟨inner', hdec⟩ := hread
    exact (TokenFrame.decode_eq_ok_iff.mp hdec).1
  · intro hlen hostInfo
    rw [tryFrom, toBytes, TokenFrame.decode_encode hlen]
    simp only [bind, Except.bind]
    cases hostInfo inner <;> rfl

end ReportPayload

/-- What is framed is read back exactly if the token fits its length prefix, what is read is what
was framed, and a report is cut where the sender framed it. -/
theorem TokenFrame.round_trip_iff (token : String) (inner : List UInt8) :
    (decode (encode token inner) = .ok (token, inner) ↔ token.utf8ByteSize < 2 ^ 16) ∧
      (∀ data, decode data = .ok (token, inner) → encode token inner = data) ∧
      ((∀ hostInfo, ReportPayload.tryFrom hostInfo (ReportPayload.toBytes token inner) =
        (hostInfo inner).map (.mk token)) ↔ token.utf8ByteSize < 2 ^ 16) := by
  refine ⟨?_, fun data h => ?_, ReportPayload.tryFrom_toBytes_iff⟩
  · rw [decode_eq_ok_iff, and_iff_left rfl]
  · exact (decode_eq_ok_iff.mp h).2.symm

namespace TokenFrame.Sample

/-- A token of 65536 bytes is announced as an empty one, and read so. -/
theorem decode_encode_wrapped {token : String} (hlen : (asBytes token).length = 2 ^ 16)
    (inner : List UInt8) : decode (encode token inner) = .ok ("", asBytes token ++ inner) := by
  have hzero : encode token inner = encode "" (asBytes token ++ inner) := by
    simp only [encode, hlen]
    rfl
  exact decode_eq_ok_iff.mpr ⟨by decide, hzero⟩

theorem length_replicate (n : Nat) :
    (asBytes (String.ofList (List.replicate n 'a'))).length = n := by
  have hascii : ∀ c ∈ (String.ofList (List.replicate n 'a')).toList, c.toNat < 128 := by
    intro c hc
    rw [String.toList_ofList] at hc
    rw [List.eq_of_mem_replicate hc]
    decide
  rw [asBytes_of_ascii hascii, List.length_map, String.toList_ofList, List.length_replicate]

def longToken : String := String.ofList (List.replicate (2 ^ 16) 'a')

/-- The long token is lost, and the host is looked for in its text. -/
theorem longToken_lost :
    decode (encode longToken []) = .ok ("", asBytes longToken ++ []) ∧
      decode (encode longToken []) ≠ .ok (longToken, []) := by
  have hlen : (asBytes longToken).length = 2 ^ 16 := length_replicate (2 ^ 16)
  refine ⟨decode_encode_wrapped hlen [], fun h => ?_⟩
  have hsize := (decode_eq_ok_iff.mp h).1
  rw [← length_asBytes, hlen] at hsize
  omega

end TokenFrame.Sample

end Noeio
