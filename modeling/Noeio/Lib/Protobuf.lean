import Mathlib.Data.List.Basic
import Mathlib.Tactic.Common

/-!
# The wire format of protocol buffers

A message is a sequence of fields. A field is a key, the field number and the wire type in one
varint, and its value: a varint, or a length and that many bytes. (The wire types of fixed
width and the groups are refused here.) A varint has seven bits to a byte, lowest first, with
the high bit set in all bytes but the last.

* `readFields_writeFields`: a message is read as the fields it was written from.
* `occurs_of_readFields`: a field is read only where its key stands in the bytes (`Occurs`).
  In bytes below `0x80` a key of one byte stands where this byte does (`mem_of_occurs`).
-/

namespace Protobuf

/-! ## Varints -/

def writeVarint (n : Nat) : List UInt8 :=
  if n < 128 then [UInt8.ofNat n] else UInt8.ofNat (n % 128 + 128) :: writeVarint (n / 128)

/-- The varint at the start of the bytes, and the bytes after it. -/
def readVarint : List UInt8 → Option (Nat × List UInt8)
  | [] => none
  | b :: bytes =>
    if b.toNat < 128 then some (b.toNat, bytes)
    else (readVarint bytes).map fun (n, rest) => (b.toNat - 128 + 128 * n, rest)

theorem readVarint_writeVarint (n : Nat) (rest : List UInt8) :
    readVarint (writeVarint n ++ rest) = some (n, rest) := by
  induction n using Nat.strongRecOn with
  | ind n ih =>
    rw [writeVarint]
    split
    · rename_i hn
      have hbyte : (UInt8.ofNat n).toNat = n := by
        rw [UInt8.toNat_ofNat']
        omega
      simp [readVarint, hbyte, hn]
    · rename_i hn
      have hbyte : (UInt8.ofNat (n % 128 + 128)).toNat = n % 128 + 128 := by
        rw [UInt8.toNat_ofNat']
        omega
      have hbig : ¬ n % 128 + 128 < 128 := by omega
      simp only [List.cons_append, readVarint, hbyte, if_neg hbig, ih (n / 128) (by omega),
        Option.map_some, Option.some.injEq, Prod.mk.injEq, and_true]
      omega

/-- A varint takes some bytes from the front. -/
theorem readVarint_suffix {bytes rest : List UInt8} {n : Nat}
    (h : readVarint bytes = some (n, rest)) : ∃ pre, pre ≠ [] ∧ bytes = pre ++ rest := by
  induction bytes generalizing n rest with
  | nil => cases h
  | cons b bytes ih =>
    rw [readVarint] at h
    split at h
    · cases h
      exact ⟨[b], by simp, rfl⟩
    · obtain ⟨⟨m, rest'⟩, hm, heq⟩ := Option.map_eq_some_iff.mp h
      cases heq
      obtain ⟨pre, -, rfl⟩ := ih hm
      exact ⟨b :: pre, by simp, rfl⟩

/-! ## Fields -/

inductive Value where
  | varint (n : Nat)
  | len (bytes : List UInt8)
  deriving DecidableEq

structure Field where
  number : Nat
  value : Value
  deriving DecidableEq

def Value.wireType : Value → Nat
  | .varint _ => 0
  | .len _ => 2

/-- The key of a field with that number and wire type. -/
def key (number wireType : Nat) : Nat := number * 8 + wireType

def Field.key (f : Field) : Nat := Protobuf.key f.number f.value.wireType

def writeField (f : Field) : List UInt8 :=
  writeVarint f.key ++
    match f.value with
    | .varint n => writeVarint n
    | .len bytes => writeVarint bytes.length ++ bytes

def writeFields (fs : List Field) : List UInt8 := fs.flatMap writeField

def readValue (wireType : Nat) (bytes : List UInt8) : Option (Value × List UInt8) :=
  match wireType with
  | 0 => (readVarint bytes).map fun (n, rest) => (.varint n, rest)
  | 2 =>
    (readVarint bytes).bind fun (n, rest) =>
      if n ≤ rest.length then some (.len (rest.take n), rest.drop n) else none
  | _ => none

def readField (bytes : List UInt8) : Option (Field × List UInt8) :=
  (readVarint bytes).bind fun (k, rest) =>
    -- there is no field with number 0
    if k / 8 = 0 then none
    else (readValue (k % 8) rest).map fun (value, rest) => (⟨k / 8, value⟩, rest)

/-- The fields of a message of at most `fuel` bytes. -/
def readFieldsUpTo : Nat → List UInt8 → Option (List Field)
  | _, [] => some []
  | 0, _ => none
  | fuel + 1, bytes =>
    (readField bytes).bind fun (f, rest) => (readFieldsUpTo fuel rest).map (f :: ·)

def readFields (bytes : List UInt8) : Option (List Field) := readFieldsUpTo bytes.length bytes

/-! ## What is written is read -/

theorem readValue_write (value : Value) (rest : List UInt8) :
    readValue value.wireType ((match value with
      | .varint n => writeVarint n
      | .len bytes => writeVarint bytes.length ++ bytes) ++ rest) = some (value, rest) := by
  cases value with
  | varint n => simp [readValue, Value.wireType, readVarint_writeVarint]
  | len bytes => simp [readValue, Value.wireType, List.append_assoc, readVarint_writeVarint]

theorem readField_writeField {f : Field} (hf : f.number ≠ 0) (rest : List UInt8) :
    readField (writeField f ++ rest) = some (f, rest) := by
  have hwire : f.value.wireType < 8 := by cases f.value <;> simp [Value.wireType]
  have hnumber : f.key / 8 = f.number := by
    unfold Field.key key
    omega
  have htype : f.key % 8 = f.value.wireType := by
    unfold Field.key key
    omega
  rw [readField, writeField, List.append_assoc, readVarint_writeVarint]
  simp only [Option.bind_some, hnumber, htype, if_neg hf, readValue_write, Option.map_some]

theorem writeField_ne_nil (f : Field) : writeField f ≠ [] := by
  rw [writeField, writeVarint]
  split <;> simp

theorem readFieldsUpTo_writeFields {fs : List Field} (hfs : ∀ f ∈ fs, f.number ≠ 0) {fuel : Nat}
    (hfuel : (writeFields fs).length ≤ fuel) :
    readFieldsUpTo fuel (writeFields fs) = some fs := by
  induction fs generalizing fuel with
  | nil => cases fuel <;> rfl
  | cons f fs ih =>
    have hne := writeField_ne_nil f
    have hcons : writeFields (f :: fs) = writeField f ++ writeFields fs := List.flatMap_cons
    rw [hcons, List.length_append] at hfuel
    rw [hcons]
    have hpos := List.length_pos_iff.mpr hne
    obtain ⟨fuel, rfl⟩ : ∃ k, fuel = k + 1 := ⟨fuel - 1, by omega⟩
    have hnil : writeField f ++ writeFields fs ≠ [] := by simp [hne]
    have hrest : readFieldsUpTo fuel (writeFields fs) = some fs :=
      ih (fun g hg => hfs g (List.mem_cons_of_mem f hg)) (by omega)
    rw [readFieldsUpTo]
    · rw [readField_writeField (hfs f List.mem_cons_self), Option.bind_some]
      simp only [hrest, Option.map_some]
    · exact hnil

/-- A message is read as the fields it was written from. -/
theorem readFields_writeFields {fs : List Field} (hfs : ∀ f ∈ fs, f.number ≠ 0) :
    readFields (writeFields fs) = some fs :=
  readFieldsUpTo_writeFields hfs (Nat.le_refl _)

/-! ## Where a field comes from -/

/-- Somewhere in the bytes a varint with the value `k` begins. -/
def Occurs (k : Nat) (bytes : List UInt8) : Prop :=
  ∃ pre rest rest', bytes = pre ++ rest ∧ readVarint rest = some (k, rest')

theorem Occurs.append {k : Nat} {bytes : List UInt8} (h : Occurs k bytes) (pre : List UInt8) :
    Occurs k (pre ++ bytes) := by
  obtain ⟨pre', rest, rest', rfl, hread⟩ := h
  exact ⟨pre ++ pre', rest, rest', by simp, hread⟩

theorem readValue_suffix {wireType : Nat} {bytes rest : List UInt8} {value : Value}
    (h : readValue wireType bytes = some (value, rest)) :
    value.wireType = wireType ∧ ∃ pre, bytes = pre ++ rest := by
  unfold readValue at h
  split at h
  · obtain ⟨⟨n, rest'⟩, hn, heq⟩ := Option.map_eq_some_iff.mp h
    cases heq
    obtain ⟨pre, -, hpre⟩ := readVarint_suffix hn
    exact ⟨rfl, pre, hpre⟩
  · obtain ⟨⟨n, rest'⟩, hn, hbody⟩ := Option.bind_eq_some_iff.mp h
    obtain ⟨pre, -, rfl⟩ := readVarint_suffix hn
    dsimp only at hbody
    split at hbody
    · cases hbody
      exact ⟨rfl, pre ++ rest'.take n, by simp⟩
    · cases hbody
  · cases h

theorem readField_spec {bytes rest : List UInt8} {f : Field} (h : readField bytes = some (f, rest)) :
    Occurs f.key bytes ∧ ∃ pre, bytes = pre ++ rest := by
  obtain ⟨⟨k, rest'⟩, hk, hbody⟩ := Option.bind_eq_some_iff.mp h
  dsimp only at hbody
  split at hbody
  · cases hbody
  obtain ⟨⟨value, rest''⟩, hvalue, heq⟩ := Option.map_eq_some_iff.mp hbody
  cases heq
  obtain ⟨hwire, pre', hpre'⟩ := readValue_suffix hvalue
  obtain ⟨pre, -, hpre⟩ := readVarint_suffix hk
  refine ⟨⟨[], bytes, rest', rfl, ?_⟩, pre ++ pre', by rw [hpre, hpre', List.append_assoc]⟩
  have hkey : Field.key ⟨k / 8, value⟩ = k := by
    simp only [Field.key, key, hwire]
    omega
  rw [hkey]
  exact hk

theorem occurs_of_readFieldsUpTo {fuel : Nat} {bytes : List UInt8} {fs : List Field}
    (h : readFieldsUpTo fuel bytes = some fs) {f : Field} (hf : f ∈ fs) : Occurs f.key bytes := by
  induction fuel generalizing bytes fs with
  | zero =>
    cases bytes with
    | nil =>
      cases h
      cases hf
    | cons b bytes => cases h
  | succ fuel ih =>
    cases bytes with
    | nil =>
      cases h
      cases hf
    | cons b bytes =>
      obtain ⟨⟨g, rest⟩, hg, hbody⟩ := Option.bind_eq_some_iff.mp h
      obtain ⟨gs, hgs, rfl⟩ := Option.map_eq_some_iff.mp hbody
      obtain ⟨hoccurs, pre, hpre⟩ := readField_spec hg
      rcases List.mem_cons.mp hf with rfl | hf
      · exact hoccurs
      · rw [hpre]
        exact (ih hgs hf).append pre

/-- A field is read only where its key stands in the bytes. -/
theorem occurs_of_readFields {bytes : List UInt8} {fs : List Field} (h : readFields bytes = some fs)
    {f : Field} (hf : f ∈ fs) : Occurs f.key bytes :=
  occurs_of_readFieldsUpTo h hf

/-- In bytes below `0x80` every varint is one byte. -/
theorem mem_of_occurs {k : Nat} {bytes : List UInt8} (h : Occurs k bytes)
    (hbytes : ∀ b ∈ bytes, b.toNat < 128) : ∃ b ∈ bytes, b.toNat = k := by
  obtain ⟨pre, rest, rest', rfl, hread⟩ := h
  cases rest with
  | nil => cases hread
  | cons b rest =>
    have hb := hbytes b (List.mem_append_right _ List.mem_cons_self)
    rw [readVarint, if_pos hb] at hread
    cases hread
    exact ⟨b, List.mem_append_right _ List.mem_cons_self, rfl⟩

/-! ## Messages -/

section
variable {M α : Type*} {merge : M → Field → Option M} {m m' : M}

/-- A field that is left out when its value is the default. -/
def optional (isDefault : Bool) (f : Field) : List Field := if isDefault then [] else [f]

theorem eq_of_mem_optional {isDefault : Bool} {f g : Field} (h : g ∈ optional isDefault f) :
    g = f := by
  cases isDefault with
  | true => cases h
  | false => exact List.mem_singleton.mp h

theorem foldlM_optional {isDefault : Bool} {f : Field} (hdefault : isDefault = true → m = m')
    (hmerge : merge m f = some m') : (optional isDefault f).foldlM merge m = some m' := by
  cases isDefault with
  | true => exact congrArg some (hdefault rfl)
  | false =>
    change [f].foldlM merge m = some m'
    rw [List.foldlM_cons, hmerge]
    rfl

/-- A repeated field is appended to, one value after the other. -/
theorem foldlM_repeated {β : Type*} {field : β → Field} (put : List β → M)
    (hmerge : ∀ bs b, merge (put bs) (field b) = some (put (bs ++ [b]))) (bs new : List β) :
    (new.map field).foldlM merge (put bs) = some (put (bs ++ new)) := by
  induction new generalizing bs with
  | nil =>
    rw [List.append_nil]
    rfl
  | cons b new ih =>
    rw [List.map_cons, List.foldlM_cons, hmerge, Option.bind_eq_bind, Option.bind_some, ih,
      List.append_assoc, List.singleton_append]

theorem foldlM_append {fs gs : List Field} {m₁ : M} (hfs : fs.foldlM merge m = some m₁)
    (hgs : gs.foldlM merge m₁ = some m') : (fs ++ gs).foldlM merge m = some m' := by
  rw [List.foldlM_append, hfs]
  exact hgs

/-- A part of a message that only one field sets is set by a field of the message. -/
theorem exists_of_foldlM {get : M → α} {k : Nat}
    (hmerge : ∀ m f m', merge m f = some m' → get m' = get m ∨ f.key = k) {fs : List Field}
    (h : fs.foldlM merge m = some m') (hset : get m' ≠ get m) : ∃ f ∈ fs, f.key = k := by
  induction fs generalizing m with
  | nil =>
    cases h
    exact absurd rfl hset
  | cons f fs ih =>
    rw [List.foldlM_cons] at h
    obtain ⟨m₁, hm₁, hfs⟩ := Option.bind_eq_some_iff.mp h
    rcases hmerge m f m₁ hm₁ with hkept | hkey
    · obtain ⟨g, hg, hkey⟩ := ih hfs (hkept ▸ hset)
      exact ⟨g, List.mem_cons_of_mem f hg, hkey⟩
    · exact ⟨f, List.mem_cons_self, hkey⟩

end

end Protobuf
