import Noeio.Common.HostInfoText
import Noeio.Daemon.Peer
import Noeio.Lib.SipHash

/-!
# The keys of a tunnel

`noeio/src/tunnel/wireguard.rs`. A node and its peers exchange no keys. Each identity is derived
from the network id and the peer id alone: a digest of a text with both is the secret key. A node
derives its own secret, and the public key of a peer by the same formula from the peer's id.

`generate_digest` fills a buffer of any length that is a multiple of eight, word by word, and feeds
what it has written back to the hasher. A longer buffer begins like a shorter one, and the strings
count only through their concatenation (`digest_stream`). The texts that are hashed for different
identities are different (`identities_agree_and_differ`), so two identities have the same key only
if the digest has a collision.

What the key library makes of a secret is a parameter (`publicKey`).
-/

namespace Noeio

open BigEndian SipHash

/-! ## Digests -/

/-- The loop of `generate_digest`: `n` more words behind those that are written. -/
def shards : Nat → Hasher → List UInt8 → List UInt8
  | 0, _, digest => digest
  | n + 1, hasher, digest =>
    let digest := digest ++ toBe64 hasher.finish
    shards n (hasher.write digest) digest

/-- What `generate_digest` writes to a buffer of that length. It panics if the length is not a
multiple of eight. -/
def generateDigest (strs : List String) (length : Nat) : Except String (List UInt8) :=
  let hasher := (strs.map asBytes).foldl Hasher.write .new
  if length % 8 ≠ 0 then
    .error ("assertion `left == right` failed: digest length must be multiple of 8\n  left: " ++
      (length % 8).repr ++ "\n right: 0")
  else .ok (shards (length / 8) hasher [])

theorem length_shards (n : Nat) (hasher : Hasher) (digest : List UInt8) :
    (shards n hasher digest).length = digest.length + 8 * n := by
  induction n generalizing hasher digest with
  | zero => rfl
  | succ n ih =>
    have hword : (toBe64 hasher.finish).length = 8 := rfl
    rw [shards, ih, List.length_append, hword]
    omega

theorem prefix_shards (n : Nat) (hasher : Hasher) (digest : List UInt8) :
    digest <+: shards n hasher digest := by
  induction n generalizing hasher digest with
  | zero => exact List.prefix_refl digest
  | succ n ih => exact (List.prefix_append _ _).trans (ih _ _)

/-- The words that are there do not depend on how many follow. -/
theorem shards_prefix (m k : Nat) (hasher : Hasher) (digest : List UInt8) :
    shards m hasher digest <+: shards (m + k) hasher digest := by
  induction m generalizing hasher digest with
  | zero =>
    rw [Nat.zero_add]
    exact prefix_shards k hasher digest
  | succ m ih =>
    rw [Nat.succ_add]
    exact ih _ _

theorem generateDigest_eq_ok {strs : List String} {length : Nat} {digest : List UInt8} :
    generateDigest strs length = .ok digest ↔
      length % 8 = 0 ∧
        shards (length / 8) (Hasher.new.write (strs.map asBytes).flatten) [] = digest := by
  unfold generateDigest
  rw [Hasher.foldl_write_new]
  by_cases h : length % 8 = 0
  · rw [if_neg (not_not.mpr h), Except.ok.injEq, and_iff_right h]
  · simp [h]

/-- A digest is the beginning of a stream that the bytes of the strings determine. It is made if
and only if the length of the buffer is a multiple of eight; it fills the buffer; strings with the
same concatenation have the same digest, wherever they are cut; and the digest in a shorter buffer
is the beginning of the one in a longer buffer. -/
theorem digest_stream (strs : List String) (length : Nat) :
    ((∃ digest, generateDigest strs length = .ok digest) ↔ 8 ∣ length) ∧
    ∀ digest, generateDigest strs length = .ok digest → digest.length = length ∧
      (∀ strs', (strs'.map asBytes).flatten = (strs.map asBytes).flatten →
        generateDigest strs' length = .ok digest) ∧
      ∀ shorter beginning, shorter ≤ length → generateDigest strs shorter = .ok beginning →
        beginning = digest.take shorter := by
  refine ⟨?_, fun digest hdigest => ?_⟩
  · simp only [generateDigest_eq_ok, exists_and_left, exists_eq', and_true]
    exact Nat.dvd_iff_mod_eq_zero.symm
  obtain ⟨hmod, rfl⟩ := generateDigest_eq_ok.mp hdigest
  refine ⟨?_, fun strs' hsame => ?_, fun shorter beginning hle hbeginning => ?_⟩
  · rw [length_shards, List.length_nil]
    omega
  · exact generateDigest_eq_ok.mpr ⟨hmod, by rw [hsame]⟩
  · obtain ⟨hshort, rfl⟩ := generateDigest_eq_ok.mp hbeginning
    have hsplit : length / 8 = shorter / 8 + (length / 8 - shorter / 8) := by omega
    have hprefix := shards_prefix (shorter / 8) (length / 8 - shorter / 8)
      (Hasher.new.write (strs.map asBytes).flatten) []
    rw [← hsplit] at hprefix
    have hlength := length_shards (shorter / 8) (Hasher.new.write (strs.map asBytes).flatten) []
    have htake := List.prefix_iff_eq_take.mp hprefix
    rw [hlength, List.length_nil] at htake
    have hshorter : 0 + 8 * (shorter / 8) = shorter := by omega
    rwa [hshorter] at htake

/-! ## Identities -/

/-- The 32 bytes of a secret. -/
abbrev StaticSecret := List UInt8

structure WireGuardConfig (PublicKey : Type) where
  mySecretKey : StaticSecret
  myPublicKey : PublicKey
  peerSecretKey : StaticSecret
  peerPublicKey : PublicKey

/-- What is hashed for an identity. -/
def seedTexts (uuid : UuidText) (role : String) (peerId : String) (networkId : NetworkId) :
    List String :=
  [role, uuid.hyphenated networkId, peerId]

/-- `PeerId::to_string`. -/
def displayPeerId (peerId : PeerId) : String := peerId.toNat.repr

section
variable {PublicKey : Type} (publicKey : StaticSecret → PublicKey) (uuid : UuidText)

def WireGuardConfig.newFromNetworkPeer (peerId : String) (networkId : NetworkId) :
    Except String (WireGuardConfig PublicKey) := do
  let mySeed ← generateDigest (seedTexts uuid "self" peerId networkId) 32
  let peerSeed ← generateDigest (seedTexts uuid "peer" peerId networkId) 32
  return ⟨mySeed, publicKey mySeed, peerSeed, publicKey peerSeed⟩

/-- `derive_tunnel_keys`. -/
def WireGuardConfig.deriveTunnelKeys (localPeerId peerId : PeerId) (networkId : NetworkId) :
    Except String (StaticSecret × PublicKey) := do
  let ours ← newFromNetworkPeer publicKey uuid (displayPeerId localPeerId) networkId
  let theirs ← newFromNetworkPeer publicKey uuid (displayPeerId peerId) networkId
  return (ours.mySecretKey, theirs.myPublicKey)

end

/-- The secret of an identity. -/
def identitySecret (uuid : UuidText) (peerId : PeerId) (networkId : NetworkId) : StaticSecret :=
  shards 4
    (Hasher.new.write ((seedTexts uuid "self" (displayPeerId peerId) networkId).map asBytes).flatten) []

theorem generateDigest_of_dvd {strs : List String} {length : Nat} (h : length % 8 = 0) :
    generateDigest strs length =
      .ok (shards (length / 8) (Hasher.new.write (strs.map asBytes).flatten) []) :=
  generateDigest_eq_ok.mpr ⟨h, rfl⟩

/-- The keys are our own secret and the public key that belongs to the secret of the peer. -/
theorem deriveTunnelKeys_eq {PublicKey : Type} (publicKey : StaticSecret → PublicKey)
    (uuid : UuidText) (localPeerId peerId : PeerId) (networkId : NetworkId) :
    WireGuardConfig.deriveTunnelKeys publicKey uuid localPeerId peerId networkId =
      .ok (identitySecret uuid localPeerId networkId,
        publicKey (identitySecret uuid peerId networkId)) := by
  have h32 : 32 % 8 = 0 := rfl
  simp only [WireGuardConfig.deriveTunnelKeys, WireGuardConfig.newFromNetworkPeer,
    generateDigest_of_dvd h32]
  rfl

theorem asBytes_append (s t : String) : asBytes (s ++ t) = asBytes s ++ asBytes t := by
  simp [asBytes]

theorem displayPeerId_injective {p q : PeerId} (h : displayPeerId p = displayPeerId q) : p = q := by
  have hrepr : ∀ x : PeerId, Text.parseUnsigned (2 ^ 32) (displayPeerId x) = .ok x.toNat :=
    fun x => Text.parseUnsigned_repr x.toNat_lt
  have hread := hrepr p
  rw [h, hrepr q] at hread
  exact UInt32.toNat_inj.mp (Except.ok.inj hread).symm

/-- The two roles that an identity is hashed for. -/
def Role (role : String) : Prop := role = "self" ∨ role = "peer"

theorem flatten_seedTexts (uuid : UuidText) (role peerId : String) (networkId : NetworkId) :
    ((seedTexts uuid role peerId networkId).map asBytes).flatten =
      asBytes (role ++ (uuid.hyphenated networkId ++ peerId)) := by
  simp [seedTexts, asBytes_append]

/-- Both ends of a tunnel agree, and no two identities are hashed from the same text. The public
key that a node derives for its peer belongs to the secret that the peer derives for itself, in
both directions. And where the hyphenated form of a network id has 36 characters, two identities
have the same text only if they are for the same role, the same network and the same peer, though
nothing separates the three parts. -/
theorem identities_agree_and_differ {PublicKey : Type} (publicKey : StaticSecret → PublicKey)
    {uuid : UuidText} (hlength : ∀ id, (uuid.hyphenated id).length = 36) :
    (∀ p q networkId, ∃ secret secret',
      WireGuardConfig.deriveTunnelKeys publicKey uuid p q networkId = .ok (secret, publicKey secret') ∧
      WireGuardConfig.deriveTunnelKeys publicKey uuid q p networkId = .ok (secret', publicKey secret)) ∧
    ∀ role role', Role role → Role role' → ∀ p p' n n',
      ((seedTexts uuid role (displayPeerId p) n).map asBytes).flatten =
          ((seedTexts uuid role' (displayPeerId p') n').map asBytes).flatten →
        role = role' ∧ n = n' ∧ p = p' := by
  refine ⟨fun p q networkId => ?_, ?_⟩
  · refine ⟨identitySecret uuid p networkId, identitySecret uuid q networkId, ?_, ?_⟩
    · exact deriveTunnelKeys_eq publicKey uuid p q networkId
    · exact deriveTunnelKeys_eq publicKey uuid q p networkId
  · intro role role' hrole hrole' p p' n n' hsame
    rw [flatten_seedTexts, flatten_seedTexts] at hsame
    have htext := congrArg String.toList (asBytes_injective hsame)
    simp only [String.toList_append] at htext
    have hroles : role.toList.length = role'.toList.length := by
      rcases hrole with rfl | rfl <;> rcases hrole' with rfl | rfl <;> rfl
    obtain ⟨hrole, htext⟩ := List.append_inj htext hroles
    have huuids : (uuid.hyphenated n).toList.length = (uuid.hyphenated n').toList.length := by
      rw [String.length_toList, String.length_toList, hlength, hlength]
    obtain ⟨huuid, hid⟩ := List.append_inj htext huuids
    refine ⟨String.toList_inj.mp hrole, ?_, displayPeerId_injective (String.toList_inj.mp hid)⟩
    have hread := uuid.parseStr_hyphenated n
    rw [String.toList_inj.mp huuid, uuid.parseStr_hyphenated n'] at hread
    exact (Except.ok.inj hread).symm

namespace Sample

theorem length_hex (id : NetworkId) : (UuidText.hex.hyphenated id).length = 36 := by
  have hsize : id.toList.length = 16 := Vector.length_toList
  change (String.ofList (['-'].intercalate (UuidText.hexGroups id))).length = 36
  rw [String.length_ofList, UuidText.hexGroups]
  generalize id.toList = bytes at hsize
  simp only [UuidText.groups, List.map_cons, List.map_nil, List.intercalate_cons_cons,
    List.intercalate_singleton, List.length_append, UuidText.length_hexBytes, List.length_take,
    List.length_drop, List.length_singleton, hsize]
  rfl

/-- The network `1…1` with the peers 12 and 3, and the network `2…2` with the peer 3. -/
theorem identities_agree_and_differ_hex :
    (∃ secret secret',
      WireGuardConfig.deriveTunnelKeys id .hex 12 3 (.replicate 16 1) = .ok (secret, secret') ∧
      WireGuardConfig.deriveTunnelKeys id .hex 3 12 (.replicate 16 1) = .ok (secret', secret)) ∧
    ((seedTexts .hex "self" (displayPeerId 3) (.replicate 16 1)).map asBytes).flatten ≠
      ((seedTexts .hex "self" (displayPeerId 3) (.replicate 16 2)).map asBytes).flatten := by
  obtain ⟨hagree, hdiffer⟩ := identities_agree_and_differ (id : StaticSecret → StaticSecret) length_hex
  refine ⟨hagree 12 3 (.replicate 16 1), fun hsame => ?_⟩
  have hn := (hdiffer _ _ (Or.inl rfl) (Or.inl rfl) 3 3 _ _ hsame).2.1
  exact absurd hn (by decide)

end Sample

end Noeio
