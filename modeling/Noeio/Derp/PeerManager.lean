import Noeio.Common.HostInfo
import Noeio.Lib.TtlCache

/-!
# The peer table of the derper

`noeio-derp/src/connection/peer.rs`. The table maps a peer id to the address its reports
come from, the last `HostInfo` and the network; `byAddr` is a hint from an address and a
network back to a peer id, with its own time to live. `trigger` is the permit of the
`Notify` that wakes the sync task (several notifications leave one permit) and `gone` is
the queue of the channel into which the eviction listener sends.

`heartbeat` has two branches. A report that is not newer than the stored one re-inserts the
stored value, which only refreshes its time to live; any other report replaces it. The
table after either branch is `merge` of the old entry and the report (`get_heartbeat`).
-/

namespace Noeio.Derp

/-- What the table stores for a peer. -/
structure PeerEntry where
  addr : SocketAddr
  info : HostInfo
  network : NetworkId
  deriving DecidableEq

/-- A peer whose reports stopped. -/
structure Gone where
  peerId : PeerId
  info : HostInfo
  network : NetworkId
  deriving DecidableEq

structure PeerManager where
  peers : TtlCache PeerId PeerEntry
  byAddr : TtlCache (SocketAddr × NetworkId) PeerId
  trigger : Bool
  gone : List Gone

/-- The eviction listener: only a real disappearance is a tombstone. -/
def evictionListener (removal : Option (Removal PeerId PeerEntry)) : List Gone :=
  match removal with
  | some ⟨peerId, value, .expired⟩ => [⟨peerId, value.info, value.network⟩]
  | some ⟨peerId, value, .explicit⟩ => [⟨peerId, value.info, value.network⟩]
  | _ => []

namespace PeerManager

def new : PeerManager := ⟨.empty, .empty, false, []⟩

/-- `self.peers.insert`, with what the eviction listener sends meanwhile. -/
def insertPeer (self : PeerManager) (peerId : PeerId) (entry : PeerEntry) : PeerManager :=
  { self with
    peers := self.peers.insert peerId entry
    gone := self.gone ++ evictionListener (self.peers.insertRemoval peerId) }

def insertAddr (self : PeerManager) (addr : SocketAddr) (network : NetworkId) (peerId : PeerId) :
    PeerManager :=
  { self with byAddr := self.byAddr.insert (addr, network) peerId }

def get (self : PeerManager) (peerId : PeerId) : Option PeerEntry := self.peers.get peerId

def heartbeat (self : PeerManager) (peerId : PeerId) (info : HostInfo) (addr : SocketAddr)
    (network : NetworkId) : PeerManager :=
  match self.peers.get peerId with
  | some prev =>
    if info.resourceVersion ≤ prev.info.resourceVersion then
      -- a stale or duplicate report refreshes the liveness of what is stored
      (self.insertPeer peerId prev).insertAddr prev.addr prev.network peerId
    else replace
  | none => replace
where
  replace : PeerManager :=
    let changed := (self.peers.get peerId).all fun prev =>
      prev.addr ≠ addr ∨ prev.info ≠ info ∨ prev.network ≠ network
    let self := (self.insertPeer peerId ⟨addr, info, network⟩).insertAddr addr network peerId
    if changed then { self with trigger := true } else self

def remove (self : PeerManager) (peerId : PeerId) : PeerManager :=
  let byAddr := match self.peers.get peerId with
    | some entry => self.byAddr.invalidate (entry.addr, entry.network)
    | none => self.byAddr
  { self with
    byAddr
    peers := self.peers.invalidate peerId
    gone := self.gone ++ evictionListener (self.peers.invalidateRemoval peerId) }

def alivePeers (self : PeerManager) : List (PeerId × PeerEntry) := self.peers.iter

def peerIdByAddr (self : PeerManager) (addr : SocketAddr) (network : NetworkId) : Option PeerId := do
  let peerId ← self.byAddr.get (addr, network)
  let current ← self.peers.get peerId
  if current.addr = addr ∧ current.network = network then some peerId else none

/-- The time to live of a peer runs out. -/
def expire (self : PeerManager) (peerId : PeerId) : PeerManager :=
  { self with peers := self.peers.expire peerId }

/-- The part of `sweep` that removes one expired peer. -/
def evict (self : PeerManager) (peerId : PeerId) : PeerManager :=
  { self with
    peers := self.peers.evict peerId
    gone := self.gone ++ evictionListener (self.peers.evictRemoval peerId) }

def expireAddr (self : PeerManager) (key : SocketAddr × NetworkId) : PeerManager :=
  { self with byAddr := self.byAddr.expire key }

def evictAddr (self : PeerManager) (key : SocketAddr × NetworkId) : PeerManager :=
  { self with byAddr := self.byAddr.evict key }

/-! ## What a heartbeat does -/

/-- What the table holds for a peer after a report `new`, given what was alive before. -/
def merge (prev : Option PeerEntry) (new : PeerEntry) : PeerEntry :=
  match prev with
  | some prev => if new.info.resourceVersion ≤ prev.info.resourceVersion then prev else new
  | none => new

/-- The two branches of `heartbeat`: the stored entry is inserted again and nothing is
notified, or the report is inserted and the sync task is notified. -/
theorem heartbeat_cases (m : PeerManager) (x : PeerId) (info : HostInfo) (addr : SocketAddr)
    (network : NetworkId) :
    (∃ prev, m.get x = some prev ∧ info.resourceVersion ≤ prev.info.resourceVersion ∧
      m.heartbeat x info addr network =
        (m.insertPeer x prev).insertAddr prev.addr prev.network x) ∨
    ((∀ prev, m.get x = some prev → prev.info.resourceVersion < info.resourceVersion) ∧
      m.heartbeat x info addr network =
        { (m.insertPeer x ⟨addr, info, network⟩).insertAddr addr network x with
          trigger := true }) := by
  cases hx : m.peers.get x with
  | none =>
    right
    refine ⟨by simp [get, hx], ?_⟩
    simp [heartbeat, heartbeat.replace, hx]
  | some prev =>
    by_cases hv : info.resourceVersion ≤ prev.info.resourceVersion
    · left
      exact ⟨prev, hx, hv, by simp [heartbeat, hx, hv]⟩
    · right
      -- a newer report differs from the stored one in its version at least
      have hne : prev.info ≠ info := by
        rintro rfl
        exact hv (UInt64.le_refl _)
      refine ⟨?_, by simp [heartbeat, heartbeat.replace, hx, hv, hne]⟩
      intro p hp
      obtain rfl := Option.some.inj (hx.symm.trans hp)
      exact UInt64.not_le.mp hv

theorem get_heartbeat (m : PeerManager) (x y : PeerId) (info : HostInfo) (addr : SocketAddr)
    (network : NetworkId) :
    (m.heartbeat x info addr network).get y =
      if y = x then some (merge (m.get x) ⟨addr, info, network⟩) else m.get y := by
  rcases heartbeat_cases m x info addr network with ⟨prev, hx, hv, heq⟩ | ⟨hv, heq⟩
  · rw [heq, hx]
    simp [get, insertAddr, insertPeer, TtlCache.get_insert, merge, hv]
  · have hmerge : merge (m.get x) ⟨addr, info, network⟩ = ⟨addr, info, network⟩ := by
      cases hx : m.get x with
      | none => rfl
      | some prev => exact if_neg (UInt64.not_le.mpr (hv prev hx))
    rw [heq, hmerge]
    simp [get, insertAddr, insertPeer, TtlCache.get_insert]

theorem holds_heartbeat {m : PeerManager} {x y : PeerId} {info : HostInfo} {addr : SocketAddr}
    {network : NetworkId} :
    (m.heartbeat x info addr network).peers.Holds y ↔ y = x ∨ m.peers.Holds y := by
  rcases heartbeat_cases m x info addr network with ⟨prev, -, -, heq⟩ | ⟨-, heq⟩ <;>
  · rw [heq]
    exact TtlCache.holds_insert

/-- A heartbeat that leaves no permit behind found the peer alive and at least as new. -/
theorem stored_of_trigger_heartbeat {m : PeerManager} {x : PeerId} {info : HostInfo}
    {addr : SocketAddr} {network : NetworkId}
    (h : (m.heartbeat x info addr network).trigger = false) :
    m.trigger = false ∧ ∃ prev, m.get x = some prev ∧
      info.resourceVersion ≤ prev.info.resourceVersion := by
  rcases heartbeat_cases m x info addr network with ⟨prev, hx, hv, heq⟩ | ⟨-, heq⟩
  · rw [heq] at h
    exact ⟨h, prev, hx, hv⟩
  · rw [heq] at h
    cases h

/-! ## A rule for everything the table has ever been given

A property of entries that holds of all that is reported holds of every entry in the
table, alive or expired, and of every queued `Gone`: the table invents nothing. -/

/-- `Φ` holds of every stored entry and of every queued `Gone`. -/
structure Entries (Φ : PeerId → PeerEntry → Prop) (m : PeerManager) : Prop where
  stored : ∀ x e, m.peers.Stored x e → Φ x e
  gone : ∀ g ∈ m.gone, ∃ addr, Φ g.peerId ⟨addr, g.info, g.network⟩

theorem mem_evictionListener {removal : Option (Removal PeerId PeerEntry)} {g : Gone}
    (h : g ∈ evictionListener removal) :
    ∃ r, removal = some r ∧ g = ⟨r.key, r.value.info, r.value.network⟩ := by
  unfold evictionListener at h
  split at h
  · exact ⟨_, rfl, List.mem_singleton.mp h⟩
  · exact ⟨_, rfl, List.mem_singleton.mp h⟩
  · cases h

section Rule

variable {Φ : PeerId → PeerEntry → Prop} {m : PeerManager}

theorem entries_new : Entries Φ new where
  stored x e h := absurd h (TtlCache.not_stored_empty x e)
  gone g h := by cases h

theorem Entries.mono {Ψ : PeerId → PeerEntry → Prop} (h : Entries Φ m) (hΦ : ∀ x e, Φ x e → Ψ x e) :
    Entries Ψ m where
  stored x e hx := hΦ x e (h.stored x e hx)
  gone g hg := by
    obtain ⟨addr, hg⟩ := h.gone g hg
    exact ⟨addr, hΦ _ _ hg⟩

theorem Entries.get (h : Entries Φ m) {x : PeerId} {e : PeerEntry} (hx : m.get x = some e) : Φ x e :=
  h.stored x e (TtlCache.Stored.of_get hx)

/-- What the listener sends is about a value that was stored. -/
theorem Entries.listener (h : Entries Φ m) {removal : Option (Removal PeerId PeerEntry)}
    (hr : ∀ r, removal = some r → m.peers.Stored r.key r.value) :
    ∀ g ∈ m.gone ++ evictionListener removal, ∃ addr, Φ g.peerId ⟨addr, g.info, g.network⟩ := by
  intro g hg
  rcases List.mem_append.mp hg with hg | hg
  · exact h.gone g hg
  · obtain ⟨r, hrem, rfl⟩ := mem_evictionListener hg
    exact ⟨r.value.addr, h.stored _ _ (hr r hrem)⟩

theorem Entries.insertPeer (h : Entries Φ m) {x : PeerId} {e : PeerEntry} (he : Φ x e) :
    Entries Φ (m.insertPeer x e) where
  stored y d hy := by
    rcases TtlCache.Stored.of_insert hy with ⟨rfl, rfl⟩ | hy
    · exact he
    · exact h.stored y d hy
  gone := h.listener fun r hr => by
    obtain ⟨hk, hs⟩ := TtlCache.insertRemoval_stored hr
    exact hk ▸ hs

theorem Entries.heartbeat (h : Entries Φ m) {x : PeerId} {info : HostInfo} {addr : SocketAddr}
    {network : NetworkId} (hnew : Φ x ⟨addr, info, network⟩) :
    Entries Φ (m.heartbeat x info addr network) := by
  rcases heartbeat_cases m x info addr network with ⟨prev, hx, -, heq⟩ | ⟨-, heq⟩
  · rw [heq]
    exact ⟨(h.insertPeer (h.get hx)).stored, (h.insertPeer (h.get hx)).gone⟩
  · rw [heq]
    exact ⟨(h.insertPeer hnew).stored, (h.insertPeer hnew).gone⟩

theorem Entries.expire (h : Entries Φ m) (x : PeerId) : Entries Φ (m.expire x) where
  stored y e hy := h.stored y e (TtlCache.Stored.of_expire hy)
  gone := h.gone

theorem Entries.evict (h : Entries Φ m) (x : PeerId) : Entries Φ (m.evict x) where
  stored y e hy := h.stored y e (TtlCache.Stored.of_evict hy)
  gone := h.listener fun r hr => by
    obtain ⟨hk, hs⟩ := TtlCache.evictRemoval_stored hr
    exact hk ▸ hs

theorem Entries.remove (h : Entries Φ m) (x : PeerId) : Entries Φ (m.remove x) where
  stored y e hy := h.stored y e (TtlCache.Stored.of_invalidate hy)
  gone := h.listener fun r hr => by
    obtain ⟨hk, hs⟩ := TtlCache.invalidateRemoval_stored hr
    exact hk ▸ hs

end Rule

/-! ## Resolving a sender -/

/-- The hint is confirmed against the table: whatever `byAddr` says, the peer returned is
alive with exactly this address and network. -/
theorem get_of_peerIdByAddr {m : PeerManager} {addr : SocketAddr} {network : NetworkId} {x : PeerId}
    (h : m.peerIdByAddr addr network = some x) :
    ∃ e, m.get x = some e ∧ e.addr = addr ∧ e.network = network := by
  simp only [peerIdByAddr, Option.bind_eq_bind, Option.bind_eq_some_iff] at h
  obtain ⟨y, -, e, he, hif⟩ := h
  split at hif
  · rename_i hcur
    obtain rfl := Option.some.inj hif
    exact ⟨e, he, hcur⟩
  · cases hif

end PeerManager

end Noeio.Derp
