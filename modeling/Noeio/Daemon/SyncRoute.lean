import Noeio.Daemon.Router
import Noeio.Lib.VersionedRegister

/-!
# Folding route pushes into the router

`NoeioDaemon::apply_sync_route` of `noeio/src/daemon.rs`; it touches nothing but the router,
so it is a function on routers here. A tombstone removes whatever the index has for its peer
id. A live push is inserted, skipped as stale, or replaces the stored identity in place.

For the live pushes the router is one versioned register for each virtual IP
(`seen_receive`): what is stored under an IP is the newest push for that IP, whatever
the order (`seen_applyAll`). The index follows as long as no peer id comes with two IPs
(`Synced.exact`). `live_merge` puts the two together.
-/

namespace Noeio

/-- The contents of a `SyncRoute` packet: a broadcast peer, and our own id in its network from
the header. -/
structure SyncRoute where
  peer : PeerInfo
  localPeerId : PeerId
  deriving DecidableEq

namespace Router

open VersionedRegister

/-- The router after one push, and whether it changed. -/
def applySyncRoute (self : Router) (peer : PeerInfo) (localPeerId : PeerId) : Router × Bool :=
  if peer.withdrawn then
    match self.removeByPeerId peer.peerId with
    | (some _, self) => (self, true)
    | (none, self) => (self, false)
  else
    match self.get peer.noeioIp with
    | some existing =>
      if existing.info.resourceVersion < peer.resourceVersion then
        (self.updateInfo existing peer localPeerId, true)
      else (self, false)
    | none => (self.insert (Peer.new peer localPeerId), true)

/-- The router after one message. -/
def receive (self : Router) (m : SyncRoute) : Router :=
  (self.applySyncRoute m.peer m.localPeerId).1

def applyAll (self : Router) (ms : List SyncRoute) : Router := Runs.run receive self ms

/-! ## What one push does -/

theorem receive_withdrawn (r : Router) {m : SyncRoute} (h : m.peer.withdrawn = true) :
    r.receive m = (r.removeByPeerId m.peer.peerId).2 := by
  unfold receive applySyncRoute
  rw [if_pos h]
  split <;> rename_i heq <;> rw [heq]

/-- A live push is stale and skipped, or a peer with its contents is put under its IP. -/
theorem applySyncRoute_live (r : Router) {m : SyncRoute} (h : m.peer.withdrawn = false) :
    (∃ p, r.get m.peer.noeioIp = some p ∧ m.peer.resourceVersion ≤ p.info.resourceVersion ∧
      r.applySyncRoute m.peer m.localPeerId = (r, false)) ∨
    ∃ p, (∀ q, r.get m.peer.noeioIp = some q → q.info.resourceVersion < m.peer.resourceVersion) ∧
      p.info = m.peer ∧ p.localPeerId = m.localPeerId ∧
      ((∀ q, r.get m.peer.noeioIp = some q → q.Keyed) → p.Keyed) ∧
      (r.receive m).store = r.store.put peerIdOf m.peer.noeioIp p := by
  have hnw : ¬ m.peer.withdrawn = true := by simp [h]
  unfold receive applySyncRoute
  rw [if_neg hnw]
  cases hg : r.get m.peer.noeioIp with
  | none =>
    right
    refine ⟨Peer.new m.peer m.localPeerId, ?_, Peer.info_new _ _, Peer.localPeerId_new _ _,
      fun _ => Peer.keyed_new _ _, ?_⟩
    · intro q hq
      cases hq
    · simp only [store_insert, Peer.info_new]
  | some q =>
    by_cases hv : q.info.resourceVersion < m.peer.resourceVersion
    · right
      refine ⟨q.updateInfo m.peer m.localPeerId, ?_, Peer.info_updateInfo _ _ _,
        Peer.localPeerId_updateInfo _ _ _, fun hk => (hk q rfl).updateInfo _ _, ?_⟩
      · intro q' hq'
        obtain rfl := Option.some.inj hq'
        exact hv
      · simp only [if_pos hv]
        exact store_updateInfo hg
    · left
      exact ⟨q, rfl, UInt64.not_lt.mp hv, by simp only [if_neg hv]⟩

/-! ## One register for each virtual IP -/

/-- What a peer was last set to. -/
def seen (p : Peer) : SyncRoute := ⟨p.info, p.localPeerId⟩

def version (m : SyncRoute) : UInt64 := m.peer.resourceVersion

theorem seen_receive (r : Router) {m : SyncRoute} (h : m.peer.withdrawn = false) (ip : IpAddr) :
    ((r.receive m).get ip).map seen =
      if m.peer.noeioIp = ip then some (keep version ((r.get ip).map seen) m)
      else (r.get ip).map seen := by
  rcases applySyncRoute_live r h with ⟨p, hp, hv, heq⟩ | ⟨p, hv, hinfo, hlocal, -, hstore⟩
  · rw [receive, heq]
    split
    · rename_i hip
      have hle : version m ≤ version (seen p) := hv
      rw [← hip, hp, Option.map_some, keep, if_pos hle]
    · rfl
  · have hseen : seen p = m := by rw [seen, hinfo, hlocal]
    rw [← get_store, hstore, IndexedStore.get_put, get_store]
    by_cases hip : m.peer.noeioIp = ip
    · subst hip
      rw [if_pos rfl, if_pos rfl, Option.map_some, hseen]
      cases hq : r.get m.peer.noeioIp with
      | none => rfl
      | some q =>
        have hlt : ¬ version m ≤ version (seen q) := UInt64.not_le.mpr (hv q hq)
        rw [Option.map_some, keep, if_neg hlt]
    · rw [if_neg fun heq => hip heq.symm, if_neg hip]

def pushesFor (ms : List SyncRoute) (ip : IpAddr) : List SyncRoute :=
  ms.filter (·.peer.noeioIp = ip)

theorem mem_pushesFor {ms : List SyncRoute} {ip : IpAddr} {m : SyncRoute} :
    m ∈ pushesFor ms ip ↔ m ∈ ms ∧ m.peer.noeioIp = ip := by
  simp [pushesFor]

theorem seen_applyAll (r : Router) {ms : List SyncRoute} (h : ∀ m ∈ ms, m.peer.withdrawn = false)
    (ip : IpAddr) :
    ((r.applyAll ms).get ip).map seen = writes version ((r.get ip).map seen) (pushesFor ms ip) := by
  induction ms generalizing r with
  | nil => rfl
  | cons m ms ih =>
    have hm := seen_receive r (h m List.mem_cons_self) ip
    refine (ih _ fun m' hm' => h m' (List.mem_cons_of_mem _ hm')).trans ?_
    rw [hm]
    by_cases hip : m.peer.noeioIp = ip
    · rw [if_pos hip, pushesFor, pushesFor, List.filter_cons_of_pos (by simpa using hip)]
      rfl
    · rw [if_neg hip, pushesFor, pushesFor, List.filter_cons_of_neg (by simpa using hip)]

/-- What is stored under an IP is the newest of what was there and the pushes for that IP. -/
theorem newest_applyAll {r : Router} {ms : List SyncRoute} (h : ∀ m ∈ ms, m.peer.withdrawn = false)
    {ip : IpAddr} {p : Peer} (hp : (r.applyAll ms).get ip = some p) :
    Newest version (((r.get ip).map seen).toList ++ pushesFor ms ip) (seen p) := by
  have hseen := seen_applyAll r h ip
  rw [hp] at hseen
  exact newest_writes hseen.symm

/-- After a push for it, an IP holds something at least as new. -/
theorem exists_get_of_mem {r : Router} {ms : List SyncRoute}
    (h : ∀ m ∈ ms, m.peer.withdrawn = false) {m : SyncRoute} (hm : m ∈ ms) :
    ∃ p, (r.applyAll ms).get m.peer.noeioIp = some p ∧ version m ≤ version (seen p) := by
  have hm' : m ∈ pushesFor ms m.peer.noeioIp := mem_pushesFor.mpr ⟨hm, rfl⟩
  cases hp : (r.applyAll ms).get m.peer.noeioIp with
  | none =>
    have hseen := seen_applyAll r h m.peer.noeioIp
    rw [hp] at hseen
    rw [(writes_eq_none.mp hseen.symm).2] at hm'
    cases hm'
  | some p => exact ⟨p, rfl, (newest_applyAll h hp).2 m (List.mem_append_right _ hm')⟩

/-! ## What any sequence of pushes keeps -/

/-- No peer id is seen with two virtual IPs. -/
def OneIpPerId (ms : List SyncRoute) : Prop :=
  ∀ a ∈ ms, ∀ b ∈ ms, a.peer.peerId = b.peer.peerId → a.peer.noeioIp = b.peer.noeioIp

/-- The router is the work of the pushes `ms`, live or not. -/
structure Synced (ms : List SyncRoute) (r : Router) : Prop where
  wellIndexed : r.WellIndexed
  keyed : r.store.All fun _ p => p.Keyed
  heard : r.store.All fun _ p => seen p ∈ ms ∧ p.info.withdrawn = false
  exact : OneIpPerId ms → r.store.Exact peerIdOf

theorem synced_new : Synced [] new where
  wellIndexed := wellIndexed_new
  keyed ip p h := by simp at h
  heard ip p h := by simp at h
  exact _ := IndexedStore.exact_empty

/-- Everything is a fact about the two maps. -/
theorem Synced.of_store {ms : List SyncRoute} {r r' : Router} (h : Synced ms r)
    (hr : r'.store = r.store) : Synced ms r' where
  wellIndexed := ⟨hr ▸ h.wellIndexed.sound, hr ▸ h.wellIndexed.atIp⟩
  keyed := hr ▸ h.keyed
  heard := hr ▸ h.heard
  exact hone := hr ▸ h.exact hone

theorem Synced.mono {ms : List SyncRoute} {r : Router} (h : Synced ms r) (m : SyncRoute)
    (hexact : OneIpPerId (ms ++ [m]) → r.store.Exact peerIdOf) : Synced (ms ++ [m]) r where
  wellIndexed := h.wellIndexed
  keyed := h.keyed
  heard ip p hp := ⟨List.mem_append_left _ (h.heard ip p hp).1, (h.heard ip p hp).2⟩
  exact := hexact

theorem OneIpPerId.of_concat {ms : List SyncRoute} {m : SyncRoute} (h : OneIpPerId (ms ++ [m])) :
    OneIpPerId ms :=
  fun a ha b hb => h a (List.mem_append_left _ ha) b (List.mem_append_left _ hb)

theorem Synced.removeByPeerId {ms : List SyncRoute} {r : Router} (h : Synced ms r) (x : PeerId) :
    Synced ms (r.removeByPeerId x).2 where
  wellIndexed := h.wellIndexed.removeByPeerId x
  keyed := by
    rw [store_removeByPeerId]
    exact h.keyed.removeById x
  heard := by
    rw [store_removeByPeerId]
    exact h.heard.removeById x
  exact hone := by
    rw [store_removeByPeerId]
    exact (h.exact hone).removeById x

/-- A put for the push `m`. The index stays exact because the only IP the new id can be
stored under is the one of `m`. -/
theorem Synced.put {ms : List SyncRoute} {r r' : Router} (h : Synced ms r) {m : SyncRoute}
    (hlive : m.peer.withdrawn = false) {p : Peer} (hinfo : p.info = m.peer)
    (hlocal : p.localPeerId = m.localPeerId) (hkeyed : p.Keyed)
    (hstore : r'.store = r.store.put peerIdOf m.peer.noeioIp p) : Synced (ms ++ [m]) r' where
  wellIndexed := by
    refine ⟨?_, ?_⟩
    · rw [hstore]
      exact h.wellIndexed.sound.put _ _
    · rw [hstore]
      exact h.wellIndexed.atIp.put (by rw [hinfo])
  keyed := by
    rw [hstore]
    exact h.keyed.put hkeyed
  heard := by
    rw [hstore]
    refine (h.mono m fun hone => h.exact hone.of_concat).heard.put ⟨?_, hinfo ▸ hlive⟩
    rw [seen, hinfo, hlocal]
    exact List.mem_append_right _ List.mem_cons_self
  exact hone := by
    rw [hstore]
    refine (h.exact hone.of_concat).put ?_
    intro ip q hq hid
    have hid' : q.info.peerId = m.peer.peerId := by simpa only [peerIdOf, hinfo] using hid
    rw [← h.wellIndexed.atIp ip q hq]
    exact hone _ (List.mem_append_left _ (h.heard ip q hq).1) m
      (List.mem_append_right _ List.mem_cons_self) hid'

theorem Synced.receive {ms : List SyncRoute} {r : Router} (h : Synced ms r) (m : SyncRoute) :
    Synced (ms ++ [m]) (r.receive m) := by
  cases hw : m.peer.withdrawn with
  | true =>
    rw [receive_withdrawn r hw]
    exact (h.removeByPeerId _).mono m fun hone => (h.removeByPeerId _).exact hone.of_concat
  | false =>
    rcases applySyncRoute_live r hw with ⟨p, -, -, heq⟩ | ⟨p, -, hinfo, hlocal, hkeyed, hstore⟩
    · rw [Router.receive, heq]
      exact h.mono m fun hone => h.exact hone.of_concat
    · exact h.put hw hinfo hlocal (hkeyed fun q hq => h.keyed _ q hq) hstore

theorem synced_applyAll (ms : List SyncRoute) : Synced ms (new.applyAll ms) :=
  Runs.invariant_of_step (P := Synced) synced_new (fun _ _ m h => h.receive m) ms

/-! ## Rules for any router

The same step by step, for a router that is not known to be the work of certain pushes. -/

theorem WellIndexed.receive {r : Router} (h : WellIndexed r) (m : SyncRoute) :
    WellIndexed (r.receive m) := by
  cases hw : m.peer.withdrawn with
  | true =>
    rw [receive_withdrawn r hw]
    exact h.removeByPeerId _
  | false =>
    rcases applySyncRoute_live r hw with ⟨p, -, -, heq⟩ | ⟨p, -, hinfo, -, -, hstore⟩
    · rw [Router.receive, heq]
      exact h
    · refine ⟨?_, ?_⟩
      · rw [hstore]
        exact h.sound.put _ _
      · rw [hstore]
        exact h.atIp.put (by rw [hinfo])

theorem WellIndexed.applyAll {r : Router} (h : WellIndexed r) (ms : List SyncRoute) :
    WellIndexed (r.applyAll ms) :=
  Runs.invariant_of_step (P := fun _ => WellIndexed) h (fun _ _ m hr => hr.receive m) ms

/-- What holds of the identity of every stored peer and of every live push holds of every
stored peer afterwards. -/
theorem all_applyAll {Ψ : PeerInfo → Prop} {r : Router} {ms : List SyncRoute}
    (h : r.store.All fun _ p => Ψ p.info)
    (hms : ∀ m ∈ ms, m.peer.withdrawn = false → Ψ m.peer) :
    (r.applyAll ms).store.All fun _ p => Ψ p.info := by
  induction ms generalizing r with
  | nil => exact h
  | cons m ms ih =>
    refine ih ?_ fun m' hm' => hms m' (List.mem_cons_of_mem _ hm')
    cases hw : m.peer.withdrawn with
    | true =>
      rw [receive_withdrawn r hw, store_removeByPeerId]
      exact h.removeById _
    | false =>
      rcases applySyncRoute_live r hw with ⟨p, -, -, heq⟩ | ⟨p, -, hinfo, -, -, hstore⟩
      · rw [receive, heq]
        exact h
      · rw [hstore]
        exact h.put (hinfo ▸ hms m List.mem_cons_self hw)

/-- Tombstones for other ids leave a stored peer alone. -/
theorem get_applyAll_withdrawn {r : Router} (hr : WellIndexed r) {ms : List SyncRoute} {ip : IpAddr}
    {p : Peer} (hp : r.get ip = some p)
    (hms : ∀ m ∈ ms, m.peer.withdrawn = true ∧ m.peer.peerId ≠ p.info.peerId) :
    (r.applyAll ms).get ip = some p := by
  induction ms generalizing r with
  | nil => exact hp
  | cons m ms ih =>
    obtain ⟨hw, hne⟩ := hms m List.mem_cons_self
    refine ih (hr.receive m) ?_ fun m' hm' => hms m' (List.mem_cons_of_mem _ hm')
    rw [receive_withdrawn r hw, ← get_store, store_removeByPeerId]
    exact hr.sound.get_removeById hp hne.symm

/-! ## Order does not matter for live pushes -/

/-- The routers agree on what they store for each IP and on the index. -/
structure SameRouter (r r' : Router) : Prop where
  stored : ∀ ip, (r.get ip).map seen = (r'.get ip).map seen
  keys : ∀ ip, (r.get ip).map (·.codec.keys) = (r'.get ip).map (·.codec.keys)
  index : ∀ x, r.byPeerId.lookup x = r'.byPeerId.lookup x

/-- Both maps of a keyed router with an exact index are determined by what was last set. -/
theorem sameRouter_of_seen {r r' : Router} (hseen : ∀ ip, (r.get ip).map seen = (r'.get ip).map seen)
    (hkeyed : r.store.All fun _ p => p.Keyed) (hkeyed' : r'.store.All fun _ p => p.Keyed)
    (hexact : r.store.Exact peerIdOf) (hexact' : r'.store.Exact peerIdOf) : SameRouter r r' where
  stored := hseen
  keys ip := by
    have h := hseen ip
    cases hp : r.get ip with
    | none =>
      rw [hp, Option.map_none, eq_comm, Option.map_eq_none_iff] at h
      rw [h]
    | some p =>
      rw [hp, Option.map_some, eq_comm, Option.map_eq_some_iff] at h
      obtain ⟨p', hp', heq⟩ := h
      obtain ⟨hinfo, hlocal⟩ := SyncRoute.mk.inj heq
      rw [hp', Option.map_some, Option.map_some, hkeyed ip p hp, hkeyed' ip p' hp', hinfo, hlocal]
  index x := by
    apply Option.ext
    intro ip
    rw [← index_store, ← index_store, hexact.index_iff, hexact'.index_iff]
    have hmap : ∀ s : Router, (∃ p, s.store.get ip = some p ∧ peerIdOf p = x) ↔
        ∃ m, (s.get ip).map seen = some m ∧ m.peer.peerId = x := by
      intro s
      constructor
      · rintro ⟨p, hp, hid⟩
        exact ⟨seen p, by rw [← get_store, hp]; rfl, hid⟩
      · rintro ⟨m, hm, hid⟩
        obtain ⟨p, hp, rfl⟩ := Option.map_eq_some_iff.mp hm
        exact ⟨p, hp, hid⟩
    rw [hmap, hmap, hseen]

/-- What is stored for an IP is the newest live push for it, if versions tell the pushes for
that IP apart. -/
theorem seen_of_newest {ms : List SyncRoute} (hlive : ∀ m ∈ ms, m.peer.withdrawn = false)
    {m : SyncRoute} (hm : m ∈ ms)
    (hinj : ∀ a ∈ pushesFor ms m.peer.noeioIp, ∀ b ∈ pushesFor ms m.peer.noeioIp,
      version a = version b → a = b)
    (hmax : ∀ m' ∈ ms, m'.peer.noeioIp = m.peer.noeioIp →
      m'.peer.resourceVersion ≤ m.peer.resourceVersion) :
    ∃ p, (new.applyAll ms).get m.peer.noeioIp = some p ∧ seen p = m := by
  obtain ⟨p, hp, -⟩ := exists_get_of_mem (r := new) hlive hm
  have hm' : Newest version (pushesFor ms m.peer.noeioIp) m := by
    refine ⟨mem_pushesFor.mpr ⟨hm, rfl⟩, ?_⟩
    intro b hb
    obtain ⟨hb, hip⟩ := mem_pushesFor.mp hb
    exact hmax b hb hip
  have hp' : Newest version (pushesFor ms m.peer.noeioIp) (seen p) := newest_applyAll hlive hp
  exact ⟨p, hp, hp'.unique hinj hm'⟩

/-- Live pushes merge independently of order: where no peer id comes with two virtual IPs and
no two different pushes for one IP carry the same version, any list `ms'` of the pushes `ms`,
in any order and with any repetition, leaves the same router: under each virtual IP the
newest push for it, with the keys that belong to it, and an index that is the inverse of
the store. Pushing any of them again reports no change and makes none. -/
theorem live_merge (ms ms' : List SyncRoute) (hsame : ∀ m, m ∈ ms' ↔ m ∈ ms)
    (hlive : ∀ m ∈ ms, m.peer.withdrawn = false) (hone : OneIpPerId ms)
    (hver : ∀ a ∈ ms, ∀ b ∈ ms, a.peer.noeioIp = b.peer.noeioIp →
      a.peer.resourceVersion = b.peer.resourceVersion → a = b) :
    SameRouter (new.applyAll ms') (new.applyAll ms) ∧
    (∀ ip, (∀ m ∈ ms, m.peer.noeioIp ≠ ip) → (new.applyAll ms').get ip = none) ∧
    (∀ m ∈ ms, (∀ m' ∈ ms, m'.peer.noeioIp = m.peer.noeioIp →
        m'.peer.resourceVersion ≤ m.peer.resourceVersion) →
      ∃ p, (new.applyAll ms').get m.peer.noeioIp = some p ∧ p.info = m.peer ∧
        p.localPeerId = m.localPeerId ∧
        p.codec.keys = deriveTunnelKeys m.localPeerId m.peer.peerId m.peer.networkId) ∧
    (∀ x ip, (new.applyAll ms').byPeerId.lookup x = some ip ↔
      ∃ p, (new.applyAll ms').get ip = some p ∧ p.info.peerId = x) ∧
    ∀ m ∈ ms, (new.applyAll ms').applySyncRoute m.peer m.localPeerId =
      (new.applyAll ms', false) := by
  have hlive' : ∀ m ∈ ms', m.peer.withdrawn = false := fun m hm => hlive m ((hsame m).mp hm)
  have hone' : OneIpPerId ms' :=
    fun a ha b hb => hone a ((hsame a).mp ha) b ((hsame b).mp hb)
  have hs := synced_applyAll ms
  have hs' := synced_applyAll ms'
  -- the pushes for one IP are told apart by their versions
  have hinj : ∀ ip, ∀ a ∈ pushesFor ms' ip, ∀ b ∈ pushesFor ms' ip, version a = version b → a = b := by
    intro ip a ha b hb hab
    rw [mem_pushesFor, hsame] at ha hb
    exact hver a ha.1 b hb.1 (ha.2.trans hb.2.symm) hab
  refine ⟨?_, ?_, ?_, ?_, ?_⟩
  · refine sameRouter_of_seen (fun ip => ?_) hs'.keyed hs.keyed (hs'.exact hone') (hs.exact hone)
    rw [seen_applyAll new hlive, seen_applyAll new hlive']
    refine writes_eq_of_mem_iff (hinj ip) fun m => ?_
    rw [mem_pushesFor, mem_pushesFor, hsame]
  · intro ip hnone
    cases hp : (new.applyAll ms').get ip with
    | none => rfl
    | some p =>
      obtain ⟨hmem, hip⟩ := mem_pushesFor.mp (newest_applyAll hlive' hp).1
      exact absurd hip (hnone _ ((hsame _).mp hmem))
  · intro m hm hmax
    have hmax' : ∀ m' ∈ ms', m'.peer.noeioIp = m.peer.noeioIp →
        m'.peer.resourceVersion ≤ m.peer.resourceVersion :=
      fun m' hm' => hmax m' ((hsame m').mp hm')
    obtain ⟨p, hp, heq⟩ := seen_of_newest hlive' ((hsame m).mpr hm) (hinj _) hmax'
    have hinfo : p.info = m.peer := congrArg SyncRoute.peer heq
    have hlocal : p.localPeerId = m.localPeerId := congrArg SyncRoute.localPeerId heq
    refine ⟨p, hp, hinfo, hlocal, ?_⟩
    rw [hs'.keyed _ p hp, hinfo, hlocal]
  · intro x ip
    exact (hs'.exact hone').index_iff
  · intro m hm
    obtain ⟨p, hp, hle⟩ := exists_get_of_mem (r := new) hlive' ((hsame m).mpr hm)
    rcases applySyncRoute_live (new.applyAll ms') (hlive m hm) with ⟨_, -, -, heq⟩ | ⟨_, hv, -⟩
    · exact heq
    · exact absurd (hv p hp) (UInt64.not_lt.mpr hle)

namespace Sample

/-- A push about the peer `id` at `10.0.0.lastOctet`. -/
def live (version : UInt64) (id : PeerId) (lastOctet : UInt8) : SyncRoute :=
  ⟨⟨version, id, .v4 (.ofOctets 10 0 0 lastOctet), .replicate 16 1, .other, none, [], [], false⟩, 7⟩

/-- Two pushes about peer 1 and one about peer 2. -/
def sent : List SyncRoute := [live 5 1 1, live 6 1 1, live 5 2 2]

/-- The same pushes as they may arrive. -/
def arrived : List SyncRoute := [live 5 2 2, live 6 1 1, live 5 2 2, live 5 1 1]

theorem live_merge_arrived :
    SameRouter (new.applyAll arrived) (new.applyAll sent) ∧
      ∃ p, (new.applyAll arrived).get (.v4 (.ofOctets 10 0 0 1)) = some p ∧
        p.info = (live 6 1 1).peer := by
  have hsame : ∀ m, m ∈ arrived ↔ m ∈ sent := by
    intro m
    simp only [arrived, sent, List.mem_cons, List.not_mem_nil, or_false]
    tauto
  have hone : OneIpPerId sent := by
    unfold OneIpPerId
    decide
  obtain ⟨hrouter, -, hnewest, -⟩ :=
    live_merge sent arrived hsame (by decide) hone (by decide)
  obtain ⟨p, hp, hinfo, -⟩ := hnewest (live 6 1 1) (by decide) (by decide)
  exact ⟨hrouter, p, hp, hinfo⟩

end Sample

end Router

end Noeio
