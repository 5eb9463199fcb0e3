import Mathlib.Data.List.Destutter
import Noeio.Daemon.Peer
import Noeio.Lib.IndexedStore
import Noeio.Lib.Runs
import Noeio.Lib.SortedTable

/-!
# The routing table of a node

`noeio/src/daemon/router.rs`. Peers are stored under their virtual IP, `byPeerId` is an
index from a peer id to that IP, and `subnets` lists the accepted subnet routes with the id
of the exit, longest prefix first.

The first two tables together are an `IndexedStore` (`store`), and `insert` and `updateInfo`
are its `put` (`store_insert`, `store_updateInfo`). So the index never resolves an id to a
peer of another id (`sound_run`), whatever ids and addresses are inserted.

The concurrent maps iterate in no particular order; here they iterate in the order of the
underlying list. Nothing below depends on it: `setSubnets` sorts what it is given.
-/

namespace Noeio

structure Router where
  peers : AList (fun _ : IpAddr => Peer)
  byPeerId : AList (fun _ : PeerId => IpAddr)
  subnets : List (Ipv4Cidr × PeerId)

namespace Router

def new : Router := ⟨∅, ∅, []⟩

def insert (self : Router) (peer : Peer) : Router :=
  let info := peer.info
  let byPeerId := match self.peers.lookup info.noeioIp with
    | some old =>
      if old.info.peerId ≠ info.peerId then self.byPeerId.erase old.info.peerId else self.byPeerId
    | none => self.byPeerId
  { self with
    peers := self.peers.insert info.noeioIp peer
    byPeerId := byPeerId.insert info.peerId info.noeioIp }

/-- `peer` is the shared object stored under `info.noeioIp`, so its update in place is a
write to that entry. -/
def updateInfo (self : Router) (peer : Peer) (info : PeerInfo) (localPeerId : PeerId) : Router :=
  let oldPeerId := peer.info.peerId
  let byPeerId :=
    if oldPeerId ≠ info.peerId then self.byPeerId.erase oldPeerId else self.byPeerId
  { self with
    peers := self.peers.insert info.noeioIp (peer.updateInfo info localPeerId)
    byPeerId := byPeerId.insert info.peerId info.noeioIp }

def get (self : Router) (ip : IpAddr) : Option Peer := self.peers.lookup ip

def getByPeerId (self : Router) (peerId : PeerId) : Option Peer := do
  let ip ← self.byPeerId.lookup peerId
  self.get ip

/-- An exact host route if there is one, else the longest accepted prefix. -/
def lookup (self : Router) (ip : IpAddr) : Option Peer :=
  match self.get ip with
  | some peer => some peer
  | none =>
    match ip with
    | .v4 v4 => do
      let (_, peerId) ← self.subnets.find? (·.1.containsAddr v4)
      self.getByPeerId peerId
    | .v6 _ => none

/-- The order of the subnet table: prefix length descending, then address, then peer id. -/
def precedes (a b : Ipv4Cidr × PeerId) : Bool :=
  if a.1.prefixLen ≠ b.1.prefixLen then b.1.prefixLen < a.1.prefixLen
  else if a.1.address ≠ b.1.address then a.1.address < b.1.address
  else a.2 ≤ b.2

def setSubnets (self : Router) (entries : List (Ipv4Cidr × PeerId)) : Router :=
  { self with subnets := (entries.mergeSort precedes).destutter (· ≠ ·) }

def allowedSource (info : PeerInfo) (src : IpAddr) : Bool :=
  if src = info.noeioIp then true
  else
    match src with
    | .v4 v4 => info.advertisedRoutes.any (·.containsAddr v4)
    | .v6 _ => false

def remove (self : Router) (ip : IpAddr) : Option Peer × Router :=
  match self.peers.lookup ip with
  | none => (none, self)
  | some peer =>
    let peerId := peer.info.peerId
    (some peer,
      { peers := self.peers.erase ip
        byPeerId := self.byPeerId.erase peerId
        subnets := self.subnets.filter fun (_, exit) => exit ≠ peerId })

def removeByPeerId (self : Router) (peerId : PeerId) : Option Peer × Router :=
  match self.byPeerId.lookup peerId with
  | none => (none, self)
  | some ip => self.remove ip

/-- All known peers: the method `peers` of the source. -/
def listPeers (self : Router) : List Peer := self.peers.entries.map (·.2)

theorem mem_listPeers {r : Router} {p : Peer} : p ∈ r.listPeers ↔ ∃ ip, r.get ip = some p := by
  simp only [listPeers, List.mem_map, get, ← Option.mem_def, AList.mem_lookup_iff]
  constructor
  · rintro ⟨⟨ip, q⟩, hmem, rfl⟩
    exact ⟨ip, hmem⟩
  · rintro ⟨ip, hmem⟩
    exact ⟨⟨ip, p⟩, hmem, rfl⟩

/-! ## What a lookup finds -/

theorem lookup_of_get {r : Router} {ip : IpAddr} {p : Peer} (h : r.get ip = some p) :
    r.lookup ip = some p := by
  unfold lookup
  rw [h]

theorem lookup_v6 {r : Router} {a : BitVec 128} (h : r.get (.v6 a) = none) :
    r.lookup (.v6 a) = none := by
  unfold lookup
  rw [h]

theorem lookup_v4 {r : Router} {a : Ipv4Addr} {p : Peer} (h : r.lookup (.v4 a) = some p) :
    r.get (.v4 a) = some p ∨ ∃ cidr exit, (cidr, exit) ∈ r.subnets ∧ cidr.containsAddr a = true ∧
      r.getByPeerId exit = some p := by
  unfold lookup at h
  split at h
  · rename_i q hq
    exact Or.inl (hq.trans h)
  · right
    obtain ⟨⟨cidr, exit⟩, hfind, hget⟩ := Option.bind_eq_some_iff.mp h
    have ha := List.find?_some hfind
    exact ⟨cidr, exit, List.mem_of_find?_eq_some hfind, ha, hget⟩

/-- What is found is stored. -/
theorem get_of_lookup {r : Router} {ip : IpAddr} {p : Peer} (h : r.lookup ip = some p) :
    ∃ ip', r.get ip' = some p := by
  cases ip with
  | v4 a =>
    rcases lookup_v4 h with hget | ⟨cidr, exit, -, -, hget⟩
    · exact ⟨.v4 a, hget⟩
    · obtain ⟨ip', -, hget⟩ := Option.bind_eq_some_iff.mp hget
      exact ⟨ip', hget⟩
  | v6 a =>
    cases hget : r.get (.v6 a) with
    | some host => exact ⟨.v6 a, hget.trans ((lookup_of_get hget).symm.trans h)⟩
    | none => cases (lookup_v6 hget).symm.trans h

/-! ## The subnet table -/

theorem precedes_iff {a b : Ipv4Cidr × PeerId} :
    precedes a b = true ↔ b.1.prefixLen < a.1.prefixLen ∨ (a.1.prefixLen = b.1.prefixLen ∧
      (a.1.address.toNat < b.1.address.toNat ∨
        (a.1.address.toNat = b.1.address.toNat ∧ a.2.toNat ≤ b.2.toNat))) := by
  unfold precedes
  split
  · rename_i hp
    simp only [ne_eq] at hp
    simp [hp]
  · rename_i hp
    simp only [ne_eq, not_not] at hp
    split
    · rename_i ha
      simp only [ne_eq, BitVec.toNat_eq] at ha
      simp [hp, ha, BitVec.lt_def]
    · rename_i ha
      simp only [ne_eq, not_not] at ha
      simp [hp, ha, UInt32.le_iff_toNat_le]

theorem precedes_trans {a b c : Ipv4Cidr × PeerId} (hab : precedes a b = true)
    (hbc : precedes b c = true) : precedes a c = true := by
  rw [precedes_iff] at *
  omega

theorem precedes_total (a b : Ipv4Cidr × PeerId) : precedes a b || precedes b a := by
  rw [Bool.or_eq_true, precedes_iff, precedes_iff]
  omega

theorem precedes_antisymm {a b : Ipv4Cidr × PeerId} (hab : precedes a b = true)
    (hba : precedes b a = true) : a = b := by
  rw [precedes_iff] at *
  obtain ⟨⟨aa, ap, ha⟩, ai⟩ := a
  obtain ⟨⟨ba, bp, hb⟩, bi⟩ := b
  simp only at hab hba
  have hp : ap = bp := by omega
  have haddr : aa = ba := BitVec.toNat_eq.mpr (by omega)
  have hid : ai = bi := UInt32.toNat_inj.mp (by omega)
  subst hp haddr hid
  rfl

theorem isOrder_precedes : SortedTable.IsOrder precedes :=
  ⟨precedes_trans, precedes_total, precedes_antisymm⟩

theorem subnets_setSubnets (r : Router) (entries : List (Ipv4Cidr × PeerId)) :
    (r.setSubnets entries).subnets = SortedTable.ofList precedes entries := by
  have hsorted : (entries.mergeSort precedes).Pairwise (fun a b => precedes a b = true) :=
    SortedTable.pairwise_mergeSort isOrder_precedes entries
  have : Std.Antisymm fun a b : Ipv4Cidr × PeerId => precedes a b = true :=
    ⟨fun _ _ => precedes_antisymm⟩
  exact hsorted.destutter_eq_dedup

theorem mem_setSubnets {r : Router} {entries : List (Ipv4Cidr × PeerId)} {e : Ipv4Cidr × PeerId} :
    e ∈ (r.setSubnets entries).subnets ↔ e ∈ entries := by
  rw [subnets_setSubnets, SortedTable.mem_ofList]

/-- What is stored depends on the set of the entries only. -/
theorem setSubnets_congr (r : Router) {entries entries' : List (Ipv4Cidr × PeerId)}
    (h : ∀ e, e ∈ entries ↔ e ∈ entries') : r.setSubnets entries = r.setSubnets entries' := by
  have hsubnets : (r.setSubnets entries).subnets = (r.setSubnets entries').subnets := by
    rw [subnets_setSubnets, subnets_setSubnets]
    exact SortedTable.ofList_congr isOrder_precedes h
  exact congrArg (Router.mk r.peers r.byPeerId) hsubnets

/-! ## The two maps as an indexed store -/

/-- The identity of a stored peer. -/
def peerIdOf (p : Peer) : PeerId := p.info.peerId

def store (self : Router) : IndexedStore IpAddr PeerId Peer := ⟨self.peers, self.byPeerId⟩

@[simp] theorem get_store (r : Router) (ip : IpAddr) : r.store.get ip = r.get ip := rfl

@[simp] theorem getById_store (r : Router) (x : PeerId) : r.store.getById x = r.getByPeerId x := rfl

@[simp] theorem index_store (r : Router) (x : PeerId) :
    r.store.index.lookup x = r.byPeerId.lookup x := rfl

@[simp] theorem store_new : new.store = .empty := rfl

theorem store_insert (r : Router) (p : Peer) :
    (r.insert p).store = r.store.put peerIdOf p.info.noeioIp p := by
  simp only [store, insert, IndexedStore.put, IndexedStore.get, peerIdOf]
  cases r.peers.lookup p.info.noeioIp <;> rfl

theorem store_updateInfo {r : Router} {p : Peer} {info : PeerInfo} {localPeerId : PeerId}
    (h : r.get info.noeioIp = some p) :
    (r.updateInfo p info localPeerId).store =
      r.store.put peerIdOf info.noeioIp (p.updateInfo info localPeerId) := by
  simp only [store, updateInfo, IndexedStore.put, IndexedStore.get, peerIdOf, Peer.info_updateInfo]
  rw [show r.peers.lookup info.noeioIp = some p from h]

theorem store_remove (r : Router) (ip : IpAddr) :
    (r.remove ip).2.store = r.store.remove peerIdOf ip := by
  unfold remove IndexedStore.remove
  rw [get_store, get]
  cases r.peers.lookup ip <;> rfl

theorem store_removeByPeerId (r : Router) (x : PeerId) :
    (r.removeByPeerId x).2.store = r.store.removeById peerIdOf x := by
  unfold removeByPeerId IndexedStore.removeById
  rw [index_store]
  cases r.byPeerId.lookup x with
  | none => rfl
  | some ip => exact store_remove r ip

/-! ## Any sequence of operations -/

/-- An operation of the table. `updateInfo` is applied to the peer that `get` returns for
the new virtual IP, as its callers do. -/
inductive Op where
  | insert (peer : Peer)
  | updateInfo (info : PeerInfo) (localPeerId : PeerId)
  | remove (ip : IpAddr)
  | removeByPeerId (peerId : PeerId)
  | setSubnets (entries : List (Ipv4Cidr × PeerId))

def apply (self : Router) : Op → Router
  | .insert peer => self.insert peer
  | .updateInfo info localPeerId =>
    match self.get info.noeioIp with
    | some peer => self.updateInfo peer info localPeerId
    | none => self
  | .remove ip => (self.remove ip).2
  | .removeByPeerId peerId => (self.removeByPeerId peerId).2
  | .setSubnets entries => self.setSubnets entries

def run (ops : List Op) : Router := Runs.run apply new ops

/-- The index answers right, and every peer is stored under its own address. -/
structure WellIndexed (r : Router) : Prop where
  sound : r.store.Sound peerIdOf
  atIp : r.store.All fun ip p => p.info.noeioIp = ip

theorem wellIndexed_new : WellIndexed new where
  sound := IndexedStore.sound_empty
  atIp ip p h := by simp at h

theorem WellIndexed.insert {r : Router} (h : WellIndexed r) (p : Peer) :
    WellIndexed (r.insert p) where
  sound := by
    rw [store_insert]
    exact h.sound.put _ _
  atIp := by
    rw [store_insert]
    exact h.atIp.put rfl

theorem WellIndexed.updateInfo {r : Router} (h : WellIndexed r) {p : Peer} {info : PeerInfo}
    (hp : r.get info.noeioIp = some p) (localPeerId : PeerId) :
    WellIndexed (r.updateInfo p info localPeerId) where
  sound := by
    rw [store_updateInfo hp]
    exact h.sound.put _ _
  atIp := by
    rw [store_updateInfo hp]
    exact h.atIp.put (by rw [Peer.info_updateInfo])

theorem WellIndexed.remove {r : Router} (h : WellIndexed r) (ip : IpAddr) :
    WellIndexed (r.remove ip).2 where
  sound := by
    rw [store_remove]
    exact h.sound.remove ip
  atIp := by
    rw [store_remove]
    exact h.atIp.remove ip

theorem WellIndexed.removeByPeerId {r : Router} (h : WellIndexed r) (x : PeerId) :
    WellIndexed (r.removeByPeerId x).2 where
  sound := by
    rw [store_removeByPeerId]
    exact h.sound.removeById x
  atIp := by
    rw [store_removeByPeerId]
    exact h.atIp.removeById x

theorem WellIndexed.apply {r : Router} (h : WellIndexed r) (op : Op) : WellIndexed (r.apply op) := by
  cases op with
  | insert peer => exact h.insert peer
  | updateInfo info localPeerId =>
    simp only [Router.apply]
    split
    · rename_i peer hp
      exact h.updateInfo hp localPeerId
    · exact h
  | remove ip => exact h.remove ip
  | removeByPeerId x => exact h.removeByPeerId x
  | setSubnets entries => exact ⟨h.sound, h.atIp⟩

theorem wellIndexed_run (ops : List Op) : WellIndexed (run ops) :=
  Runs.invariant_of_step (P := fun _ => WellIndexed) wellIndexed_new
    (fun _ _ op h => h.apply op) ops

/-- In a well-indexed table, an id resolves only to a peer that has this id now and is
stored under its own address. -/
theorem WellIndexed.getByPeerId {r : Router} (h : WellIndexed r) {x : PeerId} {p : Peer}
    (hp : r.getByPeerId x = some p) : p.info.peerId = x ∧ r.get p.info.noeioIp = some p := by
  obtain ⟨hid, ip, -, hget⟩ := h.sound.idOf_getById hp
  refine ⟨hid, ?_⟩
  rw [h.atIp ip p hget]
  exact hget

end Router

end Noeio
