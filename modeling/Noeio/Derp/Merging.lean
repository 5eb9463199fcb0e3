import Noeio.Derp.PeerManager
import Noeio.Lib.Runs
import Noeio.Lib.VersionedRegister

/-!
# Reports merged by version

The receiver of the derper is one task, so the reports of all peers reach `heartbeat` one after
the other, in any order. As long as no entry expires in between, the table is a register of
the newest version for each peer (`get_reported`): it holds the first of the newest reports of
the peer, whatever the others sent meanwhile.

`notifies` is what a call does to the trigger when no permit is there yet.
-/

namespace Noeio.Derp

open VersionedRegister

/-- The arguments of one call of `heartbeat`. -/
structure Report where
  peerId : PeerId
  info : HostInfo
  addr : SocketAddr
  network : NetworkId

/-- What the table stores of the report. -/
def Report.entry (r : Report) : PeerEntry := ⟨r.addr, r.info, r.network⟩

def Report.version (r : Report) : UInt64 := r.info.resourceVersion

def PeerEntry.version (e : PeerEntry) : UInt64 := e.info.resourceVersion

namespace PeerManager

def receive (self : PeerManager) (r : Report) : PeerManager :=
  self.heartbeat r.peerId r.info r.addr r.network

/-- The table after the reports, oldest first. -/
def reported (reports : List Report) : PeerManager := Runs.run receive new reports

/-- The call leaves a permit where there was none. -/
def notifies (self : PeerManager) (r : Report) : Bool :=
  ({ self with trigger := false }.receive r).trigger

/-- What the peer has reported. -/
def entriesOf (reports : List Report) (x : PeerId) : List PeerEntry :=
  (reports.filter (·.peerId = x)).map Report.entry

theorem entriesOf_concat (reports : List Report) (r : Report) (x : PeerId) :
    entriesOf (reports ++ [r]) x =
      entriesOf reports x ++ if r.peerId = x then [r.entry] else [] := by
  rw [entriesOf, List.filter_append, List.map_append, List.filter_singleton]
  by_cases h : r.peerId = x <;> simp [entriesOf, h]

theorem merge_eq_keep (prev : Option PeerEntry) (new : PeerEntry) :
    merge prev new = keep PeerEntry.version prev new := by
  cases prev <;> rfl

/-- The table holds for each peer what a register of versions holds after its reports. -/
theorem get_reported (reports : List Report) (x : PeerId) :
    (reported reports).get x = writes PeerEntry.version none (entriesOf reports x) := by
  induction reports using List.reverseRecOn with
  | nil => rfl
  | append_singleton reports r ih =>
    rw [reported, Runs.run_concat, receive, get_heartbeat, entriesOf_concat]
    by_cases h : r.peerId = x
    · subst h
      have hget : (Runs.run receive new reports).get r.peerId =
          (entriesOf reports r.peerId).foldl
            (fun cur new => some (keep PeerEntry.version cur new)) none := ih
      rw [if_pos rfl, if_pos rfl, writes, List.foldl_concat, hget, merge_eq_keep]
      rfl
    · rw [if_neg (Ne.symm h), if_neg h, List.append_nil]
      exact ih

/-- A call notifies unless the peer is alive with a version at least as new. -/
theorem notifies_iff {m : PeerManager} {r : Report} :
    m.notifies r = true ↔ ∀ e, m.get r.peerId = some e → e.version < r.version := by
  rcases heartbeat_cases { m with trigger := false } r.peerId r.info r.addr r.network with
    ⟨prev, hget, hle, heq⟩ | ⟨hnewer, heq⟩
  · rw [notifies, receive, heq]
    constructor
    · intro h
      cases h
    · intro h
      exact absurd (h prev hget) (UInt64.not_lt.mpr hle)
  · rw [notifies, receive, heq]
    exact ⟨fun _ => hnewer, fun _ => rfl⟩

/-- A report of a peer is one of the entries that the table chooses from. -/
theorem mem_entriesOf {reports : List Report} {x : PeerId} {e : PeerEntry} :
    e ∈ entriesOf reports x ↔ ∃ r ∈ reports, r.peerId = x ∧ r.entry = e := by
  simp [entriesOf, and_assoc]

theorem notifies_reported_iff (reports : List Report) (r : Report) :
    (reported reports).notifies r = true ↔
      ∀ earlier ∈ reports, earlier.peerId = r.peerId → earlier.version < r.version := by
  rw [notifies_iff, get_reported]
  cases hheld : writes PeerEntry.version none (entriesOf reports r.peerId) with
  | none =>
    have hempty : entriesOf reports r.peerId = [] := (writes_eq_none.mp hheld).2
    refine ⟨fun _ earlier hmem hpeer => ?_, fun _ e he => nomatch he⟩
    have hentry : earlier.entry ∈ entriesOf reports r.peerId :=
      mem_entriesOf.mpr ⟨earlier, hmem, hpeer, rfl⟩
    rw [hempty] at hentry
    cases hentry
  | some held =>
    obtain ⟨hmem, hmax⟩ : Newest PeerEntry.version (entriesOf reports r.peerId) held :=
      newest_writes hheld
    constructor
    · intro h earlier hearlier hpeer
      have hle : earlier.version ≤ held.version :=
        hmax earlier.entry (mem_entriesOf.mpr ⟨earlier, hearlier, hpeer, rfl⟩)
      exact UInt64.lt_of_le_of_lt hle (h held rfl)
    · rintro h e ⟨⟩
      obtain ⟨earlier, hearlier, hpeer, rfl⟩ := mem_entriesOf.mp hmem
      exact h earlier hearlier hpeer

/-- More reports never bring an older version into the table. -/
theorem version_reported_append (reports more : List Report) {x : PeerId} {e : PeerEntry}
    (h : (reported reports).get x = some e) :
    ∃ e', (reported (reports ++ more)).get x = some e' ∧ e.version ≤ e'.version := by
  rw [get_reported] at h ⊢
  have hmem : e ∈ entriesOf (reports ++ more) x := by
    rw [entriesOf, List.filter_append, List.map_append]
    exact List.mem_append_left _ (newest_writes h).1
  cases hheld : writes PeerEntry.version none (entriesOf (reports ++ more) x) with
  | none =>
    rw [(writes_eq_none.mp hheld).2] at hmem
    cases hmem
  | some e' => exact ⟨e', rfl, (newest_writes hheld).2 e hmem⟩

/-- Reports of any number of peers, received in any order without an expiry in between. The entry
of a peer is the first of its reports with its highest version; the version in the table never
goes back; a report notifies the sync task exactly if it is newer than all earlier ones of its
peer, in particular if it is the first; and where the versions of each peer are distinct, every
order of arrival ends with the same table. -/
theorem reports_merge_by_version (reports : List Report) :
    (∀ x, (reported reports).get x =
      (entriesOf reports x).find? fun e => ∀ other ∈ entriesOf reports x,
        other.version ≤ e.version) ∧
    (∀ more x e, (reported reports).get x = some e →
      ∃ e', (reported (reports ++ more)).get x = some e' ∧ e.version ≤ e'.version) ∧
    (∀ r, (reported reports).notifies r = true ↔
      ∀ earlier ∈ reports, earlier.peerId = r.peerId → earlier.version < r.version) ∧
    ((∀ a ∈ reports, ∀ b ∈ reports, a.peerId = b.peerId → a.version = b.version → a = b) →
      ∀ other : List Report, reports.Perm other →
        ∀ x, (reported other).get x = (reported reports).get x) := by
  refine ⟨?_, fun more x e => version_reported_append reports more,
    notifies_reported_iff reports, ?_⟩
  · intro x
    rw [get_reported, writes_eq_find?]
  · intro hdistinct other hperm x
    rw [get_reported, get_reported]
    symm
    apply writes_eq_of_mem_iff
    · intro a ha b hb hversion
      obtain ⟨r, hr, hrx, rfl⟩ := mem_entriesOf.mp ha
      obtain ⟨r', hr', hrx', rfl⟩ := mem_entriesOf.mp hb
      rw [hdistinct r hr r' hr' (hrx.trans hrx'.symm) hversion]
    · intro e
      rw [mem_entriesOf, mem_entriesOf]
      simp only [hperm.mem_iff]

end PeerManager

end Noeio.Derp
