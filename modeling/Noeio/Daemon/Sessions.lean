import Noeio.Daemon.Peer
import Noeio.Lib.KeyedList
import Noeio.Lib.Runs

/-!
# The sessions and the codec of a peer over its life

A `Peer` is created once and then changed by newer `SyncRoute`s (`update_info`), by its sessions,
which connect and time out by themselves, and by its selector task. Each of these is one event
here. `try_create_tunnel` reads the state of a session once for each candidate, so a session that
changes during an update is one that changed just before it or just after.

`Reopened` is what opening sessions for a list of addresses does, address by address, and
`WellFormed` is what every run keeps: the sessions are a table from the candidates, and all
serials in use have been given out. The last section is about the id that the sessions stamp
into their packets. An update that changes the local id alone leaves the sessions as they are,
with the old id (`Restamps`).
-/

namespace Noeio

open KeyedList

namespace Peer

/-! ## The candidates -/

theorem candidateAddrs_eq (p : Peer) :
    p.candidateAddrs =
      (p.info.localAddrs ++
        (if p.info.natType ≠ .symmetric then p.info.natAddr else none).toList).foldl addOnce [] := rfl

theorem nodup_candidateAddrs (p : Peer) : p.candidateAddrs.Nodup := by
  rw [candidateAddrs_eq]
  exact nodup_foldl_addOnce List.nodup_nil

/-- The session to the address. -/
def sessionAt (p : Peer) (addr : SocketAddr) : Option PeerSession :=
  get PeerSession.addr p.sessions addr

def addrs (p : Peer) : List SocketAddr := p.sessions.map (·.addr)

theorem putSession_eq (entry : PeerSession) (sessions : List PeerSession) :
    putSession entry sessions = put PeerSession.addr entry sessions := by
  induction sessions with
  | nil => rfl
  | cons s sessions ih => rw [putSession, put, ih]

/-! ## Opening sessions -/

/-- The session can be left as it is. -/
def Usable (force : Bool) (p : Peer) (addr : SocketAddr) : Prop :=
  force = false ∧ ∃ s ∈ p.sessions, s.addr = addr ∧ s.state ≠ .timeout

/-- The body of the loop over the candidates. -/
def reopen (force : Bool) (self : Peer) (addr : SocketAddr) : Peer :=
  let usable := !force && self.sessions.any fun s => s.addr = addr ∧ s.state ≠ .timeout
  if usable then self else self.openSession addr

theorem tryCreateTunnel_eq (p : Peer) (force : Bool) :
    p.tryCreateTunnel force =
      p.candidateAddrs.foldl (reopen force)
        { p with sessions := p.sessions.filter (·.addr ∈ p.candidateAddrs) } := rfl

/-- A new session to the address. -/
def fresh (p : Peer) (addr : SocketAddr) (serial : Nat) : PeerSession where
  addr
  localPeerId := p.localPeerId
  state := .connecting
  rtt := none
  serial

theorem reopen_cases (force : Bool) (p : Peer) (addr : SocketAddr) :
    (p.Usable force addr ∧ reopen force p addr = p) ∨
      (¬ p.Usable force addr ∧ reopen force p addr =
        { p with
          sessions := put PeerSession.addr (p.fresh addr p.created) p.sessions
          created := p.created + 1 }) := by
  have husable : (!force && p.sessions.any fun s => s.addr = addr ∧ s.state ≠ .timeout) = true ↔
      p.Usable force addr := by
    simp [Usable]
  unfold reopen
  by_cases h : p.Usable force addr
  · left
    exact ⟨h, if_pos (husable.mpr h)⟩
  · right
    refine ⟨h, ?_⟩
    dsimp only
    rw [if_neg (fun hu => h (husable.mp hu)), openSession, putSession_eq]
    rfl

theorem usable_iff {force : Bool} {p : Peer} {addr : SocketAddr} (hnodup : p.addrs.Nodup) :
    p.Usable force addr ↔
      force = false ∧ ∃ s, p.sessionAt addr = some s ∧ s.state ≠ .timeout := by
  constructor
  · rintro ⟨hforce, s, hs, rfl, hstate⟩
    exact ⟨hforce, s, (mem_iff_get hnodup).mp hs, hstate⟩
  · rintro ⟨hforce, s, hs, hstate⟩
    exact ⟨hforce, s, mem_of_get hs, key_of_get hs, hstate⟩

/-- What opening sessions for the addresses does: a session that is usable or to another address
stays the same object, every other address gets a new one. -/
structure Reopened (force : Bool) (p q : Peer) (addrs : List SocketAddr) : Prop where
  info : q.info = p.info
  localPeerId : q.localPeerId = p.localPeerId
  codec : q.codec = p.codec
  created : p.created ≤ q.created
  nodup : q.addrs.Nodup
  same : ∀ a, a ∉ addrs ∨ p.Usable force a → q.sessionAt a = p.sessionAt a
  opened : ∀ a ∈ addrs, ¬ p.Usable force a → ∃ serial, p.created ≤ serial ∧ serial < q.created ∧
    q.sessionAt a = some (p.fresh a serial)

theorem reopened_nil (force : Bool) {p : Peer} (hnodup : p.addrs.Nodup) :
    Reopened force p p [] where
  info := rfl
  localPeerId := rfl
  codec := rfl
  created := Nat.le_refl _
  nodup := hnodup
  same _ _ := rfl
  opened _ ha := absurd ha List.not_mem_nil

theorem reopened_reopen (force : Bool) {p : Peer} (hnodup : p.addrs.Nodup) (a : SocketAddr) :
    Reopened force p (reopen force p a) [a] := by
  rcases reopen_cases force p a with ⟨husable, heq⟩ | ⟨hunusable, heq⟩
  · rw [heq]
    have hnil := reopened_nil force hnodup
    refine { hnil with same := fun _ _ => rfl, opened := ?_ }
    intro b hb hnot
    rw [List.mem_singleton.mp hb] at hnot
    exact absurd husable hnot
  · have hat : ∀ b, (reopen force p a).sessionAt b =
        if a = b then some (p.fresh a p.created) else p.sessionAt b := by
      intro b
      rw [heq]
      exact get_put _ _ _
    refine ⟨by rw [heq], by rw [heq], by rw [heq], ?_, ?_, ?_, ?_⟩
    · rw [heq]
      exact Nat.le_succ _
    · rw [heq]
      exact nodup_put hnodup
    · intro b hb
      have hne : a ≠ b := by
        rintro rfl
        rcases hb with hb | hb
        · exact hb List.mem_cons_self
        · exact hunusable hb
      rw [hat, if_neg hne]
    · intro b hb _
      obtain rfl := List.mem_singleton.mp hb
      refine ⟨p.created, Nat.le_refl _, ?_, by rw [hat, if_pos rfl]⟩
      rw [heq]
      exact Nat.lt_succ_self _

theorem Reopened.trans {force : Bool} {p q r : Peer} {as bs : List SocketAddr}
    (hnodup : p.addrs.Nodup) (hdisjoint : ∀ a ∈ as, a ∉ bs) (hpq : Reopened force p q as)
    (hqr : Reopened force q r bs) : Reopened force p r (as ++ bs) := by
  have husable : ∀ b ∉ as, q.Usable force b ↔ p.Usable force b := by
    intro b hb
    rw [usable_iff hnodup, usable_iff hpq.nodup, hpq.same b (Or.inl hb)]
  have hfresh : ∀ b serial, q.fresh b serial = p.fresh b serial := by
    intro b serial
    rw [fresh, fresh, hpq.localPeerId]
  refine ⟨hqr.info.trans hpq.info, hqr.localPeerId.trans hpq.localPeerId,
    hqr.codec.trans hpq.codec, Nat.le_trans hpq.created hqr.created, hqr.nodup, ?_, ?_⟩
  · intro b hb
    by_cases hbs : b ∈ bs
    · have has : b ∉ as := fun has => hdisjoint b has hbs
      have hp : p.Usable force b := hb.resolve_left fun h => h (List.mem_append_right as hbs)
      rw [hqr.same b (Or.inr ((husable b has).mpr hp)), hpq.same b (Or.inl has)]
    · rw [hqr.same b (Or.inl hbs), hpq.same b]
      exact hb.imp_left fun h has => h (List.mem_append_left bs has)
  · intro b hb hunusable
    rcases List.mem_append.mp hb with has | hbs
    · obtain ⟨serial, hle, hlt, hsession⟩ := hpq.opened b has hunusable
      refine ⟨serial, hle, Nat.lt_of_lt_of_le hlt hqr.created, ?_⟩
      rw [hqr.same b (Or.inl (hdisjoint b has)), hsession]
    · have has : b ∉ as := fun has => hdisjoint b has hbs
      obtain ⟨serial, hle, hlt, hsession⟩ :=
        hqr.opened b hbs fun h => hunusable ((husable b has).mp h)
      exact ⟨serial, Nat.le_trans hpq.created hle, hlt, by rw [hsession, hfresh]⟩

theorem reopened_foldl (force : Bool) {p : Peer} (hnodup : p.addrs.Nodup) {as : List SocketAddr}
    (has : as.Nodup) : Reopened force p (as.foldl (reopen force) p) as := by
  induction as generalizing p with
  | nil => exact reopened_nil force hnodup
  | cons a as ih =>
    obtain ⟨ha, has⟩ := List.nodup_cons.mp has
    have hfirst := reopened_reopen force hnodup a
    refine Reopened.trans hnodup ?_ hfirst (ih hfirst.nodup has)
    intro b hb
    rw [List.mem_singleton.mp hb]
    exact ha

/-! ## What an update does to the sessions -/

theorem nodup_addrs_filter {p : Peer} (hnodup : p.addrs.Nodup) (keep : PeerSession → Bool) :
    ((p.sessions.filter keep).map (·.addr)).Nodup :=
  hnodup.sublist (List.filter_sublist.map _)

/-- The table after `tryCreateTunnel`: the candidates and nothing else, each with the session it
had if that is usable, and with a new one otherwise. -/
structure Recreated (force : Bool) (p q : Peer) : Prop where
  info : q.info = p.info
  localPeerId : q.localPeerId = p.localPeerId
  codec : q.codec = p.codec
  created : p.created ≤ q.created
  nodup : q.addrs.Nodup
  other : ∀ a ∉ p.candidateAddrs, q.sessionAt a = none
  kept : ∀ a ∈ p.candidateAddrs, p.Usable force a → q.sessionAt a = p.sessionAt a
  opened : ∀ a ∈ p.candidateAddrs, ¬ p.Usable force a →
    ∃ serial, p.created ≤ serial ∧ serial < q.created ∧ q.sessionAt a = some (p.fresh a serial)

theorem recreated_tryCreateTunnel (force : Bool) {p : Peer} (hnodup : p.addrs.Nodup) :
    Recreated force p (p.tryCreateTunnel force) := by
  let retained : Peer := { p with sessions := p.sessions.filter (·.addr ∈ p.candidateAddrs) }
  have hretained : retained.addrs.Nodup := nodup_addrs_filter hnodup _
  have hat : ∀ a, retained.sessionAt a = if a ∈ p.candidateAddrs then p.sessionAt a else none := by
    intro a
    have hfilter : retained.sessionAt a =
        if decide (a ∈ p.candidateAddrs) = true then p.sessionAt a else none :=
      get_filter (fun b => decide (b ∈ p.candidateAddrs)) p.sessions a
    rw [hfilter]
    simp only [decide_eq_true_eq]
  have husable : ∀ a ∈ p.candidateAddrs, retained.Usable force a ↔ p.Usable force a := by
    intro a ha
    rw [usable_iff hnodup, usable_iff hretained, hat, if_pos ha]
  have hopened : Reopened force retained (p.tryCreateTunnel force) p.candidateAddrs := by
    rw [tryCreateTunnel_eq]
    exact reopened_foldl force hretained p.nodup_candidateAddrs
  refine ⟨hopened.info, hopened.localPeerId, hopened.codec, hopened.created, hopened.nodup,
    ?_, ?_, ?_⟩
  · intro a ha
    rw [hopened.same a (Or.inl ha), hat, if_neg ha]
  · intro a ha h
    rw [hopened.same a (Or.inr ((husable a ha).mpr h)), hat, if_pos ha]
  · intro a ha h
    exact hopened.opened a ha fun hr => h ((husable a ha).mp hr)

namespace Recreated

variable {force : Bool} {p q : Peer} (h : Recreated force p q)
include h

theorem candidateAddrs : q.candidateAddrs = p.candidateAddrs := by
  rw [candidateAddrs_eq, candidateAddrs_eq, h.info]

theorem of_mem (hnodup : p.addrs.Nodup) {s : PeerSession} (hs : s ∈ q.sessions) :
    s.addr ∈ p.candidateAddrs ∧
      ((p.Usable force s.addr ∧ s ∈ p.sessions) ∨
        (¬ p.Usable force s.addr ∧
          ∃ serial, p.created ≤ serial ∧ serial < q.created ∧ s = p.fresh s.addr serial)) := by
  have hat : q.sessionAt s.addr = some s := (mem_iff_get h.nodup).mp hs
  have hcandidate : s.addr ∈ p.candidateAddrs := by
    by_contra hnot
    rw [h.other _ hnot] at hat
    cases hat
  refine ⟨hcandidate, ?_⟩
  by_cases husable : p.Usable force s.addr
  · rw [h.kept _ hcandidate husable] at hat
    exact Or.inl ⟨husable, (mem_iff_get hnodup).mpr hat⟩
  · obtain ⟨serial, hle, hlt, hfresh⟩ := h.opened _ hcandidate husable
    rw [hat, Option.some.injEq] at hfresh
    exact Or.inr ⟨husable, serial, hle, hlt, hfresh⟩

/-- A usable session of a candidate is kept, the very same object. -/
theorem mem_of_usable (hnodup : p.addrs.Nodup) {s : PeerSession} (hs : s ∈ p.sessions)
    (hcandidate : s.addr ∈ p.candidateAddrs) (husable : p.Usable force s.addr) :
    s ∈ q.sessions := by
  have hat : p.sessionAt s.addr = some s := (mem_iff_get hnodup).mp hs
  rw [← h.kept _ hcandidate husable] at hat
  exact mem_of_get hat

theorem mem_addrs (hnodup : p.addrs.Nodup) (a : SocketAddr) :
    a ∈ q.addrs ↔ a ∈ q.candidateAddrs := by
  rw [h.candidateAddrs]
  constructor
  · intro ha
    obtain ⟨s, hs, rfl⟩ := List.mem_map.mp ha
    exact (h.of_mem hnodup hs).1
  · intro ha
    by_cases husable : p.Usable force a
    · obtain ⟨-, s, hs, rfl, -⟩ := id husable
      exact List.mem_map_of_mem (h.mem_of_usable hnodup hs ha husable)
    · obtain ⟨serial, -, -, hat⟩ := h.opened a ha husable
      exact List.mem_map.mpr ⟨_, mem_of_get hat, key_of_get hat⟩

end Recreated

/-! ## The life of a peer -/

inductive Event where
  | updateInfo (info : PeerInfo) (localPeerId : PeerId)
  /-- The session with this serial has changed by itself. -/
  | session (serial : Nat) (state : SessionState) (rtt : Option Duration)
  | selectSession

def step (self : Peer) : Event → Peer
  | .updateInfo info localPeerId => self.updateInfo info localPeerId
  | .session serial state rtt =>
    { self with sessions := self.sessions.map fun s =>
        if s.serial = serial then { s with state, rtt } else s }
  | .selectSession => self.selectSession

/-- `identity_changed` of an update. -/
def IdentityChanged (p : Peer) (info : PeerInfo) : Prop :=
  p.info.networkId ≠ info.networkId ∨ p.info.natType ≠ info.natType

instance (p : Peer) (info : PeerInfo) : Decidable (p.IdentityChanged info) :=
  inferInstanceAs (Decidable (_ ∨ _))

/-- `keys_changed` of an update. -/
def KeysChanged (p : Peer) (info : PeerInfo) (localPeerId : PeerId) : Prop :=
  p.info.networkId ≠ info.networkId ∨ p.info.peerId ≠ info.peerId ∨ p.localPeerId ≠ localPeerId

instance (p : Peer) (info : PeerInfo) (localPeerId : PeerId) :
    Decidable (p.KeysChanged info localPeerId) :=
  inferInstanceAs (Decidable (_ ∨ _ ∨ _))

/-- An update up to the call of `try_create_tunnel`. -/
def identified (p : Peer) (info : PeerInfo) (localPeerId : PeerId) : Peer :=
  let self := { p with info, localPeerId }
  if p.KeysChanged info localPeerId then
    { self with codec := buildCodec info localPeerId self.created, created := self.created + 1 }
  else self

theorem updateInfo_eq (p : Peer) (info : PeerInfo) (localPeerId : PeerId) :
    p.updateInfo info localPeerId =
      (p.identified info localPeerId).tryCreateTunnel (p.IdentityChanged info) := rfl

/-- The identity is the new one, and the sessions are still the old ones. -/
theorem identified_spec (p : Peer) (info : PeerInfo) (localPeerId : PeerId) :
    (p.identified info localPeerId).info = info ∧
      (p.identified info localPeerId).localPeerId = localPeerId ∧
      (p.identified info localPeerId).sessions = p.sessions ∧
      p.created ≤ (p.identified info localPeerId).created := by
  unfold identified
  dsimp only
  split
  · exact ⟨rfl, rfl, rfl, Nat.le_succ _⟩
  · exact ⟨rfl, rfl, rfl, Nat.le_refl _⟩

/-- What every run keeps. -/
structure WellFormed (p : Peer) : Prop where
  nodup : p.addrs.Nodup
  addrs : ∀ a, a ∈ p.addrs ↔ a ∈ p.candidateAddrs
  serial : ∀ s ∈ p.sessions, s.serial < p.created
  codec : p.codec.serial < p.created
  keyed : p.Keyed

theorem Recreated.wellFormed {force : Bool} {p q : Peer} (h : Recreated force p q)
    (hnodup : p.addrs.Nodup) (hserial : ∀ s ∈ p.sessions, s.serial < p.created)
    (hcodec : p.codec.serial < p.created) (hkeyed : q.Keyed) : q.WellFormed where
  nodup := h.nodup
  addrs := h.mem_addrs hnodup
  serial s hs := by
    rcases (h.of_mem hnodup hs).2 with ⟨-, hold⟩ | ⟨-, serial, -, hlt, hfresh⟩
    · exact Nat.lt_of_lt_of_le (hserial s hold) h.created
    · rw [hfresh]
      exact hlt
  codec := by
    rw [h.codec]
    exact Nat.lt_of_lt_of_le hcodec h.created
  keyed := hkeyed

theorem wellFormed_new (info : PeerInfo) (localPeerId : PeerId) :
    (new info localPeerId).WellFormed := by
  refine (recreated_tryCreateTunnel false ?_).wellFormed ?_ ?_ ?_ (keyed_new info localPeerId)
  · exact List.nodup_nil
  · exact List.nodup_nil
  · exact fun s hs => absurd hs List.not_mem_nil
  · exact Nat.zero_lt_one

section Update

variable {p : Peer} (hp : p.WellFormed) (info : PeerInfo) (localPeerId : PeerId)
include hp

theorem nodup_identified : (p.identified info localPeerId).addrs.Nodup := by
  have hsessions := (identified_spec p info localPeerId).2.2.1
  rw [Peer.addrs, hsessions]
  exact hp.nodup

theorem recreated_updateInfo :
    Recreated (p.IdentityChanged info) (p.identified info localPeerId)
      (p.updateInfo info localPeerId) := by
  rw [updateInfo_eq]
  exact recreated_tryCreateTunnel _ (nodup_identified hp info localPeerId)

theorem wellFormed_updateInfo : (p.updateInfo info localPeerId).WellFormed := by
  obtain ⟨-, -, hsessions, hcreated⟩ := identified_spec p info localPeerId
  refine (recreated_updateInfo hp info localPeerId).wellFormed
    (nodup_identified hp info localPeerId) ?_ ?_ (hp.keyed.updateInfo info localPeerId)
  · intro s hs
    rw [hsessions] at hs
    exact Nat.lt_of_lt_of_le (hp.serial s hs) hcreated
  · unfold identified
    dsimp only
    split
    · exact Nat.lt_succ_self _
    · exact hp.codec

theorem wellFormed_step (e : Event) : (p.step e).WellFormed := by
  cases e with
  | updateInfo info localPeerId => exact wellFormed_updateInfo hp info localPeerId
  | selectSession => exact ⟨hp.nodup, hp.addrs, hp.serial, hp.codec, hp.keyed⟩
  | session serial state rtt =>
    have haddrs : (p.step (.session serial state rtt)).addrs = p.addrs := by
      rw [Peer.addrs, step, List.map_map]
      apply List.map_congr_left
      intro s _
      rw [Function.comp_apply]
      split <;> rfl
    refine ⟨haddrs ▸ hp.nodup, fun a => haddrs ▸ hp.addrs a, ?_, hp.codec, hp.keyed⟩
    intro s hs
    obtain ⟨t, ht, rfl⟩ := List.mem_map.mp hs
    have hserial := hp.serial t ht
    split <;> exact hserial

end Update

theorem wellFormed_run (info : PeerInfo) (localPeerId : PeerId) (es : List Event) :
    (Runs.run step (new info localPeerId) es).WellFormed :=
  Runs.invariant_of_step (P := fun _ (p : Peer) => p.WellFormed) (wellFormed_new info localPeerId)
    (fun _ _ e hp => wellFormed_step hp e) es

/-! ## Sessions and candidates -/

section Update

variable {p : Peer} (hp : p.WellFormed) (info : PeerInfo) (localPeerId : PeerId)

/-- A session that an update may leave as it is. -/
theorem usable_identified_iff (addr : SocketAddr) :
    (p.identified info localPeerId).Usable (p.IdentityChanged info) addr ↔
      ¬ p.IdentityChanged info ∧ ∃ s ∈ p.sessions, s.addr = addr ∧ s.state ≠ .timeout := by
  rw [Usable, (identified_spec p info localPeerId).2.2.1, decide_eq_false_iff_not]

theorem candidateAddrs_identified :
    (p.identified info localPeerId).candidateAddrs = { p with info }.candidateAddrs := by
  rw [candidateAddrs_eq, candidateAddrs_eq, (identified_spec p info localPeerId).1]

include hp

theorem candidateAddrs_updateInfo :
    (p.updateInfo info localPeerId).candidateAddrs = { p with info }.candidateAddrs := by
  rw [(recreated_updateInfo hp info localPeerId).candidateAddrs, candidateAddrs_identified]

/-- The session of a remaining candidate is kept. -/
theorem mem_updateInfo_of_live {s : PeerSession} (hs : s ∈ p.sessions)
    (hcandidate : s.addr ∈ (p.updateInfo info localPeerId).candidateAddrs)
    (hsame : ¬ p.IdentityChanged info) (hstate : s.state ≠ .timeout) :
    s ∈ (p.updateInfo info localPeerId).sessions := by
  have hrecreated := recreated_updateInfo hp info localPeerId
  have hold : s ∈ (p.identified info localPeerId).sessions := by
    rw [(identified_spec p info localPeerId).2.2.1]
    exact hs
  rw [hrecreated.candidateAddrs] at hcandidate
  refine hrecreated.mem_of_usable (nodup_identified hp info localPeerId) hold hcandidate ?_
  exact (usable_identified_iff info localPeerId s.addr).mpr ⟨hsame, s, hs, rfl, hstate⟩

/-- Any other candidate gets a session that was not there before. -/
theorem exists_fresh_updateInfo {a : SocketAddr}
    (hcandidate : a ∈ (p.updateInfo info localPeerId).candidateAddrs)
    (hdead : ¬ (¬ p.IdentityChanged info ∧ ∃ s ∈ p.sessions, s.addr = a ∧ s.state ≠ .timeout)) :
    ∃ s ∈ (p.updateInfo info localPeerId).sessions, s.addr = a ∧ s.localPeerId = localPeerId ∧
      s.state = .connecting ∧ s.rtt = none ∧ p.created ≤ s.serial := by
  have hrecreated := recreated_updateInfo hp info localPeerId
  obtain ⟨-, hlocal, -, hcreated⟩ := identified_spec p info localPeerId
  rw [hrecreated.candidateAddrs] at hcandidate
  rw [← usable_identified_iff info localPeerId] at hdead
  obtain ⟨serial, hle, -, hat⟩ := hrecreated.opened a hcandidate hdead
  exact ⟨_, mem_of_get hat, rfl, hlocal, rfl, rfl, Nat.le_trans hcreated hle⟩

/-- The address for direct traffic is one of a candidate with a connected session. -/
theorem address_spec {addr : SocketAddr} (h : p.address = some addr) :
    addr ∈ p.candidateAddrs ∧ ∃ s ∈ p.sessions, s.addr = addr ∧ s.state = .connected := by
  simp only [address, Option.bind_eq_bind, Option.bind_eq_some_iff] at h
  obtain ⟨selected, -, s, hs, hstate⟩ := h
  split at hstate
  · rename_i hconnected
    obtain rfl := Option.some.inj hstate
    have hmem : s ∈ p.sessions := List.mem_of_find?_eq_some hs
    have haddr : s.addr = selected := by simpa using List.find?_some hs
    refine ⟨(hp.addrs selected).mp ?_, s, hmem, haddr, hconnected⟩
    exact List.mem_map.mpr ⟨s, hmem, haddr⟩
  · cases hstate

end Update

/-- The sessions over the life of a peer. Their addresses are the candidates of the current info,
each once. An update keeps the very same session for a remaining candidate when the network
and the NAT type are unchanged and the session has not timed out, and opens a new one, different
from all before, for every other candidate. `address` is a current candidate whose session is
connected. -/
theorem sessions_follow_candidates (info : PeerInfo) (localPeerId : PeerId) (es : List Event) :
    let p := Runs.run step (new info localPeerId) es
    (p.sessions.map (·.addr)).Nodup ∧
    (∀ a, a ∈ p.sessions.map (·.addr) ↔ a ∈ p.candidateAddrs) ∧
    (∀ s ∈ p.sessions, s.serial < p.created) ∧
    (∀ next nextId,
      let q := p.updateInfo next nextId
      ∀ a ∈ q.candidateAddrs,
        (∀ s ∈ p.sessions, s.addr = a → p.info.networkId = next.networkId →
          p.info.natType = next.natType → s.state ≠ .timeout → s ∈ q.sessions) ∧
        ((¬ ∃ s ∈ p.sessions, s.addr = a ∧ p.info.networkId = next.networkId ∧
            p.info.natType = next.natType ∧ s.state ≠ .timeout) →
          ∃ s ∈ q.sessions, s.addr = a ∧ s.localPeerId = nextId ∧ s.state = .connecting ∧
            s.rtt = none ∧ p.created ≤ s.serial)) ∧
    ∀ addr, p.address = some addr →
      addr ∈ p.candidateAddrs ∧ ∃ s ∈ p.sessions, s.addr = addr ∧ s.state = .connected := by
  intro p
  have hp : p.WellFormed := wellFormed_run info localPeerId es
  refine ⟨hp.nodup, hp.addrs, hp.serial, ?_, fun addr => address_spec hp⟩
  intro next nextId q a ha
  have hsame : ¬ p.IdentityChanged next ↔
      p.info.networkId = next.networkId ∧ p.info.natType = next.natType := by
    simp [IdentityChanged]
  constructor
  · rintro s hs rfl hnetwork hnat hstate
    exact mem_updateInfo_of_live hp next nextId hs ha (hsame.mpr ⟨hnetwork, hnat⟩) hstate
  · intro hdead
    refine exists_fresh_updateInfo hp next nextId ha ?_
    rintro ⟨hunchanged, s, hs, haddr, hstate⟩
    obtain ⟨hnetwork, hnat⟩ := hsame.mp hunchanged
    exact hdead ⟨s, hs, haddr, hnetwork, hnat, hstate⟩

/-! ## The codec -/

theorem codec_updateInfo {p : Peer} (hp : p.WellFormed) (info : PeerInfo) (localPeerId : PeerId) :
    (¬ p.KeysChanged info localPeerId → (p.updateInfo info localPeerId).codec = p.codec) ∧
      (p.KeysChanged info localPeerId →
        (p.updateInfo info localPeerId).codec = buildCodec info localPeerId p.created) := by
  rw [(recreated_updateInfo hp info localPeerId).codec]
  constructor
  · intro h
    rw [identified, if_neg h]
  · intro h
    rw [identified, if_pos h]

/-- The codec over the life of a peer. It is the one for the current ids and network. An update
that changes none of the three keeps the codec itself, and one that changes any of them puts a
new one in its place, different from all before. -/
theorem codec_matches_identity (info : PeerInfo) (localPeerId : PeerId) (es : List Event) :
    let p := Runs.run step (new info localPeerId) es
    p.codec = buildCodec p.info p.localPeerId p.codec.serial ∧ p.codec.serial < p.created ∧
    ∀ next nextId,
      let q := p.updateInfo next nextId
      (p.localPeerId = nextId ∧ p.info.peerId = next.peerId ∧ p.info.networkId = next.networkId →
        q.codec = p.codec) ∧
      (p.localPeerId ≠ nextId ∨ p.info.peerId ≠ next.peerId ∨ p.info.networkId ≠ next.networkId →
        q.codec.serial ≠ p.codec.serial ∧ p.created ≤ q.codec.serial) := by
  intro p
  have hp : p.WellFormed := wellFormed_run info localPeerId es
  have hcodec : p.codec = buildCodec p.info p.localPeerId p.codec.serial := by
    rw [buildCodec, ← hp.keyed]
  refine ⟨hcodec, hp.codec, ?_⟩
  intro next nextId q
  obtain ⟨hkept, hreplaced⟩ := codec_updateInfo hp next nextId
  constructor
  · rintro ⟨hlocal, hpeer, hnetwork⟩
    apply hkept
    rintro (h | h | h)
    · exact h hnetwork
    · exact h hpeer
    · exact h hlocal
  · intro hchanged
    have hserial : q.codec.serial = p.created := by
      rw [hreplaced]
      · rfl
      · rcases hchanged with h | h | h
        · exact Or.inr (Or.inr h)
        · exact Or.inr (Or.inl h)
        · exact Or.inl h
    have hold := hp.codec
    omega

/-! ## The id in the packets of the sessions -/

/-- Every session stamps our current id. -/
def Stamped (p : Peer) : Prop := ∀ s ∈ p.sessions, s.localPeerId = p.localPeerId

/-- An update that changes our id leaves no session of before in place: the network or the NAT
type changes too, or no session to a remaining candidate is alive. -/
def Restamps (p : Peer) : Event → Prop
  | .updateInfo info localPeerId =>
    p.localPeerId = localPeerId ∨ p.info.networkId ≠ info.networkId ∨
      p.info.natType ≠ info.natType ∨
      ∀ s ∈ p.sessions, s.addr ∈ { p with info }.candidateAddrs → s.state = .timeout
  | _ => True

theorem stamped_new (info : PeerInfo) (localPeerId : PeerId) :
    (new info localPeerId).Stamped := by
  let start : Peer :=
    { info, localPeerId, sessions := [], selected := none, codec := buildCodec info localPeerId 0,
      created := 1 }
  have hnodup : start.addrs.Nodup := List.nodup_nil
  have hcreated : Recreated false start (new info localPeerId) := recreated_tryCreateTunnel _ hnodup
  intro s hs
  rcases (hcreated.of_mem hnodup hs).2 with ⟨-, hold⟩ | ⟨-, serial, -, -, hfresh⟩
  · cases hold
  · rw [hfresh, hcreated.localPeerId]
    rfl

theorem stamped_updateInfo_iff {p : Peer} (hp : p.WellFormed) (hstamped : p.Stamped)
    (info : PeerInfo) (localPeerId : PeerId) :
    (p.updateInfo info localPeerId).Stamped ↔ p.Restamps (.updateInfo info localPeerId) := by
  have hrecreated := recreated_updateInfo hp info localPeerId
  constructor
  · intro hafter
    by_contra hnot
    simp only [Restamps, not_or, not_not, not_forall] at hnot
    obtain ⟨hid, hnetwork, hnat, s, hs, hcandidate, hstate⟩ := hnot
    have hsame : ¬ p.IdentityChanged info := not_or.mpr ⟨not_not.mpr hnetwork, not_not.mpr hnat⟩
    -- the live session is kept and still has our old id
    rw [← candidateAddrs_updateInfo hp info localPeerId] at hcandidate
    have hnew := hafter s (mem_updateInfo_of_live hp info localPeerId hs hcandidate hsame hstate)
    rw [localPeerId_updateInfo, hstamped s hs] at hnew
    exact hid hnew
  · intro hrestamps s hs
    obtain ⟨hcandidate, hsession⟩ := hrecreated.of_mem (nodup_identified hp info localPeerId) hs
    rw [localPeerId_updateInfo]
    rcases hsession with ⟨husable, hold⟩ | ⟨-, serial, -, -, hfresh⟩
    · obtain ⟨hsame, t, ht, haddr, hstate⟩ :=
        (usable_identified_iff info localPeerId s.addr).mp husable
      rw [(identified_spec p info localPeerId).2.2.1] at hold
      rw [candidateAddrs_identified, ← haddr] at hcandidate
      rw [hstamped s hold]
      rcases hrestamps with hid | hnetwork | hnat | hdead
      · exact hid
      · exact absurd (Or.inl hnetwork) hsame
      · exact absurd (Or.inr hnat) hsame
      · exact absurd (hdead t ht hcandidate) hstate
    · rw [hfresh]
      exact (identified_spec p info localPeerId).2.1

theorem stamped_step_iff {p : Peer} (hp : p.WellFormed) (hstamped : p.Stamped) (e : Event) :
    (p.step e).Stamped ↔ p.Restamps e := by
  cases e with
  | updateInfo info localPeerId => exact stamped_updateInfo_iff hp hstamped info localPeerId
  | selectSession => exact iff_of_true hstamped trivial
  | session serial state rtt =>
    refine iff_of_true ?_ trivial
    intro s hs
    obtain ⟨t, ht, rfl⟩ := List.mem_map.mp hs
    have hid := hstamped t ht
    split <;> exact hid

/-- Whose id the sessions stamp, over the life of a peer: in every state of a run all sessions
have our current id exactly if every update of the run that changes our id also changes the
network or the NAT type, or finds no session to a remaining candidate alive. -/
theorem stamped_run_iff (info : PeerInfo) (localPeerId : PeerId) (es : List Event) :
    (∀ pre, pre <+: es → ∀ s ∈ (Runs.run step (new info localPeerId) pre).sessions,
      s.localPeerId = (Runs.run step (new info localPeerId) pre).localPeerId) ↔
    Runs.Meets step (fun _ p e => p.Restamps e) (new info localPeerId) es :=
  Runs.forall_prefix_iff_meets (P := Stamped) (stamped_new info localPeerId)
    (fun pre e hstamped => stamped_step_iff (wellFormed_run info localPeerId pre) hstamped e) es

namespace Sample

/-- A peer with one LAN address, as its `SyncRoute` says. -/
def reported : PeerInfo :=
  ⟨1, 2, .v4 (.ofOctets 10 1 0 2), .replicate 16 0, .other, none,
    [.v4 (.ofOctets 192 168 1 2) 4242], [], false⟩

/-- The same `SyncRoute` again, addressed to us under another id. -/
theorem readdressed_not_stamped :
    ¬ ∀ (info : PeerInfo) (localPeerId : PeerId) (es : List Event),
      ∀ s ∈ (Runs.run step (new info localPeerId) es).sessions,
        s.localPeerId = (Runs.run step (new info localPeerId) es).localPeerId := by
  intro h
  have hsessions := h reported 1 [.updateInfo reported 5]
  revert hsessions
  decide

end Sample

end Peer

end Noeio
