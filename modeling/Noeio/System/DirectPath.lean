import Noeio.Daemon.Derper
import Noeio.Daemon.Sessions
import Noeio.System.HolePunch

/-!
# The direct path of a peer

A `Peer` of `noeio/src/daemon/peer.rs` holds `UdpTunnelSession`s, reads their states and their
round-trip times, and opens and drops them as its candidates change. `Noeio.Daemon.Sessions` is about
the peer, with sessions that change by themselves, and `Noeio.System.HolePunch` about the sessions, with
nodes that open and drop them at will. Here each is what the other assumes: any number of peers of any
number of nodes, with their sessions, over a network that loses, repeats and reorders datagrams.

A peer in this system lives one of the lives of `Noeio.Daemon.Sessions` (`Backed.lived`), and what the
peers do to their sessions is a run of `Noeio.System.HolePunch` (`punch_run`). So the results about
either hold here, and together they say what a direct path is: the selected session is connected, so it
was signalled by an Ack with the nonce that it drew, and before this Ack came in, a session of some peer
had been given a Seq with this nonce and had answered it (`direct_path_answered`).
-/

namespace Noeio.DirectPath

open HolePunch (Effect)

/-! ## Sessions that come and go -/

section

variable {π : Type*} [DecidableEq π] {nonce : π × Nat → UInt64}

/-- The entry of a session in the table that `inbound` searches. -/
def entry (x : π) (e : PeerSession) : SocketAddr × (π × Nat) := (e.addr, (x, e.serial))

def drops (x : π) (serials : List Nat) : List (HolePunch.Event π (π × Nat)) :=
  serials.map fun n => .drop x (x, n)

def connects (x : π) (sessions : List PeerSession) : List (HolePunch.Event π (π × Nat)) :=
  sessions.map fun e => .connect x e.addr (x, e.serial) e.localPeerId

variable {s : HolePunch.State π (π × Nat)} {x : π}

theorem session_drop_of_ne {id id' : π × Nat} (h : id' ≠ id) :
    (s.drop x id).session id' = s.session id' := by
  unfold HolePunch.State.drop
  split
  · exact HolePunch.put_session_of_ne h
  · rfl

theorem isSome_session_drop {id id' : π × Nat} (h : (s.session id').isSome = true) :
    ((s.drop x id).session id').isSome = true := by
  by_cases hid : id' = id
  · subst hid
    obtain ⟨t, ht⟩ := Option.isSome_iff_exists.mp h
    unfold HolePunch.State.drop
    simp only [ht]
    rw [show (s.put id' t.abort).session id' = some t.abort from HolePunch.put_session_self]
    rfl
  · rwa [session_drop_of_ne hid]

theorem sessions_drop {id : π × Nat} (h : (s.session id).isSome = true) (y : π) :
    (s.drop x id).sessions y = if y = x then (s.sessions x).filter (·.2 ≠ id) else s.sessions y := by
  obtain ⟨t, ht⟩ := Option.isSome_iff_exists.mp h
  unfold HolePunch.State.drop
  simp only [ht, Function.update_apply]

theorem session_run_drops {serials : List Nat} {id : π × Nat} (h : ∀ n ∈ serials, id ≠ (x, n)) :
    (Runs.run (HolePunch.step nonce) s (drops x serials)).session id = s.session id := by
  induction serials generalizing s with
  | nil => rfl
  | cons n serials ih =>
    have hfirst : (s.drop x (x, n)).session id = s.session id :=
      session_drop_of_ne (h n List.mem_cons_self)
    exact (ih fun m hm => h m (List.mem_cons_of_mem n hm)).trans hfirst

theorem sessions_run_drops {serials : List Nat}
    (h : ∀ n ∈ serials, (s.session (x, n)).isSome = true) (y : π) :
    (Runs.run (HolePunch.step nonce) s (drops x serials)).sessions y =
      if y = x then (s.sessions x).filter (fun e => ∀ n ∈ serials, e.2 ≠ (x, n))
      else s.sessions y := by
  induction serials generalizing s with
  | nil =>
    by_cases hy : y = x
    · subst hy
      simp [drops]
    · simp [drops, hy]
  | cons n serials ih =>
    have hrest : ∀ m ∈ serials, ((s.drop x (x, n)).session (x, m)).isSome = true :=
      fun m hm => isSome_session_drop (h m (List.mem_cons_of_mem n hm))
    have hfirst := sessions_drop (s := s) (x := x) (h n List.mem_cons_self)
    refine (ih (s := s.drop x (x, n)) hrest).trans ?_
    by_cases hy : y = x
    · rw [if_pos hy, if_pos hy, hfirst, if_pos rfl, List.filter_filter]
      refine List.filter_congr fun e _ => ?_
      rw [Bool.and_comm]
      simp
    · rw [if_neg hy, if_neg hy, hfirst, if_neg hy]

theorem connect_of_none {target : SocketAddr} {id : π × Nat} {localPeerId : PeerId}
    (h : s.session id = none) : s.connect nonce x target id localPeerId =
      { s.put id (.connect localPeerId (nonce id)) with
        sessions := Function.update s.sessions x (s.sessions x ++ [(target, id)]) } := by
  unfold HolePunch.State.connect
  rw [h]

theorem session_connect_of_ne {target : SocketAddr} {id id' : π × Nat} {localPeerId : PeerId}
    (h : id' ≠ id) : (s.connect nonce x target id localPeerId).session id' = s.session id' := by
  unfold HolePunch.State.connect
  split
  · exact HolePunch.put_session_of_ne h
  · rfl

theorem session_run_connects_of_ne {sessions : List PeerSession} {id : π × Nat}
    (h : ∀ e ∈ sessions, id ≠ (x, e.serial)) :
    (Runs.run (HolePunch.step nonce) s (connects x sessions)).session id = s.session id := by
  induction sessions generalizing s with
  | nil => rfl
  | cons e sessions ih =>
    have hfirst : (s.connect nonce x e.addr (x, e.serial) e.localPeerId).session id = s.session id :=
      session_connect_of_ne (h e List.mem_cons_self)
    exact (ih fun f hf => h f (List.mem_cons_of_mem e hf)).trans hfirst

/-- Sessions with serials that are not in use are opened, each in the table once. -/
theorem run_connects (nonce : π × Nat → UInt64) {sessions : List PeerSession}
    (hnodup : (sessions.map (·.serial)).Nodup)
    (hnone : ∀ e ∈ sessions, s.session (x, e.serial) = none) :
    (∀ e ∈ sessions, (Runs.run (HolePunch.step nonce) s (connects x sessions)).session (x, e.serial) =
        some (.connect e.localPeerId (nonce (x, e.serial)))) ∧
      ∀ y, (Runs.run (HolePunch.step nonce) s (connects x sessions)).sessions y =
        if y = x then s.sessions x ++ sessions.map (entry x) else s.sessions y := by
  induction sessions generalizing s with
  | nil =>
    refine ⟨fun e he => absurd he List.not_mem_nil, fun y => ?_⟩
    by_cases hy : y = x
    · subst hy
      simp [connects]
    · simp [connects, hy]
  | cons e sessions ih =>
    obtain ⟨hnew, hnodup⟩ := List.nodup_cons.mp hnodup
    let opened := s.connect nonce x e.addr (x, e.serial) e.localPeerId
    have hopened : opened = _ := connect_of_none (hnone e List.mem_cons_self)
    have hne : ∀ f ∈ sessions, (x, f.serial) ≠ (x, e.serial) := by
      intro f hf heq
      exact hnew (List.mem_map.mpr ⟨f, hf, (Prod.mk.inj heq).2⟩)
    have hrest : ∀ f ∈ sessions, opened.session (x, f.serial) = none := by
      intro f hf
      exact (session_connect_of_ne (hne f hf)).trans (hnone f (List.mem_cons_of_mem e hf))
    obtain ⟨hsession, htable⟩ := ih (s := opened) hnodup hrest
    refine ⟨fun f hf => ?_, fun y => (htable y).trans ?_⟩
    · rcases List.mem_cons.mp hf with rfl | hf
      · have hself : opened.session (x, f.serial) =
            some (.connect f.localPeerId (nonce (x, f.serial))) := by
          rw [hopened]
          exact Function.update_self _ _ _
        have hlater : (Runs.run (HolePunch.step nonce) opened (connects x sessions)).session
            (x, f.serial) = opened.session (x, f.serial) :=
          session_run_connects_of_ne fun g hg heq => hne g hg heq.symm
        exact hlater.trans hself
      · exact hsession f hf
    · rw [hopened]
      by_cases hy : y = x
      · subst hy
        simp [entry]
      · simp [hy]

/-- The sessions `new` take the place of `old`: one with a serial of `old` is the same session. -/
structure Replaces (old new : List PeerSession) : Prop where
  nodup : (old.map (·.serial)).Nodup
  nodup' : (new.map (·.serial)).Nodup
  kept : ∀ e ∈ new, e.serial ∈ old.map (·.serial) → e ∈ old

/-- The serials of the sessions that are no longer there. -/
def gone (old new : List PeerSession) : List Nat :=
  (old.map (·.serial)).filter (· ∉ new.map (·.serial))

/-- The sessions that are new. -/
def fresh (old new : List PeerSession) : List PeerSession :=
  new.filter (·.serial ∉ old.map (·.serial))

def switch (x : π) (old new : List PeerSession) : List (HolePunch.Event π (π × Nat)) :=
  drops x (gone old new) ++ connects x (fresh old new)

/-- What `switch` does: it touches no other peer, no session that is kept and no serial that is not in
use. -/
structure Switched (nonce : π × Nat → UInt64) (x : π) (old new : List PeerSession)
    (s s' : HolePunch.State π (π × Nat)) : Prop where
  other : ∀ id : π × Nat, id.1 ≠ x → s'.session id = s.session id
  otherTable : ∀ y, y ≠ x → s'.sessions y = s.sessions y
  same : ∀ n, (n ∈ old.map (·.serial) ↔ n ∈ new.map (·.serial)) → s'.session (x, n) = s.session (x, n)
  opened : ∀ e ∈ new, e.serial ∉ old.map (·.serial) →
    s'.session (x, e.serial) = some (.connect e.localPeerId (nonce (x, e.serial)))
  table : (s'.sessions x).Perm (new.map (entry x))

/-- The old sessions that stay are the new ones that are not opened. -/
theorem Replaces.perm {old new : List PeerSession} (h : Replaces old new) :
    (old.filter (·.serial ∈ new.map (·.serial))).Perm (new.filter (·.serial ∈ old.map (·.serial))) := by
  have hold : old.Nodup := h.nodup.of_map _
  have hnew : new.Nodup := h.nodup'.of_map _
  refine (List.perm_ext_iff_of_nodup (hold.filter _) (hnew.filter _)).mpr fun e => ?_
  simp only [List.mem_filter, decide_eq_true_eq]
  constructor
  · rintro ⟨he, hserial⟩
    obtain ⟨f, hf, heq⟩ := List.mem_map.mp hserial
    have hfold : f ∈ old := h.kept f hf (List.mem_map.mpr ⟨e, he, heq.symm⟩)
    obtain rfl : f = e := List.inj_on_of_nodup_map h.nodup hfold he heq
    exact ⟨hf, List.mem_map_of_mem he⟩
  · rintro ⟨he, hserial⟩
    exact ⟨h.kept e he hserial, List.mem_map_of_mem he⟩

section

variable {old new : List PeerSession}

theorem mem_gone {n : Nat} :
    n ∈ gone old new ↔ n ∈ old.map (·.serial) ∧ n ∉ new.map (·.serial) := by
  rw [gone, List.mem_filter, decide_eq_true_eq]

theorem mem_fresh {e : PeerSession} :
    e ∈ fresh old new ↔ e ∈ new ∧ e.serial ∉ old.map (·.serial) := by
  rw [fresh, List.mem_filter, decide_eq_true_eq]

/-- The entries that the drops leave in the table. -/
theorem filter_entry_gone (x : π) :
    (old.map (entry x)).filter (fun e => ∀ n ∈ gone old new, e.2 ≠ (x, n)) =
      (old.filter (·.serial ∈ new.map (·.serial))).map (entry x) := by
  rw [List.filter_map]
  refine congrArg (List.map (entry x)) (List.filter_congr fun e he => ?_)
  have hold : e.serial ∈ old.map (·.serial) := List.mem_map_of_mem he
  have hkept : (∀ n ∈ gone old new, (entry x e).2 ≠ (x, n)) ↔ e.serial ∈ new.map (·.serial) := by
    constructor
    · intro hkept
      by_contra hnot
      exact hkept e.serial (mem_gone.mpr ⟨hold, hnot⟩) rfl
    · rintro hnew n hn heq
      obtain rfl : e.serial = n := (Prod.mk.inj heq).2
      exact (mem_gone.mp hn).2 hnew
  exact decide_eq_decide.mpr hkept

/-- The sessions that stay and those that are opened are the new ones. -/
theorem Replaces.perm_append_fresh (h : Replaces old new) :
    ((old.filter (·.serial ∈ new.map (·.serial))) ++ fresh old new).Perm new := by
  have hall : ((new.filter (·.serial ∈ old.map (·.serial))) ++ fresh old new).Perm new := by
    have hperm := List.filter_append_perm (fun e : PeerSession => e.serial ∈ old.map (·.serial)) new
    simpa only [fresh, decide_not] using hperm
  exact (h.perm.append_right _).trans hall

/-- A session that is neither dropped nor opened. -/
theorem session_run_switch {id : π × Nat} (hgone : ∀ n ∈ gone old new, id ≠ (x, n))
    (hfresh : ∀ e ∈ fresh old new, id ≠ (x, e.serial)) :
    (Runs.run (HolePunch.step nonce) s (switch x old new)).session id = s.session id := by
  rw [switch, Runs.run_append]
  exact (session_run_connects_of_ne hfresh).trans (session_run_drops hgone)

/-- The sessions that are opened, and the tables. -/
theorem run_switch (nonce : π × Nat → UInt64) (hnodup : (new.map (·.serial)).Nodup)
    (hbacked : ∀ e ∈ old, (s.session (x, e.serial)).isSome = true)
    (hfree : ∀ e ∈ new, e.serial ∉ old.map (·.serial) → s.session (x, e.serial) = none) :
    (∀ e ∈ fresh old new, (Runs.run (HolePunch.step nonce) s (switch x old new)).session
        (x, e.serial) = some (.connect e.localPeerId (nonce (x, e.serial)))) ∧
      ∀ y, (Runs.run (HolePunch.step nonce) s (switch x old new)).sessions y =
        if y = x then (s.sessions x).filter (fun e => ∀ n ∈ gone old new, e.2 ≠ (x, n)) ++
          (fresh old new).map (entry x)
        else s.sessions y := by
  let dropped := Runs.run (HolePunch.step nonce) s (drops x (gone old new))
  have hrun : Runs.run (HolePunch.step nonce) s (switch x old new) =
      Runs.run (HolePunch.step nonce) dropped (connects x (fresh old new)) := Runs.run_append _ _ _ _
  have hfresh : ((fresh old new).map (·.serial)).Nodup :=
    hnodup.sublist (List.filter_sublist.map _)
  -- the serials that are opened are not dropped
  have hnone : ∀ e ∈ fresh old new, dropped.session (x, e.serial) = none := by
    intro e he
    obtain ⟨hnew, hold⟩ := mem_fresh.mp he
    refine (session_run_drops fun n hn heq => ?_).trans (hfree e hnew hold)
    exact hold ((Prod.mk.inj heq).2 ▸ (mem_gone.mp hn).1)
  have hgone : ∀ n ∈ gone old new, (s.session (x, n)).isSome = true := by
    intro n hn
    obtain ⟨e, he, rfl⟩ := List.mem_map.mp (mem_gone.mp hn).1
    exact hbacked e he
  have hdropped (y : π) : dropped.sessions y =
      if y = x then (s.sessions x).filter (fun e => ∀ n ∈ gone old new, e.2 ≠ (x, n))
      else s.sessions y := sessions_run_drops hgone y
  obtain ⟨hopened, htables⟩ := run_connects nonce hfresh hnone
  rw [hrun]
  refine ⟨hopened, fun y => (htables y).trans ?_⟩
  by_cases hy : y = x
  · rw [if_pos hy, if_pos hy, (hdropped x).trans (if_pos rfl)]
  · rw [if_neg hy, if_neg hy, (hdropped y).trans (if_neg hy)]

theorem switched (nonce : π × Nat → UInt64) (h : Replaces old new)
    (hbacked : ∀ e ∈ old, (s.session (x, e.serial)).isSome = true)
    (hfree : ∀ e ∈ new, e.serial ∉ old.map (·.serial) → s.session (x, e.serial) = none)
    (htable : (s.sessions x).Perm (old.map (entry x))) :
    Switched nonce x old new s (Runs.run (HolePunch.step nonce) s (switch x old new)) := by
  obtain ⟨hopened, htables⟩ := run_switch nonce h.nodup' hbacked hfree
  refine ⟨fun id hid => ?_, fun y hy => (htables y).trans (if_neg hy), fun n hn => ?_,
    fun e he hserial => hopened e (mem_fresh.mpr ⟨he, hserial⟩), ?_⟩
  · have hne : ∀ n, id ≠ (x, n) := fun n heq => hid (heq ▸ rfl)
    exact session_run_switch (fun n _ => hne n) fun e _ => hne e.serial
  · refine session_run_switch (fun m hm heq => ?_) fun e he heq => ?_
    · obtain ⟨hold, hnew⟩ := mem_gone.mp hm
      exact hnew ((Prod.mk.inj heq).2 ▸ hn.mp ((Prod.mk.inj heq).2 ▸ hold))
    · obtain ⟨hnew, hold⟩ := mem_fresh.mp he
      exact hold ((Prod.mk.inj heq).2 ▸ hn.mpr ((Prod.mk.inj heq).2 ▸ List.mem_map_of_mem hnew))
  · rw [htables, if_pos rfl]
    refine ((htable.filter _).append_right _).trans ?_
    rw [filter_entry_gone, ← List.map_append]
    exact h.perm_append_fresh.map (entry x)

end

end

/-! ## The sessions of a peer -/

/-- No two sessions of the peer are the same object, and all were opened before. -/
structure Numbered (p : Peer) : Prop where
  nodup : (p.sessions.map (·.serial)).Nodup
  lt : ∀ e ∈ p.sessions, e.serial < p.created

section

variable {p : Peer}

theorem Numbered.reopen (h : Numbered p) (force : Bool) (a : SocketAddr) :
    Numbered (p.reopen force a) := by
  rcases Peer.reopen_cases force p a with ⟨-, heq⟩ | ⟨-, heq⟩
  · rw [heq]
    exact h
  · rw [heq]
    refine ⟨KeyedList.nodup_map_put h.nodup fun hmem => ?_, fun e he => ?_⟩
    · obtain ⟨e, he, heq⟩ := List.mem_map.mp hmem
      exact absurd heq (Nat.ne_of_lt (h.lt e he))
    · rcases KeyedList.mem_of_mem_put he with rfl | he
      · exact Nat.lt_succ_self _
      · exact Nat.lt_succ_of_lt (h.lt e he)

theorem Numbered.tryCreateTunnel (h : Numbered p) (force : Bool) :
    Numbered (p.tryCreateTunnel force) := by
  rw [Peer.tryCreateTunnel_eq]
  have hretained : Numbered { p with sessions := p.sessions.filter (·.addr ∈ p.candidateAddrs) } :=
    ⟨h.nodup.sublist (List.filter_sublist.map _), fun e he => h.lt e (List.mem_of_mem_filter he)⟩
  generalize p.candidateAddrs = addrs at hretained ⊢
  generalize { p with sessions := p.sessions.filter (·.addr ∈ addrs) } = q at hretained ⊢
  induction addrs generalizing q with
  | nil => exact hretained
  | cons a addrs ih => exact ih _ (hretained.reopen force a)

theorem numbered_new (info : PeerInfo) (localPeerId : PeerId) : Numbered (.new info localPeerId) := by
  unfold Peer.new
  refine Numbered.tryCreateTunnel ⟨?_, fun e he => ?_⟩ false
  · exact List.nodup_nil
  · exact absurd he List.not_mem_nil

theorem Numbered.updateInfo (h : Numbered p) (info : PeerInfo) (localPeerId : PeerId) :
    Numbered (p.updateInfo info localPeerId) := by
  obtain ⟨-, -, hsessions, hcreated⟩ := Peer.identified_spec p info localPeerId
  rw [Peer.updateInfo_eq]
  refine Numbered.tryCreateTunnel ⟨hsessions ▸ h.nodup, fun e he => ?_⟩ _
  exact Nat.lt_of_lt_of_le (h.lt e (hsessions ▸ he)) hcreated

/-- A session after an update is one from before, or a new one as `connect` makes it. -/
theorem mem_updateInfo (hp : p.WellFormed) {info : PeerInfo} {localPeerId : PeerId} {e : PeerSession}
    (he : e ∈ (p.updateInfo info localPeerId).sessions) :
    e ∈ p.sessions ∨ p.created ≤ e.serial ∧ e.state = .connecting ∧ e.rtt = none := by
  obtain ⟨-, -, hsessions, hcreated⟩ := Peer.identified_spec p info localPeerId
  have hnodup := Peer.nodup_identified hp info localPeerId
  rcases ((Peer.recreated_updateInfo hp info localPeerId).of_mem hnodup he).2 with
    ⟨-, hold⟩ | ⟨-, serial, hle, -, heq⟩
  · exact Or.inl (hsessions ▸ hold)
  · rw [heq]
    exact Or.inr ⟨Nat.le_trans hcreated hle, rfl, rfl⟩

theorem mem_new {info : PeerInfo} {localPeerId : PeerId} {e : PeerSession}
    (he : e ∈ (Peer.new info localPeerId).sessions) : e.state = .connecting ∧ e.rtt = none := by
  let start : Peer :=
    { info, localPeerId, sessions := [], selected := none, codec := buildCodec info localPeerId 0,
      created := 1 }
  have hnodup : start.addrs.Nodup := List.nodup_nil
  have hcreated : Peer.Recreated false start (.new info localPeerId) :=
    Peer.recreated_tryCreateTunnel _ hnodup
  rcases (hcreated.of_mem hnodup he).2 with ⟨-, hold⟩ | ⟨-, serial, -, -, heq⟩
  · cases hold
  · rw [heq]
    exact ⟨rfl, rfl⟩

theorem replaces_updateInfo (hp : p.WellFormed) (h : Numbered p) (info : PeerInfo)
    (localPeerId : PeerId) : Replaces p.sessions (p.updateInfo info localPeerId).sessions where
  nodup := h.nodup
  nodup' := (h.updateInfo info localPeerId).nodup
  kept e he hserial := by
    rcases mem_updateInfo hp he with hold | ⟨hle, -⟩
    · exact hold
    · obtain ⟨f, hf, heq⟩ := List.mem_map.mp hserial
      have hlt := h.lt f hf
      omega

end

/-! ## The system -/

/-- A peer object: not there yet, in use, or dropped for good. -/
inductive Slot where
  | free
  | held (p : Peer)
  | dropped

/-- The peers of all nodes, and their sessions. In a peer stand the states and the round-trip times
that it read last. -/
structure State (π : Type*) where
  slots : π → Slot
  punch : HolePunch.State π (π × Nat)

inductive Event (π : Type*) where
  | new (x : π) (info : PeerInfo) (localPeerId : PeerId)
  | updateInfo (x : π) (info : PeerInfo) (localPeerId : PeerId)
  | selectSession (x : π)
  /-- The last reference to the peer is gone. -/
  | drop (x : π)
  /-- `inbound` is called with a datagram from the network. -/
  | deliver (x : π) (datagram : Datagram)
  | queue (call : HolePunch.Call (π × Nat))
  /-- A task of a session goes on. -/
  | act (id : π × Nat) (action : UdpTunnelSession.Action)

section

variable {π : Type*}

/-- The session as the peer reads it. -/
def look (punch : HolePunch.State π (π × Nat)) (x : π) (e : PeerSession) : PeerSession :=
  match punch.session (x, e.serial) with
  | some t => { e with state := t.state, rtt := t.rtt.map .fromMillis }
  | none => e

def readSessions (punch : HolePunch.State π (π × Nat)) (x : π) (p : Peer) : Peer :=
  { p with sessions := p.sessions.map (look punch x) }

def State.peer (s : State π) (x : π) : Option Peer :=
  match s.slots x with
  | .held p => some (readSessions s.punch x p)
  | .free | .dropped => none

/-- What an event does to the sessions. -/
def acts (s : State π) : Event π → List (HolePunch.Event π (π × Nat))
  | .new x info localPeerId =>
    match s.slots x with
    | .free => switch x [] (Peer.new info localPeerId).sessions
    | .held _ | .dropped => []
  | .updateInfo x info localPeerId =>
    match s.peer x with
    | some p => switch x p.sessions (p.updateInfo info localPeerId).sessions
    | none => []
  | .selectSession _ => []
  | .drop x =>
    match s.peer x with
    | some p => switch x p.sessions []
    | none => []
  | .deliver x datagram => [.deliver x datagram]
  | .queue call => [.queue call]
  | .act id action => [.act id action]

variable [DecidableEq π]

/-- What an event does to the peers. -/
def slotsAfter (s : State π) : Event π → π → Slot
  | .new x info localPeerId =>
    match s.slots x with
    | .free => Function.update s.slots x (.held (.new info localPeerId))
    | .held _ | .dropped => s.slots
  | .updateInfo x info localPeerId =>
    match s.peer x with
    | some p => Function.update s.slots x (.held (p.updateInfo info localPeerId))
    | none => s.slots
  | .selectSession x =>
    match s.peer x with
    | some p => Function.update s.slots x (.held p.selectSession)
    | none => s.slots
  | .drop x =>
    match s.peer x with
    | some _ => Function.update s.slots x .dropped
    | none => s.slots
  | .deliver _ _ | .queue _ | .act _ _ => s.slots

def step (nonce : π × Nat → UInt64) (s : State π) (e : Event π) : State π :=
  ⟨slotsAfter s e, Runs.run (HolePunch.step nonce) s.punch (acts s e)⟩

def State.initial : State π := ⟨fun _ => .free, .initial⟩

def run (nonce : π × Nat → UInt64) (es : List (Event π)) : State π :=
  Runs.run (step nonce) .initial es

/-- What a run does to the sessions. -/
def trace (nonce : π × Nat → UInt64) (es : List (Event π)) : List (HolePunch.Event π (π × Nat)) :=
  Runs.blocks (step nonce) acts .initial es

theorem punch_run (nonce : π × Nat → UInt64) (es : List (Event π)) :
    (run nonce es).punch = HolePunch.run nonce (trace nonce es) :=
  Runs.run_blocks (f := State.punch) (fun _ _ => rfl) .initial es

end

/-! ## What a peer reads -/

section

variable {π : Type*} {punch punch' : HolePunch.State π (π × Nat)} {x : π} {e : PeerSession} {p : Peer}

@[simp] theorem serial_look : (look punch x e).serial = e.serial := by
  unfold look
  split <;> rfl

@[simp] theorem localPeerId_look : (look punch x e).localPeerId = e.localPeerId := by
  unfold look
  split <;> rfl

@[simp] theorem entry_look : entry x (look punch x e) = entry x e := by
  unfold look
  split <;> rfl

theorem look_congr (h : punch'.session (x, e.serial) = punch.session (x, e.serial)) :
    look punch' x e = look punch x e := by
  unfold look
  rw [h]

@[simp] theorem look_look : look punch x (look punch x e) = look punch x e := by
  cases h : punch.session (x, e.serial) with
  | none =>
    have hlook : look punch x e = e := by
      unfold look
      rw [h]
    rw [hlook, hlook]
  | some t =>
    unfold look
    simp only [h]

theorem serials_readSessions :
    (readSessions punch x p).sessions.map (·.serial) = p.sessions.map (·.serial) := by
  simp [readSessions]

theorem entries_readSessions :
    (readSessions punch x p).sessions.map (entry x) = p.sessions.map (entry x) := by
  simp [readSessions]

theorem Numbered.readSessions (h : Numbered p) : Numbered (readSessions punch x p) := by
  refine ⟨by rw [serials_readSessions]; exact h.nodup, fun e he => ?_⟩
  obtain ⟨f, hf, rfl⟩ := List.mem_map.mp he
  rw [serial_look]
  exact h.lt f hf

theorem readSessions_eq (h : ∀ e ∈ p.sessions, look punch x e = e) : readSessions punch x p = p := by
  have hmap : p.sessions.map (look punch x) = p.sessions :=
    (List.map_congr_left h).trans (List.map_id _)
  rw [readSessions, hmap]

end

/-! ## What a run keeps -/

section

variable {π : Type*} {nonce : π × Nat → UInt64} {x : π} {p : Peer}
  {punch punch' : HolePunch.State π (π × Nat)}

/-- The peer and its sessions belong together. What the peer reads is one of its lives, every session
of the peer is there, and the table that `inbound` searches is that of the peer. -/
structure Backed (punch : HolePunch.State π (π × Nat)) (x : π) (p : Peer) : Prop where
  lived : ∃ info localPeerId es,
    readSessions punch x p = Runs.run Peer.step (.new info localPeerId) es
  numbered : Numbered p
  unborn : ∀ n, p.created ≤ n → punch.session (x, n) = none
  backed : ∀ e ∈ p.sessions, ∃ t, punch.session (x, e.serial) = some t ∧ t.peerId = e.localPeerId
  table : (punch.sessions x).Perm (p.sessions.map (entry x))

theorem Backed.wellFormed (h : Backed punch x p) : (readSessions punch x p).WellFormed := by
  obtain ⟨info, localPeerId, es, heq⟩ := h.lived
  rw [heq]
  exact Peer.wellFormed_run info localPeerId es

/-- The sessions of the peer go on, and what it reads changes with them. -/
theorem Backed.goOn (h : Backed punch x p) (htable : punch'.sessions x = punch.sessions x)
    (hnone : ∀ n, punch.session (x, n) = none → punch'.session (x, n) = none)
    (hsome : ∀ n t, punch.session (x, n) = some t →
      ∃ t', punch'.session (x, n) = some t' ∧ t'.peerId = t.peerId)
    (hread : ∃ es, readSessions punch' x p = Runs.run Peer.step (readSessions punch x p) es) :
    Backed punch' x p where
  lived := by
    obtain ⟨info, localPeerId, before, heq⟩ := h.lived
    obtain ⟨after, hafter⟩ := hread
    refine ⟨info, localPeerId, before ++ after, ?_⟩
    rw [hafter, heq, Runs.run_append]
  numbered := h.numbered
  unborn n hn := hnone n (h.unborn n hn)
  backed e he := by
    obtain ⟨t, ht, hid⟩ := h.backed e he
    obtain ⟨t', ht', hid'⟩ := hsome e.serial t ht
    exact ⟨t', ht', hid'.trans hid⟩
  table := htable ▸ h.table

/-- A step that leaves the sessions of the peer alone. -/
theorem Backed.of_same (h : Backed punch x p) (htable : punch'.sessions x = punch.sessions x)
    (hsession : ∀ n, punch'.session (x, n) = punch.session (x, n)) : Backed punch' x p := by
  refine h.goOn htable (fun n hn => (hsession n).trans hn) (fun n t ht => ?_) ⟨[], ?_⟩
  · exact ⟨t, (hsession n).trans ht, rfl⟩
  · have hmap : p.sessions.map (look punch' x) = p.sessions.map (look punch x) :=
      List.map_congr_left fun e _ => look_congr (hsession e.serial)
    rw [Runs.run_nil, readSessions, readSessions, hmap]

/-- One session goes on, and the peer reads its new state and round-trip time. -/
theorem Backed.of_update (h : Backed punch x p) (htable : punch'.sessions x = punch.sessions x) {n : Nat}
    {t t' : UdpTunnelSession} (ht : punch.session (x, n) = some t)
    (ht' : punch'.session (x, n) = some t') (hid : t'.peerId = t.peerId)
    (hother : ∀ m, m ≠ n → punch'.session (x, m) = punch.session (x, m)) : Backed punch' x p := by
  refine h.goOn htable (fun m hm => ?_) (fun m u hu => ?_)
    ⟨[.session n t'.state (t'.rtt.map .fromMillis)], ?_⟩
  · by_cases hmn : m = n
    · subst hmn
      cases ht.symm.trans hm
    · exact (hother m hmn).trans hm
  · by_cases hmn : m = n
    · subst hmn
      obtain rfl := Option.some.inj (ht.symm.trans hu)
      exact ⟨t', ht', hid⟩
    · exact ⟨u, (hother m hmn).trans hu, rfl⟩
  · have hmap : ∀ e ∈ p.sessions, look punch' x e =
        if (look punch x e).serial = n then
          { look punch x e with state := t'.state, rtt := t'.rtt.map .fromMillis }
        else look punch x e := by
      intro e _
      rw [serial_look]
      by_cases hen : e.serial = n
      · subst hen
        rw [if_pos rfl]
        simp only [look, ht, ht']
      · rw [if_neg hen]
        exact look_congr (hother e.serial hen)
    have hlist : p.sessions.map (look punch' x) = (p.sessions.map (look punch x)).map fun e =>
        if e.serial = n then { e with state := t'.state, rtt := t'.rtt.map .fromMillis } else e := by
      rw [List.map_map]
      exact List.map_congr_left hmap
    rw [readSessions, hlist]
    rfl

/-- A peer whose sessions have taken the place of `old`. -/
theorem backed_of_switched [DecidableEq π] {old : List PeerSession}
    (hswitched : Switched nonce x old p.sessions punch punch')
    (hlived : ∃ info localPeerId es, p = Runs.run Peer.step (.new info localPeerId) es)
    (hnumbered : Numbered p) (hold : ∀ e ∈ old, look punch x e = e ∧ e.serial < p.created ∧
      ∃ t, punch.session (x, e.serial) = some t ∧ t.peerId = e.localPeerId)
    (hnew : ∀ e ∈ p.sessions, e ∈ old ∨
      e.serial ∉ old.map (·.serial) ∧ e.state = .connecting ∧ e.rtt = none)
    (hunborn : ∀ n, p.created ≤ n → punch.session (x, n) = none) : Backed punch' x p := by
  have hsession : ∀ e ∈ p.sessions, look punch' x e = e ∧
      ∃ t, punch'.session (x, e.serial) = some t ∧ t.peerId = e.localPeerId := by
    intro e he
    rcases hnew e he with hmem | ⟨hserial, hstate, hrtt⟩
    · obtain ⟨hlook, -, t, ht, hid⟩ := hold e hmem
      have hsame := hswitched.same e.serial
        ⟨fun _ => List.mem_map_of_mem he, fun _ => List.mem_map_of_mem hmem⟩
      exact ⟨(look_congr hsame).trans hlook, t, hsame.trans ht, hid⟩
    · have hopened := hswitched.opened e he hserial
      refine ⟨?_, _, hopened, rfl⟩
      obtain ⟨addr, localPeerId, state, rtt, serial⟩ := e
      obtain rfl : state = .connecting := hstate
      obtain rfl : rtt = none := hrtt
      simp only [look, hopened]
      rfl
  refine ⟨?_, hnumbered, fun n hn => ?_, fun e he => (hsession e he).2, hswitched.table⟩
  · rw [readSessions_eq fun e he => (hsession e he).1]
    exact hlived
  · refine (hswitched.same n ⟨fun hmem => ?_, fun hmem => ?_⟩).trans (hunborn n hn)
    · obtain ⟨e, he, rfl⟩ := List.mem_map.mp hmem
      have hlt := (hold e he).2.1
      omega
    · obtain ⟨e, he, rfl⟩ := List.mem_map.mp hmem
      have hlt := hnumbered.lt e he
      omega

/-- What the peer reads, session by session. -/
theorem Backed.read (h : Backed punch x p) {e : PeerSession}
    (he : e ∈ (readSessions punch x p).sessions) : look punch x e = e ∧ e.serial < p.created ∧
      ∃ t, punch.session (x, e.serial) = some t ∧ t.peerId = e.localPeerId := by
  obtain ⟨f, hf, rfl⟩ := List.mem_map.mp he
  obtain ⟨t, ht, hid⟩ := h.backed f hf
  refine ⟨look_look, ?_, t, ?_, ?_⟩
  · rw [serial_look]
    exact h.numbered.lt f hf
  · rw [serial_look]
    exact ht
  · rw [localPeerId_look]
    exact hid

theorem Backed.selectSession (h : Backed punch x p) :
    Backed punch x (readSessions punch x p).selectSession where
  lived := by
    obtain ⟨info, localPeerId, es, heq⟩ := h.lived
    have hread : readSessions punch x (readSessions punch x p).selectSession =
        (readSessions punch x p).selectSession := readSessions_eq fun e he => (h.read he).1
    refine ⟨info, localPeerId, es ++ [.selectSession], ?_⟩
    rw [hread, Runs.run_concat, ← heq]
    rfl
  numbered := by
    have hnumbered : Numbered (readSessions punch x p) := h.numbered.readSessions
    exact ⟨hnumbered.nodup, hnumbered.lt⟩
  unborn n hn := h.unborn n hn
  backed e he := (h.read he).2.2
  table := by
    have hentries : (readSessions punch x p).sessions.map (entry x) = p.sessions.map (entry x) :=
      entries_readSessions
    exact h.table.trans (.of_eq hentries.symm)

theorem switched_of_backed [DecidableEq π] (nonce : π × Nat → UInt64) (h : Backed punch x p)
    {new : List PeerSession} (hreplaces : Replaces (readSessions punch x p).sessions new)
    (hnew : ∀ e ∈ new, e ∈ (readSessions punch x p).sessions ∨ p.created ≤ e.serial) :
    Switched nonce x (readSessions punch x p).sessions new punch
      (Runs.run (HolePunch.step nonce) punch (switch x (readSessions punch x p).sessions new)) := by
  refine switched nonce hreplaces (fun e he => ?_) (fun e he hserial => ?_) ?_
  · obtain ⟨-, -, t, ht, -⟩ := h.read he
    rw [ht]
    rfl
  · rcases hnew e he with hold | hle
    · exact absurd (List.mem_map_of_mem hold) hserial
    · exact h.unborn e.serial hle
  · rw [entries_readSessions]
    exact h.table

theorem Backed.updateInfo [DecidableEq π] (nonce : π × Nat → UInt64) (h : Backed punch x p)
    (info : PeerInfo) (localPeerId : PeerId) :
    let q := (readSessions punch x p).updateInfo info localPeerId
    let events := switch x (readSessions punch x p).sessions q.sessions
    Switched nonce x (readSessions punch x p).sessions q.sessions punch
        (Runs.run (HolePunch.step nonce) punch events) ∧
      Backed (Runs.run (HolePunch.step nonce) punch events) x q := by
  intro q events
  have hp := h.wellFormed
  have hnumbered : Numbered (readSessions punch x p) := h.numbered.readSessions
  have hmem : ∀ e ∈ q.sessions, e ∈ (readSessions punch x p).sessions ∨
      p.created ≤ e.serial ∧ e.state = .connecting ∧ e.rtt = none :=
    fun e he => mem_updateInfo hp he
  have hcreated : p.created ≤ q.created := by
    obtain ⟨-, -, -, hle⟩ := Peer.identified_spec (readSessions punch x p) info localPeerId
    exact Nat.le_trans hle (Peer.recreated_updateInfo hp info localPeerId).created
  have hswitched := switched_of_backed nonce h (replaces_updateInfo hp hnumbered info localPeerId)
    fun e he => (hmem e he).imp_right And.left
  refine ⟨hswitched, backed_of_switched hswitched ?_ (hnumbered.updateInfo info localPeerId)
    (fun e he => ?_) (fun e he => ?_) fun n hn => h.unborn n (Nat.le_trans hcreated hn)⟩
  · obtain ⟨info₀, localPeerId₀, es, heq⟩ := h.lived
    refine ⟨info₀, localPeerId₀, es ++ [.updateInfo info localPeerId], ?_⟩
    rw [Runs.run_concat, ← heq]
    rfl
  · obtain ⟨hlook, hlt, ht⟩ := h.read he
    exact ⟨hlook, Nat.lt_of_lt_of_le hlt hcreated, ht⟩
  · refine (hmem e he).imp_right fun ⟨hle, hfresh⟩ => ⟨fun hserial => ?_, hfresh⟩
    obtain ⟨f, hf, heq⟩ := List.mem_map.mp hserial
    have hlt := hnumbered.lt f hf
    have hsame : (readSessions punch x p).created = p.created := rfl
    omega

theorem backed_new [DecidableEq π] (nonce : π × Nat → UInt64) (info : PeerInfo) (localPeerId : PeerId)
    (htable : punch.sessions x = []) (hnone : ∀ n, punch.session (x, n) = none) :
    let q := Peer.new info localPeerId
    Switched nonce x [] q.sessions punch
        (Runs.run (HolePunch.step nonce) punch (switch x [] q.sessions)) ∧
      Backed (Runs.run (HolePunch.step nonce) punch (switch x [] q.sessions)) x q := by
  intro q
  have hnumbered : Numbered q := numbered_new info localPeerId
  have hreplaces : Replaces [] q.sessions :=
    ⟨List.nodup_nil, hnumbered.nodup, fun e _ hserial => absurd hserial List.not_mem_nil⟩
  have hswitched := switched nonce hreplaces (fun e he => absurd he List.not_mem_nil)
    (fun e _ _ => hnone e.serial) (htable ▸ List.Perm.nil)
  refine ⟨hswitched, backed_of_switched hswitched ⟨info, localPeerId, [], rfl⟩ hnumbered
    (fun e he => absurd he List.not_mem_nil) (fun e he => ?_) fun n _ => hnone n⟩
  exact Or.inr ⟨List.not_mem_nil, mem_new he⟩

end

section

variable {π : Type*} {nonce : π × Nat → UInt64} {s : State π}

/-- Every peer in use is backed, and one that is not there yet has no sessions. -/
structure Sound (s : State π) : Prop where
  free : ∀ x, s.slots x = .free →
    s.punch.sessions x = [] ∧ ∀ n, s.punch.session (x, n) = none
  held : ∀ x p, s.slots x = .held p → Backed s.punch x p

theorem sound_initial : Sound (.initial : State π) where
  free _ _ := ⟨rfl, fun _ => rfl⟩
  held _ _ h := by cases h

theorem backed_of_peer (h : Sound s) {x : π} {r : Peer} (hr : s.peer x = some r) :
    ∃ p, r = readSessions s.punch x p ∧ Backed s.punch x p := by
  unfold State.peer at hr
  split at hr
  · rename_i p hslot
    exact ⟨p, (Option.some.inj hr).symm, h.held x p hslot⟩
  · cases hr
  · cases hr

theorem Sound.of_same (h : Sound s) {punch : HolePunch.State π (π × Nat)}
    (htable : punch.sessions = s.punch.sessions) (hsession : punch.session = s.punch.session) :
    Sound ⟨s.slots, punch⟩ where
  free x hx := by
    rw [htable, hsession]
    exact h.free x hx
  held x p hx := (h.held x p hx).of_same (congrFun htable x) fun n => congrFun hsession (x, n)

variable [DecidableEq π]

/-- One session goes on. -/
theorem Sound.of_put (h : Sound s) {id : π × Nat} {t t' : UdpTunnelSession}
    (ht : s.punch.session id = some t) (hid : t'.peerId = t.peerId)
    {punch : HolePunch.State π (π × Nat)} (htable : punch.sessions = s.punch.sessions)
    (hsession : punch.session = (s.punch.put id t').session) : Sound ⟨s.slots, punch⟩ where
  free x hx := by
    obtain ⟨hnil, hnone⟩ := h.free x hx
    refine ⟨(congrFun htable x).trans hnil, fun n => ?_⟩
    have hne : (x, n) ≠ id := by
      rintro rfl
      cases ht.symm.trans (hnone n)
    exact (congrFun hsession (x, n)).trans ((HolePunch.put_session_of_ne hne).trans (hnone n))
  held x p hx := by
    obtain ⟨y, n⟩ := id
    have hother : ∀ z m, (z, m) ≠ (y, n) → punch.session (z, m) = s.punch.session (z, m) :=
      fun z m hne => (congrFun hsession (z, m)).trans (HolePunch.put_session_of_ne hne)
    by_cases hxy : x = y
    · subst hxy
      have hself : punch.session (x, n) = some t' :=
        (congrFun hsession (x, n)).trans HolePunch.put_session_self
      refine (h.held x p hx).of_update (congrFun htable x) ht hself hid fun m hm => hother x m ?_
      exact fun heq => hm (Prod.mk.inj heq).2
    · refine (h.held x p hx).of_same (congrFun htable x) fun m => hother x m ?_
      exact fun heq => hxy (Prod.mk.inj heq).1

/-- What the network does, and what the sessions do by themselves, opens no session and drops none. -/
theorem Sound.of_network (h : Sound s) (nonce : π × Nat → UInt64)
    (event : HolePunch.Event π (π × Nat))
    (hconnect : ∀ y target id localPeerId, event ≠ .connect y target id localPeerId)
    (hdrop : ∀ y id, event ≠ .drop y id) :
    Sound ⟨s.slots, HolePunch.step nonce s.punch event⟩ := by
  have heffect := HolePunch.step_effect nonce s.punch event
  generalize HolePunch.step nonce s.punch event = punch at heffect
  cases heffect with
  | idle | deliver | finish | skip => exact h.of_same rfl rfl
  | connect y target id localPeerId => exact absurd rfl (hconnect y target id localPeerId)
  | drop y id => exact absurd rfl (hdrop y id)
  | queue call hcall rest id t ht =>
    have hid : { t with recv := t.recv ++ [call.1] }.peerId = t.peerId := rfl
    exact h.of_put ht hid rfl rfl
  | act id action t ht => exact h.of_put ht (UdpTunnelSession.identity_act t action).2 rfl rfl

/-- One peer changes, with its sessions. -/
theorem Sound.of_others (h : Sound s) {x : π} {punch : HolePunch.State π (π × Nat)}
    (hothers : ∀ y, y ≠ x → punch.sessions y = s.punch.sessions y ∧
      ∀ n, punch.session (y, n) = s.punch.session (y, n))
    {slot : Slot} (hfree : slot ≠ .free) (hslot : ∀ p, slot = .held p → Backed punch x p) :
    Sound ⟨Function.update s.slots x slot, punch⟩ where
  free y hy := by
    by_cases hyx : y = x
    · subst hyx
      exact absurd ((Function.update_self y slot s.slots).symm.trans hy) hfree
    · obtain ⟨htable, hsession⟩ := hothers y hyx
      obtain ⟨hnil, hnone⟩ := h.free y ((Function.update_of_ne hyx slot s.slots).symm.trans hy)
      exact ⟨htable.trans hnil, fun n => (hsession n).trans (hnone n)⟩
  held y p hy := by
    by_cases hyx : y = x
    · subst hyx
      exact hslot p ((Function.update_self y slot s.slots).symm.trans hy)
    · obtain ⟨htable, hsession⟩ := hothers y hyx
      have hbefore := h.held y p ((Function.update_of_ne hyx slot s.slots).symm.trans hy)
      exact hbefore.of_same htable hsession

omit [DecidableEq π] in
theorem Switched.others {x : π} {old new : List PeerSession} {punch punch' : HolePunch.State π (π × Nat)}
    (h : Switched nonce x old new punch punch') (y : π) (hy : y ≠ x) :
    punch'.sessions y = punch.sessions y ∧ ∀ n, punch'.session (y, n) = punch.session (y, n) :=
  ⟨h.otherTable y hy, fun n => h.other (y, n) hy⟩

theorem Sound.step (h : Sound s) (e : Event π) : Sound (step nonce s e) := by
  cases e with
  | new x info localPeerId =>
    simp only [DirectPath.step, slotsAfter, acts]
    split
    · rename_i hfree
      obtain ⟨htable, hnone⟩ := h.free x hfree
      obtain ⟨hswitched, hbacked⟩ := backed_new nonce info localPeerId htable hnone
      refine h.of_others hswitched.others (by simp) fun p hp => ?_
      obtain rfl := Slot.held.inj hp
      exact hbacked
    · exact h
    · exact h
  | updateInfo x info localPeerId =>
    simp only [DirectPath.step, slotsAfter, acts]
    split
    · rename_i r hr
      obtain ⟨p, rfl, hbacked⟩ := backed_of_peer h hr
      obtain ⟨hswitched, hafter⟩ := hbacked.updateInfo nonce info localPeerId
      refine h.of_others hswitched.others (by simp) fun q hq => ?_
      obtain rfl := Slot.held.inj hq
      exact hafter
    · exact h
  | selectSession x =>
    simp only [DirectPath.step, slotsAfter, acts]
    split
    · rename_i r hr
      obtain ⟨p, rfl, hbacked⟩ := backed_of_peer h hr
      refine h.of_others (fun y _ => ⟨rfl, fun n => rfl⟩) (by simp) fun q hq => ?_
      obtain rfl := Slot.held.inj hq
      exact hbacked.selectSession
    · exact h
  | drop x =>
    simp only [DirectPath.step, slotsAfter, acts]
    split
    · rename_i r hr
      obtain ⟨p, rfl, hbacked⟩ := backed_of_peer h hr
      have hreplaces : Replaces (readSessions s.punch x p).sessions [] :=
        ⟨hbacked.numbered.readSessions.nodup, List.nodup_nil, fun e he => absurd he List.not_mem_nil⟩
      have hswitched := switched_of_backed nonce hbacked hreplaces
        fun e he => absurd he List.not_mem_nil
      exact h.of_others hswitched.others (by simp) fun q hq => by cases hq
    · exact h
  | deliver x datagram => exact h.of_network nonce (.deliver x datagram) (by simp) (by simp)
  | queue call => exact h.of_network nonce (.queue call) (by simp) (by simp)
  | act id action => exact h.of_network nonce (.act id action) (by simp) (by simp)

theorem sound_run (nonce : π × Nat → UInt64) (es : List (Event π)) : Sound (run nonce es) :=
  Runs.invariant_of_step (P := fun _ s => Sound s) sound_initial (fun _ _ e h => h.step e) es

/-- The direct path of a peer was answered. In every run of any number of peers with their sessions,
over a network that loses, repeats and reorders datagrams and makes up no nonce, what the peers do to
their sessions is a run of the handshake, and every peer in use:

* lives one of the lives of a peer whose sessions change by themselves;
* hands what comes in to the sessions that it has, which sign with the id that it gave them;
* if it has a direct path, has a session to this address, one of its candidates, that was signalled by
  an Ack with its nonce; and before this Ack was delivered to the session, a Seq with the nonce had been
  delivered to a session of some peer, which had answered it. -/
theorem direct_path_answered (nonce : π × Nat → UInt64) (es : List (Event π)) :
    (run nonce es).punch = HolePunch.run nonce (trace nonce es) ∧
    ∀ x p, (run nonce es).peer x = some p →
      (∃ info localPeerId events, p = Runs.run Peer.step (.new info localPeerId) events) ∧
      ((run nonce es).punch.sessions x).Perm (p.sessions.map (entry x)) ∧
      (∀ e ∈ p.sessions, ∃ t, (run nonce es).punch.session (x, e.serial) = some t ∧
        t.peerId = e.localPeerId ∧ t.state = e.state) ∧
      ∀ addr, p.address = some addr → addr ∈ p.candidateAddrs ∧
        ∃ e ∈ p.sessions, e.addr = addr ∧
          ∃ d, Carries .ack (nonce (x, e.serial)) d.1 ∧
            HolePunch.Signalled nonce (trace nonce es) (x, e.serial) d ∧
            HolePunch.DeliveredAfterSeq nonce (trace nonce es) (x, e.serial) d
              (nonce (x, e.serial)) := by
  refine ⟨punch_run nonce es, fun x r hr => ?_⟩
  obtain ⟨p, rfl, hbacked⟩ := backed_of_peer (sound_run nonce es) hr
  have hsession : ∀ e ∈ (readSessions (run nonce es).punch x p).sessions, ∃ t,
      (run nonce es).punch.session (x, e.serial) = some t ∧ t.peerId = e.localPeerId ∧
        t.state = e.state := by
    intro e he
    obtain ⟨hlook, -, t, ht, hid⟩ := hbacked.read he
    have hstate : (look (run nonce es).punch x e).state = t.state := by
      simp only [look, ht]
    exact ⟨t, ht, hid, hstate.symm.trans (congrArg PeerSession.state hlook)⟩
  refine ⟨hbacked.lived, ?_, hsession, fun addr haddr => ?_⟩
  · rw [entries_readSessions]
    exact hbacked.table
  obtain ⟨hcandidate, e, he, heq, hconnected⟩ := Peer.address_spec hbacked.wellFormed haddr
  obtain ⟨t, ht, -, hstate⟩ := hsession e he
  rw [punch_run] at ht
  have hsound := (HolePunch.invariant_run nonce (trace nonce es)).session _ t ht
  have hheard : t.Heard := Or.inr (Or.inr (hstate.trans hconnected))
  obtain ⟨d, hdelivered, hsignalled, hack, -⟩ := hsound.heard hheard
  exact ⟨hcandidate, e, he, heq, d, hack, hsignalled, hdelivered.afterSeq hack⟩

end

namespace Sample

/-- Two nodes, each with one peer object, for the other node. -/
def nonce (id : Bool × Nat) : UInt64 := if id.1 then 11 else 22

def addr (x : Bool) : SocketAddr := .v4 (.ofOctets 192 0 2 (if x then 1 else 2)) 4000

/-- The peer that `x` is to the other node. -/
def info (x : Bool) : PeerInfo :=
  ⟨1, if x then 1 else 2, .v4 (.ofOctets 10 0 0 (if x then 1 else 2)), .replicate 16 0, .other,
    some (addr x), [], [], false⟩

def seq : List UInt8 := (controlPacket .seq 1 11).inner

def ack : List UInt8 := (controlPacket .ack 2 11).inner

/-- `true` learns of `false` and the reverse, and the Seq of `true` is answered. -/
def events : List (Event Bool) :=
  [.new true (info false) 1, .new false (info true) 2,
    .act (true, 1) (.handshake 0), .act (true, 1) (.send true),
    .deliver false (seq, addr true), .queue ((seq, addr true), [(false, 1)]),
    .act (false, 1) (.dispatch 1), .act (false, 1) (.dispatch 1), .act (false, 1) (.dispatch 1),
    .act (false, 1) (.dispatch 1), .act (false, 1) (.send true),
    .deliver true (ack, addr false), .queue ((ack, addr false), [(true, 1)]),
    .act (true, 1) (.dispatch 2), .act (true, 1) (.dispatch 2), .act (true, 1) (.dispatch 2),
    .act (true, 1) (.handshake 3), .act (true, 1) (.handshake 3), .selectSession true]

/-- `true` has a direct path, and `false` has none yet. -/
theorem direct_path_answered_events :
    ((run nonce events).peer false).bind Peer.address = none ∧
      ∃ p e d, (run nonce events).peer true = some p ∧ p.address = some (addr false) ∧
        e ∈ p.sessions ∧ e.addr = addr false ∧ HolePunch.DeliveredAfterSeq nonce (trace nonce events)
          (true, e.serial) d (nonce (true, e.serial)) := by
  have haddress : ((run nonce events).peer true).bind Peer.address = some (addr false) := by
    decide +kernel
  obtain ⟨p, hp, haddr⟩ := Option.bind_eq_some_iff.mp haddress
  obtain ⟨-, e, he, heq, d, -, -, hafter⟩ :=
    ((direct_path_answered nonce events).2 true p hp).2.2.2 (addr false) haddr
  exact ⟨by decide +kernel, p, e, d, hp, haddr, he, heq, hafter⟩

end Sample

end Noeio.DirectPath
