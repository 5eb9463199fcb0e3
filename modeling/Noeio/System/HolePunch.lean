import Noeio.Lib.Runs
import Noeio.Tunnel.UdpSession

/-!
# The hole-punch handshake

Any number of sessions on any number of peers of any number of nodes, and the network between
them. `wire` is every datagram a session ever put on the network; the network hands a copy of
one to a peer whenever it likes, with any source address, and may as well hand over anything
that carries no nonce of a handshake. So datagrams are lost, duplicated, delayed and reordered,
and no nonce is made up. `Peer::inbound` (`noeio/src/daemon/peer.rs`) queues a datagram to one
session after the other, and between any two of its steps everything else goes on.

`nonce id` is the nonce the session `id` draws when it is opened.

The argument runs along the way of an Ack. One that is queued, on the wire or held anywhere
echoes the nonce of a Seq that some session answered (`Sourced`), and a session is connected by
an Ack that it held (`heard_act`), so by one that echoes its own nonce (`carries_of_signals`).
-/

namespace Noeio.HolePunch

open UdpTunnelSession

/-- A datagram, and the sessions `inbound` has yet to queue it to. -/
abbrev Call (ι : Type*) := Datagram × List ι

/-- The sessions of each peer with their target addresses, the calls of `inbound` in progress,
and all that was ever sent. -/
structure State (π ι : Type*) where
  sessions : π → List (SocketAddr × ι)
  session : ι → Option UdpTunnelSession
  inbound : List (Call ι)
  wire : List (List UInt8)

inductive Event (π ι : Type*) where
  /-- A session is opened. One that it replaces is dropped first. -/
  | connect (peer : π) (target : SocketAddr) (id : ι) (localPeerId : PeerId)
  | drop (peer : π) (id : ι)
  | deliver (peer : π) (datagram : Datagram)
  | queue (call : Call ι)
  | act (id : ι) (action : Action)

/-- The nonce of a Seq or an Ack. -/
def handshakeNonce (bytes : List UInt8) : Option UInt64 :=
  match NoeioPacket.tryFrom bytes with
  | some packet =>
    if packet.packetType = .seq ∨ packet.packetType = .ack then payloadU64 packet else none
  | none => none

section
variable {π ι : Type*} [DecidableEq π] [DecidableEq ι]

/-- The session whose address is the source, else all of them. -/
def targets (sessions : List (SocketAddr × ι)) (src : SocketAddr) : List ι :=
  match sessions.find? (·.1 = src) with
  | some entry => [entry.2]
  | none => sessions.map (·.2)

def State.put (s : State π ι) (id : ι) (session : UdpTunnelSession) : State π ι :=
  { s with session := Function.update s.session id (some session) }

def State.connect (s : State π ι) (nonce : ι → UInt64) (peer : π) (target : SocketAddr) (id : ι)
    (localPeerId : PeerId) : State π ι :=
  match s.session id with
  | none =>
    { s.put id (.connect localPeerId (nonce id)) with
      sessions := Function.update s.sessions peer (s.sessions peer ++ [(target, id)]) }
  | some _ => s

def State.drop (s : State π ι) (peer : π) (id : ι) : State π ι :=
  match s.session id with
  | some session =>
    { s.put id session.abort with
      sessions := Function.update s.sessions peer ((s.sessions peer).filter (·.2 ≠ id)) }
  | none => s

def State.deliver (s : State π ι) (peer : π) (datagram : Datagram) : State π ι :=
  if datagram.1 ∈ s.wire ∨ handshakeNonce datagram.1 = none then
    { s with inbound := (datagram, targets (s.sessions peer) datagram.2) :: s.inbound }
  else s

/-- `inbound` goes on to the next session. -/
def State.advance (s : State π ι) (call : Call ι) (rest : List ι) : State π ι :=
  { s with inbound := (call.1, rest) :: s.inbound.erase call }

/-- The next step of a call of `inbound`. It waits while the channel of the session is full. -/
def State.queue (s : State π ι) (call : Call ι) : State π ι :=
  match call with
  | (_, []) => { s with inbound := s.inbound.erase call }
  | (datagram, id :: rest) =>
    match s.session id with
    | some session =>
      match session.queue datagram with
      | .sent session => (s.put id session).advance call rest
      | .closed => s.advance call rest
      | .full => s
    | none => s.advance call rest

def State.act (s : State π ι) (id : ι) (action : Action) : State π ι :=
  match s.session id with
  | some session =>
    { s.put id (session.act action).1 with wire := s.wire ++ (session.act action).2.toList }
  | none => s

def step (nonce : ι → UInt64) (s : State π ι) : Event π ι → State π ι
  | .connect peer target id localPeerId => s.connect nonce peer target id localPeerId
  | .drop peer id => s.drop peer id
  | .deliver peer datagram => s.deliver peer datagram
  | .queue call => if call ∈ s.inbound then s.queue call else s
  | .act id action => s.act id action

def State.initial : State π ι := ⟨fun _ => [], fun _ => none, [], []⟩

def run (nonce : ι → UInt64) (es : List (Event π ι)) : State π ι :=
  Runs.run (step nonce) .initial es

variable {nonce : ι → UInt64}

/-! ## What a step can do -/

inductive Effect (nonce : ι → UInt64) (s : State π ι) : Event π ι → State π ι → Prop
  | idle (e : Event π ι) : Effect nonce s e s
  | connect (peer : π) (target : SocketAddr) (id : ι) (localPeerId : PeerId)
    (hnone : s.session id = none) (sessions : π → List (SocketAddr × ι)) :
    Effect nonce s (.connect peer target id localPeerId)
      { s.put id (.connect localPeerId (nonce id)) with sessions }
  | drop (peer : π) (id : ι) (t : UdpTunnelSession) (h : s.session id = some t)
    (sessions : π → List (SocketAddr × ι)) :
    Effect nonce s (.drop peer id) { s.put id t.abort with sessions }
  | deliver (peer : π) (d : Datagram) (hd : d.1 ∈ s.wire ∨ handshakeNonce d.1 = none)
    (ids : List ι) : Effect nonce s (.deliver peer d) { s with inbound := (d, ids) :: s.inbound }
  | finish (call : Call ι) :
    Effect nonce s (.queue call) { s with inbound := s.inbound.erase call }
  | skip (call : Call ι) (hcall : call ∈ s.inbound) (rest : List ι) :
    Effect nonce s (.queue call) (s.advance call rest)
  | queue (call : Call ι) (hcall : call ∈ s.inbound) (rest : List ι) (id : ι)
    (t : UdpTunnelSession) (h : s.session id = some t) :
    Effect nonce s (.queue call)
      ((s.put id { t with recv := t.recv ++ [call.1] }).advance call rest)
  | act (id : ι) (a : Action) (t : UdpTunnelSession) (h : s.session id = some t) :
    Effect nonce s (.act id a)
      { s.put id (t.act a).1 with wire := s.wire ++ (t.act a).2.toList }

omit [DecidableEq π] in
theorem queue_effect {s : State π ι} {call : Call ι} (hcall : call ∈ s.inbound) :
    Effect nonce s (.queue call) (s.queue call) := by
  unfold State.queue
  split
  · exact .finish _
  rename_i datagram id rest
  split
  · rename_i t ht
    split
    · rename_i t' hqueue
      rw [queue_eq_sent hqueue]
      exact .queue _ hcall rest id t ht
    · exact .skip _ hcall rest
    · exact .idle _
  · exact .skip _ hcall rest

theorem step_effect (nonce : ι → UInt64) (s : State π ι) (e : Event π ι) :
    Effect nonce s e (step nonce s e) := by
  cases e with
  | connect peer target id localPeerId =>
    simp only [step, State.connect]
    split
    · exact .connect peer target id localPeerId ‹_› _
    · exact .idle _
  | drop peer id =>
    simp only [step, State.drop]
    split
    · exact .drop peer id _ ‹_› _
    · exact .idle _
  | deliver peer d =>
    simp only [step, State.deliver]
    split
    · exact .deliver peer d ‹_› _
    · exact .idle _
  | queue call =>
    simp only [step]
    split
    · exact queue_effect ‹_›
    · exact .idle _
  | act id a =>
    simp only [step, State.act]
    split
    · exact .act id a _ ‹_›
    · exact .idle _

section
variable {s u : State π ι} {id : ι} {t : UdpTunnelSession}

/-- What a step does to one session. -/
inductive Served (s : State π ι) (t : UdpTunnelSession) : UdpTunnelSession → Prop
  | same : Served s t t
  | acted (a : Action) : Served s t (t.act a).1
  | received (call : Call ι) (hcall : call ∈ s.inbound) :
    Served s t { t with recv := t.recv ++ [call.1] }

omit [DecidableEq π] in
theorem put_session_of_ne {id' : ι} (h : id' ≠ id) : (s.put id t).session id' = s.session id' :=
  Function.update_of_ne h _ _

omit [DecidableEq π] in
@[simp] theorem put_session_self : (s.put id t).session id = some t := Function.update_self _ _ _

omit [DecidableEq π] in
/-- Putting a session that was served serves that session only. -/
theorem put_served (h : s.session id = some t) {id₀ : ι} {t₀ t₁ : UdpTunnelSession}
    (ht₀ : s.session id₀ = some t₀) (hserved : Served s t₀ t₁) :
    ∃ t', (s.put id₀ t₁).session id = some t' ∧ Served s t t' := by
  by_cases hid : id = id₀
  · subst hid
    obtain rfl := Option.some.inj (h.symm.trans ht₀)
    exact ⟨t₁, put_session_self, hserved⟩
  · exact ⟨t, (put_session_of_ne hid).trans h, .same⟩

omit [DecidableEq π] in
theorem Effect.served {e : Event π ι} (hu : Effect nonce s e u) (h : s.session id = some t) :
    ∃ t', u.session id = some t' ∧ Served s t t' := by
  cases hu with
  | connect peer target id₀ localPeerId hnone =>
    have hid : id ≠ id₀ := by
      rintro rfl
      cases h.symm.trans hnone
    exact ⟨t, (put_session_of_ne hid).trans h, .same⟩
  | drop peer id₀ t₀ ht₀ => exact put_served h ht₀ (.acted .abort)
  | queue call hcall rest id₀ t₀ ht₀ => exact put_served h ht₀ (.received call hcall)
  | act id₀ a t₀ ht₀ => exact put_served h ht₀ (.acted a)
  | idle | deliver | finish | skip => exact ⟨t, h, .same⟩

omit [DecidableEq π] in
/-- A session begins as `connect` makes it. -/
theorem Effect.begins {e : Event π ι} (hu : Effect nonce s e u) (hnone : s.session id = none)
    (h : u.session id = some t) : ∃ localPeerId, t = .connect localPeerId (nonce id) := by
  have hput : ∀ {id₀ t₀ t₁}, s.session id₀ = some t₀ → (s.put id₀ t₁).session id ≠ some t := by
    intro id₀ t₀ t₁ ht₀ hsome
    have hid : id ≠ id₀ := by
      rintro rfl
      cases hnone.symm.trans ht₀
    cases hnone.symm.trans ((put_session_of_ne hid).symm.trans hsome)
  cases hu with
  | connect peer target id₀ localPeerId =>
    by_cases hid : id = id₀
    · subst hid
      exact ⟨localPeerId, (Option.some.inj (put_session_self.symm.trans h)).symm⟩
    · cases hnone.symm.trans ((put_session_of_ne hid).symm.trans h)
  | drop peer id₀ t₀ ht₀ => exact absurd h (hput ht₀)
  | queue call hcall rest id₀ t₀ ht₀ => exact absurd h (hput ht₀)
  | act id₀ a t₀ ht₀ => exact absurd h (hput ht₀)
  | idle | deliver | finish | skip => cases hnone.symm.trans h

omit [DecidableEq π] in
/-- What comes to the wire was sent by a session. -/
theorem Effect.wire {e : Event π ι} (hu : Effect nonce s e u) {b : List UInt8} (hb : b ∈ u.wire) :
    b ∈ s.wire ∨ ∃ id t a, s.session id = some t ∧ u.session id = some (t.act a).1 ∧
      (t.act a).2 = some b := by
  cases hu with
  | act id a t h =>
    rcases List.mem_append.mp hb with hb | hb
    · exact Or.inl hb
    · exact Or.inr ⟨id, t, a, h, put_session_self, Option.mem_toList.mp hb⟩
  | _ => exact Or.inl hb

omit [DecidableEq π] in
/-- `inbound` is called with what the network hands over. -/
theorem Effect.inbound {e : Event π ι} (hu : Effect nonce s e u) {call : Call ι}
    (hcall : call ∈ u.inbound) : (∃ call' ∈ s.inbound, call'.1 = call.1) ∨
      call.1.1 ∈ s.wire ∨ handshakeNonce call.1.1 = none := by
  cases hu with
  | deliver peer d hd ids =>
    rcases List.mem_cons.mp hcall with rfl | hcall
    · exact Or.inr hd
    · exact Or.inl ⟨call, hcall, rfl⟩
  | finish call₀ => exact Or.inl ⟨call, List.mem_of_mem_erase hcall, rfl⟩
  | skip call₀ hcall₀ rest | queue call₀ hcall₀ rest =>
    rcases List.mem_cons.mp hcall with rfl | hcall
    · exact Or.inl ⟨call₀, hcall₀, rfl⟩
    · exact Or.inl ⟨call, List.mem_of_mem_erase hcall, rfl⟩
  | idle | connect | drop | act => exact Or.inl ⟨call, hcall, rfl⟩

end

/-! ## Where an Ack comes from -/

/-- The event is a step `R` of the session. -/
def Steps (nonce : ι → UInt64) (id : ι) (R : UdpTunnelSession → UdpTunnelSession → Prop)
    (s : State π ι) (e : Event π ι) : Prop :=
  ∃ t t', s.session id = some t ∧ (step nonce s e).session id = some t' ∧ R t t'

/-- In the run the datagram was queued to the session. -/
def Delivered (nonce : ι → UInt64) (es : List (Event π ι)) (id : ι) (d : Datagram) : Prop :=
  Runs.Happened (step nonce) .initial es (Steps nonce id fun t t' => t'.recv = t.recv ++ [d])

/-- In the run the session answered the datagram, a Seq, with an Ack of that nonce. -/
def Answered (nonce : ι → UInt64) (es : List (Event π ι)) (id : ι) (d : Datagram) (n : UInt64) :
    Prop :=
  Runs.Happened (step nonce) .initial es (Steps nonce id fun t t' => t.Answers t' d n)

/-- In the run the session took the datagram for the Ack it waits for. -/
def Signalled (nonce : ι → UInt64) (es : List (Event π ι)) (id : ι) (d : Datagram) : Prop :=
  Runs.Happened (step nonce) .initial es (Steps nonce id fun t t' => t.Signals t' d)

/-- A Seq of that nonce was delivered to a session that answered it. -/
def SeqAnswered (nonce : ι → UInt64) (es : List (Event π ι)) (n : UInt64) : Prop :=
  ∃ id d, Carries .seq n d.1 ∧ Delivered nonce es id d ∧ Answered nonce es id d n

/-- In the run the datagram was queued to the session, after a Seq of that nonce had been answered. -/
def DeliveredAfterSeq (nonce : ι → UInt64) (es : List (Event π ι)) (id : ι) (d : Datagram)
    (n : UInt64) : Prop :=
  ∃ pre e post, es = pre ++ e :: post ∧ SeqAnswered nonce pre n ∧
    Steps nonce id (fun t t' => t'.recv = t.recv ++ [d]) (run nonce pre) e

/-- If the bytes are an Ack, then of a Seq that was answered. -/
def Sourced (nonce : ι → UInt64) (es : List (Event π ι)) (bytes : List UInt8) : Prop :=
  ∀ n, Carries .ack n bytes → SeqAnswered nonce es n

/-- What holds of a session that is open. -/
structure Sound (nonce : ι → UInt64) (es : List (Event π ι)) (id : ι) (t : UdpTunnelSession) :
    Prop where
  nonce_eq : t.nonce = nonce id
  ordered : t.Ordered
  replying : t.Replying
  held : ∀ d, t.Holds d → Sourced nonce es d.1 ∧ Delivered nonce es id d
  out : ∀ b ∈ t.out, Sourced nonce es b
  heard : t.Heard → ∃ d, Delivered nonce es id d ∧ Signalled nonce es id d ∧
    Carries .ack (nonce id) d.1 ∧ Sourced nonce es d.1

structure Invariant (nonce : ι → UInt64) (es : List (Event π ι)) (s : State π ι) : Prop where
  wire : ∀ b ∈ s.wire, Sourced nonce es b
  inbound : ∀ call ∈ s.inbound, Sourced nonce es call.1.1
  session : ∀ id t, s.session id = some t → Sound nonce es id t

section
variable {es : List (Event π ι)} {id : ι} {t : UdpTunnelSession}

theorem SeqAnswered.concat {n : UInt64} (h : SeqAnswered nonce es n) (e : Event π ι) :
    SeqAnswered nonce (es ++ [e]) n := by
  obtain ⟨id, d, hseq, hdelivered, hanswered⟩ := h
  exact ⟨id, d, hseq, hdelivered.concat e, hanswered.concat e⟩

theorem Sourced.concat {b : List UInt8} (h : Sourced nonce es b) (e : Event π ι) :
    Sourced nonce (es ++ [e]) b :=
  fun n hn => (h n hn).concat e

theorem Sound.concat (h : Sound nonce es id t) (e : Event π ι) :
    Sound nonce (es ++ [e]) id t where
  nonce_eq := h.nonce_eq
  ordered := h.ordered
  replying := h.replying
  held d hd := ⟨(h.held d hd).1.concat e, (h.held d hd).2.concat e⟩
  out b hb := (h.out b hb).concat e
  heard hheard := by
    obtain ⟨d, hdelivered, hsignalled, hcarries, hsourced⟩ := h.heard hheard
    exact ⟨d, hdelivered.concat e, hsignalled.concat e, hcarries, hsourced.concat e⟩

/-- What carries no nonce of a handshake is no Ack. -/
theorem sourced_of_handshakeNonce {b : List UInt8} (h : handshakeNonce b = none) :
    Sourced nonce es b := by
  rintro n ⟨packet, hpacket, htype, hvalue⟩
  have hsome : handshakeNonce b = some n := by
    simp only [handshakeNonce, hpacket, htype, or_true, if_true, hvalue]
  cases h.symm.trans hsome

theorem sound_connect (peerId : PeerId) : Sound nonce es id (.connect peerId (nonce id)) where
  nonce_eq := rfl
  ordered := ordered_connect _ _
  replying := replying_connect _ _
  held d hd := absurd hd (not_holds_connect _ _ d)
  out b hb := by cases hb
  heard h := absurd h (not_heard_connect _ _)

/-- A datagram that comes in from `inbound` is delivered. -/
theorem Sound.received (h : Sound nonce es id t) {d : Datagram} {e : Event π ι}
    (hd : Sourced nonce es d.1)
    (hstep : Steps nonce id (fun t t' => t'.recv = t.recv ++ [d]) (run nonce es) e) :
    Sound nonce (es ++ [e]) id { t with recv := t.recv ++ [d] } := by
  have h' := h.concat e
  refine ⟨h'.nonce_eq, ⟨h'.ordered.trying, h'.ordered.armed⟩, h'.replying, ?_, h'.out, h'.heard⟩
  intro d' hd'
  rcases hd' with hd' | hd'
  · rcases List.mem_append.mp hd' with hd' | hd'
    · exact h'.held d' (Or.inl hd')
    · obtain rfl := List.mem_singleton.mp hd'
      exact ⟨hd.concat e, Runs.happened_last hstep⟩
  · exact h'.held d' (Or.inr hd')

/-- An Ack that a session queues or sends answers a Seq that was delivered to it. -/
theorem Sound.sourced_emitted (h : Sound nonce es id t) {a : Action} {e : Event π ι}
    (hstep : (step nonce (run nonce es) e).session id = some (t.act a).1)
    (ht : (run nonce es).session id = some t) {b : List UInt8}
    (hb : b ∈ (t.act a).1.out ∨ (t.act a).2 = some b) : Sourced nonce (es ++ [e]) b := by
  intro n hn
  rcases emitted_act h.replying hb hn with hb | ⟨d, hanswers⟩
  · exact ((h.out b hb).concat e) n hn
  · have hheld := h.held d (Or.inr (Or.inr (Or.inr ⟨_, hanswers.replying⟩)))
    exact ⟨id, d, hanswers.seq, hheld.2.concat e, Runs.happened_last ⟨t, _, ht, hstep, hanswers⟩⟩

theorem Sound.acted (h : Sound nonce es id t) (a : Action) {e : Event π ι}
    (ht : (run nonce es).session id = some t)
    (hstep : (step nonce (run nonce es) e).session id = some (t.act a).1) :
    Sound nonce (es ++ [e]) id (t.act a).1 where
  nonce_eq := (identity_act t a).1.trans h.nonce_eq
  ordered := (h.ordered.act a).1
  replying := h.replying.act a
  held d hd := (h.concat e).held d (holds_act hd)
  out b hb := h.sourced_emitted hstep ht (Or.inl hb)
  heard hheard := by
    rcases heard_act hheard with hheard | ⟨d, hsignals⟩
    · exact (h.concat e).heard hheard
    · obtain ⟨hsourced, hdelivered⟩ := h.held d (Or.inr (Or.inr (Or.inl hsignals.handled)))
      exact ⟨d, hdelivered.concat e, Runs.happened_last ⟨t, _, ht, hstep, hsignals⟩,
        h.nonce_eq ▸ carries_of_signals hsignals, hsourced.concat e⟩

theorem invariant_step {s : State π ι} (hs : s = run nonce es) (h : Invariant nonce es s)
    (e : Event π ι) : Invariant nonce (es ++ [e]) (step nonce s e) := by
  subst hs
  have heffect := step_effect nonce (run nonce es) e
  refine ⟨fun b hb => ?_, fun call hcall => ?_, fun id t' ht' => ?_⟩
  · rcases heffect.wire hb with hb | ⟨id, t, a, ht, hstep, hsent⟩
    · exact (h.wire b hb).concat e
    · exact (h.session id t ht).sourced_emitted hstep ht (Or.inr hsent)
  · rcases heffect.inbound hcall with ⟨call', hcall', heq⟩ | hwire | hnonce
    · exact heq ▸ (h.inbound call' hcall').concat e
    · exact (h.wire _ hwire).concat e
    · exact sourced_of_handshakeNonce hnonce
  · cases ht : (run nonce es).session id with
    | none =>
      obtain ⟨localPeerId, rfl⟩ := heffect.begins ht ht'
      exact sound_connect localPeerId
    | some t =>
      obtain ⟨t'', hstep, hserved⟩ := heffect.served ht
      obtain rfl := Option.some.inj (hstep.symm.trans ht')
      have hsound := h.session id t ht
      cases hserved with
      | same => exact hsound.concat e
      | acted a => exact hsound.acted a ht hstep
      | received call hcall =>
        exact hsound.received (h.inbound call hcall) ⟨t, _, ht, hstep, rfl⟩

end

theorem invariant_run (nonce : ι → UInt64) (es : List (Event π ι)) :
    Invariant nonce es (run nonce es) := by
  induction es using List.reverseRecOn with
  | nil =>
    refine ⟨fun b hb => ?_, fun call hcall => ?_, fun id t ht => ?_⟩
    · cases hb
    · cases hcall
    · cases ht
  | append_singleton es e ih =>
    unfold run
    rw [Runs.run_concat]
    exact invariant_step rfl ih e

/-- An Ack comes to a session after a Seq of its nonce was answered. -/
theorem Delivered.afterSeq {es : List (Event π ι)} {id : ι} {d : Datagram} {n : UInt64}
    (h : Delivered nonce es id d) (hack : Carries .ack n d.1) : DeliveredAfterSeq nonce es id d n := by
  obtain ⟨pre, e, post, rfl, t, t', ht, ht', hrecv⟩ := h
  have hrecv : t'.recv = t.recv ++ [d] := hrecv
  obtain ⟨t'', hstep, hserved⟩ := (step_effect nonce (run nonce pre) e).served ht
  obtain rfl := Option.some.inj (hstep.symm.trans ht')
  have hlonger : t''.recv.length = t.recv.length + 1 := by
    rw [hrecv, List.length_append, List.length_singleton]
  refine ⟨pre, e, post, rfl, ?_, t, t'', ht, ht', hrecv⟩
  cases hserved with
  | same => omega
  | acted a =>
    have hle := (recv_act t a).length_le
    omega
  | received call hcall =>
    obtain rfl : call.1 = d := List.singleton_inj.mp (List.append_cancel_left hrecv)
    exact (invariant_run nonce pre).inbound call hcall n hack

/-- What signals a session is an Ack that echoes its nonce. -/
theorem carries_of_signalled {es : List (Event π ι)} {id : ι} {d : Datagram}
    (h : Signalled nonce es id d) : Carries .ack (nonce id) d.1 := by
  obtain ⟨pre, e, post, rfl, t, t', ht, hstep, hsignals⟩ := h
  have hsound := (invariant_run nonce pre).session id t ht
  obtain ⟨t'', hstep', hserved⟩ := (step_effect nonce (run nonce pre) e).served ht
  obtain rfl := Option.some.inj (hstep'.symm.trans hstep)
  cases hserved with
  | acted a => exact hsound.nonce_eq ▸ carries_of_signals hsignals
  | same | received => exact absurd (hsignals.before.symm.trans hsignals.after) Bool.false_ne_true

/-- **Handshake safety.** In every run of any number of sessions whose nonces differ:

* a session is connected only if a Seq with its nonce was delivered to a session that answered
  it;
* a session begins connecting, and its state moves to connected and then to timeout, or to
  timeout, and never from there;
* a connected session was signalled by a datagram that was delivered to it. Whatever way a
  datagram came, by its source or fanned out to all sessions of a peer, it signals only the
  session whose nonce it echoes. -/
theorem handshake_safe (nonce : ι → UInt64) (hnonce : Function.Injective nonce)
    (es : List (Event π ι)) :
    (∀ id t, (run nonce es).session id = some t → t.state = .connected →
      ∃ id' d, Carries .seq (nonce id) d.1 ∧ Delivered nonce es id' d ∧
        Answered nonce es id' d (nonce id)) ∧
    (∀ e id t', (run nonce (es ++ [e])).session id = some t' →
      ((run nonce es).session id = none ∧ t'.state = .connecting) ∨
        ∃ t, (run nonce es).session id = some t ∧ Moves t.state t'.state) ∧
    (∀ id t, (run nonce es).session id = some t → t.state = .connected →
      ∃ d, Delivered nonce es id d ∧ Signalled nonce es id d) ∧
    ∀ id d, Signalled nonce es id d →
      Carries .ack (nonce id) d.1 ∧ ∀ id', Carries .ack (nonce id') d.1 → id' = id := by
  have hrun := invariant_run nonce es
  refine ⟨fun id t ht hstate => ?_, fun e id t' ht' => ?_, fun id t ht hstate => ?_,
    fun id d hd => ⟨carries_of_signalled hd, fun id' hid' => ?_⟩⟩
  · obtain ⟨d, -, -, hcarries, hsourced⟩ := (hrun.session id t ht).heard (Or.inr (Or.inr hstate))
    exact hsourced _ hcarries
  · unfold run at ht'
    rw [Runs.run_concat] at ht'
    have heffect := step_effect nonce (run nonce es) e
    cases ht : (run nonce es).session id with
    | none =>
      obtain ⟨localPeerId, rfl⟩ := heffect.begins ht ht'
      exact Or.inl ⟨rfl, rfl⟩
    | some t =>
      obtain ⟨t'', hstep, hserved⟩ := heffect.served ht
      obtain rfl := Option.some.inj (hstep.symm.trans ht')
      refine Or.inr ⟨t, rfl, ?_⟩
      cases hserved with
      | acted a => exact ((hrun.session id t ht).ordered.act a).2
      | same | received => exact .stay _
  · obtain ⟨d, hdelivered, hsignalled, -⟩ :=
      (hrun.session id t ht).heard (Or.inr (Or.inr hstate))
    exact ⟨d, hdelivered, hsignalled⟩
  · exact hnonce (hid'.value_unique (carries_of_signalled hd))

end

namespace Sample

/-- Two nodes with one session each, `true` and `false`. -/
def nonce (id : Bool) : UInt64 := if id then 11 else 22

def addr (id : Bool) : SocketAddr := .v4 (.ofOctets 192 0 2 (if id then 1 else 2)) 4000

def seq : List UInt8 := (controlPacket .seq 1 11).inner

def ack : List UInt8 := (controlPacket .ack 2 11).inner

/-- `true` sends its Seq, `false` answers it, and the Ack comes back from a port that `true` does
not know. -/
def events : List (Event Bool Bool) :=
  [.connect true (addr false) true 1, .connect false (addr true) false 2,
    .act true (.handshake 0), .act true (.send true),
    .deliver false (seq, addr true), .queue ((seq, addr true), [false]),
    .act false (.dispatch 5), .act false (.dispatch 5), .act false (.dispatch 5),
    .act false (.dispatch 5), .act false (.send true),
    .deliver true (ack, .v4 (.ofOctets 192 0 2 2) 4001),
    .queue ((ack, .v4 (.ofOctets 192 0 2 2) 4001), [true]),
    .act true (.dispatch 9), .act true (.dispatch 9), .act true (.dispatch 9),
    .act true (.handshake 9), .act true (.handshake 9)]

theorem nonce_injective : Function.Injective nonce := by
  intro a b h
  cases a <;> cases b <;> first | rfl | exact absurd h (by decide)

theorem connected : ((run nonce events).session true).map (·.state) = some .connected := by
  decide +kernel

/-- So a Seq of `true` was answered. -/
theorem handshake_safe_events : ∃ id d, Carries .seq (nonce true) d.1 ∧
    Delivered nonce events id d ∧ Answered nonce events id d (nonce true) := by
  obtain ⟨t, ht, hstate⟩ := Option.map_eq_some_iff.mp connected
  exact (handshake_safe nonce nonce_injective events).1 true t ht hstate

end Sample

end Noeio.HolePunch
