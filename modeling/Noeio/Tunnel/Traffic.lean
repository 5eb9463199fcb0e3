import Noeio.Lib.Runs
import Noeio.Tunnel.UdpSession

/-!
# The traffic of a session

What a `UdpTunnelSession` puts on the wire over its life, whatever comes in and in whatever order
its tasks run. A run is a list of datagrams that the reader queues and of steps of the tasks, and
the state keeps a record of both directions.

* Every payload is a control packet with the id of the session. A Seq has its nonce, an Ack the nonce
  of a Seq that came in, a TunnelPong the time of a TunnelPing that came in, and a TunnelPing a
  reading of its clock.
* There are at most as many Seqs as the handshake has attempts.
* A session does not amplify: it sends no more Acks than Seqs came in, and no more TunnelPongs than
  TunnelPings. The requests that are still on their way through the session are counted with the
  answers (`Answered`).
* There is no TunnelPing before the session was connected.
-/

namespace Noeio

namespace UdpTunnelSession

/-- The type of the packet that the bytes are. -/
def typeOf (bytes : List UInt8) : Option NoeioPacketType :=
  (NoeioPacket.tryFrom bytes).map (·.packetType)

/-- How many of the payloads are packets of the type. -/
def count (t : NoeioPacketType) (payloads : List (List UInt8)) : Nat :=
  payloads.countP fun bytes => typeOf bytes = some t

/-- A session with what came in, what it read from its clock before it might ping, and what went
out, oldest first. -/
structure Traffic where
  session : UdpTunnelSession
  received : List Datagram
  clock : List UInt64
  wire : List (List UInt8)

/-- What a step of `handshake` reads from the clock. -/
def Action.reading : Action → Option UInt64
  | .handshake now => some now.asMillisU64
  | .retry | .dispatch _ | .monitor _ | .send _ | .close | .abort => none

namespace Traffic

inductive Event where
  | inbound (datagram : Datagram)
  | act (action : Action)

def step (self : Traffic) : Event → Traffic
  | .inbound datagram =>
    match self.session.queue datagram with
    | .sent session => { self with session, received := self.received ++ [datagram] }
    | .closed | .full => self
  | .act action =>
    match self.session.act action with
    | (session, payload) =>
      { self with
        session, clock := self.clock ++ action.reading.toList, wire := self.wire ++ payload.toList }

def connect (peerId : PeerId) (nonce : UInt64) : Traffic := ⟨.connect peerId nonce, [], [], []⟩

def run (peerId : PeerId) (nonce : UInt64) (es : List Event) : Traffic :=
  Runs.run step (connect peerId nonce) es

end Traffic

/-! ## Counting packets -/

section
variable {t : NoeioPacketType} {payloads : List (List UInt8)} {bytes : List UInt8}

theorem typeOf_controlPacket (t : NoeioPacketType) (peerId : PeerId) (value : UInt64) :
    typeOf (controlPacket t peerId value).inner = some t := by
  rw [typeOf, tryFrom_controlPacket]
  rfl

theorem typeOf_of_carries {value : UInt64} (h : Carries t value bytes) :
    typeOf bytes = some t := by
  obtain ⟨packet, hpacket, htype, -⟩ := h
  rw [typeOf, hpacket, Option.map_some, htype]

theorem count_append (l l' : List (List UInt8)) : count t (l ++ l') = count t l + count t l' :=
  List.countP_append

theorem count_cons :
    count t (bytes :: payloads) = count t payloads + if typeOf bytes = some t then 1 else 0 := by
  simp [count, List.countP_cons]

@[simp] theorem count_nil : count t [] = 0 := rfl

theorem count_concat : count t (payloads ++ [bytes]) =
    count t payloads + if typeOf bytes = some t then 1 else 0 := by
  rw [count_append, count_cons, count_nil, Nat.zero_add]

end

/-! ## What a step does to the payloads -/

/-- A payload that a session of this id and this nonce may issue after it has received these
datagrams and read these times from its clock. -/
inductive Issuable (peerId : PeerId) (nonce : UInt64) (received : List Datagram)
    (clock : List UInt64) : List UInt8 → Prop
  | seq : Issuable peerId nonce received clock (controlPacket .seq peerId nonce).inner
  | ack {d : Datagram} {peerNonce : UInt64} (hd : d ∈ received) (hseq : Carries .seq peerNonce d.1) :
    Issuable peerId nonce received clock (controlPacket .ack peerId peerNonce).inner
  | ping {now : UInt64} (hnow : now ∈ clock) :
    Issuable peerId nonce received clock (controlPacket .tunnelPing peerId now).inner
  | pong {d : Datagram} {peerTs : UInt64} (hd : d ∈ received)
    (hping : Carries .tunnelPing peerTs d.1) :
    Issuable peerId nonce received clock (controlPacket .tunnelPong peerId peerTs).inner

theorem Issuable.mono {peerId : PeerId} {nonce : UInt64} {received received' : List Datagram}
    {clock clock' : List UInt64} {bytes : List UInt8} (h : Issuable peerId nonce received clock bytes)
    (hreceived : received ⊆ received') (hclock : clock ⊆ clock') :
    Issuable peerId nonce received' clock' bytes := by
  cases h with
  | seq => exact .seq
  | ack hd hseq => exact .ack (hreceived hd) hseq
  | ping hnow => exact .ping (hclock hnow)
  | pong hd hping => exact .pong (hreceived hd) hping

/-- The attempts that the handshake still has. -/
def Handshake.attemptsLeft : Handshake → Nat
  | .attempt left | .wait left => left
  | .acked | .sleep | .ping _ | .done => 0

/-- The handshake goes on as the ping loop. -/
def Handshake.Pinging : Handshake → Prop
  | .sleep | .ping _ => True
  | .attempt _ | .wait _ | .acked | .done => False

/-- What `dispatch` is working on, counted as a request `q` that has come in or as its answer
`a`. -/
def Dispatch.pending (q a : NoeioPacketType) : Dispatch → Nat
  | .stamp datagram | .handle datagram => if typeOf datagram.1 = some q then 1 else 0
  | .reply _ payload => if typeOf payload = some a then 1 else 0
  | .recv | .sample _ | .done => 0

/-- The Seqs that the session has queued and those that it may still queue. -/
def seqs (s : UdpTunnelSession) : Nat := count .seq s.out + s.handshake.attemptsLeft

/-- The answers `a` that the session has queued, and the requests `q` that it may still
answer. -/
def answers (q a : NoeioPacketType) (s : UdpTunnelSession) : Nat :=
  count a s.out + s.dispatch.pending q a + count q (s.recv.map (·.1))

/-- A Seq is answered with an Ack, and a TunnelPing with a TunnelPong. -/
inductive Replies : NoeioPacketType → NoeioPacketType → Prop
  | ack : Replies .seq .ack
  | pong : Replies .tunnelPing .tunnelPong

section
variable {s t : UdpTunnelSession} {q a : NoeioPacketType}

theorem HandshakeEffect.seqs_le (h : s.HandshakeEffect t) : t.seqs ≤ s.seqs := by
  cases h with
  | idle => exact Nat.le_refl _
  | giveUp | stop => exact Nat.add_le_add_left (Nat.zero_le _) _
  | seq left h =>
    have hcount : count .seq (s.out ++ [(controlPacket .seq s.peerId s.nonce).inner]) =
        count .seq s.out + 1 := by
      rw [count_concat, typeOf_controlPacket, if_pos rfl]
    simp only [seqs, hcount, h, Handshake.attemptsLeft]
    omega
  | signalled | connected | publish => exact Nat.add_le_add_left (Nat.zero_le _) _
  | ping ts h =>
    have hcount : count .seq (s.out ++ [(controlPacket .tunnelPing s.peerId ts).inner]) =
        count .seq s.out := by
      rw [count_concat, typeOf_controlPacket, if_neg (by decide), Nat.add_zero]
    simp only [seqs, hcount, Handshake.attemptsLeft]
    omega

theorem HandshakeEffect.answers_eq (h : s.HandshakeEffect t) (hqa : Replies q a) :
    answers q a t = answers q a s := by
  have hother : ∀ {type : NoeioPacketType} {value : UInt64}, type ≠ a →
      count a (s.out ++ [(controlPacket type s.peerId value).inner]) = count a s.out := by
    intro type value hne
    rw [count_concat, typeOf_controlPacket, if_neg (by simpa using hne), Nat.add_zero]
  cases h with
  | seq =>
    have hne : NoeioPacketType.seq ≠ a := by cases hqa <;> decide
    simp only [answers, hother hne]
  | ping =>
    have hne : NoeioPacketType.tunnelPing ≠ a := by cases hqa <;> decide
    simp only [answers, hother hne]
  | idle | giveUp | signalled | connected | publish | stop => rfl

theorem DispatchEffect.seqs_eq (h : s.DispatchEffect t) (hreply : ∀ d payload,
    s.dispatch = .reply d payload → typeOf payload ≠ some .seq) : t.seqs = s.seqs := by
  cases h with
  | queued d payload h =>
    have hcount : count .seq (s.out ++ [payload]) = count .seq s.out := by
      rw [count_concat, if_neg (hreply d payload h), Nat.add_zero]
    simp only [seqs, hcount]
  | idle | take | stamp | ignore | ack | seq | ping | pong | unsent | sample | stop => rfl

/-- A request that comes in is worth one answer at most until it is answered. -/
theorem DispatchEffect.answers_le (h : s.DispatchEffect t) (hqa : Replies q a) :
    answers q a t ≤ answers q a s := by
  -- the request is answered with its own kind of answer
  have hanswered : ∀ {type answer : NoeioPacketType} (value : UInt64) {v : UInt64} {d : Datagram},
      Replies type answer → Carries type v d.1 →
        (Dispatch.reply d (controlPacket answer s.peerId value).inner).pending q a ≤
          (Dispatch.handle d).pending q a := by
    intro type answer value v d hpair hcarries
    simp only [Dispatch.pending, typeOf_controlPacket, typeOf_of_carries hcarries]
    cases hqa <;> cases hpair <;> decide
  cases h with
  | idle => exact Nat.le_refl _
  | take d recv h hrecv =>
    simp only [answers, h, hrecv, Dispatch.pending, List.map_cons, count_cons]
    omega
  | stamp d ts h => simp only [answers, h, Dispatch.pending, Nat.le_refl]
  | ignore d h | ack d h | pong d h | stop h | sample _ _ h | unsent d payload h =>
    simp only [answers, h, Dispatch.pending]
    omega
  | seq d n h hseq =>
    have hle := hanswered n .ack hseq
    simp only [answers, h]
    omega
  | ping d ts h hping =>
    have hle := hanswered ts .pong hping
    simp only [answers, h]
    omega
  | queued d payload h =>
    simp only [answers, h, Dispatch.pending, count_concat]
    omega

theorem MonitorEffect.seqs_eq (h : s.MonitorEffect t) : t.seqs = s.seqs := by
  cases h <;> rfl

theorem MonitorEffect.answers_eq (h : s.MonitorEffect t) : answers q a t = answers q a s := by
  cases h <;> rfl

end

/-- The task has taken the datagram from the channel. -/
def Dispatch.Holds (d : Datagram) (task : Dispatch) : Prop := task = .stamp d ∨ task = .handle d

/-- What is queued and what `dispatch` is about to queue may be issued, what waits in the session
has come in, and the published time was read from the clock. -/
structure Issues (received : List Datagram) (clock : List UInt64) (s : UdpTunnelSession) : Prop where
  out : ∀ bytes ∈ s.out, Issuable s.peerId s.nonce received clock bytes
  reply : ∀ d payload, s.dispatch = .reply d payload →
    Issuable s.peerId s.nonce received clock payload ∧
      (typeOf payload = some .ack ∨ typeOf payload = some .tunnelPong)
  recv : ∀ d ∈ s.recv, d ∈ received
  held : ∀ d, s.dispatch.Holds d → d ∈ received
  stamp : ∀ now, s.handshake = .ping now → now ∈ clock

section
variable {s t : UdpTunnelSession} {received : List Datagram} {clock : List UInt64}

theorem Issues.mono (h : s.Issues received clock) {received' : List Datagram} {clock' : List UInt64}
    (hreceived : received ⊆ received') (hclock : clock ⊆ clock') : s.Issues received' clock' where
  out bytes hbytes := (h.out bytes hbytes).mono hreceived hclock
  reply d payload hreply := ⟨(h.reply d payload hreply).1.mono hreceived hclock,
    (h.reply d payload hreply).2⟩
  recv d hd := hreceived (h.recv d hd)
  held d hd := hreceived (h.held d hd)
  stamp now hnow := hclock (h.stamp now hnow)

theorem Issues.typeOf_reply (h : s.Issues received clock) {d : Datagram} {payload : List UInt8}
    (hreply : s.dispatch = .reply d payload) :
    typeOf payload ≠ some .seq ∧ typeOf payload ≠ some .tunnelPing := by
  rcases (h.reply d payload hreply).2 with htype | htype <;> rw [htype] <;> decide

theorem issues_connect (peerId : PeerId) (nonce : UInt64) : (connect peerId nonce).Issues [] [] where
  out := by simp [connect]
  reply := by simp [connect]
  recv := by simp [connect]
  held := by simp [connect, Dispatch.Holds]
  stamp := by simp [connect]

theorem Issues.concat (h : s.Issues received clock) {bytes : List UInt8}
    (hb : Issuable s.peerId s.nonce received clock bytes) :
    ∀ b ∈ s.out ++ [bytes], Issuable s.peerId s.nonce received clock b := by
  intro b hmem
  rcases List.mem_append.mp hmem with hmem | hmem
  · exact h.out b hmem
  · rw [List.mem_singleton.mp hmem]
    exact hb

/-- The time that is published is read in the same step. -/
theorem handshakeStep_ping {now : Duration} {ts : UInt64}
    (h : (s.handshakeStep now).handshake = .ping ts) :
    s.handshake = .ping ts ∨ ts = now.asMillisU64 := by
  unfold handshakeStep pushOut at h
  split at h
  · cases h
  · split at h
    · cases h
    split at h
    · cases h
    · exact Or.inl h
  · split at h
    · cases h
    split at h
    · cases h
    · exact Or.inl h
  · cases h
  · cases h
    exact Or.inr rfl
  · split at h
    · cases h
    split at h
    · cases h
    · exact Or.inl h
  · exact Or.inl h

theorem HandshakeEffect.issues (h : s.HandshakeEffect t) (hs : s.Issues received clock)
    (hstamp : ∀ now, t.handshake = .ping now → now ∈ clock) : t.Issues received clock := by
  cases h with
  | idle | giveUp | signalled | connected | publish | stop =>
    exact ⟨hs.out, hs.reply, hs.recv, hs.held, hstamp⟩
  | seq => exact ⟨hs.concat .seq, hs.reply, hs.recv, hs.held, hstamp⟩
  | ping ts h => exact ⟨hs.concat (.ping (hs.stamp ts h)), hs.reply, hs.recv, hs.held, hstamp⟩

theorem MonitorEffect.issues (h : s.MonitorEffect t) (hs : s.Issues received clock) :
    t.Issues received clock := by
  cases h <;> exact ⟨hs.out, hs.reply, hs.recv, hs.held, hs.stamp⟩

theorem DispatchEffect.issues (h : s.DispatchEffect t) (hs : s.Issues received clock) :
    t.Issues received clock := by
  -- a task that is not replying and holds nothing
  have hfree : ∀ {task : Dispatch}, (∀ d payload, task ≠ .reply d payload) →
      (∀ d, ¬ task.Holds d) → ({ s with dispatch := task } : UdpTunnelSession).Issues received clock :=
    fun hreply hheld => ⟨hs.out, fun d payload h => absurd h (hreply d payload), hs.recv,
      fun d h => absurd h (hheld d), hs.stamp⟩
  have hnone : ({ s with dispatch := .recv } : UdpTunnelSession).Issues received clock :=
    hfree (by simp) (by simp [Dispatch.Holds])
  cases h with
  | idle => exact hs
  | ignore | unsent => exact hnone
  | ack | sample => exact ⟨hnone.out, hnone.reply, hnone.recv, hnone.held, hnone.stamp⟩
  | pong | stop => exact hfree (by simp) (by simp [Dispatch.Holds])
  | take d recv h hrecv =>
    refine ⟨hs.out, by simp, fun d' hd' => hs.recv d' (by simp [hrecv, hd']), ?_, hs.stamp⟩
    rintro d' (hd' | hd')
    · cases hd'
      exact hs.recv d (by simp [hrecv])
    · cases hd'
  | stamp d ts h =>
    refine ⟨hs.out, by simp, hs.recv, ?_, hs.stamp⟩
    rintro d' (hd' | hd')
    · cases hd'
    · cases hd'
      exact hs.held d (Or.inl h)
  | seq d n h hseq =>
    refine ⟨hs.out, fun d' payload hreply => ?_, hs.recv, by simp [Dispatch.Holds], hs.stamp⟩
    cases hreply
    exact ⟨.ack (hs.held d (Or.inr h)) hseq, Or.inl (typeOf_controlPacket _ _ _)⟩
  | ping d ts h hping =>
    refine ⟨hs.out, fun d' payload hreply => ?_, hs.recv, by simp [Dispatch.Holds], hs.stamp⟩
    cases hreply
    exact ⟨.pong (hs.held d (Or.inr h)) hping, Or.inr (typeOf_controlPacket _ _ _)⟩
  | queued d payload h =>
    exact ⟨hs.concat (hs.reply d payload h).1, hnone.reply, hnone.recv, hnone.held, hnone.stamp⟩

/-- A step of the session, and what it put on the wire: it comes from the queue, and the budgets
pay for it. -/
structure Spends (received : List Datagram) (clock : List UInt64) (s t : UdpTunnelSession)
    (payload : Option (List UInt8)) : Prop where
  issues : t.Issues received clock
  queued : ∀ bytes ∈ payload, bytes ∈ s.out
  seqs : count .seq payload.toList + t.seqs ≤ s.seqs
  answers : ∀ q a, Replies q a →
    count a payload.toList + UdpTunnelSession.answers q a t ≤ UdpTunnelSession.answers q a s

/-- A step that puts nothing on the wire. -/
theorem spends_none (hissues : t.Issues received clock) (hseqs : t.seqs ≤ s.seqs)
    (hanswers : ∀ q a, Replies q a → answers q a t ≤ answers q a s) :
    Spends received clock s t none where
  issues := hissues
  queued := fun _ h => nomatch h
  seqs := by simpa using hseqs
  answers := fun q a hqa => by simpa using hanswers q a hqa

/-- What is sent was queued, and a failed send empties the queue. -/
theorem Issues.send (hs : s.Issues received clock) (ok : Bool) :
    Spends received clock s (s.sendStep ok).1 (s.sendStep ok).2 := by
  rcases sendStep_cases s ok with h | h | ⟨payload, out, hout, h⟩ <;> rw [h]
  · exact spends_none hs (Nat.le_refl _) fun _ _ _ => Nat.le_refl _
  · refine spends_none ⟨by simp, hs.reply, hs.recv, hs.held, hs.stamp⟩ ?_ fun q a _ => ?_
    · exact Nat.add_le_add_right (Nat.zero_le _) _
    · exact Nat.add_le_add_right (Nat.add_le_add_right (Nat.zero_le _) _) _
  · have hmem : payload ∈ s.out := by simp [hout]
    have hcount : ∀ type, count type [payload] + count type out = count type s.out := by
      intro type
      rw [hout, ← count_append, List.singleton_append]
    refine ⟨⟨fun b hb => hs.out b (by simp [hout, hb]), hs.reply, hs.recv, hs.held, hs.stamp⟩, ?_, ?_,
      fun q a _ => ?_⟩
    · intro bytes hbytes
      cases hbytes
      exact hmem
    · have hseq := hcount .seq
      simp only [seqs, Option.toList_some]
      omega
    · have ha := hcount a
      simp only [UdpTunnelSession.answers, Option.toList_some]
      omega

theorem Issues.act (hbefore : s.Issues received clock) (action : Action) :
    Spends received (clock ++ action.reading.toList) s (s.act action).1 (s.act action).2 := by
  have hs : s.Issues received (clock ++ action.reading.toList) :=
    hbefore.mono (List.Subset.refl _) (List.subset_append_left _ _)
  cases action with
  | handshake now =>
    have heffect := handshakeStep_effect s now
    refine spends_none (heffect.issues hs fun ts hts => ?_) heffect.seqs_le
      fun q a hqa => Nat.le_of_eq (heffect.answers_eq hqa)
    rcases handshakeStep_ping hts with hold | rfl
    · exact hs.stamp ts hold
    · exact List.mem_append_right _ List.mem_cons_self
  | retry =>
    change Spends received _ s s.retry none
    rcases retry_cases s with h | ⟨left, hwait, h⟩ <;> rw [h]
    · exact spends_none hs (Nat.le_refl _) fun _ _ _ => Nat.le_refl _
    · refine spends_none ⟨hs.out, hs.reply, hs.recv, hs.held, by simp⟩ ?_ fun _ _ _ => Nat.le_refl _
      simp only [seqs, hwait, Handshake.attemptsLeft, Nat.le_refl]
  | dispatch now =>
    have heffect := dispatchStep_effect s now
    exact spends_none (heffect.issues hs)
      (Nat.le_of_eq (heffect.seqs_eq fun d payload h => (hs.typeOf_reply h).1))
      fun q a hqa => heffect.answers_le hqa
  | monitor now =>
    have heffect := monitorStep_effect s now
    exact spends_none (heffect.issues hs) (Nat.le_of_eq heffect.seqs_eq)
      fun _ _ _ => Nat.le_of_eq heffect.answers_eq
  | send ok => exact hs.send ok
  | close =>
    exact spends_none ⟨hs.out, hs.reply, hs.recv, hs.held, hs.stamp⟩ (Nat.le_refl _)
      fun _ _ _ => Nat.le_refl _
  | abort =>
    have haborted : s.abort.Issues received clock := by
      constructor
      all_goals simp [abort, Dispatch.Holds]
    exact spends_none (haborted.mono (List.Subset.refl _) (List.subset_append_left _ _))
      (Nat.zero_le _) fun q a _ => Nat.zero_le _

end

/-! ## Pings -/

/-- The session sends pings, or has queued one. -/
def Pings (s : UdpTunnelSession) : Prop := s.handshake.Pinging ∨ 0 < count .tunnelPing s.out

section
variable {s t : UdpTunnelSession} {received : List Datagram} {clock : List UInt64}

theorem HandshakeEffect.pings (h : s.HandshakeEffect t) (ht : t.Pings) :
    s.Pings ∨ t.state = .connected := by
  cases h with
  | idle => exact Or.inl ht
  | giveUp | signalled | stop => exact Or.inl (Or.inr (ht.resolve_left id))
  | seq =>
    have hqueued := ht.resolve_left id
    rw [count_concat, typeOf_controlPacket, if_neg (by decide)] at hqueued
    exact Or.inl (Or.inr hqueued)
  | connected => exact Or.inr rfl
  | publish ts h | ping ts h => exact Or.inl (Or.inl (h ▸ trivial))

theorem DispatchEffect.pings (h : s.DispatchEffect t) (hs : s.Issues received clock)
    (ht : t.Pings) : s.Pings := by
  cases h with
  | queued d payload h =>
    refine ht.imp_right fun hqueued => ?_
    rwa [count_concat, if_neg (hs.typeOf_reply h).2, Nat.add_zero] at hqueued
  | idle | take | stamp | ignore | ack | seq | ping | pong | unsent | sample | stop => exact ht

theorem MonitorEffect.pings (h : s.MonitorEffect t) (ht : t.Pings) : s.Pings := by
  cases h <;> exact ht

/-- A ping on the wire was queued, and the ping loop starts when the session is connected. -/
theorem Issues.pings_act (hs : s.Issues received clock) {action : Action}
    (h : 0 < count .tunnelPing (s.act action).2.toList ∨ (s.act action).1.Pings) :
    s.Pings ∨ (s.act action).1.state = .connected := by
  cases action with
  | handshake now => exact (handshakeStep_effect s now).pings (h.resolve_left (Nat.lt_irrefl 0))
  | dispatch now =>
    exact Or.inl ((dispatchStep_effect s now).pings hs (h.resolve_left (Nat.lt_irrefl 0)))
  | monitor now =>
    exact Or.inl ((monitorStep_effect s now).pings (h.resolve_left (Nat.lt_irrefl 0)))
  | retry =>
    have hpings : s.retry.Pings := h.resolve_left (Nat.lt_irrefl 0)
    rcases retry_cases s with heq | ⟨left, hwait, heq⟩ <;> rw [heq] at hpings
    · exact Or.inl hpings
    · exact Or.inl (Or.inr (hpings.resolve_left id))
  | send ok =>
    change 0 < count .tunnelPing (s.sendStep ok).2.toList ∨ (s.sendStep ok).1.Pings at h
    left
    rcases sendStep_cases s ok with heq | heq | ⟨payload, out, hout, heq⟩ <;> rw [heq] at h
    · exact h.resolve_left (Nat.lt_irrefl 0)
    · exact Or.inl ((h.resolve_left (Nat.lt_irrefl 0)).resolve_right (Nat.lt_irrefl 0))
    · have hcount : count .tunnelPing [payload] + count .tunnelPing out =
          count .tunnelPing s.out := by
        rw [hout, ← count_append, List.singleton_append]
      rcases h with hsent | hpinging | hqueued
      · exact Or.inr (Nat.lt_of_lt_of_eq (Nat.add_pos_left hsent _) hcount)
      · exact Or.inl hpinging
      · exact Or.inr (Nat.lt_of_lt_of_eq (Nat.add_pos_right _ hqueued) hcount)
  | close => exact Or.inl (h.resolve_left (Nat.lt_irrefl 0))
  | abort =>
    exact ((h.resolve_left (Nat.lt_irrefl 0)).elim id fun hqueued =>
      absurd hqueued (Nat.lt_irrefl 0)).elim

end

/-! ## Runs -/

namespace Traffic

/-- The session keeps its budgets: with what it may still send, it stays within its attempts and
within the requests that came in. -/
structure Bounded (peerId : PeerId) (nonce : UInt64) (s : Traffic) : Prop where
  peerId_eq : s.session.peerId = peerId
  nonce_eq : s.session.nonce = nonce
  issues : s.session.Issues s.received s.clock
  wire : ∀ bytes ∈ s.wire, Issuable peerId nonce s.received s.clock bytes
  seqs : count .seq s.wire + s.session.seqs ≤ handshakeMaxAttempts
  answers : ∀ q a, Replies q a →
    count a s.wire + UdpTunnelSession.answers q a s.session ≤ count q (s.received.map (·.1))

theorem bounded_connect (peerId : PeerId) (nonce : UInt64) :
    (connect peerId nonce).Bounded peerId nonce where
  peerId_eq := rfl
  nonce_eq := rfl
  issues := issues_connect peerId nonce
  wire := by simp [connect]
  seqs := Nat.le_refl _
  answers := fun _ _ _ => Nat.le_refl _

theorem Bounded.step {peerId : PeerId} {nonce : UInt64} {s : Traffic} (h : s.Bounded peerId nonce)
    (e : Event) : (s.step e).Bounded peerId nonce := by
  cases e with
  | inbound d =>
    dsimp only [Traffic.step]
    unfold UdpTunnelSession.queue
    split
    · rename_i session hqueue
      split at hqueue
      · cases hqueue
      split at hqueue
      · cases hqueue
        have hlonger : s.received ⊆ s.received ++ [d] := List.subset_append_left _ _
        have hissues := h.issues.mono hlonger (List.Subset.refl s.clock)
        refine ⟨h.peerId_eq, h.nonce_eq, ⟨hissues.out, hissues.reply, ?_, hissues.held, hissues.stamp⟩,
          fun bytes hbytes => (h.wire bytes hbytes).mono hlonger (List.Subset.refl _), h.seqs, ?_⟩
        · intro d' hd'
          rcases List.mem_append.mp hd' with hd' | hd'
          · exact hissues.recv d' hd'
          · exact List.mem_append_right _ hd'
        intro q a hqa
        have hbefore := h.answers q a hqa
        simp only [UdpTunnelSession.answers, List.map_append, List.map_cons, List.map_nil,
          count_concat] at hbefore ⊢
        omega
      · cases hqueue
    · exact h
    · exact h
  | act action =>
    have hidentity := identity_act s.session action
    have hspends := h.issues.act action
    refine ⟨hidentity.2.trans h.peerId_eq, hidentity.1.trans h.nonce_eq, hspends.issues, ?_, ?_, ?_⟩
    · intro bytes hbytes
      have hlater : Issuable peerId nonce s.received s.clock bytes := by
        rcases List.mem_append.mp hbytes with hbytes | hbytes
        · exact h.wire bytes hbytes
        · have hout := hspends.queued bytes (Option.mem_toList.mp hbytes)
          have hissuable := h.issues.out bytes hout
          rwa [h.peerId_eq, h.nonce_eq] at hissuable
      exact hlater.mono (List.Subset.refl _) (List.subset_append_left _ _)
    · have hseqs := h.seqs
      have hspent := hspends.seqs
      simp only [Traffic.step, count_append]
      omega
    · intro q a hqa
      have hanswers := h.answers q a hqa
      have hspent := hspends.answers q a hqa
      simp only [Traffic.step, count_append]
      omega

/-- The step leaves the session connected. -/
def Connects (s : Traffic) (e : Event) : Prop := (s.step e).session.state = .connected

theorem pings_step {peerId : PeerId} {nonce : UInt64} {s : Traffic}
    (h : s.Bounded peerId nonce) (e : Event)
    (hpings : 0 < count .tunnelPing (s.step e).wire ∨ (s.step e).session.Pings) :
    (0 < count .tunnelPing s.wire ∨ s.session.Pings) ∨ s.Connects e := by
  cases e with
  | inbound d =>
    dsimp only [Traffic.step] at hpings
    unfold UdpTunnelSession.queue at hpings
    split at hpings
    · rename_i session hqueue
      split at hqueue
      · cases hqueue
      split at hqueue
      · cases hqueue
        exact Or.inl hpings
      · cases hqueue
    · exact Or.inl hpings
    · exact Or.inl hpings
  | act action =>
    simp only [Traffic.step, count_append] at hpings
    by_cases hwire : 0 < count .tunnelPing s.wire
    · exact Or.inl (Or.inl hwire)
    · have hact : 0 < count .tunnelPing (s.session.act action).2.toList ∨
          (s.session.act action).1.Pings := by
        refine hpings.imp_left fun hsent => ?_
        omega
      exact (h.issues.pings_act hact).imp_left Or.inr

/-- A session does not amplify. In every run, whatever datagrams come in and however its tasks are
scheduled, all it puts on the wire is control packets with its own id: Seqs with its nonce, Acks with
the nonce of a Seq that came in, TunnelPongs with the time of a TunnelPing that came in, and
TunnelPings with a reading of its clock. There are at most five Seqs, no more Acks than Seqs came in
and no more TunnelPongs than TunnelPings; and there is no TunnelPing unless the session was connected
before. -/
theorem traffic_bounded (peerId : PeerId) (nonce : UInt64) (es : List Event) :
    (∀ bytes ∈ (run peerId nonce es).wire,
      Issuable peerId nonce (run peerId nonce es).received (run peerId nonce es).clock bytes) ∧
    count .seq (run peerId nonce es).wire ≤ handshakeMaxAttempts ∧
    count .ack (run peerId nonce es).wire ≤
      count .seq ((run peerId nonce es).received.map (·.1)) ∧
    count .tunnelPong (run peerId nonce es).wire ≤
      count .tunnelPing ((run peerId nonce es).received.map (·.1)) ∧
    (0 < count .tunnelPing (run peerId nonce es).wire →
      Runs.Happened step (connect peerId nonce) es Connects) := by
  have hrun : (run peerId nonce es).Bounded peerId nonce ∧
      (0 < count .tunnelPing (run peerId nonce es).wire ∨ (run peerId nonce es).session.Pings →
        Runs.Happened step (connect peerId nonce) es Connects) := by
    induction es using List.reverseRecOn with
    | nil =>
      refine ⟨bounded_connect peerId nonce, fun hpings => ?_⟩
      rcases hpings with hwire | hpinging | hqueued
      · exact absurd hwire (Nat.lt_irrefl 0)
      · exact hpinging.elim
      · exact absurd hqueued (Nat.lt_irrefl 0)
    | append_singleton es e ih =>
      obtain ⟨hbounded, hconnected⟩ := ih
      rw [run, Runs.run_concat]
      refine ⟨hbounded.step e, fun hpings => ?_⟩
      rcases pings_step hbounded e hpings with hbefore | hconnects
      · exact (hconnected hbefore).concat e
      · exact Runs.happened_last hconnects
  obtain ⟨hbounded, hconnected⟩ := hrun
  refine ⟨hbounded.wire, ?_, ?_, ?_, fun hping => hconnected (Or.inl hping)⟩
  · have hseqs := hbounded.seqs
    omega
  · have hacks := hbounded.answers .seq .ack .ack
    simp only [UdpTunnelSession.answers] at hacks
    omega
  · have hpongs := hbounded.answers .tunnelPing .tunnelPong .pong
    simp only [UdpTunnelSession.answers] at hpongs
    omega

end Traffic

end UdpTunnelSession

end Noeio
