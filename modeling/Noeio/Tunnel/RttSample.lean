import Mathlib.Data.List.Nodup
import Noeio.Lib.Runs
import Noeio.Tunnel.UdpSession

/-!
# Round-trip times and the pings they belong to

The run of one session with a record beside it: the timestamps of its pings in order, how many
pongs that echo the latest ping have been handled since it was published, and the samples that
were stored, each with the ping it belongs to. The record does not steer the session.

`dispatch` compares an echo with the latest ping and with nothing else, and the ping stays the
latest after a pong has answered it. So a pong that comes in twice is sampled twice
(`pong_sampled_twice`). `FirstEcho` says of a step that it does not handle such a second pong;
`one_sample_per_ping` is what holds in every run of such steps.
-/

namespace Noeio

namespace UdpTunnelSession

/-! ## What a step does to the round-trip time -/

/-- The latest ping and the stored time are the same, and no sample has begun. -/
structure Quiet (s t : UdpTunnelSession) : Prop where
  lastPing : t.lastPing = s.lastPing
  rttMs : t.rttMs = s.rttMs
  sample : ∀ sent, t.dispatch = .sample sent → s.dispatch = .sample sent

theorem Quiet.refl (s : UdpTunnelSession) : s.Quiet s := ⟨rfl, rfl, fun _ h => h⟩

/-- `saturating_sub` -/
def elapsed (sent now : UInt64) : UInt64 := if sent ≤ now then now - sent else 0

section
variable (s : UdpTunnelSession) (now : Duration)

theorem quiet_handshakeStep (h : s.handshake ≠ .sleep) : s.Quiet (s.handshakeStep now) := by
  have heffect := handshakeStep_effect s now
  generalize s.handshakeStep now = t at heffect
  cases heffect with
  | publish ts hsleep => exact absurd hsleep h
  | _ => exact ⟨rfl, rfl, fun _ h => h⟩

theorem handshakeStep_of_sleep (h : s.handshake = .sleep) :
    s.handshakeStep now =
      { s with lastPing := now.asMillisU64, handshake := .ping now.asMillisU64 } := by
  unfold handshakeStep
  rw [h]

theorem dispatchStep_of_sample {sent : UInt64} (h : s.dispatch = .sample sent) :
    s.dispatchStep now = { s with rttMs := elapsed sent now.asMillisU64, dispatch := .recv } := by
  unfold dispatchStep
  rw [h]
  rfl

/-- A step of `dispatch` that does not store a sample begins one for the latest ping, or is
quiet. -/
theorem dispatchStep_cases (h : ∀ sent, s.dispatch ≠ .sample sent) :
    (∃ d, s.dispatch = .handle d ∧ s.lastPing ≠ u64Unset ∧ Carries .tunnelPong s.lastPing d.1 ∧
      s.dispatchStep now = { s with dispatch := .sample s.lastPing }) ∨
    (s.Quiet (s.dispatchStep now) ∧ ∀ sent, (s.dispatchStep now).dispatch ≠ .sample sent) := by
  have heffect := dispatchStep_effect s now
  generalize s.dispatchStep now = t at heffect
  cases heffect with
  | pong d hd hunset hpong => exact Or.inl ⟨d, hd, hunset, hpong, rfl⟩
  | idle => exact Or.inr ⟨.refl s, h⟩
  | sample sent _ hsample => exact absurd hsample (h sent)
  | _ => exact Or.inr ⟨⟨rfl, rfl, fun _ h => nomatch h⟩, fun _ h => nomatch h⟩

theorem quiet_monitorStep : s.Quiet (s.monitorStep now) := by
  have heffect := monitorStep_effect s now
  generalize s.monitorStep now = t at heffect
  cases heffect <;> exact ⟨rfl, rfl, fun _ h => h⟩

theorem quiet_retry : s.Quiet s.retry := by
  rcases retry_cases s with h | ⟨_, _, h⟩ <;> rw [h] <;> exact ⟨rfl, rfl, fun _ h => h⟩

theorem quiet_sendStep (ok : Bool) : s.Quiet (s.sendStep ok).1 := by
  rcases sendStep_cases s ok with h | h | ⟨_, _, _, h⟩ <;> rw [h] <;>
    exact ⟨rfl, rfl, fun _ h => h⟩

theorem quiet_abort : s.Quiet s.abort := ⟨rfl, rfl, fun _ h => nomatch h⟩

end

/-! ## The record -/

/-- A stored sample: the number of its ping, the timestamp of that ping and the clock reading. -/
structure RttSample where
  ping : Nat
  sent : UInt64
  now : UInt64
  deriving DecidableEq

structure Probed where
  session : UdpTunnelSession
  /-- The timestamps of the pings, oldest first. -/
  pings : List UInt64
  /-- How many pongs that echo the latest ping have been handled. -/
  echoes : Nat
  /-- The ping whose pong was handled last. -/
  owner : Nat
  samples : List RttSample

namespace Probed

def start (peerId : PeerId) (nonce : UInt64) : Probed := ⟨connect peerId nonce, [], 0, 0, []⟩

inductive Event where
  /-- The daemon hands a datagram to the session. -/
  | receive (datagram : Datagram)
  | act (action : Action)

/-- The record after a step of `dispatch` to `session`. -/
def observe (self : Probed) (now : Duration) (session : UdpTunnelSession) : Probed :=
  match self.session.dispatch, session.dispatch with
  | .sample sent, _ =>
    { self with session, samples := self.samples ++ [⟨self.owner, sent, now.asMillisU64⟩] }
  | _, .sample _ =>
    { self with session, owner := self.pings.length - 1, echoes := self.echoes + 1 }
  | _, _ => { self with session }

def step (self : Probed) : Event → Probed
  | .receive datagram =>
    match self.session.queue datagram with
    | .sent session => { self with session }
    | _ => self
  | .act (.handshake now) =>
    let session := self.session.handshakeStep now
    if self.session.handshake = .sleep then
      { self with session, pings := self.pings ++ [now.asMillisU64], echoes := 0 }
    else { self with session }
  | .act (.dispatch now) => self.observe now (self.session.dispatchStep now)
  | .act action => { self with session := (self.session.act action).1 }

section
variable {self : Probed} (now : Duration)

theorem observe_of_sample {session : UdpTunnelSession} {sent : UInt64}
    (h : self.session.dispatch = .sample sent) :
    self.observe now session =
      { self with session, samples := self.samples ++ [⟨self.owner, sent, now.asMillisU64⟩] } := by
  unfold observe
  rw [h]

theorem observe_of_echo {session : UdpTunnelSession} {sent : UInt64}
    (h : ∀ sent, self.session.dispatch ≠ .sample sent) :
    self.observe now { session with dispatch := .sample sent } =
      { self with
        session := { session with dispatch := .sample sent }
        owner := self.pings.length - 1
        echoes := self.echoes + 1 } := by
  unfold observe
  split
  · exact absurd ‹_› (h _)
  · rfl
  · rename_i hafter
    exact absurd rfl (hafter sent)

theorem observe_of_quiet {session : UdpTunnelSession}
    (h : ∀ sent, self.session.dispatch ≠ .sample sent)
    (hafter : ∀ sent, session.dispatch ≠ .sample sent) :
    self.observe now session = { self with session } := by
  unfold observe
  split
  · exact absurd ‹_› (h _)
  · exact absurd ‹_› (hafter _)
  · rfl

end

/-- The step does not handle a pong that echoes the latest ping when another one was handled
before. -/
def FirstEcho (self : Probed) : Event → Prop
  | .act (.dispatch _) => ∀ d, self.session.dispatch = .handle d →
      self.session.lastPing ≠ u64Unset → Carries .tunnelPong self.session.lastPing d.1 →
        self.echoes = 0
  | _ => True

/-! ## Runs without a second echo -/

/-- What the record says of the session. A ping that no pong has answered has no sample, and none
is about to be stored for it. -/
structure Recorded (s : Probed) : Prop where
  last : s.session.lastPing = s.pings.getLast?.getD u64Unset
  rtt : s.session.rttMs =
    (s.samples.getLast?.map fun x => elapsed x.sent x.now).getD u64Unset
  sampled : ∀ x ∈ s.samples, s.pings[x.ping]? = some x.sent
  nodup : (s.samples.map (·.ping)).Nodup
  owner : ∀ sent, s.session.dispatch = .sample sent →
    s.pings[s.owner]? = some sent ∧ ∀ x ∈ s.samples, x.ping ≠ s.owner
  unanswered : s.echoes = 0 → (∀ x ∈ s.samples, x.ping + 1 < s.pings.length) ∧
    ∀ sent, s.session.dispatch = .sample sent → s.owner + 1 < s.pings.length

theorem recorded_start (peerId : PeerId) (nonce : UInt64) : (start peerId nonce).Recorded where
  last := rfl
  rtt := rfl
  sampled _ hx := absurd hx List.not_mem_nil
  nodup := List.nodup_nil
  owner _ h := nomatch h
  unanswered _ := ⟨fun _ hx => absurd hx List.not_mem_nil, fun _ h => nomatch h⟩

section
variable {s : Probed} (h : s.Recorded)
include h

theorem Recorded.quiet {session : UdpTunnelSession} (hquiet : s.session.Quiet session) :
    { s with session }.Recorded where
  last := hquiet.lastPing.trans h.last
  rtt := hquiet.rttMs.trans h.rtt
  sampled := h.sampled
  nodup := h.nodup
  owner sent hsample := h.owner sent (hquiet.sample sent hsample)
  unanswered hechoes :=
    ⟨(h.unanswered hechoes).1, fun sent hsample =>
      (h.unanswered hechoes).2 sent (hquiet.sample sent hsample)⟩

theorem lt_length_of_mem {x : RttSample} (hx : x ∈ s.samples) : x.ping < s.pings.length :=
  (List.getElem?_eq_some_iff.mp (h.sampled x hx)).1

theorem Recorded.publish (now : Duration) (hsleep : s.session.handshake = .sleep) :
    { s with
      session := s.session.handshakeStep now
      pings := s.pings ++ [now.asMillisU64]
      echoes := 0 }.Recorded := by
  have hstep := handshakeStep_of_sleep s.session now hsleep
  have howner : ∀ sent, s.session.dispatch = .sample sent → s.owner < s.pings.length :=
    fun sent hsample => (List.getElem?_eq_some_iff.mp (h.owner sent hsample).1).1
  rw [hstep]
  refine ⟨?_, h.rtt, ?_, h.nodup, ?_, ?_⟩
  · simp
  · intro x hx
    rw [List.getElem?_append_left (lt_length_of_mem h hx)]
    exact h.sampled x hx
  · intro sent hsample
    rw [List.getElem?_append_left (howner sent hsample)]
    exact h.owner sent hsample
  · intro _
    rw [List.length_append, List.length_singleton]
    refine ⟨fun x hx => ?_, fun sent hsample => ?_⟩
    · exact Nat.succ_lt_succ (lt_length_of_mem h hx)
    · exact Nat.succ_lt_succ (howner sent hsample)

theorem Recorded.echo (hunset : s.session.lastPing ≠ u64Unset) (hfirst : s.echoes = 0) :
    { s with
      session := { s.session with dispatch := .sample s.session.lastPing }
      owner := s.pings.length - 1
      echoes := s.echoes + 1 }.Recorded := by
  refine ⟨h.last, h.rtt, h.sampled, h.nodup, ?_, fun hechoes => nomatch hechoes⟩
  rintro _ ⟨⟩
  constructor
  · have hlast := h.last
    rw [List.getLast?_eq_getElem?] at hlast
    cases hget : s.pings[s.pings.length - 1]? with
    | none =>
      rw [hget] at hlast
      exact absurd hlast hunset
    | some ts =>
      rw [hget, Option.getD_some] at hlast
      exact congrArg some hlast.symm
  · intro x hx
    have hlt := (h.unanswered hfirst).1 x hx
    change x.ping ≠ s.pings.length - 1
    omega

theorem Recorded.store (now : Duration) {sent : UInt64} (hsample : s.session.dispatch = .sample sent) :
    { s with
      session := s.session.dispatchStep now
      samples := s.samples ++ [(⟨s.owner, sent, now.asMillisU64⟩ : RttSample)] }.Recorded := by
  obtain ⟨hping, hnew⟩ := h.owner sent hsample
  rw [dispatchStep_of_sample s.session now hsample]
  refine ⟨h.last, by simp, ?_, ?_, (fun _ hrecv => nomatch hrecv), ?_⟩
  · intro x hx
    rcases List.mem_append.mp hx with hx | hx
    · exact h.sampled x hx
    · rw [List.mem_singleton.mp hx]
      exact hping
  · rw [List.map_append]
    refine List.nodup_append'.mpr ⟨h.nodup, List.nodup_singleton _, ?_⟩
    intro ping hold hping
    obtain ⟨x, hx, rfl⟩ := List.mem_map.mp hold
    exact hnew x hx (List.mem_singleton.mp hping)
  · intro hechoes
    refine ⟨fun x hx => ?_, fun _ hrecv => nomatch hrecv⟩
    rcases List.mem_append.mp hx with hx | hx
    · exact (h.unanswered hechoes).1 x hx
    · rw [List.mem_singleton.mp hx]
      exact (h.unanswered hechoes).2 sent hsample

theorem Recorded.step (e : Event) (hfirst : s.FirstEcho e) : (s.step e).Recorded := by
  cases e with
  | receive datagram =>
    simp only [Probed.step]
    cases hqueue : s.session.queue datagram with
    | sent session =>
      rw [queue_eq_sent hqueue]
      exact h.quiet ⟨rfl, rfl, fun _ hsample => hsample⟩
    | closed => exact h
    | full => exact h
  | act action =>
    cases action with
    | handshake now =>
      simp only [Probed.step]
      split
      · exact h.publish now ‹_›
      · exact h.quiet (quiet_handshakeStep s.session now ‹_›)
    | dispatch now =>
      change (s.observe now (s.session.dispatchStep now)).Recorded
      by_cases hstore : ∃ sent, s.session.dispatch = .sample sent
      · obtain ⟨sent, hsample⟩ := hstore
        rw [observe_of_sample now hsample]
        exact h.store now hsample
      · have hnot : ∀ sent, s.session.dispatch ≠ .sample sent := fun sent hs => hstore ⟨sent, hs⟩
        rcases dispatchStep_cases s.session now hnot with
          ⟨d, hd, hunset, hpong, heq⟩ | ⟨hquiet, hafter⟩
        · rw [heq, observe_of_echo now hnot]
          exact h.echo hunset (hfirst d hd hunset hpong)
        · rw [observe_of_quiet now hnot hafter]
          exact h.quiet hquiet
    | retry => exact h.quiet (quiet_retry s.session)
    | monitor now => exact h.quiet (quiet_monitorStep s.session now)
    | send ok => exact h.quiet (quiet_sendStep s.session ok)
    | close => exact h.quiet ⟨rfl, rfl, fun _ hsample => hsample⟩
    | abort => exact h.quiet (quiet_abort s.session)

end

theorem samples_step (s : Probed) (e : Event) :
    (s.step e).samples = s.samples ∨ ∃ x, (s.step e).samples = s.samples ++ [x] := by
  cases e with
  | receive datagram =>
    simp only [Probed.step]
    cases s.session.queue datagram <;> exact Or.inl rfl
  | act action =>
    cases action with
    | handshake now =>
      simp only [Probed.step]
      split <;> exact Or.inl rfl
    | dispatch now =>
      simp only [Probed.step, observe]
      split
      · exact Or.inr ⟨_, rfl⟩
      · exact Or.inl rfl
      · exact Or.inl rfl
    | _ => exact Or.inl rfl

/-- A step that changes the stored time stores the only sample of its ping. -/
theorem Recorded.sample_of_rttMs_ne {s : Probed} (h : s.Recorded) {e : Event}
    (hfirst : s.FirstEcho e) (hne : (s.step e).session.rttMs ≠ s.session.rttMs) :
    ∃ x, (s.step e).samples = s.samples ++ [x] ∧ ∀ y ∈ s.samples, y.ping ≠ x.ping := by
  have hnext := h.step e hfirst
  rcases samples_step s e with hsame | ⟨x, hx⟩
  · have hrtt := hnext.rtt
    rw [hsame, ← h.rtt] at hrtt
    exact absurd hrtt hne
  · refine ⟨x, hx, ?_⟩
    have hnodup := hnext.nodup
    rw [hx, List.map_append] at hnodup
    intro y hy heq
    exact (List.nodup_append'.mp hnodup).2.2 (List.mem_map_of_mem hy) (heq ▸ List.mem_singleton_self _)

/-- Round-trip times in every run in which no pong that echoes the latest ping is handled after
another one that did, whatever is lost, late, reordered or forged with other values. Each ping
has at most one sample, from its timestamp to the pong; the stored time is that of the last
sample; and a step changes it only by storing the one sample of a ping. -/
theorem one_sample_per_ping (peerId : PeerId) (nonce : UInt64) (es : List Event)
    (hes : Runs.Meets step (fun _ s e => s.FirstEcho e) (start peerId nonce) es) :
    let s := Runs.run step (start peerId nonce) es
    (s.samples.map (·.ping)).Nodup ∧
    (∀ x ∈ s.samples, s.pings[x.ping]? = some x.sent) ∧
    s.session.rttMs = (s.samples.getLast?.map fun x => elapsed x.sent x.now).getD u64Unset ∧
    ∀ e, s.FirstEcho e → (s.step e).session.rttMs ≠ s.session.rttMs →
      ∃ x, (s.step e).samples = s.samples ++ [x] ∧ ∀ y ∈ s.samples, y.ping ≠ x.ping := by
  have hrecorded : (Runs.run step (start peerId nonce) es).Recorded :=
    Runs.invariant (P := fun _ (s : Probed) => s.Recorded) (recorded_start peerId nonce)
      (fun _ _ e hs hfirst => hs.step e hfirst) hes
  exact ⟨hrecorded.nodup, hrecorded.sampled, hrecorded.rtt,
    fun e hfirst => hrecorded.sample_of_rttMs_ne hfirst⟩

namespace Sample

/-- Where the datagrams of the peer come from. -/
def source : SocketAddr := .v4 (.ofOctets 192 168 1 2) 4242

def pong : Event := .receive ((controlPacket .tunnelPong 2 15000).inner, source)

def dispatchAt (millis : Nat) : Event := .act (.dispatch (millis * 10 ^ 6))

def handshakeAt (millis : Nat) : Event := .act (.handshake (millis * 10 ^ 6))

/-- The handshake, and a ping after 15 s. -/
def pinged : List Event :=
  [handshakeAt 0, .receive ((controlPacket .ack 2 7).inner, source), dispatchAt 1, dispatchAt 1,
    dispatchAt 1, handshakeAt 1, handshakeAt 1, handshakeAt 15000, handshakeAt 15000]

/-- A pong comes in and is handled. -/
def pongAt (millis : Nat) : List Event :=
  [pong, dispatchAt millis, dispatchAt millis, dispatchAt millis, dispatchAt millis]

/-- The pong of the sample is delivered twice, 20 ms and 5 s after the ping. -/
theorem pong_sampled_twice :
    (Runs.run step (start 1 7) (pinged ++ pongAt 15020)).session.rtt = some 20 ∧
      (Runs.run step (start 1 7) (pinged ++ pongAt 15020 ++ pongAt 20020)).session.rtt = some 5020 ∧
      ¬ ∀ es, ((Runs.run step (start 1 7) es).samples.map (·.ping)).Nodup := by
  refine ⟨by decide +kernel, by decide +kernel, ?_⟩
  intro h
  have htwice := h (pinged ++ pongAt 15020 ++ pongAt 20020)
  revert htwice
  decide +kernel

theorem one_sample_pinged :
    (Runs.run step (start 1 7) (pinged ++ pongAt 15020)).session.rttMs = 20 := by
  have hes : Runs.Meets step (fun _ s e => s.FirstEcho e) (start 1 7) (pinged ++ pongAt 15020) := by
    refine ⟨trivial, trivial, ?_, ?_, ?_, trivial, trivial, trivial, trivial, trivial, ?_, ?_, ?_,
      ?_, trivial⟩
    · exact fun d _ _ _ => rfl
    · exact fun d _ _ _ => rfl
    · exact fun d _ _ _ => rfl
    · exact fun d _ _ _ => rfl
    · exact fun d _ _ _ => rfl
    · exact fun d _ _ _ => rfl
    · exact fun d h => nomatch h
  rw [(one_sample_per_ping 1 7 _ hes).2.2.1]
  decide +kernel

end Sample

end Probed

end UdpTunnelSession

end Noeio
