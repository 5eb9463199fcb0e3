import Noeio.Lib.FirstMin
import Noeio.Lib.Runs
import Noeio.Tunnel.UdpSession

/-!
# The ranking of the derp servers

Every derp server has a probe loop that measures it, and `rank_loop` chooses the best of them.
The loops signal over a bounded channel, with `try_send`, after an answer and after the third
miss in a row; `rank_loop` waits for a signal, takes all that are pending and reads the servers
one after the other, each with two loads.

A loop is at a point of its program, and an event takes it to the next: a step reads or writes
shared state at most once, so the loops, the pongs that come in and `rank_loop` interleave in
any way.

No signal is lost. A state is `Pending` if a signal is in the channel or a probe loop is about
to send one. What `rank_loop` has read so far is up to date or the state is pending
(`UpToDate.step`), since a probe loop that changes what `rank_loop` reads goes on to signal, and
`rank_loop` empties the channel before it reads. With the rule for the misses this is
`ranking_never_stale`.
-/

namespace Noeio

open FirstMin

def maxProbeMisses : UInt32 := 3

/-- The capacity of the channel behind `probe_done_tx`. -/
def probeDoneCapacity : Nat := 16

/-- The capacity of the channel from `on_pong` to the probe loop. -/
def pongCapacity : Nat := 1

/-- What `base.elapsed()` reads in milliseconds. No instant is `2 ^ 64 - 1` milliseconds old. -/
abbrev Elapsed := { ms : UInt64 // ms ≠ u64Unset }

def Duration.fromMillis (ms : UInt64) : Duration := ms.toNat * 10 ^ 6

/-- `saturating_add(1)` -/
def saturatingSucc (n : UInt32) : UInt32 := if n = 0xFFFFFFFF then n else n + 1

structure DerperInfo where
  address : String
  token : String
  deriving DecidableEq

structure ResolvedDerper where
  address : String
  token : String
  addr : SocketAddr
  rttMs : Option UInt64
  deriving DecidableEq

/-! ## A server and its probe loop -/

/-- Where a probe loop is. A timestamp is the one of the round. -/
inductive ProbePhase where
  | stamp
  | drain (ts : UInt64)
  | send (ts : UInt64)
  | wait (ts : UInt64)
  /-- The time has been written, and the signal is to be sent. -/
  | signal
  | sleep
  deriving DecidableEq

structure DerperEntry where
  info : DerperInfo
  addr : Option SocketAddr
  rttMs : UInt64
  lastPingTs : UInt64
  /-- The echoes that `on_pong` has compared and not yet sent to the probe loop. -/
  compared : List UInt64
  pongs : List UInt64
  misses : UInt32
  phase : ProbePhase
  /-- The completed rounds, newest first: the time that was measured, or nothing for a miss. -/
  rounds : List (Option Elapsed)

namespace DerperEntry

def new (info : DerperInfo) (addr : Option SocketAddr) : DerperEntry where
  info
  addr
  rttMs := u64Unset
  lastPingTs := u64Unset
  compared := []
  pongs := []
  misses := 0
  phase := .stamp
  rounds := []

def rtt (self : DerperEntry) : Option Duration :=
  if self.rttMs = u64Unset then none else some (.fromMillis self.rttMs)

def resolved (self : DerperEntry) : Option ResolvedDerper :=
  self.addr.map fun addr =>
    { address := self.info.address, token := self.info.token, addr
      rttMs := if self.rttMs = u64Unset then none else some self.rttMs }

/-- `on_pong` up to the comparison. -/
def onPong (self : DerperEntry) (echoTs : UInt64) : DerperEntry :=
  if self.lastPingTs = u64Unset ∨ echoTs ≠ self.lastPingTs then self
  else { self with compared := self.compared ++ [echoTs] }

/-- The `try_send` of an `on_pong` that has compared. -/
def queuePong (self : DerperEntry) (j : Nat) : DerperEntry :=
  match self.compared[j]? with
  | none => self
  | some echo =>
    let compared := self.compared.eraseIdx j
    if self.pongs.length < pongCapacity then { self with compared, pongs := self.pongs ++ [echo] }
    else { self with compared }

def acceptPong (self : DerperEntry) (echo sentTs : UInt64) (elapsed : Elapsed) :
    Option DerperEntry :=
  if echo ≠ sentTs then none else some { self with rttMs := elapsed }

/-- `record_miss`, up to the signal. -/
def recordMiss (self : DerperEntry) : DerperEntry :=
  let misses := saturatingSucc self.misses
  let rounds := none :: self.rounds
  if misses = maxProbeMisses then
    { self with misses, rounds, rttMs := u64Unset, phase := .signal }
  else { self with misses, rounds, phase := .sleep }

/-- What the surroundings of a probe loop answer to its step. -/
inductive ProbeEvent where
  /-- The time of day. -/
  | clock (ts : UInt64)
  | sent (ok : Bool)
  /-- The loop is woken by a pong. -/
  | recv (elapsed : Elapsed)
  | timeout
  /-- A step that needs nothing. -/
  | next

/-- A step of `probe_loop` other than the signal. -/
def probeStep (self : DerperEntry) (event : ProbeEvent) : DerperEntry :=
  match self.phase, event with
  | .stamp, .clock ts => { self with lastPingTs := ts, phase := .drain ts }
  | .drain ts, .next =>
    match self.pongs with
    | [] => { self with phase := .send ts }
    | _ :: pongs => { self with pongs }
  | .send ts, .sent ok => if ok then { self with phase := .wait ts } else self.recordMiss
  | .wait ts, .recv elapsed =>
    match self.pongs with
    | [] => self
    | echo :: pongs =>
      let self := { self with pongs }
      match self.acceptPong echo ts elapsed with
      | some entry =>
        { entry with misses := 0, phase := .signal, rounds := some elapsed :: self.rounds }
      | none => self.recordMiss
  | .wait _, .timeout => self.recordMiss
  | .sleep, .next => { self with phase := .stamp }
  | _, _ => self

end DerperEntry

/-! ## All servers and the ranking task -/

/-- Where `rank_loop` is, with what it has read. -/
inductive RankPhase where
  /-- `DerperManager::new` has not stored the first choice yet. -/
  | starting
  | waiting
  | draining
  /-- The servers before the one at `i` have been read. -/
  | reading (i : Nat) (found : List (Duration × ResolvedDerper))
  /-- Of the server at `i` the first load is done. -/
  | loaded (i : Nat) (rtt : Duration) (found : List (Duration × ResolvedDerper))
  | fallback
  | writing (best : Option ResolvedDerper)

structure DerperManager where
  entries : List DerperEntry
  current : Option ResolvedDerper
  /-- How many signals are in the channel. -/
  signals : Nat
  rank : RankPhase

namespace DerperManager

/-- The servers of the configuration, each with the address that its name resolves to. -/
def new (servers : List (DerperInfo × Option SocketAddr)) : DerperManager where
  entries := servers.map fun (info, addr) => .new info addr
  current := none
  signals := 0
  rank := .starting

/-- The server that `by_addr` has for the address: the last one that was inserted. -/
def byAddr (self : DerperManager) (addr : SocketAddr) : Option Nat :=
  (self.entries.zipIdx.reverse.find? fun e => e.1.addr = some addr).map (·.2)

def trySignal (self : DerperManager) : DerperManager :=
  if self.signals < probeDoneCapacity then { self with signals := self.signals + 1 } else self

/-- A step of `rank_loop`. -/
def rankStep (self : DerperManager) : DerperManager :=
  match self.rank with
  | .starting => { self with current := self.entries.findSome? (·.resolved), rank := .waiting }
  | .waiting =>
    if self.signals = 0 then self
    else { self with signals := self.signals - 1, rank := .draining }
  | .draining =>
    if self.signals = 0 then { self with rank := .reading 0 [] }
    else { self with signals := self.signals - 1 }
  | .reading i found =>
    match self.entries[i]? with
    | some entry =>
      match entry.rtt with
      | some rtt => { self with rank := .loaded i rtt found }
      | none => { self with rank := .reading (i + 1) found }
    | none =>
      match firstMin (·.1) found with
      | some (_, resolved) => { self with rank := .writing (some resolved) }
      | none => { self with rank := .fallback }
  | .loaded i rtt found =>
    match self.entries[i]?.bind (·.resolved) with
    | some resolved => { self with rank := .reading (i + 1) (found ++ [(rtt, resolved)]) }
    | none => { self with rank := .reading (i + 1) found }
  | .fallback => { self with rank := .writing (self.entries.findSome? (·.resolved)) }
  | .writing best => { self with current := best, rank := .waiting }

inductive Event where
  | dispatchPong (addr : SocketAddr) (echoTs : UInt64)
  /-- The `j`-th `on_pong` that waits for it sends its echo to the probe loop of server `i`. -/
  | queuePong (i j : Nat)
  | probe (i : Nat) (event : DerperEntry.ProbeEvent)
  | rank

/-- `probe_loop` is spawned only for a server with an address. -/
def probe (self : DerperManager) (i : Nat) (event : DerperEntry.ProbeEvent) : DerperManager :=
  match self.entries[i]? with
  | none => self
  | some entry =>
    if entry.addr = none then self
    else if entry.phase = .signal then
      { self with entries := self.entries.modify i ({ · with phase := .sleep }) }.trySignal
    else { self with entries := self.entries.modify i (·.probeStep event) }

def step (self : DerperManager) : Event → DerperManager
  | .dispatchPong addr echoTs =>
    match self.byAddr addr with
    | none => self
    | some i => { self with entries := self.entries.modify i (·.onPong echoTs) }
  | .queuePong i j => { self with entries := self.entries.modify i (·.queuePong j) }
  | .probe i event => self.probe i event
  | .rank => self.rankStep

end DerperManager

/-! ## The misses in a row -/

/-- How many rounds were missed since the last answer. -/
def missesInRow (rounds : List (Option Elapsed)) : Nat := (rounds.takeWhile (·.isNone)).length

/-- The time of the last round that was answered. -/
def lastAnswer (rounds : List (Option Elapsed)) : Option Elapsed := rounds.findSome? id

section
variable (rounds : List (Option Elapsed))

@[simp] theorem missesInRow_none : missesInRow (none :: rounds) = missesInRow rounds + 1 := rfl

@[simp] theorem lastAnswer_none : lastAnswer (none :: rounds) = lastAnswer rounds := rfl

end

theorem lastAnswer_isSome {rounds : List (Option Elapsed)} :
    (lastAnswer rounds).isSome ↔ ∃ ms, some ms ∈ rounds := by
  rw [lastAnswer, List.findSome?_isSome_iff]
  simp only [id_eq, Option.isSome_iff_exists]
  constructor
  · rintro ⟨_, hmem, ms, rfl⟩
    exact ⟨ms, hmem⟩
  · rintro ⟨ms, hmem⟩
    exact ⟨_, hmem, ms, rfl⟩

theorem toNat_saturatingSucc (n : UInt32) :
    (saturatingSucc n).toNat = min (n.toNat + 1) (2 ^ 32 - 1) := by
  have hlt : n.toNat < 2 ^ 32 := n.toNat_lt
  unfold saturatingSucc
  by_cases hmax : n = 0xFFFFFFFF
  · rw [if_pos hmax, hmax]
    rfl
  · have hne : n.toNat ≠ 2 ^ 32 - 1 := fun h => hmax (UInt32.toNat_inj.mp h)
    rw [if_neg hmax, UInt32.toNat_add, UInt32.toNat_one]
    omega

/-- The round-trip time that the rounds leave. -/
def ratedMs (rounds : List (Option Elapsed)) : UInt64 :=
  if missesInRow rounds < 3 then
    ((lastAnswer rounds).map (·.val)).getD u64Unset
  else u64Unset

theorem ratedMs_ne {rounds : List (Option Elapsed)} :
    ratedMs rounds ≠ u64Unset ↔ (∃ ms, some ms ∈ rounds) ∧ missesInRow rounds < 3 := by
  rw [← lastAnswer_isSome]
  by_cases hrow : missesInRow rounds < 3
  · rw [ratedMs, if_pos hrow]
    cases hlast : lastAnswer rounds with
    | none => simp
    | some ms => simp [hrow, ms.property]
  · rw [ratedMs, if_neg hrow]
    simp [hrow]

namespace DerperEntry

/-- The time and the misses of a server are what its rounds leave, and it has rounds only if it
has an address. -/
structure Counted (e : DerperEntry) : Prop where
  misses : e.misses.toNat = min (missesInRow e.rounds) (2 ^ 32 - 1)
  rttMs : e.rttMs = ratedMs e.rounds
  unresolved : e.addr = none → e.rounds = []

theorem counted_new (info : DerperInfo) (addr : Option SocketAddr) : (new info addr).Counted :=
  ⟨rfl, rfl, fun _ => rfl⟩

/-- A miss changes the time only if it is the third in a row, and then signals. -/
theorem recordMiss_cases (e : DerperEntry) :
    e.recordMiss.phase = .signal ∨
      ∃ misses, e.recordMiss = { e with misses, rounds := none :: e.rounds, phase := .sleep } := by
  unfold recordMiss
  by_cases hthird : saturatingSucc e.misses = maxProbeMisses
  · exact Or.inl (congrArg phase (if_pos hthird))
  · exact Or.inr ⟨_, if_neg hthird⟩

theorem Counted.recordMiss {e : DerperEntry} (h : e.Counted) (haddr : e.addr ≠ none) :
    e.recordMiss.Counted := by
  have hmisses : (saturatingSucc e.misses).toNat = min (missesInRow e.rounds + 1) (2 ^ 32 - 1) := by
    rw [toNat_saturatingSucc, h.misses]
    omega
  have hthird : saturatingSucc e.misses = maxProbeMisses ↔ missesInRow e.rounds + 1 = 3 := by
    rw [← UInt32.toNat_inj, hmisses, maxProbeMisses]
    have h3 : (3 : UInt32).toNat = 3 := rfl
    omega
  have hnone : e.addr = none → none :: e.rounds = [] := fun h => absurd h haddr
  unfold DerperEntry.recordMiss
  by_cases hrow : saturatingSucc e.misses = maxProbeMisses
  · rw [if_pos hrow]
    have hend : ¬ missesInRow (none :: e.rounds) < 3 := by
      rw [missesInRow_none, hthird.mp hrow]
      omega
    exact ⟨hmisses, (if_neg hend).symm, hnone⟩
  · rw [if_neg hrow]
    have hne := mt hthird.mpr hrow
    refine ⟨hmisses, ?_, hnone⟩
    -- before the third miss the last answer counts, after it nothing is left to be dropped
    by_cases hfew : missesInRow e.rounds < 3
    · have hfew' : missesInRow (none :: e.rounds) < 3 := by
        rw [missesInRow_none]
        omega
      rw [h.rttMs, ratedMs, ratedMs, if_pos hfew, if_pos hfew', lastAnswer_none]
    · have hmany : ¬ missesInRow (none :: e.rounds) < 3 := by
        rw [missesInRow_none]
        omega
      rw [h.rttMs, ratedMs, ratedMs, if_neg hfew, if_neg hmany]

/-- What a step of `probe_loop` other than the signal can do. -/
inductive ProbeEffect (e : DerperEntry) : DerperEntry → Prop
  | quiet (lastPingTs : UInt64) (pongs : List UInt64) (phase : ProbePhase) (h : phase ≠ .signal) :
      ProbeEffect e { e with lastPingTs, pongs, phase }
  | answer (pongs : List UInt64) (elapsed : Elapsed) :
      ProbeEffect e
        { e with
          pongs, rttMs := elapsed, misses := 0, phase := .signal
          rounds := some elapsed :: e.rounds }
  | miss (pongs : List UInt64) : ProbeEffect e ({ e with pongs } : DerperEntry).recordMiss

theorem probeStep_effect {e : DerperEntry} (h : e.phase ≠ .signal) (event : ProbeEvent) :
    e.ProbeEffect (e.probeStep event) := by
  have hself : e.ProbeEffect e := .quiet e.lastPingTs e.pongs e.phase h
  unfold probeStep
  split
  · rename_i ts _
    exact .quiet ts e.pongs (.drain ts) (fun h => nomatch h)
  · rename_i ts hphase
    split
    · exact .quiet e.lastPingTs e.pongs (.send ts) (fun h => nomatch h)
    · rename_i pongs _
      exact .quiet e.lastPingTs pongs e.phase h
  · rename_i ts ok _
    cases ok with
    | true => exact .quiet e.lastPingTs e.pongs (.wait ts) (fun h => nomatch h)
    | false => exact .miss e.pongs
  · rename_i ts elapsed _
    split
    · exact hself
    · rename_i echo pongs _
      dsimp only [acceptPong]
      by_cases hecho : echo ≠ ts
      · rw [if_pos hecho]
        exact .miss pongs
      · rw [if_neg hecho]
        exact .answer pongs elapsed
  · exact .miss e.pongs
  · exact .quiet e.lastPingTs e.pongs .stamp (fun h => nomatch h)
  · exact hself

theorem Counted.probeStep {e : DerperEntry} (h : e.Counted) (haddr : e.addr ≠ none)
    (hphase : e.phase ≠ .signal) (event : ProbeEvent) : (e.probeStep event).Counted := by
  have heffect := probeStep_effect hphase event
  generalize e.probeStep event = next at heffect
  cases heffect with
  | quiet => exact ⟨h.misses, h.rttMs, h.unresolved⟩
  | answer pongs elapsed => exact ⟨rfl, rfl, fun hnone => absurd hnone haddr⟩
  | miss pongs => exact Counted.recordMiss ⟨h.misses, h.rttMs, h.unresolved⟩ haddr

theorem rtt_eq_none {e : DerperEntry} : e.rtt = none ↔ e.rttMs = u64Unset := by
  simp [rtt]

theorem Counted.rtt_isSome {e : DerperEntry} (h : e.Counted) :
    e.rtt.isSome ↔ (∃ ms, some ms ∈ e.rounds) ∧ missesInRow e.rounds < 3 := by
  rw [← ratedMs_ne, ← h.rttMs, ← Option.ne_none_iff_isSome, ne_eq, rtt_eq_none]

/-- A server that has a time has an address. -/
theorem Counted.exists_resolved {e : DerperEntry} (h : e.Counted) {rtt : Duration}
    (hrtt : e.rtt = some rtt) : ∃ best, e.resolved = some best := by
  cases haddr : e.addr with
  | some addr => exact ⟨_, by rw [resolved, haddr, Option.map_some]⟩
  | none =>
    have hunset : e.rttMs = u64Unset := by
      rw [h.rttMs, h.unresolved haddr]
      rfl
    rw [rtt_eq_none.mpr hunset] at hrtt
    cases hrtt

theorem onPong_cases (e : DerperEntry) (echoTs : UInt64) :
    ∃ compared, e.onPong echoTs = { e with compared } := by
  unfold onPong
  split
  · exact ⟨e.compared, rfl⟩
  · exact ⟨_, rfl⟩

theorem queuePong_cases (e : DerperEntry) (j : Nat) :
    ∃ compared pongs, e.queuePong j = { e with compared, pongs } := by
  unfold queuePong
  split
  · exact ⟨e.compared, e.pongs, rfl⟩
  · split
    · exact ⟨_, _, rfl⟩
    · exact ⟨_, e.pongs, rfl⟩

/-- What `rank_loop` reads of a server. -/
abbrev View := Option Duration × Option ResolvedDerper

def view (e : DerperEntry) : View := (e.rtt, e.resolved)

/-- A probe loop changes what `rank_loop` reads only when it goes on to signal. -/
theorem view_probeStep {e : DerperEntry} (hphase : e.phase ≠ .signal) (event : ProbeEvent) :
    (e.probeStep event).phase = .signal ∨ (e.probeStep event).view = e.view := by
  have heffect := probeStep_effect hphase event
  generalize e.probeStep event = next at heffect
  cases heffect with
  | quiet => exact Or.inr rfl
  | answer => exact Or.inl rfl
  | miss pongs =>
    rcases recordMiss_cases { e with pongs } with h | ⟨misses, h⟩
    · exact Or.inl h
    · right
      rw [h]
      rfl

end DerperEntry

/-! ## What `rank_loop` knows -/

namespace DerperManager

open DerperEntry

/-- A server with its time, as `rank_loop` compares it. -/
def rated (view : View) : Option (Duration × ResolvedDerper) :=
  view.1.bind fun rtt => view.2.map fun resolved => (rtt, resolved)

/-- The choice among the servers. -/
def ranking (views : List View) : Option ResolvedDerper :=
  ((firstMin (·.1) (views.filterMap rated)).map (·.2)).or (views.findSome? (·.2))

/-- A signal is in the channel, or a probe loop is about to send one. -/
def Pending (self : DerperManager) : Prop :=
  0 < self.signals ∨ ∃ e ∈ self.entries, e.phase = .signal

/-- What `rank_loop` has read, or has stored, agrees with what the servers are. -/
def Agrees (views : List View)
    (current : Option ResolvedDerper) : RankPhase → Prop
  | .starting => views.filterMap rated = []
  | .waiting => current = ranking views
  | .draining => True
  | .reading i found => found = (views.take i).filterMap rated
  | .loaded i rtt found =>
    found = (views.take i).filterMap rated ∧ ∃ resolved, views[i]? = some (some rtt, resolved)
  | .fallback => views.filterMap rated = []
  | .writing best => best = ranking views

/-- The invariant of the wake-ups. -/
def UpToDate (self : DerperManager) : Prop :=
  self.Pending ∨ Agrees (self.entries.map view) self.current self.rank

theorem upToDate_new (servers : List (DerperInfo × Option SocketAddr)) : (new servers).UpToDate := by
  right
  change (((servers.map fun s => DerperEntry.new s.1 s.2).map view).filterMap rated) = []
  simp only [List.map_map, List.filterMap_map, List.filterMap_eq_nil_iff]
  rintro ⟨info, addr⟩ -
  rfl

theorem counted_new_entries (servers : List (DerperInfo × Option SocketAddr)) :
    ∀ e ∈ (new servers).entries, e.Counted := by
  intro e he
  obtain ⟨⟨info, addr⟩, -, rfl⟩ := List.mem_map.mp he
  exact counted_new info addr

theorem ranking_of_unrated {views : List View}
    (h : views.filterMap rated = []) : ranking views = views.findSome? (·.2) := by
  rw [ranking, h]
  rfl

theorem pending_trySignal (self : DerperManager) : self.trySignal.Pending := by
  left
  unfold trySignal
  split
  · exact Nat.succ_pos self.signals
  · rename_i hfull
    rw [probeDoneCapacity] at hfull
    omega

/-! ### Steps -/

/-- What a step can do. -/
inductive Effect (s : DerperManager) : DerperManager → Prop
  | idle : Effect s s
  | pong (pre post : List DerperEntry) (e : DerperEntry) (compared pongs : List UInt64)
      (h : s.entries = pre ++ e :: post) :
      Effect s { s with entries := pre ++ { e with compared, pongs } :: post }
  | probe (pre post : List DerperEntry) (e : DerperEntry) (event : ProbeEvent)
      (h : s.entries = pre ++ e :: post) (haddr : e.addr ≠ none) (hphase : e.phase ≠ .signal) :
      Effect s { s with entries := pre ++ e.probeStep event :: post }
  | signal (pre post : List DerperEntry) (e : DerperEntry) (h : s.entries = pre ++ e :: post) :
      Effect s ({ s with entries := pre ++ { e with phase := .sleep } :: post } :
        DerperManager).trySignal
  | rank : Effect s s.rankStep

theorem modify_cases (entries : List DerperEntry) (i : Nat) :
    (entries[i]? = none ∧ ∀ f, entries.modify i f = entries) ∨
      ∃ pre e post, entries[i]? = some e ∧ entries = pre ++ e :: post ∧
        ∀ f, entries.modify i f = pre ++ f e :: post := by
  by_cases hi : i < entries.length
  · right
    refine ⟨entries.take i, entries[i], entries.drop (i + 1), List.getElem?_eq_getElem hi, ?_, ?_⟩
    · have hid := List.modify_eq_take_cons_drop (f := id) hi
      rwa [List.modify_id] at hid
    · exact fun f => List.modify_eq_take_cons_drop hi
  · left
    have hle : entries.length ≤ i := Nat.le_of_not_lt hi
    exact ⟨List.getElem?_eq_none hle, fun f => List.modify_eq_self hle⟩

theorem step_effect (s : DerperManager) (event : Event) : s.Effect (s.step event) := by
  cases event with
  | dispatchPong addr echoTs =>
    dsimp only [step]
    split
    · exact .idle
    · rename_i i _
      rcases modify_cases s.entries i with ⟨-, hmodify⟩ | ⟨pre, e, post, -, hs, hmodify⟩
      · rw [hmodify]
        exact .idle
      · obtain ⟨compared, hpong⟩ := onPong_cases e echoTs
        rw [hmodify, hpong]
        exact .pong pre post e compared e.pongs hs
  | queuePong i j =>
    dsimp only [step]
    rcases modify_cases s.entries i with ⟨-, hmodify⟩ | ⟨pre, e, post, -, hs, hmodify⟩
    · rw [hmodify]
      exact .idle
    · obtain ⟨compared, pongs, hpong⟩ := queuePong_cases e j
      rw [hmodify, hpong]
      exact .pong pre post e compared pongs hs
  | probe i event =>
    dsimp only [step, DerperManager.probe]
    rcases modify_cases s.entries i with ⟨hi, -⟩ | ⟨pre, e, post, hi, hs, hmodify⟩
    · rw [hi]
      exact .idle
    · rw [hi, hmodify, hmodify]
      dsimp only
      split
      · exact .idle
      · rename_i haddr
        split
        · exact .signal pre post e hs
        · rename_i hphase
          exact .probe pre post e event hs haddr hphase
  | rank => exact .rank

section
variable {s : DerperManager}

theorem entries_trySignal (s : DerperManager) : s.trySignal.entries = s.entries := by
  unfold trySignal
  split <;> rfl

theorem entries_rankStep (s : DerperManager) : s.rankStep.entries = s.entries := by
  unfold DerperManager.rankStep
  repeat' split
  all_goals rfl

theorem mem_of_replaced {pre post : List DerperEntry} {e e' a : DerperEntry}
    (h : a ∈ pre ++ e :: post) : a = e ∨ a ∈ pre ++ e' :: post := by
  rcases List.mem_append.mp h with h | h
  · exact Or.inr (List.mem_append_left _ h)
  · rcases List.mem_cons.mp h with rfl | h
    · exact Or.inl rfl
    · exact Or.inr (by simp [h])

theorem UpToDate.replace {pre post : List DerperEntry} {e e' : DerperEntry} (h : s.UpToDate)
    (hs : s.entries = pre ++ e :: post) (hview : e'.view = e.view)
    (hphase : e.phase = .signal → e'.phase = .signal) :
    { s with entries := pre ++ e' :: post }.UpToDate := by
  rcases h with (hsignals | ⟨a, ha, hsignal⟩) | hagrees
  · exact Or.inl (Or.inl hsignals)
  · left
    right
    rw [hs] at ha
    rcases mem_of_replaced ha with rfl | ha
    · exact ⟨e', by simp, hphase hsignal⟩
    · exact ⟨a, ha, hsignal⟩
  · right
    have hviews : (pre ++ e' :: post).map view = s.entries.map view := by
      rw [hs, List.map_append, List.map_cons, List.map_append, List.map_cons, hview]
    change Agrees ((pre ++ e' :: post).map view) s.current s.rank
    rw [hviews]
    exact hagrees

/-- A step of `rank_loop` that takes no signal. -/
theorem UpToDate.move (h : s.UpToDate) {before after : RankPhase} (hrank : s.rank = before)
    {current : Option ResolvedDerper}
    (hagrees : Agrees (s.entries.map view) s.current before →
      Agrees (s.entries.map view) current after) :
    { s with current, rank := after }.UpToDate := h.imp id fun h => hagrees (hrank ▸ h)

section
variable {views : List View} {i : Nat}
  {found : List (Duration × ResolvedDerper)}

/-- One more server has been read, whether it has a time or not. -/
theorem agrees_reading_succ (current : Option ResolvedDerper)
    {read : Option (Duration × ResolvedDerper)} (h : found = (views.take i).filterMap rated)
    (hread : views[i]?.bind rated = read) :
    Agrees views current (.reading (i + 1) (found ++ read.toList)) := by
  rw [Agrees, List.take_add_one, List.filterMap_append, ← h, ← hread]
  cases views[i]? with
  | none => rfl
  | some view => cases hrated : rated view <;> simp [hrated]

/-- All servers have been read. -/
theorem filterMap_take_of_length_le (h : views.length ≤ i) :
    (views.take i).filterMap rated = views.filterMap rated := by
  rw [List.take_of_length_le h]

end

theorem findSome?_view (entries : List DerperEntry) :
    (entries.map view).findSome? (·.2) = entries.findSome? (·.resolved) := by
  rw [List.findSome?_map]
  rfl

/-- The second load of a server whose time has been loaded. -/
theorem bind_rated_of_loaded {entries : List DerperEntry} {i : Nat} {rtt : Duration}
    {resolved : Option ResolvedDerper} (h : (entries.map view)[i]? = some (some rtt, resolved)) :
    (entries.map view)[i]?.bind rated =
      (entries[i]?.bind (·.resolved)).map fun resolved => (rtt, resolved) := by
  rw [List.getElem?_map, Option.map_eq_some_iff] at h
  obtain ⟨entry, hentry, hview⟩ := h
  obtain ⟨hrtt, rfl⟩ := Prod.mk.inj hview
  simp [hentry, view, hrtt, rated]

theorem UpToDate.rankStep (h : s.UpToDate) : s.rankStep.UpToDate := by
  unfold DerperManager.rankStep
  cases hrank : s.rank with
  | starting =>
    refine h.move hrank fun hagrees => ?_
    rw [Agrees, ranking_of_unrated hagrees, findSome?_view]
  | waiting =>
    dsimp only
    split
    · exact h
    · exact Or.inr trivial
  | draining =>
    dsimp only
    split
    · exact Or.inr rfl
    · exact Or.inr trivial
  | reading i found =>
    dsimp only
    cases hi : s.entries[i]? with
    | some entry =>
      dsimp only
      cases hrtt : entry.rtt with
      | some rtt =>
        exact h.move hrank fun hfound => ⟨hfound, entry.resolved, by simp [hi, view, hrtt]⟩
      | none =>
        refine h.move hrank fun hfound => ?_
        have hread : (s.entries.map view)[i]?.bind rated = none := by simp [hi, view, hrtt, rated]
        simpa using agrees_reading_succ s.current hfound hread
    | none =>
      have hend : (s.entries.map view).length ≤ i := by simpa using hi
      dsimp only
      split
      · rename_i rtt resolved hbest
        refine h.move hrank fun hfound => ?_
        rw [hfound, filterMap_take_of_length_le hend] at hbest
        rw [Agrees, ranking, hbest]
        rfl
      · rename_i hbest
        refine h.move hrank fun hfound => ?_
        rw [hfound, filterMap_take_of_length_le hend] at hbest
        exact firstMin_eq_none.mp hbest
  | loaded i rtt found =>
    dsimp only
    split
    · rename_i resolved hresolved
      refine h.move hrank fun ⟨hfound, _, hi⟩ => ?_
      have hread := bind_rated_of_loaded hi
      rw [hresolved] at hread
      exact agrees_reading_succ s.current hfound hread
    · rename_i hresolved
      refine h.move hrank fun ⟨hfound, _, hi⟩ => ?_
      have hread := bind_rated_of_loaded hi
      rw [hresolved] at hread
      simpa using agrees_reading_succ s.current hfound hread
  | fallback =>
    refine h.move hrank fun hagrees => ?_
    rw [Agrees, ranking_of_unrated hagrees, findSome?_view]
  | writing best => exact h.move hrank id

theorem UpToDate.step (h : s.UpToDate) (event : Event) : (s.step event).UpToDate := by
  have heffect := step_effect s event
  generalize s.step event = t at heffect
  cases heffect with
  | idle => exact h
  | pong pre post e compared pongs hs => exact h.replace hs rfl id
  | signal => exact Or.inl (pending_trySignal _)
  | rank => exact h.rankStep
  | probe pre post e event hs haddr hphase =>
    rcases view_probeStep hphase event with hsignal | hview
    · exact Or.inl (Or.inr ⟨e.probeStep event, by simp, hsignal⟩)
    · exact h.replace hs hview fun he => absurd he hphase

theorem counted_step (h : ∀ e ∈ s.entries, e.Counted) (event : Event) :
    ∀ e ∈ (s.step event).entries, e.Counted := by
  -- the one server that changed, and the rest
  have hreplace : ∀ {pre post : List DerperEntry} {e e' : DerperEntry},
      s.entries = pre ++ e :: post → (e.Counted → e'.Counted) →
        ∀ a ∈ pre ++ e' :: post, a.Counted := by
    intro pre post e e' hs hkept a ha
    rw [hs] at h
    rcases mem_of_replaced ha with rfl | ha
    · exact hkept (h e (by simp))
    · exact h a ha
  have heffect := step_effect s event
  generalize s.step event = t at heffect
  cases heffect with
  | idle => exact h
  | pong pre post e compared pongs hs =>
    exact hreplace hs fun he => ⟨he.misses, he.rttMs, he.unresolved⟩
  | probe pre post e event hs haddr hphase =>
    exact hreplace hs fun he => he.probeStep haddr hphase event
  | signal pre post e hs =>
    rw [entries_trySignal]
    exact hreplace hs fun he => ⟨he.misses, he.rttMs, he.unresolved⟩
  | rank =>
    rw [entries_rankStep]
    exact h

end

/-! ### The choice -/

theorem rated_view_eq_none {e : DerperEntry} (h : e.Counted) :
    rated e.view = none ↔ e.rtt = none := by
  cases hrtt : e.rtt with
  | none => simp [rated, view, hrtt]
  | some rtt =>
    obtain ⟨best, hbest⟩ := h.exists_resolved hrtt
    simp [rated, view, hrtt, hbest]

theorem rated_view_eq_some {e : DerperEntry} {rtt : Duration} {best : ResolvedDerper} :
    rated e.view = some (rtt, best) ↔ e.rtt = some rtt ∧ e.resolved = some best := by
  simp [rated, view, Option.bind_eq_some_iff, Option.map_eq_some_iff]

/-- The choice, read off the servers. -/
theorem ranking_cases {entries : List DerperEntry} (h : ∀ e ∈ entries, e.Counted) :
    (∃ pre e post rtt best, entries = pre ++ e :: post ∧ e.rtt = some rtt ∧
        (∀ a ∈ pre, ∀ other, a.rtt = some other → rtt < other) ∧
        (∀ a ∈ post, ∀ other, a.rtt = some other → rtt ≤ other) ∧
        e.resolved = some best ∧ ranking (entries.map view) = some best) ∨
      ((∀ e ∈ entries, e.rtt = none) ∧
        ranking (entries.map view) = entries.findSome? (·.resolved)) := by
  -- a server with a time is among those that are compared
  have hmem : ∀ {l : List DerperEntry} {a : DerperEntry} {other : Duration}, a ∈ l → a ∈ entries →
      a.rtt = some other → ∃ b ∈ l.filterMap (rated ∘ view), b.1 = other := by
    intro l a other hl ha hother
    obtain ⟨best, hbest⟩ := (h a ha).exists_resolved hother
    exact ⟨(other, best), List.mem_filterMap.mpr ⟨a, hl, rated_view_eq_some.mpr ⟨hother, hbest⟩⟩, rfl⟩
  rw [← findSome?_view, ranking, List.filterMap_map]
  cases hfirst : firstMin (·.1) (entries.filterMap (rated ∘ view)) with
  | none =>
    right
    rw [firstMin_eq_none, List.filterMap_eq_nil_iff] at hfirst
    exact ⟨fun e he => (rated_view_eq_none (h e he)).mp (hfirst e he), rfl⟩
  | some first =>
    left
    obtain ⟨rtt, best⟩ := first
    obtain ⟨before, after, hsplit, hbefore, hafter⟩ := firstMin_split hfirst
    obtain ⟨pre, rest, rfl, rfl, hrest⟩ := List.filterMap_eq_append_iff.mp hsplit
    obtain ⟨skipped, e, post, rfl, hskipped, he, rfl⟩ := List.filterMap_eq_cons_iff.mp hrest
    obtain ⟨hrtt, hresolved⟩ := rated_view_eq_some.mp he
    refine ⟨pre ++ skipped, e, post, rtt, best, by simp, hrtt, ?_, ?_, hresolved, rfl⟩
    · intro a ha other hother
      rcases List.mem_append.mp ha with ha | ha
      · obtain ⟨b, hb, rfl⟩ := hmem ha (by simp [ha]) hother
        exact hbefore b hb
      · have hnone := (rated_view_eq_none (h a (by simp [ha]))).mp (hskipped a ha)
        rw [hnone] at hother
        cases hother
    · intro a ha other hother
      obtain ⟨b, hb, rfl⟩ := hmem ha (by simp [ha]) hother
      exact hafter b hb

/-- The ranking is never stale, for any servers and any run of their probe loops, the pongs that
come in and `rank_loop`. A server has a round-trip time exactly if it has answered and has
missed fewer than three rounds since. And where no signal is in the channel, `rank_loop` waits for
one and no probe loop is about to send one, the choice is the first of the servers with the
smallest time, or the first resolved server if none has a time. -/
theorem ranking_never_stale (servers : List (DerperInfo × Option SocketAddr)) (es : List Event) :
    let s := Runs.run step (new servers) es
    (∀ e ∈ s.entries,
      e.rtt.isSome ↔ (∃ ms, some ms ∈ e.rounds) ∧ missesInRow e.rounds < 3) ∧
    (s.signals = 0 → s.rank = .waiting → (∀ e ∈ s.entries, e.phase ≠ .signal) →
      (∃ pre e post rtt best, s.entries = pre ++ e :: post ∧ e.rtt = some rtt ∧
        (∀ a ∈ pre, ∀ other, a.rtt = some other → rtt < other) ∧
        (∀ a ∈ post, ∀ other, a.rtt = some other → rtt ≤ other) ∧
        e.resolved = some best ∧ s.current = some best) ∨
      ((∀ e ∈ s.entries, e.rtt = none) ∧ s.current = s.entries.findSome? (·.resolved))) := by
  intro s
  have hcounted : ∀ e ∈ s.entries, e.Counted :=
    Runs.invariant_of_step (P := fun _ (s : DerperManager) => ∀ e ∈ s.entries, e.Counted)
      (counted_new_entries servers) (fun _ _ event h => counted_step h event) es
  have hupToDate : s.UpToDate :=
    Runs.invariant_of_step (P := fun _ (s : DerperManager) => s.UpToDate) (upToDate_new servers)
      (fun _ _ event h => h.step event) es
  refine ⟨fun e he => (hcounted e he).rtt_isSome, ?_⟩
  intro hsignals hrank hphase
  have hcurrent : s.current = ranking (s.entries.map view) := by
    rcases hupToDate with (hpending | ⟨e, he, hsignal⟩) | hagrees
    · exact absurd hsignals (Nat.ne_of_gt hpending)
    · exact absurd hsignal (hphase e he)
    · rw [hrank] at hagrees
      exact hagrees
  rw [hcurrent]
  exact ranking_cases hcounted

-- The second server is slower than the first one, the third one is as fast.
example :
    let addr (octet : UInt8) : SocketAddr := .v4 (.ofOctets 10 0 0 octet) 3478
    let server (octet : UInt8) : DerperInfo × Option SocketAddr :=
      (⟨"derp.example.com:3478", "tok"⟩, some (addr octet))
    let round (i : Nat) (octet : UInt8) (ms : Elapsed) : List Event :=
      [.probe i (.clock 7), .probe i .next, .probe i (.sent true), .dispatchPong (addr octet) 7,
        .queuePong i 0, .probe i (.recv ms), .probe i .next] ++ List.replicate 10 .rank
    (Runs.run step (new [server 1, server 2, server 3])
      (.rank :: (round 1 2 ⟨9, by decide⟩ ++ round 0 1 ⟨5, by decide⟩ ++
        round 2 3 ⟨5, by decide⟩))).current =
      some ⟨"derp.example.com:3478", "tok", addr 1, some 5⟩ := by
  decide +kernel

end DerperManager

end Noeio
