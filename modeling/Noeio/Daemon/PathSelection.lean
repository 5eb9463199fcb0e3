import Mathlib.Data.List.Nodup
import Mathlib.Order.Nat
import Noeio.Daemon.Peer
import Noeio.Lib.FirstMin

/-!
# The choice of a path

`Peer::select_session` chooses among the connected sessions. The challenger is the one with the
lowest round-trip time, the incumbent is the last choice if it is still connected, and the
incumbent gives way only to a challenger that is at least `rttSwitchImprovementPercent` faster
(`improved`).

`Settled` says of a choice that no challenger would displace it. `selected_cases` is what a
call can do: there is nothing to choose, or the choice is settled afterwards, and a settled
incumbent is kept. Near-optimality and stability are read off from this.
-/

namespace Noeio

open FirstMin

namespace Peer

/-- A session as the selection sees it. -/
abbrev Path := SocketAddr × Option Duration

/-- The connected sessions. -/
def connected (self : Peer) : List Path :=
  (self.sessions.filter (·.state = .connected)).map fun s => (s.addr, s.rtt)

/-- The last choice, if it is still connected. -/
def incumbent (self : Peer) : Option Path :=
  self.selected.bind fun addr => self.connected.find? (·.1 = addr)

/-- The challenger is better by enough. -/
def improved (cur best : Option Duration) : Bool :=
  match cur, best with
  | some cur, some best =>
    decide (best.asMillis * 100 < cur.asMillis * (100 - rttSwitchImprovementPercent))
  | none, some _ => true
  | _, none => false

theorem minByRtt_eq_firstMin (paths : List Path) :
    minByRtt paths = firstMin (fun s => s.2.getD Duration.max) paths := by
  cases paths <;> rfl

theorem selected_selectSession (p : Peer) :
    p.selectSession.selected =
      match p.incumbent, minByRtt p.connected with
      | _, none => none
      | none, some best => some best.1
      | some cur, some best =>
        if best.1 ≠ cur.1 ∧ improved cur.2 best.2 then some best.1 else some cur.1 := by
  unfold selectSession
  change (match p.incumbent, minByRtt p.connected with
    | _, none => none
    | none, some (addr, _) => some addr
    | some (curAddr, curRtt), some (bestAddr, bestRtt) =>
      if bestAddr ≠ curAddr ∧ improved curRtt bestRtt then some bestAddr else some curAddr) = _
  cases minByRtt p.connected with
  | none => rfl
  | some best => cases p.incumbent <;> rfl

theorem improved_eq_false {cur other : Option Duration} :
    improved cur other = false ↔
      ∀ m, other = some m → ∃ r, cur = some r ∧ 80 * r.asMillis ≤ 100 * m.asMillis := by
  cases other with
  | none => simp [improved]
  | some m =>
    cases cur with
    | none => simp [improved]
    | some r =>
      have hle : improved (some r) (some m) = false ↔ 80 * r.asMillis ≤ 100 * m.asMillis := by
        rw [improved, decide_eq_false_iff_not, rttSwitchImprovementPercent]
        omega
      simp [hle]

/-- No connected session displaces the path. -/
def Settled (p : Peer) (path : Path) : Prop :=
  ∀ other ∈ p.connected, improved path.2 other.2 = false

theorem mem_connected {p : Peer} {path : Path} :
    path ∈ p.connected ↔
      ∃ s ∈ p.sessions, s.state = .connected ∧ (s.addr, s.rtt) = path := by
  simp [connected, and_assoc]

section Spec

variable {p : Peer} (hnodup : (p.sessions.map (·.addr)).Nodup)
  (hrtt : ∀ s ∈ p.sessions, ∀ d ∈ s.rtt, d < Duration.max)

include hnodup in
/-- A path is determined by its address. -/
theorem eq_of_mem_connected {a b : Path} (ha : a ∈ p.connected) (hb : b ∈ p.connected)
    (h : a.1 = b.1) : a = b := by
  obtain ⟨s, hs, -, rfl⟩ := mem_connected.mp ha
  obtain ⟨t, ht, -, rfl⟩ := mem_connected.mp hb
  rw [List.inj_on_of_nodup_map hnodup hs ht h]

theorem mem_of_incumbent {path : Path} (h : p.incumbent = some path) : path ∈ p.connected := by
  obtain ⟨addr, -, hfind⟩ := Option.bind_eq_some_iff.mp h
  exact List.mem_of_find?_eq_some hfind

include hnodup in
theorem incumbent_eq {path : Path} (hpath : path ∈ p.connected)
    (hselected : p.selected = some path.1) : p.incumbent = some path := by
  rw [incumbent, hselected, Option.bind_some]
  cases hfind : p.connected.find? (·.1 = path.1) with
  | none =>
    have hnot := List.find?_eq_none.mp hfind path hpath
    simp at hnot
  | some other =>
    have haddr : other.1 = path.1 := by simpa using List.find?_some hfind
    rw [eq_of_mem_connected hnodup (List.mem_of_find?_eq_some hfind) hpath haddr]

theorem rtt_lt_max {path : Path} (hrtt : ∀ s ∈ p.sessions, ∀ d ∈ s.rtt, d < Duration.max)
    (h : path ∈ p.connected) {d : Duration} (hd : path.2 = some d) : d < Duration.max := by
  obtain ⟨s, hs, -, rfl⟩ := mem_connected.mp h
  exact hrtt s hs d hd

include hrtt in
/-- What the challenger does not displace, no session does. -/
theorem settled_iff {best path : Path} (hbest : minByRtt p.connected = some best) :
    p.Settled path ↔ improved path.2 best.2 = false := by
  rw [minByRtt_eq_firstMin] at hbest
  have hmin := firstMin_le hbest
  constructor
  · exact fun h => h best (mem_of_firstMin hbest)
  · intro h other hother
    rw [improved_eq_false] at h ⊢
    intro m hm
    have hle : best.2.getD Duration.max ≤ m := by simpa [hm] using hmin other hother
    cases hrtt' : best.2 with
    | none =>
      have hlt : m < Duration.max := rtt_lt_max hrtt hother hm
      rw [hrtt', Option.getD_none] at hle
      exact absurd hlt (Nat.not_lt.mpr hle)
    | some b =>
      obtain ⟨r, hr, hbound⟩ := h b hrtt'
      rw [hrtt', Option.getD_some] at hle
      have hmillis : b.asMillis ≤ m.asMillis := Nat.div_le_div_right hle
      exact ⟨r, hr, by omega⟩

include hnodup hrtt in
/-- What a call can do. -/
theorem selected_cases :
    (p.connected = [] ∧ p.selectSession.selected = none) ∨
      ∃ path ∈ p.connected, p.selectSession.selected = some path.1 ∧ p.Settled path ∧
        ∀ cur, p.incumbent = some cur → p.Settled cur → path = cur := by
  rw [selected_selectSession]
  cases hbest : minByRtt p.connected with
  | none =>
    left
    rw [minByRtt_eq_firstMin] at hbest
    exact ⟨firstMin_eq_none.mp hbest, by cases p.incumbent <;> rfl⟩
  | some best =>
    right
    have hmem : best ∈ p.connected := by
      rw [minByRtt_eq_firstMin] at hbest
      exact mem_of_firstMin hbest
    have hself : p.Settled best := by
      rw [settled_iff hrtt hbest, improved_eq_false]
      intro m hm
      exact ⟨m, hm, by omega⟩
    cases hcur : p.incumbent with
    | none => exact ⟨best, hmem, rfl, hself, fun cur h => nomatch h⟩
    | some cur =>
      have hcurmem := mem_of_incumbent hcur
      by_cases himproved : improved cur.2 best.2 = true
      · have hunsettled : ¬ p.Settled cur := by
          rw [settled_iff hrtt hbest, himproved]
          simp
        have hne : best.1 ≠ cur.1 := by
          intro h
          exact hunsettled (eq_of_mem_connected hnodup hmem hcurmem h ▸ hself)
        refine ⟨best, hmem, if_pos ⟨hne, himproved⟩, hself, ?_⟩
        rintro _ ⟨⟩ hsettled
        exact absurd hsettled hunsettled
      · have hsettled : p.Settled cur := by
          rw [settled_iff hrtt hbest]
          exact Bool.eq_false_iff.mpr himproved
        refine ⟨cur, hcurmem, if_neg fun h => himproved h.2, hsettled, ?_⟩
        rintro _ ⟨⟩ -
        rfl

include hnodup hrtt in
/-- A settled choice of a connected session is kept. -/
theorem selected_eq_of_settled {path : Path} (hpath : path ∈ p.connected)
    (hselected : p.selected = some path.1) (hsettled : p.Settled path) :
    p.selectSession.selected = some path.1 := by
  rcases selected_cases hnodup hrtt with ⟨hempty, -⟩ | ⟨next, -, hnext, -, hkept⟩
  · rw [hempty] at hpath
    cases hpath
  · rw [hnext, hkept path (incumbent_eq hnodup hpath hselected) hsettled]

include hnodup hrtt in
theorem selectSession_selectSession : p.selectSession.selectSession = p.selectSession := by
  have hagain : p.selectSession.selectSession =
      { p.selectSession with selected := p.selectSession.selectSession.selected } := rfl
  rw [hagain]
  -- the sessions are the same, so a settled choice is settled in the second call too
  have hkeep : p.selectSession.selectSession.selected = p.selectSession.selected := by
    rcases selected_cases hnodup hrtt with ⟨hempty, hnone⟩ | ⟨path, hpath, hsome, hsettled, -⟩
    · rw [hnone, selected_selectSession]
      have hmin : minByRtt p.selectSession.connected = none := by
        rw [minByRtt_eq_firstMin]
        exact firstMin_eq_none.mpr hempty
      rw [hmin]
    · rw [hsome]
      exact selected_eq_of_settled (p := p.selectSession) hnodup hrtt hpath hsome hsettled
  rw [hkeep]

end Spec

/-- The choice of a path, for any sessions to distinct addresses, any measured times and any last
choice. Nothing is chosen exactly if no session is connected. What is chosen is a connected
session; it is unmeasured only if all of them are, and if it is measured, 80 percent of its
time, in milliseconds, is at most the time of every measured one. A connected incumbent that
meets this bound is kept, and a second call changes nothing. -/
theorem select_session_near_optimal (p : Peer) (hnodup : (p.sessions.map (·.addr)).Nodup)
    (hrtt : ∀ s ∈ p.sessions, ∀ d ∈ s.rtt, d < Duration.max) :
    (p.selectSession.selected = none ↔ ∀ s ∈ p.sessions, s.state ≠ .connected) ∧
    (∀ addr, p.selectSession.selected = some addr →
      ∃ s ∈ p.sessions, s.addr = addr ∧ s.state = .connected ∧
        (s.rtt = none → ∀ t ∈ p.sessions, t.state = .connected → t.rtt = none) ∧
        ∀ r, s.rtt = some r → ∀ t ∈ p.sessions, t.state = .connected → ∀ m, t.rtt = some m →
          80 * r.asMillis ≤ 100 * m.asMillis) ∧
    (∀ s ∈ p.sessions, s.state = .connected → p.selected = some s.addr → ∀ r, s.rtt = some r →
      (∀ t ∈ p.sessions, t.state = .connected → ∀ m, t.rtt = some m →
        80 * r.asMillis ≤ 100 * m.asMillis) → p.selectSession.selected = some s.addr) ∧
    p.selectSession.selectSession = p.selectSession := by
  have hcases := selected_cases hnodup hrtt
  refine ⟨?_, ?_, ?_, selectSession_selectSession hnodup hrtt⟩
  · have hempty : (∀ s ∈ p.sessions, s.state ≠ .connected) ↔ p.connected = [] := by
      simp [connected]
    rw [hempty]
    rcases hcases with ⟨hnil, hnone⟩ | ⟨path, hpath, hsome, -⟩
    · exact ⟨fun _ => hnil, fun _ => hnone⟩
    · have hne : p.connected ≠ [] := List.ne_nil_of_mem hpath
      simp [hsome, hne]
  · intro addr haddr
    rcases hcases with ⟨-, hnone⟩ | ⟨path, hpath, hsome, hsettled, -⟩
    · rw [hnone] at haddr
      cases haddr
    · obtain ⟨s, hs, hstate, rfl⟩ := mem_connected.mp hpath
      rw [hsome, Option.some.injEq] at haddr
      have hother : ∀ t ∈ p.sessions, t.state = .connected → ∀ m, t.rtt = some m →
          ∃ r, s.rtt = some r ∧ 80 * r.asMillis ≤ 100 * m.asMillis := by
        intro t ht hconnected
        exact improved_eq_false.mp (hsettled _ (mem_connected.mpr ⟨t, ht, hconnected, rfl⟩))
      refine ⟨s, hs, haddr, hstate, ?_, ?_⟩
      · intro hnone t ht hconnected
        by_contra hmeasured
        obtain ⟨m, hm⟩ := Option.ne_none_iff_exists'.mp hmeasured
        obtain ⟨r, hr, -⟩ := hother t ht hconnected m hm
        rw [hnone] at hr
        cases hr
      · intro r hr t ht hconnected m hm
        obtain ⟨r', hr', hbound⟩ := hother t ht hconnected m hm
        obtain rfl : r = r' := Option.some.inj (hr.symm.trans hr')
        exact hbound
  · intro s hs hstate hselected r hr hbound
    have hpath : (s.addr, s.rtt) ∈ p.connected := mem_connected.mpr ⟨s, hs, hstate, rfl⟩
    refine selected_eq_of_settled hnodup hrtt hpath hselected ?_
    intro other hother
    obtain ⟨t, ht, hconnected, rfl⟩ := mem_connected.mp hother
    rw [improved_eq_false]
    exact fun m hm => ⟨r, hr, hbound t ht hconnected m hm⟩

namespace Sample

def path (octet : UInt8) (millis : Nat) (serial : Nat) : PeerSession where
  addr := .v4 (.ofOctets 10 0 0 octet) 4242
  localPeerId := 1
  state := .connected
  rtt := some (millis * 10 ^ 6)
  serial

/-- The chosen path takes 10 ms, the other one 8 ms. -/
def twoPaths : Peer where
  info := ⟨1, 2, .v4 (.ofOctets 10 1 0 2), .replicate 16 0, .other, none, [], [], false⟩
  localPeerId := 1
  sessions := [path 1 10 1, path 2 8 2]
  selected := some (path 1 10 1).addr
  codec := ⟨⟨1, 2, .replicate 16 0⟩, 0⟩
  created := 3

/-- An improvement of exactly 20 percent is not enough. -/
theorem twoPaths_kept : twoPaths.selectSession.selected = some (path 1 10 1).addr := by
  have hnodup : (twoPaths.sessions.map (·.addr)).Nodup := by decide
  have hrtt : ∀ s ∈ twoPaths.sessions, ∀ d ∈ s.rtt, d < Duration.max := by
    simp [twoPaths, path, Duration.max]
  refine (select_session_near_optimal twoPaths hnodup hrtt).2.2.1 (path 1 10 1) (by simp [twoPaths])
    rfl rfl (10 * 10 ^ 6) rfl ?_
  simp [twoPaths, path, Duration.asMillis]

end Sample

end Peer

end Noeio
