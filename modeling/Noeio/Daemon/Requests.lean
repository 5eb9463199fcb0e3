import Noeio.Daemon.RouteService

/-!
# Racing route requests

`advertise_route` and `withdraw_route` read the list, compute and write. A request that writes
after another one has written in between puts the list back to what it had read, and the other
request is lost although it returned success.

A write does no harm when the list has kept every block that its request does not name
(`Undisturbed`): the request then does what it would have done in one piece at that moment. In
every run of such writes the requests can be put in an order, the order of their writes, in
which they give the same list one after another (`requests_serialize`).
-/

namespace Noeio

/-! ## One after another -/

namespace RouteRequest

/-- The request is answered with success. -/
def accepted (env : RouteEnv) (guarded : Protected) : RouteRequest → Bool
  | .advertiseRoute cidrs => (env.acceptedBy guarded cidrs).isOk
  | .withdrawRoute cidrs => (env.removedBy cidrs).isOk

/-- The list that an accepted request makes of `set`. -/
def apply (env : RouteEnv) (guarded : Protected) (set : List Ipv4Cidr) :
    RouteRequest → List Ipv4Cidr
  | .advertiseRoute cidrs =>
    match env.acceptedBy guarded cidrs with
    | .ok accepted => merge accepted set
    | .error _ => set
  | .withdrawRoute cidrs =>
    match env.removedBy cidrs with
    | .ok remove => without remove set
    | .error _ => set

/-- As sets, the list after a request depends on the list before it alone. -/
theorem mem_apply_congr {env : RouteEnv} {guarded : Protected} {set set' : List Ipv4Cidr}
    (h : ∀ c, c ∈ set ↔ c ∈ set') (r : RouteRequest) (c : Ipv4Cidr) :
    c ∈ r.apply env guarded set ↔ c ∈ r.apply env guarded set' := by
  cases r with
  | advertiseRoute cidrs =>
    cases hok : env.acceptedBy guarded cidrs with
    | error status => simp only [apply, hok, h]
    | ok accepted => simp only [apply, hok, mem_merge, h]
  | withdrawRoute cidrs =>
    cases hok : env.removedBy cidrs with
    | error status => simp only [apply, hok, h]
    | ok remove => simp only [apply, hok, mem_without, h]

end RouteRequest

namespace Daemon

/-- The requests one after another. -/
def serveAll (self : Daemon) (env : RouteEnv) (now : UInt64) (order : List RouteRequest) : Daemon :=
  order.foldl (fun d r => (d.serve env now r).1) self

variable {env : RouteEnv} {d : Daemon} {now : UInt64}

theorem toNoeioDaemon_serve (d : Daemon) (r : RouteRequest) :
    (d.serve env now r).1.toNoeioDaemon =
      { d.toNoeioDaemon with advertised := r.apply env d.guarded d.advertised } := by
  cases r with
  | advertiseRoute cidrs =>
    cases h : env.acceptedBy d.guarded cidrs with
    | error status => simp [serve, RouteRequest.apply, h]
    | ok accepted => simp [serve, RouteRequest.apply, h]
  | withdrawRoute cidrs =>
    cases h : env.removedBy cidrs with
    | error status => simp [serve, RouteRequest.apply, h]
    | ok remove => simp [serve, RouteRequest.apply, h]

theorem guarded_serveAll (order : List RouteRequest) :
    (d.serveAll env now order).guarded = d.guarded := by
  induction order using List.reverseRecOn with
  | nil => rfl
  | append_singleton order r ih =>
    rw [serveAll, List.foldl_concat]
    exact (congrArg NoeioDaemon.guarded (toNoeioDaemon_serve _ r)).trans ih

theorem advertised_serveAll_concat (order : List RouteRequest) (r : RouteRequest) :
    (d.serveAll env now (order ++ [r])).advertised =
      r.apply env d.guarded (d.serveAll env now order).advertised := by
  rw [serveAll, List.foldl_concat, toNoeioDaemon_serve, ← serveAll, guarded_serveAll]

end Daemon

/-! ## All at once -/

/-- The daemon with the route requests that it serves. -/
abbrev Racing := Tasks.State RouteRequest Call Daemon

namespace Racing

abbrev Event := Tasks.Event RouteRequest Call UInt64

def step (env : RouteEnv) : Racing → Event → Racing :=
  Tasks.step RouteRequest.entry (Daemon.atomic env)

/-- A request writes only while every block that it does not name is as it was when the request
read the list. -/
def Undisturbed (s : Racing) : Event → Prop
  | .resume (_, .advertiseWrite accepted set) _ =>
    ∀ c ∉ accepted, c ∈ set ↔ c ∈ s.shared.advertised
  | .resume (_, .withdrawWrite remove set) _ =>
    ∀ c ∉ remove, c ∈ set ↔ c ∈ s.shared.advertised
  | _ => True

/-- The points of a call for the request before it has written. -/
inductive Unwritten (env : RouteEnv) (guarded : Protected) : RouteRequest → Call → Prop
  | advertiseRoute {cidrs} :
    Unwritten env guarded (.advertiseRoute cidrs) (.advertiseRoute cidrs)
  | advertiseRead {cidrs accepted} (h : env.acceptedBy guarded cidrs = .ok accepted) :
    Unwritten env guarded (.advertiseRoute cidrs) (.advertiseRead accepted)
  | advertiseWrite {cidrs accepted set} (h : env.acceptedBy guarded cidrs = .ok accepted) :
    Unwritten env guarded (.advertiseRoute cidrs) (.advertiseWrite accepted set)
  | withdrawRoute {cidrs} : Unwritten env guarded (.withdrawRoute cidrs) (.withdrawRoute cidrs)
  | withdrawWrite {cidrs remove set} (h : env.removedBy cidrs = .ok remove) :
    Unwritten env guarded (.withdrawRoute cidrs) (.withdrawWrite remove set)

def unwritten : Call → Bool
  | .publish _ => false
  | _ => true

/-- The accepted requests whose calls have not written yet. -/
def pending (env : RouteEnv) (guarded : Protected) (calls : List (RouteRequest × Call)) :
    List RouteRequest :=
  ((calls.filter fun call => unwritten call.2).map Prod.fst).filter (·.accepted env guarded)

variable {env : RouteEnv} {guarded : Protected} {calls calls' : List (RouteRequest × Call)}
  {r : RouteRequest} {k : Call}

theorem pending_perm (h : calls.Perm calls') :
    (pending env guarded calls).Perm (pending env guarded calls') :=
  ((h.filter _).map _).filter _

theorem pending_publish (routes : List Ipv4Cidr) :
    pending env guarded ((r, .publish routes) :: calls) = pending env guarded calls := rfl

theorem Unwritten.unwritten_eq (h : Unwritten env guarded r k) : unwritten k = true := by
  cases h <;> rfl

theorem pending_of_accepted (h : Unwritten env guarded r k) (hr : r.accepted env guarded = true) :
    pending env guarded ((r, k) :: calls) = r :: pending env guarded calls := by
  simp [pending, h.unwritten_eq, hr]

theorem pending_of_refused (h : Unwritten env guarded r k) (hr : r.accepted env guarded = false) :
    pending env guarded ((r, k) :: calls) = pending env guarded calls := by
  simp [pending, h.unwritten_eq, hr]

/-- An undisturbed write does what the whole request would do at that moment. -/
theorem Unwritten.writes {d : Daemon} (h : Unwritten env guarded r k) {routes : List Ipv4Cidr}
    (hw : k.writes = some routes) {calls : List (RouteRequest × Call)} {now : UInt64}
    (hdist : Undisturbed ⟨d, calls⟩ (.resume (r, k) now)) :
    r.accepted env guarded = true ∧
      ∀ c, c ∈ routes ↔ c ∈ r.apply env guarded d.advertised := by
  cases h with
  | @advertiseWrite _ accepted _ hok =>
    cases hw
    refine ⟨congrArg Except.isOk hok, fun c => ?_⟩
    simp only [RouteRequest.apply, hok, mem_merge]
    by_cases hc : c ∈ accepted
    · exact iff_of_true (Or.inr hc) (Or.inr hc)
    · exact or_congr_left (hdist c hc)
  | withdrawWrite hok =>
    cases hw
    refine ⟨congrArg Except.isOk hok, fun c => ?_⟩
    simp only [RouteRequest.apply, hok, mem_without]
    exact and_congr_left fun hc => hdist c hc
  | _ => cases hw

/-- One step of a call that has not written: the request is refused, or the call gets on
without a change, or it writes what the whole request would. -/
theorem Unwritten.stepped {d e : Daemon} {next : Option Call} {now : UInt64}
    (h : Unwritten env d.guarded r k) (hstep : Daemon.Stepped env d now k e next)
    {calls : List (RouteRequest × Call)} (hdist : Undisturbed ⟨d, calls⟩ (.resume (r, k) now)) :
    (r.accepted env d.guarded = false ∧ e = d ∧ next = none) ∨
      (e = d ∧ ∃ k', next = some k' ∧ Unwritten env d.guarded r k') ∨
      r.accepted env d.guarded = true ∧
        (∀ c, c ∈ e.advertised ↔ c ∈ r.apply env d.guarded d.advertised) ∧
        (next = none ∨ ∃ routes, next = some (.publish routes)) := by
  cases hstep with
  | advertiseRefused herr =>
    cases h
    exact Or.inl ⟨congrArg Except.isOk herr, rfl, rfl⟩
  | accepted hok =>
    cases h
    exact Or.inr (Or.inl ⟨rfl, _, rfl, .advertiseRead hok⟩)
  | advertiseRead =>
    cases h with
    | advertiseRead hok => exact Or.inr (Or.inl ⟨rfl, _, rfl, .advertiseWrite hok⟩)
  | withdrawRefused herr =>
    cases h
    exact Or.inl ⟨congrArg Except.isOk herr, rfl, rfl⟩
  | withdrawRead hok =>
    cases h
    exact Or.inr (Or.inl ⟨rfl, _, rfl, .withdrawWrite hok⟩)
  | same hw =>
    obtain ⟨hacc, happly⟩ := h.writes hw hdist
    exact Or.inr (Or.inr ⟨hacc, happly, Or.inl rfl⟩)
  | written hw hne =>
    obtain ⟨hacc, happly⟩ := h.writes hw hdist
    exact Or.inr (Or.inr ⟨hacc, happly, Or.inr ⟨_, rfl⟩⟩)
  | _ => cases h

/-! ## The order of the writes -/

/-- The list is what the requests that have written give in the order of their writes, and the
others are still in flight. -/
structure Serial (env : RouteEnv) (now : UInt64) (d : Daemon) (es : List Event) (s : Racing) :
    Prop where
  guarded : s.shared.guarded = d.guarded
  calls : ∀ call ∈ s.calls, Unwritten env d.guarded call.1 call.2 ∨
    ∃ routes, call.2 = .publish routes
  order : ∃ order : List RouteRequest,
    (order ++ pending env d.guarded s.calls).Perm
      ((Tasks.requests es).filter (·.accepted env d.guarded)) ∧
    ∀ c, c ∈ s.shared.advertised ↔ c ∈ (d.serveAll env now order).advertised

variable {now : UInt64} {d : Daemon} {es : List Event} {s : Racing}

theorem Serial.start (h : Serial env now d es s) (r : RouteRequest) :
    Serial env now d (es ++ [.start r]) { s with calls := (r, r.entry) :: s.calls } := by
  have hentry : Unwritten env d.guarded r r.entry := by
    cases r with
    | advertiseRoute cidrs => exact .advertiseRoute
    | withdrawRoute cidrs => exact .withdrawRoute
  refine ⟨h.guarded, ?_, ?_⟩
  · intro call hcall
    rcases List.mem_cons.mp hcall with rfl | hcall
    · exact Or.inl hentry
    · exact h.calls call hcall
  · obtain ⟨order, hperm, hadv⟩ := h.order
    refine ⟨order, ?_, hadv⟩
    rw [Tasks.requests_start, List.filter_append]
    cases hacc : r.accepted env d.guarded with
    | false =>
      rw [pending_of_refused hentry hacc]
      simpa [hacc] using hperm
    | true =>
      rw [pending_of_accepted hentry hacc]
      have hlast : [r].filter (·.accepted env d.guarded) = [r] := by simp [hacc]
      rw [hlast]
      exact List.perm_middle.trans ((hperm.cons r).trans (List.perm_append_singleton r _).symm)

/-- A step that leaves the list and the pending requests as they are keeps the order. -/
theorem Serial.keep (h : Serial env now d es s) {call : RouteRequest × Call} {input : UInt64}
    {t : Racing} (hadv : t.shared.advertised = s.shared.advertised)
    (hguarded : t.shared.guarded = s.shared.guarded)
    (hcalls : ∀ call ∈ t.calls, Unwritten env d.guarded call.1 call.2 ∨
      ∃ routes, call.2 = .publish routes)
    (hpending : (pending env d.guarded t.calls).Perm (pending env d.guarded s.calls)) :
    Serial env now d (es ++ [.resume call input]) t := by
  obtain ⟨order, hperm, hlist⟩ := h.order
  refine ⟨hguarded.trans h.guarded, hcalls, order, ?_, hadv ▸ hlist⟩
  rw [Tasks.requests_resume]
  exact (hpending.append_left order).trans hperm

theorem Serial.rest (h : Serial env now d es s) {call other : RouteRequest × Call}
    (hmem : other ∈ s.rest call) :
    Unwritten env d.guarded other.1 other.2 ∨ ∃ routes, other.2 = .publish routes :=
  h.calls other (Tasks.mem_of_mem_rest hmem)

theorem pending_rest (hcall : (r, k) ∈ s.calls) :
    (pending env guarded s.calls).Perm (pending env guarded ((r, k) :: s.rest (r, k))) :=
  pending_perm (Tasks.perm_rest hcall)

/-- A call that gets on without a change stays pending. -/
theorem Serial.proceed (h : Serial env now d es s) {input : UInt64} (hcall : (r, k) ∈ s.calls)
    (hun : Unwritten env d.guarded r k) {k' : Call} (hk' : Unwritten env d.guarded r k') :
    Serial env now d (es ++ [.resume (r, k) input]) (s.advance (r, k) (s.shared, some k')) := by
  have hsame : pending env d.guarded ((r, k') :: s.rest (r, k)) =
      pending env d.guarded ((r, k) :: s.rest (r, k)) := by
    cases hacc : r.accepted env d.guarded with
    | false => rw [pending_of_refused hun hacc, pending_of_refused hk' hacc]
    | true => rw [pending_of_accepted hun hacc, pending_of_accepted hk' hacc]
  refine h.keep rfl rfl ?_ (hsame ▸ (pending_rest hcall).symm)
  intro call hmem
  rcases List.mem_cons.mp hmem with rfl | hmem
  · exact Or.inl hk'
  · exact h.rest hmem

/-- A write puts its request at the end of the order. -/
theorem Serial.write (h : Serial env now d es s) {input : UInt64} (hcall : (r, k) ∈ s.calls)
    (hun : Unwritten env d.guarded r k) (hacc : r.accepted env d.guarded = true) {e : Daemon}
    (hguarded : e.guarded = d.guarded)
    (hadv : ∀ c, c ∈ e.advertised ↔ c ∈ r.apply env d.guarded s.shared.advertised)
    {next : Option Call} (hnext : next = none ∨ ∃ routes, next = some (.publish routes)) :
    Serial env now d (es ++ [.resume (r, k) input]) (s.advance (r, k) (e, next)) := by
  have hperm : (pending env d.guarded s.calls).Perm
      (pending env d.guarded ((r, k) :: s.rest (r, k))) := pending_rest hcall
  rw [pending_of_accepted hun hacc] at hperm
  have hafter : pending env d.guarded (s.advance (r, k) (e, next)).calls =
      pending env d.guarded (s.rest (r, k)) := by
    rcases hnext with rfl | ⟨routes, rfl⟩ <;> rfl
  obtain ⟨order, horder, hlist⟩ := h.order
  refine ⟨hguarded, ?_, order ++ [r], ?_, ?_⟩
  · intro call hmem
    rcases Tasks.mem_advance.mp hmem with ⟨-, hk⟩ | hmem
    · rcases hnext with rfl | ⟨routes, rfl⟩
      · cases hk
      · exact Or.inr ⟨routes, (Option.some.inj hk).symm⟩
    · exact h.rest hmem
  · rw [Tasks.requests_resume, hafter, List.append_assoc, List.singleton_append]
    exact (hperm.symm.append_left order).trans horder
  · intro c
    rw [Daemon.advertised_serveAll_concat]
    exact (hadv c).trans (RouteRequest.mem_apply_congr hlist r c)

theorem Serial.resume (h : Serial env now d es s) {input : UInt64} (hcall : (r, k) ∈ s.calls)
    (hdist : s.Undisturbed (.resume (r, k) input)) {e : Daemon} {next : Option Call}
    (hstep : Daemon.Stepped env s.shared input k e next) :
    Serial env now d (es ++ [.resume (r, k) input]) (s.advance (r, k) (e, next)) := by
  have hperm : (pending env d.guarded s.calls).Perm
      (pending env d.guarded ((r, k) :: s.rest (r, k))) := pending_rest hcall
  rcases h.calls _ hcall with hun | ⟨routes, hpub⟩
  · have hnow : Unwritten env s.shared.guarded r k := h.guarded ▸ hun
    rcases hnow.stepped hstep hdist with
      ⟨hacc, rfl, rfl⟩ | ⟨rfl, k', rfl, hk'⟩ | ⟨hacc, hadv, hnext⟩
    · rw [h.guarded] at hacc
      rw [pending_of_refused hun hacc] at hperm
      exact h.keep rfl rfl (fun _ hmem => h.rest hmem) hperm.symm
    · exact h.proceed hcall hun (h.guarded ▸ hk')
    · rw [h.guarded] at hacc hadv
      refine h.write hcall hun hacc ((hstep.guarded_eq ?_).trans h.guarded) hadv hnext
      rintro _ _ _ rfl
      cases hun
  · obtain rfl : k = .publish routes := hpub
    rw [pending_publish] at hperm
    cases hstep with
    | published => exact h.keep rfl rfl (fun _ hmem => h.rest hmem) hperm.symm
    | same hw | written hw => cases hw

/-- **No request is lost** in a run of undisturbed writes: once all calls have returned, the
list is as a set what the accepted requests give one after another in some order. -/
theorem requests_serialize (env : RouteEnv) (d : Daemon) (now : UInt64) {es : List Event}
    (hes : Runs.Meets (step env) (fun _ => Undisturbed) ⟨d, []⟩ es)
    (hdone : (Runs.run (step env) ⟨d, []⟩ es).calls = []) :
    ∃ order : List RouteRequest,
      order.Perm ((Tasks.requests es).filter (·.accepted env d.guarded)) ∧
      ∀ c, c ∈ (Runs.run (step env) ⟨d, []⟩ es).shared.advertised ↔
        c ∈ (d.serveAll env now order).advertised := by
  have hserial : Serial env now d es (Runs.run (step env) ⟨d, []⟩ es) := by
    refine Tasks.invariant (P := fun es s => Serial env now d es s) ?_ ?_ ?_ ?_ hes
    · exact ⟨rfl, by simp, [], .refl _, fun c => Iff.rfl⟩
    · intro _ _ r h _
      exact h.start r
    · intro _ _ _ input h hdist hcall
      exact h.resume hcall hdist (Daemon.stepped_atomic env _ _ input)
    · intro _ _ _ _ h
      exact h.keep rfl rfl h.calls (.refl _)
  obtain ⟨order, hperm, hlist⟩ := hserial.order
  rw [hdone] at hperm
  exact ⟨order, by simpa [pending] using hperm, hlist⟩

namespace Sample

open RouteEnv.Sample

def idle : Daemon := .new linux ⟨[], false⟩ []

def addLan : RouteRequest := .advertiseRoute ["192.168.5.0/24"]

def addOffice : RouteRequest := .advertiseRoute ["10.0.0.0/8"]

/-- The second request reads the list after the first has written it. -/
def inTurn : List Event :=
  [.start addLan, .start addOffice, .resume (addLan, addLan.entry) 1,
    .resume (addOffice, addOffice.entry) 2, .resume (addLan, .advertiseRead [lan]) 3,
    .resume (addLan, .advertiseWrite [lan] []) 4, .resume (addOffice, .advertiseRead [office]) 5,
    .resume (addLan, .publish [lan]) 6, .resume (addOffice, .advertiseWrite [office] [lan]) 7,
    .resume (addOffice, .publish [lan, office]) 8]

theorem requests_serialize_inTurn :
    (Runs.run (step linux) ⟨idle, []⟩ inTurn).shared.advertised = [lan, office] ∧
      ∃ order : List RouteRequest,
        order.Perm ((Tasks.requests inTurn).filter (·.accepted linux idle.guarded)) ∧
        ∀ c, c ∈ (Runs.run (step linux) ⟨idle, []⟩ inTurn).shared.advertised ↔
          c ∈ (idle.serveAll linux 0 order).advertised := by
  have hmeets : Runs.Meets (step linux) (fun _ => Undisturbed) ⟨idle, []⟩ inTurn :=
    ⟨trivial, trivial, trivial, trivial, trivial, fun _ _ => Iff.rfl, trivial, trivial,
      fun _ _ => Iff.rfl, trivial, trivial⟩
  exact ⟨by decide, requests_serialize linux idle 0 hmeets (by decide)⟩

/-- Both requests read the empty list, and the second write drops the block of the first. -/
def crossing : List Event :=
  [.start addLan, .start addOffice, .resume (addLan, addLan.entry) 1,
    .resume (addOffice, addOffice.entry) 2, .resume (addLan, .advertiseRead [lan]) 3,
    .resume (addOffice, .advertiseRead [office]) 4, .resume (addLan, .advertiseWrite [lan] []) 5,
    .resume (addLan, .publish [lan]) 6, .resume (addOffice, .advertiseWrite [office] []) 7,
    .resume (addOffice, .publish [office]) 8]

theorem loses_lan :
    (Runs.run (step linux) ⟨idle, []⟩ crossing).calls = [] ∧
      ¬ ∃ order : List RouteRequest,
        order.Perm ((Tasks.requests crossing).filter (·.accepted linux idle.guarded)) ∧
        ∀ c, c ∈ (Runs.run (step linux) ⟨idle, []⟩ crossing).shared.advertised ↔
          c ∈ (idle.serveAll linux 0 order).advertised := by
  refine ⟨by decide, ?_⟩
  rintro ⟨order, hperm, hlist⟩
  have hlost : lan ∉ (Runs.run (step linux) ⟨idle, []⟩ crossing).shared.advertised := by decide
  have hboth : (Tasks.requests crossing).filter (·.accepted linux idle.guarded) =
      [addLan, addOffice] := by decide
  rw [hboth] at hperm
  obtain ⟨a, b, rfl⟩ := List.length_eq_two.mp hperm.length_eq
  have ha : a ∈ [addLan, addOffice] := hperm.subset (by simp)
  have hb : b ∈ [addLan, addOffice] := hperm.subset (by simp)
  have hmem : addLan ∈ [a, b] := hperm.symm.subset (by simp)
  have hserved : ∀ a ∈ [addLan, addOffice], ∀ b ∈ [addLan, addOffice], addLan ∈ [a, b] →
      lan ∈ (idle.serveAll linux 0 [a, b]).advertised := by decide
  exact hlost ((hlist lan).mpr (hserved a ha b hb hmem))

end Sample

end Racing

end Noeio
