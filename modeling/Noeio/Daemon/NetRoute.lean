import Noeio.Common.HostInfo

/-!
# The kernel's routing table

`noeio-net-route/src/lib.rs`: adding and deleting one route. The table is the list that
`Handle::list` returns, with the routes of everybody on the host in it. The crate behind the handle
is not modelled: its answer to an operation is the parameter `fault`. An error leaves the table as
it was. Without one the route is in the table after an add, and out of it after a delete.

So nothing is assumed of which operations are refused, and with which error. `isRouteExists` tells
an add that finds its route there by the errno, or by the kind where there is no errno. On Linux
the crate gives neither: an add whose prefix and metric are in the table already, through whatever
interface, is answered with the kind `Other`, which is a failure here as for the program.

`del_route` looks for the route itself and hands the entry it found to the handle. So a
delete takes out the first route that matches, which is `eraseP` (`delRoute_eq`).
-/

namespace Noeio

/-! ## Errors -/

inductive ErrorKind where
  | notFound
  | alreadyExists
  | invalidInput
  | other
  deriving DecidableEq

/-- `std::io::Error`, as far as the route helpers look at it. -/
structure IoError where
  rawOsError : Option Int
  kind : ErrorKind
  deriving DecidableEq

def IoError.ofKind (kind : ErrorKind) : IoError := ⟨none, kind⟩

def isRouteMissing (err : IoError) : Bool :=
  match err.rawOsError with
  -- `ESRCH`, `ENOENT` and the code of Windows
  | some 3 | some 2 | some 1168 => true
  | none => err.kind = .notFound
  | _ => false

def isRouteExists (err : IoError) : Bool :=
  match err.rawOsError with
  -- `EEXIST` and the code of Windows
  | some 17 | some 5010 => true
  | none => err.kind = .alreadyExists
  | _ => false

/-! ## The table -/

structure KernelRoute where
  destination : IpAddr
  prefixLen : Nat
  ifindex : Option UInt32
  metric : Option UInt32
  deriving DecidableEq

abbrev RoutingTable := List KernelRoute

def Handle.add (fault : Option IoError) (table : RoutingTable) (route : KernelRoute) :
    Except IoError RoutingTable :=
  match fault with
  | some err => .error err
  | none => .ok (if route ∈ table then table else table ++ [route])

def Handle.delete (fault : Option IoError) (table : RoutingTable) (route : KernelRoute) :
    Except IoError RoutingTable :=
  match fault with
  | some err => .error err
  | none => .ok (table.erase route)

/-- `Handle::list`, which can fail as well. -/
def Handle.list (fault : Option IoError) (table : RoutingTable) : Except IoError RoutingTable :=
  match fault with
  | some err => .error err
  | none => .ok table

def checkPrefix (target : IpAddr) (prefixLen : Nat) : Except IoError Unit :=
  let max := match target with
    | .v4 _ => 32
    | .v6 _ => 128
  if max < prefixLen then .error (.ofKind .invalidInput) else .ok ()

def addRoute (fault : Option IoError) (table : RoutingTable) (target : IpAddr) (prefixLen : Nat)
    (ifindex metric : UInt32) : Except IoError RoutingTable := do
  checkPrefix target prefixLen
  Handle.add fault table ⟨target, prefixLen, some ifindex, some metric⟩

/-- The routes a delete may take: those to the prefix, through the interface if one is
given. -/
def KernelRoute.hitBy (target : IpAddr) (prefixLen : Nat) (ifindex : Option UInt32)
    (r : KernelRoute) : Bool :=
  r.destination = target && r.prefixLen = prefixLen &&
    ifindex.all fun want => r.ifindex = some want

def delRoute (fault : Option IoError) (table : RoutingTable) (target : IpAddr) (prefixLen : Nat)
    (ifindex : Option UInt32) : Except IoError RoutingTable := do
  checkPrefix target prefixLen
  let existing := (← Handle.list fault table).find? (KernelRoute.hitBy target prefixLen ifindex)
  match existing with
  | none => .error (.ofKind .notFound)
  | some existing => Handle.delete fault table existing

/-! ## What the two operations do -/

/-- Removing the first element that is found is removing the first element that matches. -/
theorem erase_find {α : Type*} [DecidableEq α] {p : α → Bool} {l : List α} {a : α}
    (h : l.find? p = some a) : l.erase a = l.eraseP p := by
  induction l with
  | nil => cases h
  | cons b l ih =>
    rw [List.find?_cons] at h
    split at h
    · rename_i hb
      obtain rfl := Option.some.inj h
      rw [List.erase_cons_head, List.eraseP_cons_of_pos hb]
    · rename_i hb
      have hba : b ≠ a := by
        rintro rfl
        exact absurd (List.find?_some h) (by simp [hb])
      rw [List.erase_cons_tail (by simpa using hba), List.eraseP_cons_of_neg (by simp [hb]), ih h]

theorem checkPrefix_v4 (a : Ipv4Addr) {n : Nat} (hn : n ≤ 32) :
    checkPrefix (.v4 a) n = .ok () :=
  if_neg (Nat.not_lt.mpr hn)

theorem addRoute_eq (table : RoutingTable) (c : Ipv4Cidr) (ifindex metric : UInt32) :
    addRoute none table (.v4 c.address) c.prefixLen ifindex metric =
      Handle.add none table ⟨.v4 c.address, c.prefixLen, some ifindex, some metric⟩ := by
  rw [addRoute, checkPrefix_v4 _ c.prefixLen_le]
  rfl

/-- A delete of an IPv4 route takes out the first route that matches, if there is one. -/
theorem delRoute_eq (table : RoutingTable) (c : Ipv4Cidr) (ifindex : Option UInt32) :
    delRoute none table (.v4 c.address) c.prefixLen ifindex =
      if table.any (KernelRoute.hitBy (.v4 c.address) c.prefixLen ifindex) then
        .ok (table.eraseP (KernelRoute.hitBy (.v4 c.address) c.prefixLen ifindex))
      else .error (.ofKind .notFound) := by
  rw [delRoute, checkPrefix_v4 _ c.prefixLen_le]
  change (match table.find? (KernelRoute.hitBy (.v4 c.address) c.prefixLen ifindex) with
    | none => _
    | some existing => _) = _
  cases hf : table.find? (KernelRoute.hitBy (.v4 c.address) c.prefixLen ifindex) with
  | none =>
    rw [if_neg]
    simpa using hf
  | some r =>
    have hany : table.any (KernelRoute.hitBy (.v4 c.address) c.prefixLen ifindex) = true :=
      List.any_eq_true.mpr ⟨r, List.mem_of_find?_eq_some hf, List.find?_some hf⟩
    rw [if_pos hany, ← erase_find hf]
    rfl

theorem delRoute_fault (err : IoError) (table : RoutingTable) (c : Ipv4Cidr)
    (ifindex : Option UInt32) :
    delRoute (some err) table (.v4 c.address) c.prefixLen ifindex = .error err := by
  rw [delRoute, checkPrefix_v4 _ c.prefixLen_le]
  rfl

end Noeio
