import Noeio.Daemon.SyncRoute
import Noeio.Derp.Connection
import Noeio.Lib.Mailboxes

/-!
# One derper and its nodes

The derper and the routers of the nodes as one system. A push to a peer goes to the node the
peer lives on (`hostOf`), where its target becomes the local id; no push is lost and those
to one node arrive in the order they were sent. The steps are those of the two programs:

* `report`: an accepted report is folded into the peer table (`handleReport`);
* `expire` and `evict`: an entry runs out of time, and is then removed and queued as gone
  (a report for an expired entry queues it as well, see `PeerManager.insertPeer`);
* `sync`: the sync task takes the trigger and broadcasts all live peers (`syncRoutes`);
* `gone`: the gone task takes one `Gone` and broadcasts its tombstones (`tombstones`);
* `apply`: a node folds the next push into its router (`Router.receive`).

What a node will store once everything in flight has arrived is its `eventual` router. A
step of a node does not change it, so the broadcasts are the only steps that count.
-/

namespace Noeio.System

open Derp

/-- The peer table of the derper, and the routers behind the messages in flight. -/
structure State (Node : Type*) where
  manager : PeerManager
  nodes : Mailboxes Node Router SyncRoute

def State.new {Node : Type*} : State Node := ⟨.new, ⟨fun _ => .new, []⟩⟩

inductive Event (Node : Type*) where
  | report (addr : SocketAddr) (network : NetworkId) (host : HostInfo)
  | expire (peerId : PeerId)
  | evict (peerId : PeerId)
  /-- The live peers are read in this order. -/
  | sync (peers : List (PeerId × PeerEntry))
  | gone (peers : List (PeerId × PeerEntry))
  | apply (node : Node)

variable {Node : Type*} [DecidableEq Node] (hostOf : PeerId → Node)

/-- The packets of a broadcast, each with the node it goes to. -/
def packets (pushes : List RoutePush) : List (Node × SyncRoute) :=
  pushes.map fun push => (hostOf push.target, ⟨push.info, push.target⟩)

def step (s : State Node) : Event Node → State Node
  | .report addr network host => { s with manager := handleReport s.manager addr network host }
  | .expire peerId => { s with manager := s.manager.expire peerId }
  | .evict peerId => { s with manager := s.manager.evict peerId }
  | .sync peers =>
    if s.manager.trigger ∧ peers.Perm s.manager.alivePeers then
      { manager := { s.manager with trigger := false }
        nodes := s.nodes.send (packets hostOf (syncRoutes peers)) }
    else s
  | .gone peers =>
    match s.manager.gone with
    | dead :: rest =>
      if peers.Perm s.manager.alivePeers then
        { manager := { s.manager with gone := rest }
          nodes := s.nodes.send (packets hostOf (tombstones peers dead)) }
      else s
    | [] => s
  | .apply node => { s with nodes := s.nodes.deliver Router.receive node }

/-- The system after the events `es`. -/
def run (es : List (Event Node)) : State Node := Runs.run (step hostOf) State.new es

/-- The router of a node once everything in flight has arrived. -/
def State.eventual (s : State Node) (node : Node) : Router := s.nodes.eventual Router.receive node

/-- No pending trigger, no queued `Gone` and nothing in flight. -/
structure Quiescent (s : State Node) : Prop where
  trigger : s.manager.trigger = false
  gone : s.manager.gone = []
  inFlight : s.nodes.inFlight = []

variable {hostOf}

omit [DecidableEq Node] in
theorem mem_packets {pushes : List RoutePush} {node : Node} {m : SyncRoute} :
    (node, m) ∈ packets hostOf pushes ↔
      ∃ push ∈ pushes, hostOf push.target = node ∧ m = ⟨push.info, push.target⟩ := by
  simp only [packets, List.mem_map, Prod.mk.injEq]
  constructor
  · rintro ⟨push, hmem, hnode, rfl⟩
    exact ⟨push, hmem, hnode, rfl⟩
  · rintro ⟨push, hmem, hnode, rfl⟩
    exact ⟨push, hmem, hnode, rfl⟩

theorem eventual_send (m : PeerManager) (nodes : Mailboxes Node Router SyncRoute)
    (pushes : List RoutePush) (node : Node) :
    State.eventual ⟨m, nodes.send (packets hostOf pushes)⟩ node =
      (nodes.eventual Router.receive node).applyAll (Mailboxes.mail node (packets hostOf pushes)) :=
  Mailboxes.eventual_send nodes _ node

/-- What a step can do to the system. `quiet` is everything that leaves the table and the
eventual routers as they are: a message that arrives, and a task that finds nothing to do. -/
inductive StepShape (hostOf : PeerId → Node) (s : State Node) : Event Node → State Node → Prop
  | report (addr : SocketAddr) (network : NetworkId) (host : HostInfo) :
      StepShape hostOf s (.report addr network host)
        ⟨handleReport s.manager addr network host, s.nodes⟩
  | expire (x : PeerId) : StepShape hostOf s (.expire x) ⟨s.manager.expire x, s.nodes⟩
  | evict (x : PeerId) : StepShape hostOf s (.evict x) ⟨s.manager.evict x, s.nodes⟩
  | sync {peers : List (PeerId × PeerEntry)} (hperm : peers.Perm s.manager.alivePeers) :
      StepShape hostOf s (.sync peers)
        ⟨{ s.manager with trigger := false }, s.nodes.send (packets hostOf (syncRoutes peers))⟩
  | gone {peers : List (PeerId × PeerEntry)} {dead : Gone} {rest : List Gone}
      (hgone : s.manager.gone = dead :: rest) :
      StepShape hostOf s (.gone peers)
        ⟨{ s.manager with gone := rest }, s.nodes.send (packets hostOf (tombstones peers dead))⟩
  | quiet {e : Event Node} {t : State Node}
      (hreport : ∀ addr network host, e ≠ .report addr network host)
      (hmanager : t.manager = s.manager) (heventual : ∀ node, t.eventual node = s.eventual node) :
      StepShape hostOf s e t

theorem stepShape (hostOf : PeerId → Node) (s : State Node) (e : Event Node) :
    StepShape hostOf s e (step hostOf s e) := by
  cases e with
  | report addr network host => exact .report addr network host
  | expire x => exact .expire x
  | evict x => exact .evict x
  | sync peers =>
    simp only [step]
    split
    · rename_i hen
      exact .sync hen.2
    · exact .quiet (by simp) rfl fun _ => rfl
  | gone peers =>
    simp only [step]
    split
    · rename_i hgone
      split
      · exact .gone hgone
      · exact .quiet (by simp) rfl fun _ => rfl
    · exact .quiet (by simp) rfl fun _ => rfl
  | apply node => exact .quiet (by simp) rfl (Mailboxes.eventual_deliver s.nodes node)

end Noeio.System
