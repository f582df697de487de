import Mathlib.Data.Finset.Dedup
import Mathlib.Data.List.Sort
import Mathlib.Data.String.Basic
import MiniDiscord.Peer.Spec

/-!
# A server among its peers

What `server_middleware.rs` keeps of a server: its `SystemState`, and where `main_task`, the tasks
of each peer and the `leader_announcement_task`s stand. The entry of a peer is one end of the
connection to it. A fleet is all configured servers with the lines between them.

A panic under the lock poisons the mutex. Whoever needs it later panics as well, and stands still.
-/

namespace MiniDiscord.Middleware

open Peer (Endpoint Line Handler)

/-! ## The configuration -/

/-- An entry of the configuration, without its host and ports. -/
structure Server where
  id : String
  priority : ℕ
deriving DecidableEq

abbrev Config := List Server

def getConfigFor (config : Config) (id : String) : Option Server :=
  config.find? fun server => server.id == id

/-- `max_by`: of several greatest, the last. -/
def maxByPriority (config : Config) : Option Server :=
  config.foldl (fun best server => match best with
    | some b => if b.priority ≤ server.priority then some server else some b
    | none => some server) none

def maxPriority (config : Config) : ℕ := (config.map Server.priority).foldl max 0

/-- The priority of an id that is configured. -/
def priorityOf (config : Config) (id : String) : ℕ :=
  ((getConfigFor config id).map Server.priority).getD 0

/-- The keys of `server_states`, in order. -/
def serverIds (config : Config) : List String :=
  (config.map Server.id).dedup.insertionSort (· ≤ ·)

/-! ## A server -/

inductive MainTask
  /-- opens connections to the servers with a smaller id, in order -/
  | connecting (targets : List String)
  /-- has returned; the listener accepts connections -/
  | listening
deriving DecidableEq

/-- Where a `leader_announcement_task` stands. -/
inductive Stage
  | starting
  /-- in `notified().await` -/
  | waiting
  | woken
  /-- has read who is alive; `best` has the highest priority -/
  | chosen (best : String)
  /-- has seen another leader -/
  | writing (best : String)
  | deciding (best : String)
deriving DecidableEq

structure LeaderTask where
  peer : String
  stage : Stage
deriving DecidableEq

/-- `notify_waiters` wakes the tasks that wait at that moment. -/
def LeaderTask.wake (task : LeaderTask) : LeaderTask :=
  if task.stage = .waiting then { task with stage := .woken } else task

structure Node where
  id : String
  leader : String
  serverStates : String → Endpoint
  receivers : Finset String
  poisoned : Bool
  mainTask : MainTask
  /-- the `peer_task`s that know their peer and take its receiver next -/
  introduced : List String
  /-- the `peer_task`s that have the receiver and spawn their tasks next -/
  holding : List String
  /-- the peers whose tasks run -/
  started : List String
  leaderTasks : List LeaderTask
  /-- history: the servers that `main_task` has connected to -/
  dialled : List String

inductive Event
  /-- `main_task`, for its next target, and when none is left -/
  | connect
  | giveUp
  | listen
  /-- a connection is accepted, and its first line read -/
  | accept (peer : String)
  /-- `peer_task` -/
  | takeReceiver (peer : String)
  | spawn (peer : String)
  /-- the `i`th `leader_announcement_task` -/
  | leaderTask (i : ℕ)
  /-- anything that concerns one peer alone -/
  | peer (peer : String) (event : Peer.Event)
deriving DecidableEq

/-- Whether the step takes the mutex of the state. -/
def locks (E : Endpoint) : Peer.Event → Bool
  | .take | .write _ | .writeError | .receive _ | .disconnect | .pong | .answer _ => false
  | .dispatch => match E.readLoop with
    | .dispatching (.ping _ _) => false
    | _ => true
  | _ => true

/-- `on_failure.notify_waiters()` -/
def notifies : Peer.Event → Bool
  | .notify _ => true
  | _ => false

/-- The leader that the dispatched line announces. -/
def told (E : Endpoint) : Peer.Event → Option String
  | .dispatch => match E.readLoop with
    | .dispatching (.leaderAnnouncement _ leader) => some leader
    | _ => none
  | _ => none

namespace Node

variable (config : Config)

/-- `SystemState::new`, with `main_task` at its start. -/
def init (id : String) : Node where
  id
  leader := ((maxByPriority config).map Server.id).getD id
  serverStates := fun _ => .init
  receivers := (config.map Server.id).toFinset
  poisoned := false
  mainTask := .connecting ((config.filter fun server => server.id < id).map Server.id)
  introduced := []
  holding := []
  started := []
  leaderTasks := []
  dialled := []

def isAlive (n : Node) (server : String) : Bool := (n.serverStates server).isAlive

def setServer (n : Node) (server : String) (E : Endpoint) : Node :=
  { n with serverStates := Function.update n.serverStates server E }

/-- `server_states[0]`, after the alive servers were sorted by priority and reversed. -/
def best (n : Node) : Option String :=
  (((serverIds config).filter n.isAlive).insertionSort
    fun a b => priorityOf config a ≤ priorityOf config b).reverse.head?

def setStage (n : Node) (i : ℕ) (stage : Stage) : Node :=
  { n with leaderTasks := n.leaderTasks.modify i fun task => { task with stage } }

/-- The server announces itself to the peer. -/
def announce (n : Node) (peer : String) : Option Node := do
  some (n.setServer peer (← (n.serverStates peer).step (.announce n.id)))

def leaderStep (n : Node) (i : ℕ) : Option Node := do
  let task ← n.leaderTasks[i]?
  match task.stage with
  | .starting =>
    if n.poisoned then none
    else if priorityOf config n.id = maxPriority config then
      (n.announce task.peer).map fun n => n.setStage i .waiting
    else some (n.setStage i .waiting)
  | .waiting => none
  | .woken =>
    if n.poisoned then none else (n.best config).map fun best => n.setStage i (.chosen best)
  | .chosen best =>
    if n.poisoned then none
    else some (n.setStage i (if n.leader = best then .deciding best else .writing best))
  | .writing best =>
    if n.poisoned then none else some { n.setStage i (.deciding best) with leader := best }
  | .deciding best =>
    if best = n.id then (n.announce task.peer).map fun n => n.setStage i .waiting
    else some (n.setStage i .waiting)

/-- A request is put into the queue of any other server. All else about a peer is done by the tasks
that were spawned for it. -/
def permits (n : Node) (peer : String) (e : Peer.Event) : Bool :=
  !(n.poisoned && locks (n.serverStates peer) e) && match e with
    | .announce _ | .unreachable => false
    | .sendRequest => (serverIds config).contains peer && peer != n.id
    | _ => n.started.contains peer

/-- What a peer's step does beyond its entry: it tells a new leader, or wakes the leader tasks. -/
def effect (n : Node) (E : Endpoint) (e : Peer.Event) : Node :=
  { n with
    leader := (told E e).getD n.leader
    leaderTasks := if notifies e then n.leaderTasks.map LeaderTask.wake else n.leaderTasks }

def step (n : Node) : Event → Option Node
  | .connect => match n.mainTask with
    | .connecting (target :: targets) =>
      some { n with
        mainTask := .connecting targets
        introduced := n.introduced ++ [target]
        dialled := n.dialled ++ [target] }
    | _ => none
  | .giveUp => match n.mainTask with
    | .connecting (target :: targets) =>
      if n.poisoned then none
      else do
        let E ← (n.serverStates target).step .unreachable
        some { n.setServer target E with mainTask := .connecting targets }
    | _ => none
  | .listen => if n.mainTask = .connecting [] then some { n with mainTask := .listening } else none
  | .accept peer =>
    if n.mainTask = .listening then some { n with introduced := n.introduced ++ [peer] } else none
  | .takeReceiver peer =>
    if peer ∈ n.introduced ∧ n.poisoned = false then
      -- `remove(&peer_id).unwrap()`, with the lock held
      if peer ∈ n.receivers then
        some { n with
          introduced := n.introduced.erase peer
          receivers := n.receivers.erase peer
          holding := n.holding ++ [peer] }
      else some { n with introduced := n.introduced.erase peer, poisoned := true }
    else none
  | .spawn peer =>
    if peer ∈ n.holding then
      some { n with
        holding := n.holding.erase peer
        started := n.started ++ [peer]
        leaderTasks := n.leaderTasks ++ [⟨peer, .starting⟩] }
    else none
  | .leaderTask i => n.leaderStep config i
  | .peer peer e =>
    if n.permits config peer e = true then do
      let E ← (n.serverStates peer).step e
      some ((n.setServer peer E).effect (n.serverStates peer) e)
    else none

end Node

/-- The events lead a server from its start to `n`, whatever its peers do. -/
abbrev Reaches (config : Config) (id : String) (es : List Event) (n : Node) : Prop :=
  Run.Exec (Node.step config) (fun _ _ => True) (.init config id) es n

def Node.outcome (config : Config) (id : String) (es : List Event) : Option Node :=
  Run.run (Node.step config) (fun _ _ => True) (.init config id) es

/-! ## The fleet -/

structure Fleet where
  node : String → Node
  /-- what the first has written to the second, which has not read it -/
  wire : String → String → List Line
  /-- who has a connection that the server has not accepted yet -/
  dialling : String → List String

def Fleet.init (config : Config) : Fleet := ⟨Node.init config, fun _ _ => [], fun _ => []⟩

def Fleet.setNode (F : Fleet) (i : String) (n : Node) : Fleet :=
  { F with node := Function.update F.node i n }

def Fleet.setWire (F : Fleet) (i j : String) (lines : List Line) : Fleet :=
  { F with wire := Function.update F.wire i (Function.update (F.wire i) j lines) }

/-- A step of server `i`, with at most `capacity` lines under way in each direction. -/
def Fleet.step (config : Config) (capacity : ℕ) (F : Fleet) (x : String × Event) :
    Option Fleet := do
  let (i, e) := x
  let F' := F.setNode i (← (F.node i).step config e)
  if i ∈ serverIds config then
    match e with
    | .connect => match (F.node i).mainTask with
      | .connecting (target :: _) =>
        if (F.node target).mainTask = .listening then
          some { F' with
            dialling := Function.update F.dialling target (F.dialling target ++ [i]) }
        else none
      | _ => none
    | .accept peer =>
      if peer ∈ F.dialling i then
        some { F' with dialling := Function.update F.dialling i ((F.dialling i).erase peer) }
      else none
    | .peer j (.write line) =>
      if (F.wire i j).length < capacity then some (F'.setWire i j (F.wire i j ++ [line])) else none
    | .peer j (.receive line) => match F.wire j i with
      | first :: rest => if first = line then some (F'.setWire j i rest) else none
      | [] => none
    | _ => some F'
  else none

/-- The events lead the fleet to `F`, and each of them is allowed. -/
abbrev FleetReaches (config : Config) (capacity : ℕ) (allowed : Fleet → String × Event → Bool)
    (es : List (String × Event)) (F : Fleet) : Prop :=
  Run.Exec (Fleet.step config capacity) (fun F x => allowed F x = true) (.init config) es F

def Fleet.outcome (config : Config) (capacity : ℕ) (allowed : Fleet → String × Event → Bool)
    (es : List (String × Event)) : Option Fleet :=
  Run.run (Fleet.step config capacity) (fun F x => allowed F x = true) (.init config) es

end MiniDiscord.Middleware
