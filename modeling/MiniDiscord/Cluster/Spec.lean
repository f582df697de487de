import Mathlib.Data.List.Destutter
import Mathlib.Data.String.Basic
import MiniDiscord.DiscordStateops
import MiniDiscord.Owner
import MiniDiscord.Run

/-!
# The three servers as one system

Everything done for one client request is a `Job`: a stack of async calls, each at one server,
with a message in flight on top of a call that waits for an answer. One event is one step of one
call between two of its locks or awaits, one message handled, or something that the world does: a
request arrives, a server crashes, a server marks a peer failed.

Handlers run in tasks of their own, so a message may be handled at any later moment or never; a
message never handled is a lost one. A callback is invoked with the answer to its own request, or
with `None` at some moment after the peer was marked failed.
-/

namespace MiniDiscord.Cluster

open DiscordStateops

/-! ## Requests and their answers -/

/-- The operations of `distributed_stateops.rs`, as a client's server calls them. -/
inductive Op
  | createUser (username : String)
  | userExists (username : String)
  | getUsers
  | getChannels
  | joinChannel (username channelName : String)
  | leaveChannel (username channelName : String)
  | listChannelUsers (channelName : String)
  | sendMessage (channelName username text : String)
  | getMessages (channelName : String) (limit offset : Option ℕ)
deriving DecidableEq

/-- What an operation returns. A `Vec` in the order of a hash set is a multiset. -/
inductive Value
  | unit
  | found (exists? : Bool)
  | messageId (id : String)
  | names (all : Multiset String)
  | sorted (all : List String)
  | messages (all : List Message)
deriving DecidableEq

/-- The owners that an operation is routed by; `get_users` and `get_channels` ask every server. -/
def Op.owner (hash : String → ℕ) : Op → Option LocationConfig
  | .createUser u | .userExists u => some (userOwner hash u)
  | .joinChannel _ c | .leaveChannel _ c | .listChannelUsers c | .sendMessage c _ _
  | .getMessages c _ _ => some (channelOwner hash c)
  | .getUsers | .getChannels => none

/-- The user whose existence is asked for: by `user_exists` itself, or by the closure that
`join_channel`, `leave_channel` and `send_message` await. -/
def Op.username? : Op → Option String
  | .userExists u | .joinChannel u _ | .leaveChannel u _ | .sendMessage _ u _ => some u
  | _ => none

/-- The names that a server answers `get_users` or `get_channels` with. -/
def Op.names (op : Op) (state : AppState) : Multiset String :=
  if op = .getChannels then DiscordStateops.getChannels state else DiscordStateops.getUsers state

/-- The checks before the `user_exists` await. -/
def Op.checks (op : Op) (state : AppState) : StateResult Unit :=
  match op with
  | .leaveChannel _ c | .sendMessage c _ _ => checkChannel c state
  | _ => .ok ()

/-- The local operation, from its last lock on. -/
def Op.locked (op : Op) (state : AppState) : Option (StateResult Value × AppState) :=
  match op with
  | .createUser u =>
    let (r, state) := DiscordStateops.createUser u state
    some (r.map fun _ => .unit, state)
  | .userExists u => some (.ok (.found (DiscordStateops.userExists u state)), state)
  | .getUsers | .getChannels => some (.ok (.names (op.names state)), state)
  | .joinChannel u c =>
    let (r, state) := joinChannelLocked u c state
    some (r.map fun _ => .unit, state)
  | .leaveChannel u c =>
    (leaveChannelLocked u c state).map fun (r, state) => (r.map fun _ => .unit, state)
  | .listChannelUsers c => some ((DiscordStateops.listChannelUsers c state).map .names, state)
  | .sendMessage c u t =>
    (sendMessageLocked c u t state).map fun (r, state) => (r.map .messageId, state)
  | .getMessages c limit offset =>
    some ((DiscordStateops.getMessages c limit offset state).map .messages, state)

/-- Whether the primary replicates the operation. -/
def Op.replicated : Op → Bool
  | .createUser _ | .joinChannel _ _ | .leaveChannel _ _ | .sendMessage _ _ _ => true
  | _ => false

/-- What the backup does with a replicate request: the original succeeded, so its user is not looked
up again. `v` is what the primary returned, for a message its id. -/
def Op.replicateLocked (op : Op) (v : Value) (state : AppState) :
    Option (StateResult Value × AppState) :=
  match op, v with
  | .createUser u, _ =>
    let (r, state) := DiscordStateops.createUser u state
    some (r.map fun _ => .unit, state)
  | .joinChannel u c, _ =>
    let (r, state) := DiscordStateops.joinChannel u c (fun _ => true) state
    some (r.map fun _ => .unit, state)
  | .leaveChannel u c, _ =>
    (DiscordStateops.leaveChannel u c (fun _ => true) state).map fun (r, state) =>
      (r.map fun _ => .unit, state)
  | .sendMessage c u t, .messageId id =>
    (replicateSendMessage c u t id state).map fun (r, state) => (r.map .messageId, state)
  | _, _ => none

/-! ## Calls, messages and jobs -/

/-- What a server can be asked by a peer. The arguments are those of the job's operation. -/
inductive Request
  | forwarded
  | userExists
  | listNames
  | replicate (v : Value)
deriving DecidableEq

/-- Where an async call stands: before the lock or the await that it does next. -/
inductive Pc
  /-- reads whether this server is authoritative for the key -/
  | start
  | check
  /-- the awaited `user_exists`, from its own reading of who is authoritative on -/
  | userStart
  | userLocal
  | userRoute
  | userAwait (dest : ServerId)
  /-- the local operation's last lock -/
  | commit
  /-- the local operation succeeded with `v`; reads whether the backup is alive -/
  | applied (v : Value)
  | awaitReplica (v : Value) (dest : ServerId)
  /-- not authoritative: `forward_request` -/
  | route
  | awaitForward (dest : ServerId)
  /-- `get_users` and `get_channels`: this server's own names, then one peer after the other -/
  | pollOwn (peers : List ServerId)
  | poll (all : Multiset String) (peers : List ServerId)
  | awaitPoll (all : Multiset String) (peer : ServerId) (peers : List ServerId)
  | done (r : StateResult Value)
  | panicked
deriving DecidableEq

/-- The error that a name gives by itself, before the lock at `pc`. -/
def Op.refusal : Op → Pc → Option StateError
  | .createUser u, .commit => if u = "" then some emptyUsername else none
  | .joinChannel _ c, .commit | .listChannelUsers c, .commit | .getMessages c _ _, .commit
  | .leaveChannel _ c, .check | .sendMessage c _ _, .check =>
    if channelNameIsValid c then none else some invalidChannelName
  | _, _ => none

/-- The same at a replica, which looks at the names again. -/
def Op.replicaRefusal : Op → Option StateError
  | .createUser u => (Op.createUser u).refusal .commit
  | .joinChannel u c => (Op.joinChannel u c).refusal .commit
  | .leaveChannel u c => (Op.leaveChannel u c).refusal .check
  | _ => none

inductive Frame
  | call (s : ServerId) (pc : Pc)
  | request (dest : ServerId) (request : Request)
  | response (r : StateResult Value)
deriving DecidableEq

/-- The stack has its top first. A job is `attached` while its last call answers the client; a call
given up by its caller runs on in a job that is not. -/
structure Job where
  req : ℕ
  op : Op
  home : ServerId
  attached : Bool
  stack : List Frame
deriving DecidableEq

structure Reply where
  req : ℕ
  op : Op
  result : StateResult Value
deriving DecidableEq

/-- What the servers hold, apart from the calls that run on them. -/
structure Servers where
  store : ServerId → AppState
  /-- the `AppState` mutex is poisoned -/
  poisoned : ServerId → Bool
  /-- `view s p`: `is_alive` of `p` at `s` -/
  view : ServerId → ServerId → Bool
  crashed : ServerId → Bool

structure World where
  servers : Servers
  jobs : List Job
  nextReq : ℕ
  /-- what the clients were told -/
  returned : List Reply

/-- `init_state` of one server -/
def initStore : ServerId → AppState
  | .A => (createChannel "#cs249" (createChannel "#systems" .new).2).2
  | .B => (createChannel "#distributed" (createChannel "#cs249" .new).2).2
  | .C => (createChannel "#systems" (createChannel "#distributed" .new).2).2

/-- All three servers are up and connected, and nothing was asked yet. -/
def World.init : World :=
  ⟨⟨initStore, fun _ => false, fun _ _ => true, fun _ => false⟩, [], 0, []⟩

/-! ## One step of one call -/

def Servers.setStore (σ : Servers) (s : ServerId) (state : AppState) : Servers :=
  { σ with store := Function.update σ.store s state }

def Servers.poison (σ : Servers) (s : ServerId) : Servers :=
  { σ with poisoned := Function.update σ.poisoned s true }

/-- `set_server_state(p, false)` at `s` -/
def Servers.suspect (σ : Servers) (s p : ServerId) : Servers :=
  { σ with view := Function.update σ.view s (Function.update (σ.view s) p false) }

def Servers.crash (σ : Servers) (s : ServerId) : Servers :=
  { σ with crashed := Function.update σ.crashed s true }

/-- Runs a critical section under the mutex of `s`; `none` if it panics. -/
def Servers.lock {β : Type} (σ : Servers) (s : ServerId) (f : AppState → Option (β × AppState)) :
    Servers × Option β :=
  if σ.poisoned s then (σ, none)
  else match f (σ.store s) with
    | none => (σ.poison s, none)
    | some (b, state) => (σ.setStore s state, some b)

/-- `config.primary == id || (!get_server_state(config.primary) && id == config.backup)` -/
def Servers.authoritative (σ : Servers) (s : ServerId) (config : LocationConfig) : Bool :=
  config.primary = s || (!σ.view s config.primary && s = config.backup)

/-- `forward_request_to`: `send_message_task` writes no message to a peer marked failed. -/
def Servers.forwardRequestTo (σ : Servers) (s dest : ServerId) (request : Request) (wait : Pc) :
    List Frame :=
  if s = dest then [.call s .panicked]
  else if σ.view s dest then [.request dest request, .call s wait]
  else [.call s wait]

/-- `forward_request` -/
def Servers.forwardRequest (σ : Servers) (s : ServerId) (config : LocationConfig)
    (request : Request)
    (wait : ServerId → Pc) : List Frame :=
  if s = config.primary then [.call s .panicked]
  else
    let location := if σ.view s config.primary then config.primary else config.backup
    σ.forwardRequestTo s location request (wait location)

/-- The alive peers in the order of their ids. -/
def Servers.alivePeers (σ : Servers) (s : ServerId) : List ServerId :=
  [.A, .B, .C].filter fun p => p != s && σ.view s p

/-- `all_users.sort()` -/
def sortNames (all : Multiset String) : List String :=
  Quot.liftOn all (List.insertionSort (· ≤ ·)) fun _ _ h =>
    @List.Perm.eq_of_pairwise String (· ≤ ·) _ _ (fun _ _ _ _ => le_antisymm)
      (List.pairwise_insertionSort _ _) (List.pairwise_insertionSort _ _)
      ((List.perm_insertionSort _ _).trans (h.trans (List.perm_insertionSort _ _).symm))

/-- `Vec::dedup` keeps the first of each run of equal elements. -/
def dedup (all : List String) : List String := all.destutter (· ≠ ·)

/-- Where an authoritative server goes on. -/
def Op.entry : Op → Pc
  | .joinChannel _ _ => .userStart
  | .leaveChannel _ _ | .sendMessage _ _ _ => .check
  | _ => .commit

/-- `user_exists` is answered by the server it was sent to; any other forwarded operation starts
over there. -/
def Op.forwardedAs : Op → Request
  | .userExists _ => .userExists
  | _ => .forwarded

variable (hash : String → ℕ)

/-- One step of the call on top of the stack: the servers after it and the frames in its place. -/
def Servers.stepCall (σ : Servers) (op : Op) (s : ServerId) : Pc → Option (Servers × List Frame)
  | .start => match op.owner hash with
    | some config => some (σ, [.call s (if σ.authoritative s config then op.entry else .route)])
    | none => some (σ, [.call s (.pollOwn (σ.alivePeers s))])
  | .check => match op.refusal .check with
    | some e => some (σ, [.call s (.done (.error e))])
    | none => match σ.lock s fun state => some (op.checks state, state) with
      | (σ, some (.ok ())) => some (σ, [.call s .userStart])
      | (σ, some (.error e)) => some (σ, [.call s (.done (.error e))])
      | (σ, none) => some (σ, [.call s .panicked])
  | .userStart => do
    let username ← op.username?
    some (σ, [.call s
      (if σ.authoritative s (userOwner hash username) then .userLocal else .userRoute)])
  | .userLocal => do
    let username ← op.username?
    match σ.lock s fun state => some (DiscordStateops.userExists username state, state) with
    | (σ, some true) => some (σ, [.call s .commit])
    | (σ, some false) => some (σ, [.call s (.done (.error unknownUser))])
    | (σ, none) => some (σ, [.call s .panicked])
  | .userRoute => do
    let username ← op.username?
    some (σ, σ.forwardRequest s (userOwner hash username) .userExists .userAwait)
  | .commit => match op.refusal .commit with
    | some e => some (σ, [.call s (.done (.error e))])
    | none => match σ.lock s op.locked with
      | (σ, some (.ok v)) =>
        some (σ, [.call s (if op.replicated then .applied v else .done (.ok v))])
      | (σ, some (.error e)) => some (σ, [.call s (.done (.error e))])
      | (σ, none) => some (σ, [.call s .panicked])
  | .applied v => do
    let config ← op.owner hash
    if config.backup = s ∨ σ.view s config.backup = false then
      some (σ, [.call s (.done (.ok v))])
    else
      some (σ, σ.forwardRequestTo s config.backup (.replicate v) (.awaitReplica v config.backup))
  | .route => do
    let config ← op.owner hash
    some (σ, σ.forwardRequest s config op.forwardedAs .awaitForward)
  | .pollOwn peers => match σ.lock s fun state => some (op.names state, state) with
    | (σ, some own) => some (σ, [.call s (.poll own peers)])
    | (σ, none) => some (σ, [.call s .panicked])
  | .poll all [] => some (σ, [.call s (.done (.ok (.sorted (dedup (sortNames all)))))])
  | .poll all (p :: peers) => some (σ, σ.forwardRequestTo s p .listNames (.awaitPoll all p peers))
  | _ => none

/-- Whether the server that waits for an answer from `s` is marked alive there. -/
def Servers.heard (σ : Servers) (s : ServerId) : List Frame → Bool
  | .call t _ :: _ => σ.view s t
  | _ => true

/-- `send_message_task` writes no answer to a peer marked failed, whose call waits on. -/
def Servers.answer (σ : Servers) (s : ServerId) (r : StateResult Value) (rest : List Frame) :
    List Frame :=
  if σ.heard s rest then .response r :: rest else rest

/-- `receive_callback`: a request is handled at `s`. A handler that panics never answers. -/
def Servers.receive (σ : Servers) (op : Op) (s : ServerId) (rest : List Frame) :
    Request → Option (Servers × List Frame)
  | .forwarded => some (σ, .call s .start :: rest)
  | .userExists => do
    let username ← op.username?
    match σ.lock s fun state => some (DiscordStateops.userExists username state, state) with
    | (σ, some found) => some (σ, σ.answer s (.ok (.found found)) rest)
    | (σ, none) => some (σ, .call s .panicked :: rest)
  | .listNames => match σ.lock s fun state => some (op.names state, state) with
    | (σ, some all) => some (σ, σ.answer s (.ok (.names all)) rest)
    | (σ, none) => some (σ, .call s .panicked :: rest)
  | .replicate v => match op.replicaRefusal with
    | some e => some (σ, σ.answer s (.error e) rest)
    | none => match σ.lock s (op.replicateLocked v) with
      | (σ, some r) => some (σ, σ.answer s r rest)
      | (σ, none) => some (σ, .call s .panicked :: rest)

/-- The peer that a call waits for. -/
def Pc.awaits : Pc → Option ServerId
  | .userAwait p | .awaitReplica _ p | .awaitForward p | .awaitPoll _ p _ => some p
  | _ => none

/-- The callback was invoked with an answer. An answer of the wrong shape would panic. -/
def Pc.resume : Pc → StateResult Value → Pc
  | .userAwait _, .ok (.found true) => .commit
  | .userAwait _, .ok (.found false) => .done (.error unknownUser)
  | .awaitReplica _ _, r => .done r
  | .awaitForward _, r => .done r
  | .awaitPoll all _ peers, .ok (.names more) => .poll (all + more) peers
  | _, _ => .panicked

/-- The callback was invoked with `None`. -/
def Pc.giveUp : Pc → Pc
  | .userAwait _ => .userStart
  -- the primary already has the change
  | .awaitReplica v _ => .done (.ok v)
  | .awaitForward _ => .start
  | .awaitPoll all _ peers => .poll all peers
  | pc => pc

/-- One step of what is on top of a job's stack. -/
def Servers.advance (σ : Servers) (op : Op) : List Frame → Option (Servers × List Frame)
  | .call s (.done r) :: caller :: rest =>
    if σ.crashed s then none else some (σ, σ.answer s r (caller :: rest))
  | .call s pc :: rest => do
    if σ.crashed s then none
    let (σ, frames) ← σ.stepCall hash op s pc
    some (σ, frames ++ rest)
  | .request s request :: rest => do
    if σ.crashed s then none
    σ.receive op s rest request
  | .response r :: .call s pc :: rest =>
    if σ.crashed s || pc.awaits.isNone then none else some (σ, .call s (pc.resume r) :: rest)
  | _ => none

/-! ## One step of the system -/

inductive Event
  /-- a client's request arrives at `s` -/
  | submit (s : ServerId) (op : Op)
  /-- the top of the stack of job `i` takes a step -/
  | advance (i : ℕ)
  /-- the waiting call at depth `k` of job `i` gets `None` -/
  | giveUp (i k : ℕ)
  /-- the client of job `i` goes away, and its server drops the call -/
  | hangUp (i : ℕ)
  /-- `s` marks `p` failed -/
  | suspect (s p : ServerId)
  | crash (s : ServerId)
deriving DecidableEq

def World.setJob (w : World) (i : ℕ) (j : Job) : World := { w with jobs := w.jobs.set i j }

def World.step (w : World) : Event → Option World
  | .submit s op =>
    if w.servers.crashed s then none
    else some { w with
      jobs := w.jobs ++ [⟨w.nextReq, op, s, true, [.call s .start]⟩], nextReq := w.nextReq + 1 }
  | .advance i => do
    let j ← w.jobs[i]?
    match j.stack with
    | [.call s (.done r)] =>
      if w.servers.crashed s || !j.attached then none
      else some { w.setJob i { j with stack := [] } with
        returned := w.returned ++ [⟨j.req, j.op, r⟩] }
    | stack => do
      let (servers, stack) ← w.servers.advance hash j.op stack
      some { w.setJob i { j with stack } with servers }
  | .giveUp i k => do
    let j ← w.jobs[i]?
    match j.stack.drop k with
    | .call s pc :: rest => do
      let p ← pc.awaits
      if w.servers.crashed s || w.servers.view s p then none
      else some { w.setJob i { j with stack := .call s pc.giveUp :: rest } with
        jobs := w.jobs.set i { j with stack := .call s pc.giveUp :: rest } ++
          [{ j with attached := false, stack := j.stack.take k }] }
    | _ => none
  | .hangUp i => do
    let j ← w.jobs[i]?
    if j.attached then some (w.setJob i { j with attached := false, stack := j.stack.dropLast })
    else none
  | .suspect s p =>
    if s = p ∨ w.servers.crashed s then none
    else some { w with servers := w.servers.suspect s p }
  | .crash s =>
    if w.servers.crashed s then none else some { w with servers := w.servers.crash s }

/-! ## What a run may contain -/

/-- Which steps of calls, which failures and which departures of clients a run may contain. -/
structure Policy where
  advance : Servers → Op → List Frame → Bool
  hangUp : Bool
  suspect : Servers → ServerId → Bool
  crash : Servers → Bool

def Policy.allows (policy : Policy) (w : World) : Event → Bool
  | .advance i => (w.jobs[i]?).all fun j => policy.advance w.servers j.op j.stack
  | .hangUp _ => policy.hangUp
  | .suspect _ p => policy.suspect w.servers p
  | .crash _ => policy.crash w.servers
  | _ => true

/-- No server crashes or is marked failed, and every client waits for its answer. -/
def failureFree : Policy := ⟨fun _ _ _ => true, false, fun _ _ => false, fun _ => false⟩

/-- At most one server crashes, and only a crashed server is marked failed. -/
def crashStop : Policy :=
  ⟨fun _ _ _ => true, true, fun σ p => σ.crashed p,
    fun σ => !σ.crashed .A && !σ.crashed .B && !σ.crashed .C⟩

/-- Any server may crash, and any peer may be marked failed at any time. -/
def anyFailure : Policy := ⟨fun _ _ _ => true, true, fun _ _ => true, fun _ => true⟩

/-- The same runs, cut down to those in which each step of a call meets a condition on the servers
and the stack before it. -/
def Policy.where' (policy : Policy) (condition : Servers → Op → List Frame → Bool) : Policy :=
  { policy with advance := fun σ op stack => policy.advance σ op stack && condition σ op stack }

/-- The events `es` lead from the initial world to `w`. -/
abbrev Reaches (policy : Policy) (es : List Event) (w : World) : Prop :=
  Run.Exec (World.step hash) (fun w e => policy.allows w e = true) World.init es w

/-- The world that the events lead to, if all of them are allowed and enabled. -/
def outcome (policy : Policy) (w : World) (es : List Event) : Option World :=
  Run.run (World.step hash) (fun w e => policy.allows w e = true) w es

/-- `n` steps of job `i`. -/
def steps (i n : ℕ) : List Event := List.replicate n (.advance i)

/-- A client's request at `s`, and `n` steps of its job. -/
def asks (s : ServerId) (op : Op) (i n : ℕ) : List Event := .submit s op :: steps i n

/-- `alice` is created at `A`, and joins `#cs249` there. -/
def aliceJoins : List Event :=
  asks .A (.createUser "alice") 0 6 ++ asks .A (.joinChannel "alice" "#cs249") 1 8

end MiniDiscord.Cluster
