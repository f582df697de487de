import Mathlib.Data.Finmap
import MiniDiscord.Run

/-!
# The connection between two servers

What one server does for one peer: its `PeerState`, the bounded queue of messages to send,
`send_message_task`, the read loop of `peer_task`, the tasks that answer requests, and the timeout
tasks of `send_pings_task` that mark the peer failed. One event is what one of them does between
two locks or awaits.

A callback is known by its number in the order in which callbacks were handed out. A line carries
the callback of its request along, as history: the servers read the sequence number alone.
-/

namespace MiniDiscord.Peer

/-! ## Messages and lines -/

/-- `tokio::sync::mpsc::channel(100)` -/
def queueCapacity : ℕ := 100

/-- One constructor for each place that builds a message. An answer has the `sequence_number` that
it echoes, and the callback of the request it is about. -/
inductive MessageToSend
  | request (callback : ℕ)
  | ping (callback : ℕ)
  | leaderAnnouncement (leader : String)
  | pong (seqNum about : ℕ)
  | response (seqNum about : ℕ)
deriving DecidableEq

def MessageToSend.isResponse : MessageToSend → Bool
  | .pong _ _ | .response _ _ => true
  | _ => false

def MessageToSend.callback : MessageToSend → Option ℕ
  | .request c | .ping c => some c
  | _ => none

/-- A message with its `sequence_number`, as it is written. -/
inductive Line
  | request (seqNum about : ℕ)
  | ping (seqNum about : ℕ)
  | leaderAnnouncement (seqNum : ℕ) (leader : String)
  | pong (seqNum about : ℕ)
  | response (seqNum about : ℕ)
deriving DecidableEq

/-- `sequence_num` is the number of a request; an answer keeps its own. -/
def MessageToSend.line (sequenceNum : ℕ) : MessageToSend → Line
  | .request c => .request sequenceNum c
  | .ping c => .ping sequenceNum c
  | .leaderAnnouncement leader => .leaderAnnouncement sequenceNum leader
  | .pong q c => .pong q c
  | .response q c => .response q c

/-- The number that was attached to a line which is no response. -/
def Line.attached : Line → Option ℕ
  | .request q _ | .ping q _ | .leaderAnnouncement q _ => some q
  | .pong _ _ | .response _ _ => none

/-! ## One end of a connection -/

/-- Where `send_message_task` stands. -/
inductive SendTask
  /-- in `recv().await` -/
  | waiting
  | taken (message : MessageToSend)
  /-- numbered, its callback registered; reads `is_alive` next -/
  | registered (line : Line)
  /-- in `write_all` -/
  | writing (line : Line)
  /-- drains the callbacks next -/
  | draining
deriving DecidableEq

/-- Where the read loop of `peer_task` stands. -/
inductive ReadLoop
  | reading
  | dispatching (line : Line)
  /-- in `sender.send(PONG).await`, as the queue was full -/
  | ponging (seqNum about : ℕ)
  | ended
deriving DecidableEq

/-- Where a timeout task that found the peer dead stands. -/
inductive Handler
  | marked
  | notified
  | finished
deriving DecidableEq

structure Endpoint where
  isAlive : Bool
  sequenceNum : ℕ
  seqToCallback : Finmap fun _ : ℕ => ℕ
  queue : List MessageToSend
  sendTask : SendTask
  readLoop : ReadLoop
  /-- the requests that spawned tasks are answering -/
  answering : List (ℕ × ℕ)
  handlers : List Handler
  /-- history: how many callbacks were handed out -/
  callbacks : ℕ
  /-- history: each invoked callback, with the callback of the request that the answer is about -/
  invoked : Multiset (ℕ × Option ℕ)
  /-- history: the responses that `peer_task` processed -/
  processed : Multiset (ℕ × ℕ)
  /-- history: what was written -/
  written : List Line

/-- The connection is up, and nothing was sent. -/
def Endpoint.init : Endpoint :=
  ⟨true, 0, ∅, [], .waiting, .reading, [], [], 0, 0, 0, []⟩

inductive Event
  /-- a message without an answer's number is put into the queue -/
  | sendRequest
  | sendPing
  | announce (leader : String)
  /-- `send_message_task`, in this order; it writes or drains -/
  | take
  | number
  | check
  | write (line : Line)
  | writeError
  | drain
  /-- the read loop of `peer_task` -/
  | receive (line : Line)
  | disconnect
  | dispatch
  | pong
  /-- a spawned task has its answer -/
  | answer (i : ℕ)
  /-- a timeout task, in this order -/
  | fail
  | notify (i : ℕ)
  | drainFailed (i : ℕ)
  /-- `main_task` could not connect -/
  | unreachable
deriving DecidableEq

namespace Endpoint

/-- `sender.send` goes on as soon as there is room. -/
def send (E : Endpoint) (message : MessageToSend) : Option Endpoint :=
  if E.queue.length < queueCapacity then some { E with queue := E.queue ++ [message] } else none

/-- The critical section of `send_message_task`. -/
def register (E : Endpoint) (message : MessageToSend) : Endpoint :=
  let sequenceNum := if message.isResponse then E.sequenceNum else E.sequenceNum + 1
  { E with
    sequenceNum
    seqToCallback := match message.callback with
      | some callback => E.seqToCallback.insert sequenceNum callback
      | none => E.seqToCallback
    sendTask := .registered (message.line sequenceNum) }

/-- The callbacks that wait for a response. -/
def waitingCallbacks (E : Endpoint) : Multiset ℕ := E.seqToCallback.entries.map Sigma.snd

/-- `seq_to_callback.drain()`, each callback invoked with `None`. -/
def drained (E : Endpoint) : Endpoint :=
  { E with
    seqToCallback := ∅
    invoked := E.waitingCallbacks.map (fun callback => (callback, none)) + E.invoked }

/-- The response under `seqNum` is handed to the callback that waits for it, if there is one. -/
def respond (E : Endpoint) (seqNum about : ℕ) : Endpoint :=
  { E with
    readLoop := .reading
    seqToCallback := E.seqToCallback.erase seqNum
    invoked := match E.seqToCallback.lookup seqNum with
      | some callback => (callback, some about) ::ₘ E.invoked
      | none => E.invoked
    processed := (seqNum, about) ::ₘ E.processed }

/-- What `peer_task` does with a line. -/
def dispatch (E : Endpoint) : Line → Endpoint
  | .pong q c | .response q c => E.respond q c
  | .ping q c =>
    if E.queue.length < queueCapacity then
      { E with queue := E.queue ++ [.pong q c], readLoop := .reading }
    else { E with readLoop := .ponging q c }
  | .leaderAnnouncement _ _ => { E with readLoop := .reading }
  | .request q c => { E with readLoop := .reading, answering := E.answering ++ [(q, c)] }

def step (E : Endpoint) : Event → Option Endpoint
  | .sendRequest => ({ E with callbacks := E.callbacks + 1 } : Endpoint).send (.request E.callbacks)
  | .sendPing => ({ E with callbacks := E.callbacks + 1 } : Endpoint).send (.ping E.callbacks)
  | .announce leader => E.send (.leaderAnnouncement leader)
  | .take => match E.sendTask, E.queue with
    | .waiting, message :: queue => some { E with queue, sendTask := .taken message }
    | _, _ => none
  | .number => match E.sendTask with
    | .taken message => some (E.register message)
    | _ => none
  | .check => match E.sendTask with
    | .registered line =>
      some { E with sendTask := if E.isAlive then .writing line else .draining }
    | _ => none
  | .write line =>
    if E.sendTask = .writing line then
      some { E with sendTask := .waiting, written := E.written ++ [line] }
    else none
  | .writeError => match E.sendTask with
    | .writing _ => some { E with sendTask := .waiting }
    | _ => none
  | .drain =>
    if E.sendTask = .draining then some { E.drained with sendTask := .waiting } else none
  | .receive line =>
    if E.readLoop = .reading then some { E with readLoop := .dispatching line } else none
  | .disconnect => if E.readLoop = .reading then some { E with readLoop := .ended } else none
  | .dispatch => match E.readLoop with
    | .dispatching line => some (E.dispatch line)
    | _ => none
  | .pong => match E.readLoop with
    | .ponging q c => ({ E with readLoop := .reading } : Endpoint).send (.pong q c)
    | _ => none
  | .answer i => do
    let (q, c) ← E.answering[i]?
    ({ E with answering := E.answering.eraseIdx i } : Endpoint).send (.response q c)
  | .fail => some { E with isAlive := false, handlers := E.handlers ++ [.marked] }
  | .notify i =>
    if E.handlers[i]? = some .marked then some { E with handlers := E.handlers.set i .notified }
    else none
  | .drainFailed i =>
    if E.handlers[i]? = some .notified then
      some { E.drained with handlers := E.handlers.set i .finished }
    else none
  | .unreachable => some { E with isAlive := false }

end Endpoint

/-! ## Both ends -/

inductive Side
  | left | right
deriving DecidableEq

def Side.other : Side → Side
  | .left => .right
  | .right => .left

@[ext] structure Link where
  side : Side → Endpoint
  /-- what a side has written and the other has not read -/
  wire : Side → List Line

def Link.init : Link := ⟨fun _ => .init, fun _ => []⟩

def Link.setSide (l : Link) (s : Side) (E : Endpoint) : Link :=
  { l with side := Function.update l.side s E }

def Link.setWire (l : Link) (s : Side) (lines : List Line) : Link :=
  { l with wire := Function.update l.wire s lines }

/-- A step of side `s`, with at most `capacity` lines under way in each direction. -/
def Link.step (capacity : ℕ) (l : Link) (x : Side × Event) : Option Link := do
  let (s, e) := x
  let l' := l.setSide s (← (l.side s).step e)
  match e with
  | .write line =>
    if (l.wire s).length < capacity then some (l'.setWire s (l.wire s ++ [line])) else none
  | .receive line => match l.wire s.other with
    | first :: rest => if first = line then some (l'.setWire s.other rest) else none
    | [] => none
  | _ => some l'

/-! ## Runs -/

/-- The events lead one end from its start to `E`, whatever lines it is sent. -/
abbrev Reaches (es : List Event) (E : Endpoint) : Prop :=
  Run.Exec Endpoint.step (fun _ _ => True) .init es E

/-- The events lead the two ends to `l`, and each of them is allowed. -/
abbrev LinkReaches (capacity : ℕ) (allowed : Link → Side × Event → Bool) (es : List (Side × Event))
    (l : Link) : Prop :=
  Run.Exec (Link.step capacity) (fun l x => allowed l x = true) .init es l

def anyEvent (_ : Link) (_ : Side × Event) : Bool := true

def Endpoint.outcome (es : List Event) : Option Endpoint :=
  Run.run Endpoint.step (fun _ _ => True) .init es

def outcome (capacity : ℕ) (allowed : Link → Side × Event → Bool) (es : List (Side × Event)) :
    Option Link :=
  Run.run (Link.step capacity) (fun l x => allowed l x = true) .init es

/-- `send_message_task` sends the first message of the queue. -/
def sends (line : Line) : List Event := [.take, .number, .check, .write line]

def Side.does (s : Side) (es : List Event) : List (Side × Event) := es.map (Prod.mk s)

end MiniDiscord.Peer
