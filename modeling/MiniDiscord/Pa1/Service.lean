import MiniDiscord.Tasks
import MiniDiscord.Pa1.HttpHandlers
import MiniDiscord.Pa1.Linearizable

/-!
# The whole server

`main.rs`: any number of HTTP requests and TCP connections over one store. A request, a line and the
end of a connection are each a task, and the sections of all tasks are interleaved. A connection
handles its lines one after the other, and writes the response of one before it reads the next.
-/

namespace MiniDiscord.Pa1

open Text (startsWith)

/-! ## Tasks -/

inductive Task
  | request (req : HttpRequest)
  /-- a line of a connection, and who is logged in there -/
  | line (user : Option String) (line : List Char)
  /-- `handle_unexpected_close` -/
  | close (user : Option String) (order : HashOrder)

inductive Outcome
  | response (result : HttpResult)
  | line (op : SocketOperation) (user : Option String)
  | closed
deriving DecidableEq

def Task.start : Task → Op Outcome
  | .request req => .response <$> req.start
  | .line user text => (fun result => .line result.1 result.2) <$> processLine user text
  | .close none _ => return .closed
  | .close (some username) order => (fun () => .closed) <$> leaveAllChannels username order

abbrev Tasks : Type := Pool Section Section.Answer Task AppState Outcome

/-! ## Connections -/

inductive SessionPhase
  | reading
  /-- The line is the `n`th task. -/
  | handling (n : ℕ)
  | ended
deriving DecidableEq

structure Session where
  user : Option String
  phase : SessionPhase
deriving DecidableEq

structure Service where
  tasks : Tasks
  sessions : List Session

def Service.init : Service := ⟨⟨.new, false, []⟩, []⟩

inductive ServiceEvent
  | request (req : HttpRequest)
  | connect
  | line (s : ℕ) (line : List Char)
  /-- A read of length 0 or an error of a read. -/
  | lost (s : ℕ) (order : HashOrder)
  /-- The response of the line is written, or the connection panics over it. -/
  | respond (s : ℕ) (succeeds : Bool)
  /-- the next section of the `n`th task -/
  | turn (n : ℕ)

namespace Service

def begin (service : Service) (task : Task) (sessions : List Session) : Service :=
  ⟨{ service.tasks with calls := service.tasks.calls ++ [(task, task.start)] }, sessions⟩

/-- Who is logged in after the line, and how the connection goes on. -/
def answer (session : Session) (succeeds : Bool) : Op Outcome → Option Session
  | .done (.line (.send _) user) => some ⟨user, if succeeds then .reading else .ended⟩
  | .done (.line .close user) => some ⟨user, .ended⟩
  | .panicked => some ⟨session.user, .ended⟩
  | _ => none

def step (service : Service) : ServiceEvent → Option Service
  | .request req => some (service.begin (.request req) service.sessions)
  | .connect => some { service with sessions := service.sessions ++ [⟨none, .reading⟩] }
  | .line s line => match service.sessions[s]? with
    | some ⟨user, .reading⟩ => some (service.begin (.line user line)
        (service.sessions.set s ⟨user, .handling service.tasks.calls.length⟩))
    | _ => none
  | .lost s order => match service.sessions[s]? with
    | some ⟨user, .reading⟩ =>
      some (service.begin (.close user order) (service.sessions.set s ⟨user, .ended⟩))
    | _ => none
  | .respond s succeeds => do
    let session ← service.sessions[s]?
    let .handling n := session.phase | none
    let (_, prog) ← service.tasks.calls[n]?
    let session ← answer session succeeds prog
    some { service with sessions := service.sessions.set s session }
  | .turn n => do
    let tasks ← service.tasks.step Section.exec Task.start (.step n)
    some { service with tasks }

end Service

variable {α β : Type} {u c : String} {state state' : AppState} {user user' : Option String}
  {line : List Char} {service service' : Service} {e : ServiceEvent} {k : Call}

/-! ## Each task is one call at most -/

/-- A call is a function of `stateops.rs` with its answer wrapped. -/
structure Call.Wraps (k : Call) (t : Op α) (wrap : α → StateResult Value)
    (unwrap : StateResult Value → α) : Prop where
  started : k.start = wrap <$> t
  inverse : ∀ a, unwrap (wrap a) = a

theorem Call.Wraps.makes {t : Op α} {wrap : α → StateResult Value} {unwrap : StateResult Value → α}
    (h : k.Wraps t wrap unwrap) (f : α → β) : (f <$> t).Makes Call.start := by
  refine .call k (fun r => f (unwrap r)) ?_
  rw [h.started, Functor.map_map]
  exact congrArg (· <$> t) (funext fun a => (congrArg f (h.inverse a)).symm)

def Value.toFound : Value → Bool
  | .found exists? => exists?
  | _ => false

def Value.toNames : Value → Multiset String
  | .names all => all
  | _ => 0

def Value.toMessageId : Value → ℕ
  | .messageId id => id
  | _ => 0

def Value.toMessages : Value → List Message
  | .messages all => all
  | _ => []

/-- `get_users` and the like do not fail. -/
theorem wraps_ok {t : Op α} {embed : α → Value} (project : Value → α) (default : α)
    (started : k.start = (fun a => .ok (embed a)) <$> t) (inverse : ∀ a, project (embed a) = a) :
    k.Wraps t (fun a => .ok (embed a)) fun
      | .ok v => project v
      | .error _ => default :=
  ⟨started, inverse⟩

theorem wraps_result {t : Op (StateResult α)} {embed : α → Value} (project : Value → α)
    (started : k.start = (·.map embed) <$> t) (inverse : ∀ a, project (embed a) = a) :
    k.Wraps t (·.map embed) (·.map project) := by
  refine ⟨started, fun r => ?_⟩
  cases r with
  | ok a => exact congrArg Except.ok (inverse a)
  | error e => rfl

theorem wraps_unit {t : Op (StateResult Unit)} (started : k.start = (·.map fun _ => .unit) <$> t) :
    k.Wraps t (·.map fun _ => .unit) (·.map fun _ => ()) :=
  wraps_result (fun _ => ()) started fun _ => rfl

theorem wraps_names {t : Op (StateResult (Multiset String))}
    (started : k.start = (·.map .names) <$> t) : k.Wraps t (·.map .names) (·.map Value.toNames) :=
  wraps_result Value.toNames started fun _ => rfl

theorem wraps_messages {t : Op (StateResult (List Message))}
    (started : k.start = (·.map .messages) <$> t) :
    k.Wraps t (·.map .messages) (·.map Value.toMessages) :=
  wraps_result Value.toMessages started fun _ => rfl

theorem wraps_messageId {t : Op (StateResult ℕ)} (started : k.start = (·.map .messageId) <$> t) :
    k.Wraps t (·.map .messageId) (·.map Value.toMessageId) :=
  wraps_result Value.toMessageId started fun _ => rfl

theorem makes_choose {req : HttpRequest} {handlers : List (Method × Op HttpResult)}
    (h : ∀ m handler, (m, handler) ∈ handlers → handler.Makes Call.start) :
    (req.choose methodNotAllowed handlers).Makes Call.start := by
  rcases req.choose_cases methodNotAllowed handlers with heq | ⟨method, hmem⟩
  · rw [heq]
    exact .nothing rfl
  · exact h method _ hmem

theorem makes_postUser (body : Option String) : (postUser body).Makes Call.start := by
  cases body with
  | none => exact .nothing rfl
  | some u => exact (wraps_unit (k := .createUser u) rfl).makes _

theorem makes_joinChanel (header : Option (List UInt8)) :
    (joinChanel header c).Makes Call.start := by
  unfold joinChanel
  cases existingUser header with
  | error => exact .nothing rfl
  | ok u => exact (wraps_unit (k := .joinChannel u c) rfl).makes _

theorem makes_httpSendMessage (header : Option (List UInt8)) (body : Option String) :
    (httpSendMessage header c body).Makes Call.start := by
  unfold httpSendMessage
  cases existingUser header with
  | error => exact .nothing rfl
  | ok u =>
    cases body with
    | none => exact .nothing rfl
    | some text => exact (wraps_messageId (k := .sendMessage c u text) rfl).makes _

theorem makes_httpGetMessages (params : String → Option String) :
    (httpGetMessages c params).Makes Call.start := by
  unfold httpGetMessages
  cases queryNumber invalidLimit (params "limit") with
  | error => exact .nothing rfl
  | ok limit =>
    cases queryNumber invalidOffset (params "offset") with
    | error => exact .nothing rfl
    | ok offset => exact (wraps_messages (k := .getMessages c limit offset) rfl).makes _

theorem makes_request (req : HttpRequest) : req.start.Makes Call.start := by
  have hnotFound : notFound.Makes Call.start := .nothing rfl
  have hgetUsers : httpGetUsers.Makes Call.start :=
    (wraps_ok (k := .getUsers) Value.toNames 0 rfl fun _ => rfl).makes _
  have hgetChannels : httpGetChannels.Makes Call.start :=
    (wraps_ok (k := .getChannels) Value.toNames 0 rfl fun _ => rfl).makes _
  have hlist : ∀ c, (httpListChannelUsers c).Makes Call.start := fun c =>
    (wraps_names (k := .listChannelUsers c) rfl).makes _
  have hleave : ∀ c u, (httpLeaveChannel c u).Makes Call.start := fun c u =>
    (wraps_unit (k := .leaveChannel u c) rfl).makes _
  unfold HttpRequest.start
  split
  · exact makes_choose (by simpa using .nothing rfl)
  · refine makes_choose fun m handler hmem => ?_
    rcases List.mem_cons.mp hmem with h | h
    · cases h
      exact makes_postUser _
    · cases List.mem_singleton.mp h
      exact hgetUsers
  · exact makes_choose (by simpa using hgetChannels)
  · split_ifs
    · exact makes_choose (by simpa using makes_joinChanel _)
    · exact makes_choose (by simpa using hlist _)
    · refine makes_choose fun m handler hmem => ?_
      rcases List.mem_cons.mp hmem with h | h
      · cases h
        exact makes_httpSendMessage _ _
      · cases List.mem_singleton.mp h
        exact makes_httpGetMessages _
    · exact hnotFound
  · split_ifs
    · exact hnotFound
    · exact makes_choose (by simpa using hleave _ _)
  · exact hnotFound

/-! ## What a line tells its user -/

/-- `User does not exist` -/
def UnknownUser : StateResult α → Prop
  | .ok _ => False
  | .error e => e = unknownUser ∨ e = unknownUserBadRequest

theorem not_unknownUser {e : StateError} (h : e ≠ unknownUser ∧ e ≠ unknownUserBadRequest) :
    ¬ UnknownUser (.error e : StateResult α) := by
  simpa [UnknownUser] using h

/-- Who acts in the call. -/
def Call.actor : Call → Option String
  | .joinChannel u _ | .leaveChannel u _ | .sendMessage _ u _ => some u
  | _ => none

/-- What the answer of a registered actor says. -/
structure Call.Learns (k : Call) (r : StateResult Value) (state : AppState) : Prop where
  found : ∀ u, k = .userExists u → r = .ok (.found true) → u ∈ state.users
  known : ¬ UnknownUser r

/-- Who is logged in after the line is registered, and who was so before it is not told that there
is no such user. -/
structure Told (user : Option String) (x : SocketOperation × Option String) (state : AppState) :
    Prop where
  registered : ∀ u ∈ x.2, u ∈ state.users
  known : user.isSome = true → ∀ r, x.1 = .send r → ¬ UnknownUser r

/-- A line is decided at once or is one call, of the user who is logged in if it has an actor. -/
inductive LineMakes (user : Option String) (t : Op (SocketOperation × Option String)) : Prop
  | nothing (ends : t.isOver = true)
      (told : ∀ x, t.result = some x → ∀ state, (∀ u ∈ user, u ∈ state.users) → Told user x state)
  | call {α : Type} (k : Call) (f : α → SocketOperation × Option String) {go : Op α}
      {wrap : α → StateResult Value} {unwrap : StateResult Value → α}
      (wraps : k.Wraps go wrap unwrap) (made : t = f <$> go) (command : k.isCommand = true)
      (actor : ∀ u ∈ k.actor, u ∈ user)
      (told : ∀ a state, (∀ u ∈ user, u ∈ state.users) → k.Learns (wrap a) state →
        Told user (f a) state)

theorem LineMakes.makes {t : Op (SocketOperation × Option String)} (h : LineMakes user t) :
    t.Makes Call.start := by
  cases h with
  | nothing ends => exact .nothing ends
  | call k f wraps made =>
    rw [made]
    exact wraps.makes f

/-- A response that is no `User does not exist`, with the same user. -/
theorem told_send {r : Response} (registered : ∀ u ∈ user, u ∈ state.users)
    (known : ¬ UnknownUser r) : Told user (.send r, user) state where
  registered := registered
  known _ r' hr := by
    cases hr
    exact known

theorem makes_error {e : StateError} (known : e ≠ unknownUser ∧ e ≠ unknownUserBadRequest) :
    LineMakes user ((SocketOperation.send ·, user) <$> (.done (.error e) : Op Response)) := by
  refine .nothing rfl fun x hx state registered => ?_
  cases hx
  exact told_send registered (not_unknownUser known)

theorem known_map {r : StateResult α} {embed : α → Value} {present : α → Reply}
    (known : ¬ UnknownUser (r.map embed)) : ¬ UnknownUser (r.map present) := by
  cases r with
  | ok => exact id
  | error e => exact known

/-- The handlers that call a function and present its result. -/
theorem makes_present {go : Op (StateResult α)} {embed : α → Value} {project : Value → α}
    (wraps : k.Wraps go (·.map embed) (·.map project)) (command : k.isCommand = true)
    (actor : ∀ u ∈ k.actor, u ∈ user) (present : α → Reply) :
    LineMakes user ((SocketOperation.send ·, user) <$> do
      let result ← go
      return result.map present) := by
  refine .call k (fun r => (.send (r.map present), user)) wraps ?_ command actor ?_
  · exact Functor.map_map _ _ _
  · intro r state registered learns
    exact told_send registered (known_map learns.known)

theorem makes_handleRegister :
    LineMakes user ((SocketOperation.send ·, user) <$> handleRegister line) := by
  unfold handleRegister
  split
  · exact makes_present (wraps_unit (k := .createUser _) rfl) rfl (by simp [Call.actor]) _
  · exact makes_error (by decide)

theorem makes_handleJoin :
    LineMakes user ((SocketOperation.send ·, user) <$> handleJoin user line) := by
  unfold handleJoin
  split
  · cases user with
    | none => exact makes_error (by decide)
    | some username =>
      exact makes_present (wraps_unit (k := .joinChannel username _) rfl) rfl
        (by simp [Call.actor]) _
  · exact makes_error (by decide)

theorem makes_handleLeave :
    LineMakes user ((SocketOperation.send ·, user) <$> handleLeave user line) := by
  unfold handleLeave
  split
  · cases user with
    | none => exact makes_error (by decide)
    | some username =>
      exact makes_present (wraps_unit (k := .leaveChannel username _) rfl) rfl
        (by simp [Call.actor]) _
  · exact makes_error (by decide)

theorem makes_handleListChannels :
    LineMakes user ((SocketOperation.send ·, user) <$> handleListChannels line) := by
  unfold handleListChannels
  split_ifs
  · exact makes_error (by decide)
  · refine .call .getChannels (fun names => (.send (.ok (.listChannels names)), user))
      (wraps_ok Value.toNames 0 rfl fun _ => rfl) rfl rfl (by simp [Call.actor]) ?_
    exact fun _ _ registered _ => told_send registered id

theorem makes_handleListUsers :
    LineMakes user ((SocketOperation.send ·, user) <$> handleListUsers line) := by
  unfold handleListUsers
  split
  · exact makes_present (wraps_names (k := .listChannelUsers _) rfl) rfl (by simp [Call.actor]) _
  · exact makes_error (by decide)

theorem makes_panicked : LineMakes user .panicked := .nothing rfl fun _ hx => by cases hx

theorem makes_handleSend :
    LineMakes user ((SocketOperation.send ·, user) <$> handleSend user line) := by
  unfold handleSend
  split
  · exact makes_panicked
  · split
    · exact makes_error (by decide)
    · cases user with
      | none => exact makes_error (by decide)
      | some username =>
        exact makes_present (wraps_messageId (k := .sendMessage _ username _) rfl) rfl
          (by simp [Call.actor]) _

theorem makes_handleHistory :
    LineMakes user ((SocketOperation.send ·, user) <$> handleHistory line) := by
  have hread : ∀ channel limit, LineMakes user ((SocketOperation.send ·, user) <$> do
      let messages ← getMessages channel limit none
      return messages.map Reply.history) := fun channel limit =>
    makes_present (wraps_messages (k := .getMessages channel limit none) rfl) rfl
      (by simp [Call.actor]) _
  unfold handleHistory
  split
  · exact makes_panicked
  · dsimp only
    split
    · split
      · exact makes_error (by decide)
      · exact hread _ _
    · exact hread _ _

theorem makes_handleLogout : LineMakes user
    ((fun result => (.send result.1, result.2)) <$> handleLogout user line) := by
  unfold handleLogout
  split_ifs
  · exact makes_error (by decide)
  · cases user with
    | none => exact makes_error (by decide)
    | some username =>
      refine .nothing rfl fun x hx state _ => ?_
      cases hx
      exact ⟨by simp, fun _ r hr => by cases hr; exact id⟩

theorem makes_handleLogin : LineMakes user
    ((fun result => (.send result.1, result.2)) <$> handleLogin user line) := by
  unfold handleLogin
  cases user with
  | some username => exact makes_error (by decide)
  | none =>
    rw [if_neg (by simp)]
    split
    · rename_i _ username _
      refine .call (.userExists (String.ofList username)) (fun found => if !found then
          (.send (.error unknownUserBadRequest), none)
        else (.send (.ok (.login (String.ofList username))), some (String.ofList username)))
        (wraps_ok Value.toFound false rfl fun _ => rfl) ?_ rfl (by simp [Call.actor]) ?_
      · change Program.locked _ _ = Program.locked _ _
        congr 1
        funext found
        cases found <;> rfl
      · intro found state _ learns
        cases found with
        | false => exact ⟨by simp, nofun⟩
        | true => exact ⟨by simpa using learns.found _ rfl rfl, nofun⟩
    · exact makes_error (by decide)

theorem makes_ite {P : Prop} [Decidable P] {t t' : Op (SocketOperation × Option String)}
    (yes : LineMakes user t) (no : LineMakes user t') : LineMakes user (if P then t else t') := by
  split_ifs
  · exact yes
  · exact no

theorem makes_line (user : Option String) (line : List Char) :
    LineMakes user (processLine user line) := by
  have hquit : LineMakes user (return (.close, user)) := by
    refine .nothing rfl fun x hx state registered => ?_
    cases hx
    exact ⟨registered, nofun⟩
  exact makes_ite makes_handleRegister <| makes_ite makes_handleLogin <|
    makes_ite makes_handleLogout <| makes_ite makes_handleJoin <| makes_ite makes_handleLeave <|
    makes_ite makes_handleListChannels <| makes_ite makes_handleListUsers <|
    makes_ite makes_handleSend <| makes_ite makes_handleHistory <| makes_ite hquit <|
    makes_error (by decide)

theorem makes_task (task : Task) : task.start.Makes Call.start := by
  cases task with
  | request req => exact (makes_request req).map _
  | line user text => exact (makes_line user text).makes.map _
  | close user order =>
    cases user with
    | none => exact .nothing rfl
    | some u =>
      refine .call (.leaveAllChannels u order) (fun _ => .closed) ?_
      rw [Call.start, Functor.map_map]
      rfl

/-! ## Registered actors -/

abbrev anyTime : Protocol Section AppState := protocol AppState.Keyed fun _ _ => True

theorem safe_known {next : Bool → Op α} {post : α → AppState → Prop} (hu : u ∈ state.users)
    (yes : ∀ state', state.Grows state' → (next true).Safe Section.exec anyTime post state') :
    Program.Safe Section.exec anyTime post (.locked (.userExists u) next) state := by
  refine safe_locked keyed_preserved (fun _ _ => trivial) fun a state₁ state' grows _ hexec _ => ?_
  cases hexec
  rw [decide_eq_true (AppState.Grows.users grows hu)]
  exact yes state₁ grows

/-- Who is registered is not told otherwise. -/
abbrev SafelyKnown (t : Op (StateResult α)) (state : AppState) : Prop :=
  t.Safe Section.exec anyTime (fun r _ => ¬ UnknownUser r) state

theorem known_done {r : StateResult α} (known : ¬ UnknownUser r) :
    SafelyKnown (.done r) state := safe_done fun _ _ => known

/-- The checks of a channel's name and of its existence. -/
theorem known_checked {go : Op (StateResult α)}
    (goes : ∀ state', state.Grows state' → (state'.channel c).isSome = true →
      SafelyKnown go state') :
    SafelyKnown (if (!channelNameIsValid c) = true then .done (.error invalidChannelName)
      else .locked (.channelExists c) fun found =>
        if (!found) = true then .done (.error unknownChannel) else go) state := by
  split_ifs
  · exact known_done (not_unknownUser (by decide))
  · exact safe_channelExists keyed_preserved (fun state' grows _ hc => goes state' grows hc)
      fun _ => known_done (not_unknownUser (by decide))

theorem known_createUser : SafelyKnown (createUser u) state := by
  refine safe_userExists keyed_preserved
    (fun _ _ _ _ => known_done (not_unknownUser (by decide))) fun state' => ?_
  refine safe_locked keyed_preserved (fun _ _ => trivial) fun _ _ _ _ _ _ _ => ?_
  exact known_done id

theorem known_joinChannel (hu : u ∈ state.users) : SafelyKnown (joinChannel u c) state := by
  refine safe_known hu fun state' grows => ?_
  change SafelyKnown (if (!channelNameIsValid c) = true then .done _ else _) _
  split_ifs
  · exact known_done (not_unknownUser (by decide))
  · refine safe_locked keyed_preserved
      (fun _ grows' => AppState.Grows.users grows' (grows.users hu)) fun r _ _ _ _ hexec _ => ?_
    refine known_done ?_
    simp only [Section.exec, joinLocked, Option.bind_eq_bind] at hexec
    split_ifs at hexec
    · cases hexec
      exact not_unknownUser (by decide)
    · obtain ⟨_, -, h⟩ := Option.bind_eq_some_iff.mp hexec
      cases h
      exact id

theorem known_leaveChannel (hu : u ∈ state.users) : SafelyKnown (leaveChannel u c) state := by
  refine known_checked fun state₁ grows₁ hc => ?_
  refine safe_known (grows₁.users hu) fun state₂ grows₂ => ?_
  refine safe_locked keyed_preserved (fun _ grows₃ => ⟨AppState.Grows.users grows₃
    (grows₂.users (grows₁.users hu)), AppState.Grows.channels grows₃ c (grows₂.channels c hc)⟩) ?_
  intro r _ _ _ _ hexec _
  refine known_done ?_
  rcases leave_cases hexec with ⟨-, rfl, -⟩ | ⟨-, rfl⟩
  · exact id
  · exact not_unknownUser (by decide)

theorem known_sendMessage {text : String} (hu : u ∈ state.users) :
    SafelyKnown (sendMessage c u text) state := by
  refine known_checked fun state₁ grows₁ hc => ?_
  refine safe_known (grows₁.users hu) fun state₂ grows₂ => ?_
  refine safe_locked keyed_preserved
    (fun _ grows₃ => AppState.Grows.channels grows₃ c (grows₂.channels c hc)) ?_
  intro r _ _ _ _ hexec _
  refine known_done ?_
  rcases send_change hexec with ⟨rfl, -⟩ | ⟨_, -, -, rfl, -⟩
  · exact not_unknownUser (by decide)
  · exact id

theorem learns_map {t : Op (StateResult α)} {embed : α → Value} (known : SafelyKnown t state)
    (other : ∀ u, k ≠ .userExists u) :
    ((·.map embed) <$> t).Safe Section.exec anyTime k.Learns state :=
  known.map fun r _ hr => ⟨fun u hk => absurd hk (other u), by cases r <;> exact hr⟩

theorem learns_ok {i : Section} {embed : i.Answer → Value} (needs : ∀ state, i.Needs state)
    (other : ∀ u, k ≠ .userExists u) :
    ((fun a => .ok (embed a)) <$> withLock i).Safe Section.exec anyTime k.Learns state :=
  (safe_lock keyed_preserved fun _ _ => needs _).map fun _ _ _ =>
    ⟨fun u hk => absurd hk (other u), id⟩

theorem learns_start (command : k.isCommand = true) (registered : ∀ u ∈ k.actor, u ∈ state.users) :
    k.start.Safe Section.exec anyTime k.Learns state := by
  cases k with
  | leaveAllChannels => cases command
  | getUsers => exact learns_ok (i := .getUsers) (fun _ => trivial) nofun
  | getChannels => exact learns_ok (i := .getChannels) (fun _ => trivial) nofun
  | userExists u =>
    refine safe_locked keyed_preserved (fun _ _ => trivial) fun found state₁ _ _ _ hexec _ => ?_
    cases hexec
    refine safe_done fun state₂ grows => ⟨fun v hk hfound => ?_, id⟩
    cases hk
    exact grows.users (by simpa using hfound)
  | createUser u => exact learns_map known_createUser nofun
  | joinChannel u c => exact learns_map (known_joinChannel (registered u rfl)) nofun
  | leaveChannel u c => exact learns_map (known_leaveChannel (registered u rfl)) nofun
  | sendMessage c u text => exact learns_map (known_sendMessage (registered u rfl)) nofun
  | listChannelUsers c =>
    refine learns_map (known_checked fun state' _ hc => ?_) nofun
    exact (safe_lock (i := .listUsers c) keyed_preserved fun _ grows =>
      AppState.Grows.channels grows c hc).map fun _ _ _ => id
  | getMessages c limit offset =>
    refine learns_map (known_checked fun state' _ hc => ?_) nofun
    exact (safe_lock (i := .messages c limit offset) keyed_preserved fun _ grows =>
      AppState.Grows.channels grows c hc).map fun _ _ _ => id

theorem LineMakes.safe {t : Op (SocketOperation × Option String)} (h : LineMakes user t)
    (registered : ∀ u ∈ user, u ∈ state.users) : t.Safe Section.exec anyTime (Told user) state := by
  cases h with
  | nothing ends told =>
    cases t with
    | done x => exact safe_done fun state' grows => told x rfl state' fun u hu =>
        AppState.Grows.users grows (registered u hu)
    | panicked => trivial
    | locked => cases ends
  | call k f wraps made command actor told =>
    have hlearns := learns_start command fun u hu => registered u (actor u hu)
    rw [wraps.started] at hlearns
    have hstays := hlearns.of_map.stays (P := fun state => ∀ u ∈ user, u ∈ state.users) registered
      fun _ _ grows hP u hu => AppState.Grows.users grows (hP u hu)
    rw [made]
    exact hstays.map fun a state' ⟨learns, still⟩ => told a state' still learns

/-- What holds of the outcome of a task from then on. -/
def Task.Post : Task → Outcome → AppState → Prop
  | .line user _, .line op user', state => Told user (op, user') state
  | _, _, _ => True

theorem safe_task (task : Task)
    (registered : ∀ user text, task = .line user text → ∀ u ∈ user, u ∈ state.users) :
    task.start.Safe Section.exec anyTime task.Post state := by
  cases task with
  | line user text =>
    exact ((makes_line user text).safe (registered user text rfl)).map fun x _ told => told
  | request req =>
    cases makes_request req with
    | nothing ends =>
      cases hreq : req.start with
      | done | panicked => simp [Task.start, hreq, Program.Safe, Task.Post]
      | locked i next =>
        rw [hreq] at ends
        cases ends
    | call k present made =>
      rw [Task.start, made]
      have hcall : (present <$> k.start).Safe Section.exec anyTime (fun _ _ => True) state :=
        (safe_start keyed_preserved k state).map fun _ _ _ => trivial
      exact hcall.map fun _ _ _ => trivial
  | close user order =>
    cases user with
    | none => exact safe_done fun _ _ => trivial
    | some u =>
      exact (safe_leaveAllChannels keyed_preserved order state).map fun _ _ _ => trivial

/-! ## Every step of the server -/

namespace Service

/-- What a step does, and when it can. -/
inductive Step (service : Service) : ServiceEvent → Service → Prop
  | requested (req : HttpRequest) :
      Step service (.request req) (service.begin (.request req) service.sessions)
  | connected : Step service .connect
      { service with sessions := service.sessions ++ [⟨none, .reading⟩] }
  | read (s : ℕ) (line : List Char) (user : Option String)
      (session : service.sessions[s]? = some ⟨user, .reading⟩) :
      Step service (.line s line) (service.begin (.line user line)
        (service.sessions.set s ⟨user, .handling service.tasks.calls.length⟩))
  | closed (s : ℕ) (order : HashOrder) (user : Option String)
      (session : service.sessions[s]? = some ⟨user, .reading⟩) :
      Step service (.lost s order)
        (service.begin (.close user order) (service.sessions.set s ⟨user, .ended⟩))
  | responded (s : ℕ) (succeeds : Bool) (n : ℕ) (user : Option String) (task : Task)
      (prog : Op Outcome) (after : Session)
      (session : service.sessions[s]? = some ⟨user, .handling n⟩)
      (found : service.tasks.calls[n]? = some (task, prog))
      (answered : answer ⟨user, .handling n⟩ succeeds prog = some after) :
      Step service (.respond s succeeds)
        { service with sessions := service.sessions.set s after }
  | turned (n : ℕ) (tasks : Tasks)
      (taken : service.tasks.step Section.exec Task.start (.step n) = some tasks) :
      Step service (.turn n) { service with tasks := tasks }

theorem step_cases (h : service.step e = some service') : service.Step e service' := by
  cases e with
  | request req =>
    cases h
    exact .requested req
  | connect =>
    cases h
    exact .connected
  | line s line =>
    simp only [step] at h
    split at h <;> cases h
    exact .read s line _ ‹_›
  | lost s order =>
    simp only [step] at h
    split at h <;> cases h
    exact .closed s order _ ‹_›
  | respond s succeeds =>
    simp only [step, Option.bind_eq_bind, Option.bind_eq_some_iff] at h
    obtain ⟨⟨user, phase⟩, session, h⟩ := h
    split at h
    · rename_i n hphase
      cases hphase
      obtain ⟨⟨task, prog⟩, found, h⟩ := Option.bind_eq_some_iff.mp h
      obtain ⟨after, answered, h⟩ := Option.bind_eq_some_iff.mp h
      cases h
      exact .responded s succeeds n user task prog after session found answered
    · cases h
  | turn n =>
    obtain ⟨tasks, taken, h⟩ := Option.bind_eq_some_iff.mp h
    cases h
    exact .turned n tasks taken

/-- The users of the connections are registered, and each line is handled as one of them. -/
structure Sane (service : Service) : Prop where
  fine : service.tasks.Fine Section.exec anyTime Task.Post
  registered : ∀ session ∈ service.sessions, ∀ u ∈ session.user, u ∈ service.tasks.store.users
  handling : ∀ session ∈ service.sessions, ∀ n, session.phase = .handling n →
    ∃ text prog, service.tasks.calls[n]? = some (.line session.user text, prog)

theorem sane_init : init.Sane where
  fine := ⟨keyed_init, rfl, by simp [init]⟩
  registered _ h := absurd h List.not_mem_nil
  handling _ h := absurd h List.not_mem_nil

/-- A task begins for a user who is registered, and its connection waits for it or is over. -/
theorem Sane.begin {s : ℕ} {task : Task} {session : Session} (h : service.Sane)
    (user : ∀ user text, task = .line user text → ∀ u ∈ user, u ∈ service.tasks.store.users)
    (registered : ∀ u ∈ session.user, u ∈ service.tasks.store.users)
    (handling : ∀ n, session.phase = .handling n →
      n = service.tasks.calls.length ∧ ∃ text, task = .line session.user text) :
    (service.begin task (service.sessions.set s session)).Sane := by
  have hcalled : service.tasks.step Section.exec Task.start (.call task) =
      some (service.begin task (service.sessions.set s session)).tasks := rfl
  have hfine := Pool.fine_taken h.fine (fun t ht => ?_) (fun _ _ => trivial) hcalled
  · refine ⟨hfine.1, fun session' hsession => ?_, fun session' hsession n hn => ?_⟩
    · rcases List.mem_or_eq_of_mem_set hsession with hsession | rfl
      · exact h.registered session' hsession
      · exact registered
    · rcases List.mem_or_eq_of_mem_set hsession with hsession | rfl
      · obtain ⟨text, prog, hcall⟩ := h.handling session' hsession n hn
        exact ⟨text, prog, List.getElem?_append_left
          (List.getElem?_eq_some_iff.mp hcall).1 ▸ hcall⟩
      · obtain ⟨rfl, text, rfl⟩ := handling n hn
        exact ⟨text, _, List.getElem?_concat_length⟩
  · cases ht
    exact safe_task task user

theorem sane_step (h : service.Sane) (taken : service.step e = some service') : service'.Sane := by
  cases step_cases taken with
  | requested req =>
    have hnobody : (service.begin (.request req) (service.sessions.set service.sessions.length
        ⟨none, .ended⟩)).Sane := h.begin nofun (by simp) nofun
    rwa [List.set_eq_of_length_le (Nat.le_refl _)] at hnobody
  | connected =>
    refine ⟨h.fine, fun session hsession => ?_, fun session hsession => ?_⟩
    all_goals rcases List.mem_append.mp hsession with hsession | hsession
    · exact h.registered session hsession
    · obtain rfl := List.mem_singleton.mp hsession
      exact nofun
    · exact h.handling session hsession
    · obtain rfl := List.mem_singleton.mp hsession
      exact nofun
  | read s line user session =>
    have hregistered := h.registered _ (List.mem_of_getElem? session)
    refine h.begin (fun user' text ht => ?_) hregistered fun n hn => ?_
    · cases ht
      exact hregistered
    · cases hn
      exact ⟨rfl, line, rfl⟩
  | closed s order user session =>
    have hregistered := h.registered _ (List.mem_of_getElem? session)
    exact h.begin nofun hregistered nofun
  | responded s succeeds n user task prog after session found answered =>
    have hregistered := h.registered _ (List.mem_of_getElem? session)
    obtain ⟨text, prog', hcall⟩ := h.handling _ (List.mem_of_getElem? session) n rfl
    rw [found] at hcall
    cases hcall
    have hsafe := h.fine.calls _ (List.mem_of_getElem? found)
    have hafter : (∀ u ∈ after.user, u ∈ service.tasks.store.users) ∧
        ∀ m, after.phase ≠ .handling m := by
      unfold answer at answered
      split at answered <;> cases answered
      · have htold : Told user _ _ := hsafe _ (grows_refl _) h.fine.inv
        exact ⟨htold.registered, by cases succeeds <;> nofun⟩
      · have htold : Told user _ _ := hsafe _ (grows_refl _) h.fine.inv
        exact ⟨htold.registered, nofun⟩
      · exact ⟨hregistered, nofun⟩
    refine ⟨h.fine, fun session' hsession => ?_, fun session' hsession m hm => ?_⟩
    all_goals rcases List.mem_or_eq_of_mem_set hsession with hsession | rfl
    · exact h.registered session' hsession
    · exact hafter.1
    · exact h.handling session' hsession m hm
    · exact absurd hm (hafter.2 m)
  | turned n tasks ran =>
    obtain ⟨hfine, grows⟩ :=
      Pool.fine_taken h.fine (fun t ht => by cases ht) (fun _ _ => trivial) ran
    refine ⟨hfine, fun session hsession u hu => ?_, fun session hsession n hn => ?_⟩
    · exact AppState.Grows.users grows (h.registered session hsession u hu)
    · obtain ⟨text, prog, hcall⟩ := h.handling session hsession n hn
      obtain ⟨prog', hcall'⟩ := Pool.calls_later ran hcall
      exact ⟨text, prog', hcall'⟩

/-! ## The calls of the server -/

/-- The events lead from the new server to `service`. -/
abbrev Reaches (ok : Service → ServiceEvent → Prop) (es : List ServiceEvent) (service : Service) :
    Prop :=
  Run.Exec step ok .init es service

/-- No two registrations of one name overlap. -/
def registersNew (service : Service) : ServiceEvent → Prop
  | .turn n => ∀ i ∈ service.tasks.entering (.step n), i.New service.tasks.store
  | _ => True

instance (service : Service) (e : ServiceEvent) : Decidable (service.registersNew e) := by
  cases e with
  | turn n =>
    exact decidable_of_iff ((service.tasks.entering (.step n)).all fun i =>
      i.New service.tasks.store)
      (by cases h : service.tasks.entering (.step n) <;> simp [registersNew, h])
  | _ => exact inferInstanceAs (Decidable True)

/-- The connections apart, the server is the pool of its tasks. -/
theorem tasks_run {es : List ServiceEvent} (run : Reaches registersNew es service) :
    ∃ es', Run.Exec (Pool.step Section.exec Task.start)
      (fun tasks e => ∀ i ∈ tasks.entering e, i.New tasks.store) init.tasks es' service.tasks := by
  induction run with
  | nil => exact ⟨[], .nil⟩
  | snoc run allowed taken ih =>
    obtain ⟨es', before⟩ := ih
    cases step_cases taken with
    | requested req => exact ⟨_, before.snoc (e := .call (.request req)) nofun rfl⟩
    | read s line user => exact ⟨_, before.snoc (e := .call (.line user line)) nofun rfl⟩
    | closed s order user => exact ⟨_, before.snoc (e := .call (.close user order)) nofun rfl⟩
    | connected | responded => exact ⟨es', before⟩
    | turned n tasks ran => exact ⟨_, before.snoc allowed ran⟩

end Service

/-! ## Results -/

/-- **Who is logged in is registered.** Whatever requests and connections do to the store, and in
whatever order their sections run, the user of a connection is registered for good, so that a line
is never answered to him with `User does not exist`; and no section panics. -/
theorem logged_in_registered {ok : Service → ServiceEvent → Prop} {es : List ServiceEvent}
    (run : Service.Reaches ok es service) :
    (∀ session ∈ service.sessions, ∀ u ∈ session.user, u ∈ service.tasks.store.users) ∧
    (∀ (n : ℕ) u text r user', service.tasks.calls[n]? =
        some (.line (some u) text, .done (.line (.send r) user')) → ¬ UnknownUser r) ∧
    service.tasks.poisoned = false := by
  have hsane : service.Sane := run.invariant Service.sane_init fun _ _ _ h _ taken =>
    Service.sane_step h taken
  refine ⟨hsane.registered, fun n u text r user' hcall => ?_, hsane.fine.healthy⟩
  have htold : Told (some u) (.send r, user') service.tasks.store :=
    hsane.fine.calls _ (List.mem_of_getElem? hcall) _ (grows_refl _) hsane.fine.inv
  exact htold.known rfl r rfl

/-- `alice` registers and joins a channel over HTTP while she joins it on a connection too. -/
def joinsTwice : List ServiceEvent :=
  [.connect,
    .request ⟨.post, ["users"], none, fun _ => none, some (.obj [("username", .str "alice")])⟩,
    .turn 0, .turn 0, .line 0 "LOGIN alice".toList, .turn 1, .respond 0 true,
    .line 0 "JOIN #a\r".toList,
    .request ⟨.post, ["channels", "#a", "members"], some [97, 108, 105, 99, 101], fun _ => none,
      none⟩,
    .turn 2, .turn 3, .turn 3, .turn 2, .respond 0 true]

theorem joinsTwice_reaches : ∃ service, Service.Reaches Service.registersNew joinsTwice service ∧
    service.sessions = [⟨some "alice", .reading⟩] := by
  obtain ⟨service, run, h⟩ := Run.exec_of_test
    (fun service : Service => decide (service.sessions = [⟨some "alice", .reading⟩]))
    (by decide +kernel : (Run.run Service.step Service.registersNew .init joinsTwice).any _ = true)
  exact ⟨service, run, by simpa using h⟩

theorem logged_in_alice : ∃ service, Service.Reaches Service.registersNew joinsTwice service ∧
    "alice" ∈ service.tasks.store.users := by
  obtain ⟨service, run, hsessions⟩ := joinsTwice_reaches
  exact ⟨service, run, (logged_in_registered run).1 ⟨some "alice", .reading⟩ (by simp [hsessions])
    "alice" rfl⟩

/-- **Every response in one order.** Let no two registrations of one name overlap. Then the requests
and the lines of all clients, interleaved in any way, make calls that are explained by one order at
the store without its index. A response is decided before any lock, or it presents the answer that
the one call of its task has in this order. -/
theorem responses_explained {es : List ServiceEvent}
    (run : Service.Reaches Service.registersNew es service) : ∃ calls server,
      Pa1.Reaches registersNew calls server ∧
      Pool.Serves Call.start Task.start service.tasks server ∧
      History (fun k ref => some (ref.call k)) Reference.new (effects calls)
        service.tasks.store.reference ∧
      ∀ (n : ℕ) task outcome, service.tasks.calls[n]? = some (task, .done outcome) →
        task.start = .done outcome ∨
        ∃ (m : ℕ) (k : Call) (present : StateResult Value → Outcome) (r : StateResult Value),
          task.start = present <$> k.start ∧ outcome = present r ∧
          (k.isCommand = true → ⟨m, k, r⟩ ∈ effects calls) := by
  obtain ⟨es', htasks⟩ := Service.tasks_run run
  obtain ⟨calls, server, hcalls, serves⟩ := Pool.serves_run (q := Server.init)
    (P := fun i state => i.New state) makes_task htasks ⟨rfl, rfl, .nil⟩
  refine ⟨calls, server, hcalls, serves, ?_, fun n task outcome hcall => ?_⟩
  · rw [← serves.store]
    exact effects_reference hcalls
  · rcases serves.made.answered hcall with hdone | ⟨m, k, present, r, made, found, rfl⟩
    · exact Or.inl hdone
    · exact Or.inr ⟨m, k, present, r, made, rfl, effects_answer hcalls found⟩

theorem responses_explained_alice : ∃ service calls server,
    Service.Reaches Service.registersNew joinsTwice service ∧
    Pool.Serves Call.start Task.start service.tasks server ∧
    History (fun k ref => some (ref.call k)) Reference.new (effects calls)
      service.tasks.store.reference := by
  obtain ⟨service, run, -⟩ := joinsTwice_reaches
  obtain ⟨calls, server, -, serves, history, -⟩ := responses_explained run
  exact ⟨service, calls, server, run, serves, history⟩

end MiniDiscord.Pa1
