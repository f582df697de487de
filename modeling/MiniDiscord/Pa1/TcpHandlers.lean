import Mathlib.Data.Finset.Sort
import Mathlib.Data.String.Basic
import MiniDiscord.Json
import MiniDiscord.Message
import MiniDiscord.Pa1.Stateops
import MiniDiscord.Text

/-!
# The commands of a TCP client

The handlers of `tcp_handlers.rs` and how `process_socket` chooses one of them by how the line
starts. A line is the list of its characters, without the newline. Each handler gets the user who is
logged in, and runs its function of `stateops.rs` on the shared store.
-/

namespace MiniDiscord.Pa1

open Text (trim startsWith splitSpace)

/-! ## Responses -/

/-- The objects that the handlers answer with; a `Vec` in the order of a hash map is a multiset. -/
inductive Reply
  | register (username : String)
  | login (username : String)
  | logout (username : String)
  | join (channel username : String)
  | leave (channel username : String)
  | listChannels (channels : Multiset String)
  | listUsers (channel : String) (users : Multiset String)
  | send (messageId : ℕ)
  | history (messages : List Message)
deriving DecidableEq

abbrev Response : Type := StateResult Reply

/-- An order in which the keys of a hash map may come. -/
structure VecOrder where
  list : Multiset String → List String
  perm : ∀ names, (list names : Multiset String) = names

def sorted : VecOrder := ⟨fun names => names.sort (· ≤ ·), fun _ => Multiset.sort_eq _ _⟩

def okObject (operation : String) (fields : List (String × Json)) : Json :=
  .obj (("status", .str "ok") :: ("operation", .str operation) :: fields)

def Reply.json (order : VecOrder) : Reply → Json
  | register u => okObject "register" [("username", .str u)]
  | login u => okObject "login" [("username", .str u)]
  | logout u => okObject "logout" [("username", .str u)]
  | join c u => okObject "join" [("channel", .str c), ("username", .str u)]
  | leave c u => okObject "leave" [("channel", .str c), ("username", .str u)]
  | listChannels cs =>
    okObject "list_channels" [("channels", .arr ((order.list cs).map .str))]
  | listUsers c us =>
    okObject "list_users" [("channel", .str c), ("users", .arr ((order.list us).map .str))]
  | send id => okObject "send" [("message_id", .num id)]
  | history messages => okObject "history" [("messages", .arr (messages.map fun m =>
      .obj [("username", .str m.username), ("text", .str m.text),
        ("message_id", .num m.messageId)]))]

def respond (order : VecOrder) : Response → Json
  | .ok reply => reply.json order
  | .error e => .obj [("status", .str "error"), ("code", .num e.status), ("reason", .str e.message)]

/-! ## Handlers -/

def invalidRegister : StateError :=
  ⟨400, "Invalid register command; expected `REGISTER <username>`"⟩
def invalidLogin : StateError := ⟨400, "Invalid login command; expected `LOGIN <username>`"⟩
def invalidLogout : StateError := ⟨400, "Invalid logout command; expected `LOGOUT`"⟩
def invalidJoin : StateError := ⟨400, "Invalid join command; expected `JOIN <channel>`"⟩
def invalidLeave : StateError := ⟨400, "Invalid leave command; expected `LEAVE <channel>`"⟩
def invalidListChannels : StateError :=
  ⟨400, "Invalid list channels command; expected `LIST CHANNELS`"⟩
def invalidListUsers : StateError :=
  ⟨400, "Invalid list users command; expected `LIST USERS <channel>`"⟩
def invalidSend : StateError := ⟨400, "Invalid send command; expected `SEND <channel> <message>`"⟩
def invalidLimit : StateError := ⟨400, "Invalid limit! Limit must be a nonnegative integer"⟩
def alreadyLoggedIn : StateError := ⟨400, "Already logged in"⟩
def notLoggedIn : StateError := ⟨400, "User is not logged in"⟩
def unknownCommand : StateError := ⟨400, "Unknown command"⟩

def handleRegister (line : List Char) : Op Response :=
  match line.splitOn ' ' with
  | [_, username] => do
    let username := String.ofList username
    let result ← createUser username
    return result.map fun () => .register username
  | _ => return .error invalidRegister

/-- Also returns who is logged in afterwards. -/
def handleLogin (user : Option String) (line : List Char) : Op (Response × Option String) :=
  if user.isSome then return (.error alreadyLoggedIn, user)
  else match line.splitOn ' ' with
    | [_, username] => do
      let username := String.ofList username
      if !(← userExists username) then
        return (.error unknownUserBadRequest, user)
      else return (.ok (.login username), some username)
    | _ => return (.error invalidLogin, user)

def handleLogout (user : Option String) (line : List Char) : Op (Response × Option String) :=
  if (line.splitOn ' ').length ≠ 1 then return (.error invalidLogout, user)
  else match user with
    | none => return (.error notLoggedIn, user)
    | some username => return (.ok (.logout username), none)

def handleJoin (user : Option String) (line : List Char) : Op Response :=
  match line.splitOn ' ' with
  | [_, channel] =>
    match user with
    | none => return .error notLoggedIn
    | some username => do
      let channel := String.ofList channel
      let result ← joinChannel username channel
      return result.map fun () => .join channel username
  | _ => return .error invalidJoin

def handleLeave (user : Option String) (line : List Char) : Op Response :=
  match line.splitOn ' ' with
  | [_, channel] =>
    match user with
    | none => return .error notLoggedIn
    | some username => do
      let channel := String.ofList channel
      let result ← leaveChannel username channel
      return result.map fun () => .leave channel username
  | _ => return .error invalidLeave

def handleListChannels (line : List Char) : Op Response :=
  if (line.splitOn ' ').length ≠ 2 then return .error invalidListChannels
  else do
    let channels ← getChannels
    return .ok (.listChannels channels)

def handleListUsers (line : List Char) : Op Response :=
  match line.splitOn ' ' with
  | [_, _, channel] => do
    let channel := String.ofList channel
    let users ← listChannelUsers channel
    return users.map (.listUsers channel)
  | _ => return .error invalidListUsers

def handleSend (user : Option String) (line : List Char) : Op Response :=
  -- `line.split_once(" ").unwrap()`
  match splitSpace line with
  | none => .panicked
  | some (_, parts) =>
    match splitSpace parts with
    | none => return .error invalidSend
    | some (channel, message) =>
      match user with
      | none => return .error notLoggedIn
      | some username => do
        let messageId ← sendMessage (String.ofList channel) username (String.ofList message)
        return messageId.map .send

def handleHistory (line : List Char) : Op Response :=
  -- `line.split_once(" ").unwrap()`
  match splitSpace line with
  | none => .panicked
  | some (_, parts) =>
    let read (channel : List Char) (limit : Option ℕ) : Op Response := do
      let messages ← getMessages (String.ofList channel) limit none
      return messages.map .history
    match splitSpace parts with
    | some (channel, limit) =>
      match (parseUsize limit).filter (· < 2 ^ 64) with
      | none => return .error invalidLimit
      | some limit => read channel (some limit)
    | none => read (trim parts) none

/-! ## The choice -/

inductive SocketOperation
  | close
  | send (val : Response)
deriving DecidableEq

/-- The operation for a line, and who is logged in afterwards. -/
def processLine (user : Option String) (line : List Char) :
    Op (SocketOperation × Option String) :=
  let line := trim line
  let send (response : Response) := (SocketOperation.send response, user)
  let sendAs (result : Response × Option String) := (SocketOperation.send result.1, result.2)
  if startsWith line "REGISTER" then send <$> handleRegister line
  else if startsWith line "LOGIN" then sendAs <$> handleLogin user line
  else if startsWith line "LOGOUT" then sendAs <$> handleLogout user line
  else if startsWith line "JOIN" then send <$> handleJoin user line
  else if startsWith line "LEAVE" then send <$> handleLeave user line
  else if startsWith line "LIST CHANNELS" then send <$> handleListChannels line
  else if startsWith line "LIST USERS" then send <$> handleListUsers line
  else if startsWith line "SEND" then send <$> handleSend user line
  else if startsWith line "HISTORY" then send <$> handleHistory line
  else if startsWith line "QUIT" then return (.close, user)
  else return send (.error unknownCommand)

/-- The server takes the line for a `QUIT`. -/
def isQuit (line : List Char) : Bool := startsWith (trim line) "QUIT"

/-- A `SEND` or `HISTORY` without anything after it. -/
def isBare (line : List Char) : Bool :=
  (startsWith (trim line) "SEND" || startsWith (trim line) "HISTORY") && ' ' ∉ trim line

end MiniDiscord.Pa1
