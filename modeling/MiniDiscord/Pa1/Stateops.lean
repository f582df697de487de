import Mathlib.Data.Finmap
import MiniDiscord.Program

/-!
# The store of the first server

`stateops.rs` of pa1. Its functions lock the `AppState` mutex more than once, so each is a program
over critical sections: what one `state.lock()` does until the guard is dropped. `none` is a panic
under the lock, which poisons the mutex.
-/

namespace MiniDiscord.Pa1

/-! ## Results -/

/-- (http status, error message) -/
structure StateError where
  status : ℕ
  message : String
deriving DecidableEq, Repr

abbrev StateResult (α : Type) : Type := Except StateError α

instance StateResult.decidableEq {α : Type} [DecidableEq α] : DecidableEq (StateResult α)
  | .ok a, .ok b => decidable_of_iff (a = b) (Except.ok.injEq a b ▸ Iff.rfl)
  | .error e, .error e' => decidable_of_iff (e = e') (Except.error.injEq e e' ▸ Iff.rfl)
  | .ok _, .error _ | .error _, .ok _ => isFalse nofun

def userAlreadyExists : StateError := ⟨400, "User already exists"⟩
def invalidChannelName : StateError := ⟨400, "Channel must start with #"⟩
def unknownChannel : StateError := ⟨404, "Channel does not exist"⟩
def unknownUser : StateError := ⟨404, "User does not exist"⟩
/-- `join_channel` answers with another status than `leave_channel` and `send_message`. -/
def unknownUserBadRequest : StateError := ⟨400, "User does not exist"⟩
def alreadyMember : StateError := ⟨400, "User already in channel"⟩
def notAMember : StateError := ⟨400, "User not in channel"⟩

/-! ## State -/

structure Message where
  username : String
  text : String
  messageId : ℕ
deriving DecidableEq, Repr

structure Channel where
  users : Finset String
  messages : List Message
deriving DecidableEq

def Channel.new : Channel := ⟨∅, []⟩

structure AppState where
  users : Finset String
  channels : Finmap fun _ : String => Channel
  userChannels : Finmap fun _ : String => Finset String
  nextMessageId : ℕ
deriving DecidableEq

def AppState.new : AppState := ⟨∅, ∅, ∅, 0⟩

def AppState.channel (state : AppState) (channelName : String) : Option Channel :=
  state.channels.lookup channelName

def AppState.setChannel (state : AppState) (channelName : String) (channel : Channel) : AppState :=
  { state with channels := state.channels.insert channelName channel }

def AppState.setUserChannels (state : AppState) (username : String) (joined : Finset String) :
    AppState :=
  { state with userChannels := state.userChannels.insert username joined }

/-- `channel_name.starts_with('#')` -/
def channelNameIsValid (channelName : String) : Bool := channelName.toList.head? = some '#'

/-! ## Critical sections -/

inductive Section
  | getUsers
  | userExists (username : String)
  /-- the second lock of `create_user` -/
  | insertUser (username : String)
  | getChannels
  | channelExists (channelName : String)
  /-- the last locks of `join_channel`, `list_channel_users` and `leave_channel` -/
  | join (username channelName : String)
  | listUsers (channelName : String)
  | leave (username channelName : String)
  /-- the snapshot of `leave_all_channels` -/
  | memberships (username : String)
  /-- the last locks of `send_message` and `get_messages` -/
  | send (channelName username text : String)
  | messages (channelName : String) (limit offset : Option ℕ)
deriving DecidableEq

/-- What the code outside the lock gets. A `Vec` in the order of a hash map is a multiset. -/
abbrev Section.Answer : Section → Type
  | .getUsers | .getChannels | .listUsers _ => Multiset String
  | .userExists _ | .channelExists _ => Bool
  | .insertUser _ => Unit
  | .join _ _ | .leave _ _ => StateResult Unit
  | .memberships _ => Finset String
  | .send _ _ _ => StateResult ℕ
  | .messages _ _ _ => List Message

def joinLocked (username channelName : String) (state : AppState) :
    Option (StateResult Unit × AppState) :=
  -- `entry(channel_name).or_insert(..)`
  let channel := (state.channel channelName).getD .new
  if username ∈ channel.users then
    some (.error alreadyMember, state.setChannel channelName channel)
  else do
    let state := state.setChannel channelName
      { channel with users := insert username channel.users }
    let joined ← state.userChannels.lookup username
    some (.ok (), state.setUserChannels username (insert channelName joined))

def leaveLocked (username channelName : String) (state : AppState) :
    Option (StateResult Unit × AppState) := do
  let channel ← state.channel channelName
  if username ∉ channel.users then some (.error notAMember, state)
  else
    let state := state.setChannel channelName
      { channel with users := channel.users.erase username }
    let joined ← state.userChannels.lookup username
    some (.ok (), state.setUserChannels username (joined.erase channelName))

def sendLocked (channelName username text : String) (state : AppState) :
    Option (StateResult ℕ × AppState) := do
  let channel ← state.channel channelName
  if username ∉ channel.users then some (.error notAMember, state)
  else
    let messageId := state.nextMessageId
    let state := { state with nextMessageId := state.nextMessageId + 1 }
    let message : Message := ⟨username, text, messageId⟩
    some (.ok messageId, state.setChannel channelName
      { channel with messages := channel.messages ++ [message] })

/-- The newest messages first; the default limit is 20, the default offset 0. -/
def messagesLocked (channelName : String) (limit offset : Option ℕ) (state : AppState) :
    Option (List Message × AppState) := do
  let channel ← state.channel channelName
  some ((channel.messages.reverse.drop (offset.getD 0)).take (limit.getD 20), state)

def Section.exec : (i : Section) → AppState → Option (i.Answer × AppState)
  | .getUsers, state => some (state.users.val, state)
  | .userExists u, state => some (decide (u ∈ state.users), state)
  | .insertUser u, state =>
    some ((), { state with users := insert u state.users }.setUserChannels u ∅)
  | .getChannels, state => some (state.channels.keys.val, state)
  | .channelExists c, state => some ((state.channel c).isSome, state)
  | .join u c, state => joinLocked u c state
  | .listUsers c, state => (state.channel c).map fun channel => (channel.users.val, state)
  | .leave u c, state => leaveLocked u c state
  | .memberships u, state => (state.userChannels.lookup u).map fun joined => (joined, state)
  | .send c u t, state => sendLocked c u t state
  | .messages c limit offset, state => messagesLocked c limit offset state

/-! ## Operations -/

/-- A function of `stateops.rs`. -/
abbrev Op (α : Type) : Type := Program Section Section.Answer α

/-- `state.lock().unwrap()` -/
abbrev withLock (i : Section) : Op i.Answer := .lock i

def getUsers : Op (Multiset String) := withLock .getUsers

def userExists (username : String) : Op Bool := withLock (.userExists username)

def createUser (username : String) : Op (StateResult Unit) := do
  if ← userExists username then
    return .error userAlreadyExists
  else
    let () ← withLock (.insertUser username)
    return .ok ()

def getChannels : Op (Multiset String) := withLock .getChannels

def channelExists (channelName : String) : Op Bool := withLock (.channelExists channelName)

def joinChannel (username channelName : String) : Op (StateResult Unit) := do
  if !(← userExists username) then
    return .error unknownUserBadRequest
  else if !channelNameIsValid channelName then
    return .error invalidChannelName
  else withLock (.join username channelName)

def listChannelUsers (channelName : String) : Op (StateResult (Multiset String)) := do
  if !channelNameIsValid channelName then
    return .error invalidChannelName
  else if !(← channelExists channelName) then
    return .error unknownChannel
  else .ok <$> withLock (.listUsers channelName)

def leaveChannel (username channelName : String) : Op (StateResult Unit) := do
  if !channelNameIsValid channelName then
    return .error invalidChannelName
  else if !(← channelExists channelName) then
    return .error unknownChannel
  else if !(← userExists username) then
    return .error unknownUser
  else withLock (.leave username channelName)

/-- The loop of `leave_all_channels`, with the `unwrap` of each result. -/
def leaveEach (username : String) : List String → Op Unit
  | [] => return ()
  | channelName :: channelNames => do
    match ← leaveChannel username channelName with
    | .ok () => leaveEach username channelNames
    | .error _ => .panicked

/-- An order in which the elements of a hash set may come. -/
structure HashOrder where
  list : Finset String → List String
  perm : ∀ names, (list names : Multiset String) = names.val

def leaveAllChannels (username : String) (order : HashOrder) : Op Unit := do
  if !(← userExists username) then
    return ()
  else
    let channels ← withLock (.memberships username)
    leaveEach username (order.list channels)

def sendMessage (channelName username text : String) : Op (StateResult ℕ) := do
  if !channelNameIsValid channelName then
    return .error invalidChannelName
  else if !(← channelExists channelName) then
    return .error unknownChannel
  else if !(← userExists username) then
    return .error unknownUser
  else withLock (.send channelName username text)

def getMessages (channelName : String) (limit offset : Option ℕ) :
    Op (StateResult (List Message)) := do
  if !channelNameIsValid channelName then
    return .error invalidChannelName
  else if !(← channelExists channelName) then
    return .error unknownChannel
  else .ok <$> withLock (.messages channelName limit offset)

/-! ## Calls -/

/-- A call of one of the functions, by a handler of either server. -/
inductive Call
  | getUsers
  | userExists (username : String)
  | createUser (username : String)
  | getChannels
  | joinChannel (username channelName : String)
  | listChannelUsers (channelName : String)
  | leaveChannel (username channelName : String)
  | leaveAllChannels (username : String) (order : HashOrder)
  | sendMessage (channelName username text : String)
  | getMessages (channelName : String) (limit offset : Option ℕ)

inductive Value
  | unit
  | found (exists? : Bool)
  | names (all : Multiset String)
  | messageId (id : ℕ)
  | messages (all : List Message)
deriving DecidableEq

def Call.start : Call → Op (StateResult Value)
  | .getUsers => (.ok <| .names ·) <$> Pa1.getUsers
  | .userExists u => (.ok <| .found ·) <$> Pa1.userExists u
  | .createUser u => (·.map fun _ => .unit) <$> Pa1.createUser u
  | .getChannels => (.ok <| .names ·) <$> Pa1.getChannels
  | .joinChannel u c => (·.map fun _ => .unit) <$> Pa1.joinChannel u c
  | .listChannelUsers c => (·.map .names) <$> Pa1.listChannelUsers c
  | .leaveChannel u c => (·.map fun _ => .unit) <$> Pa1.leaveChannel u c
  | .leaveAllChannels u order => (fun _ => .ok .unit) <$> Pa1.leaveAllChannels u order
  | .sendMessage c u t => (·.map .messageId) <$> Pa1.sendMessage c u t
  | .getMessages c limit offset => (·.map .messages) <$> Pa1.getMessages c limit offset

/-- The store among the calls of any number of HTTP requests and TCP sessions. -/
abbrev Server : Type := Pool Section Section.Answer Call AppState (StateResult Value)

abbrev Event : Type := PoolEvent Call

def Server.init : Server := ⟨.new, false, []⟩

/-- No call is half-way. -/
def Server.idle (server : Server) : Bool := server.calls.all fun call => call.2.isOver

def step : Server → Event → Option Server := Pool.step Section.exec Call.start

end MiniDiscord.Pa1
