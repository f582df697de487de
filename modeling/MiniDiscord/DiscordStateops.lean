import Mathlib.Data.Finmap
import MiniDiscord.Message

/-!
# The local store of one server

Each definition is one critical section of `discord_stateops.rs`: what it does while it holds the
`AppState` mutex. `none` is a panic, which poisons the mutex. `join_channel`, `leave_channel` and
`send_message` await `user_exists` before their last section, so they come in two parts here.
-/

namespace MiniDiscord

/-! ## Results -/

/-- (http status, error code, error message) -/
structure StateError where
  status : ℕ
  code : String
  message : String
deriving DecidableEq, Repr

abbrev StateResult (α : Type) : Type := Except StateError α

instance StateResult.decidableEq {α : Type} [DecidableEq α] : DecidableEq (StateResult α)
  | .ok a, .ok b => decidable_of_iff (a = b) (Except.ok.injEq a b ▸ Iff.rfl)
  | .error e, .error e' => decidable_of_iff (e = e') (Except.error.injEq e e' ▸ Iff.rfl)
  | .ok _, .error _ | .error _, .ok _ => isFalse nofun

namespace DiscordStateops

def emptyUsername : StateError := ⟨400, "INVALID_USERNAME", "Empty username"⟩
def duplicateUser : StateError := ⟨409, "DUPLICATE_USER", "User already exists"⟩
def duplicateChannel : StateError := ⟨409, "DUPLICATE_CHANNEL", "Channel already exists"⟩
def unknownUser : StateError := ⟨404, "UNKNOWN_USER", "User does not exist"⟩
def invalidChannelName : StateError := ⟨400, "INVALID_CHANNEL_NAME", "Channel must start with #"⟩
def unknownChannel : StateError := ⟨404, "UNKNOWN_CHANNEL", "Channel does not exist"⟩
def alreadyMember : StateError := ⟨409, "ALREADY_MEMBER", "User already in channel"⟩
def notAMember : StateError := ⟨404, "NOT_A_MEMBER", "User not in channel"⟩
/-- Sending to a channel without having joined it is an unauthorized operation. -/
def notAMemberForbidden : StateError := ⟨403, "NOT_A_MEMBER", "User not in channel"⟩

/-! ## State -/

structure Channel where
  users : Finset String
  messages : MessageSet
  nextMessageId : ℕ
deriving DecidableEq

def Channel.new : Channel := ⟨∅, .empty, 0⟩

structure AppState where
  users : Finset String
  channels : Finmap fun _ : String => Channel
deriving DecidableEq

def AppState.new : AppState := ⟨∅, ∅⟩

def AppState.channel (state : AppState) (channelName : String) : Option Channel :=
  state.channels.lookup channelName

def AppState.setChannel (state : AppState) (channelName : String) (channel : Channel) : AppState :=
  { state with channels := state.channels.insert channelName channel }

/-- `entry(channel_name).or_insert(Channel::new())` -/
def AppState.orInsert (state : AppState) (channelName : String) : AppState × Channel :=
  match state.channel channelName with
  | some channel => (state, channel)
  | none => (state.setChannel channelName .new, .new)

/-! ## Users -/

/-- The order of the `Vec` is that of a hash set, so the result is a multiset. -/
def getUsers (state : AppState) : Multiset String := state.users.val

def userExists (username : String) (state : AppState) : Bool := decide (username ∈ state.users)

def createUser (username : String) (state : AppState) : StateResult Unit × AppState :=
  if username = "" then (.error emptyUsername, state)
  else if username ∈ state.users then (.error duplicateUser, state)
  else (.ok (), { state with users := insert username state.users })

/-! ## Channels -/

def getChannels (state : AppState) : Multiset String := state.channels.keys.val

/-- `channel_name.starts_with('#')` -/
def channelNameIsValid (channelName : String) : Bool := channelName.toList.head? = some '#'

def channelExists (channelName : String) (state : AppState) : Bool :=
  (state.channel channelName).isSome

def createChannel (channelName : String) (state : AppState) : StateResult Unit × AppState :=
  if channelExists channelName state then (.error duplicateChannel, state)
  else (.ok (), state.setChannel channelName .new)

/-- The checks that `list_channel_users`, `leave_channel`, `send_message` and `get_messages` make
first. -/
def checkChannel (channelName : String) (state : AppState) : StateResult Unit :=
  if !channelNameIsValid channelName then .error invalidChannelName
  else if !channelExists channelName state then .error unknownChannel
  else .ok ()

/-- `join_channel` from the name check on. -/
def joinChannelLocked (username channelName : String) (state : AppState) :
    StateResult Unit × AppState :=
  if !channelNameIsValid channelName then (.error invalidChannelName, state)
  else
    let (state, channel) := state.orInsert channelName
    if username ∈ channel.users then (.error alreadyMember, state)
    else
      (.ok (), state.setChannel channelName { channel with users := insert username channel.users })

def joinChannel (username channelName : String) (userExists : String → Bool) (state : AppState) :
    StateResult Unit × AppState :=
  if !userExists username then (.error unknownUser, state)
  else joinChannelLocked username channelName state

def listChannelUsers (channelName : String) (state : AppState) : StateResult (Multiset String) := do
  checkChannel channelName state
  match state.channel channelName with
  | some channel => .ok channel.users.val
  | none => .error unknownChannel

/-- `leave_channel` from its last lock on, with the `unwrap` of a missing channel. -/
def leaveChannelLocked (username channelName : String) (state : AppState) :
    Option (StateResult Unit × AppState) :=
  match state.channel channelName with
  | none => none
  | some channel =>
    if username ∉ channel.users then some (.error notAMember, state)
    else
      some (.ok (),
        state.setChannel channelName { channel with users := channel.users.erase username })

def leaveChannel (username channelName : String) (userExists : String → Bool) (state : AppState) :
    Option (StateResult Unit × AppState) :=
  match checkChannel channelName state with
  | .error e => some (.error e, state)
  | .ok () =>
    if !userExists username then some (.error unknownUser, state)
    else leaveChannelLocked username channelName state

/-! ## Messages -/

/-- Takes the id that the primary assigned, and counts only an insert that took effect. -/
def replicateSendMessage (channelName username text messageId : String) (state : AppState) :
    Option (StateResult String × AppState) := do
  let channel ← state.channel channelName
  let (messages, didInsert) ← insertMessage channel.messages ⟨username, text, messageId⟩
  some (.ok messageId, state.setChannel channelName
    { channel with messages, nextMessageId := channel.nextMessageId + didInsert.toNat })

/-- `send_message` from its last lock on. -/
def sendMessageLocked (channelName username text : String) (state : AppState) :
    Option (StateResult String × AppState) := do
  let channel ← state.channel channelName
  if username ∉ channel.users then some (.error notAMemberForbidden, state)
  else
    let message := Message.from' username text channelName channel.nextMessageId
    -- the result of the insert is not looked at
    let (messages, _) ← insertMessage channel.messages message
    some (.ok message.messageId, state.setChannel channelName
      { channel with messages, nextMessageId := channel.nextMessageId + 1 })

def sendMessage (channelName username text : String) (userExists : String → Bool)
    (state : AppState) : Option (StateResult String × AppState) :=
  match checkChannel channelName state with
  | .error e => some (.error e, state)
  | .ok () =>
    if !userExists username then some (.error unknownUser, state)
    else sendMessageLocked channelName username text state

/-- The newest messages first; the default limit is 20, the default offset 0. -/
def getMessages (channelName : String) (limit offset : Option ℕ) (state : AppState) :
    StateResult (List Message) := do
  checkChannel channelName state
  match state.channel channelName with
  | some channel =>
    .ok ((channel.messages.elems.reverse.drop (offset.getD 0)).take (limit.getD 20))
  | none => .error unknownChannel

end DiscordStateops

end MiniDiscord
