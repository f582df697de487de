import MiniDiscord.Http
import MiniDiscord.Pa1.TcpHandlers

/-!
# The HTTP endpoints

The handlers of `http_handlers.rs` and the routes of `build_app`. A handler gets what the extractors
make of the request, and runs its function of `stateops.rs` on the shared store.
-/

namespace MiniDiscord.Pa1

/-! ## Responses -/

/-- The objects that the handlers answer with; a `Vec` in the order of a hash map is a multiset. -/
inductive Payload
  | health
  | user (username : String)
  | users (users : Multiset String)
  | channels (channels : Multiset String)
  | joined (username channel : String)
  | channelUsers (users : Multiset String) (channel : String)
  | left (channel username : String)
  | sent (channel : String) (messageId : ℕ) (username text : String)
  | messages (channel : String) (messages : List Message)
deriving DecidableEq

abbrev HttpResult : Type := StateResult Payload

def Message.json (m : Message) : Json :=
  .obj [("username", .str m.username), ("text", .str m.text), ("message_id", .num m.messageId)]

def Payload.json (order : VecOrder) : Payload → Json
  | health => .obj [("status", .str "ok")]
  | user u => .obj [("username", .str u)]
  | users us => .obj [("users", .arr ((order.list us).map .str))]
  | channels cs => .obj [("channels", .arr ((order.list cs).map .str))]
  | joined u c => .obj [("username", .str u), ("channel", .str c), ("joined", .bool true)]
  | channelUsers us c => .obj [("users", .arr ((order.list us).map .str)), ("channel", .str c)]
  | left c u => .obj [("channel", .str c), ("username", .str u), ("left", .bool true)]
  | sent c id u t =>
    .obj [("channel", .str c), ("message_id", .num id), ("username", .str u), ("text", .str t)]
  | messages c ms => .obj [("channel", .str c), ("messages", .arr (ms.map Message.json))]

/-- `HttpServerError` as a response: its status and its body -/
def StateError.httpResponse (e : StateError) : ℕ × Json :=
  (e.status, .obj [("status", .str "error"), ("code", .num e.status), ("message", .str e.message)])

/-- The status and the body. -/
def httpRespond (order : VecOrder) : HttpResult → ℕ × Json
  | .ok payload => (200, payload.json order)
  | .error e => e.httpResponse

/-! ## Extractors -/

def missingUsername : StateError := ⟨400, "Missing username header"⟩
def invalidUsername : StateError := ⟨400, "Invalid username header"⟩
def invalidUserBody : StateError :=
  ⟨400, "Invalid request body; must be valid json with a username field"⟩
def invalidTextBody : StateError :=
  ⟨400, "Invalid request body; must be valid json with a text field"⟩
def invalidOffset : StateError := ⟨400, "Invalid offset! Offset must be a nonnegative integer"⟩
def routeNotFound : StateError := ⟨404, "Route not found"⟩
def wrongMethod : StateError := ⟨405, "method not allowed"⟩

/-- `ExistingUser`, from the header `X-User` -/
def existingUser : Option (List UInt8) → StateResult String
  | none => .error missingUsername
  | some value => match headerToStr value with
    | none => .error invalidUsername
    | some username => .ok username

/-- A derived `Deserialize` of a structure with one text: an object with the field exactly once, or
an array of this length. -/
def onlyText (field : String) : Json → Option String
  | .obj fields => match fields.filter (·.1 = field) with
    | [(_, .str text)] => some text
    | _ => none
  | .arr [.str text] => some text
  | _ => none

/-! ## Handlers -/

def health : Op HttpResult := return .ok .health

def postUser (body : Option String) : Op HttpResult :=
  match body with
  | none => return .error invalidUserBody
  | some username => do
    let result ← createUser username
    return result.map fun () => .user username

def httpGetUsers : Op HttpResult := do
  let users ← getUsers
  return .ok (.users users)

def httpGetChannels : Op HttpResult := do
  let channels ← getChannels
  return .ok (.channels channels)

/-- `join_chanel` -/
def joinChanel (header : Option (List UInt8)) (channelName : String) : Op HttpResult :=
  match existingUser header with
  | .error e => return .error e
  | .ok username => do
    let result ← joinChannel username channelName
    return result.map fun () => .joined username channelName

def httpListChannelUsers (channelName : String) : Op HttpResult := do
  let users ← listChannelUsers channelName
  return users.map (.channelUsers · channelName)

def httpLeaveChannel (channelName username : String) : Op HttpResult := do
  let result ← leaveChannel username channelName
  return result.map fun () => .left channelName username

def httpSendMessage (header : Option (List UInt8)) (channelName : String) (body : Option String) :
    Op HttpResult :=
  match existingUser header with
  | .error e => return .error e
  | .ok username => match body with
    | none => return .error invalidTextBody
    | some text => do
      let messageId ← sendMessage channelName username text
      return messageId.map (.sent channelName · username text)

def httpGetMessages (channelName : String) (params : String → Option String) : Op HttpResult :=
  match queryNumber invalidLimit (params "limit") with
  | .error e => return .error e
  | .ok limit => match queryNumber invalidOffset (params "offset") with
    | .error e => return .error e
    | .ok offset => do
      let messages ← getMessages channelName limit offset
      return messages.map (.messages channelName)

def notFound : Op HttpResult := return .error routeNotFound

def methodNotAllowed : Op HttpResult := return .error wrongMethod

/-! ## Routes -/

/-- The body is none if it is no JSON. -/
abbrev HttpRequest : Type := MiniDiscord.HttpRequest (Option Json)

/-- `build_app`. An empty segment is captured as well, but not at the end of the path. -/
def HttpRequest.start (req : HttpRequest) : Op HttpResult :=
  match req.path with
  | ["health"] => req.choose methodNotAllowed [(.get, health)]
  | ["users"] =>
    req.choose methodNotAllowed
      [(.post, postUser (req.body.bind (onlyText "username"))), (.get, httpGetUsers)]
  | ["channels"] => req.choose methodNotAllowed [(.get, httpGetChannels)]
  | ["channels", channel, last] =>
    if last = "members" then req.choose methodNotAllowed [(.post, joinChanel req.user channel)]
    else if last = "users" then req.choose methodNotAllowed [(.get, httpListChannelUsers channel)]
    else if last = "messages" then
      req.choose methodNotAllowed
        [(.post, httpSendMessage req.user channel (req.body.bind (onlyText "text"))),
          (.get, httpGetMessages channel req.params)]
    else notFound
  | ["channels", channel, "members", username] =>
    if username = "" then notFound
    else req.choose methodNotAllowed [(.delete, httpLeaveChannel channel username)]
  | _ => notFound

end MiniDiscord.Pa1
