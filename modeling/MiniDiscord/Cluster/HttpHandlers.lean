import MiniDiscord.Cluster.Spec
import MiniDiscord.Http
import MiniDiscord.Wire.Codec

/-!
# The HTTP endpoints of a server

The handlers of `http_handlers.rs` and the routes of `build_app`. A handler answers at once, reads
what its own server has, or makes one call of `distributed_stateops.rs` and presents what comes of
it.
-/

namespace MiniDiscord.Cluster

/-! ## Responses -/

/-- The objects that the handlers answer with. A `Vec` in the order of a hash map is a multiset. -/
inductive Payload
  | health (serverId : ServerId)
  | servers (states : List (ServerId × Bool))
  | leader (leader : ServerId) (alive : Bool)
  | user (username : String)
  | users (users : List String)
  | myUsers (users : Multiset String)
  | channels (channels : List String)
  | myChannels (channels : Multiset String)
  | joined (username channel : String)
  | channelUsers (users : Multiset String) (channel : String)
  | left (channel username : String)
  | sent (channel messageId username text : String)
  | messages (channel : String) (messages : List Message)
deriving DecidableEq

abbrev HttpResult : Type := StateResult Payload

def ServerId.name : ServerId → String
  | .A => "A"
  | .B => "B"
  | .C => "C"

/-- The body; `order` is that of the hash maps. -/
def Payload.json (order : Multiset String → List String) : Payload → Json
  | health s => .obj [("status", .str "ok"), ("server_id", .str (ServerId.name s))]
  | servers states => .obj [("servers", .arr (states.map fun (s, alive) =>
      .obj [("server_id", .str (ServerId.name s)), ("alive", .bool alive)]))]
  | leader l alive => .obj [("leader", .str (ServerId.name l)), ("alive", .bool alive)]
  | user u => .obj [("username", .str u)]
  | users us => .obj [("users", .arr (us.map .str))]
  | myUsers us => .obj [("users", .arr ((order us).map .str))]
  | channels cs => .obj [("channels", .arr (cs.map .str))]
  | myChannels cs => .obj [("channels", .arr ((order cs).map .str))]
  | joined u c => .obj [("username", .str u), ("channel", .str c), ("joined", .bool true)]
  | channelUsers us c => .obj [("users", .arr ((order us).map .str)), ("channel", .str c)]
  | left c u => .obj [("channel", .str c), ("username", .str u), ("left", .bool true)]
  | sent c id u t =>
    .obj [("channel", .str c), ("message_id", .str id), ("username", .str u), ("text", .str t)]
  | messages c ms => .obj [("channel", .str c), ("messages", .arr (ms.map Serde.serialize))]

/-- `CREATED` for a new user and a new message. -/
def Payload.status : Payload → ℕ
  | user _ | sent _ _ _ _ => 201
  | _ => 200

/-- `HttpServerError` as a response: its status and its body -/
def StateError.httpResponse (e : StateError) : ℕ × Json :=
  (e.status, .obj [("status", .str "error"), ("code", .str e.code), ("message", .str e.message)])

/-- The status and the body. -/
def httpRespond (order : Multiset String → List String) : HttpResult → ℕ × Json
  | .ok payload => (payload.status, payload.json order)
  | .error e => StateError.httpResponse e

/-! ## Extractors -/

/-- Why a body is not what a handler expects; the text is what `axum` prints. -/
inductive JsonRejection
  | jsonDataError
  | other (text : String)
deriving DecidableEq

/-- The body is what `Json` makes of it for a structure with the one field of this name. -/
abbrev HttpRequest : Type := MiniDiscord.HttpRequest (String → Except JsonRejection String)

def missingHeader : StateError := ⟨400, "MISSING_HEADER", "Missing X-User header"⟩
def invalidHeader : StateError := ⟨400, "INVALID_USERNAME", "Invalid X-User header"⟩
def invalidLimit : StateError :=
  ⟨400, "INVALID_QUERY", "Invalid limit! Limit must be a nonnegative integer"⟩
def invalidOffset : StateError :=
  ⟨400, "INVALID_QUERY", "Invalid offset! Offset must be a nonnegative integer"⟩
def unknownPath : StateError := ⟨404, "UNKNOWN_PATH", "Route not found"⟩
def wrongMethod : StateError := ⟨405, "METHOD_NOT_ALLOWED", "method not allowed"⟩

def jsonRejectionError (rejection : JsonRejection) (expected : String) : StateError :=
  match rejection with
  | .jsonDataError =>
    ⟨400, "MISSING_FIELD", "Request body must be a json object with a " ++ expected ++ " field"⟩
  | .other text => ⟨400, "INVALID_JSON", "Invalid json body: " ++ text⟩

/-- `ExistingUser`, from the header `X-User` -/
def existingUser : Option (List UInt8) → StateResult String
  | none => .error missingHeader
  | some value => match headerToStr value with
    | none => .error invalidHeader
    | some username => .ok username

/-! ## Handlers -/

/-- What a handler does. -/
inductive Handler
  | respond (result : HttpResult)
  /-- reads the `SystemState`: the id, who is alive, and the leader -/
  | look (result : ServerId → (ServerId → Bool) → ServerId → HttpResult)
  /-- reads the own store under its lock -/
  | read (result : DiscordStateops.AppState → HttpResult)
  /-- calls `distributed_stateops.rs`; a value of another type than the call's has no payload -/
  | call (op : Op) (present : Value → Option Payload)

def health : Handler := .look fun id _ _ => .ok (.health id)

/-- `server_states.sort()` -/
def servers : Handler :=
  .look fun _ alive _ => .ok (.servers ([.A, .B, .C].map fun s => (s, alive s)))

def leader : Handler := .look fun _ alive leader => .ok (.leader leader (alive leader))

def postUser (body : Except JsonRejection String) : Handler :=
  match body with
  | .error rejection => .respond (.error (jsonRejectionError rejection "username"))
  | .ok username => .call (.createUser username) fun
    | .unit => some (.user username)
    | _ => none

def httpGetUsers : Handler :=
  .call .getUsers fun
    | .sorted users => some (.users users)
    | _ => none

def debugGetUsers : Handler := .read fun state => .ok (.myUsers (DiscordStateops.getUsers state))

def debugGetChannels : Handler :=
  .read fun state => .ok (.myChannels (DiscordStateops.getChannels state))

def httpGetChannels : Handler :=
  .call .getChannels fun
    | .sorted channels => some (.channels channels)
    | _ => none

def httpJoinChannel (header : Option (List UInt8)) (channelName : String) : Handler :=
  match existingUser header with
  | .error e => .respond (.error e)
  | .ok username => .call (.joinChannel username channelName) fun
    | .unit => some (.joined username channelName)
    | _ => none

def httpListChannelUsers (channelName : String) : Handler :=
  .call (.listChannelUsers channelName) fun
    | .names users => some (.channelUsers users channelName)
    | _ => none

def debugListChannelUsers (channelName : String) : Handler :=
  .read fun state =>
    (DiscordStateops.listChannelUsers channelName state).map (.channelUsers · channelName)

def httpLeaveChannel (channelName username : String) : Handler :=
  .call (.leaveChannel username channelName) fun
    | .unit => some (.left channelName username)
    | _ => none

def httpSendMessage (header : Option (List UInt8)) (channelName : String)
    (body : Except JsonRejection String) : Handler :=
  match existingUser header with
  | .error e => .respond (.error e)
  | .ok username => match body with
    | .error rejection => .respond (.error (jsonRejectionError rejection "text"))
    | .ok text => .call (.sendMessage channelName username text) fun
      | .messageId id => some (.sent channelName id username text)
      | _ => none

/-- The page that is asked for, by `get_messages` and by `debug_get_messages`. -/
def paged (params : String → Option String) (handler : Option ℕ → Option ℕ → Handler) : Handler :=
  match queryNumber invalidLimit (params "limit") with
  | .error e => .respond (.error e)
  | .ok limit => match queryNumber invalidOffset (params "offset") with
    | .error e => .respond (.error e)
    | .ok offset => handler limit offset

def debugGetMessages (channelName : String) (params : String → Option String) : Handler :=
  paged params fun limit offset => .read fun state =>
    (DiscordStateops.getMessages channelName limit offset state).map (.messages channelName)

def httpGetMessages (channelName : String) (params : String → Option String) : Handler :=
  paged params fun limit offset => .call (.getMessages channelName limit offset) fun
    | .messages all => some (.messages channelName all)
    | _ => none

def notFound : Handler := .respond (.error unknownPath)

def methodNotAllowed : Handler := .respond (.error wrongMethod)

/-! ## Routes -/

/-- The routes under a channel; `last` is the last segment. -/
def HttpRequest.channelRoute (req : HttpRequest) (channel last : String) : Handler :=
  if last = "members" then
    req.choose methodNotAllowed [(.post, httpJoinChannel req.user channel)]
  else if last = "users" then
    req.choose methodNotAllowed [(.get, httpListChannelUsers channel)]
  else if last = "messages" then
    req.choose methodNotAllowed
      [(.post, httpSendMessage req.user channel (req.body "text")),
        (.get, httpGetMessages channel req.params)]
  else notFound

def HttpRequest.debugChannelRoute (req : HttpRequest) (channel last : String) : Handler :=
  if last = "users" then
    req.choose methodNotAllowed [(.get, debugListChannelUsers channel)]
  else if last = "messages" then
    req.choose methodNotAllowed [(.get, debugGetMessages channel req.params)]
  else notFound

/-- `build_app`. An empty segment is captured as well, but not at the end of the path. -/
def HttpRequest.handler (req : HttpRequest) : Handler :=
  match req.path with
  | ["health"] => req.choose methodNotAllowed [(.get, health)]
  | ["servers"] => req.choose methodNotAllowed [(.get, servers)]
  | ["leader"] => req.choose methodNotAllowed [(.get, leader)]
  | ["users"] =>
    req.choose methodNotAllowed [(.post, postUser (req.body "username")), (.get, httpGetUsers)]
  | ["debug", "users"] => req.choose methodNotAllowed [(.get, debugGetUsers)]
  | ["channels"] => req.choose methodNotAllowed [(.get, httpGetChannels)]
  | ["debug", "channels"] => req.choose methodNotAllowed [(.get, debugGetChannels)]
  | ["channels", channel, last] => req.channelRoute channel last
  | ["channels", channel, "members", username] =>
    if username = "" then notFound
    else req.choose methodNotAllowed [(.delete, httpLeaveChannel channel username)]
  | ["debug", "channels", channel, last] => req.debugChannelRoute channel last
  | _ => notFound

end MiniDiscord.Cluster
