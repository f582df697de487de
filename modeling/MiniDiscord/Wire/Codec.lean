import MiniDiscord.DiscordStateops
import MiniDiscord.Json

/-!
# What servers write to each other

The objects that the operations of `distributed_stateops.rs` build, the keys that the middleware
adds to them, and how the other side takes both apart. `none` is a panic. The text in between is
left out: what `serde_json` prints, it parses back.
-/

namespace MiniDiscord.Wire

open Json (asStr asU64 asBool)

/-! ## Results -/

/-- What `StatusCode` can hold. -/
def IsStatusCode (status : ℕ) : Prop := 100 ≤ status ∧ status < 1000

instance (status : ℕ) : Decidable (IsStatusCode status) :=
  inferInstanceAs (Decidable (100 ≤ status ∧ status < 1000))

/-- `StatusCode::from_u16(status as u16)` -/
def statusFromU16 (status : ℕ) : Option ℕ :=
  if IsStatusCode (status % 2 ^ 16) then some (status % 2 ^ 16) else none

instance : Serde Message where
  serialize m :=
    .obj [("username", .str m.username), ("text", .str m.text), ("message_id", .str m.messageId)]
  deserialize v := do
    let username ← (← v.get? "username").asStr
    let text ← (← v.get? "text").asStr
    let messageId ← (← v.get? "message_id").asStr
    some ⟨username, text, messageId⟩
  read_back _ := rfl

/-- `{"ok": <value>}` on success, `{"error": {"status": <u16>, "code": <string>, "message":
<string>}}` on failure -/
def stateResultToValue {α : Type} [Serde α] : StateResult α → Json
  | .ok v => .obj [("ok", Serde.serialize v)]
  | .error e => .obj [("error",
      .obj [("status", .num e.status), ("code", .str e.code), ("message", .str e.message)])]

def stateResultFromValue {α : Type} [Serde α] (value : Json) : Option (StateResult α) :=
  match value.get? "error" with
  | some error => do
    let status ← statusFromU16 (← asU64 (error.index "status"))
    let code ← asStr (error.index "code")
    let message ← asStr (error.index "message")
    some (.error ⟨status, code, message⟩)
  | none => (Serde.deserialize (value.index "ok")).map .ok

/-- What `receive_callback` answers `user_exists` with. -/
def userExistsToValue (exists? : Bool) : Json := .obj [("user_exists", .bool exists?)]

def userExistsFromValue (value : Json) : Option Bool := asBool (value.index "user_exists")

/-! ## Requests -/

/-- What a server asks of a peer. -/
inductive Call
  | userExists (username : String)
  | createUser (username : String)
  | getUsers
  | getChannels
  | joinChannel (username channel : String)
  | leaveChannel (username channel : String)
  | listChannelUsers (channel : String)
  | sendMessage (channel username text : String)
  | getMessages (channel : String) (limit offset : Option ℕ)
  | replicateCreateUser (username : String)
  | replicateJoinChannel (username channel : String)
  | replicateLeaveChannel (username channel : String)
  | replicateSendMessage (channel username text messageId : String)
deriving DecidableEq

/-- `json!` of an `Option<usize>` -/
def optional : Option ℕ → Json
  | some n => .num n
  | none => .null

/-- `replicate_op` nests the request. -/
def replicateOp (request : Json) (requestType : String) : Option (String × Json) := do
  let request ← request.set "type" (.str requestType)
  some ("replicate", .obj [("request", request)])

/-- The request type and the object that the sender passes to `send_request`. -/
def Call.request : Call → Option (String × Json)
  | .userExists u => some ("user_exists", .obj [("username", .str u)])
  | .createUser u => some ("create_user", .obj [("username", .str u)])
  | .getUsers => some ("get_users", .obj [])
  | .getChannels => some ("get_channels", .obj [])
  | .joinChannel u c => some ("join_channel", .obj [("username", .str u), ("channel", .str c)])
  | .leaveChannel u c => some ("leave_channel", .obj [("username", .str u), ("channel", .str c)])
  | .listChannelUsers c => some ("list_channel_users", .obj [("channel", .str c)])
  | .sendMessage c u t =>
    some ("send_message", .obj [("username", .str u), ("channel", .str c), ("text", .str t)])
  | .getMessages c limit offset =>
    some ("get_messages",
      .obj [("channel", .str c), ("limit", optional limit), ("offset", optional offset)])
  | .replicateCreateUser u => replicateOp (.obj [("username", .str u)]) "create_user"
  | .replicateJoinChannel u c =>
    replicateOp (.obj [("username", .str u), ("channel", .str c)]) "join_channel"
  | .replicateLeaveChannel u c =>
    replicateOp (.obj [("username", .str u), ("channel", .str c)]) "leave_channel"
  | .replicateSendMessage c u t id =>
    replicateOp (.obj [("username", .str u), ("channel", .str c), ("text", .str t),
      ("message_id", .str id)]) "send_message"

/-- `receive_callback`, up to the operation that it calls. -/
def receiveCallback (requestType : String) (request : Json) : Option Call :=
  if requestType = "user_exists" then do
    some (.userExists (← asStr (request.index "username")))
  else if requestType = "create_user" then do
    some (.createUser (← asStr (request.index "username")))
  else if requestType = "get_users" then some .getUsers
  else if requestType = "get_channels" then some .getChannels
  else if requestType = "join_channel" then do
    some (.joinChannel (← asStr (request.index "username")) (← asStr (request.index "channel")))
  else if requestType = "list_channel_users" then do
    some (.listChannelUsers (← asStr (request.index "channel")))
  else if requestType = "leave_channel" then do
    some (.leaveChannel (← asStr (request.index "username")) (← asStr (request.index "channel")))
  else if requestType = "send_message" then do
    let username ← asStr (request.index "username")
    let channelName ← asStr (request.index "channel")
    let text ← asStr (request.index "text")
    some (.sendMessage channelName username text)
  else if requestType = "get_messages" then do
    let channelName ← asStr (request.index "channel")
    let limit := asU64 (request.index "limit")
    let offset := asU64 (request.index "offset")
    some (.getMessages channelName limit offset)
  else if requestType = "replicate" then do
    let request := request.index "request"
    let requestType ← asStr (request.index "type")
    if requestType = "create_user" then
      some (.replicateCreateUser (← asStr (request.index "username")))
    else if requestType = "join_channel" then
      some (.replicateJoinChannel (← asStr (request.index "username"))
        (← asStr (request.index "channel")))
    else if requestType = "leave_channel" then
      some (.replicateLeaveChannel (← asStr (request.index "username"))
        (← asStr (request.index "channel")))
    else if requestType = "send_message" then
      let username ← asStr (request.index "username")
      let channelName ← asStr (request.index "channel")
      let text ← asStr (request.index "text")
      let messageId ← asStr (request.index "message_id")
      some (.replicateSendMessage channelName username text messageId)
    else none
  else none

/-! ## What the middleware adds -/

/-- `send_request` -/
def sendRequest (requestType : String) (message : Json) : Option Json :=
  message.set "type" (.str requestType)

/-- What `peer_task` adds to an answer of `receive_callback`. -/
def answer (seqNum : ℕ) (requestType : String) (response : Json) : Option Json := do
  let response ← response.set "sequence_number" (.num seqNum)
  response.set "request_type" (.str requestType)

/-- What `send_message_task` adds; `sequenceNum` is the number of the last request before. -/
def complete (isResponse : Bool) (sequenceNum : ℕ) (message : Json) : Option Json := do
  let message ←
    if isResponse then some message else message.set "sequence_number" (.num (sequenceNum + 1))
  message.set "is_response" (.bool isResponse)

def pingMessage (id : String) : Json := .obj [("type", .str "PING"), ("from", .str id)]
def leaderMessage (id : String) : Json :=
  .obj [("type", .str "LEADER_ANNOUNCEMENT"), ("leader", .str id)]

/-- `value.get("sequence_number")` is echoed. -/
def pongMessage (id : String) (value : Json) : Json :=
  .obj [("type", .str "PONG"), ("from", .str id),
    ("sequence_number", (value.get? "sequence_number").getD .null)]

/-- What `peer_task` does with a value that it read. -/
inductive Received
  | response (seqNum : ℕ) (value : Json)
  | ping (value : Json)
  | leaderAnnouncement (leader : String)
  | request (seqNum : ℕ) (requestType : String) (value : Json)

/-- `peer_task`, once it has a line. -/
def peerTask (value : Json) : Option Received := do
  let seqNum ← asU64 (← value.get? "sequence_number")
  if ← asBool (← value.get? "is_response") then
    some (.response seqNum value)
  else
    let requestType ← asStr (← value.get? "type")
    if requestType = "PING" then some (.ping value)
    else if requestType = "LEADER_ANNOUNCEMENT" then
      some (.leaderAnnouncement (← asStr (← value.get? "leader")))
    else some (.request seqNum requestType value)

/-- A request as it is written. -/
def Call.written (call : Call) (sequenceNum : ℕ) : Option Json := do
  let (requestType, message) ← call.request
  complete false sequenceNum (← sendRequest requestType message)

/-- An answer as it is written. -/
def writtenAnswer (seqNum : ℕ) (requestType : String) (sequenceNum : ℕ) (response : Json) :
    Option Json := do
  complete true sequenceNum (← answer seqNum requestType response)

/-! ## The added keys -/

/-- The keys that the middleware writes. -/
def metadata : List String := ["type", "sequence_number", "request_type", "is_response"]

variable {message v : Json} {fields : List (String × Json)} {n seq : ℕ} {requestType : String}

theorem written_request (h : message.set "type" (.str requestType) >>= complete false n = some v) :
    v.get? "type" = some (.str requestType) ∧ v.get? "sequence_number" = some (.num (n + 1)) ∧
      v.get? "is_response" = some (.bool false) ∧
      ∀ key, key ∉ metadata → v.get? key = message.get? key := by
  simp only [complete, Bool.false_eq_true, if_false, Option.bind_eq_bind,
    Option.bind_eq_some_iff] at h
  obtain ⟨typed, htyped, numbered, hnumbered, hv⟩ := h
  refine ⟨?_, ?_, Json.get?_set_self hv, ?_⟩
  · rw [Json.get?_set_of_ne hv (by decide), Json.get?_set_of_ne hnumbered (by decide),
      Json.get?_set_self htyped]
  · rw [Json.get?_set_of_ne hv (by decide), Json.get?_set_self hnumbered]
  · intro key hkey
    simp only [metadata, List.mem_cons, List.not_mem_nil, or_false, not_or] at hkey
    rw [Json.get?_set_of_ne hv hkey.2.2.2, Json.get?_set_of_ne hnumbered hkey.2.1,
      Json.get?_set_of_ne htyped hkey.1]

theorem written_answer (h : writtenAnswer seq requestType n message = some v) :
    v.get? "sequence_number" = some (.num seq) ∧ v.get? "is_response" = some (.bool true) ∧
      ∀ key, key ∉ metadata → v.get? key = message.get? key := by
  simp only [writtenAnswer, answer, complete, if_true, Option.bind_eq_bind, Option.bind_some,
    Option.bind_eq_some_iff] at h
  obtain ⟨typed, ⟨numbered, hnumbered, htyped⟩, hv⟩ := h
  refine ⟨?_, Json.get?_set_self hv, ?_⟩
  · rw [Json.get?_set_of_ne hv (by decide), Json.get?_set_of_ne htyped (by decide),
      Json.get?_set_self hnumbered]
  · intro key hkey
    simp only [metadata, List.mem_cons, List.not_mem_nil, or_false, not_or] at hkey
    rw [Json.get?_set_of_ne hv hkey.2.2.2, Json.get?_set_of_ne htyped hkey.2.2.1,
      Json.get?_set_of_ne hnumbered hkey.2.1]

theorem written_obj (fields : List (String × Json)) (requestType : String) (n : ℕ) :
    ∃ v, (Json.obj fields).set "type" (.str requestType) >>= complete false n = some v := ⟨_, rfl⟩

theorem answer_obj (fields : List (String × Json)) (seq : ℕ) (requestType : String) (n : ℕ) :
    ∃ v, writtenAnswer seq requestType n (.obj fields) = some v := ⟨_, rfl⟩

/-! ## Requests arrive -/

theorem peerTask_request (h : message.set "type" (.str requestType) >>= complete false n = some v)
    (ping : requestType ≠ "PING") (leader : requestType ≠ "LEADER_ANNOUNCEMENT") :
    peerTask v = some (.request (n + 1) requestType v) := by
  obtain ⟨htype, hseq, hresponse, -⟩ := written_request h
  simp [peerTask, htype, hseq, hresponse, Json.asU64, Json.asBool, Json.asStr, ping, leader]

theorem peerTask_answer (h : writtenAnswer seq requestType n message = some v) :
    peerTask v = some (.response seq v) := by
  obtain ⟨hseq, hresponse, -⟩ := written_answer h
  simp [peerTask, hseq, hresponse, Json.asU64, Json.asBool]

theorem index_written (h : message.set "type" (.str requestType) >>= complete false n = some v)
    {key : String} (hkey : key ∉ metadata) : v.index key = message.index key := by
  rw [Json.index, Json.index, (written_request h).2.2.2 key hkey]

theorem receiveCallback_written
    (h : message.set "type" (.str requestType) >>= complete false n = some v) :
    receiveCallback requestType v = receiveCallback requestType message := by
  unfold receiveCallback
  rw [index_written h (by decide), index_written h (by decide), index_written h (by decide),
    index_written h (by decide), index_written h (by decide), index_written h (by decide)]

theorem asU64_optional (n : Option ℕ) : asU64 (optional n) = n := by
  cases n <;> rfl

/-- The sender and the receiver agree on the names of the arguments. -/
theorem receiveCallback_request (call : Call) :
    ∃ requestType fields, call.request = some (requestType, .obj fields) ∧
      receiveCallback requestType (.obj fields) = some call ∧
      requestType ≠ "PING" ∧ requestType ≠ "LEADER_ANNOUNCEMENT" := by
  cases call with
  | getMessages c limit offset =>
    refine ⟨_, _, rfl, ?_, by decide, by decide⟩
    have hcall : receiveCallback "get_messages"
        (.obj [("channel", .str c), ("limit", optional limit), ("offset", optional offset)]) =
          some (.getMessages c (asU64 (optional limit)) (asU64 (optional offset))) := rfl
    rw [hcall, asU64_optional, asU64_optional]
  | _ => exact ⟨_, _, rfl, rfl, by decide, by decide⟩

theorem request_round_trip (call : Call) (n : ℕ) :
    ∃ requestType v, call.written n = some v ∧
      peerTask v = some (.request (n + 1) requestType v) ∧
      receiveCallback requestType v = some call := by
  obtain ⟨requestType, fields, hrequest, hcall, hping, hleader⟩ := receiveCallback_request call
  obtain ⟨v, hv⟩ := written_obj fields requestType n
  refine ⟨requestType, v, ?_, peerTask_request hv hping hleader, ?_⟩
  · rw [Call.written, hrequest]
    exact hv
  · rw [receiveCallback_written hv, hcall]

/-! ## Results come back -/

theorem statusFromU16_status {status : ℕ} (h : IsStatusCode status) :
    statusFromU16 status = some status := by
  have hmod : status % 2 ^ 16 = status := Nat.mod_eq_of_lt (by unfold IsStatusCode at h; omega)
  rw [statusFromU16, hmod, if_pos h]

theorem stateResultFromValue_toValue {α : Type} [Serde α] (r : StateResult α)
    (status : ∀ e, r = .error e → IsStatusCode e.status) :
    stateResultFromValue (stateResultToValue r) = some r := by
  cases r with
  | ok v =>
    have hvalue : stateResultFromValue (α := α) (stateResultToValue (.ok v : StateResult α)) =
        (Serde.deserialize (Serde.serialize v)).map .ok := rfl
    rw [hvalue, Serde.read_back]
    rfl
  | error e =>
    have hvalue : stateResultFromValue (α := α) (stateResultToValue (.error e : StateResult α)) =
        (statusFromU16 e.status).bind fun s => some (.error ⟨s, e.code, e.message⟩) := rfl
    rw [hvalue, statusFromU16_status (status e rfl)]
    rfl

/-- A result is read from the keys `error` and `ok` alone. -/
theorem stateResultFromValue_written {α : Type} [Serde α]
    (h : writtenAnswer seq requestType n message = some v) :
    stateResultFromValue (α := α) v = stateResultFromValue message := by
  have hfields := (written_answer h).2.2
  unfold stateResultFromValue
  rw [hfields "error" (by decide), Json.index, Json.index, hfields "ok" (by decide)]

theorem result_round_trip {α : Type} [Serde α] (r : StateResult α)
    (status : ∀ e, r = .error e → IsStatusCode e.status) (seq n : ℕ) (requestType : String) :
    ∃ v, writtenAnswer seq requestType n (stateResultToValue r) = some v ∧
      peerTask v = some (.response seq v) ∧ stateResultFromValue v = some r := by
  obtain ⟨fields, hfields⟩ : ∃ fields, stateResultToValue r = .obj fields := by
    cases r <;> exact ⟨_, rfl⟩
  obtain ⟨v, hv⟩ := answer_obj fields seq requestType n
  rw [← hfields] at hv
  refine ⟨v, hv, peerTask_answer hv, ?_⟩
  rw [stateResultFromValue_written hv, stateResultFromValue_toValue r status]

theorem user_exists_round_trip (exists? : Bool)
    (h : writtenAnswer seq requestType n (userExistsToValue exists?) = some v) :
    peerTask v = some (.response seq v) ∧ userExistsFromValue v = some exists? := by
  refine ⟨peerTask_answer h, ?_⟩
  rw [userExistsFromValue, Json.index, (written_answer h).2.2 "user_exists" (by decide)]
  rfl

/-! ## Heartbeats and announcements -/

/-- A ping is answered under its own number. -/
theorem ping_round_trip {id id' : String} {m : ℕ} {pong : Json}
    (h : complete false n (pingMessage id) = some v)
    (h' : complete true m (pongMessage id' v) = some pong) :
    peerTask v = some (.ping v) ∧ peerTask pong = some (.response (n + 1) pong) := by
  obtain rfl := Option.some.inj h
  obtain rfl := Option.some.inj h'
  exact ⟨rfl, rfl⟩

theorem announcement_received {id : String} (h : complete false n (leaderMessage id) = some v) :
    peerTask v = some (.leaderAnnouncement id) := by
  obtain rfl := Option.some.inj h
  rfl

/-! ## The result -/

/-- **The wire round trip.** Every request that one server writes is decoded by the other into the
same operation with the same arguments, and every result comes back as it was. -/
theorem wire_round_trip :
    (∀ (call : Call) (n : ℕ), ∃ requestType v, call.written n = some v ∧
        peerTask v = some (.request (n + 1) requestType v) ∧
        receiveCallback requestType v = some call) ∧
      ∀ (α : Type) [Serde α] (r : StateResult α), (∀ e, r = .error e → IsStatusCode e.status) →
        ∀ (seq n : ℕ) (requestType : String),
          ∃ v, writtenAnswer seq requestType n (stateResultToValue r) = some v ∧
            peerTask v = some (.response seq v) ∧ stateResultFromValue v = some r := by
  constructor
  · exact request_round_trip
  · intro α _ r status seq n requestType
    exact result_round_trip r status seq n requestType

/-- A page of messages, and a channel that does not exist. -/
theorem wire_round_trip_messages :
    (∃ requestType v, (Call.getMessages "#cs249" none (some 2)).written 6 = some v ∧
        peerTask v = some (.request 7 requestType v) ∧
        receiveCallback requestType v = some (.getMessages "#cs249" none (some 2))) ∧
      (∃ v, writtenAnswer 7 "get_messages" 3
          (stateResultToValue (.ok [(⟨"alice", "hi", "#cs249-0"⟩ : Message)])) = some v ∧
        peerTask v = some (.response 7 v) ∧
        stateResultFromValue v = some (.ok [(⟨"alice", "hi", "#cs249-0"⟩ : Message)])) ∧
      ∃ v, writtenAnswer 7 "get_messages" 3
          (stateResultToValue (.error DiscordStateops.unknownChannel : StateResult Unit)) = some v ∧
        peerTask v = some (.response 7 v) ∧
        stateResultFromValue v =
          some (.error DiscordStateops.unknownChannel : StateResult Unit) := by
  refine ⟨wire_round_trip.1 _ 6, wire_round_trip.2 (List Message) (.ok _) ?_ 7 3 _,
    wire_round_trip.2 Unit (.error _) ?_ 7 3 _⟩
  · intro e he
    cases he
  · intro e he
    obtain rfl := Except.error.inj he
    decide

end MiniDiscord.Wire
