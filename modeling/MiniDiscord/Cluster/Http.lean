import MiniDiscord.Cluster.Answers
import MiniDiscord.Cluster.HttpHandlers
import MiniDiscord.Cluster.Linearizable

/-!
# The cluster behind its endpoints

Every request of a client comes in through `http_handlers.rs`. An exchange is one HTTP request and
what has become of it; the calls that the handlers make are the requests to the cluster.
-/

namespace MiniDiscord.Cluster

open DiscordStateops

/-! ## Exchanges -/

inductive Progress
  /-- The handler has not run. -/
  | handling
  /-- The handler awaits its call, the request of this number. -/
  | waiting (req : ℕ)
  | answered (result : HttpResult)
  | panicked
deriving DecidableEq

structure Exchange where
  server : ServerId
  request : HttpRequest
  progress : Progress

structure Front where
  world : World
  exchanges : List Exchange

def Front.init : Front := ⟨.init, []⟩

inductive FrontEvent
  | arrive (s : ServerId) (request : HttpRequest)
  /-- The handler of the `n`th exchange runs. The leader is whom the leader tasks of its server have
  chosen last. -/
  | handle (n : ℕ) (leader : ServerId)
  /-- a step of the cluster; requests come from handlers alone -/
  | cluster (e : Event)

/-- What is made of the outcome of a call. -/
def Handler.present : Handler → StateResult Value → Option HttpResult
  | .call _ present, .ok v => (present v).map .ok
  | .call _ _, .error e => some (.error e)
  | _, _ => none

namespace Front

def setProgress (front : Front) (n : ℕ) (x : Exchange) (progress : Progress) : Front :=
  { front with exchanges := front.exchanges.set n { x with progress } }

def step (hash : String → ℕ) (front : Front) : FrontEvent → Option Front
  | .arrive s request =>
    if front.world.servers.crashed s then none
    else some { front with exchanges := front.exchanges ++ [⟨s, request, .handling⟩] }
  | .handle n leader => do
    let x ← front.exchanges[n]?
    if x.progress ≠ .handling ∨ front.world.servers.crashed x.server then none
    else match x.request.handler with
      | .respond result => some (front.setProgress n x (.answered result))
      | .look result =>
        some (front.setProgress n x
          (.answered (result x.server (front.world.servers.view x.server) leader)))
      | .read result =>
        some (front.setProgress n x
          (if front.world.servers.poisoned x.server then .panicked
            else .answered (result (front.world.servers.store x.server))))
      | .call op _ => do
        let world ← front.world.step hash (.submit x.server op)
        some { front.setProgress n x (.waiting front.world.nextReq) with world }
  | .cluster (.submit _ _) => none
  | .cluster e => do
    let world ← front.world.step hash e
    some { front with world }

/-- `ok` says which steps of the cluster a run may contain. -/
def Allows (ok : World → Event → Prop) (front : Front) : FrontEvent → Prop
  | .cluster e => ok front.world e
  | _ => True

instance (ok : World → Event → Prop) [∀ w e, Decidable (ok w e)] (front : Front) :
    DecidablePred (front.Allows ok)
  | .cluster e => inferInstanceAs (Decidable (ok front.world e))
  | .arrive _ _ | .handle _ _ => inferInstanceAs (Decidable True)

/-- The events lead from the initial servers to `front`. -/
abbrev Reaches (hash : String → ℕ) (ok : World → Event → Prop) (es : List FrontEvent)
    (front : Front) : Prop :=
  Run.Exec (Front.step hash) (Front.Allows ok) .init es front

/-- What the client of the `n`th exchange is told. -/
def response (front : Front) (n : ℕ) : Option HttpResult := do
  let x ← front.exchanges[n]?
  match x.progress with
  | .answered result => some result
  | .waiting req => do
    let reply ← front.world.returned.find? (·.req = req)
    x.request.handler.present reply.result
  | _ => none

/-- The `n`th exchange awaits the request `req`. -/
def Waits (front : Front) (n : ℕ) (request : HttpRequest) (req : ℕ) : Prop :=
  ∃ s, front.exchanges[n]? = some ⟨s, request, .waiting req⟩

end Front

/-! ## What has taken effect -/

def Exchange.waitsFor (x : Exchange) (req : ℕ) : Bool := x.progress = .waiting req

/-- What the effect of a request to the cluster is to its HTTP client. -/
def Front.entry (front : Front) (x : Entry Op (StateResult Value)) :
    Option (Entry HttpRequest HttpResult) := do
  let n ← front.exchanges.findIdx? (·.waitsFor x.call)
  let y ← front.exchanges[n]?
  let result ← y.request.handler.present x.answer
  some ⟨n, y.request, result⟩

def httpEffectAt (front : Front) (e : FrontEvent) (front' : Front) :
    Option (Entry HttpRequest HttpResult) :=
  match e with
  | .cluster e => do
    let x ← effectAt front.world e front'.world
    front.entry x
  | _ => none

/-- The HTTP requests that have taken effect along the events, in this order. -/
def httpEffects (hash : String → ℕ) (es : List FrontEvent) : List (Entry HttpRequest HttpResult) :=
  Run.record (Front.step hash)
    (fun entries front e front' => entries ++ (httpEffectAt front e front').toList) [] .init es

/-- One server with the central store and the same handlers. -/
def centralHttp (request : HttpRequest) (st : AppState) : Option (HttpResult × AppState) :=
  match request.handler with
  | .call op _ => do
    let (r, st') ← central op st
    let result ← request.handler.present r
    some (result, st')
  | _ => none

variable {hash : String → ℕ} {ok : World → Event → Prop} {front front' : Front} {e : FrontEvent}
  {es : List FrontEvent} {request : HttpRequest} {op : Op} {req n : ℕ} {r : StateResult Value}
  {σ σ' : Servers} {stack stack' : List Frame} {w w' : World} {e' : Event}

/-! ## Handlers present what their calls return -/

/-- A call returns nothing that its handler has no payload for. -/
def Handler.Sound (handler : Handler) : Prop :=
  ∀ op present, handler = .call op present → ∀ v, op.Returns v → ∃ payload, present v = some payload

theorem sound_choose {handlers : List (Method × Handler)}
    (h : ∀ m handler, (m, handler) ∈ handlers → handler.Sound) :
    (request.choose methodNotAllowed handlers).Sound := by
  rcases request.choose_cases methodNotAllowed handlers with heq | ⟨method, hmem⟩
  · rw [heq]
    exact nofun
  · exact h method _ hmem

theorem sound_call {op : Op} {present : Value → Option Payload}
    (h : ∀ v, op.Returns v → ∃ payload, present v = some payload) :
    (Handler.call op present).Sound := by
  intro op' present' heq
  cases heq
  exact h

theorem sound_postUser (body : Except JsonRejection String) : (postUser body).Sound := by
  cases body with
  | error => exact nofun
  | ok u =>
    refine sound_call fun v returns => ?_
    cases v with
    | unit => exact ⟨_, rfl⟩
    | _ => cases returns

theorem sound_httpGetUsers : httpGetUsers.Sound := by
  refine sound_call fun v returns => ?_
  cases v with
  | sorted all => exact ⟨_, rfl⟩
  | _ => cases returns

theorem sound_httpGetChannels : httpGetChannels.Sound := by
  refine sound_call fun v returns => ?_
  cases v with
  | sorted all => exact ⟨_, rfl⟩
  | _ => cases returns

theorem sound_httpJoinChannel (header : Option (List UInt8)) (c : String) :
    (httpJoinChannel header c).Sound := by
  unfold httpJoinChannel
  cases existingUser header with
  | error => exact nofun
  | ok u =>
    refine sound_call fun v returns => ?_
    cases v with
    | unit => exact ⟨_, rfl⟩
    | _ => cases returns

theorem sound_httpListChannelUsers (c : String) : (httpListChannelUsers c).Sound := by
  refine sound_call fun v returns => ?_
  cases v with
  | names all => exact ⟨_, rfl⟩
  | _ => cases returns

theorem sound_httpLeaveChannel (c u : String) : (httpLeaveChannel c u).Sound := by
  refine sound_call fun v returns => ?_
  cases v with
  | unit => exact ⟨_, rfl⟩
  | _ => cases returns

theorem sound_httpSendMessage (header : Option (List UInt8)) (c : String)
    (body : Except JsonRejection String) : (httpSendMessage header c body).Sound := by
  unfold httpSendMessage
  cases existingUser header with
  | error => exact nofun
  | ok u =>
    cases body with
    | error => exact nofun
    | ok t =>
      refine sound_call fun v returns => ?_
      cases v with
      | messageId id => exact ⟨_, rfl⟩
      | _ => cases returns

theorem sound_paged {params : String → Option String} {handler : Option ℕ → Option ℕ → Handler}
    (h : ∀ limit offset, (handler limit offset).Sound) : (paged params handler).Sound := by
  unfold paged
  cases queryNumber invalidLimit (params "limit") with
  | error => exact nofun
  | ok limit =>
    cases queryNumber invalidOffset (params "offset") with
    | error => exact nofun
    | ok offset => exact h limit offset

theorem sound_httpGetMessages (c : String) (params : String → Option String) :
    (httpGetMessages c params).Sound := by
  refine sound_paged fun limit offset => sound_call fun v returns => ?_
  cases v with
  | messages all => exact ⟨_, rfl⟩
  | _ => cases returns

theorem sound_channelRoute (request : HttpRequest) (channel last : String) :
    (request.channelRoute channel last).Sound := by
  unfold HttpRequest.channelRoute
  split_ifs
  · refine sound_choose fun m handler hmem => ?_
    obtain ⟨-, rfl⟩ := Prod.mk.inj (List.mem_singleton.mp hmem)
    exact sound_httpJoinChannel _ _
  · refine sound_choose fun m handler hmem => ?_
    obtain ⟨-, rfl⟩ := Prod.mk.inj (List.mem_singleton.mp hmem)
    exact sound_httpListChannelUsers _
  · refine sound_choose fun m handler hmem => ?_
    rcases List.mem_cons.mp hmem with heq | hmem
    · obtain ⟨-, rfl⟩ := Prod.mk.inj heq
      exact sound_httpSendMessage _ _ _
    · obtain ⟨-, rfl⟩ := Prod.mk.inj (List.mem_singleton.mp hmem)
      exact sound_httpGetMessages _ _
  · exact nofun

theorem sound_debugChannelRoute (request : HttpRequest) (channel last : String) :
    (request.debugChannelRoute channel last).Sound := by
  unfold HttpRequest.debugChannelRoute
  split_ifs
  · refine sound_choose fun m handler hmem => ?_
    obtain ⟨-, rfl⟩ := Prod.mk.inj (List.mem_singleton.mp hmem)
    exact nofun
  · refine sound_choose fun m handler hmem => ?_
    obtain ⟨-, rfl⟩ := Prod.mk.inj (List.mem_singleton.mp hmem)
    exact sound_paged fun _ _ => nofun
  · exact nofun

theorem sound_handler (request : HttpRequest) : request.handler.Sound := by
  unfold HttpRequest.handler
  split
  case h_4 =>
    refine sound_choose fun m handler hmem => ?_
    rcases List.mem_cons.mp hmem with heq | hmem
    · obtain ⟨-, rfl⟩ := Prod.mk.inj heq
      exact sound_postUser _
    · obtain ⟨-, rfl⟩ := Prod.mk.inj (List.mem_singleton.mp hmem)
      exact sound_httpGetUsers
  case h_6 =>
    refine sound_choose fun m handler hmem => ?_
    obtain ⟨-, rfl⟩ := Prod.mk.inj (List.mem_singleton.mp hmem)
    exact sound_httpGetChannels
  case h_8 => exact sound_channelRoute _ _ _
  case h_9 =>
    split_ifs
    · exact nofun
    · refine sound_choose fun m handler hmem => ?_
      obtain ⟨-, rfl⟩ := Prod.mk.inj (List.mem_singleton.mp hmem)
      exact sound_httpLeaveChannel _ _
  case h_10 => exact sound_debugChannelRoute _ _ _
  case h_11 => exact nofun
  -- the rest reads what its own server has
  all_goals
    refine sound_choose fun m handler hmem => ?_
    obtain ⟨-, rfl⟩ := Prod.mk.inj (List.mem_singleton.mp hmem)
    exact nofun

/-- An answer of the call is presented. -/
theorem presented {present : Value → Option Payload} (handler : request.handler = .call op present)
    (answers : op.Answers r) : ∃ result, request.handler.present r = some result := by
  rw [handler]
  cases r with
  | error e => exact ⟨_, rfl⟩
  | ok v =>
    obtain ⟨payload, hpayload⟩ := sound_handler request op present handler v answers
    exact ⟨.ok payload, by rw [Handler.present, hpayload]; rfl⟩

/-! ## Steps -/

/-- What a step does, and when it can. -/
inductive FrontStep (hash : String → ℕ) (front : Front) : FrontEvent → Front → Prop
  | arrived (s : ServerId) (request : HttpRequest) :
      FrontStep hash front (.arrive s request)
        { front with exchanges := front.exchanges ++ [⟨s, request, .handling⟩] }
  | handled (n : ℕ) (leader : ServerId) (x : Exchange) (progress : Progress)
      (found : front.exchanges[n]? = some x) (handling : x.progress = .handling)
      (ends : ∀ req, progress ≠ .waiting req) :
      FrontStep hash front (.handle n leader) (front.setProgress n x progress)
  | called (n : ℕ) (leader : ServerId) (x : Exchange) (op : Op)
      (present : Value → Option Payload) (world : World)
      (found : front.exchanges[n]? = some x) (handling : x.progress = .handling)
      (handler : x.request.handler = .call op present)
      (taken : front.world.step hash (.submit x.server op) = some world) :
      FrontStep hash front (.handle n leader)
        { front.setProgress n x (.waiting front.world.nextReq) with world := world }
  | stepped (e : Event) (world : World) (other : ∀ s op, e ≠ .submit s op)
      (taken : front.world.step hash e = some world) :
      FrontStep hash front (.cluster e) { front with world := world }

theorem frontStep_cases (h : front.step hash e = some front') : FrontStep hash front e front' := by
  cases e with
  | arrive s request =>
    simp only [Front.step] at h
    split_ifs at h
    cases h
    exact .arrived s request
  | handle n leader =>
    simp only [Front.step, Option.bind_eq_bind, Option.bind_eq_some_iff] at h
    obtain ⟨x, found, h⟩ := h
    by_cases hbusy : x.progress ≠ .handling ∨ front.world.servers.crashed x.server = true
    · rw [if_pos hbusy] at h
      cases h
    rw [if_neg hbusy] at h
    have handling : x.progress = .handling := by
      by_contra hne
      exact hbusy (Or.inl hne)
    split at h
    · cases h
      exact .handled n leader x _ found handling nofun
    · cases h
      exact .handled n leader x _ found handling nofun
    · cases h
      refine .handled n leader x _ found handling fun req => ?_
      split_ifs <;> exact nofun
    · rename_i op present handler
      obtain ⟨world, taken, h⟩ := Option.bind_eq_some_iff.mp h
      cases h
      exact .called n leader x op present world found handling handler taken
  | cluster e =>
    cases e with
    | submit s op => cases h
    | _ =>
      obtain ⟨world, taken, h⟩ := Option.bind_eq_some_iff.mp h
      cases h
      exact .stepped _ world nofun taken

/-- The jobs of a request keep its number and its operation. -/
theorem step_kept (h : w.step hash e' = some w') (other : ∀ s op, e' ≠ .submit s op) :
    (∀ j' ∈ w'.jobs, ∃ j ∈ w.jobs, j.req = j'.req ∧ j.op = j'.op) ∧
    (∀ x ∈ w'.returned, x ∈ w.returned ∨ ∃ j ∈ w.jobs, j.req = x.req ∧ j.op = x.op) ∧
    w'.nextReq = w.nextReq := by
  have hreplaced : ∀ {pre post : List Job} {j j' : Job}, w.jobs = pre ++ j :: post →
      ∀ k ∈ pre ++ j' :: post, j'.req = j.req → j'.op = j.op →
        ∃ j ∈ w.jobs, j.req = k.req ∧ j.op = k.op := by
    intro pre post j j' jobs k hk hreq hop
    simp only [List.mem_append, List.mem_cons] at hk
    rcases hk with hk | rfl | hk
    · exact ⟨k, by simp [jobs, hk], rfl, rfl⟩
    · exact ⟨j, by simp [jobs], hreq.symm, hop.symm⟩
    · exact ⟨k, by simp [jobs, hk], rfl, rfl⟩
  cases step_cases h with
  | submitted s op live => exact absurd rfl (other s op)
  | advanced j pre post σ' stack' jobs advance =>
    exact ⟨fun k hk => hreplaced jobs k hk rfl rfl, fun x hx => Or.inl hx, rfl⟩
  | replied j pre post s r jobs stack live attached =>
    refine ⟨fun k hk => hreplaced jobs k hk rfl rfl, fun x hx => ?_, rfl⟩
    rcases List.mem_append.mp hx with hx | hx
    · exact Or.inl hx
    · obtain rfl := List.mem_singleton.mp hx
      exact Or.inr ⟨j, by simp [jobs], rfl, rfl⟩
  | gaveUp j pre post s p pc upper lower jobs stack live awaits failed =>
    refine ⟨fun k hk => ?_, fun x hx => Or.inl hx, rfl⟩
    rcases List.mem_append.mp hk with hk | hk
    · exact hreplaced jobs k hk rfl rfl
    · obtain rfl := List.mem_singleton.mp hk
      exact ⟨j, by simp [jobs], rfl, rfl⟩
  | hungUp j pre post jobs attached =>
    exact ⟨fun k hk => hreplaced jobs k hk rfl rfl, fun x hx => Or.inl hx, rfl⟩
  | suspected | crashed => exact ⟨fun j hj => ⟨j, hj, rfl, rfl⟩, fun x hx => Or.inl hx, rfl⟩

/-! ## Exchanges and their requests -/

/-- The request is that of an exchange. -/
def Front.Asked (front : Front) (req : ℕ) (op : Op) : Prop :=
  ∃ n request present, front.Waits n request req ∧ request.handler = .call op present

structure Front.Linked (front : Front) : Prop where
  jobs : ∀ j ∈ front.world.jobs, front.Asked j.req j.op
  returned : ∀ x ∈ front.world.returned, front.Asked x.req x.op
  number : ∀ n request req, front.Waits n request req → req < front.world.nextReq
  single : ∀ n m request request' req, front.Waits n request req → front.Waits m request' req →
    n = m

theorem waits_later (h : FrontStep hash front e front') (waits : front.Waits n request req) :
    front'.Waits n request req := by
  obtain ⟨s, hfound⟩ := waits
  have hset : ∀ {m : ℕ} {x x' : Exchange}, front.exchanges[m]? = some x → x.progress = .handling →
      (front.exchanges.set m x')[n]? = some ⟨s, request, .waiting req⟩ := by
    intro m x x' found handling
    rw [List.getElem?_set_ne, hfound]
    rintro rfl
    rw [hfound] at found
    cases found
    cases handling
  cases h with
  | arrived t request' =>
    exact ⟨s, by rw [List.getElem?_append_left (List.getElem?_eq_some_iff.mp hfound).1, hfound]⟩
  | handled m leader x progress found handling ends => exact ⟨s, hset found handling⟩
  | called m leader x op present world found handling handler taken =>
    exact ⟨s, hset found handling⟩
  | stepped e world other taken => exact ⟨s, hfound⟩

theorem asked_later {op : Op} (h : FrontStep hash front e front') (asked : front.Asked req op) :
    front'.Asked req op := by
  obtain ⟨n, request, present, waits, handler⟩ := asked
  exact ⟨n, request, present, waits_later h waits, handler⟩

/-- An exchange begins to wait for a new request only. -/
theorem waits_before (h : FrontStep hash front e front') (waits : front'.Waits n request req) :
    front.Waits n request req ∨ req = front.world.nextReq ∧
      ∃ leader, e = .handle n leader ∧ front'.world.nextReq = front.world.nextReq + 1 := by
  obtain ⟨s, hfound⟩ := waits
  cases h with
  | arrived t request' =>
    left
    rcases Nat.lt_or_ge n front.exchanges.length with hlt | hge
    · exact ⟨s, by rwa [List.getElem?_append_left hlt] at hfound⟩
    · rw [List.getElem?_append_right hge, List.getElem?_singleton] at hfound
      split_ifs at hfound
      cases hfound
  | handled m leader x progress found handling ends =>
    left
    refine ⟨s, ?_⟩
    simp only [Front.setProgress, List.getElem?_set] at hfound
    split_ifs at hfound with heq hlt
    · cases hfound
      exact absurd rfl (ends req)
    · exact hfound
  | called m leader x op present world found handling handler taken =>
    simp only [Front.setProgress, List.getElem?_set] at hfound
    split_ifs at hfound with heq hlt
    · cases hfound
      cases step_cases taken
      exact Or.inr ⟨rfl, leader, by rw [heq], rfl⟩
    · exact Or.inl ⟨s, hfound⟩
  | stepped e world other taken => exact Or.inl ⟨s, hfound⟩

theorem linked_init : Front.init.Linked where
  jobs _ h := by cases h
  returned _ h := by cases h
  number n request req h := by
    obtain ⟨s, h⟩ := h
    cases h
  single n m request request' req h _ := by
    obtain ⟨s, h⟩ := h
    cases h

theorem linked_step (linked : front.Linked) (h : FrontStep hash front e front') :
    front'.Linked := by
  have hnext : front.world.nextReq ≤ front'.world.nextReq := by
    cases h with
    | arrived | handled => exact le_refl _
    | called n leader x op present world found handling handler taken =>
      cases step_cases taken
      exact Nat.le_succ _
    | stepped e world other taken => exact (step_kept taken other).2.2.ge
  have hlater : ∀ {req : ℕ} {op : Op}, front.Asked req op → front'.Asked req op :=
    fun asked => asked_later h asked
  refine ⟨fun j hj => ?_, fun x hx => ?_, fun n request req waits => ?_,
    fun n m request request' req waits waits' => ?_⟩
  · cases h with
    | arrived | handled => exact hlater (linked.jobs j hj)
    | called n leader x op present world found handling handler taken =>
      cases step_cases taken
      rcases List.mem_append.mp hj with hj | hj
      · exact hlater (linked.jobs j hj)
      · obtain rfl := List.mem_singleton.mp hj
        exact ⟨n, x.request, present, ⟨x.server, List.getElem?_set_self
          (List.getElem?_eq_some_iff.mp found).1⟩, handler⟩
    | stepped e world other taken =>
      obtain ⟨k, hk, hreq, hop⟩ := (step_kept taken other).1 j hj
      rw [← hreq, ← hop]
      exact hlater (linked.jobs k hk)
  · cases h with
    | arrived | handled => exact hlater (linked.returned x hx)
    | called n leader x op present world found handling handler taken =>
      cases step_cases taken
      exact hlater (linked.returned _ hx)
    | stepped e world other taken =>
      rcases (step_kept taken other).2.1 x hx with hx | ⟨k, hk, hreq, hop⟩
      · exact hlater (linked.returned x hx)
      · rw [← hreq, ← hop]
        exact hlater (linked.jobs k hk)
  · rcases waits_before h waits with waits | ⟨rfl, leader, -, hone⟩
    · exact (linked.number n request req waits).trans_le hnext
    · omega
  · rcases waits_before h waits with waits | ⟨rfl, leader, he, -⟩ <;>
      rcases waits_before h waits' with waits' | ⟨hreq, leader', he', -⟩
    · exact linked.single n m request request' req waits waits'
    · exact absurd (linked.number n request req waits) (by omega)
    · exact absurd (linked.number m request' _ waits') (by omega)
    · rw [he] at he'
      cases he'
      rfl

/-! ## Effects -/

/-- What has taken effect at the cluster, and what its exchange is told. -/
def Front.Matches (front : Front) (x : Entry Op (StateResult Value))
    (y : Entry HttpRequest HttpResult) : Prop :=
  front.Waits y.call y.op x.call ∧ (∃ present, y.op.handler = .call x.op present) ∧
    y.op.handler.present x.answer = some y.answer

theorem matches_later {x : Entry Op (StateResult Value)} {y : Entry HttpRequest HttpResult}
    (h : FrontStep hash front e front') (same : front.Matches x y) : front'.Matches x y :=
  ⟨waits_later h same.1, same.2⟩

theorem entry_some {x : Entry Op (StateResult Value)} (linked : front.Linked)
    (asked : front.Asked x.call x.op) (answers : x.op.Answers x.answer) :
    ∃ y, front.entry x = some y ∧ front.Matches x y := by
  obtain ⟨n, request, present, ⟨s, hfound⟩, handler⟩ := asked
  cases hindex : front.exchanges.findIdx? (·.waitsFor x.call) with
  | none =>
    have hnone := List.findIdx?_eq_none_iff.mp hindex _ (List.mem_of_getElem? hfound)
    simp [Exchange.waitsFor] at hnone
  | some m =>
    obtain ⟨hlt, hwaits, -⟩ := List.findIdx?_eq_some_iff_getElem.mp hindex
    have hprogress : front.exchanges[m].progress = .waiting x.call := by
      simpa [Exchange.waitsFor] using hwaits
    have hm : front.exchanges[m]? =
        some ⟨front.exchanges[m].server, front.exchanges[m].request, .waiting x.call⟩ := by
      rw [List.getElem?_eq_getElem hlt, ← hprogress]
    obtain rfl : n = m := linked.single _ _ _ _ _ ⟨s, hfound⟩ ⟨_, hm⟩
    obtain ⟨result, hresult⟩ := presented handler answers
    refine ⟨⟨n, request, result⟩, ?_, ⟨s, hfound⟩, ⟨present, handler⟩, hresult⟩
    simp [Front.entry, hindex, hfound, hresult]

/-- What a step settles is an answer to the request. -/
theorem takesEffect_answers (vetted : Answering.Vetted hash σ req op stack)
    (asked : ∀ dest request, stack ≠ [.request dest request])
    (fits : Frames (Passing op.Answers) stack') (h : takesEffect op stack stack' = some r) :
    op.Answers r := by
  obtain ⟨placed, names⟩ := vetted
  unfold takesEffect at h
  split at h
  · cases h
    exact fits.1
  · cases h
    exact fits.1
  · cases h
    exact fits.1
  · cases h
    exact fits.1
  · rename_i dest rest found rest'
    split_ifs at h with hforwarded hfound
    · cases h
      cases op <;> trivial
    · cases h
      rcases rest with _ | ⟨below, rest⟩
      · exact absurd rfl (asked dest _)
      · have hon : Fits op (.request dest .userExists) below := placed.1.fits _ rfl
        rcases below with ⟨s, pc⟩ | _ | _
        · rcases hon with rfl | ⟨-, hop⟩
          · exact unknownUser_answers placed.2.1.reached names.2.1
          · exact absurd hop hforwarded
        · cases hon
        · cases hon
  · cases h

theorem effectAt_answers {es : List Event} {x : Entry Op (StateResult Value)}
    (calm : ∀ w e, ok w e → AtRest oneCrash w e) (run : Run.Exec (World.step hash) ok .init es w)
    (allowed : ok w e') (taken : w.step hash e' = some w') (h : effectAt w e' w' = some x) :
    (∃ j ∈ w.jobs, j.req = x.call ∧ j.op = x.op) ∧ x.op.Answers x.answer := by
  have hfits := fits_answers (oneCrash_crashStop calm (run.snoc allowed taken))
  cases step_cases taken with
  | advanced j pre post σ' stack' jobs advance =>
    have hj : j ∈ w.jobs := by simp [jobs]
    rw [effectAt_advance jobs] at h
    obtain ⟨r, htakes, rfl⟩ := Option.map_eq_some_iff.mp h
    refine ⟨⟨j, hj, rfl, rfl⟩, ?_⟩
    have hrun := oneCrash_crashStop calm run
    exact takesEffect_answers (Answering.vetted es w hrun j hj)
      (standing_asked (standing calm run j hj).1 advance)
      (hfits.jobs { j with stack := stack' } (by simp)) htakes
  | replied j pre post s r jobs stack live attached =>
    rw [effectAt_advance jobs, stack] at h
    cases h
  | _ => cases h

theorem httpEffects_snoc (run : Front.Reaches hash ok es front)
    (taken : front.step hash e = some front') : httpEffects hash (es ++ [e]) =
      httpEffects hash es ++ (httpEffectAt front e front').toList :=
  Run.record_snoc run taken

/-- Behind the endpoints is a run of the cluster, and its effects are those of the exchanges. -/
theorem front_run (calm : ∀ w e, ok w e → AtRest oneCrash w e)
    (submits : ∀ w s op, ok w (.submit s op)) (run : Front.Reaches hash ok es front) :
    front.Linked ∧ ∃ es', Run.Exec (World.step hash) ok .init es' front.world ∧
      List.Forall₂ front.Matches (effects hash es') (httpEffects hash es) := by
  refine run.history (P := fun es front => front.Linked ∧
    ∃ es', Run.Exec (World.step hash) ok .init es' front.world ∧
      List.Forall₂ front.Matches (effects hash es') (httpEffects hash es))
    ⟨linked_init, [], .nil, .nil⟩ ?_
  rintro es front e front' prefix_run ⟨linked, es', world_run, same⟩ allowed taken
  have hstep := frontStep_cases taken
  have hlater : List.Forall₂ front'.Matches (effects hash es') (httpEffects hash es) :=
    same.imp fun _ _ => matches_later hstep
  refine ⟨linked_step linked hstep, ?_⟩
  rw [httpEffects_snoc prefix_run taken]
  cases hstep with
  | arrived | handled => exact ⟨es', world_run, by simpa [httpEffectAt] using hlater⟩
  | called n leader x op present world found handling handler submitted =>
    refine ⟨es' ++ [.submit x.server op], world_run.snoc (submits _ _ _) submitted, ?_⟩
    rw [effects_snoc world_run submitted]
    simpa [effectAt, httpEffectAt] using hlater
  | stepped e world other stepped =>
    refine ⟨es' ++ [e], world_run.snoc allowed stepped, ?_⟩
    rw [effects_snoc world_run stepped]
    cases heffect : effectAt front.world e world with
    | none => simpa [httpEffectAt, heffect] using hlater
    | some x =>
      obtain ⟨⟨j, hj, hreq, hop⟩, answers⟩ :=
        effectAt_answers calm world_run allowed stepped heffect
      have hasked : front.Asked x.call x.op := hreq ▸ hop ▸ linked.jobs j hj
      obtain ⟨y, hentry, hmatches⟩ := entry_some linked hasked answers
      have hlast : List.Forall₂ ({ front with world := world } : Front).Matches [x] [y] :=
        .cons hmatches .nil
      simpa [httpEffectAt, heffect, hentry] using List.rel_append hlater hlast

/-! ## The result -/

/-- The request is for a call that is routed by a key. -/
def HttpRequest.Routed (hash : String → ℕ) (request : HttpRequest) : Prop :=
  ∃ op present, request.handler = .call op present ∧ op.owner hash ≠ none

/-- The settled response, or for a join or a leave the refusal of a backup that has it already. -/
def HttpTold (loose : Prop) (entries : List (Entry HttpRequest HttpResult)) (n : ℕ)
    (request : HttpRequest) (result : HttpResult) : Prop :=
  ⟨n, request, result⟩ ∈ entries ∨
    loose ∧ (∃ u c present, request.handler = .call (.joinChannel u c) present ∨
      request.handler = .call (.leaveChannel u c) present) ∧
    ∃ e payload, result = .error e ∧ ⟨n, request, .ok payload⟩ ∈ entries

/-- One order explains the HTTP requests of a run. -/
structure HttpOrder (hash : String → ℕ) (holder : LocationConfig → ServerId) (loose : Prop)
    (es : List FrontEvent) (front : Front) : Prop where
  /-- one server, asked in this order, responds so, and holds what the holders hold -/
  central : ∃ st, History centralHttp centralInit (httpEffects hash es) st ∧
    Held hash holder front.world.servers st
  /-- every result of a call is presented -/
  presented : ∀ x ∈ front.world.returned, ∃ n request result,
    front.Waits n request x.req ∧ front.response n = some result
  told : ∀ n request req result, front.Waits n request req → front.response n = some result →
    request.Routed hash → HttpTold loose (httpEffects hash es) n request result
  once : ((httpEffects hash es).map Entry.call).Nodup
  asked : ∀ y ∈ httpEffects hash es, ∃ req, front.Waits y.call y.op req
  final : ∀ es', httpEffects hash es <+: httpEffects hash (es ++ es')

variable {loose : Prop} {entries : List (Entry Op (StateResult Value))} {es' : List Event}
  {http : List (Entry HttpRequest HttpResult)}

theorem matches_answers {x : Entry Op (StateResult Value)} {y : Entry HttpRequest HttpResult}
    {st st' : AppState} (same : front.Matches x y) (h : central x.op st = some (x.answer, st')) :
    centralHttp y.op st = some (y.answer, st') := by
  obtain ⟨-, ⟨present, handler⟩, hpresent⟩ := same
  rw [handler] at hpresent
  simp [centralHttp, handler, h, hpresent]

theorem forall₂_left {α β : Type} {R : α → β → Prop} {l : List α} {l' : List β}
    (same : List.Forall₂ R l l') {a : α} (h : a ∈ l) : ∃ b ∈ l', R a b := by
  induction same with
  | nil => cases h
  | cons hab rest ih =>
    rcases List.mem_cons.mp h with rfl | h
    · exact ⟨_, List.mem_cons_self, hab⟩
    · obtain ⟨b, hb, hr⟩ := ih h
      exact ⟨b, List.mem_cons_of_mem _ hb, hr⟩

theorem matches_right (same : List.Forall₂ front.Matches entries http)
    {y : Entry HttpRequest HttpResult} (h : y ∈ http) : ∃ x ∈ entries, front.Matches x y :=
  forall₂_left same.flip h

theorem waits_unique {req' : ℕ} {request' : HttpRequest} (h : front.Waits n request req)
    (h' : front.Waits n request' req') : request = request' ∧ req = req' := by
  obtain ⟨s, hfound⟩ := h
  obtain ⟨s', hfound'⟩ := h'
  rw [hfound] at hfound'
  cases hfound'
  exact ⟨rfl, rfl⟩

theorem matches_nodup (same : List.Forall₂ front.Matches entries http)
    (once : (entries.map Entry.call).Nodup) : (http.map Entry.call).Nodup := by
  induction same with
  | nil => exact .nil
  | @cons x y entries http hxy rest ih =>
    obtain ⟨hnew, hnodup⟩ := List.nodup_cons.mp once
    refine List.nodup_cons.mpr ⟨fun hmem => ?_, ih hnodup⟩
    obtain ⟨y', hy', hcall⟩ := List.mem_map.mp hmem
    obtain ⟨x', hx', hmatches⟩ := matches_right rest hy'
    have hsame : x'.call = x.call := (waits_unique (hcall ▸ hmatches.1) hxy.1).2
    exact hnew (hsame ▸ List.mem_map_of_mem hx')

/-- The response of an exchange that waits presents the reply to its request. -/
theorem response_waiting {result : HttpResult} (waits : front.Waits n request req)
    (h : front.response n = some result) : ∃ x ∈ front.world.returned, x.req = req ∧
      request.handler.present x.result = some result := by
  obtain ⟨s, hfound⟩ := waits
  simp only [Front.response, hfound, Option.bind_eq_bind, Option.bind_some] at h
  obtain ⟨x, hx, hpresent⟩ := Option.bind_eq_some_iff.mp h
  exact ⟨x, List.mem_of_find?_eq_some hx, by simpa using List.find?_some hx, hpresent⟩

/-- Whatever is replied, the handler has a response. -/
theorem response_some {policy : Policy} (run : Reaches hash policy es' front.world)
    (linked : front.Linked)
    {x : Reply} (hx : x ∈ front.world.returned) :
    ∃ n request result, front.Waits n request x.req ∧ front.response n = some result := by
  obtain ⟨n, request, present, ⟨s, hfound⟩, handler⟩ := linked.returned x hx
  cases hfind : front.world.returned.find? (·.req = x.req) with
  | none =>
    have hnone := List.find?_eq_none.mp hfind x hx
    simp at hnone
  | some x' =>
    have hx' := List.mem_of_find?_eq_some hfind
    have hreq : x'.req = x.req := by simpa using List.find?_some hfind
    obtain ⟨n', request', present', waits', handler'⟩ := linked.returned x' hx'
    rw [hreq] at waits'
    obtain rfl : n = n' := linked.single _ _ _ _ _ ⟨s, hfound⟩ waits'
    obtain rfl : request = request' := (waits_unique ⟨s, hfound⟩ waits').1
    obtain ⟨result, hresult⟩ := presented handler' ((fits_answers run).returned x' hx')
    refine ⟨n, request, result, ⟨s, hfound⟩, ?_⟩
    simp [Front.response, hfound, hfind, hresult]

theorem http_told {result : HttpResult} (linked : front.Linked)
    (same : List.Forall₂ front.Matches entries http) (waits : front.Waits n request req)
    (handler : ∃ present, request.handler = .call op present)
    (hpresent : request.handler.present r = some result) (told : Told loose entries req op r) :
    HttpTold loose http n request result := by
  have hentry : ∀ {r' : StateResult Value}, ⟨req, op, r'⟩ ∈ entries → ∃ result',
      request.handler.present r' = some result' ∧ ⟨n, request, result'⟩ ∈ http := by
    intro r' hmem
    obtain ⟨y, hy, hwaits, -, hresult⟩ := forall₂_left same hmem
    obtain rfl : y.call = n := linked.single _ _ _ _ _ hwaits waits
    obtain rfl : y.op = request := (waits_unique hwaits waits).1
    exact ⟨y.answer, hresult, hy⟩
  rcases told with hmem | ⟨hloose, ⟨u, c, hop⟩, v, e, rfl, hmem⟩
  · obtain ⟨result', hresult', hhttp⟩ := hentry hmem
    rw [hpresent] at hresult'
    cases hresult'
    exact Or.inl hhttp
  · obtain ⟨result', hresult', hhttp⟩ := hentry hmem
    obtain ⟨present, handler⟩ := handler
    rw [handler] at hpresent hresult'
    cases hpresent
    obtain ⟨payload, -, rfl⟩ := Option.map_eq_some_iff.mp hresult'
    refine Or.inr ⟨hloose, ⟨u, c, present, ?_⟩, e, payload, rfl, hhttp⟩
    rcases hop with rfl | rfl
    · exact Or.inl handler
    · exact Or.inr handler

theorem http_order (orderly : Orderly hash loose ok) (submits : ∀ w s op, ok w (.submit s op))
    (run : Front.Reaches hash ok es front) :
    HttpOrder hash front.world.servers.authority loose es front := by
  obtain ⟨linked, es', world_run, same⟩ := front_run orderly.calm submits run
  have horder := one_order orderly world_run
  obtain ⟨st, history, held⟩ := horder.central
  refine ⟨⟨st, history.forall₂ same fun _ _ _ _ => matches_answers, held⟩, fun x hx => ?_,
    fun n request req result waits response routed => ?_, matches_nodup same horder.once,
    fun y hy => ?_, fun es' => ?_⟩
  · exact response_some (oneCrash_crashStop orderly.calm world_run) linked hx
  · obtain ⟨x, hx, rfl, hpresent⟩ := response_waiting waits response
    obtain ⟨m, request', present, waits', handler⟩ := linked.returned x hx
    obtain rfl : n = m := linked.single _ _ _ _ _ waits waits'
    obtain rfl : request = request' := (waits_unique waits waits').1
    obtain ⟨op, present', handler', hroute⟩ := routed
    rw [handler] at handler'
    cases handler'
    exact http_told linked same waits ⟨present, handler⟩ hpresent (horder.told x hx hroute)
  · obtain ⟨x, -, waits, -⟩ := matches_right same hy
    exact ⟨_, waits⟩
  · rw [httpEffects, httpEffects, Run.record_append run]
    exact record_prefix httpEffectAt _ front es'

/-- **HTTP requests in one order.** Without failures, the HTTP requests of all clients to all three
servers, in any number and interleaved in any way, get the responses of one server that handles them
one after the other. Each result of a call has its response; each request that is routed by a key
takes effect at most once, after it was sent; and a response that a client has got is in the order.
To a join or a leave alone, the refusal of a backup that has it already may be told instead. -/
theorem http_linearizable
    (run : Front.Reaches hash (fun w e => failureFree.allows w e = true) es front) :
    HttpOrder hash LocationConfig.primary True es front := by
  have orderly : Orderly hash True fun w e => failureFree.allows w e = true :=
    failureFree_orderly (fun _ _ h => h) fun _ _ _ _ _ => Or.inl trivial
  obtain ⟨-, es', world_run, -⟩ := front_run orderly.calm (fun _ _ _ => rfl) run
  have hprimary := failureFree_authority (fun _ _ h => h) world_run
  exact hprimary ▸ http_order orderly (fun _ _ _ => rfl) run

/-- Steps of the job of a request. -/
def calls (i n : ℕ) : List FrontEvent := (steps i n).map .cluster

/-- `alice` posts, and the text of the body is read under any name. -/
def alicePosts (path : List String) (text : String) : HttpRequest :=
  ⟨.post, path, some [97, 108, 105, 99, 101], fun _ => none, fun _ => .ok text⟩

/-- A page is asked for at `C` before a message is sent there, and has the message. -/
def postsAndReads : List FrontEvent :=
  [.arrive .A (alicePosts ["users"] "alice"), .handle 0 .A] ++ calls 0 11 ++
    [.arrive .B (alicePosts ["channels", "#cs249", "members"] ""), .handle 1 .A] ++ calls 1 15 ++
    [.arrive .C (alicePosts ["channels", "#cs249", "messages"] "hi"),
      .arrive .C ⟨.get, ["channels", "#cs249", "messages"], none, fun _ => none,
        fun _ => .error .jsonDataError⟩, .handle 3 .A, .handle 2 .A] ++
    calls 2 3 ++ calls 3 16 ++ calls 2 5

theorem http_linearizable_posts : ∃ front,
    Front.Reaches aliceAtB (fun w e => failureFree.allows w e = true) postsAndReads front ∧
    HttpOrder aliceAtB LocationConfig.primary True postsAndReads front ∧
    front.response 3 = some (.ok (.messages "#cs249" [⟨"alice", "hi", "#cs249-0"⟩])) ∧
    (httpEffects aliceAtB postsAndReads).map Entry.call = [0, 1, 2, 3] := by
  obtain ⟨front, run, hfront⟩ := Run.exec_of_test
    (fun front : Front =>
      front.response 3 = some (.ok (.messages "#cs249" [⟨"alice", "hi", "#cs249-0"⟩])))
    (by decide +kernel :
      (Run.run (Front.step aliceAtB) (Front.Allows fun w e => failureFree.allows w e = true) .init
        postsAndReads).any _ = true)
  exact ⟨front, run, http_linearizable run, of_decide_eq_true hfront, by decide +kernel⟩

end MiniDiscord.Cluster
