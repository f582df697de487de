import MiniDiscord.Atomic
import MiniDiscord.Pa1.LeavingAll

/-!
# Concurrent calls in one order

Users and channels are never removed, so what the first sections of a call have found out still
holds in its last one. Every call happens in its last section, as if it ran alone at that moment.
`leave_all_channels` alone is no single operation but a `leave_channel` for each of its channels.
-/

namespace MiniDiscord.Pa1

open Program (Steady Atomic)

variable {state state' : AppState} {u c t : String} {names : List String} {α : Type}
  {es : List Event} {server server' : Server} {e : Event}

/-! ## Where a call takes effect -/

/-- Each leave of `leave_all_channels`. -/
def leavingPoint (u : String) : Program.Point Section Section.Answer Call (StateResult Value)
  | .leave _ c, r, _ => some (.leaveChannel u c, r.map fun _ => .unit)
  | _, _, _ => none

def Call.point : Call → Program.Point Section Section.Answer Call (StateResult Value)
  | .leaveAllChannels u _ => leavingPoint u
  | k => Program.atEnd k

/-- The calls as one operation each: they run alone. -/
def oneAtATime (k : Call) (state : AppState) : Option (StateResult Value × AppState) :=
  k.start.alone Section.exec state

/-- What has taken effect along the events, in this order. -/
def effects (es : List Event) : List (Entry Call (StateResult Value)) :=
  Pool.history Section.exec Call.start Call.point Server.init es

/-- The second lock of `create_user` still finds no such user: no two registrations of one name
overlap. -/
def Section.New (state : AppState) : Section → Prop
  | .insertUser u => u ∉ state.users
  | _ => True

instance (state : AppState) : (i : Section) → Decidable (i.New state)
  | .insertUser u => inferInstanceAs (Decidable (u ∉ state.users))
  | .getUsers | .userExists _ | .getChannels | .channelExists _ | .join _ _ | .listUsers _
  | .leave _ _ | .memberships _ | .send _ _ _ | .messages _ _ _ => .isTrue trivial

def registersNew (server : Server) (e : Event) : Prop :=
  ∀ i ∈ server.entering e, i.New server.store

instance (server : Server) (e : Event) : Decidable (registersNew server e) :=
  decidable_of_iff ((server.entering e).all fun i => i.New server.store)
    (by cases h : server.entering e <;> simp [registersNew, h])

abbrev newcomers : Protocol Section AppState := protocol AppState.Keyed fun i state => i.New state

theorem newcomers_preserved : Preserved AppState.Keyed fun i state => i.New state where
  keyed := keyed_preserved.keyed
  exec i state state' keyed _ := keyed_preserved.exec i state state' keyed trivial

/-! ## Checks that last -/

theorem steady_last {i : Section} {next : i.Answer → Op α}
    (ends : ∀ a, (next a).result.isSome = true) :
    Steady Section.exec newcomers (.locked i next) state := by
  intro _ a _ _ _ _ _
  exact Or.inl (ends a)

theorem steady_userExists {next : Bool → Op α}
    (yes : ∀ state', u ∈ state'.users → (next true).Steady Section.exec newcomers state')
    (no : (next false).result.isSome = true) :
    Steady Section.exec newcomers (.locked (.userExists u) next) state := by
  intro state₁ a state₂ _ _ _ hexec
  cases hexec
  by_cases hu : u ∈ state₁.users
  · rw [decide_eq_true hu]
    refine Or.inr ⟨rfl, yes state₁ hu, fun state₃ grows _ _ => ⟨trivial, ?_⟩⟩
    have hlater : u ∈ state₃.users := AppState.Grows.users grows hu
    simp [Section.exec, hlater]
  · rw [decide_eq_false hu]
    exact Or.inl no

theorem steady_channelExists {next : Bool → Op α}
    (yes : ∀ state', (state'.channel c).isSome = true →
      (next true).Steady Section.exec newcomers state')
    (no : (next false).result.isSome = true) :
    Steady Section.exec newcomers (.locked (.channelExists c) next) state := by
  intro state₁ a state₂ _ _ _ hexec
  cases hexec
  cases hc : (state₁.channel c).isSome with
  | true =>
    refine Or.inr ⟨rfl, yes state₁ hc, fun state₃ grows _ _ => ⟨trivial, ?_⟩⟩
    have hlater := AppState.Grows.channels grows c hc
    simp [Section.exec, hlater]
  | false => exact Or.inl no

/-- The checks of a channel's name and of its existence. -/
theorem steady_checked {go : Op (StateResult α)}
    (goes : ∀ state', (state'.channel c).isSome = true →
      go.Steady Section.exec newcomers state') :
    Steady Section.exec newcomers
      (if (!channelNameIsValid c) = true then .done (.error invalidChannelName)
        else .locked (.channelExists c) fun found =>
          if (!found) = true then .done (.error unknownChannel) else go) state := by
  split_ifs
  · trivial
  · exact steady_channelExists goes rfl

theorem steady_createUser : (createUser u).Steady Section.exec newcomers state := by
  intro state₁ a state₂ _ _ _ hexec
  cases hexec
  by_cases hu : u ∈ state₁.users
  · rw [decide_eq_true hu]
    exact Or.inl rfl
  · rw [decide_eq_false hu]
    refine Or.inr ⟨rfl, steady_last fun _ => rfl, fun state₃ _ _ new => ⟨trivial, ?_⟩⟩
    -- the second section runs only where the name is still free
    have hlater : u ∉ state₃.users := new
    simp [Section.exec, hlater]

theorem steady_joinChannel : (joinChannel u c).Steady Section.exec newcomers state := by
  refine steady_userExists (fun state' _ => ?_) rfl
  change Steady _ _ (if (!channelNameIsValid c) = true then Program.done _ else _) _
  split_ifs
  · trivial
  · exact steady_last fun _ => rfl

theorem steady_start {k : Call} (h : k.isCommand = true) :
    k.start.Steady Section.exec newcomers state := by
  cases k with
  | leaveAllChannels => cases h
  | getUsers | userExists | getChannels => exact steady_last fun _ => rfl
  | createUser u => exact steady_createUser.map _
  | joinChannel u c => exact steady_joinChannel.map _
  | listChannelUsers c =>
    have hsteady : (listChannelUsers c).Steady Section.exec newcomers state :=
      steady_checked fun _ _ => steady_last fun _ => rfl
    exact hsteady.map _
  | leaveChannel u c =>
    have hsteady : (leaveChannel u c).Steady Section.exec newcomers state :=
      steady_checked fun _ _ => steady_userExists (fun _ _ => steady_last fun _ => rfl) rfl
    exact hsteady.map _
  | sendMessage c u t =>
    have hsteady : (sendMessage c u t).Steady Section.exec newcomers state :=
      steady_checked fun _ _ => steady_userExists (fun _ _ => steady_last fun _ => rfl) rfl
    exact hsteady.map _
  | getMessages c limit offset =>
    have hsteady : (getMessages c limit offset).Steady Section.exec newcomers state :=
      steady_checked fun _ _ => steady_last fun _ => rfl
    exact hsteady.map _

/-! ## One leave after the other -/

/-- Where the checks hold, a leave alone is its last section. -/
theorem leaveChannel_alone (valid : channelNameIsValid c = true)
    (found : (state.channel c).isSome = true) (hu : u ∈ state.users) {r : StateResult Unit}
    (h : Section.exec (.leave u c) state = some (r, state')) :
    oneAtATime (.leaveChannel u c) state = some (r.map fun _ => .unit, state') := by
  have halone : (leaveChannel u c).alone Section.exec state = some (r, state') := by
    have hlock := (alone_lock (.leave u c) state).trans h
    simpa [leaveChannel, channelExists, userExists, valid, found, hu] using hlock
  rw [oneAtATime, Call.start, Program.alone_map, halone]
  rfl

theorem leavings_atomic {n : ℕ} : (leavings u names).Atomic Section.exec newcomers oneAtATime
    (leavingPoint u) n state := by
  induction names generalizing state with
  | nil => trivial
  | cons d names ih =>
    rw [leavings_cons]
    split_ifs with hvalid
    · trivial
    intro state₁ found state₂ _ _ _ hexec
    cases hexec
    refine ⟨rfl, ?_⟩
    cases hd : (state₁.channel d).isSome with
    | false => trivial
    | true =>
      intro state₂ found state₃ grows₂ _ _ hexec
      cases hexec
      refine ⟨rfl, ?_⟩
      by_cases hu : u ∈ state₂.users
      · rw [decide_eq_true hu]
        intro state₃ r state₄ grows₃ _ _ hexec
        have hd₃ := AppState.Grows.channels grows₃ d (AppState.Grows.channels grows₂ d hd)
        have hu₃ : u ∈ state₃.users := AppState.Grows.users grows₃ hu
        refine ⟨leaveChannel_alone (by simpa using hvalid) hd₃ hu₃ hexec, ?_⟩
        cases r with
        | ok => exact ih
        | error => trivial
      · rw [decide_eq_false hu]
        trivial

theorem leaveAllChannels_atomic {order : HashOrder} {n : ℕ} :
    (Call.leaveAllChannels u order).start.Atomic Section.exec newcomers oneAtATime
      (leavingPoint u) n state := by
  rw [start_leaveAllChannels]
  intro state₁ found state₂ _ _ _ hexec
  cases hexec
  refine ⟨rfl, ?_⟩
  by_cases hu : u ∈ state₁.users
  · rw [decide_eq_true hu]
    intro state₂ joined state₃ _ _ _ hexec
    obtain ⟨joined', -, hsame⟩ := Option.map_eq_some_iff.mp hexec
    cases hsame
    exact ⟨rfl, leavings_atomic⟩
  · rw [decide_eq_false hu]
    trivial

theorem point_command {k : Call} (h : k.isCommand = true) : k.point = Program.atEnd k := by
  cases k <;> first | rfl | cases h

theorem calls_atOnce :
    Pool.AtOnce Section.exec Call.start Call.point newcomers oneAtATime where
  atomic k n state _ := by
    cases hk : k.isCommand with
    | true =>
      rw [point_command hk]
      exact (steady_start hk).whole rfl
    | false =>
      cases k with
      | leaveAllChannels u order => exact leaveAllChannels_atomic
      | _ => cases hk
  constant k a state _ h := by
    rw [oneAtATime, h]
    rfl

/-! ## The explanation -/

theorem effects_history (run : Reaches registersNew es server) :
    History oneAtATime .new (effects es) server.store :=
  Pool.history_run (p := Server.init) (fun k state _ => safe_start newcomers_preserved k state)
    calls_atOnce (fun _ _ i allowed entering => allowed i entering) run
    ⟨keyed_init, rfl, by simp [Server.init]⟩ rfl

theorem oneAtATime_represents (k : Call) (state : AppState) (r : StateResult Value)
    (state' : AppState) (sound : state.Sound) (h : oneAtATime k state = some (r, state')) :
    state'.Sound ∧ some (state.reference.call k) = some (r, state'.reference) := by
  obtain ⟨state₁, halone, sound', href⟩ := call_refines sound k
  obtain ⟨hr, rfl⟩ := Prod.mk.inj (Option.some.inj (halone.symm.trans h))
  exact ⟨sound', congrArg some (Prod.ext hr href.symm)⟩

/-- The store without its index gives the same answers in this order. -/
theorem effects_reference (run : Reaches registersNew es server) :
    History (fun k ref => some (ref.call k)) Reference.new (effects es) server.store.reference :=
  ((effects_history run).represents (f := AppState.reference) sound_init oneAtATime_represents).2

theorem effects_leaving (run : Reaches registersNew es server) {order : HashOrder}
    {prog : Op (StateResult Value)} {x : Entry Call (StateResult Value)} (hx : x ∈ effects es)
    (call : server.calls[x.call]? = some (.leaveAllChannels u order, prog)) :
    ∃ c, x.op = .leaveChannel u c := by
  obtain ⟨k, prog', hcall, hop⟩ := Pool.history_begun run x hx
  rw [call] at hcall
  cases hcall
  rcases hop with ⟨hover, -⟩ | ⟨i, a, rest, hpoint⟩
  · rw [start_leaveAllChannels] at hover
    cases hover
  · cases i with
    | leave u' c =>
      obtain ⟨hop, -⟩ := Prod.mk.inj (Option.some.inj hpoint)
      exact ⟨c, hop.symm⟩
    | _ => cases hpoint

theorem effects_answer (run : Reaches registersNew es server) {n : ℕ} {k : Call}
    {r : StateResult Value} (call : server.calls[n]? = some (k, .done r))
    (command : k.isCommand = true) : ⟨n, k, r⟩ ∈ effects es := by
  have honce := (Pool.history_once run rfl).2 n k _ call (point_command command)
  have hmem : ⟨n, k, r⟩ ∈ (effects es).filter fun x => x.call = n := by
    rw [effects, ← Pool.historyOf, honce]
    exact List.mem_singleton_self _
  exact List.mem_of_mem_filter hmem

/-- One order explains the calls of a run. -/
structure Explained (es : List Event) (server : Server) : Prop where
  alone : History oneAtATime .new (effects es) server.store
  reference : History (fun k ref => some (ref.call k)) Reference.new (effects es)
    server.store.reference
  /-- A call that has returned is in the order once, and one that has not is not in it. -/
  once : ∀ n k prog, server.calls[n]? = some (k, prog) → k.isCommand = true →
    (effects es).filter (fun x => x.call = n) = (prog.result.map fun r => ⟨n, k, r⟩).toList
  begun : ∀ x ∈ effects es, x.call < server.calls.length
  /-- A `leave_all_channels` is leaves of its user. -/
  leaving : ∀ x ∈ effects es, ∀ u order prog,
    server.calls[x.call]? = some (.leaveAllChannels u order, prog) → ∃ c, x.op = .leaveChannel u c
  /-- What happens later comes later. -/
  final : ∀ es', effects es <+: effects (es ++ es')

/-- **Concurrent calls in one order.** Let no two registrations of one name overlap. Then all calls,
by any number of clients and interleaved in any way, are explained by one order: the calls alone in
this order, and the store without its index too, give every answer that was given and end in the
state that was reached. -/
theorem linearizable (run : Reaches registersNew es server) : Explained es server where
  alone := effects_history run
  reference := effects_reference run
  once n k prog call command := (Pool.history_once run rfl).2 n k prog call (point_command command)
  begun x hx := by
    obtain ⟨k, prog, hcall, -⟩ := Pool.history_begun run x hx
    exact (List.getElem?_eq_some_iff.mp hcall).1
  leaving x hx u order prog call := effects_leaving run hx call
  final := Pool.history_prefix run

/-- `bob` joins and speaks while `alice` is made to leave; nobody waits for anybody. -/
def overlapping : List Event :=
  [.call (.createUser "alice"), .call (.createUser "bob"), .step 1, .step 0, .step 0, .step 1,
    .call (.joinChannel "alice" "#a"), .call (.joinChannel "bob" "#a"), .step 3, .step 2, .step 2,
    .call (.leaveAllChannels "alice" alphabetical), .step 4, .step 3,
    .call (.sendMessage "#a" "bob" "hi"), .step 5, .step 4, .step 4, .step 5, .step 4, .step 5,
    .call (.getMessages "#a" none none), .step 6, .step 4, .step 6]

theorem linearizable_overlapping : ∃ server, Reaches registersNew overlapping server ∧
    Explained overlapping server ∧
      (effects overlapping).map Entry.call = [0, 1, 2, 3, 5, 4, 6] := by
  obtain ⟨server, run, -⟩ := Run.exec_of_test (fun server : Server => !server.poisoned)
    (by decide +kernel : (Run.run step registersNew .init overlapping).any _ = true)
  exact ⟨server, run, linearizable run, by decide +kernel⟩

end MiniDiscord.Pa1
