import MiniDiscord.Pa1.Sections

/-!
# Every call is safe

A section panics if a user or a channel is missing that an earlier section of the same call has
seen. Both are never removed, so that no call panics under the lock, whatever runs in between. The
rule asks of an invariant only that each section keeps it.
-/

namespace MiniDiscord.Pa1

variable {state state' : AppState} {i : Section} {a : i.Answer} {u c t : String}

/-- What earlier sections of the same call have found out. -/
def Section.Needs (state : AppState) : Section → Prop
  | .join u _ | .memberships u => u ∈ state.users
  | .leave u c => u ∈ state.users ∧ (state.channel c).isSome = true
  | .listUsers c | .messages c _ _ | .send c _ _ => (state.channel c).isSome = true
  | _ => True

/-- The keys of `user_channels` are the registered users. -/
def AppState.Keyed (state : AppState) : Prop := state.userChannels.keys = state.users

theorem keyed_lookup (keyed : state.Keyed) (hu : u ∈ state.users) :
    ∃ names, state.userChannels.lookup u = some names := by
  rw [← keyed, Finmap.mem_keys] at hu
  exact Finmap.mem_iff.mp hu

theorem exec_runs (keyed : state.Keyed) (needs : i.Needs state) :
    (i.exec state).isSome = true := by
  cases i with
  | join u c =>
    obtain ⟨names, entry⟩ := keyed_lookup keyed needs
    by_cases hmember : u ∈ ((state.channel c).getD .new).users
    · simp [Section.exec, joinLocked, hmember]
    · simp [Section.exec, joinLocked, hmember, entry]
  | memberships u =>
    obtain ⟨names, entry⟩ := keyed_lookup keyed needs
    simp [Section.exec, entry]
  | leave u c =>
    obtain ⟨names, entry⟩ := keyed_lookup keyed needs.1
    obtain ⟨channel, found⟩ := Option.isSome_iff_exists.mp needs.2
    by_cases hmember : u ∈ channel.users
    · simp [Section.exec, leaveLocked, found, hmember, entry]
    · simp [Section.exec, leaveLocked, found, hmember]
  | send c u t =>
    obtain ⟨channel, found⟩ := Option.isSome_iff_exists.mp needs
    by_cases hmember : u ∈ channel.users
    · simp [Section.exec, sendLocked, found, hmember]
    · simp [Section.exec, sendLocked, found, hmember]
  | listUsers c | messages c limit offset =>
    obtain ⟨channel, found⟩ := Option.isSome_iff_exists.mp needs
    simp [Section.exec, messagesLocked, found]
  | getUsers | userExists | insertUser | getChannels | channelExists => rfl

/-! ## The rule for invariants -/

def protocol (inv : AppState → Prop) (may : Section → AppState → Prop) :
    Protocol Section AppState where
  inv := inv
  grows := AppState.Grows
  may := may
  refl := grows_refl
  trans := AppState.Grows.trans

/-- Every section that may run keeps the invariant, which says that no entry is missing. -/
structure Preserved (inv : AppState → Prop) (may : Section → AppState → Prop) : Prop where
  keyed : ∀ state, inv state → state.Keyed
  exec : ∀ i state state', inv state → may i state → Change state i state' → inv state'

/-- What a call that has returned leaves behind for good: a message that was sent is in its
channel. -/
def Call.Stored : Call → StateResult Value → AppState → Prop
  | .sendMessage c u t, .ok (.messageId id), state => ⟨u, t, id⟩ ∈ state.log c
  | _, _, _ => True

section Safe

variable {inv : AppState → Prop} {may : Section → AppState → Prop} {α : Type}
  {post : α → AppState → Prop}

theorem safe_locked (preserved : Preserved inv may) {next : i.Answer → Op α}
    (needs : ∀ state', state.Grows state' → i.Needs state')
    (after : ∀ a state₁ state', state.Grows state₁ → inv state₁ →
      i.exec state₁ = some (a, state') → inv state' →
        (next a).Safe Section.exec (protocol inv may) post state') :
    Program.Safe Section.exec (protocol inv may) post (.locked i next) state := by
  intro state₁ grows hinv hmay
  obtain ⟨⟨a, state'⟩, hexec⟩ :=
    Option.isSome_iff_exists.mp (exec_runs (preserved.keyed state₁ hinv) (needs state₁ grows))
  have hchange := exec_change hexec
  have hinv' := preserved.exec i state₁ state' hinv hmay hchange
  exact ⟨a, state', hexec, hinv', change_grows hchange,
    after a state₁ state' grows hinv hexec hinv'⟩

theorem safe_done {a : α} (h : ∀ state', state.Grows state' → post a state') :
    Program.Safe Section.exec (protocol inv may) post (.done a) state :=
  fun state' grows _ => h state' grows

/-- A check that leaves the store alone. After a positive answer there is what was looked for. -/
theorem safe_userExists (preserved : Preserved inv may) {next : Bool → Op α}
    (yes : ∀ state', state.Grows state' → inv state' → u ∈ state'.users →
      (next true).Safe Section.exec (protocol inv may) post state')
    (no : ∀ state', (next false).Safe Section.exec (protocol inv may) post state') :
    Program.Safe Section.exec (protocol inv may) post (.locked (.userExists u) next) state := by
  refine safe_locked preserved (fun _ _ => trivial) fun a state₁ state' grows hinv hexec _ => ?_
  cases hexec
  by_cases hu : u ∈ state₁.users
  · rw [decide_eq_true hu]
    exact yes state₁ grows hinv hu
  · rw [decide_eq_false hu]
    exact no state₁

theorem safe_channelExists (preserved : Preserved inv may) {next : Bool → Op α}
    (yes : ∀ state', state.Grows state' → inv state' → (state'.channel c).isSome = true →
      (next true).Safe Section.exec (protocol inv may) post state')
    (no : ∀ state', (next false).Safe Section.exec (protocol inv may) post state') :
    Program.Safe Section.exec (protocol inv may) post (.locked (.channelExists c) next) state := by
  refine safe_locked preserved (fun _ _ => trivial) fun a state₁ state' grows hinv hexec _ => ?_
  cases hexec
  cases hc : (state₁.channel c).isSome with
  | true => exact yes state₁ grows hinv hc
  | false => exact no state₁

/-- The checks of `leave_channel` and `send_message`. -/
theorem safe_checked (preserved : Preserved inv may) {refused : StateError → Op α} {go : Op α}
    (refuses : ∀ e state', (refused e).Safe Section.exec (protocol inv may) post state')
    (goes : ∀ state', inv state' → u ∈ state'.users → (state'.channel c).isSome = true →
      go.Safe Section.exec (protocol inv may) post state') :
    Program.Safe Section.exec (protocol inv may) post
      (if (!channelNameIsValid c) = true then refused invalidChannelName
        else .locked (.channelExists c) fun found =>
          if (!found) = true then refused unknownChannel
          else .locked (.userExists u) fun found =>
            if (!found) = true then refused unknownUser else go) state := by
  split_ifs
  · exact refuses _ _
  · refine safe_channelExists preserved (fun state₁ _ _ hc => ?_) fun _ => refuses _ _
    refine safe_userExists preserved (fun state₂ grows hinv hu => ?_) fun _ => refuses _ _
    exact goes state₂ hinv hu (grows.channels c hc)

theorem safe_leaveChannel (preserved : Preserved inv may) (state : AppState) :
    (leaveChannel u c).Safe Section.exec (protocol inv may) (fun _ _ => True) state := by
  refine safe_checked preserved (fun _ _ => safe_done fun _ _ => trivial) fun state' _ hu hc => ?_
  refine safe_locked preserved (fun state'' grows => ⟨grows.users hu, grows.channels c hc⟩) ?_
  exact fun _ _ _ _ _ _ _ => safe_done fun _ _ => trivial

theorem safe_leaveEach (preserved : Preserved inv may) (channelNames : List String)
    (hinv : inv state) :
    (leaveEach u channelNames).Safe Section.exec (protocol inv may) (fun _ _ => True) state := by
  induction channelNames generalizing state with
  | nil => exact safe_done fun _ _ => trivial
  | cons c channelNames ih =>
    refine (safe_leaveChannel preserved state).bind hinv fun r state' hinv' _ => ?_
    cases r with
    | ok => exact ih hinv'
    | error => trivial

theorem safe_leaveAllChannels (preserved : Preserved inv may) (order : HashOrder)
    (state : AppState) :
    (leaveAllChannels u order).Safe Section.exec (protocol inv may) (fun _ _ => True) state := by
  refine safe_userExists preserved (fun state' _ _ hu => ?_) fun _ => safe_done fun _ _ => trivial
  refine safe_locked preserved (fun _ grows => grows.users hu) fun _ _ _ _ _ _ hinv => ?_
  exact safe_leaveEach preserved _ hinv

theorem safe_lock (preserved : Preserved inv may)
    (needs : ∀ state', state.Grows state' → i.Needs state') :
    (withLock i).Safe Section.exec (protocol inv may) (fun _ _ => True) state :=
  safe_locked preserved needs fun _ _ _ _ _ _ _ => safe_done fun _ _ => trivial

theorem safe_createUser (preserved : Preserved inv may) (state : AppState) :
    (createUser u).Safe Section.exec (protocol inv may) (fun _ _ => True) state := by
  refine safe_userExists preserved (fun _ _ _ _ => safe_done fun _ _ => trivial) fun state' => ?_
  refine safe_locked preserved (fun _ _ => trivial) ?_
  exact fun _ _ _ _ _ _ _ => safe_done fun _ _ => trivial

theorem safe_joinChannel (preserved : Preserved inv may) (state : AppState) :
    (joinChannel u c).Safe Section.exec (protocol inv may) (fun _ _ => True) state := by
  refine safe_userExists preserved (fun state' _ _ hu => ?_) fun _ => safe_done fun _ _ => trivial
  change Program.Safe _ _ _ (if (!channelNameIsValid c) = true then .done _ else _) _
  split_ifs
  · exact safe_done fun _ _ => trivial
  · exact safe_lock preserved fun _ grows => grows.users hu

/-- `list_channel_users` and `get_messages` -/
theorem safe_readChannel (preserved : Preserved inv may)
    (needs : ∀ state', (state'.channel c).isSome = true → i.Needs state') {f : i.Answer → α}
    {refused : StateError → α} :
    Program.Safe Section.exec (protocol inv may) (fun _ _ => True)
      (if (!channelNameIsValid c) = true then .done (refused invalidChannelName)
        else .locked (.channelExists c) fun found =>
          if (!found) = true then .done (refused unknownChannel) else f <$> withLock i) state := by
  split_ifs
  · exact safe_done fun _ _ => trivial
  · refine safe_channelExists preserved (fun state' _ _ hc => ?_)
      fun _ => safe_done fun _ _ => trivial
    have hlock := safe_lock (i := i) preserved
      fun state'' grows => needs state'' (AppState.Grows.channels grows c hc)
    exact hlock.map fun _ _ => id

theorem safe_sendMessage (preserved : Preserved inv may) (state : AppState) :
    (sendMessage c u t).Safe Section.exec (protocol inv may)
      (fun r state => ∀ id, r = .ok id → ⟨u, t, id⟩ ∈ state.log c) state := by
  refine safe_checked preserved (fun _ _ => safe_done fun _ _ => nofun) fun state' _ hu hc => ?_
  refine safe_locked preserved (fun _ grows => grows.channels c hc) ?_
  intro r state₁ state₂ _ _ hexec _
  refine safe_done fun state₃ grows id hid => (grows.log c).subset ?_
  rcases send_change hexec with ⟨hr, -⟩ | ⟨channel, -, -, hr, rfl⟩
  · cases hr.symm.trans hid
  · cases hr.symm.trans hid
    rw [setChannel_log, if_pos rfl]
    simp

/-- **Every call is safe**, under whatever invariant its sections keep. -/
theorem safe_start (preserved : Preserved inv may) (k : Call) (state : AppState) :
    k.start.Safe Section.exec (protocol inv may) k.Stored state := by
  cases k with
  | getUsers =>
    exact (safe_lock (i := .getUsers) preserved fun _ _ => trivial).map fun _ _ _ => trivial
  | userExists u =>
    exact (safe_lock (i := .userExists u) preserved fun _ _ => trivial).map fun _ _ _ => trivial
  | getChannels =>
    exact (safe_lock (i := .getChannels) preserved fun _ _ => trivial).map fun _ _ _ => trivial
  | createUser => exact (safe_createUser preserved state).map fun _ _ _ => trivial
  | joinChannel => exact (safe_joinChannel preserved state).map fun _ _ _ => trivial
  | listChannelUsers =>
    exact (safe_readChannel preserved fun _ => id).map fun _ _ _ => trivial
  | leaveChannel => exact (safe_leaveChannel preserved state).map fun _ _ _ => trivial
  | leaveAllChannels _ order =>
    exact (safe_leaveAllChannels preserved order state).map fun _ _ _ => trivial
  | sendMessage c u t =>
    refine (safe_sendMessage preserved state).map fun r state' hr => ?_
    cases r with
    | ok id => exact hr id rfl
    | error => trivial
  | getMessages c limit offset =>
    exact (safe_readChannel preserved fun _ => id).map fun _ _ _ => trivial

end Safe

/-! ## Runs -/

/-- The events lead from the new store to `server`. -/
abbrev Reaches (ok : Server → Event → Prop) (es : List Event) (server : Server) : Prop :=
  Run.Exec step ok .init es server

theorem fine {inv : AppState → Prop} {may : Section → AppState → Prop}
    (preserved : Preserved inv may) {ok : Server → Event → Prop}
    (allowed : ∀ server e i, ok server e → server.entering e = some i → may i server.store)
    (init : inv .new) {es : List Event} {server : Server} (run : Reaches ok es server) :
    server.Fine Section.exec (protocol inv may) Call.Stored :=
  (Pool.fine_run (fun k state _ => safe_start preserved k state) allowed run
    ⟨init, rfl, by simp [Server.init]⟩).1

end MiniDiscord.Pa1
