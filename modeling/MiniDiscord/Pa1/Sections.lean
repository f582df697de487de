import MiniDiscord.Pa1.Stateops

/-!
# What one critical section does

Every section either leaves the store as it is or makes one of four changes. Users, channels and
messages are only ever added, so that what an earlier section of a call found out still holds.
-/

namespace MiniDiscord.Pa1

variable {state state' : AppState} {i : Section} {a : i.Answer} {u v c d t : String}
  {channel : Channel} {names : Finset String}

/-! ## Reading the store -/

/-- The users of a channel; none if it does not exist. -/
def AppState.members (state : AppState) (c : String) : Finset String :=
  ((state.channel c).getD .new).users

def AppState.log (state : AppState) (c : String) : List Message :=
  ((state.channel c).getD .new).messages

/-- The entry of `user_channels`; empty if there is none. -/
def AppState.joined (state : AppState) (u : String) : Finset String :=
  (state.userChannels.lookup u).getD ∅

theorem members_of_channel (found : state.channel c = some channel) :
    state.members c = channel.users := by
  rw [AppState.members, found, Option.getD_some]

theorem log_of_channel (found : state.channel c = some channel) :
    state.log c = channel.messages := by
  rw [AppState.log, found, Option.getD_some]

theorem joined_of_lookup (found : state.userChannels.lookup u = some names) :
    state.joined u = names := by
  rw [AppState.joined, found, Option.getD_some]

@[simp] theorem setChannel_users : (state.setChannel c channel).users = state.users := rfl

@[simp] theorem setChannel_userChannels :
    (state.setChannel c channel).userChannels = state.userChannels := rfl

@[simp] theorem setChannel_nextMessageId :
    (state.setChannel c channel).nextMessageId = state.nextMessageId := rfl

@[simp] theorem setUserChannels_users : (state.setUserChannels u names).users = state.users := rfl

@[simp] theorem setUserChannels_channel :
    (state.setUserChannels u names).channel c = state.channel c := rfl

@[simp] theorem setUserChannels_nextMessageId :
    (state.setUserChannels u names).nextMessageId = state.nextMessageId := rfl

@[simp] theorem setChannel_joined : (state.setChannel c channel).joined u = state.joined u := rfl

@[simp] theorem setUserChannels_members :
    (state.setUserChannels u names).members c = state.members c := rfl

@[simp] theorem setUserChannels_log : (state.setUserChannels u names).log c = state.log c := rfl

theorem setChannel_channel :
    (state.setChannel c channel).channel d = if d = c then some channel else state.channel d := by
  unfold AppState.setChannel AppState.channel
  split_ifs with h
  · rw [h, Finmap.lookup_insert]
  · rw [Finmap.lookup_insert_of_ne _ h]

theorem setUserChannels_lookup : (state.setUserChannels u names).userChannels.lookup v =
    if v = u then some names else state.userChannels.lookup v := by
  unfold AppState.setUserChannels
  split_ifs with h
  · rw [h, Finmap.lookup_insert]
  · rw [Finmap.lookup_insert_of_ne _ h]

/-- Writing back what is there changes nothing. -/
theorem setChannel_same (found : state.channel c = some channel) :
    state.setChannel c channel = state := by
  have hsame : state.channels.insert c channel = state.channels := by
    apply Finmap.ext_lookup
    intro d
    by_cases h : d = c
    · rw [h, Finmap.lookup_insert]
      exact found.symm
    · rw [Finmap.lookup_insert_of_ne _ h]
  unfold AppState.setChannel
  rw [hsame]

/-! ## Changes -/

inductive Change (state : AppState) : Section → AppState → Prop
  | kept (i : Section) : Change state i state
  | inserted (u : String) :
      Change state (.insertUser u)
        ({ state with users := insert u state.users }.setUserChannels u ∅)
  | joined (u c : String) (joined : Finset String)
      (entry : state.userChannels.lookup u = some joined) (new : u ∉ state.members c) :
      Change state (.join u c)
        ((state.setChannel c ⟨insert u (state.members c), state.log c⟩).setUserChannels u
          (insert c joined))
  | left (u c : String) (channel : Channel) (joined : Finset String)
      (found : state.channel c = some channel) (member : u ∈ channel.users)
      (entry : state.userChannels.lookup u = some joined) :
      Change state (.leave u c)
        ((state.setChannel c ⟨channel.users.erase u, channel.messages⟩).setUserChannels u
          (joined.erase c))
  | sent (c u t : String) (channel : Channel) (found : state.channel c = some channel)
      (member : u ∈ channel.users) :
      Change state (.send c u t)
        (({ state with nextMessageId := state.nextMessageId + 1 } : AppState).setChannel c
          ⟨channel.users, channel.messages ++ [⟨u, t, state.nextMessageId⟩]⟩)

theorem join_change {r : StateResult Unit} (h : joinLocked u c state = some (r, state')) :
    Change state (.join u c) state' := by
  simp only [joinLocked] at h
  split_ifs at h with hmember
  · cases h
    cases found : state.channel c with
    | none => simp [found, Channel.new] at hmember
    | some channel =>
      rw [Option.getD_some, setChannel_same found]
      exact .kept _
  · simp only [setChannel_userChannels, Option.bind_eq_bind, Option.bind_eq_some_iff,
      Option.some.injEq, Prod.mk.injEq] at h
    obtain ⟨joined, entry, -, rfl⟩ := h
    exact .joined u c joined entry hmember

theorem leave_change {r : StateResult Unit} (h : leaveLocked u c state = some (r, state')) :
    Change state (.leave u c) state' := by
  simp only [leaveLocked, Option.bind_eq_bind, Option.bind_eq_some_iff] at h
  obtain ⟨channel, found, h⟩ := h
  split_ifs at h with hmember
  · simp only [setChannel_userChannels, Option.bind_eq_some_iff, Option.some.injEq,
      Prod.mk.injEq] at h
    obtain ⟨joined, entry, -, rfl⟩ := h
    exact .left u c channel joined found hmember entry
  · cases h
    exact .kept _

theorem send_change {r : StateResult ℕ} (h : sendLocked c u t state = some (r, state')) :
    (r = .error notAMember ∧ state' = state) ∨
    ∃ channel, state.channel c = some channel ∧ u ∈ channel.users ∧
      r = .ok state.nextMessageId ∧
      state' = ({ state with nextMessageId := state.nextMessageId + 1 } : AppState).setChannel c
        ⟨channel.users, channel.messages ++ [⟨u, t, state.nextMessageId⟩]⟩ := by
  simp only [sendLocked, Option.bind_eq_bind, Option.bind_eq_some_iff] at h
  obtain ⟨channel, found, h⟩ := h
  split_ifs at h with hmember <;> cases h
  · exact Or.inr ⟨channel, found, hmember, rfl, rfl⟩
  · exact Or.inl ⟨rfl, rfl⟩

theorem exec_change (h : i.exec state = some (a, state')) : Change state i state' := by
  cases i with
  | insertUser u =>
    cases h
    exact .inserted u
  | join u c => exact join_change h
  | leave u c => exact leave_change h
  | send c u t =>
    rcases send_change h with ⟨-, rfl⟩ | ⟨channel, found, member, -, rfl⟩
    · exact .kept _
    · exact .sent c u t channel found member
  | listUsers c | memberships u =>
    obtain ⟨x, -, hx⟩ := Option.map_eq_some_iff.mp h
    cases hx
    exact .kept _
  | messages c limit offset =>
    obtain ⟨channel, -, h⟩ := Option.bind_eq_some_iff.mp h
    cases h
    exact .kept _
  | getUsers | userExists | getChannels | channelExists =>
    cases h
    exact .kept _

/-! ## What only grows -/

structure AppState.Grows (state state' : AppState) : Prop where
  users : state.users ⊆ state'.users
  channels : ∀ c, (state.channel c).isSome = true → (state'.channel c).isSome = true
  log : ∀ c, state.log c <+: state'.log c

theorem grows_refl (state : AppState) : state.Grows state :=
  ⟨subset_rfl, fun _ => id, fun _ => List.prefix_refl _⟩

theorem AppState.Grows.trans {state'' : AppState} (h : state.Grows state')
    (h' : state'.Grows state'') : state.Grows state'' :=
  ⟨h.users.trans h'.users, fun c hc => h'.channels c (h.channels c hc),
    fun c => (h.log c).trans (h'.log c)⟩

theorem setChannel_log : (state.setChannel c channel).log d =
    if d = c then channel.messages else state.log d := by
  unfold AppState.log
  rw [setChannel_channel]
  split_ifs <;> rfl

theorem setChannel_members : (state.setChannel c channel).members d =
    if d = c then channel.users else state.members d := by
  unfold AppState.members
  rw [setChannel_channel]
  split_ifs <;> rfl

theorem setUserChannels_joined : (state.setUserChannels u names).joined v =
    if v = u then names else state.joined v := by
  unfold AppState.joined
  rw [setUserChannels_lookup]
  split_ifs <;> rfl

theorem setChannel_grows (h : state.log c <+: channel.messages) :
    state.Grows (state.setChannel c channel) := by
  refine ⟨subset_rfl, fun d hd => ?_, fun d => ?_⟩
  · rw [setChannel_channel]
    split_ifs
    · rfl
    · exact hd
  · rw [setChannel_log]
    split_ifs with hdc
    · rw [hdc]
      exact h
    · exact List.prefix_refl _

theorem change_grows (h : Change state i state') : state.Grows state' := by
  cases h with
  | kept => exact grows_refl state
  | inserted u => exact ⟨Finset.subset_insert u _, fun _ => id, fun _ => List.prefix_refl _⟩
  | joined u c joined =>
    have hset : state.Grows (state.setChannel c ⟨insert u (state.members c), state.log c⟩) :=
      setChannel_grows (List.prefix_refl _)
    exact ⟨hset.users, hset.channels, hset.log⟩
  | left u c channel joined found =>
    have hset : state.Grows (state.setChannel c ⟨channel.users.erase u, channel.messages⟩) :=
      setChannel_grows (by rw [log_of_channel found])
    exact ⟨hset.users, hset.channels, hset.log⟩
  | sent c u t channel found =>
    have hset : state.Grows (state.setChannel c
        ⟨channel.users, channel.messages ++ [⟨u, t, state.nextMessageId⟩]⟩) :=
      setChannel_grows (by rw [log_of_channel found]; exact List.prefix_append _ _)
    exact ⟨hset.users, hset.channels, hset.log⟩

end MiniDiscord.Pa1
