import MiniDiscord.Cluster.Steps

/-!
# What an operation does to the store of one server

`Effect op st r st'` lists the outcomes of a local operation and of a replicate request: refused
with the store as it was, or one of the four changes. The rest of the file says what each part of
the store keeps.
-/

namespace MiniDiscord.DiscordStateops

/-! ## Looking up channels -/

/-- The channel, or the empty one that `or_insert` would make. -/
def AppState.channelOrNew (st : AppState) (c : String) : Channel := (st.channel c).getD .new

def AppState.members (st : AppState) (c : String) : Finset String := (st.channelOrNew c).users
def AppState.history (st : AppState) (c : String) : MessageSet := (st.channelOrNew c).messages
def AppState.nextId (st : AppState) (c : String) : ℕ := (st.channelOrNew c).nextMessageId

variable {st st' : AppState} {c d u t : String} {ch : Channel}

theorem channel_setChannel :
    (st.setChannel c ch).channel d = if d = c then some ch else st.channel d := by
  unfold AppState.channel AppState.setChannel
  split_ifs with h
  · subst h; exact Finmap.lookup_insert _
  · exact Finmap.lookup_insert_of_ne _ h

@[simp] theorem setChannel_users : (st.setChannel c ch).users = st.users := rfl

theorem channelOrNew_setChannel :
    (st.setChannel c ch).channelOrNew d = if d = c then ch else st.channelOrNew d := by
  unfold AppState.channelOrNew
  rw [channel_setChannel]
  split_ifs <;> rfl

theorem channelOrNew_of_channel (h : st.channel c = some ch) : st.channelOrNew c = ch := by
  simp [AppState.channelOrNew, h]

theorem setChannel_setChannel {ch' : Channel} :
    (st.setChannel c ch).setChannel c ch' = st.setChannel c ch' := by
  simp [AppState.setChannel, Finmap.insert_insert]

theorem orInsert_snd : (st.orInsert c).2 = st.channelOrNew c := by
  unfold AppState.orInsert AppState.channelOrNew
  split <;> simp [*]

theorem orInsert_setChannel : (st.orInsert c).1.setChannel c ch = st.setChannel c ch := by
  unfold AppState.orInsert
  split
  · rfl
  · exact setChannel_setChannel

theorem orInsert_fst (h : u ∈ (st.channelOrNew c).users) : (st.orInsert c).1 = st := by
  unfold AppState.orInsert
  split
  · rfl
  · rename_i hnone
    simp [AppState.channelOrNew, hnone, Channel.new] at h

theorem channelExists_iff : channelExists c st = true ↔ ∃ ch, st.channel c = some ch := by
  simp [channelExists, Option.isSome_iff_exists]

theorem checkChannel_ok : checkChannel c st = .ok () ↔
    channelNameIsValid c = true ∧ ∃ ch, st.channel c = some ch := by
  unfold checkChannel
  rw [← channelExists_iff]
  split_ifs <;> simp_all

end MiniDiscord.DiscordStateops

namespace MiniDiscord.Cluster

open DiscordStateops

/-! ## The effects -/

inductive Effect : Op → AppState → StateResult Value → AppState → Prop
  | refused (op : Op) (st : AppState) (e : StateError) : Effect op st (.error e) st
  | read (op : Op) (st : AppState) (v : Value) (reads : op.replicated = false) :
      Effect op st (.ok v) st
  | created (u : String) (st : AppState) (new : u ∉ st.users) :
      Effect (.createUser u) st (.ok .unit) { st with users := insert u st.users }
  | joined (u c : String) (st : AppState) (valid : channelNameIsValid c = true)
      (new : u ∉ st.members c) :
      Effect (.joinChannel u c) st (.ok .unit)
        (st.setChannel c { st.channelOrNew c with users := insert u (st.members c) })
  | left (u c : String) (st : AppState) (ch : Channel) (found : st.channel c = some ch)
      (member : u ∈ ch.users) :
      Effect (.leaveChannel u c) st (.ok .unit)
        (st.setChannel c { ch with users := ch.users.erase u })
  | appended (c u t id : String) (st : AppState) (ch : Channel) (next : ℕ)
      (found : st.channel c = some ch) :
      Effect (.sendMessage c u t) st (.ok (.messageId id))
        (st.setChannel c
          { ch with messages := (ch.messages.insert ⟨u, t, id⟩).1, nextMessageId := next })

variable {op : Op} {v : Value} {st st' : AppState} {r : StateResult Value}
  {c d u t : String} {ch : Channel}

theorem createUser_effect :
    Effect (.createUser u) st ((createUser u st).1.map fun _ => .unit) (createUser u st).2 := by
  unfold createUser
  split_ifs with hempty hdup
  · exact .refused _ _ _
  · exact .refused _ _ _
  · exact .created u st hdup

theorem joinChannelLocked_effect :
    Effect (.joinChannel u c) st ((joinChannelLocked u c st).1.map fun _ => .unit)
      (joinChannelLocked u c st).2 := by
  unfold joinChannelLocked
  split_ifs with hvalid
  · exact .refused _ _ _
  · simp only [orInsert_snd]
    split_ifs with hmember
    · rw [orInsert_fst hmember]
      exact .refused _ _ _
    · rw [orInsert_setChannel]
      exact .joined u c st (by simpa using hvalid) hmember

theorem leaveChannelLocked_effect {r : StateResult Unit}
    (h : leaveChannelLocked u c st = some (r, st')) :
    Effect (.leaveChannel u c) st (r.map fun _ => .unit) st' := by
  unfold leaveChannelLocked at h
  split at h
  · cases h
  · rename_i ch hfound
    split_ifs at h with hmember <;> cases h
    · exact .left u c st ch hfound hmember
    · exact .refused _ _ _

/-! ## Sends -/

/-- What `send_message` does when it succeeds: the next number is used, whether or not the message
gets into the set. -/
theorem locked_send (h : (Op.sendMessage c u t).locked st = some (.ok v, st')) :
    ∃ ch, st.channel c = some ch ∧ u ∈ ch.users ∧
      v = .messageId (formatMessageId c ch.nextMessageId) ∧
      st' = st.setChannel c { ch with
        messages := (ch.messages.insert (Message.from' u t c ch.nextMessageId)).1,
        nextMessageId := ch.nextMessageId + 1 } := by
  simp only [Op.locked, sendMessageLocked, Option.bind_eq_bind, Option.map_eq_some_iff,
    Option.bind_eq_some_iff, Prod.exists, Prod.mk.injEq] at h
  obtain ⟨r, st₁, ⟨ch, hfound, h⟩, hr, rfl⟩ := h
  split_ifs at h with hmember
  · simp only [Option.bind_eq_some_iff, Prod.exists] at h
    obtain ⟨messages, did, hinsert, h⟩ := h
    cases h; cases hr
    refine ⟨ch, hfound, hmember, rfl, ?_⟩
    rw [← insertMessage_eq hinsert]
  · cases h; cases hr

theorem locked_send_nextId (h : (Op.sendMessage c u t).locked st = some (.ok v, st')) :
    v = .messageId (formatMessageId c (st.nextId c)) ∧ st'.nextId c = st.nextId c + 1 := by
  obtain ⟨ch, found, -, rfl, rfl⟩ := locked_send h
  have hnext : st.nextId c = ch.nextMessageId := by
    rw [AppState.nextId, channelOrNew_of_channel found]
  refine ⟨by rw [hnext], ?_⟩
  rw [hnext, AppState.nextId, channelOrNew_setChannel, if_pos rfl]

theorem locked_send_error {e : StateError}
    (h : (Op.sendMessage c u t).locked st = some (.error e, st')) : st' = st := by
  simp only [Op.locked, sendMessageLocked, Option.bind_eq_bind, Option.map_eq_some_iff,
    Option.bind_eq_some_iff, Prod.exists, Prod.mk.injEq] at h
  obtain ⟨r, st₁, ⟨ch, -, h⟩, hr, rfl⟩ := h
  split_ifs at h
  · simp only [Option.bind_eq_some_iff, Prod.exists] at h
    obtain ⟨messages, did, -, h⟩ := h
    cases h; cases hr
  · cases h; rfl

theorem replicate_send (h : (Op.sendMessage c u t).replicateLocked v st = some (r, st')) :
    ∃ id ch, v = .messageId id ∧ r = .ok v ∧ st.channel c = some ch ∧
      st' = st.setChannel c { ch with
        messages := (ch.messages.insert ⟨u, t, id⟩).1,
        nextMessageId := ch.nextMessageId + (ch.messages.insert ⟨u, t, id⟩).2.toNat } := by
  cases v with
  | messageId id =>
    simp only [Op.replicateLocked, replicateSendMessage, Option.bind_eq_bind,
      Option.map_eq_some_iff, Option.bind_eq_some_iff, Prod.exists, Prod.mk.injEq] at h
    obtain ⟨r, st₁, ⟨ch, hfound, messages, did, hinsert, h⟩, hr, rfl⟩ := h
    cases h; cases hr
    refine ⟨id, ch, rfl, rfl, hfound, ?_⟩
    rw [← insertMessage_eq hinsert]
  | unit | found _ | names _ | sorted _ | messages _ => cases h

/-! ## All operations -/

theorem locked_effect (h : op.locked st = some (r, st')) : Effect op st r st' := by
  cases op with
  | createUser u => cases h; exact createUser_effect
  | userExists u => cases h; exact .read _ _ _ rfl
  | getUsers => cases h; exact .read _ _ _ rfl
  | getChannels => cases h; exact .read _ _ _ rfl
  | joinChannel u c => cases h; exact joinChannelLocked_effect
  | leaveChannel u c =>
    simp only [Op.locked, Option.map_eq_some_iff, Prod.exists] at h
    obtain ⟨r, st₁, hlocked, h⟩ := h
    cases h
    exact leaveChannelLocked_effect hlocked
  | listChannelUsers c =>
    cases h
    cases listChannelUsers c st with
    | error e => exact .refused _ _ _
    | ok v => exact .read _ _ _ rfl
  | sendMessage c u t =>
    cases r with
    | error e => rw [locked_send_error h]; exact .refused _ _ _
    | ok v =>
      obtain ⟨ch, hfound, -, rfl, rfl⟩ := locked_send h
      exact .appended c u t _ st ch _ hfound
  | getMessages c limit offset =>
    cases h
    cases getMessages c limit offset st with
    | error e => exact .refused _ _ _
    | ok v => exact .read _ _ _ rfl

theorem replicate_effect (h : op.replicateLocked v st = some (r, st')) : Effect op st r st' := by
  cases op with
  | createUser u => cases h; exact createUser_effect
  | joinChannel u c =>
    cases h
    exact joinChannelLocked_effect
  | leaveChannel u c =>
    simp only [Op.replicateLocked, leaveChannel, Option.map_eq_some_iff, Prod.exists] at h
    obtain ⟨r, st₁, h, hr⟩ := h
    split at h
    · cases h; cases hr; exact .refused _ _ _
    · cases hr; exact leaveChannelLocked_effect h
  | sendMessage c u t =>
    obtain ⟨id, ch, rfl, rfl, hfound, rfl⟩ := replicate_send h
    exact .appended c u t id st ch _ hfound
  | userExists _ | getUsers | getChannels | listChannelUsers _ | getMessages _ _ _ =>
    cases v <;> cases h

/-! ## What an effect keeps -/

theorem effect_error {e : StateError} (h : Effect op st (.error e) st') : st' = st := by
  cases h
  rfl

theorem effect_users (h : Effect op st r st') :
    st'.users = st.users ∨ ∃ u, op = .createUser u ∧ r = .ok .unit ∧ u ∉ st.users ∧
      st'.users = insert u st.users := by
  cases h with
  | refused | read => exact Or.inl rfl
  | created u _ new => exact Or.inr ⟨u, rfl, rfl, new, rfl⟩
  | joined | left | appended => exact Or.inl rfl

theorem effect_history (h : Effect op st r st') (other : ∀ u t, op ≠ .sendMessage c u t) :
    st'.history c = st.history c ∧ st'.nextId c = st.nextId c := by
  cases h with
  | refused | read | created => exact ⟨rfl, rfl⟩
  | joined u c' _ valid new =>
    simp only [AppState.history, AppState.nextId, channelOrNew_setChannel]
    split_ifs with hc <;> simp [hc]
  | left u c' _ ch found member =>
    simp only [AppState.history, AppState.nextId, channelOrNew_setChannel]
    split_ifs with hc
    · rw [hc, channelOrNew_of_channel found]
      exact ⟨rfl, rfl⟩
    · exact ⟨rfl, rfl⟩
  | appended c' u t id _ ch next found =>
    have hc : c ≠ c' := fun hc => other u t (by rw [hc])
    simp [AppState.history, AppState.nextId, channelOrNew_setChannel, hc]

theorem effect_channel (h : Effect op st r st') (found : st.channel c = some ch) :
    ∃ ch', st'.channel c = some ch' := by
  cases h with
  | refused | read | created => exact ⟨ch, found⟩
  | joined | left | appended =>
    rw [channel_setChannel]
    split_ifs
    · exact ⟨_, rfl⟩
    · exact ⟨ch, found⟩

theorem effect_new_channel (h : Effect op st r st') {ch' : Channel}
    (found : st'.channel c = some ch') :
    (∃ ch, st.channel c = some ch) ∨ ∃ u, op = .joinChannel u c ∧ r = .ok .unit := by
  cases h with
  | refused | read | created => exact Or.inl ⟨ch', found⟩
  | joined u c' _ valid new =>
    rw [channel_setChannel] at found
    split_ifs at found with hc
    · exact Or.inr ⟨u, by rw [hc], rfl⟩
    · exact Or.inl ⟨ch', found⟩
  | left u c' _ ch found' member =>
    rw [channel_setChannel] at found
    split_ifs at found with hc
    · exact Or.inl ⟨ch, by rw [hc]; exact found'⟩
    · exact Or.inl ⟨ch', found⟩
  | appended c' u t id _ ch next found' =>
    rw [channel_setChannel] at found
    split_ifs at found with hc
    · exact Or.inl ⟨ch, by rw [hc]; exact found'⟩
    · exact Or.inl ⟨ch', found⟩

theorem effect_users_subset (h : Effect op st r st') : st.users ⊆ st'.users := by
  rcases effect_users h with h | ⟨u, -, -, -, h⟩ <;> rw [h]
  exact Finset.subset_insert u st.users

theorem effect_history_subset (h : Effect op st r st') {m : Message} (hm : m ∈ st.history c) :
    m ∈ st'.history c := by
  by_cases other : ∀ u t, op ≠ .sendMessage c u t
  · rw [(effect_history h other).1]; exact hm
  · push Not at other
    obtain ⟨u, t, rfl⟩ := other
    cases h with
    | refused | read => exact hm
    | appended _ _ _ id _ ch next found =>
      simp only [AppState.history, channelOrNew_setChannel, if_true]
      rw [AppState.history, channelOrNew_of_channel found] at hm
      exact KeySet.mem_insert_of_mem hm

/-! ## What a step does to the stores -/

section Grows

variable {hash : String → ℕ} {σ σ' σ'' : Servers} {stack stack' : List Frame}

theorem advance_effect (h : Advance hash σ op stack σ' stack') (s : ServerId) :
    σ'.store s = σ.store s ∨ ∃ r, Effect op (σ.store s) r (σ'.store s) := by
  rcases advance_store h with hstore | ⟨t, r, st, rest, -, locked, rfl⟩ |
    ⟨t, v, r, st, rest, -, locked, rfl⟩
  · rw [hstore]; exact Or.inl rfl
  all_goals
    simp only [setStore_store, Function.update_apply]
    split_ifs with hst
    · subst hst
      first
        | exact Or.inr ⟨r, locked_effect locked⟩
        | exact Or.inr ⟨r, replicate_effect locked⟩
    · exact Or.inl rfl

/-- Under a poisoned mutex no commit changes anything. -/
theorem poisoned_store {s : ServerId} {rest : List Frame}
    (h : Advance hash σ op (.call s .commit :: rest) σ' stack') (poisoned : σ.poisoned s = true) :
    σ'.store = σ.store := by
  cases h with
  | committed s v state rest live locked unpoisoned => simp [poisoned] at unpoisoned
  | rejected s e state rest live locked =>
    obtain rfl : state = σ.store s := effect_error (locked_effect locked)
    rw [setStore_self]
  | panic s pc σ' rest live poisons => rcases poisons with rfl | ⟨rfl, -⟩ <;> rfl
  | _ => rfl

/-- What is never undone: users, messages, marks and crashes. -/
structure Servers.Grows (σ σ' : Servers) : Prop where
  users : ∀ s, (σ.store s).users ⊆ (σ'.store s).users
  history : ∀ s c, ∀ m ∈ (σ.store s).history c, m ∈ (σ'.store s).history c
  view : ∀ s p, σ.view s p = false → σ'.view s p = false
  crashed : ∀ s, σ.crashed s = true → σ'.crashed s = true

theorem grows_refl (σ : Servers) : σ.Grows σ :=
  ⟨fun _ => Finset.Subset.refl _, fun _ _ _ => id, fun _ _ => id, fun _ => id⟩

theorem Servers.Grows.trans (h : σ.Grows σ') (h' : σ'.Grows σ'') : σ.Grows σ'' where
  users s := (h.users s).trans (h'.users s)
  history s c m hm := h'.history s c m (h.history s c m hm)
  view s p hp := h'.view s p (h.view s p hp)
  crashed s hs := h'.crashed s (h.crashed s hs)

theorem grows_advance (h : Advance hash σ op stack σ' stack') : σ.Grows σ' where
  users s := by
    rcases advance_effect h s with hs | ⟨r, hr⟩
    · rw [hs]
    · exact effect_users_subset hr
  history s c m hm := by
    rcases advance_effect h s with hs | ⟨r, hr⟩
    · rwa [hs]
    · exact effect_history_subset hr hm
  view s p hp := by rwa [(advance_view h).1]
  crashed s hs := by rwa [(advance_view h).2]

theorem grows_suspect (σ : Servers) (s p : ServerId) : σ.Grows (σ.suspect s p) where
  users _ := Finset.Subset.refl _
  history _ _ _ := id
  view t q hq := by
    rw [suspect_view]
    split_ifs
    · rfl
    · exact hq
  crashed _ := id

theorem grows_crash (σ : Servers) (s : ServerId) : σ.Grows (σ.crash s) where
  users _ := Finset.Subset.refl _
  history _ _ _ := id
  view _ _ := id
  crashed t ht := by
    rw [crash_crashed, Function.update_apply]
    split_ifs
    · rfl
    · exact ht

theorem grows_step {w w' : World} {e : Event} (h : Step hash w e w') :
    w.servers.Grows w'.servers := by
  cases h with
  | advanced j pre post σ' stack' jobs advance => exact grows_advance advance
  | suspected s p other live => exact grows_suspect _ s p
  | crashed s live => exact grows_crash _ s
  | _ => exact grows_refl _

theorem grows_run {ok : World → Event → Prop} {w w' : World} {es : List Event}
    (run : Run.Exec (World.step hash) ok w es w') : w.servers.Grows w'.servers :=
  run.invariant (P := fun w' => w.servers.Grows w'.servers) (grows_refl _)
    fun _ _ _ h _ taken => h.trans (grows_step (step_cases taken))

end Grows

/-! ## The stores at startup -/

theorem createChannel_channelOrNew :
    (createChannel c st).2.channelOrNew d = st.channelOrNew d := by
  unfold createChannel
  split_ifs with hexists
  · rfl
  · rw [channelOrNew_setChannel]
    split_ifs with hd
    · have hnone : st.channel c = none := by simpa [channelExists] using hexists
      rw [hd, AppState.channelOrNew, hnone]
      rfl
    · rfl

theorem initStore_channelOrNew (s : ServerId) (c : String) :
    (initStore s).channelOrNew c = .new := by
  cases s <;> exact createChannel_channelOrNew.trans createChannel_channelOrNew

@[simp] theorem initStore_users (s : ServerId) : (initStore s).users = ∅ := by cases s <;> rfl

@[simp] theorem initStore_history (s : ServerId) (c : String) :
    (initStore s).history c = .empty := by
  rw [AppState.history, initStore_channelOrNew, Channel.new]

@[simp] theorem initStore_members (s : ServerId) (c : String) : (initStore s).members c = ∅ := by
  rw [AppState.members, initStore_channelOrNew, Channel.new]

@[simp] theorem initStore_nextId (s : ServerId) (c : String) : (initStore s).nextId c = 0 := by
  rw [AppState.nextId, initStore_channelOrNew, Channel.new]

end MiniDiscord.Cluster
