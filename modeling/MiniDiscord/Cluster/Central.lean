import MiniDiscord.Cluster.Convergence

/-!
# One central store

The service as a single `discord_stateops` store would run it, and what an operation on a server
has to do with the same operation on that store: it reads the same part and makes the same change.
-/

namespace MiniDiscord.Cluster

open DiscordStateops

/-- The three startup channels in one store. -/
def centralInit : AppState :=
  (createChannel "#systems"
    (createChannel "#distributed" (createChannel "#cs249" .new).2).2).2

/-- A request to the central store, which knows all users itself. -/
def central (op : Op) (st : AppState) : Option (StateResult Value × AppState) :=
  match op with
  | .joinChannel u c =>
    let (r, st') := joinChannel u c (DiscordStateops.userExists · st) st
    some (r.map fun _ => .unit, st')
  | .leaveChannel u c =>
    (leaveChannel u c (DiscordStateops.userExists · st) st).map fun (r, st') =>
      (r.map fun _ => .unit, st')
  | .sendMessage c u t =>
    (sendMessage c u t (DiscordStateops.userExists · st) st).map fun (r, st') =>
      (r.map .messageId, st')
  | .createUser u =>
    let (r, st') := DiscordStateops.createUser u st
    some (r.map fun _ => .unit, st')
  | .userExists u => some (.ok (.found (DiscordStateops.userExists u st)), st)
  | .getUsers => some (.ok (.names (DiscordStateops.getUsers st)), st)
  | .getChannels => some (.ok (.names (DiscordStateops.getChannels st)), st)
  | .listChannelUsers c => some ((DiscordStateops.listChannelUsers c st).map .names, st)
  | .getMessages c limit offset =>
    some ((DiscordStateops.getMessages c limit offset st).map .messages, st)

/-- The user that an operation awaits `user_exists` for does not exist. -/
def Op.Absent (op : Op) (st : AppState) : Prop :=
  op.entry ≠ .commit ∧ ∃ u, op.username? = some u ∧ u ∉ st.users

variable {hash : String → ℕ} {op : Op} {st st' st₁ : AppState} {r : StateResult Value} {v : Value}
  {c u t : String}

/-! ## A request in stages -/

theorem central_refused {e : StateError} (h : op.checks st = .error e) :
    central op st = some (.error e, st) := by
  cases op with
  | leaveChannel u c =>
    have hchecks : checkChannel c st = .error e := h
    simp [central, leaveChannel, hchecks, Except.map]
  | sendMessage c u t =>
    have hchecks : checkChannel c st = .error e := h
    simp [central, sendMessage, hchecks, Except.map]
  | _ => cases h

theorem central_unknown (h : op.checks st = .ok ()) (absent : op.Absent st) :
    central op st = some (.error unknownUser, st) := by
  obtain ⟨hentry, u', huser, hu⟩ := absent
  cases op with
  | joinChannel u c =>
    cases huser
    simp [central, joinChannel, DiscordStateops.userExists, hu, Except.map]
  | leaveChannel u c =>
    cases huser
    have hchecks : checkChannel c st = .ok () := h
    simp [central, leaveChannel, DiscordStateops.userExists, hchecks, hu, Except.map]
  | sendMessage c u t =>
    cases huser
    have hchecks : checkChannel c st = .ok () := h
    simp [central, sendMessage, DiscordStateops.userExists, hchecks, hu, Except.map]
  | _ => exact absurd rfl hentry

theorem central_locked (h : op.checks st = .ok ()) (present : ¬ op.Absent st) :
    central op st = op.locked st := by
  have hpresent : op.entry ≠ .commit → ∀ u, op.username? = some u → u ∈ st.users :=
    fun hentry u hu => by_contra fun hnot => present ⟨hentry, u, hu, hnot⟩
  cases op with
  | joinChannel u c =>
    have hu := hpresent (by simp [Op.entry]) u rfl
    simp [central, Op.locked, joinChannel, DiscordStateops.userExists, hu]
  | leaveChannel u c =>
    have hu := hpresent (by simp [Op.entry]) u rfl
    have hchecks : checkChannel c st = .ok () := h
    simp [central, Op.locked, leaveChannel, DiscordStateops.userExists, hchecks, hu]
  | sendMessage c u t =>
    have hu := hpresent (by simp [Op.entry]) u rfl
    have hchecks : checkChannel c st = .ok () := h
    simp [central, Op.locked, sendMessage, DiscordStateops.userExists, hchecks, hu]
  | _ => rfl

theorem locked_total (h : op.checks st = .ok ()) (tallied : ∀ c, Tallied c st) :
    ∃ r st₁, op.locked st = some (r, st₁) := by
  cases op with
  | leaveChannel u c =>
    obtain ⟨-, ch, found⟩ := checkChannel_ok.mp h
    simp only [Op.locked, leaveChannelLocked, found]
    split_ifs <;> exact ⟨_, _, rfl⟩
  | sendMessage c u t =>
    obtain ⟨-, ch, found⟩ := checkChannel_ok.mp h
    have hhistory : st.history c = ch.messages := by
      rw [AppState.history, channelOrNew_of_channel found]
    have hinsert : insertMessage ch.messages (Message.from' u t c ch.nextMessageId) =
        some (ch.messages.insert (Message.from' u t c ch.nextMessageId)) :=
      insertMessage_some (fun m hm => (tallied c).numeric (hhistory ▸ hm)) (by simp)
    simp only [Op.locked, sendMessageLocked, found, hinsert, Option.bind_eq_bind, Option.bind_some]
    split_ifs <;> exact ⟨_, _, rfl⟩
  | _ => exact ⟨_, _, rfl⟩

/-! ## The same change on another store -/

/-- A change of a store, by the key it is about. -/
inductive Update
  | keep
  | user (u : String)
  | channel (c : String) (ch : Channel)

def Update.apply : Update → AppState → AppState
  | .keep, st => st
  | .user u, st => { st with users := insert u st.users }
  | .channel c ch, st => st.setChannel c ch

def Update.owner (hash : String → ℕ) : Update → Option LocationConfig
  | .keep => none
  | .user u => some (userOwner hash u)
  | .channel c _ => some (channelOwner hash c)

/-- The two stores agree on the key of the operation. -/
def Agree : Op → AppState → AppState → Prop
  | .createUser u, st, st' | .userExists u, st, st' => u ∈ st.users ↔ u ∈ st'.users
  | .joinChannel _ c, st, st' | .leaveChannel _ c, st, st' | .listChannelUsers c, st, st'
  | .sendMessage c _ _, st, st' | .getMessages c _ _, st, st' => st.channel c = st'.channel c
  | .getUsers, _, _ | .getChannels, _, _ => False

/-- What one store does, the other does too, and so does a backup that is asked to. -/
structure Follows (hash : String → ℕ) (op : Op) (st : AppState) (r : StateResult Value)
    (x : Update) :
    Prop where
  owner : x = .keep ∨
    x.owner hash = op.owner hash ∧ op.replicated = true ∧ ∃ v, r = .ok v
  local' : ∀ st', Agree op st st' → op.locked st' = some (r, x.apply st')
  replica : op.replicated = true → op.named = true → (∀ c, Tallied c st) → ∀ v, r = .ok v →
    ∀ st', Agree op st st' → op.replicateLocked v st' = some (.ok v, x.apply st')

theorem agree_refl (h : op.owner hash ≠ none) : Agree op st st := by
  cases op <;> first | rfl | exact Iff.rfl | exact absurd rfl h

theorem follows_keep (r₀ : StateResult Value) (owner : op.owner hash ≠ none)
    (hlocked : ∀ st', Agree op st st' → op.locked st' = some (r₀, st'))
    (reads : op.replicated = false ∨ ∃ e, r₀ = .error e) (h : op.locked st = some (r, st₁)) :
    ∃ x, st₁ = x.apply st ∧ Follows hash op st r x := by
  obtain ⟨rfl, rfl⟩ := Prod.mk.inj
    (Option.some.inj (h.symm.trans (hlocked st (agree_refl owner))))
  refine ⟨.keep, rfl, Or.inl rfl, hlocked, fun hreplicated _ _ v hv => ?_⟩
  rcases reads with hreads | ⟨e, rfl⟩
  · simp [hreads] at hreplicated
  · cases hv

theorem follows_change {x : Update} (owner : op.owner hash ≠ none)
    (howner : x.owner hash = op.owner hash) (hreplicated : op.replicated = true)
    (hlocked : ∀ st', Agree op st st' → op.locked st' = some (.ok v, x.apply st'))
    (hreplica : op.named = true → (∀ c, Tallied c st) → ∀ st', Agree op st st' →
      op.replicateLocked v st' = some (.ok v, x.apply st'))
    (h : op.locked st = some (r, st₁)) : ∃ x, st₁ = x.apply st ∧ Follows hash op st r x := by
  obtain ⟨rfl, rfl⟩ := Prod.mk.inj
    (Option.some.inj (h.symm.trans (hlocked st (agree_refl owner))))
  refine ⟨x, rfl, Or.inr ⟨howner, hreplicated, v, rfl⟩, hlocked, fun _ named tallied v' hv => ?_⟩
  cases hv
  exact hreplica named tallied

theorem createUser_follows (h : (Op.createUser u).locked st = some (r, st₁)) :
    ∃ x, st₁ = x.apply st ∧ Follows hash (.createUser u) st r x := by
  by_cases hempty : u = ""
  · refine follows_keep (.error emptyUsername) (Option.some_ne_none _)
      (fun st' _ => ?_) (Or.inr ⟨_, rfl⟩) h
    simp [Op.locked, createUser, hempty, Except.map]
  · by_cases hu : u ∈ st.users
    · refine follows_keep (.error duplicateUser) (Option.some_ne_none _) (fun st' agree => ?_)
        (Or.inr ⟨_, rfl⟩) h
      have hu' : u ∈ st'.users := agree.mp hu
      simp [Op.locked, createUser, hempty, hu', Except.map]
    · refine follows_change (x := .user u) (v := .unit) (Option.some_ne_none _) rfl rfl
        (fun st' agree => ?_)
        (fun _ _ st' agree => ?_) h
      all_goals
        have hu' : u ∉ st'.users := fun hmem => hu (agree.mpr hmem)
        simp [Op.locked, Op.replicateLocked, createUser, hempty, hu', Update.apply, Except.map]

theorem joinChannel_follows (h : (Op.joinChannel u c).locked st = some (r, st₁)) :
    ∃ x, st₁ = x.apply st ∧ Follows hash (.joinChannel u c) st r x := by
  have hagree : ∀ {st'}, Agree (.joinChannel u c) st st' → st'.channelOrNew c = st.channelOrNew c :=
    fun {st'} agree => by
      have hchannel : st.channel c = st'.channel c := agree
      rw [AppState.channelOrNew, AppState.channelOrNew, hchannel]
  by_cases hvalid : channelNameIsValid c = true
  · by_cases hmember : u ∈ (st.channelOrNew c).users
    · refine follows_keep (.error alreadyMember) (Option.some_ne_none _) (fun st' agree => ?_)
        (Or.inr ⟨_, rfl⟩) h
      have hmember' : u ∈ (st'.channelOrNew c).users := by rwa [hagree agree]
      simp [Op.locked, joinChannelLocked, hvalid, orInsert_snd, hmember', orInsert_fst hmember',
        Except.map]
    · refine follows_change (v := .unit)
        (x := .channel c { st.channelOrNew c with
          users := insert u (st.channelOrNew c).users }) (Option.some_ne_none _) rfl rfl
            (fun st' agree => ?_)
        (fun _ _ st' agree => ?_) h
      all_goals
        have hchannel := hagree agree
        simp [Op.locked, Op.replicateLocked, joinChannel, joinChannelLocked, hvalid, orInsert_snd,
          orInsert_setChannel, hchannel, hmember, Update.apply, Except.map]
  · refine follows_keep (.error invalidChannelName) (Option.some_ne_none _) (fun st' _ => ?_)
      (Or.inr ⟨_, rfl⟩) h
    simp [Op.locked, joinChannelLocked, hvalid, Except.map]

theorem leaveChannel_follows (h : (Op.leaveChannel u c).locked st = some (r, st₁)) :
    ∃ x, st₁ = x.apply st ∧ Follows hash (.leaveChannel u c) st r x := by
  cases hfound : st.channel c with
  | none => simp [Op.locked, leaveChannelLocked, hfound] at h
  | some ch =>
    have hagree : ∀ {st'}, Agree (.leaveChannel u c) st st' → st'.channel c = some ch :=
      fun {st'} agree => agree.symm.trans hfound
    by_cases hmember : u ∈ ch.users
    · refine follows_change (v := .unit)
        (x := .channel c { ch with users := ch.users.erase u }) (Option.some_ne_none _) rfl rfl
          (fun st' agree => ?_)
        (fun named _ st' agree => ?_) h
      · simp [Op.locked, leaveChannelLocked, hagree agree, hmember, Update.apply, Except.map]
      · have hchecks : checkChannel c st' = .ok () := checkChannel_ok.mpr ⟨named, ch, hagree agree⟩
        simp [Op.replicateLocked, leaveChannel, hchecks, leaveChannelLocked, hagree agree, hmember,
          Update.apply, Except.map]
    · refine follows_keep (.error notAMember) (Option.some_ne_none _) (fun st' agree => ?_)
        (Or.inr ⟨_, rfl⟩) h
      simp [Op.locked, leaveChannelLocked, hagree agree, hmember, Except.map]

theorem sendMessage_follows (h : (Op.sendMessage c u t).locked st = some (r, st₁)) :
    ∃ x, st₁ = x.apply st ∧ Follows hash (.sendMessage c u t) st r x := by
  cases hfound : st.channel c with
  | none => simp [Op.locked, sendMessageLocked, hfound] at h
  | some ch =>
    have hagree : ∀ {st'}, Agree (.sendMessage c u t) st st' → st'.channel c = some ch :=
      fun {st'} agree => agree.symm.trans hfound
    by_cases hmember : u ∈ ch.users
    · cases hinsert : insertMessage ch.messages ⟨u, t, formatMessageId c ch.nextMessageId⟩ with
      | none => simp [Op.locked, sendMessageLocked, hfound, hmember, Message.from', hinsert] at h
      | some inserted =>
        refine follows_change (v := .messageId (formatMessageId c ch.nextMessageId))
          (x := .channel c { ch with
            messages := inserted.1, nextMessageId := ch.nextMessageId + 1 })
          (Option.some_ne_none _) rfl rfl (fun st' agree => ?_) (fun _ tallied st' agree => ?_) h
        · simp [Op.locked, sendMessageLocked, hagree agree, hmember, hinsert, Update.apply,
            Except.map, Message.from']
        · -- the primary's number is new to the backup, so its counter goes up with the primary's
          have hfresh := (tallied c).fresh
          rw [AppState.history, AppState.nextId, channelOrNew_of_channel hfound] at hfresh
          have hdid : inserted.2 = true := by
            rw [insertMessage_eq hinsert, KeySet.insert_snd, Message.key_eq rfl]
            simpa using hfresh
          simp [Op.replicateLocked, replicateSendMessage, hagree agree, hinsert, hdid, Update.apply,
            Except.map]
    · refine follows_keep (.error notAMemberForbidden) (Option.some_ne_none _) (fun st' agree => ?_)
        (Or.inr ⟨_, rfl⟩) h
      simp [Op.locked, sendMessageLocked, hagree agree, hmember, Except.map]

/-- **One operation on two stores.** -/
theorem locked_follows (owner : op.owner hash ≠ none) (h : op.locked st = some (r, st₁)) :
    ∃ x, st₁ = x.apply st ∧ Follows hash op st r x := by
  cases op with
  | createUser u => exact createUser_follows h
  | joinChannel u c => exact joinChannel_follows h
  | leaveChannel u c => exact leaveChannel_follows h
  | sendMessage c u t => exact sendMessage_follows h
  | userExists u =>
    refine follows_keep (.ok (.found (DiscordStateops.userExists u st))) owner (fun st' agree => ?_)
      (Or.inl rfl) h
    have hsame : u ∈ st.users ↔ u ∈ st'.users := agree
    simp [Op.locked, DiscordStateops.userExists, hsame]
  | listChannelUsers c =>
    refine follows_keep ((listChannelUsers c st).map .names) owner (fun st' agree => ?_)
      (Or.inl rfl) h
    have hsame : st.channel c = st'.channel c := agree
    simp [Op.locked, listChannelUsers, checkChannel, channelExists, hsame]
  | getMessages c limit offset =>
    refine follows_keep ((getMessages c limit offset st).map .messages) owner
      (fun st' agree => ?_) (Or.inl rfl) h
    have hsame : st.channel c = st'.channel c := agree
    simp [Op.locked, getMessages, checkChannel, channelExists, hsame]
  | getUsers | getChannels => exact absurd rfl owner

end MiniDiscord.Cluster
