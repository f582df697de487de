import MiniDiscord.Page
import MiniDiscord.Pa1.MessageLog

/-!
# The store without its index

What the store is for: who is registered, which channels there are, who is in them and what was
said. Nobody keeps the channels of a user, so that `leave_all_channels` scans all of them. Calls
that run one after the other cannot tell the store from this one.
-/

namespace MiniDiscord.Pa1

/-! ## The reference store -/

structure Reference where
  users : Finset String
  channels : Finset String
  members : String → Finset String
  log : String → List Message
  nextMessageId : ℕ

namespace Reference

def new : Reference := ⟨∅, ∅, fun _ => ∅, fun _ => [], 0⟩

def checkChannel (ref : Reference) (c : String) : StateResult Unit :=
  if !channelNameIsValid c then .error invalidChannelName
  else if c ∉ ref.channels then .error unknownChannel
  else .ok ()

def checkUser (ref : Reference) (u : String) : StateResult Unit :=
  if u ∉ ref.users then .error unknownUser else .ok ()

def createUser (ref : Reference) (u : String) : StateResult Reference :=
  if u ∈ ref.users then .error userAlreadyExists
  else .ok { ref with users := insert u ref.users }

def joinChannel (ref : Reference) (u c : String) : StateResult Reference :=
  if u ∉ ref.users then .error unknownUserBadRequest
  else if !channelNameIsValid c then .error invalidChannelName
  else if u ∈ ref.members c then .error alreadyMember
  else .ok { ref with
    channels := insert c ref.channels,
    members := Function.update ref.members c (insert u (ref.members c)) }

def leaveChannel (ref : Reference) (u c : String) : StateResult Reference := do
  ref.checkChannel c
  ref.checkUser u
  if u ∉ ref.members c then .error notAMember
  else .ok { ref with members := Function.update ref.members c ((ref.members c).erase u) }

/-- Scans all channels. -/
def leaveAllChannels (ref : Reference) (u : String) : Reference :=
  { ref with
    members := fun c => if c ∈ ref.channels then (ref.members c).erase u else ref.members c }

def sendMessage (ref : Reference) (c u t : String) : StateResult (ℕ × Reference) := do
  ref.checkChannel c
  ref.checkUser u
  if u ∉ ref.members c then .error notAMember
  else .ok (ref.nextMessageId, { ref with
    log := Function.update ref.log c (ref.log c ++ [⟨u, t, ref.nextMessageId⟩]),
    nextMessageId := ref.nextMessageId + 1 })

/-- A call that changes nothing. -/
def read (ref : Reference) (r : StateResult Value) : StateResult Value × Reference := (r, ref)

/-- A call that changes the store if it succeeds. -/
def write (ref : Reference) : StateResult (Value × Reference) → StateResult Value × Reference
  | .ok (v, ref') => (.ok v, ref')
  | .error e => (.error e, ref)

def call (ref : Reference) : Call → StateResult Value × Reference
  | .getUsers => ref.read (.ok (.names ref.users.val))
  | .userExists u => ref.read (.ok (.found (decide (u ∈ ref.users))))
  | .createUser u => ref.write ((ref.createUser u).map fun ref' => (.unit, ref'))
  | .getChannels => ref.read (.ok (.names ref.channels.val))
  | .joinChannel u c => ref.write ((ref.joinChannel u c).map fun ref' => (.unit, ref'))
  | .listChannelUsers c =>
    ref.read ((ref.checkChannel c).map fun _ => .names (ref.members c).val)
  | .leaveChannel u c => ref.write ((ref.leaveChannel u c).map fun ref' => (.unit, ref'))
  | .leaveAllChannels u _ => (.ok .unit, ref.leaveAllChannels u)
  | .sendMessage c u t =>
    ref.write ((ref.sendMessage c u t).map fun (id, ref') => (.messageId id, ref'))
  | .getMessages c limit offset =>
    ref.read ((ref.checkChannel c).map fun _ =>
      .messages (page (ref.log c) (limit.getD 20) (offset.getD 0)))

/-- The calls one after the other. -/
def calls (ref : Reference) : List Call → List (StateResult Value) × Reference
  | [] => ([], ref)
  | k :: ks =>
    let (r, ref') := ref.call k
    let (rs, ref'') := ref'.calls ks
    (r :: rs, ref'')

end Reference

/-- The calls one after the other at the store, each of them alone; `none` if one panics. -/
def callsAlone : List Call → AppState → Option (List (StateResult Value) × AppState)
  | [], state => some ([], state)
  | k :: ks, state => do
    let (r, state') ← k.start.alone Section.exec state
    let (rs, state'') ← callsAlone ks state'
    some (r :: rs, state'')

/-! ## The abstraction -/

/-- What is left of the store without the index. -/
def AppState.reference (state : AppState) : Reference :=
  ⟨state.users, state.channels.keys, state.members, state.log, state.nextMessageId⟩

/-- The index is consistent, and a channel that exists has a valid name. -/
structure AppState.Sound (state : AppState) : Prop where
  consistent : state.Consistent
  valid : ∀ c, (state.channel c).isSome = true → channelNameIsValid c = true

variable {state state' : AppState} {i : Section} {c d u t : String} {channel : Channel}
  {names : Finset String} {α : Type}

theorem mem_channels : c ∈ state.channels.keys ↔ (state.channel c).isSome = true := by
  rw [Finmap.mem_keys, ← Finmap.lookup_isSome, AppState.channel]

theorem setChannel_reference : (state.setChannel c channel).reference =
    { state.reference with
      channels := insert c state.channels.keys
      members := Function.update state.members c channel.users
      log := Function.update state.log c channel.messages } := by
  have hkeys : (state.setChannel c channel).channels.keys = insert c state.channels.keys := by
    ext d
    rw [mem_channels, setChannel_channel, Finset.mem_insert, mem_channels]
    split_ifs with h <;> simp [h]
  have hmembers : (state.setChannel c channel).members =
      Function.update state.members c channel.users := by
    funext d
    rw [setChannel_members, Function.update_apply]
  have hlog : (state.setChannel c channel).log =
      Function.update state.log c channel.messages := by
    funext d
    rw [setChannel_log, Function.update_apply]
  simp [AppState.reference, hkeys, hmembers, hlog]

@[simp] theorem setUserChannels_reference :
    (state.setUserChannels u names).reference = state.reference := rfl

/-! ## Soundness -/

theorem change_valid (h : Change state i state')
    (valid : ∀ c, (state.channel c).isSome = true → channelNameIsValid c = true)
    (named : ∀ u c, i = .join u c → channelNameIsValid c = true) :
    ∀ c, (state'.channel c).isSome = true → channelNameIsValid c = true := by
  intro d hd
  cases h with
  | kept | inserted => exact valid d hd
  | joined u c | left u c | sent c u =>
    simp only [setUserChannels_channel, setChannel_channel] at hd
    split_ifs at hd with hdc
    · rw [hdc]
      first
        | exact named u c rfl
        | exact valid c (by simp [*])
    · exact valid d hd

theorem sound_exec {a : i.Answer} (sound : state.Sound) (h : i.exec state = some (a, state'))
    (fresh : i.Fresh state) (named : ∀ u c, i = .join u c → channelNameIsValid c = true) :
    state'.Sound :=
  ⟨change_consistent (exec_change h) fresh sound.consistent,
    change_valid (exec_change h) sound.valid named⟩

theorem sound_init : AppState.new.Sound :=
  ⟨consistent_init, fun c hc => by simp [AppState.channel, AppState.new] at hc⟩

theorem not_user_joined (sound : state.Sound) (hu : u ∉ state.users) : state.joined u = ∅ := by
  have hnone : state.userChannels.lookup u = none := by
    rw [← Option.not_isSome_iff_eq_none, ← mem_keys_iff, sound.consistent.keyed]
    exact hu
  rw [AppState.joined, hnone, Option.getD_none]

theorem member_user (sound : state.Sound) (h : u ∈ state.members c) : u ∈ state.users := by
  by_contra hu
  rw [sound.consistent.index, not_user_joined sound hu] at h
  exact absurd h (Finset.notMem_empty c)

theorem member_channel (h : u ∈ state.members c) : (state.channel c).isSome = true := by
  by_contra hc
  rw [Option.not_isSome_iff_eq_none] at hc
  simp [AppState.members, hc, Channel.new] at h

/-! ## One call -/

/-- Alone at the store, the function returns what the reference does, and the stores agree on what
is left. -/
def Answers {α : Type} (t : Op (StateResult α)) (state : AppState) :
    StateResult (α × Reference) → Prop
  | .error e => t.alone Section.exec state = some (.error e, state)
  | .ok (v, ref) => ∃ state', t.alone Section.exec state = some (.ok v, state') ∧ state'.Sound ∧
      state'.reference = ref

@[simp] theorem alone_userExists (next : Bool → Op α) :
    Program.alone Section.exec (.locked (.userExists u) next) state =
      (next (decide (u ∈ state.users))).alone Section.exec state := rfl

@[simp] theorem alone_channelExists (next : Bool → Op α) :
    Program.alone Section.exec (.locked (.channelExists c) next) state =
      (next (state.channel c).isSome).alone Section.exec state := rfl

theorem answers_createUser (sound : state.Sound) :
    Answers (createUser u) state ((state.reference.createUser u).map fun ref => ((), ref)) := by
  by_cases hu : u ∈ state.users
  · have hcall : state.reference.createUser u = .error userAlreadyExists := if_pos hu
    rw [hcall]
    change (createUser u).alone Section.exec state = some (.error userAlreadyExists, state)
    simp [createUser, userExists, hu]
  · have hcall : state.reference.createUser u =
        .ok { state.reference with users := insert u state.users } := if_neg hu
    rw [hcall]
    refine ⟨{ state with users := insert u state.users }.setUserChannels u ∅, ?_, ?_, rfl⟩
    · simp only [createUser, userExists, Program.lock_bind, alone_userExists, hu, decide_false]
      rfl
    · exact sound_exec (i := .insertUser u) sound rfl (not_user_joined sound hu) (by rintro _ _ ⟨⟩)

theorem alone_lock (i : Section) (state : AppState) :
    (withLock i).alone Section.exec state = i.exec state := by
  rw [withLock, Program.lock, Program.alone]
  cases i.exec state <;> rfl

theorem answers_joinChannel (sound : state.Sound) :
    Answers (joinChannel u c) state
      ((state.reference.joinChannel u c).map fun ref => ((), ref)) := by
  by_cases hu : u ∈ state.users
  · cases hvalid : channelNameIsValid c with
    | false =>
      simp [Reference.joinChannel, Except.map, Answers, AppState.reference, hu, hvalid, joinChannel,
        userExists]
    | true =>
      have halone : (joinChannel u c).alone Section.exec state = joinLocked u c state := by
        have hlock : (withLock (.join u c)).alone Section.exec state = joinLocked u c state :=
          alone_lock (.join u c) state
        simpa [joinChannel, userExists, hu, hvalid] using hlock
      have hmembers : state.members c = ((state.channel c).getD .new).users := rfl
      obtain ⟨names, entry⟩ := keyed_lookup sound.consistent.keyed hu
      by_cases hmember : u ∈ state.members c
      · have hcall : state.reference.joinChannel u c = .error alreadyMember := by
          simp [Reference.joinChannel, AppState.reference, hu, hvalid, hmember]
        obtain ⟨channel, found⟩ := Option.isSome_iff_exists.mp (member_channel hmember)
        rw [hcall]
        refine halone.trans ?_
        rw [members_of_channel found] at hmember
        simp [joinLocked, found, hmember, setChannel_same found]
      · have hcall : state.reference.joinChannel u c = .ok { state.reference with
            channels := insert c state.channels.keys,
            members := Function.update state.members c (insert u (state.members c)) } := by
          simp [Reference.joinChannel, AppState.reference, hu, hvalid, hmember]
        have hlocked : joinLocked u c state = some (.ok (), (state.setChannel c
            ⟨insert u (state.members c), state.log c⟩).setUserChannels u (insert c names)) := by
          rw [hmembers] at hmember
          simp [joinLocked, hmember, entry, AppState.members, AppState.log]
        rw [hcall]
        refine ⟨_, halone.trans hlocked, sound_exec (i := .join u c) sound hlocked trivial ?_, ?_⟩
        · intro _ _ hi
          cases hi
          exact hvalid
        · rw [setUserChannels_reference, setChannel_reference, Function.update_eq_self]
          rfl
  · simp [Reference.joinChannel, Except.map, Answers, AppState.reference, hu, joinChannel,
      userExists]

theorem checkChannel_ok (sound : state.Sound) (hc : (state.channel c).isSome = true) :
    state.reference.checkChannel c = .ok () := by
  have hmem : c ∈ state.channels.keys := mem_channels.mpr hc
  simp [Reference.checkChannel, AppState.reference, sound.valid c hc, hmem]

/-- The checks of `leave_channel` and `send_message`. -/
theorem answers_checked (sound : state.Sound) {α : Type} {go : Op (StateResult α)}
    {x : StateResult (α × Reference)}
    (h : (state.channel c).isSome = true → u ∈ state.users → Answers go state x) :
    Answers (if (!channelNameIsValid c) = true then .done (.error invalidChannelName)
        else .locked (.channelExists c) fun found =>
          if (!found) = true then .done (.error unknownChannel)
          else .locked (.userExists u) fun found =>
            if (!found) = true then .done (.error unknownUser) else go) state
      (do state.reference.checkChannel c; state.reference.checkUser u; x) := by
  cases hvalid : channelNameIsValid c with
  | false =>
    have hcheck : state.reference.checkChannel c = .error invalidChannelName := by
      simp [Reference.checkChannel, hvalid]
    rw [hcheck]
    rfl
  | true =>
    cases hc : (state.channel c).isSome with
    | false =>
      have hcheck : state.reference.checkChannel c = .error unknownChannel := by
        have hmem : c ∉ state.channels.keys := by rw [mem_channels, hc]; simp
        simp [Reference.checkChannel, AppState.reference, hvalid, hmem]
      rw [hcheck]
      change Program.alone _ _ _ = _
      simp [hc]
    | true =>
      rw [checkChannel_ok sound hc]
      by_cases hu : u ∈ state.users
      · have hcheck : state.reference.checkUser u = .ok () := if_neg (not_not.mpr hu)
        have hgo : ∀ t : Op (StateResult α), t.alone Section.exec state =
            go.alone Section.exec state → Answers t state x := by
          intro t ht
          have hx := h hc hu
          unfold Answers at hx ⊢
          rwa [ht]
        rw [hcheck]
        refine hgo _ ?_
        simp [hc, hu]
      · have hcheck : state.reference.checkUser u = .error unknownUser := if_pos hu
        rw [hcheck]
        change Program.alone _ _ _ = _
        simp [hc, hu]

theorem leaveChannel_map (ref : Reference) {α : Type} (f : Reference → α) :
    (ref.leaveChannel u c).map f = ref.checkChannel c >>= fun _ => ref.checkUser u >>= fun _ =>
      if u ∉ ref.members c then .error notAMember
      else .ok (f { ref with
        members := Function.update ref.members c ((ref.members c).erase u) }) := by
  unfold Reference.leaveChannel
  cases ref.checkChannel c with
  | error => rfl
  | ok =>
    cases ref.checkUser u with
    | error => rfl
    | ok => exact apply_ite (Except.map f) _ _ _

theorem answers_leaveChannel (sound : state.Sound) :
    Answers (leaveChannel u c) state
      ((state.reference.leaveChannel u c).map fun ref => ((), ref)) := by
  rw [leaveChannel_map]
  refine answers_checked sound fun hc hu => ?_
  obtain ⟨channel, found⟩ := Option.isSome_iff_exists.mp hc
  obtain ⟨names, entry⟩ := keyed_lookup sound.consistent.keyed hu
  have hmembers : state.reference.members c = channel.users := members_of_channel found
  rw [hmembers]
  have halone := alone_lock (.leave u c) state
  by_cases hmember : u ∈ channel.users
  · have hlocked : leaveLocked u c state = some (.ok (),
        (state.setChannel c ⟨channel.users.erase u, channel.messages⟩).setUserChannels u
          (names.erase c)) := by
      simp [leaveLocked, found, hmember, entry]
    rw [if_neg (not_not.mpr hmember)]
    refine ⟨_, halone.trans hlocked,
      sound_exec (i := .leave u c) sound hlocked trivial (by rintro _ _ ⟨⟩), ?_⟩
    rw [setUserChannels_reference, setChannel_reference, ← log_of_channel found,
      Function.update_eq_self, Finset.insert_eq_of_mem (mem_channels.mpr hc)]
    rfl
  · rw [if_pos hmember]
    have hlocked : leaveLocked u c state = some (.error notAMember, state) := by
      simp [leaveLocked, found, hmember]
    exact halone.trans hlocked

theorem answers_sendMessage (sound : state.Sound) :
    Answers (sendMessage c u t) state (state.reference.sendMessage c u t) := by
  refine answers_checked sound fun hc hu => ?_
  obtain ⟨channel, found⟩ := Option.isSome_iff_exists.mp hc
  have hmembers : state.reference.members c = channel.users := members_of_channel found
  have hlog : state.reference.log c = channel.messages := log_of_channel found
  rw [hmembers, hlog]
  have halone := alone_lock (.send c u t) state
  by_cases hmember : u ∈ channel.users
  · have hlocked : sendLocked c u t state = some (.ok state.nextMessageId,
        ({ state with nextMessageId := state.nextMessageId + 1 } : AppState).setChannel c
          ⟨channel.users, channel.messages ++ [⟨u, t, state.nextMessageId⟩]⟩) := by
      simp [sendLocked, found, hmember]
    rw [if_neg (not_not.mpr hmember)]
    refine ⟨_, halone.trans hlocked,
      sound_exec (i := .send c u t) sound hlocked trivial (by rintro _ _ ⟨⟩), ?_⟩
    rw [setChannel_reference, ← hmembers]
    have hkeys : insert c state.channels.keys = state.channels.keys :=
      Finset.insert_eq_of_mem (mem_channels.mpr hc)
    have hsame : Function.update state.members c (state.members c) = state.members :=
      Function.update_eq_self c _
    exact congrArg₂ (fun channels members => Reference.mk _ channels members _ _) hkeys hsame
  · rw [if_pos hmember]
    have hlocked : sendLocked c u t state = some (.error notAMember, state) := by
      simp [sendLocked, found, hmember]
    exact halone.trans hlocked

/-! ## Leaving all channels -/

theorem leave_member (sound : state.Sound) (member : u ∈ state.members c) : ∃ state',
    (leaveChannel u c).alone Section.exec state = some (.ok (), state') ∧ state'.Sound ∧
      state'.reference = { state.reference with
        members := Function.update state.members c ((state.members c).erase u) } := by
  have hcheck : state.reference.checkChannel c = .ok () :=
    checkChannel_ok sound (member_channel member)
  have huser : state.reference.checkUser u = .ok () :=
    if_neg (not_not.mpr (member_user sound member))
  have hmember : ¬ u ∉ state.reference.members c := not_not.mpr member
  have hanswers := answers_leaveChannel (u := u) (c := c) sound
  rw [leaveChannel_map, hcheck, huser] at hanswers
  change Answers _ _ (if _ then _ else _) at hanswers
  rwa [if_neg hmember] at hanswers

/-- The loop of `leave_all_channels`: what is left of the names is what the user is still a member
of. -/
theorem leaveEach_alone (names : List String) (sound : state.Sound) (nodup : names.Nodup)
    (member : ∀ c ∈ names, u ∈ state.members c) : ∃ state',
    (leaveEach u names).alone Section.exec state = some ((), state') ∧ state'.Sound ∧
      state'.reference = { state.reference with
        members := fun c => if c ∈ names then (state.members c).erase u else state.members c } := by
  induction names generalizing state with
  | nil => exact ⟨state, rfl, sound, by simp [AppState.reference]⟩
  | cons c names ih =>
    obtain ⟨hnew, nodup⟩ := List.nodup_cons.mp nodup
    obtain ⟨state₁, hleave, sound₁, href⟩ := leave_member sound (member c List.mem_cons_self)
    have hmembers : ∀ d, state₁.members d =
        Function.update state.members c ((state.members c).erase u) d :=
      fun d => congrFun (congrArg Reference.members href) d
    obtain ⟨state₂, hrest, sound₂, href₂⟩ := ih sound₁ nodup fun d hd => by
      rw [hmembers, Function.update_of_ne (ne_of_mem_of_not_mem hd hnew)]
      exact member d (List.mem_cons_of_mem c hd)
    refine ⟨state₂, ?_, sound₂, ?_⟩
    · rw [leaveEach, Program.alone_bind, hleave]
      exact hrest
    · rw [href₂, href]
      refine congrArg (fun members => { state.reference with members := members })
        (funext fun d => ?_)
      rw [hmembers]
      by_cases hd : d = c
      · simp [hd, hnew]
      · simp [hd]

/-- A channel that the scan leaves out has no users. -/
theorem scan_members :
    (state.reference.leaveAllChannels u).members c = (state.members c).erase u := by
  unfold Reference.leaveAllChannels
  dsimp only
  split_ifs with hc
  · rfl
  · have hmember : u ∉ state.members c := fun h => hc (mem_channels.mpr (member_channel h))
    exact (Finset.erase_eq_of_notMem hmember).symm

theorem left_reference {members : String → Finset String}
    (left : ∀ c, members c = (state.members c).erase u) :
    { state.reference with members := members } = state.reference.leaveAllChannels u :=
  congrArg (fun members => { state.reference with members := members })
    (funext fun c => (left c).trans scan_members.symm)

theorem left_members (href : state'.reference = state.reference.leaveAllChannels u) :
    state'.members c = (state.members c).erase u :=
  (congrFun (congrArg Reference.members href) c).trans scan_members

theorem leaveAllChannels_alone (sound : state.Sound) (u : String) (order : HashOrder) : ∃ state',
    (leaveAllChannels u order).alone Section.exec state = some ((), state') ∧ state'.Sound ∧
      state'.reference = state.reference.leaveAllChannels u := by
  by_cases hu : u ∈ state.users
  · obtain ⟨names, entry⟩ := keyed_lookup sound.consistent.keyed hu
    have hjoined : ∀ c, c ∈ order.list names ↔ u ∈ state.members c := by
      intro c
      rw [sound.consistent.index, joined_of_lookup entry, ← Finset.mem_val, ← order.perm,
        Multiset.mem_coe]
    have hnodup : (order.list names).Nodup := by
      rw [← Multiset.coe_nodup, order.perm]
      exact names.nodup
    obtain ⟨state', halone, sound', href⟩ :=
      leaveEach_alone (order.list names) sound hnodup fun c => (hjoined c).mp
    refine ⟨state', ?_, sound', href.trans ?_⟩
    · rw [← halone]
      simp [leaveAllChannels, userExists, Program.alone, Section.exec, hu, entry]
    · refine left_reference fun c => ?_
      split_ifs with hc
      · rfl
      · exact (Finset.erase_eq_of_notMem (mt (hjoined c).mpr hc)).symm
  · refine ⟨state, ?_, sound, ?_⟩
    · simp [leaveAllChannels, userExists, hu]
    · exact left_reference fun c => (Finset.erase_eq_of_notMem (mt (member_user sound) hu)).symm

/-! ## Calls -/

theorem answers_write {α : Type} {t : Op (StateResult α)} {x : StateResult (α × Reference)}
    (h : Answers t state x) (sound : state.Sound) (f : α → Value) : ∃ state',
    ((·.map f) <$> t).alone Section.exec state =
        some ((state.reference.write (x.map fun a => (f a.1, a.2))).1, state') ∧
      state'.Sound ∧
      state'.reference = (state.reference.write (x.map fun a => (f a.1, a.2))).2 := by
  rw [Program.alone_map]
  cases x with
  | error e => exact ⟨state, congrArg (Option.map _) h, sound, rfl⟩
  | ok a =>
    obtain ⟨state', halone, sound', href⟩ := h
    exact ⟨state', congrArg (Option.map _) halone, sound', href⟩

theorem answers_unit {t : Op (StateResult Unit)} {x : StateResult Reference}
    (h : Answers t state (x.map fun ref => ((), ref))) (sound : state.Sound) : ∃ state',
    ((·.map fun _ => Value.unit) <$> t).alone Section.exec state =
        some ((state.reference.write (x.map fun ref => (.unit, ref))).1, state') ∧
      state'.Sound ∧
      state'.reference = (state.reference.write (x.map fun ref => (.unit, ref))).2 := by
  cases x with
  | error e => exact answers_write h sound fun _ => .unit
  | ok ref => exact answers_write h sound fun _ => .unit

/-- `list_channel_users` and `get_messages` -/
theorem read_checked (sound : state.Sound) {x : i.Answer}
    (h : (state.channel c).isSome = true → i.exec state = some (x, state)) :
    Program.alone Section.exec
      (if (!channelNameIsValid c) = true then .done (.error invalidChannelName)
        else .locked (.channelExists c) fun found =>
          if (!found) = true then .done (.error unknownChannel)
          else Except.ok <$> withLock i) state =
    some ((state.reference.checkChannel c).map fun _ => x, state) := by
  cases hvalid : channelNameIsValid c with
  | false => simp [Reference.checkChannel, Except.map, hvalid]
  | true =>
    cases hc : (state.channel c).isSome with
    | false =>
      have hmem : c ∉ state.reference.channels := by
        rw [AppState.reference, mem_channels, hc]
        simp
      simp [Reference.checkChannel, Except.map, hvalid, hmem, hc]
    | true =>
      have hlock : ((.ok <$> withLock i : Op (StateResult i.Answer))).alone Section.exec state =
          some (.ok x, state) := by
        rw [Program.alone_map, alone_lock, h hc]
        rfl
      have hexists : Section.exec (.channelExists c) state = some (true, state) := by
        rw [Section.exec, hc]
      rw [checkChannel_ok sound hc]
      exact (Program.alone_locked _ hexists).trans hlock

theorem map_read {α : Type} {t : Op (StateResult α)} {r : StateResult Unit} {x : α} (f : α → Value)
    (h : t.alone Section.exec state = some (r.map fun _ => x, state)) :
    ((·.map f) <$> t).alone Section.exec state = some (r.map fun _ => f x, state) := by
  rw [Program.alone_map, h]
  cases r <;> rfl

theorem call_refines (sound : state.Sound) (k : Call) : ∃ state',
    k.start.alone Section.exec state = some ((state.reference.call k).1, state') ∧
      state'.Sound ∧ state'.reference = (state.reference.call k).2 := by
  cases k with
  | getUsers => exact ⟨state, rfl, sound, rfl⟩
  | userExists u => exact ⟨state, rfl, sound, rfl⟩
  | getChannels => exact ⟨state, rfl, sound, rfl⟩
  | createUser u => exact answers_unit (answers_createUser sound) sound
  | joinChannel u c => exact answers_unit (answers_joinChannel sound) sound
  | leaveChannel u c => exact answers_unit (answers_leaveChannel sound) sound
  | listChannelUsers c =>
    refine ⟨state, map_read .names (read_checked (i := .listUsers c) sound fun hc => ?_), sound,
      rfl⟩
    obtain ⟨channel, found⟩ := Option.isSome_iff_exists.mp hc
    simp [Section.exec, AppState.reference, found, members_of_channel found]
  | leaveAllChannels u order =>
    obtain ⟨state', halone, sound', href⟩ := leaveAllChannels_alone sound u order
    refine ⟨state', ?_, sound', href⟩
    rw [Call.start, Program.alone_map, halone]
    rfl
  | sendMessage c u t =>
    exact answers_write (answers_sendMessage sound) sound .messageId
  | getMessages c limit offset =>
    refine ⟨state, map_read .messages (read_checked (i := .messages c limit offset) sound
      fun hc => ?_), sound, rfl⟩
    obtain ⟨channel, found⟩ := Option.isSome_iff_exists.mp hc
    simp [Section.exec, messagesLocked, AppState.reference, found, log_of_channel found, page]

theorem calls_refine (sound : state.Sound) (ks : List Call) : ∃ state',
    callsAlone ks state = some ((state.reference.calls ks).1, state') ∧ state'.Sound ∧
      state'.reference = (state.reference.calls ks).2 := by
  induction ks generalizing state with
  | nil => exact ⟨state, rfl, sound, rfl⟩
  | cons k ks ih =>
    obtain ⟨state₁, halone, sound₁, href⟩ := call_refines sound k
    obtain ⟨state₂, hrest, sound₂, href₂⟩ := ih sound₁
    rw [href] at hrest href₂
    refine ⟨state₂, ?_, sound₂, href₂⟩
    rw [callsAlone, halone]
    simp [hrest, Reference.calls]

/-- **The index cannot be told from a scan.** Calls that run one after the other from the new store
never panic, return what they return at the store without the index, and leave the same behind.
`leave_all_channels` then changes nothing but the memberships of its user. -/
theorem calls_of_reference (ks : List Call) : ∃ rs state,
    callsAlone ks .new = some (rs, state) ∧ Reference.new.calls ks = (rs, state.reference) ∧
    ∀ u order, ∃ state', (leaveAllChannels u order).alone Section.exec state = some ((), state') ∧
      state'.users = state.users ∧ state'.channels.keys = state.channels.keys ∧
      state'.log = state.log ∧ state'.nextMessageId = state.nextMessageId ∧
      (∀ c, state'.members c = (state.members c).erase u) ∧
      ∀ v, state'.joined v = if v = u then ∅ else state.joined v := by
  have hnew : AppState.new.reference = Reference.new := rfl
  obtain ⟨state, halone, sound, href⟩ := calls_refine sound_init ks
  rw [hnew] at halone href
  refine ⟨_, state, halone, by rw [href], fun u order => ?_⟩
  obtain ⟨state', hleave, sound', href'⟩ := leaveAllChannels_alone sound u order
  have hmembers : ∀ c, state'.members c = (state.members c).erase u := fun _ => left_members href'
  refine ⟨state', hleave, congrArg Reference.users href', congrArg Reference.channels href',
    congrArg Reference.log href', congrArg Reference.nextMessageId href', hmembers, fun v => ?_⟩
  ext c
  rw [← sound'.consistent.index, hmembers, Finset.mem_erase, sound.consistent.index]
  split_ifs with hv <;> simp [hv]

end MiniDiscord.Pa1
