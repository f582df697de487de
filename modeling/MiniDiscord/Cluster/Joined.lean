import MiniDiscord.Cluster.Acknowledged
import MiniDiscord.Cluster.Answers

/-!
# Joins last

A member that never leaves stays at every server that has it. So with at most one crash, a join that
was answered with success is shown by every server that answers for the channel, before and after
the crash.
-/

namespace MiniDiscord.Cluster

open DiscordStateops

/-- No call for the user to leave the channel takes a step. -/
def unleft (u c : String) (_σ : Servers) (op : Op) (_stack : List Frame) : Bool :=
  op ≠ .leaveChannel u c

variable {hash : String → ℕ} {u c : String} {σ σ' : Servers} {op : Op} {req : ℕ}
  {stack stack' : List Frame} {st st' : AppState} {v : Value} {r : StateResult Value} {s : ServerId}

/-! ## Members stay -/

theorem member_channel (member : u ∈ st.members c) : ∃ ch, st.channel c = some ch := by
  cases hfound : st.channel c with
  | some ch => exact ⟨ch, rfl⟩
  | none => simp [AppState.members, AppState.channelOrNew, hfound, Channel.new] at member

theorem effect_stays (h : Effect op st r st') (stays : op ≠ .leaveChannel u c)
    (member : u ∈ st.members c) : u ∈ st'.members c := by
  cases h with
  | refused | read | created => exact member
  | joined u' c' _ valid new =>
    simp only [AppState.members, channelOrNew_setChannel] at member ⊢
    split_ifs with heq
    · subst heq
      exact Finset.mem_insert_of_mem member
    · exact member
  | left u' c' _ ch found member' =>
    simp only [AppState.members, channelOrNew_setChannel] at member ⊢
    split_ifs with heq
    · subst heq
      rw [channelOrNew_of_channel found] at member
      refine Finset.mem_erase.mpr ⟨?_, member⟩
      rintro rfl
      exact stays rfl
    · exact member
  | appended c' u' t id _ ch next found =>
    simp only [AppState.members, channelOrNew_setChannel] at member ⊢
    split_ifs with heq
    · subst heq
      rwa [channelOrNew_of_channel found] at member
    · exact member

theorem advance_stays (h : Advance hash σ op stack σ' stack') (stays : op ≠ .leaveChannel u c)
    (member : u ∈ (σ.store s).members c) : u ∈ (σ'.store s).members c := by
  rcases advance_effect h s with hsame | ⟨r, heffect⟩
  · rwa [hsame]
  · exact effect_stays heffect stays member

theorem effect_joins (h : Effect (.joinChannel u c) st (.ok v) st') : u ∈ st'.members c := by
  cases h with
  | read _ _ _ reads => cases reads
  | joined _ _ _ valid new =>
    simp [AppState.members, channelOrNew_setChannel]

/-! ## A join that was acknowledged -/

/-- History: the servers at which the user has joined the channel. -/
def joins (u c : String) : Tick (Finset ServerId) := fun g _ _ _ stack σ' =>
  match stack with
  | .call s .commit :: _ | .request s (.replicate _) :: _ =>
    if u ∈ (σ'.store s).members c then insert s g else g
  | _ => g

/-- The user has joined at `s`, unless `s` was marked failed. -/
def Servers.JoinedAt (g : Finset ServerId) (σ : Servers) (s : ServerId) : Prop :=
  s ∈ g ∨ σ.Marked s

def joining (u c : String) : Stages (Finset ServerId) where
  servers g σ := σ.Sound ∧ ∀ s ∈ g, u ∈ (σ.store s).members c
  stage g σ _ op config x := op = .joinChannel u c → match x with
    | .applied s _ => s ∈ g
    | .awaiting _ | .requested _ => config.primary ∈ g
    | .answered _ _ => config.primary ∈ g ∧ config.backup ∈ g
    | .acked _ => σ.JoinedAt g config.primary ∧ σ.JoinedAt g config.backup

theorem joins_grow (g : Finset ServerId) : g ⊆ joins u c g σ req op stack σ' := by
  unfold joins
  split
  · split_ifs
    · exact Finset.subset_insert _ _
    · exact subset_refl _
  · split_ifs
    · exact Finset.subset_insert _ _
    · exact subset_refl _
  · exact subset_refl _

theorem joins_members {g : Finset ServerId} (members : ∀ s ∈ g, u ∈ (σ'.store s).members c) :
    ∀ s ∈ joins u c g σ req op stack σ', u ∈ (σ'.store s).members c := by
  intro s hs
  unfold joins at hs
  split at hs
  · split_ifs at hs with hmember
    · rcases Finset.mem_insert.mp hs with rfl | hs
      · exact hmember
      · exact members s hs
    · exact members s hs
  · split_ifs at hs with hmember
    · rcases Finset.mem_insert.mp hs with rfl | hs
      · exact hmember
      · exact members s hs
    · exact members s hs
  · exact members s hs

theorem joinedAt_grows {g g' : Finset ServerId} (hg : g ⊆ g') (grows : σ.Grows σ')
    (h : σ.JoinedAt g s) : σ'.JoinedAt g' s :=
  h.imp (@hg s) fun ⟨t, ht⟩ => ⟨t, grows.view t s ht⟩

theorem joining_preserved : (joining u c).Preserved hash (crashStop.where' (unleft u c)) (joins u c)
    (Known hash) fun _ g g' => g ⊆ g' where
  known _ _ _ _ h := h
  still _ _ _ _ _ _ := rfl
  refl _ g := subset_refl g
  grow g g' σ σ' _ op config x _ hg grows h := fun hop => by
    cases x with
    | applied | awaiting | requested => exact hg (h hop)
    | answered => exact (h hop).imp (@hg _) (@hg _)
    | acked => exact (h hop).imp (joinedAt_grows hg grows) (joinedAt_grows hg grows)
  advance g σ _ op stack σ' _ servers _ _ allowed h := by
    have stays : op ≠ .leaveChannel u c := by
      simpa [Policy.where', crashStop, unleft] using allowed
    exact ⟨joins_grow g, sound_advance h servers.1,
      joins_members fun s hs => advance_stays h stays (servers.2 s hs)⟩
  suspect _ σ s p servers _ allowed := ⟨sound_suspect servers.1 allowed, servers.2⟩
  crash _ σ s servers allowed := ⟨sound_crash servers.1 (crashStop_crash allowed), servers.2⟩
  commit g σ _ op config s v st rest _ _ _ _ _ _ _ _ locked := by
    rintro rfl
    have hmember := effect_joins (locked_effect locked)
    simp [joins, hmember]
  alone g σ _ op config s v _ owner _ owns halone h := fun hop => by
    have hs : s ∈ g := h hop
    rcases owns with rfl | ⟨rfl, hview⟩
    · exact ⟨Or.inl hs, Or.inr ⟨_, halone.resolve_left (owner_ne owner).symm⟩⟩
    · exact ⟨Or.inr ⟨_, hview⟩, Or.inl hs⟩
  send _ _ _ _ _ _ _ _ h := ⟨h, h⟩
  answer g σ _ op config v v' st rest _ _ _ _ _ _ _ h locked := by
    rintro rfl
    have hmember := effect_joins (replicate_effect locked)
    exact ⟨joins_grow g (h rfl), by simp [joins, hmember]⟩
  finish _ _ _ _ _ _ _ _ _ _ _ _ h := fun hop => ⟨Or.inl (h hop).1, Or.inl (h hop).2⟩
  giveUp _ _ _ _ _ _ _ _ _ _ failed h := fun hop => ⟨Or.inl (h hop), Or.inr ⟨_, failed⟩⟩

/-! ## A channel that the user has joined -/

/-- What is answered about a channel that the user has joined. Sending to it may be refused only if
a user does not exist or, but for this user, has not joined. -/
def Op.Still (u c : String) : Op → StateResult Value → Prop
  | .listChannelUsers c', r => c' = c → ∃ all, r = .ok (.names all) ∧ u ∈ all
  | .getMessages c' _ _, r => c' = c → ∃ all, r = .ok (.messages all)
  | .joinChannel u' c', r => u' = u → c' = c → r = .error unknownUser ∨ r = .error alreadyMember
  | .sendMessage c' u' _, r => c' = c → (∃ id, r = .ok (.messageId id)) ∨ r = .error unknownUser ∨
    u' ≠ u ∧ r = .error notAMemberForbidden
  | _, _ => True

theorem checkChannel_member (valid : channelNameIsValid c = true) (member : u ∈ st.members c) :
    checkChannel c st = .ok () := by
  obtain ⟨ch, hfound⟩ := member_channel member
  exact checkChannel_ok.mpr ⟨valid, ch, hfound⟩

theorem still_refused {e : StateError} (valid : channelNameIsValid c = true)
    (member : u ∈ st.members c) (h : op.checks st = .error e) : op.Still u c (.error e) := by
  cases op with
  | sendMessage c' u' t =>
    rintro rfl
    rw [Op.checks, checkChannel_member valid member] at h
    cases h
  | leaveChannel => trivial
  | _ => cases h

theorem still_unknown (entry : op.entry ≠ .commit) : op.Still u c (.error unknownUser) := by
  cases op with
  | joinChannel => exact fun _ _ => Or.inl rfl
  | sendMessage => exact fun _ => Or.inr (Or.inl rfl)
  | leaveChannel => trivial
  | _ => exact absurd rfl entry

theorem listChannelUsers_member (valid : channelNameIsValid c = true) (member : u ∈ st.members c) :
    ∃ all, listChannelUsers c st = .ok all ∧ u ∈ all := by
  obtain ⟨ch, hfound⟩ := member_channel member
  rw [AppState.members, channelOrNew_of_channel hfound] at member
  refine ⟨ch.users.val, ?_, member⟩
  rw [listChannelUsers, checkChannel_ok.mpr ⟨valid, ch, hfound⟩, hfound]
  rfl

theorem getMessages_member (limit offset : Option ℕ) (valid : channelNameIsValid c = true)
    (member : u ∈ st.members c) : ∃ all, getMessages c limit offset st = .ok all := by
  obtain ⟨ch, hfound⟩ := member_channel member
  rw [getMessages, checkChannel_ok.mpr ⟨valid, ch, hfound⟩, hfound]
  exact ⟨_, rfl⟩

theorem joinChannelLocked_member (valid : channelNameIsValid c = true)
    (member : u ∈ st.members c) : (joinChannelLocked u c st).1 = .error alreadyMember := by
  obtain ⟨ch, hfound⟩ := member_channel member
  rw [AppState.members, channelOrNew_of_channel hfound] at member
  simp only [joinChannelLocked, valid, AppState.orInsert, hfound, member, if_true, Bool.not_true,
    Bool.false_eq_true, if_false]

theorem sendMessageLocked_member {u' t : String} {r : StateResult String}
    (member : u ∈ st.members c) (h : sendMessageLocked c u' t st = some (r, st')) :
    (∃ id, r = .ok id) ∨ u' ≠ u ∧ r = .error notAMemberForbidden := by
  obtain ⟨ch, hfound⟩ := member_channel member
  rw [AppState.members, channelOrNew_of_channel hfound] at member
  simp only [sendMessageLocked, hfound, Option.bind_eq_bind, Option.bind_some] at h
  split_ifs at h with hmember
  · obtain ⟨⟨messages, didInsert⟩, -, h⟩ := Option.bind_eq_some_iff.mp h
    cases h
    exact Or.inl ⟨_, rfl⟩
  · cases h
    refine Or.inr ⟨?_, rfl⟩
    rintro rfl
    exact hmember member

/-- A store that has the member answers so. -/
theorem still_locked (valid : channelNameIsValid c = true) (member : u ∈ st.members c)
    (h : op.locked st = some (r, st')) : op.Still u c r := by
  cases op with
  | listChannelUsers c' =>
    rintro rfl
    obtain ⟨all, hall, hu⟩ := listChannelUsers_member valid member
    cases h
    exact ⟨all, by rw [hall]; rfl, hu⟩
  | getMessages c' limit offset =>
    rintro rfl
    obtain ⟨all, hall⟩ := getMessages_member limit offset valid member
    cases h
    exact ⟨all, by rw [hall]; rfl⟩
  | joinChannel u' c' =>
    rintro rfl rfl
    have hr : (joinChannelLocked u' c' st).1.map (fun _ => .unit) = r :=
      (Prod.mk.inj (Option.some.inj h)).1
    rw [← hr, joinChannelLocked_member valid member]
    exact Or.inr rfl
  | sendMessage c' u' t =>
    rintro rfl
    obtain ⟨⟨r, state⟩, hlocked, h⟩ := Option.map_eq_some_iff.mp h
    cases h
    rcases sendMessageLocked_member member hlocked with ⟨id, rfl⟩ | ⟨hne, rfl⟩
    · exact Or.inl ⟨id, rfl⟩
    · exact Or.inr (Or.inr ⟨hne, rfl⟩)
  | _ => trivial

theorem still_replica (h : op.replicateLocked v st = some (r, st'))
    (still : op.Still u c (.ok v)) : op.Still u c r := by
  cases op with
  | joinChannel u' c' =>
    rintro rfl rfl
    rcases still rfl rfl with hstill | hstill <;> cases hstill
  | sendMessage c' u' t =>
    rintro rfl
    obtain ⟨id, ch, rfl, rfl, -, -⟩ := replicate_send h
    exact Or.inl ⟨id, rfl⟩
  | listChannelUsers | getMessages => cases v <;> cases h
  | _ => trivial

/-! ## After the join -/

/-- Every server of the channel has the member, but for one that was marked failed. -/
def Servers.Kept (hash : String → ℕ) (u c : String) (σ : Servers) : Prop :=
  ∀ s, s = (channelOwner hash c).primary ∨ s = (channelOwner hash c).backup →
    u ∈ (σ.store s).members c ∨ σ.Marked s

theorem kept_member {config : LocationConfig} (sound : σ.Sound) (kept : σ.Kept hash u c)
    (live : σ.crashed s = false) (owner : config = channelOwner hash c) (owns : σ.Owns config s) :
    u ∈ (σ.store s).members c := by
  subst owner
  refine (kept s (owns.imp_right And.left)).resolve_right ?_
  rintro ⟨t, ht⟩
  simp [sound.marked t _ ht] at live

/-- What is answered to the requests that arrive once the user has joined. -/
def staying (hash : String → ℕ) (u c : String) (since : ℕ) : Answering where
  servers σ := σ.Sound ∧ σ.Kept hash u c
  good req op r := since ≤ req → op.Still u c r

/-- Only the servers of the channel answer for it. -/
theorem still_owner {config : LocationConfig} (owner : op.owner hash = some config)
    (h : config = channelOwner hash c → op.Still u c r) : op.Still u c r := by
  cases op with
  | joinChannel u' c' =>
    rintro hu rfl
    exact h (Option.some.inj owner).symm hu rfl
  | listChannelUsers c' | sendMessage c' | getMessages c' =>
    rintro rfl
    exact h (Option.some.inj owner).symm rfl
  | _ => trivial

theorem kept_grows (grows : σ.Grows σ')
    (stays : ∀ s, u ∈ (σ.store s).members c → u ∈ (σ'.store s).members c)
    (kept : σ.Kept hash u c) : σ'.Kept hash u c :=
  fun s owner => (kept s owner).imp (stays s) fun ⟨t, ht⟩ => ⟨t, grows.view t s ht⟩

theorem staying_preserved (valid : channelNameIsValid c = true) (since : ℕ) :
    (staying hash u c since).Preserved hash (crashStop.where' (unleft u c)) where
  advance σ _ op stack σ' _ servers _ allowed h := by
    have stays : op ≠ .leaveChannel u c := by
      simpa [Policy.where', crashStop, unleft] using allowed
    exact ⟨sound_advance h servers.1,
      kept_grows (grows_advance h) (fun _ => advance_stays h stays) servers.2⟩
  suspect σ s p servers _ allowed := ⟨sound_suspect servers.1 allowed,
    kept_grows (grows_suspect σ s p) (fun _ => id) servers.2⟩
  crash σ s servers allowed := ⟨sound_crash servers.1 (crashStop_crash allowed),
    kept_grows (grows_crash σ s) (fun _ => id) servers.2⟩
  refused _ _ _ _ _ _ servers live owner owns checks := fun _ => still_owner owner fun hconfig =>
    still_refused valid (kept_member servers.1 servers.2 live hconfig owns) checks
  unknown _ _ entry _ := fun _ => still_unknown entry
  locked _ _ _ _ _ _ _ servers live owner owns _ h := fun _ => still_owner owner fun hconfig =>
    still_locked valid (kept_member servers.1 servers.2 live hconfig owns) h
  replica _ _ _ _ _ _ _ _ _ still locked := fun hs => still_replica locked (still hs)
  found _ _ _ := fun _ => trivial
  polled _ op _ owner := fun _ => by
    cases op with
    | getUsers | getChannels => trivial
    | _ => cases owner

/-- **Acknowledged joins survive a crash.** Once `join_channel` was answered with success, in a run
in which the user never leaves the channel: both servers of the channel have the member, but for one
that crashed, and every request about the channel that arrives later is answered by a server that
has. Listings have the user, sends of the user are let in, and the user does not join again. -/
theorem joined_member_stays {es es' : List Event} {w w' : World}
    (run : Reaches hash (crashStop.where' (unleft u c)) es w) {req : ℕ} {v : Value}
    (joined : ⟨req, .joinChannel u c, .ok v⟩ ∈ w.returned)
    (later : Run.Exec (World.step hash)
      (fun w e => (crashStop.where' (unleft u c)).allows w e = true) w es' w') :
    (∀ s, s = (channelOwner hash c).primary ∨ s = (channelOwner hash c).backup →
      w'.servers.crashed s = false → u ∈ (w'.servers.store s).members c) ∧
    ∀ r ∈ w'.returned, w.nextReq ≤ r.req → r.op.Still u c r.result := by
  have hvalid : channelNameIsValid c = true := by
    have hreturns := (fits_answers run).returned _ joined
    cases v with
    | unit => exact hreturns
    | _ => cases hreturns
  have hinit : (joining u c).servers ∅ World.init.servers :=
    ⟨⟨nofun, nofun⟩, by simp⟩
  have hw := joining_preserved.inv.holds_init known hinit run
  have hkept : w.servers.Kept hash u c := by
    obtain ⟨hprimary, hbackup⟩ := hw.returned _ joined rfl _ rfl _ rfl rfl
    rintro s (rfl | rfl)
    · exact hprimary.imp_left (hw.servers.2 _)
    · exact hbackup.imp_left (hw.servers.2 _)
  have hstart : (staying hash u c w.nextReq).inv.Holds () w := by
    refine ⟨⟨hw.servers.1, hkept⟩, fun j hj => ?_, fun r hr hsince => ?_⟩
    · have hlt := job_req_lt run j hj
      exact frames_of_all
        (passing_of_all fun _ hsince => absurd hsince (by omega)) _
    · have hlt := returned_req_lt run r hr
      omega
  have hend := (staying_preserved hvalid w.nextReq).inv.holds Answering.vetted run hstart later
  refine ⟨fun s owner live => (hend.servers.2 s owner).resolve_right ?_, hend.returned⟩
  rintro ⟨t, ht⟩
  simp [hend.servers.1.marked t s ht] at live

/-- `C` asks `A` to let `alice` join. -/
def joinsThroughC : List Event :=
  asks .A (.createUser "alice") 0 6 ++ asks .C (.joinChannel "alice" "#cs249") 1 13

def asksAfterJoin : List Event :=
  [.crash .A, .suspect .B .A, .suspect .C .A] ++ asks .C (.listChannelUsers "#cs249") 2 8 ++
    asks .B (.sendMessage "#cs249" "alice" "m0") 3 7

theorem joinsThroughC_runs : (outcome (fun _ => 0) (crashStop.where' (unleft "alice" "#cs249"))
    .init joinsThroughC).isSome = true := by decide

/-- `alice` has joined at `A` and at `B`, and `C` told its client so. -/
def joinedThroughC : World := (outcome (fun _ => 0) (crashStop.where' (unleft "alice" "#cs249"))
  .init joinsThroughC).get joinsThroughC_runs

/-- `A` crashes. `C` still lists `alice`, and `B` takes her message. -/
theorem joined_member_stays_after_crash :
    ∃ w', Reaches (fun _ => 0) (crashStop.where' (unleft "alice" "#cs249"))
        (joinsThroughC ++ asksAfterJoin) w' ∧
      w'.returned.map Reply.req = [0, 1, 2, 3] ∧ "alice" ∈ (w'.servers.store .B).members "#cs249" ∧
      ∀ r ∈ w'.returned, 2 ≤ r.req → r.op.Still "alice" "#cs249" r.result := by
  have run : Reaches (fun _ => 0) (crashStop.where' (unleft "alice" "#cs249")) joinsThroughC
      joinedThroughC := Run.exec_get joinsThroughC_runs
  obtain ⟨w', later, hreqs⟩ := Run.exec_of_test
    (fun w' : World => w'.returned.map Reply.req = [0, 1, 2, 3] ∧ w'.servers.crashed .B = false)
    (by decide : (outcome (fun _ => 0) (crashStop.where' (unleft "alice" "#cs249")) joinedThroughC
      asksAfterJoin).any _ = true)
  obtain ⟨hreqs, hlive⟩ := of_decide_eq_true hreqs
  have hstays := joined_member_stays run (by decide :
    ⟨1, .joinChannel "alice" "#cs249", .ok .unit⟩ ∈ joinedThroughC.returned) later
  have hnext : joinedThroughC.nextReq = 2 := by decide
  exact ⟨w', run.append later, hreqs, hstays.1 .B (Or.inr rfl) hlive,
    fun r hr hlate => hstays.2 r hr (hnext ▸ hlate)⟩

end MiniDiscord.Cluster
