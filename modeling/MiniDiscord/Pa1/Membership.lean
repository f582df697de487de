import MiniDiscord.Pa1.Calls

/-!
# The membership index

`user_channels` is to say of each user what the channels say of all of them. The critical sections
of `join_channel` and `leave_channel` change both sides; that of `create_user` makes an empty entry,
which is right for a new user only.
-/

namespace MiniDiscord.Pa1

variable {state state' : AppState} {i : Section} {u v c d : String} {names : Finset String}
  {es : List Event} {server server' : Server} {e : Event} {ok : Server → Event → Prop}

/-- The index has an entry for each user, and says the same as the channels. -/
structure AppState.Consistent (state : AppState) : Prop where
  keyed : state.Keyed
  index : ∀ u c, u ∈ state.members c ↔ c ∈ state.joined u

/-! ## What a section changes -/

theorem mem_keys_iff :
    u ∈ state.userChannels.keys ↔ (state.userChannels.lookup u).isSome = true := by
  rw [Finmap.mem_keys, Finmap.lookup_isSome]

theorem setUserChannels_keys :
    (state.setUserChannels u names).userChannels.keys = insert u state.userChannels.keys := by
  ext v
  rw [mem_keys_iff, setUserChannels_lookup, Finset.mem_insert, mem_keys_iff]
  split_ifs with h <;> simp [h]

/-- An entry that is there is changed in its place. -/
theorem setUserChannels_keyed (keyed : state.Keyed)
    (entry : (state.userChannels.lookup u).isSome = true) :
    (state.setUserChannels u names).Keyed := by
  unfold AppState.Keyed
  rw [setUserChannels_keys, Finset.insert_eq_of_mem (mem_keys_iff.mpr entry)]
  exact keyed

theorem change_keyed (h : Change state i state') (keyed : state.Keyed) : state'.Keyed := by
  cases h with
  | kept | sent => exact keyed
  | inserted u =>
    unfold AppState.Keyed
    rw [setUserChannels_keys]
    exact congrArg (insert u) keyed
  | joined u c joined entry => exact setUserChannels_keyed keyed (by simp [entry])
  | left u c channel joined found member entry =>
    exact setUserChannels_keyed keyed (by simp [entry])

/-- Whatever happens, every user has an entry, and no section panics. -/
theorem keyed_preserved : Preserved AppState.Keyed fun _ _ => True where
  keyed _ := id
  exec _ _ _ keyed _ change := change_keyed change keyed

theorem keyed_init : AppState.new.Keyed := rfl

theorem never_poisoned (run : Reaches ok es server) :
    server.store.Keyed ∧ server.poisoned = false := by
  have hfine := fine keyed_preserved (fun _ _ _ _ _ => trivial) keyed_init run
  exact ⟨hfine.inv, hfine.healthy⟩

/-! ## Registering a name once -/

/-- `create_user` gets to its second lock while the user is in no channel yet. -/
def Section.Fresh (state : AppState) : Section → Prop
  | .insertUser u => state.joined u = ∅
  | _ => True

instance (state : AppState) (i : Section) : Decidable (i.Fresh state) := by
  cases i <;> unfold Section.Fresh <;> infer_instance

theorem change_consistent (h : Change state i state') (fresh : i.Fresh state)
    (consistent : state.Consistent) : state'.Consistent := by
  refine ⟨change_keyed h consistent.keyed, fun v d => ?_⟩
  have hindex := consistent.index v d
  cases h with
  | kept => exact hindex
  | inserted u =>
    rw [setUserChannels_joined]
    split_ifs with hv
    · rw [hv, fresh] at hindex
      rwa [hv]
    · exact hindex
  | joined u c joined entry =>
    have hu : state.joined u = joined := joined_of_lookup entry
    rw [setUserChannels_members, setChannel_members, setUserChannels_joined, setChannel_joined]
    split_ifs with hd hv hv
    · simp [hd, hv]
    · rw [Finset.mem_insert, ← hd, hindex]
      simp [hv]
    · rw [Finset.mem_insert, ← hu, ← hv, hindex]
      simp [hd]
    · exact hindex
  | left u c channel joined found member entry =>
    have hu : state.joined u = joined := joined_of_lookup entry
    have hc : state.members c = channel.users := members_of_channel found
    rw [setUserChannels_members, setChannel_members, setUserChannels_joined, setChannel_joined]
    split_ifs with hd hv hv
    · simp [hd, hv]
    · rw [Finset.mem_erase, ← hc, ← hd, hindex]
      simp [hv]
    · rw [Finset.mem_erase, ← hu, ← hv, hindex]
      simp [hd]
    · exact hindex
  | sent c u t channel found =>
    rw [setChannel_members, setChannel_joined]
    split_ifs with hd
    · rw [hd, members_of_channel found] at hindex
      rw [hd]
      exact hindex
    · exact hindex

theorem consistent_preserved : Preserved AppState.Consistent fun i state => i.Fresh state where
  keyed _ := AppState.Consistent.keyed
  exec _ _ _ consistent fresh change := change_consistent change fresh consistent

theorem consistent_init : AppState.new.Consistent := ⟨keyed_init, by
  intro u c
  simp [AppState.members, AppState.joined, AppState.channel, AppState.new, Channel.new]⟩

/-- No user is registered over an earlier registration that has joined a channel since. -/
def registersOnce (server : Server) (e : Event) : Prop :=
  ∀ i ∈ server.entering e, i.Fresh server.store

instance (server : Server) (e : Event) : Decidable (registersOnce server e) :=
  decidable_of_iff ((server.entering e).all fun i => i.Fresh server.store)
    (by cases h : server.entering e <;> simp [registersOnce, h])

/-- **The index is consistent** in every state, between any two critical sections of any calls, of
every run in which no user is registered a second time after joining a channel. -/
theorem membership_consistent (run : Reaches registersOnce es server) :
    server.store.userChannels.keys = server.store.users ∧
      ∀ u c, u ∈ server.store.members c ↔ c ∈ server.store.joined u := by
  have hfine := fine consistent_preserved (fun _ _ i allowed entering => allowed i entering)
    consistent_init run
  exact ⟨hfine.inv.keyed, hfine.inv.index⟩

/-- `alice` registers, joins two channels and leaves one, and a second registration comes too
late. -/
def moves : List Event :=
  [.call (.createUser "alice"), .step 0, .step 0, .call (.joinChannel "alice" "#a"), .step 1,
    .call (.joinChannel "alice" "#b"), .step 2, .step 2, .step 1,
    .call (.leaveChannel "alice" "#a"), .step 3, .call (.createUser "alice"), .step 4, .step 3,
    .step 3]

theorem membership_consistent_moves :
    ∃ server, Reaches registersOnce moves server ∧
      ("alice" ∈ server.store.members "#b" ↔ "#b" ∈ server.store.joined "alice") ∧
      "alice" ∈ server.store.members "#b" := by
  obtain ⟨server, run, h⟩ := Run.exec_of_test
    (fun server : Server => "alice" ∈ server.store.members "#b")
    (by decide +kernel : (Run.run step registersOnce .init moves).any _ = true)
  exact ⟨server, run, (membership_consistent run).2 "alice" "#b", of_decide_eq_true h⟩

/-- Two registrations of `alice` find that she does not exist, and she joins a channel between
their second locks. -/
def registeredTwice : List Event :=
  [.call (.createUser "alice"), .call (.createUser "alice"), .step 0, .step 1, .step 0,
    .call (.joinChannel "alice" "#a"), .step 2, .step 2, .step 1]

theorem membership_lost :
    ∃ server, Reaches (fun _ _ => True) registeredTwice server ∧ server.idle = true ∧
      "alice" ∈ server.store.members "#a" ∧ "#a" ∉ server.store.joined "alice" := by
  obtain ⟨server, run, h⟩ := Run.exec_of_test
    (fun server : Server => server.idle = true ∧ "alice" ∈ server.store.members "#a" ∧
      "#a" ∉ server.store.joined "alice")
    (by decide +kernel : (Run.run step (fun _ _ => True) .init registeredTwice).any _ = true)
  exact ⟨server, run, of_decide_eq_true h⟩

/-- A registration that is let through after a join takes the memberships out of the index. -/
theorem registered_again (run : Reaches ok es server) (consistent : server.store.Consistent)
    (taken : step server e = some server') (again : ¬ registersOnce server e) :
    ¬ server'.store.Consistent := by
  simp only [registersOnce, not_forall, Option.mem_def] at again
  obtain ⟨i, entering, hfresh⟩ := again
  cases i with
  | insertUser u =>
    have hstore : server'.store =
        { server.store with users := insert u server.store.users }.setUserChannels u ∅ :=
      Pool.step_entering taken entering (never_poisoned run).2 rfl
    obtain ⟨c, hc⟩ : ∃ c, c ∈ server.store.joined u := Finset.nonempty_iff_ne_empty.mpr hfresh
    intro h
    have hmember : u ∈ server'.store.members c := by
      rw [hstore]
      exact (consistent.index u c).mpr hc
    have hlost : c ∈ server'.store.joined u := (h.index u c).mp hmember
    rw [hstore, setUserChannels_joined, if_pos rfl] at hlost
    exact absurd hlost (Finset.notMem_empty c)
  | _ => exact absurd trivial hfresh

end MiniDiscord.Pa1
