import MiniDiscord.Pa1.Cleanup
import MiniDiscord.Pa1.Reference
import MiniDiscord.Turns

/-!
# Leaving all channels among others

`leave_all_channels` leaves the channels of a snapshot, each in critical sections of its own, and
unwraps every result: "we know that each should succeed". But another session of the same user may
leave one of them first.
-/

namespace MiniDiscord.Pa1

open Run (Forever WeaklyFair)

variable {state state' : AppState} {u c : String} {names : List String} {order : HashOrder}

/-! ## The program -/

/-- What is left of `leave_all_channels` with these channels still to leave. -/
def leavings (u : String) (names : List String) : Op (StateResult Value) :=
  (fun _ => .ok .unit) <$> leaveEach u names

theorem leavings_cons : leavings u (c :: names) =
    if !channelNameIsValid c then .panicked
    else .locked (.channelExists c) fun (found : Bool) =>
      if !found then .panicked
      else .locked (.userExists u) fun (found : Bool) =>
        if !found then .panicked
        else .locked (.leave u c) fun (r : StateResult Unit) => match r with
          | .ok () => leavings u names
          | .error _ => .panicked := by
  unfold leavings
  cases hvalid : channelNameIsValid c with
  | false => simp [leaveEach, leaveChannel, hvalid]
  | true =>
    simp only [leaveEach, leaveChannel, hvalid, channelExists, userExists, Program.lock_bind]
    refine congrArg (Program.locked _) (funext fun found => ?_)
    cases found with
    | false => rfl
    | true =>
      refine congrArg (Program.locked _) (funext fun found => ?_)
      cases found with
      | false => rfl
      | true =>
        refine congrArg (Program.locked _) (funext fun r => ?_)
        cases r <;> rfl

theorem start_leaveAllChannels : (Call.leaveAllChannels u order).start =
    .locked (.userExists u) fun (found : Bool) =>
      if !found then .done (.ok .unit)
      else .locked (.memberships u) fun names => leavings u (order.list names) := by
  refine congrArg (Program.locked _) (funext fun found => ?_)
  cases found <;> rfl

/-- Everything in the snapshot is left, and a leave that fails is unwrapped. -/
def LeavesAfter (u : String) : (i : Section) → (i.Answer → Op (StateResult Value)) → Prop
  | .memberships v, next => v = u → ∀ names : Finset String, ∀ c ∈ names,
      (next names).Passes (· = .leave u c)
  | .leave _ _, next => ∀ e, next (.error e) = .panicked
  | _, _ => True

theorem leavings_passes (h : c ∈ names) : (leavings u names).Passes (· = .leave u c) := by
  induction names with
  | nil => cases h
  | cons d names ih =>
    rw [leavings_cons]
    split_ifs
    · trivial
    refine Or.inr fun found => ?_
    cases found with
    | false => trivial
    | true =>
      refine Or.inr fun found => ?_
      cases found with
      | false => trivial
      | true =>
        rcases List.mem_cons.mp h with rfl | h
        · exact Or.inl rfl
        · refine Or.inr fun r => ?_
          cases r with
          | ok => exact ih h
          | error => trivial

theorem leavings_after : (leavings u names).Everywhere (LeavesAfter u) := by
  induction names with
  | nil => trivial
  | cons d names ih =>
    rw [leavings_cons]
    split_ifs
    · trivial
    refine ⟨trivial, fun found => ?_⟩
    cases found with
    | false => trivial
    | true =>
      refine ⟨trivial, fun found => ?_⟩
      cases found with
      | false => trivial
      | true =>
        refine ⟨fun e => rfl, fun r => ?_⟩
        cases r with
        | ok => exact ih
        | error => trivial

theorem start_after : (Call.leaveAllChannels u order).start.Everywhere (LeavesAfter u) := by
  rw [start_leaveAllChannels]
  refine ⟨trivial, fun found => ?_⟩
  cases found with
  | false => trivial
  | true =>
    refine ⟨fun _ names c hc => leavings_passes ?_, fun names => leavings_after⟩
    rwa [← Multiset.mem_coe, order.perm, Finset.mem_val]

/-! ## Names of channels -/

/-- A channel that is joined has a valid name. -/
def Section.Named : Section → Prop
  | .join _ c => channelNameIsValid c = true
  | _ => True

theorem only_checked {α : Type} {go : Op (StateResult α)} (goes : go.Only Section.Named) :
    Program.Only Section.Named
      (if (!channelNameIsValid c) = true then .done (.error invalidChannelName)
        else .locked (.channelExists c) fun found =>
          if (!found) = true then .done (.error unknownChannel) else go : Op (StateResult α)) := by
  split_ifs
  · trivial
  · refine ⟨trivial, fun found => ?_⟩
    cases found with
    | true => exact goes
    | false => trivial

theorem only_userExists {α : Type} {next : Bool → Op α} (yes : (next true).Only Section.Named)
    (no : (next false).Only Section.Named) :
    Program.Only Section.Named (.locked (.userExists u) next : Op α) :=
  ⟨trivial, fun found => by cases found <;> assumption⟩

theorem only_leaveChannel : (leaveChannel u c).Only Section.Named :=
  only_checked (only_userExists ⟨trivial, fun _ => trivial⟩ trivial)

theorem only_leaveEach : (leaveEach u names).Only Section.Named := by
  induction names with
  | nil => trivial
  | cons d names ih =>
    refine only_leaveChannel.bind fun r => ?_
    cases r with
    | ok => exact ih
    | error => trivial

theorem only_start (k : Call) : k.start.Only Section.Named := by
  cases k with
  | getUsers | userExists | getChannels => exact ⟨trivial, fun _ => trivial⟩
  | createUser u =>
    have honly : (createUser u).Only Section.Named :=
      only_userExists trivial ⟨trivial, fun _ => trivial⟩
    exact honly.map _
  | joinChannel u c =>
    have honly : (joinChannel u c).Only Section.Named := by
      refine only_userExists ?_ trivial
      change Program.Only _ (if (!channelNameIsValid c) = true then Program.done _ else _)
      split_ifs with hvalid
      · trivial
      · exact ⟨by simpa [Section.Named] using hvalid, fun _ => trivial⟩
    exact honly.map _
  | listChannelUsers c =>
    have honly : (listChannelUsers c).Only Section.Named :=
      only_checked ⟨trivial, fun _ => trivial⟩
    exact honly.map _
  | leaveChannel u c => exact only_leaveChannel.map _
  | leaveAllChannels u order =>
    have honly : (leaveAllChannels u order).Only Section.Named :=
      only_userExists ⟨trivial, fun _ => only_leaveEach⟩ trivial
    exact honly.map _
  | sendMessage c u t =>
    have honly : (sendMessage c u t).Only Section.Named :=
      only_checked (only_userExists ⟨trivial, fun _ => trivial⟩ trivial)
    exact honly.map _
  | getMessages c limit offset =>
    have honly : (getMessages c limit offset).Only Section.Named :=
      only_checked ⟨trivial, fun _ => trivial⟩
    exact honly.map _

/-! ## One step of the server -/

variable {server server' : Server} {e : Event} {es : List Event} {ok : Server → Event → Prop}

theorem step_change (taken : step server e = some server') : server'.store = server.store ∨
    ∃ call ∈ server.calls, ∃ i next, call.2 = .locked i next ∧ server.entering e = some i ∧
      Change server.store i server'.store := by
  cases Pool.step_cases taken with
  | called | failed => exact Or.inl rfl
  | ran n k i next a state call healthy runs =>
    exact Or.inr ⟨_, List.mem_of_getElem? call, i, next, rfl, by simp [Pool.entering, call],
      exec_change runs⟩

/-- Every channel that exists has a valid name, and so will those that are still to be joined. -/
theorem valid_reached (run : Reaches ok es server) :
    (∀ call ∈ server.calls, call.2.Only Section.Named) ∧
      ∀ c, (server.store.channel c).isSome = true → channelNameIsValid c = true := by
  refine run.invariant (P := fun server => (∀ call ∈ server.calls, call.2.Only Section.Named) ∧
    ∀ c, (server.store.channel c).isSome = true → channelNameIsValid c = true)
    ⟨by simp [Server.init], sound_init.valid⟩ fun server e server' ⟨only, valid⟩ _ taken => ?_
  refine ⟨Pool.only_step only_start only taken, ?_⟩
  rcases step_change taken with hstore | ⟨call, hcall, i, next, hnext, -, change⟩
  · rwa [hstore]
  · have hnamed : i.Named := by
      have hcall' := only call hcall
      rw [hnext] at hcall'
      exact hcall'.1
    refine change_valid change valid ?_
    rintro u c rfl
    exact hnamed

theorem step_grows (taken : step server e = some server') : server.store.Grows server'.store := by
  rcases step_change taken with hstore | ⟨_, _, _, _, _, _, change⟩
  · rw [hstore]
    exact grows_refl _
  · exact change_grows change

theorem step_consistent (consistent : server.store.Consistent) (once : registersOnce server e)
    (taken : step server e = some server') : server'.store.Consistent := by
  rcases step_change taken with hstore | ⟨-, -, i, -, -, hentering, change⟩
  · rwa [hstore]
  · exact change_consistent change (once i hentering) consistent

/-- What the critical section of `leave_channel` finds. -/
theorem leave_cases {r : StateResult Unit}
    (h : Section.exec (.leave u c) state = some (r, state')) :
    (u ∈ state.members c ∧ r = .ok () ∧
      state'.members = Function.update state.members c ((state.members c).erase u)) ∨
    (u ∉ state.members c ∧ r = .error notAMember) := by
  simp only [Section.exec, leaveLocked, Option.bind_eq_bind, Option.bind_eq_some_iff] at h
  obtain ⟨channel, found, h⟩ := h
  rw [members_of_channel found]
  split_ifs at h with hmember
  · simp only [Option.bind_eq_some_iff, Option.some.injEq, Prod.mk.injEq] at h
    obtain ⟨joined, -, rfl, rfl⟩ := h
    refine Or.inl ⟨hmember, rfl, funext fun d => ?_⟩
    rw [setUserChannels_members, setChannel_members, Function.update_apply]
  · cases h
    exact Or.inr ⟨hmember, rfl⟩

/-! ## Why it does not panic -/

/-- What the loop of `leave_all_channels` relies on: that the user is a member of each channel when
it comes to leave it. -/
structure Relies (u : String) (R : Protocol Section AppState)
    (ready : List String → AppState → Prop) : Prop where
  grows : ∀ state state', R.grows state state' → state.Grows state'
  keyed : ∀ state, R.inv state → state.Keyed
  stays : ∀ names state state', R.grows state state' → ready names state → ready names state'
  member : ∀ c names state, ready (c :: names) state → R.may (.leave u c) state →
    u ∈ state.members c
  left : ∀ c names state state', ready (c :: names) state →
    Section.exec (.leave u c) state = some (.ok (), state') → ready names state'

variable {R : Protocol Section AppState} {ready : List String → AppState → Prop}

theorem leavings_sure (relies : Relies u R ready) (hu : u ∈ state.users)
    (hnames : ∀ c ∈ names, channelNameIsValid c = true ∧ (state.channel c).isSome = true)
    (hready : ready names state) : (leavings u names).Sure Section.exec R state := by
  induction names generalizing state with
  | nil => trivial
  | cons c names ih =>
    obtain ⟨hvalid, hc⟩ := hnames c List.mem_cons_self
    rw [leavings_cons, hvalid]
    intro state₁ grows₁ _ _
    have hgrows₁ := relies.grows _ _ grows₁
    have hready₁ := relies.stays _ _ _ grows₁ hready
    refine ⟨true, state₁, by rw [Section.exec, hgrows₁.channels c hc], ?_⟩
    intro state₂ grows₂ _ _
    have hgrows₂ := relies.grows _ _ grows₂
    have hready₂ := relies.stays _ _ _ grows₂ hready₁
    have hu₂ : u ∈ state₂.users := hgrows₂.users (hgrows₁.users hu)
    refine ⟨true, state₂, by rw [Section.exec, decide_eq_true hu₂], ?_⟩
    intro state₃ grows₃ inv₃ may
    have hgrows₃ := relies.grows _ _ grows₃
    have hready₃ := relies.stays _ _ _ grows₃ hready₂
    have hneeds : (Section.leave u c).Needs state₃ :=
      ⟨hgrows₃.users hu₂, hgrows₃.channels c (hgrows₂.channels c (hgrows₁.channels c hc))⟩
    obtain ⟨⟨r, state₄⟩, hexec⟩ :=
      Option.isSome_iff_exists.mp (exec_runs (relies.keyed _ inv₃) hneeds)
    have hmember := relies.member c names state₃ hready₃ may
    rcases leave_cases hexec with ⟨-, rfl, -⟩ | ⟨hnot, -⟩
    · have hgrows₄ := change_grows (exec_change hexec)
      have hall := ((hgrows₁.trans hgrows₂).trans hgrows₃).trans hgrows₄
      refine ⟨.ok (), state₄, hexec, ih (hall.users hu) (fun d hd => ?_) ?_⟩
      · obtain ⟨hvalid', hd'⟩ := hnames d (List.mem_cons_of_mem c hd)
        exact ⟨hvalid', hall.channels d hd'⟩
      · exact relies.left c names state₃ state₄ hready₃ hexec
    · exact absurd hmember hnot

theorem snapshot_members (sound : state.Sound) : (order.list (state.joined u)).Nodup ∧
    ∀ c ∈ order.list (state.joined u), u ∈ state.members c := by
  refine ⟨?_, fun c hc => (sound.consistent.index u c).mpr ?_⟩
  · rw [← Multiset.coe_nodup, order.perm]
    exact (state.joined u).nodup
  · rwa [← Finset.mem_val, ← order.perm, Multiset.mem_coe]

theorem start_sure (relies : Relies u R ready) (sound : ∀ state, R.inv state → state.Sound)
    (snapshot : ∀ state, state.Sound → ready (order.list (state.joined u)) state)
    (state : AppState) : (Call.leaveAllChannels u order).start.Sure Section.exec R state := by
  rw [start_leaveAllChannels]
  intro state₁ _ _ _
  by_cases hu : u ∈ state₁.users
  · refine ⟨true, state₁, by rw [Section.exec, decide_eq_true hu], ?_⟩
    intro state₂ grows₂ inv₂ _
    have hu₂ : u ∈ state₂.users := (relies.grows _ _ grows₂).users hu
    have hsound := sound state₂ inv₂
    obtain ⟨joined, entry⟩ := keyed_lookup hsound.consistent.keyed hu₂
    refine ⟨joined, state₂, by rw [Section.exec, entry]; rfl, ?_⟩
    rw [← joined_of_lookup entry]
    refine leavings_sure relies hu₂ (fun c hc => ?_) (snapshot state₂ hsound)
    have hc := member_channel ((snapshot_members hsound).2 c hc)
    exact ⟨hsound.valid c hc, hc⟩
  · exact ⟨false, state₁, by rw [Section.exec, decide_eq_false hu], trivial⟩

/-- The snapshot is not touched by others. -/
def untouched (u : String) : Protocol Section AppState where
  inv := AppState.Sound
  grows state state' := state.Grows state' ∧ ∀ c, u ∈ state.members c → u ∈ state'.members c
  may _ _ := True
  refl state := ⟨grows_refl state, fun _ => id⟩
  trans h h' := ⟨h.1.trans h'.1, fun c hc => h'.2 c (h.2 c hc)⟩

theorem relies_untouched : Relies u (untouched u) fun names state =>
    names.Nodup ∧ ∀ c ∈ names, u ∈ state.members c where
  grows _ _ h := h.1
  keyed _ sound := sound.consistent.keyed
  stays _ _ _ h ready := ⟨ready.1, fun c hc => h.2 c (ready.2 c hc)⟩
  member c _ _ ready _ := ready.2 c List.mem_cons_self
  left c names state state' ready hexec := by
    obtain ⟨hnew, hnodup⟩ := List.nodup_cons.mp ready.1
    refine ⟨hnodup, fun d hd => ?_⟩
    rcases leave_cases hexec with ⟨-, -, hmembers⟩ | ⟨-, herror⟩
    · rw [hmembers, Function.update_of_ne (ne_of_mem_of_not_mem hd hnew)]
      exact ready.2 d (List.mem_cons_of_mem c hd)
    · cases herror

/-- Each of the channels is left only while the user is in it. -/
def memberOnly (u : String) : Protocol Section AppState :=
  protocol AppState.Sound fun i state => ∀ c, i = .leave u c → u ∈ state.members c

theorem relies_memberOnly : Relies u (memberOnly u) fun _ _ => True where
  grows _ _ h := h
  keyed _ sound := sound.consistent.keyed
  stays _ _ _ _ ready := ready
  member c _ _ _ may := may c rfl
  left _ _ _ _ _ _ := trivial

theorem change_members {i : Section} (change : Change state i state')
    (spares : ∀ c, i = .leave u c → u ∉ state.members c) (member : u ∈ state.members c) :
    u ∈ state'.members c := by
  cases change with
  | kept | inserted => exact member
  | joined v d joined =>
    rw [setUserChannels_members, setChannel_members]
    split_ifs with h
    · rw [h] at member
      exact Finset.mem_insert_of_mem member
    · exact member
  | left v d channel joined found =>
    have hd : state.members d = channel.users := members_of_channel found
    rw [setUserChannels_members, setChannel_members]
    split_ifs with h
    · rw [h] at member
      rw [← hd]
      refine Finset.mem_erase.mpr ⟨?_, member⟩
      rintro rfl
      exact spares d rfl member
    · exact member
  | sent d v t channel found =>
    rw [setChannel_members]
    split_ifs with h
    · rw [h, members_of_channel found] at member
      exact member
    · exact member

/-! ## Runs -/

section Runs

variable {n t : ℕ} {run : ℕ → Server} {event : ℕ → Option Event}

/-- Whenever the `n`th call leaves a channel, the user is in it. -/
def StillIn (run : ℕ → Server) (event : ℕ → Option Event) (n : ℕ) (u : String) : Prop :=
  ∀ t c, event t = some (.step n) → (run t).entering (.step n) = some (.leave u c) →
    u ∈ (run t).store.members c

/-- While the `n`th call is under way, no other call takes the user out of a channel. -/
def Undisturbed (run : ℕ → Server) (event : ℕ → Option Event) (n : ℕ) (u : String) : Prop :=
  ∀ t e c k prog, (run t).calls[n]? = some (k, prog) → prog.isOver = false →
    event t = some e → e ≠ .step n → (run t).entering e = some (.leave u c) →
    u ∉ (run t).store.members c

/-- The `n`th call, a `leave_all_channels`, does what it is for. -/
structure LeavesAll (run : ℕ → Server) (event : ℕ → Option Event) (n : ℕ) (u : String) : Prop where
  unwraps : ∀ t k, (run t).calls[n]? ≠ some (k, .panicked)
  finishes : WeaklyFair step run event (.step n) → ∃ t k r, (run t).calls[n]? = some (k, .done r)
  leaves : ∀ s t k r, event s = some (.step n) →
    (run s).entering (.step n) = some (.memberships u) → s < t →
    (run t).calls[n]? = some (k, .done r) → ∀ c, u ∈ (run s).store.members c →
      ∃ m e, s < m ∧ m < t ∧ event m = some e ∧ (run m).entering e = some (.leave u c) ∧
        u ∈ (run m).store.members c ∧ u ∉ (run (m + 1)).store.members c

theorem run_healthy (reached : Reaches ok es server) (forever : Forever step server run event)
    (t : ℕ) : (run t).poisoned = false := by
  obtain ⟨es', hes'⟩ := forever.exec t
  exact (never_poisoned ((reached.mono fun _ _ _ => trivial).append hes')).2

theorem run_sound (reached : Reaches ok es server) (consistent : server.store.Consistent)
    (forever : Forever step server run event)
    (once : ∀ t e, event t = some e → registersOnce (run t) e) (t : ℕ) : (run t).store.Sound := by
  have hconsistent : (run t).store.Consistent := by
    refine forever.stays (P := fun server => server.store.Consistent) (t := 0) ?_ ?_ (Nat.zero_le t)
    · rwa [forever.init]
    · exact fun k _ e _ hk he taken => step_consistent hk (once k e he) taken
  obtain ⟨es', hes'⟩ := forever.exec t
  exact ⟨hconsistent, (valid_reached ((reached.mono fun _ _ _ => trivial).append hes')).2⟩

theorem run_called (forever : Forever step server run event)
    (called : event 0 = some (.call (.leaveAllChannels u order))) :
    (run 1).calls[server.calls.length]? =
      some (.leaveAllChannels u order, (Call.leaveAllChannels u order).start) := by
  have htaken := forever.taken 0 _ called
  rw [forever.init] at htaken
  have hcalls : (run 1).calls = server.calls ++ [(_, (Call.leaveAllChannels u order).start)] :=
    (congrArg Pool.calls (Option.some.inj htaken)).symm
  rw [hcalls, List.getElem?_concat_length]

/-- Sure of the store that it relies on, the call does not panic. -/
theorem run_unwraps {R : Protocol Section AppState} {ready : List String → AppState → Prop}
    (relies : Relies u R ready) (sound : ∀ state, R.inv state ↔ state.Sound)
    (snapshot : ∀ state, state.Sound → ready (order.list (state.joined u)) state)
    (reached : Reaches ok es server) (consistent : server.store.Consistent)
    (forever : Forever step server run event)
    (called : event 0 = some (.call (.leaveAllChannels u order)))
    (once : ∀ t e, event t = some e → registersOnce (run t) e)
    (grows : ∀ m i next, (run m).calls[server.calls.length]? =
      some (.leaveAllChannels u order, .locked i next) →
        event m ≠ some (.step server.calls.length) →
        R.grows (run m).store (run (m + 1)).store)
    (may : ∀ m i, event m = some (.step server.calls.length) →
      (run m).entering (.step server.calls.length) = some i → R.may i (run m).store)
    (later : 1 ≤ t) :
    ∃ prog, (run t).calls[server.calls.length]? = some (.leaveAllChannels u order, prog) ∧
      prog ≠ .panicked := by
  obtain ⟨prog, hcall, hsure⟩ := Pool.sure_later forever (run_called forever called)
    (start_sure relies (fun state => (sound state).mp) snapshot (run 1).store)
    (fun m _ => (sound _).mpr (run_sound reached consistent forever once m))
    (fun m _ => run_healthy reached forever m) (fun m _ => grows m) (fun m _ => may m) later
  refine ⟨prog, hcall, ?_⟩
  rintro rfl
  exact hsure

theorem entered_call {i : Section} {k : Call} {prog : Op (StateResult Value)}
    (hentering : server.entering (.step n) = some i) (call : server.calls[n]? = some (k, prog)) :
    ∃ next, prog = .locked i next := by
  simp only [Pool.entering, call] at hentering
  split at hentering
  · rename_i k' j next heq
    cases heq
    cases hentering
    exact ⟨next, rfl⟩
  · cases hentering

/-- A leave that fails is unwrapped. -/
theorem unwrap_fails (forever : Forever step server run event)
    (called : event 0 = some (.call (.leaveAllChannels u order)))
    (own : event t = some (.step server.calls.length))
    (hentering : (run t).entering (.step server.calls.length) = some (.leave u c))
    (gone : u ∉ (run t).store.members c) :
    (run (t + 1)).calls[server.calls.length]? = some (.leaveAllChannels u order, .panicked) := by
  have hpos : 1 ≤ t := by
    rcases Nat.eq_zero_or_pos t with rfl | hpos
    · cases called.symm.trans own
    · exact hpos
  obtain ⟨prog, hcall, hafter⟩ :=
    Pool.everywhere_later forever (run_called forever called) start_after hpos
  obtain ⟨next, rfl⟩ := entered_call hentering hcall
  obtain ⟨prog', hnext, turn⟩ := Pool.turn_next forever hcall
  cases turn with
  | waits _ other => exact absurd own other
  | fails => exact hnext
  | runs _ _ a _ _ answer =>
    rcases leave_cases answer with ⟨member, -, -⟩ | ⟨-, rfl⟩
    · exact absurd member gone
    · rw [hnext, hafter.1 notAMember]

/-- What was in the snapshot has been left before the call returns. -/
theorem snapshot_left (forever : Forever step server run event)
    (called : event 0 = some (.call (.leaveAllChannels u order)))
    {s : ℕ} (own : event s = some (.step server.calls.length))
    (hentering : (run s).entering (.step server.calls.length) = some (.memberships u))
    (later : s < t) {k : Call} {r : StateResult Value}
    (returned : (run t).calls[server.calls.length]? = some (k, .done r))
    (hc : c ∈ (run s).store.joined u) :
    ∃ m, s < m ∧ m < t ∧ event m = some (.step server.calls.length) ∧
      (run m).entering (.step server.calls.length) = some (.leave u c) ∧
      ∃ a, Section.exec (.leave u c) (run m).store = some (a, (run (m + 1)).store) := by
  have hpos : 1 ≤ s := by
    rcases Nat.eq_zero_or_pos s with rfl | hpos
    · cases called.symm.trans own
    · exact hpos
  obtain ⟨prog, hcall, hafter⟩ :=
    Pool.everywhere_later forever (run_called forever called) start_after hpos
  obtain ⟨next, rfl⟩ := entered_call hentering hcall
  obtain ⟨prog', hnext, turn⟩ := Pool.turn_next forever hcall
  cases turn with
  | waits _ other => exact absurd own other
  | fails =>
    obtain ⟨prog', hend, rfl⟩ := Pool.turns_keep forever (I := fun prog _ => prog = .panicked) hnext
      rfl (by rintro m _ _ prog' rfl _ turn; cases turn; rfl) later
    rw [hend] at returned
    cases returned
  | runs _ _ names _ _ answer =>
    obtain ⟨names', entry, heq⟩ := Option.map_eq_some_iff.mp answer
    obtain rfl : names' = names := congrArg Prod.fst heq
    rw [joined_of_lookup entry] at hc
    have hreturned : (run t).calls[server.calls.length]? =
        some (.leaveAllChannels u order, .done r) := by
      obtain ⟨prog', hend, -⟩ := Pool.turns_keep forever (I := fun _ _ => True) hnext trivial
        (fun _ _ _ _ _ _ _ => trivial) later
      rw [hend] at returned ⊢
      cases returned
      rfl
    obtain ⟨m, i, hsm, hmt, hown, hin, rfl, hexec⟩ :=
      Pool.passes_before forever hnext (hafter.1 rfl names' c hc) later hreturned
    exact ⟨m, hsm, hmt, hown, hin, hexec⟩

/-- If no call panics when the user is still in the channels, this one leaves them all. -/
theorem leavesAll_of_unwraps (reached : Reaches ok es server)
    (consistent : server.store.Consistent) (forever : Forever step server run event)
    (called : event 0 = some (.call (.leaveAllChannels u order)))
    (once : ∀ t e, event t = some e → registersOnce (run t) e)
    (unwraps : ∀ t ≥ 1, ∃ prog, (run t).calls[server.calls.length]? =
      some (.leaveAllChannels u order, prog) ∧ prog ≠ .panicked) :
    LeavesAll run event server.calls.length u where
  unwraps t k hpanicked := by
    rcases Nat.eq_zero_or_pos t with rfl | hpos
    · rw [forever.init, List.getElem?_eq_none (Nat.le_refl _)] at hpanicked
      cases hpanicked
    · obtain ⟨prog, hcall, hne⟩ := unwraps t hpos
      rw [hpanicked] at hcall
      cases hcall
      exact hne rfl
  finishes fair := by
    obtain ⟨t, ht, ended, hended, hisOver⟩ :=
      Pool.call_ends forever fair (run_called forever called)
    obtain ⟨prog, hcall, hne⟩ := unwraps t ht
    rw [hended] at hcall
    cases hcall
    cases ended with
    | done r => exact ⟨t, _, r, hended⟩
    | panicked => exact absurd rfl hne
    | locked => cases hisOver
  leaves s t k r own hentering later returned c member := by
    have hsound := run_sound reached consistent forever once
    obtain ⟨m, hsm, hmt, hown, hin, a, hexec⟩ := snapshot_left forever called own hentering later
      returned (((hsound s).consistent.index u c).mp member)
    have hleft : u ∈ (run m).store.members c := by
      by_contra hgone
      obtain ⟨prog, hcall, hne⟩ := unwraps (m + 1) (by omega)
      rw [unwrap_fails forever called hown hin hgone] at hcall
      cases hcall
      exact hne rfl
    refine ⟨m, _, hsm, hmt, hown, hin, hleft, ?_⟩
    rcases leave_cases hexec with ⟨-, -, hmembers⟩ | ⟨hgone, -⟩
    · rw [hmembers, Function.update_self]
      exact Finset.notMem_erase u _
    · exact absurd hleft hgone

/-- **`leave_all_channels` among other calls.** It does not panic, returns if it gets its turns, and
has taken the user out of every channel of its snapshot by then, if and only if the user is still in
each of them when its turn comes. So it is if no other call takes the user out meanwhile. -/
theorem leaves_all_among_others (reached : Reaches ok es server)
    (consistent : server.store.Consistent) (forever : Forever step server run event)
    (called : event 0 = some (.call (.leaveAllChannels u order)))
    (once : ∀ t e, event t = some e → registersOnce (run t) e) :
    (StillIn run event server.calls.length u ↔ LeavesAll run event server.calls.length u) ∧
      (Undisturbed run event server.calls.length u →
        StillIn run event server.calls.length u) := by
  have hstill : LeavesAll run event server.calls.length u →
      StillIn run event server.calls.length u := by
    intro h t c own hentering
    by_contra hgone
    exact h.unwraps _ _ (unwrap_fails forever called own hentering hgone)
  have hgrows : ∀ m, (run m).store.Grows (run (m + 1)).store := by
    intro m
    cases he : event m with
    | none =>
      rw [forever.idle m he]
      exact grows_refl _
    | some e => exact step_grows (forever.taken m e he)
  refine ⟨⟨fun h => ?_, hstill⟩, fun h => hstill ?_⟩
  · refine leavesAll_of_unwraps reached consistent forever called once fun t ht => ?_
    refine run_unwraps relies_memberOnly (fun _ => Iff.rfl) (fun _ _ => trivial) reached consistent
      forever called once (fun m _ _ _ _ => hgrows m) (fun m i own hentering c hi => ?_) ht
    exact h m c own (hi ▸ hentering)
  · refine leavesAll_of_unwraps reached consistent forever called once fun t ht => ?_
    refine run_unwraps relies_untouched (fun _ => Iff.rfl) (fun _ => snapshot_members) reached
      consistent forever called once (fun m i next hcall hother => ⟨hgrows m, fun c hc => ?_⟩)
      (fun _ _ _ _ => trivial) ht
    cases he : event m with
    | none => rwa [forever.idle m he]
    | some e =>
      rcases step_change (forever.taken m e he) with hstore | ⟨_, _, i, _, _, hentering, change⟩
      · rwa [hstore]
      · refine change_members change (fun d hi => ?_) hc
        have hne : e ≠ .step server.calls.length := fun heq => hother (he.trans (congrArg some heq))
        exact h m e d _ _ hcall rfl he hne (hi ▸ hentering)

end Runs

/-- While `alice` leaves `#a`, another session of hers joins `#b`. -/
def joinsMeanwhile : List Event :=
  [.call (.leaveAllChannels "alice" alphabetical), .call (.createUser "alice"), .step 1, .step 1,
    .call (.joinChannel "alice" "#a"), .step 2, .step 2, .step 0, .step 0,
    .call (.joinChannel "alice" "#b"), .step 0, .step 3, .step 0, .step 3, .step 0]

abbrev joiningMeanwhile : ℕ → Server := Run.unrolled step .init fun t => joinsMeanwhile[t]?

theorem leaves_all_joining : ∃ run event, Forever step .init run event ∧
    event 0 = some (.call (.leaveAllChannels "alice" alphabetical)) ∧
    "alice" ∈ (run 8).store.members "#a" ∧ LeavesAll run event 0 "alice" := by
  have hforever : Forever step .init joiningMeanwhile fun t => joinsMeanwhile[t]? := by
    refine Run.forever_unrolled fun t e he => ?_
    have henabled : ∀ t < 15, (joinsMeanwhile[t]?).all
        fun e => (step (joiningMeanwhile t) e).isSome := by decide +kernel
    simpa [he] using henabled t (List.getElem?_eq_some_iff.mp he).1
  have honce : ∀ t e, joinsMeanwhile[t]? = some e → registersOnce (joiningMeanwhile t) e := by
    intro t e he
    have hall : ∀ t < 15, (joinsMeanwhile[t]?).all
        fun e => decide (registersOnce (joiningMeanwhile t) e) := by decide +kernel
    simpa [he] using hall t (List.getElem?_eq_some_iff.mp he).1
  have hstill : StillIn joiningMeanwhile (fun t => joinsMeanwhile[t]?) 0 "alice" := by
    intro t c own hentering
    have hall : ∀ t < 15, ((joiningMeanwhile t).entering (.step 0)).all (fun
        | .leave u c => decide (u ∈ (joiningMeanwhile t).store.members c)
        | _ => true) := by decide +kernel
    simpa [hentering] using hall t (List.getElem?_eq_some_iff.mp own).1
  have hreached : Reaches (fun _ _ => True) [] .init := .nil
  exact ⟨_, _, hforever, rfl, by decide +kernel,
    ((leaves_all_among_others hreached consistent_init hforever rfl honce).1.mp hstill)⟩

/-- `alice` is in `#a`. -/
def joinsOne : List Event :=
  [.call (.createUser "alice"), .step 0, .step 0, .call (.joinChannel "alice" "#a"), .step 1,
    .step 1]

def joinedOne : Server := (Run.run step registersOnce .init joinsOne).getD .init

/-- Two sessions of hers break off at once. -/
def breaksTwice : List Event :=
  [.call (.leaveAllChannels "alice" alphabetical), .call (.leaveAllChannels "alice" alphabetical),
    .step 2, .step 2, .step 3, .step 3, .step 3, .step 3, .step 3, .step 2, .step 2, .step 2]

theorem unwrap_panics : Reaches registersOnce joinsOne joinedOne ∧ joinedOne.store.Consistent ∧
    ∃ server, Run.Exec step registersOnce joinedOne breaksTwice server ∧
      ∃ k, server.calls[joinedOne.calls.length]? = some (k, .panicked) := by
  have hjoined : (Run.run step registersOnce .init joinsOne).isSome = true := by decide +kernel
  have hreached : Reaches registersOnce joinsOne joinedOne :=
    Run.exec_of_run (by rw [joinedOne, ← Option.some_get hjoined]; rfl)
  refine ⟨hreached, ⟨(membership_consistent hreached).1, (membership_consistent hreached).2⟩, ?_⟩
  obtain ⟨server, run, h⟩ := Run.exec_of_test
    (fun server : Server => (server.calls[joinedOne.calls.length]?).any fun
      | (_, .panicked) => true
      | _ => false)
    (by decide +kernel : (Run.run step registersOnce joinedOne breaksTwice).any _ = true)
  obtain ⟨⟨k, prog⟩, hcall, hpanicked⟩ := (Option.any_eq_true _ _).mp h
  refine ⟨server, run, k, ?_⟩
  cases prog with
  | panicked => exact hcall
  | done => cases hpanicked
  | locked => cases hpanicked

end MiniDiscord.Pa1
