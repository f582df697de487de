import MiniDiscord.Cluster.Convergence

/-!
# The unwraps of a local operation

A local operation unwraps the channel that it found a lock earlier, and reads numbers out of the ids
of the messages that it compares. Neither fails: no channel is ever removed, and every id was made
by a primary. What can still stop the operation is a mutex that somebody else poisoned.
-/

namespace MiniDiscord.Cluster

open DiscordStateops

/-- The number can be read out of every message id. -/
def Numeric (st : AppState) : Prop :=
  ∀ c, ∀ m ∈ st.history c, m.getNumericMessageId.isSome = true

def Value.Numeric : Value → Prop
  | .messageId id => (numericMessageId id).isSome = true
  | _ => True

/-- A call that is past its checks would pass them again. -/
def Ready (σ : Servers) (op : Op) : Frame → Prop
  | .call s .userStart | .call s .userLocal | .call s .userRoute | .call s (.userAwait _)
  | .call s .commit => op.checks (σ.store s) = .ok ()
  | .call _ (.applied v) | .request _ (.replicate v) => v.Numeric
  | _ => True

def ready : Inv Unit where
  servers _ σ := ∀ s, Numeric (σ.store s)
  frame _ σ _ op f _ := Ready σ op f
  reply _ _ _ := True

variable {hash : String → ℕ} {σ σ' : Servers} {op op' : Op} {st st' : AppState} {v : Value}
  {r : StateResult Value} {f : Frame} {stack stack' : List Frame}

/-! ## One operation -/

theorem numeric_effect (h : Effect op st r st') (numeric : Numeric st)
    (value : ∀ v, r = .ok v → v.Numeric) : Numeric st' := by
  intro d m hm
  by_cases other : ∀ u t, op ≠ .sendMessage d u t
  · rw [(effect_history h other).1] at hm
    exact numeric d m hm
  · push Not at other
    obtain ⟨u, t, rfl⟩ := other
    cases h with
    | refused | read => exact numeric d m hm
    | appended _ _ _ id _ ch next found =>
      simp only [AppState.history, channelOrNew_setChannel, if_true] at hm
      rcases KeySet.mem_insert.mp hm with hm | ⟨rfl, -⟩
      · exact numeric d m (by rwa [AppState.history, channelOrNew_of_channel found])
      · exact value _ rfl

theorem map_ok {α : Type} {x : StateResult α} {g : α → Value} (h : x.map g = .ok v) :
    ∃ a, g a = v := by
  cases x with
  | error e => cases h
  | ok a => exact ⟨a, Except.ok.inj h⟩

theorem numeric_locked (h : op.locked st = some (.ok v, st')) : v.Numeric := by
  cases op with
  | sendMessage c u t =>
    obtain ⟨ch, -, -, rfl, -⟩ := locked_send h
    simp [Value.Numeric]
  | createUser | joinChannel | leaveChannel => cases locked_effect h <;> trivial
  | userExists | getUsers | getChannels => cases h; trivial
  | listChannelUsers | getMessages =>
    obtain ⟨hmap, -⟩ := Prod.mk.inj (Option.some.inj h)
    obtain ⟨a, rfl⟩ := map_ok hmap
    trivial

theorem checks_effect (h : Effect op' st r st') (passed : op.checks st = .ok ()) :
    op.checks st' = .ok () := by
  cases op with
  | leaveChannel u c | sendMessage c u t =>
    obtain ⟨hvalid, ch, found⟩ := checkChannel_ok.mp passed
    exact checkChannel_ok.mpr ⟨hvalid, effect_channel h found⟩
  | _ => rfl

/-- After its checks a local operation does not panic. -/
theorem locked_some (numeric : Numeric st) (passed : op.checks st = .ok ()) :
    (op.locked st).isSome = true := by
  cases op with
  | leaveChannel u c =>
    obtain ⟨-, ch, found⟩ := checkChannel_ok.mp passed
    simp only [Op.locked, leaveChannelLocked, found]
    split_ifs <;> rfl
  | sendMessage c u t =>
    obtain ⟨-, ch, found⟩ := checkChannel_ok.mp passed
    have hmessages : ∀ m ∈ ch.messages, m.getNumericMessageId.isSome = true := fun m hm =>
      numeric c m (by rwa [AppState.history, channelOrNew_of_channel found])
    have hinsert := insertMessage_some (m := Message.from' u t c ch.nextMessageId) hmessages
      (by simp)
    simp only [Op.locked, sendMessageLocked, found, Option.bind_eq_bind, Option.bind_some, hinsert]
    split_ifs <;> rfl
  | _ => rfl

theorem numeric_replicate (h : op.replicateLocked v st = some (r, st')) (numeric : v.Numeric) :
    ∀ v', r = .ok v' → v'.Numeric := by
  rintro v' rfl
  cases op with
  | sendMessage c u t =>
    obtain ⟨id, ch, rfl, hr, -, -⟩ := replicate_send h
    cases hr
    exact numeric
  | createUser | joinChannel | leaveChannel =>
    cases replicate_effect h with
    | read _ _ _ reads => cases reads
    | _ => trivial
  | userExists | getUsers | getChannels | listChannelUsers | getMessages => cases v <;> cases h

/-! ## In every run -/

theorem ready_frame (kept : ∀ s, op.checks (σ.store s) = .ok () → op.checks (σ'.store s) = .ok ())
    (h : Ready σ op f) : Ready σ' op f := by
  rcases f with ⟨s, pc⟩ | ⟨p, request⟩ | r
  · cases pc with
    | userStart | userLocal | userRoute | userAwait | commit => exact kept _ h
    | _ => exact h
  · cases request <;> exact h
  · trivial

theorem ready_same (h : σ'.store = σ.store) (numeric : ∀ s, Numeric (σ.store s)) :
    ready.Carries () σ () σ' :=
  ⟨fun s => h ▸ numeric s, fun _ _ _ _ => ready_frame fun _ hs => h ▸ hs, fun _ _ => trivial⟩

theorem ready_setStore {s : ServerId} (numeric : ∀ s, Numeric (σ.store s))
    (h : Effect op (σ.store s) r st') (value : ∀ v, r = .ok v → v.Numeric) :
    ready.Carries () σ () (σ.setStore s st') := by
  refine ⟨fun t => ?_, fun _ _ _ _ => ready_frame fun t ht => ?_, fun _ _ => trivial⟩
  · rw [setStore_store, Function.update_apply]
    split_ifs
    · exact numeric_effect h (numeric s) value
    · exact numeric t
  · rw [setStore_store, Function.update_apply]
    split_ifs with hts
    · exact checks_effect h (hts ▸ ht)
    · exact ht

theorem ready_carries (h : Advance hash σ op stack σ' stack') (numeric : ∀ s, Numeric (σ.store s))
    (frames : Frames (fun f _ => Ready σ op f) stack) : ready.Carries () σ () σ' := by
  rcases advance_store h with hstore | ⟨s, r, st, rest, rfl, locked, rfl⟩ |
    ⟨s, v, r, st, rest, rfl, locked, rfl⟩
  · exact ready_same hstore numeric
  · exact ready_setStore numeric (locked_effect locked) fun v hv => numeric_locked (hv ▸ locked)
  · exact ready_setStore numeric (replicate_effect locked) (numeric_replicate locked frames.1)

theorem ready_entry (s : ServerId) : Ready σ op (.call s op.entry) := by
  cases op <;> first | rfl | trivial

theorem ready_sends {s dest : ServerId} {pc wait : Pc} {request : Request}
    (sends : Sends hash σ op s pc dest request wait) (h : Ready σ op (.call s pc)) :
    Ready σ op (.request dest request) ∧ Ready σ op (.call s wait) := by
  cases sends with
  | user => exact ⟨trivial, h⟩
  | replicate => exact ⟨h, trivial⟩
  | forward => cases op <;> exact ⟨trivial, trivial⟩
  | poll => exact ⟨trivial, trivial⟩

theorem ready_resume {s p : ServerId} {pc : Pc} (awaits : pc.awaits = some p)
    (r : StateResult Value) (h : Ready σ op (.call s pc)) : Ready σ op (.call s (pc.resume r)) := by
  cases pc with
  | awaitReplica | awaitForward => trivial
  | userAwait =>
    rcases r with e | v
    · trivial
    · rcases v with _ | found | _ | _ | _ | _
      case found =>
        cases found
        · trivial
        · exact h
      all_goals trivial
  | awaitPoll =>
    rcases r with e | v
    · trivial
    · cases v <;> trivial
  | _ => cases awaits

theorem ready_preserved : ready.Preserved hash anyFailure noTick fun _ _ _ _ => True where
  still _ _ _ _ _ _ := rfl
  weaken _ _ _ _ _ _ h := h
  submit _ _ _ _ _ _ := trivial
  reply _ _ _ _ _ _ _ _ _ := trivial
  giveUp _ _ _ _ _ pc _ _ _ _ _ _ awaits _ h := by
    cases pc with
    | userAwait => exact h
    | awaitReplica | awaitForward | awaitPoll => trivial
    | _ => cases awaits
  suspect _ _ _ _ numeric _ _ := ready_same rfl numeric
  crash _ _ _ numeric _ := ready_same rfl numeric
  advance _ σ _ op stack σ' stack' numeric frames _ _ h := by
    have hcarries := ready_carries h numeric frames
    have hrest : ∀ {f rest}, Frames (fun f _ => Ready σ op f) (f :: rest) →
        Frames (fun f _ => Ready σ' op f) rest :=
      fun hs => frames_mono (fun f _ => hcarries.frame 0 op f none) hs.2
    refine ⟨hcarries, ?_⟩
    cases h with
    | authority s config rest => exact ⟨ready_entry s, hrest frames⟩
    | checked s rest live checks => exact ⟨checks, hrest frames⟩
    | userAuthority | userElsewhere | userFound => exact ⟨frames.1, hrest frames⟩
    | committed s v state rest live locked =>
      refine ⟨?_, hrest frames⟩
      split_ifs
      · exact numeric_locked locked
      · trivial
    | sent s pc dest request wait rest live sends =>
      obtain ⟨hrequest, hwait⟩ := ready_sends sends frames.1
      exact ⟨hrequest, hwait, hrest frames⟩
    | unsent s pc dest request wait rest live sends =>
      exact ⟨(ready_sends sends frames.1).2, hrest frames⟩
    | resumed s pc p r rest live awaits =>
      exact ⟨ready_resume awaits r frames.2.1, hrest frames.2⟩
    | responded s r caller rest => exact ⟨trivial, hrest frames⟩
    | unheard | unheardRead | unheardReplica => exact hrest frames
    | _ => exact ⟨trivial, hrest frames⟩

theorem initStore_numeric (s : ServerId) : Numeric (initStore s) := by
  intro c m hm
  rw [initStore_history] at hm
  exact absurd hm (KeySet.not_mem_empty m)

/-- **No local operation panics by itself.** The only panic of its critical section is that of a
mutex which is poisoned already. -/
theorem commit_some {policy : Policy} {es : List Event} {w : World} (run : Reaches hash policy es w)
    {j : Job} (job : j ∈ w.jobs) {s : ServerId} {rest : List Frame}
    (stack : j.stack = .call s .commit :: rest) :
    (j.op.locked (w.servers.store s)).isSome = true := by
  have hholds : ready.Holds () w :=
    ready_preserved.holds_init (g := ()) (fun _ _ _ _ _ => trivial) initStore_numeric
      (reaches_any run)
  have hframes := hholds.jobs j job
  rw [stack] at hframes
  exact locked_some (hholds.servers s) hframes.1

end MiniDiscord.Cluster
