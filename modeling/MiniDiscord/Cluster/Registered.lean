import MiniDiscord.Cluster.Acknowledged
import MiniDiscord.Cluster.Mirror

/-!
# Channel members are users

`join_channel` asks an owner of the user's key whether the user exists. The primary may show a user
that it has not replicated yet, and that is lost with it; every other answer lasts.
-/

namespace MiniDiscord.Cluster

open DiscordStateops

/-- The owners of the user that still run have it. -/
def Servers.Registered (hash : String → ℕ) (σ : Servers) (u : String) : Prop :=
  ∀ s, HeldBy (userOwner hash u) s → σ.crashed s = false → u ∈ (σ.store s).users

/-- `s` is the primary, or the backup of a primary that crashed. -/
def Servers.Answers (σ : Servers) (config : LocationConfig) (s : ServerId) : Prop :=
  s = config.primary ∨ s = config.backup ∧ σ.crashed config.primary = true

/-- A user that the primary finds for a `join_channel` is at the backup too, unless that one has
crashed. -/
def replicatedUser (hash : String → ℕ) (σ : Servers) (op : Op) (stack : List Frame) : Bool :=
  match op, stack with
  | .joinChannel u _, .call s .userLocal :: _ | .joinChannel u _, .request s .userExists :: _ =>
    decide (s = (userOwner hash u).primary → u ∈ (σ.store s).users →
      u ∈ (σ.store (userOwner hash u).backup).users) || σ.crashed (userOwner hash u).backup
  | _, _ => true

/-- What is known of the joining user where a join stands. -/
def Joining (hash : String → ℕ) (σ : Servers) (u : String) : Frame → Prop
  | .call s .userLocal | .request s .userExists => σ.Answers (userOwner hash u) s
  | .call _ .commit | .call _ (.applied _) | .call _ (.awaitReplica _ _)
  | .request _ (.replicate _) => σ.Registered hash u
  | .call _ (.done r) | .response r => r = .ok (.found true) → σ.Registered hash u
  | _ => True

/-- Who is a member of a channel anywhere is registered. -/
def registration (hash : String → ℕ) : Inv Unit where
  servers _ σ := ∀ s c, ∀ u ∈ (σ.store s).members c, σ.Registered hash u
  frame _ σ _ op f _ := ∀ u c, op = .joinChannel u c → Joining hash σ u f
  reply _ _ _ := True

variable {hash : String → ℕ} {σ σ' : Servers} {op : Op} {config : LocationConfig} {s : ServerId}
  {u c : String} {st st' : AppState} {r : StateResult Value} {v : Value} {req : ℕ}
  {stack stack' : List Frame} {f : Frame}

/-! ## What lasts -/

theorem registered_grows (grows : σ.Grows σ') (h : σ.Registered hash u) :
    σ'.Registered hash u := by
  intro s held live
  have hlive : σ.crashed s = false := by
    by_contra hcrashed
    simp [grows.crashed s (by simpa using hcrashed)] at live
  exact grows.users s (h s held hlive)

theorem answers_grows (grows : σ.Grows σ') (h : σ.Answers config s) : σ'.Answers config s :=
  h.imp_right (And.imp_right (grows.crashed _))

theorem joining_grows (grows : σ.Grows σ') (h : Joining hash σ u f) : Joining hash σ' u f := by
  unfold Joining at h ⊢
  split at h
  all_goals first
    | exact answers_grows grows h
    | exact registered_grows grows h
    | exact fun hr => registered_grows grows (h hr)
    | trivial

theorem registration_carries (grows : σ.Grows σ')
    (servers : ∀ s c, ∀ u ∈ (σ'.store s).members c, σ'.Registered hash u) :
    (registration hash).Carries () σ () σ' :=
  ⟨servers, fun _ _ _ _ h u c hop => joining_grows grows (h u c hop), fun _ => id⟩

/-! ## Looking the user up -/

theorem located_answers (sound : σ.Sound) {dest : ServerId} (h : Located σ s config dest) :
    σ.Answers config dest := h.imp And.left (And.imp_right (sound.marked _ _))

theorem owns_answers (sound : σ.Sound) (h : σ.Owns config s) : σ.Answers config s :=
  h.imp_right (And.imp_right (sound.marked _ _))

theorem lookup_registered (answers : σ.Answers (userOwner hash u) s)
    (found : u ∈ (σ.store s).users)
    (backedUp : s = (userOwner hash u).primary → u ∈ (σ.store (userOwner hash u).backup).users ∨
      σ.crashed (userOwner hash u).backup = true) : σ.Registered hash u := by
  intro t held live
  rcases answers with rfl | ⟨rfl, hcrashed⟩
  · rcases held with rfl | rfl
    · exact found
    · exact (backedUp rfl).resolve_right (by simp [live])
  · rcases held with rfl | rfl
    · simp [hcrashed] at live
    · exact found

/-! ## New members -/

theorem effect_member (h : Effect op st r st') (member : u ∈ st'.members c) :
    u ∈ st.members c ∨ op = .joinChannel u c := by
  have hset : ∀ {d : String} {ch : Channel}, u ∈ (st.setChannel d ch).members c →
      c = d ∧ u ∈ ch.users ∨ u ∈ st.members c := by
    intro d ch hu
    simp only [AppState.members, channelOrNew_setChannel] at hu
    split_ifs at hu with hc
    · exact Or.inl ⟨hc, hu⟩
    · exact Or.inr hu
  have hmembers : ∀ {d : String} {ch : Channel}, st.channel d = some ch → st.members d = ch.users :=
    fun found => by rw [AppState.members, channelOrNew_of_channel found]
  cases h with
  | refused | read | created => exact Or.inl member
  | joined u' c' _ valid new =>
    rcases hset member with ⟨rfl, hu⟩ | hu
    · rcases Finset.mem_insert.mp hu with rfl | hu
      · exact Or.inr rfl
      · exact Or.inl hu
    · exact Or.inl hu
  | left u' c' _ ch found erased =>
    rcases hset member with ⟨rfl, hu⟩ | hu
    · rw [hmembers found]
      exact Or.inl (Finset.mem_of_mem_erase hu)
    · exact Or.inl hu
  | appended c' u' t id _ ch next found =>
    rcases hset member with ⟨rfl, hu⟩ | hu
    · rw [hmembers found]
      exact Or.inl hu
    · exact Or.inl hu

theorem advance_member (h : Advance hash σ op stack σ' stack')
    (frames : Frames ((registration hash).frame () σ req op) stack)
    (member : u ∈ (σ'.store s).members c) :
    u ∈ (σ.store s).members c ∨ σ.Registered hash u := by
  rcases advance_store h with hstore | ⟨t, r, st, rest, rfl, locked, rfl⟩ |
    ⟨t, v, r, st, rest, rfl, locked, rfl⟩
  · rw [hstore] at member
    exact Or.inl member
  all_goals
    by_cases hs : s = t
    · subst hs
      rw [setStore_store, Function.update_self] at member
      have heffect : Effect op (σ.store s) r st := by
        first | exact locked_effect locked | exact replicate_effect locked
      rcases effect_member heffect member with hold | hop
      · exact Or.inl hold
      · exact Or.inr (frames.1 u c hop)
    · rw [setStore_store, Function.update_of_ne hs] at member
      exact Or.inl member

/-! ## The invariant -/

/-- What is known of a stack when only crashed servers are marked failed. -/
structure Reliable (hash : String → ℕ) (σ : Servers) (req : ℕ) (op : Op) (stack : List Frame) :
    Prop where
  sound : σ.Sound
  known : Known hash σ req op stack

theorem reliable {condition : Servers → Op → List Frame → Bool} (es : List Event) (w : World)
    (run : Reaches hash (crashStop.where' condition) es w) :
    ∀ j ∈ w.jobs, Reliable hash w.servers j.req j.op j.stack := by
  intro j hj
  constructor
  · exact sound_where run
  · exact known es w run j hj

theorem condition_registered (condition : replicatedUser hash σ (.joinChannel u c) stack = true)
    (top : ∃ rest, stack = .call s .userLocal :: rest ∨ stack = .request s .userExists :: rest)
    (answers : σ.Answers (userOwner hash u) s) (found : u ∈ (σ.store s).users) :
    σ.Registered hash u := by
  refine lookup_registered answers found ?_
  intro hs
  obtain ⟨rest, rfl | rfl⟩ := top <;>
    simpa [replicatedUser, hs, hs ▸ found] using condition

/-- A step takes a join on only as far as its user is known to be registered. -/
theorem advance_joining (h : Advance hash σ (.joinChannel u c) stack σ' stack')
    (known : Reliable hash σ req (.joinChannel u c) stack)
    (condition : replicatedUser hash σ (.joinChannel u c) stack = true)
    (frames : Frames (fun f _ => Joining hash σ u f) stack) :
    Frames (fun f _ => Joining hash σ' u f) stack' := by
  have hrest :
      ∀ {f : Frame} {rest : List Frame}, Frames (fun f _ => Joining hash σ u f) (f :: rest) →
      Frames (fun f _ => Joining hash σ' u f) rest :=
    fun hs => frames_mono (fun _ _ => joining_grows (grows_advance h)) hs.2
  have hkeep : σ.Registered hash u → σ'.Registered hash u := registered_grows (grows_advance h)
  cases h with
  | userAuthority s username rest live user auth =>
    obtain rfl := Option.some.inj user
    exact ⟨owns_answers known.sound (authoritative_iff.mp auth), hrest frames⟩
  | userFound s username rest live user found =>
    obtain rfl := Option.some.inj user
    exact ⟨condition_registered condition ⟨rest, Or.inl rfl⟩ frames.1 found, hrest frames⟩
  | answeredUser s username rest live user =>
    obtain rfl := Option.some.inj user
    refine ⟨?_, hrest frames⟩
    intro hfound
    have found : u ∈ (σ.store s).users := by simpa [DiscordStateops.userExists] using hfound
    exact condition_registered condition ⟨rest, Or.inr rfl⟩ frames.1 found
  | committed s v state rest live locked => exact ⟨hkeep frames.1, hrest frames⟩
  | alone s v config rest live owner alone => exact ⟨fun _ => frames.1, hrest frames⟩
  | sent s pc dest request wait rest live sends alive =>
    cases sends with
    | user username dest user located =>
      obtain rfl := Option.some.inj user
      exact ⟨located_answers known.sound located, trivial, hrest frames⟩
    | replicate v config owner other alive => exact ⟨frames.1, frames.1, hrest frames⟩
    | forward config dest owner located => exact ⟨trivial, trivial, hrest frames⟩
    | poll all p peers => exact ⟨trivial, trivial, hrest frames⟩
  | unsent s pc dest request wait rest live sends failed =>
    cases sends with
    | replicate v config owner other alive => exact ⟨frames.1, hrest frames⟩
    | _ => exact ⟨trivial, hrest frames⟩
  | replicated s v r state rest live locked unpoisoned =>
    exact ⟨fun _ => hkeep frames.1, hrest frames⟩
  | responded s r caller rest live => exact ⟨frames.1, hrest frames⟩
  | resumed s pc p r rest live awaits =>
    refine ⟨?_, hrest frames.2⟩
    cases resume_cases known.known.1 awaits with
    | user p found =>
      cases found with
      | true => exact frames.1 rfl
      | false => exact fun hr => by cases hr
    | replica | forward => exact frames.1
    | poll => trivial
  | authority s config rest live owner auth | elsewhere s config rest live owner auth
  | checked s rest live checks | polledOwn s peers rest live => exact ⟨trivial, hrest frames⟩
  | refused | userUnknown | rejected | polled | answeredNames =>
    refine ⟨?_, hrest frames⟩
    intro hr
    cases hr
  | unheard | unheardRead | unheardReplica => exact hrest frames
  | _ => exact ⟨trivial, hrest frames⟩

theorem registration_preserved : (registration hash).Preserved hash
    (crashStop.where' (replicatedUser hash)) noTick (Reliable hash) where
  still _ _ _ _ _ _ := rfl
  weaken _ _ _ _ _ _ h := h
  submit _ _ _ _ _ _ _ _ _ := trivial
  reply _ _ _ _ _ _ _ _ _ := trivial
  giveUp _ _ _ _ _ pc _ _ _ _ _ _ awaits _ h u c hop := by
    cases pc with
    | userAwait | awaitForward | awaitPoll => trivial
    | awaitReplica v p => exact fun _ => h u c hop
    | _ => cases awaits
  suspect _ σ s p servers _ _ := registration_carries (grows_suspect σ s p) fun t c u member =>
    registered_grows (grows_suspect σ s p) (servers t c u member)
  crash _ σ s servers _ := registration_carries (grows_crash σ s) fun t c u member =>
    registered_grows (grows_crash σ s) (servers t c u member)
  advance _ σ _ op _ σ' _ servers frames known allowed h := by
    refine ⟨registration_carries (grows_advance h) ?_, ?_⟩
    · intro s c u member
      refine registered_grows (grows_advance h) ?_
      rcases advance_member h frames member with hold | hregistered
      · exact servers s c u hold
      · exact hregistered
    · by_cases hop : ∃ u c, op = .joinChannel u c
      · obtain ⟨u, c, rfl⟩ := hop
        have hjoining := advance_joining h known (by simpa [Policy.where', crashStop] using allowed)
          (frames_mono (fun _ _ hf => hf u c rfl) frames)
        refine frames_mono (fun f _ hf u' c' heq => ?_) hjoining
        cases heq
        exact hf
      · exact frames_of_all (fun _ _ u c heq => absurd ⟨u, c, heq⟩ hop) _

theorem members_registered {es : List Event} {w : World}
    (run : Reaches hash (crashStop.where' (replicatedUser hash)) es w) (s : ServerId) (c : String)
    {u : String} (member : u ∈ (w.servers.store s).members c) : w.servers.Registered hash u := by
  have init : (registration hash).servers () World.init.servers := by
    intro s c u hu
    simp [World.init] at hu
  exact (registration_preserved.holds_init (g := ()) reliable init run).servers s c u member

/-! ## The result -/

/-- No request is in flight: each was answered, or panicked, or ended with its server. -/
def World.Over (w : World) : Prop :=
  ∀ j ∈ w.jobs, j.stack = [] ∨ ∃ s pc, j.stack = [.call s pc] ∧
    (w.servers.crashed s = true ∨ pc = .panicked)

/-- **Channel members are users.** Let no `join_channel` find a user at its primary before the
backup has it. Then, through one crash at any point, the running server that is authoritative for a
member of a channel has the member among its users. -/
theorem members_are_users {es : List Event} {w : World}
    (run : Reaches hash (crashStop.where' (replicatedUser hash)) es w) (s : ServerId) (c : String)
    {u : String} (member : u ∈ (w.servers.store s).members c) :
    (∀ t, w.servers.crashed t = false →
        w.servers.authoritative t (userOwner hash u) = true → u ∈ (w.servers.store t).users) ∧
      w.servers.crashed (w.servers.authority (userOwner hash u)) = false ∧
      u ∈ (w.servers.store (w.servers.authority (userOwner hash u))).users := by
  have hregistered := members_registered run s c member
  have hsound : w.servers.Sound := sound_where run
  have hlive := authority_live hsound.once (userOwner_ne hash u)
  refine ⟨?_, hlive, hregistered _ authority_held hlive⟩
  intro t ht authoritative
  exact hregistered t ((authoritative_iff.mp authoritative).imp_right And.left) ht

/-- `alice` is created and joins `#cs249`, `A` crashes, and the others mark it failed. -/
def joinedAndCrashed : List Event :=
  aliceJoins ++ [.crash .A, .suspect .B .A, .suspect .C .A]

theorem members_are_users_after_crash :
    ∃ w, Reaches (fun _ => 0) (crashStop.where' (replicatedUser fun _ => 0)) joinedAndCrashed w ∧
      w.servers.Settled ∧ w.Over ∧ "alice" ∈ (w.servers.store .B).members "#cs249" ∧
      w.servers.authority (userOwner (fun _ => 0) "alice") = .B ∧
      "alice" ∈ (w.servers.store (w.servers.authority (userOwner (fun _ => 0) "alice"))).users := by
  obtain ⟨w, run, hw⟩ := Run.exec_of_test
    (fun w : World => (∀ j ∈ w.jobs, j.stack = []) ∧ w.servers.Settled ∧
      "alice" ∈ (w.servers.store .B).members "#cs249" ∧
      w.servers.authority (userOwner (fun _ => 0) "alice") = .B)
    (by decide : (outcome (fun _ => 0) (crashStop.where' (replicatedUser fun _ => 0)) .init
      joinedAndCrashed).any _ = true)
  obtain ⟨hstacks, settled, hmember, hauthority⟩ := of_decide_eq_true hw
  have hover : w.Over := fun j hj => Or.inl (hstacks j hj)
  exact ⟨w, run, settled, hover, hmember, hauthority, (members_are_users run .B _ hmember).2.2⟩

/-- `alice` is applied at `A` only when `B` asks for her, and `A` crashes before it replicates
her. -/
def joinedTooSoon : List Event :=
  asks .A (.createUser "alice") 0 2 ++
    asks .B (.joinChannel "alice" "#distributed") 1 10 ++
    [.crash .A, .suspect .B .A, .suspect .C .A]

theorem member_without_user :
    ∃ w, Reaches (fun _ => 0) crashStop joinedTooSoon w ∧ w.servers.Settled ∧ w.Over ∧
      "alice" ∈ (w.servers.store .B).members "#distributed" ∧ w.servers.crashed .B = false ∧
      w.servers.authoritative .B (userOwner (fun _ => 0) "alice") = true ∧
      "alice" ∉ (w.servers.store .B).users := by
  obtain ⟨w, run, hw⟩ := Run.exec_of_test
    (fun w : World => (∀ j ∈ w.jobs, j.stack = [] ∨
        j.stack = [.call .A (.applied .unit)] ∧ w.servers.crashed .A = true) ∧
      w.servers.Settled ∧
      "alice" ∈ (w.servers.store .B).members "#distributed" ∧ w.servers.crashed .B = false ∧
      w.servers.authoritative .B (userOwner (fun _ => 0) "alice") = true ∧
      "alice" ∉ (w.servers.store .B).users)
    (by decide : (outcome (fun _ => 0) crashStop .init joinedTooSoon).any _ = true)
  obtain ⟨hstacks, settled, hmember⟩ := of_decide_eq_true hw
  have hover : w.Over := by
    intro j hj
    rcases hstacks j hj with hstack | ⟨hstack, hcrashed⟩
    · exact Or.inl hstack
    · exact Or.inr ⟨.A, .applied .unit, hstack, Or.inl hcrashed⟩
  exact ⟨w, run, settled, hover, hmember⟩

end MiniDiscord.Cluster
