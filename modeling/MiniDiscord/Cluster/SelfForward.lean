import MiniDiscord.Cluster.Routing

/-!
# No call forwards to its own server

A call decides to forward in one reading of the view and picks the target in another one. The two
agree unless the server marks the primary failed in between, while it is the backup itself.
-/

namespace MiniDiscord.Cluster

open DiscordStateops

variable {hash : String → ℕ} {σ σ' : Servers} {op : Op} {s p dest : ServerId} {pc : Pc}
  {config : LocationConfig} {stack stack' : List Frame} {f : Frame}

/-! ## What a call forwards to -/

/-- Where `forward_request` sends: to the primary if it is alive, else to the backup. -/
def Servers.location (σ : Servers) (s : ServerId) (config : LocationConfig) : ServerId :=
  if σ.view s config.primary then config.primary else config.backup

/-- The owners by whose `forward_request` the call goes on. -/
def Pc.routes (hash : String → ℕ) (op : Op) : Pc → Option LocationConfig
  | .route => op.owner hash
  | .userRoute => op.username?.map (userOwner hash)
  | _ => none

/-- The server that the next step of the call gives to `forward_request_to`. -/
def Servers.forwardsTo (hash : String → ℕ) (σ : Servers) (op : Op) (s : ServerId) (pc : Pc) :
    Option ServerId :=
  match pc with
  | .route | .userRoute => (pc.routes hash op).map (σ.location s)
  | .applied _ => (op.owner hash).bind fun config =>
    if config.backup = s ∨ σ.view s config.backup = false then none else some config.backup
  | .poll _ (p :: _) => some p
  | _ => none

theorem authoritative_false_iff : σ.authoritative s config = false ↔
    s ≠ config.primary ∧ (s = config.backup → σ.view s config.primary = true) := by
  rw [← Bool.not_eq_true, authoritative_iff, Servers.Owns]
  simp

/-- A server without authority has somebody else to forward to. -/
theorem location_ne (h : σ.authoritative s config = false) : σ.location s config ≠ s := by
  obtain ⟨hprimary, hbackup⟩ := authoritative_false_iff.mp h
  unfold Servers.location
  split_ifs with hview
  · exact hprimary.symm
  · rintro rfl
    exact hview (hbackup rfl)

/-- `forwardsTo` says what the step does: `forward_request_to` is called with that server, and
panics if it is the caller's own. -/
theorem stepCall_forwardsTo (h : σ.forwardsTo hash op s pc = some dest)
    (other : ∀ config, pc.routes hash op = some config → s ≠ config.primary) :
    ∃ request wait, σ.stepCall hash op s pc = some (σ, σ.forwardRequestTo s dest request wait) := by
  cases pc with
  | route =>
    obtain ⟨config, howner, rfl⟩ := Option.map_eq_some_iff.mp h
    refine ⟨op.forwardedAs, .awaitForward (σ.location s config), ?_⟩
    have hother := other config howner
    have howner' : op.owner hash = some config := howner
    simp [Servers.stepCall, howner', Servers.forwardRequest, hother, Servers.location]
  | userRoute =>
    obtain ⟨config, huser, rfl⟩ := Option.map_eq_some_iff.mp h
    obtain ⟨username, husername, rfl⟩ := Option.map_eq_some_iff.mp huser
    refine ⟨.userExists, .userAwait (σ.location s (userOwner hash username)), ?_⟩
    have hother := other _ huser
    simp [Servers.stepCall, husername, Servers.forwardRequest, hother, Servers.location]
  | applied v =>
    obtain ⟨config, howner, hdest⟩ := Option.bind_eq_some_iff.mp h
    split_ifs at hdest with halone
    cases hdest
    refine ⟨.replicate v, .awaitReplica v config.backup, ?_⟩
    simp only [Servers.stepCall, howner, Option.bind_eq_bind, Option.bind_some, if_neg halone]
  | poll all peers =>
    cases peers with
    | nil => cases h
    | cons p peers =>
      cases h
      exact ⟨.listNames, .awaitPoll all dest peers, rfl⟩
  | _ => cases h

/-! ## The invariant -/

/-- A call that goes on to `forward_request` is at a server without authority, and a server that
polls its peers does not poll itself. -/
def Elsewhere (hash : String → ℕ) (σ : Servers) (op : Op) : Frame → Prop
  | .call s (.pollOwn peers) | .call s (.poll _ peers) | .call s (.awaitPoll _ _ peers) => s ∉ peers
  | .call s pc => ∀ config, pc.routes hash op = some config → σ.authoritative s config = false
  | _ => True

/-- The frames below are past their decisions: they wait for an answer. -/
structure Decided (hash : String → ℕ) (σ : Servers) (op : Op) (f : Frame) (below : Option Frame) :
    Prop where
  elsewhere : Elsewhere hash σ op f
  waits : ∀ t pc, below = some (.call t pc) → pc.routes hash op = none

def elsewhere (hash : String → ℕ) : Inv Unit where
  servers _ _ := True
  frame _ σ _ op f below := Decided hash σ op f below
  reply _ _ _ := True

theorem elsewhere_view (hview : σ'.view = σ.view) (h : Elsewhere hash σ op f) :
    Elsewhere hash σ' op f := by
  rcases f with ⟨s, pc⟩ | ⟨p, request⟩ | r
  · have hsame : ∀ config, σ'.authoritative s config = σ.authoritative s config := by
      intro config
      rw [Servers.authoritative, Servers.authoritative, hview]
    cases pc with
    | pollOwn | poll | awaitPoll => exact h
    | _ => exact fun config hroutes => (hsame config).trans (h config hroutes)
  · trivial
  · trivial

theorem decided_view (hview : σ'.view = σ.view) {below : Option Frame}
    (h : Decided hash σ op f below) : Decided hash σ' op f below :=
  ⟨elsewhere_view hview h.elsewhere, h.waits⟩

theorem forwardsTo_ne (h : Elsewhere hash σ op (.call s pc))
    (forwards : σ.forwardsTo hash op s pc = some dest) : dest ≠ s := by
  cases pc with
  | route | userRoute =>
    obtain ⟨config, hroutes, rfl⟩ := Option.map_eq_some_iff.mp forwards
    exact location_ne (h config hroutes)
  | applied v =>
    obtain ⟨config, -, hdest⟩ := Option.bind_eq_some_iff.mp forwards
    split_ifs at hdest with halone
    cases hdest
    exact fun hs => halone (Or.inl hs)
  | poll all peers =>
    cases peers with
    | nil => cases forwards
    | cons p peers =>
      cases forwards
      exact (List.ne_of_not_mem_cons h).symm
  | _ => cases forwards

theorem elsewhere_resume (awaits : pc.awaits = some p) (r : StateResult Value)
    (h : Elsewhere hash σ op (.call s pc)) : Elsewhere hash σ op (.call s (pc.resume r)) := by
  cases pc with
  | awaitReplica | awaitForward => exact fun _ hroutes => by cases hroutes
  | userAwait =>
    rcases r with e | v
    · exact nofun
    · rcases v with _ | found | _ | _ | _ | _
      case found => cases found <;> exact nofun
      all_goals exact nofun
  | awaitPoll all q peers =>
    rcases r with e | v
    · exact nofun
    · cases v with
      | names more => exact h
      | _ => exact nofun
  | _ => cases awaits

theorem elsewhere_sends {request : Request} {wait : Pc}
    (sends : Sends hash σ op s pc dest request wait) (h : Elsewhere hash σ op (.call s pc)) :
    Elsewhere hash σ op (.call s wait) ∧ wait.routes hash op = none := by
  cases sends with
  | poll all p peers => exact ⟨List.not_mem_of_not_mem_cons h, rfl⟩
  | user | replicate | forward => exact ⟨nofun, rfl⟩

/-- Calls take steps and servers crash, and no view changes. -/
def unsuspecting : Policy := { anyFailure with suspect := fun _ _ => false }

theorem elsewhere_preserved :
    (elsewhere hash).Preserved hash unsuspecting noTick fun _ _ _ _ => True where
  still _ _ _ _ _ _ := rfl
  weaken _ _ _ _ _ _ h := ⟨h.elsewhere, nofun⟩
  submit _ _ _ _ _ _ := ⟨nofun, nofun⟩
  reply _ _ _ _ _ _ _ _ _ := trivial
  suspect _ _ _ _ _ _ allowed := by cases allowed
  crash _ _ _ _ _ :=
    ⟨trivial, fun _ _ _ _ h => ⟨elsewhere_view rfl h.elsewhere, h.waits⟩, fun _ => id⟩
  giveUp _ _ _ _ _ pc _ _ _ _ _ _ awaits _ h := by
    refine ⟨?_, h.waits⟩
    cases pc with
    | userAwait | awaitReplica | awaitForward => exact nofun
    | awaitPoll => exact h.elsewhere
    | _ => cases awaits
  advance _ σ _ op stack σ' stack' _ hs _ _ h := by
    have hview := (advance_view h).1
    refine ⟨⟨trivial, fun _ _ _ _ => decided_view hview, fun _ => id⟩, ?_⟩
    have hrest : ∀ {f rest}, Frames (Decided hash σ op) (f :: rest) →
        Frames (Decided hash σ' op) rest :=
      fun hs => frames_mono (fun _ _ => decided_view hview) hs.2
    cases h with
    | elsewhere s config rest live owner auth =>
      refine ⟨⟨fun config' hroutes => ?_, hs.1.waits⟩, hrest hs⟩
      obtain rfl := owner_unique owner hroutes
      exact auth
    | userElsewhere s username rest live user auth =>
      refine ⟨⟨fun config' hroutes => ?_, hs.1.waits⟩, hrest hs⟩
      simp only [Pc.routes, user, Option.map_some, Option.some.injEq] at hroutes
      exact hroutes ▸ auth
    | polls s rest live owner =>
      have hself : s ∉ σ.alivePeers s := by simp [Servers.alivePeers]
      exact ⟨⟨hself, hs.1.waits⟩, hrest hs⟩
    | polledOwn s peers rest live => exact ⟨⟨hs.1.elsewhere, hs.1.waits⟩, hrest hs⟩
    | authority s config rest =>
      exact ⟨⟨by cases op <;> exact nofun, hs.1.waits⟩, hrest hs⟩
    | committed s v state rest =>
      exact ⟨⟨by split_ifs <;> exact nofun, hs.1.waits⟩, hrest hs⟩
    | sent s pc dest request wait rest live sends =>
      obtain ⟨hwait, hroutes⟩ := elsewhere_sends sends hs.1.elsewhere
      refine ⟨⟨trivial, fun t pc' hbelow => ?_⟩, ⟨hwait, hs.1.waits⟩, hrest hs⟩
      cases hbelow
      exact hroutes
    | unsent s pc dest request wait rest live sends =>
      exact ⟨⟨(elsewhere_sends sends hs.1.elsewhere).1, hs.1.waits⟩, hrest hs⟩
    | responded s r caller rest => exact ⟨⟨trivial, hs.1.waits⟩, hrest hs⟩
    | answeredUser | answeredNames | replicated => exact ⟨⟨trivial, hs.1.waits⟩, hrest hs⟩
    | unheard | unheardRead | unheardReplica => exact hrest hs
    | resumed s pc p r rest live awaits =>
      exact ⟨⟨elsewhere_resume awaits r hs.2.1.elsewhere, hs.2.1.waits⟩, hrest hs.2⟩
    | _ => exact ⟨⟨nofun, hs.1.waits⟩, hrest hs⟩

/-! ## Runs -/

/-- A call of `s` decided to forward as the backup of a key with primary `p`, and has not picked
the target yet. -/
def World.deciding (hash : String → ℕ) (w : World) (s p : ServerId) : Bool :=
  w.jobs.any fun j => match j.stack with
    | .call t pc :: _ => t = s && pc.routes hash j.op = some ⟨p, s⟩
    | _ => false

/-- No server marks the primary failed while one of its calls is between the two readings. -/
def steady (hash : String → ℕ) (w : World) : Event → Bool
  | .suspect s p => !w.deciding hash s p
  | _ => true

theorem deciding_iff {w : World} : w.deciding hash s p = true ↔
    ∃ j ∈ w.jobs, ∃ pc rest, j.stack = .call s pc :: rest ∧ pc.routes hash j.op = some ⟨p, s⟩ := by
  rw [World.deciding, List.any_eq_true]
  constructor
  · rintro ⟨j, hj, h⟩
    split at h
    · rename_i t pc rest hstack
      simp only [Bool.and_eq_true, decide_eq_true_eq] at h
      exact ⟨j, hj, pc, rest, h.1 ▸ hstack, h.2⟩
    · cases h
  · rintro ⟨j, hj, pc, rest, hstack, hroutes⟩
    exact ⟨j, hj, by simp [hstack, hroutes]⟩

/-- A change of the view can only mislead the call on top. -/
theorem decided_top {rest : List Frame} (h : Frames (Decided hash σ op) (f :: rest))
    (top : Elsewhere hash σ' op f) : Frames (Decided hash σ' op) (f :: rest) := by
  induction rest generalizing f with
  | nil => exact ⟨⟨top, nofun⟩, trivial⟩
  | cons g rest ih =>
    obtain ⟨hf, hrest⟩ := h
    refine ⟨⟨top, hf.waits⟩, ih hrest ?_⟩
    have hg : Elsewhere hash σ op g := hrest.1.elsewhere
    rcases g with ⟨t, pc⟩ | ⟨p, request⟩ | r
    · have hnone : pc.routes hash op = none := hf.waits t pc rfl
      cases pc with
      | pollOwn | poll | awaitPoll => exact hg
      | _ => exact fun config hroutes => by rw [hnone] at hroutes; cases hroutes
    · trivial
    · trivial

theorem elsewhere_suspect (h : Elsewhere hash σ op f)
    (undecided : ∀ pc, f = .call s pc → pc.routes hash op ≠ some ⟨p, s⟩) :
    Elsewhere hash (σ.suspect s p) op f := by
  rcases f with ⟨t, pc⟩ | ⟨q, request⟩ | r
  · have hroutes : ∀ config, pc.routes hash op = some config → σ.authoritative t config = false →
        (σ.suspect s p).authoritative t config = false := by
      intro config hroutes hauth
      obtain ⟨hprimary, hbackup⟩ := authoritative_false_iff.mp hauth
      refine authoritative_false_iff.mpr ⟨hprimary, fun ht => ?_⟩
      rw [suspect_view, if_neg]
      · exact hbackup ht
      · rintro ⟨rfl, rfl⟩
        exact undecided pc rfl (by rw [hroutes, ht])
    cases pc with
    | pollOwn | poll | awaitPoll => exact h
    | _ => exact fun config hconfig => hroutes config hconfig (h config hconfig)
  · trivial
  · trivial

theorem elsewhere_step {w w' : World} {e : Event} (h : (elsewhere hash).Holds () w)
    (allowed : steady hash w e = true) (taken : w.step hash e = some w') :
    (elsewhere hash).Holds () w' := by
  by_cases hsuspect : ∃ s p, e = .suspect s p
  · obtain ⟨s, p, rfl⟩ := hsuspect
    have hundecided : w.deciding hash s p ≠ true := by simpa [steady] using allowed
    cases step_cases taken with
    | suspected _ _ other live =>
      refine ⟨trivial, fun j hj => ?_, fun _ _ => trivial⟩
      have hframes : Frames (Decided hash w.servers j.op) j.stack := h.jobs j hj
      cases hstack : j.stack with
      | nil => trivial
      | cons f rest =>
        rw [hstack] at hframes
        refine decided_top hframes (elsewhere_suspect hframes.1.elsewhere ?_)
        rintro pc rfl hroutes
        exact hundecided (deciding_iff.mpr ⟨j, hj, pc, rest, hstack, hroutes⟩)
  · refine Inv.step_holds elsewhere_preserved h (fun _ _ => trivial) ?_ taken
    cases e with
    | suspect s p => exact absurd ⟨s, p, rfl⟩ hsuspect
    | advance i => simp [Policy.allows, unsuspecting, anyFailure]
    | _ => rfl

/-- **Nobody forwards to itself**, in every run in which no server marks the primary of a key failed
while one of its own calls, as the backup, is between deciding to forward and picking the target. -/
theorem forwards_elsewhere {es : List Event} {w : World}
    (run : Run.Exec (World.step hash) (fun w e => steady hash w e = true) World.init es w)
    {j : Job} (job : j ∈ w.jobs) {rest : List Frame} (stack : j.stack = .call s pc :: rest)
    (forwards : w.servers.forwardsTo hash j.op s pc = some dest) :
    s ≠ dest ∧ ∃ request wait, w.servers.stepCall hash j.op s pc =
      some (w.servers, w.servers.forwardRequestTo s dest request wait) := by
  have hholds : (elsewhere hash).Holds () w :=
    run.invariant (P := (elsewhere hash).Holds ())
      ⟨trivial, by simp [World.init], by simp [World.init]⟩
      fun m e m' h allowed taken => elsewhere_step h allowed taken
  have hframes : Frames (Decided hash w.servers j.op) j.stack := hholds.jobs j job
  rw [stack] at hframes
  have htop : Elsewhere hash w.servers j.op (.call s pc) := hframes.1.elsewhere
  refine ⟨(forwardsTo_ne htop forwards).symm, stepCall_forwardsTo forwards ?_⟩
  intro config hroutes
  cases pc with
  | route | userRoute => exact (authoritative_false_iff.mp (htop config hroutes)).1
  | _ => cases hroutes

/-- A view that changes between the two readings sends the call to its own server. -/
theorem unsteady_self {w w' : World} (taken : w.step hash (.suspect s p) = some w')
    (h : steady hash w (.suspect s p) = false) :
    ∃ j ∈ w'.jobs, ∃ pc rest, j.stack = .call s pc :: rest ∧
      w'.servers.forwardsTo hash j.op s pc = some s := by
  have hdeciding : w.deciding hash s p = true := by simpa [steady] using h
  obtain ⟨j, hj, pc, rest, hstack, hroutes⟩ := deciding_iff.mp hdeciding
  cases step_cases taken with
  | suspected _ _ other live =>
    refine ⟨j, hj, pc, rest, hstack, ?_⟩
    have hlocation : (w.servers.suspect s p).location s ⟨p, s⟩ = s := by
      simp [Servers.location, suspect_view]
    cases pc with
    | route | userRoute =>
      rw [Servers.forwardsTo, hroutes, Option.map_some, hlocation]
    | _ => cases hroutes

/-- `B` decides to forward to `A`, and marks it failed before it picks the target. -/
def lateSuspicion : List Event := asks .B (.createUser "alice") 0 1 ++ [.suspect .B .A]

def selfForwarding : Job := ⟨0, .createUser "alice", .B, true, [.call .B .route]⟩

theorem forwards_to_itself :
    ∃ w, Reaches (fun _ => 0) anyFailure lateSuspicion w ∧ selfForwarding ∈ w.jobs ∧
      w.servers.forwardsTo (fun _ => 0) (.createUser "alice") .B .route = some .B ∧
      ∃ w', w.step (fun _ => 0) (.advance 0) = some w' ∧
        { selfForwarding with stack := [.call .B .panicked] } ∈ w'.jobs := by
  obtain ⟨w, run, hw⟩ := Run.exec_of_test
    (fun w : World => selfForwarding ∈ w.jobs ∧
      w.servers.forwardsTo (fun _ => 0) (.createUser "alice") .B .route = some .B ∧
      (w.step (fun _ => 0) (.advance 0)).any fun w' =>
        { selfForwarding with stack := [.call .B .panicked] } ∈ w'.jobs)
    (by decide : (outcome (fun _ => 0) anyFailure .init lateSuspicion).any _ = true)
  obtain ⟨hjob, hforwards, hpanics⟩ := of_decide_eq_true hw
  obtain ⟨w', hstep, hpanicked⟩ := (Option.any_eq_true _ _).mp hpanics
  exact ⟨w, run, hjob, hforwards, w', hstep, of_decide_eq_true hpanicked⟩

theorem forwards_elsewhere_early :
    ∃ w, Run.Exec (World.step fun _ => 0) (fun w e => steady (fun _ => 0) w e = true) World.init
        (asks .B (.createUser "alice") 0 1) w ∧ selfForwarding ∈ w.jobs ∧
      w.servers.forwardsTo (fun _ => 0) (.createUser "alice") .B .route = some .A ∧
      ServerId.B ≠ .A := by
  obtain ⟨w, run, hw⟩ := Run.exec_of_test
    (fun w : World => selfForwarding ∈ w.jobs ∧
      w.servers.forwardsTo (fun _ => 0) (.createUser "alice") .B .route = some .A)
    (by decide : (Run.run (World.step fun _ => 0) (fun w e => steady (fun _ => 0) w e = true)
      World.init (asks .B (.createUser "alice") 0 1)).any _ = true)
  obtain ⟨hjob, hforwards⟩ := of_decide_eq_true hw
  exact ⟨w, run, hjob, hforwards, (forwards_elsewhere run hjob rfl hforwards).1⟩

end MiniDiscord.Cluster
