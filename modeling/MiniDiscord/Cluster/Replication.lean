import MiniDiscord.Cluster.Routing

/-!
# The rule for replicated operations

From the commit at an owner to the answer to the client, a replicated operation goes through a few
stages, wherever its messages are. An invariant that says what holds at each stage is kept by every
step once it is kept from one stage to the next.
-/

namespace MiniDiscord.Cluster

open DiscordStateops

/-- Where a replicated operation with result `v` stands. -/
inductive Stage
  /-- done locally at `s` -/
  | applied (s : ServerId) (v : Value)
  /-- the primary waits for the backup -/
  | awaiting (v : Value)
  /-- the replicate request is on its way -/
  | requested (v : Value)
  /-- the backup answered ok with `v'` to the request for `v` -/
  | answered (v v' : Value)
  /-- the caller gets ok with `v` -/
  | acked (v : Value)

def Frame.stage : Frame → Option Frame → Option Stage
  | .call s (.applied v), _ => some (.applied s v)
  | .call _ (.awaitReplica v _), _ => some (.awaiting v)
  | .call _ (.done (.ok v)), _ => some (.acked v)
  | .request _ (.replicate v), _ => some (.requested v)
  | .response (.ok v'), some (.call _ (.awaitReplica v _)) => some (.answered v v')
  | .response (.ok v), some (.call _ (.awaitForward _)) => some (.acked v)
  | _, _ => none

/-- What holds of the servers, and of each operation at each stage. -/
structure Stages (γ : Type*) where
  servers : γ → Servers → Prop
  stage : γ → Servers → ℕ → Op → LocationConfig → Stage → Prop

namespace Stages

variable {γ : Type*}

def inv (S : Stages γ) (hash : String → ℕ) : Inv γ where
  servers := S.servers
  frame g σ req op f below := op.replicated = true → ∀ config, op.owner hash = some config →
    ∀ x, f.stage below = some x → S.stage g σ req op config x
  reply g σ r := r.op.replicated = true → ∀ config, r.op.owner hash = some config →
    ∀ v, r.result = .ok v → S.stage g σ r.req r.op config (.acked v)

/-- The obligations. `order` says how a history variable may change while the servers are as they
are, and `K` is what is known of every stack already. -/
structure Preserved (S : Stages γ) (hash : String → ℕ) (policy : Policy) (tick : Tick γ)
    (K : Servers → ℕ → Op → List Frame → Prop) (order : Servers → γ → γ → Prop) : Prop where
  known : ∀ σ req op stack, K σ req op stack → Known hash σ req op stack
  still : ∀ g σ req op s r, tick g σ req op [.call s (.done r)] σ = g
  refl : ∀ σ g, order σ g g
  grow : ∀ g g' σ σ' req op config x, op.owner hash = some config → order σ g g' → σ.Grows σ' →
    S.stage g σ req op config x → S.stage g' σ' req op config x
  advance : ∀ g σ req op stack σ' stack', S.servers g σ →
    Frames ((S.inv hash).frame g σ req op) stack → K σ req op stack →
    policy.advance σ op stack = true → Advance hash σ op stack σ' stack' →
    order σ g (tick g σ req op stack σ') ∧ S.servers (tick g σ req op stack σ') σ'
  suspect : ∀ g σ s p, S.servers g σ → s ≠ p → policy.suspect σ p = true →
    S.servers g (σ.suspect s p)
  crash : ∀ g σ s, S.servers g σ → policy.crash σ = true → S.servers g (σ.crash s)
  commit : ∀ g σ req op config s v st rest, op.replicated = true → op.owner hash = some config →
    S.servers g σ → K σ req op (.call s .commit :: rest) →
    policy.advance σ op (.call s .commit :: rest) = true → σ.crashed s = false →
    σ.poisoned s = false → σ.Owns config s → op.locked (σ.store s) = some (.ok v, st) →
    S.stage (tick g σ req op (.call s .commit :: rest) (σ.setStore s st)) (σ.setStore s st) req op
      config (.applied s v)
  alone : ∀ g σ req op config s v, op.replicated = true → op.owner hash = some config →
    S.servers g σ → σ.Owns config s → config.backup = s ∨ σ.view s config.backup = false →
    S.stage g σ req op config (.applied s v) → S.stage g σ req op config (.acked v)
  send : ∀ g σ req op config v, op.replicated = true → op.owner hash = some config →
    S.stage g σ req op config (.applied config.primary v) →
    S.stage g σ req op config (.awaiting v) ∧ S.stage g σ req op config (.requested v)
  answer : ∀ g σ req op config v v' st rest, op.replicated = true → op.owner hash = some config →
    S.servers g σ →
    K σ req op (.request config.backup (.replicate v) ::
      .call config.primary (.awaitReplica v config.backup) :: rest) →
    policy.advance σ op (.request config.backup (.replicate v) ::
      .call config.primary (.awaitReplica v config.backup) :: rest) = true →
    σ.crashed config.backup = false → σ.view config.backup config.primary = true →
    S.stage g σ req op config (.requested v) →
    op.replicateLocked v (σ.store config.backup) = some (.ok v', st) →
    S.stage (tick g σ req op (.request config.backup (.replicate v) ::
      .call config.primary (.awaitReplica v config.backup) :: rest) (σ.setStore config.backup st))
      (σ.setStore config.backup st) req op config (.answered v v')
  finish : ∀ g σ req op config v v', op.replicated = true → op.owner hash = some config →
    S.servers g σ → σ.crashed config.primary = false → S.stage g σ req op config (.awaiting v) →
    S.stage g σ req op config (.answered v v') → S.stage g σ req op config (.acked v')
  giveUp : ∀ g σ req op config v, op.replicated = true → op.owner hash = some config →
    S.servers g σ → σ.crashed config.primary = false →
    σ.view config.primary config.backup = false → S.stage g σ req op config (.awaiting v) →
    S.stage g σ req op config (.acked v)

variable {S : Stages γ} {hash : String → ℕ} {policy : Policy} {tick : Tick γ}
  {K : Servers → ℕ → Op → List Frame → Prop} {order : Servers → γ → γ → Prop} {g g' : γ}
    {σ σ' : Servers}
  {req : ℕ} {op : Op}

theorem frame_none {f : Frame} {below : Option Frame} (h : f.stage below = none) :
    (S.inv hash).frame g σ req op f below := fun _ _ _ x hx => by simp [h] at hx

theorem frame_some {f : Frame} {below : Option Frame} {x : Stage} (hx : f.stage below = some x)
    (h : op.replicated = true → ∀ config, op.owner hash = some config →
      S.stage g σ req op config x) :
    (S.inv hash).frame g σ req op f below := fun hop config howner x' hx' => by
  obtain rfl : x = x' := Option.some.inj (hx.symm.trans hx')
  exact h hop config howner

theorem stage_weaken {f below : Frame} {x : Stage} (h : f.stage none = some x) :
    f.stage (some below) = some x := by
  rcases f with ⟨s, pc⟩ | ⟨p, request⟩ | r
  · cases pc with
    | done r => cases r <;> exact h
    | _ => exact h
  · cases request <;> exact h
  · rcases r with _ | _ <;> cases h

theorem stage_response {r : StateResult Value} {below : Option Frame} {x : Stage}
    (h : (Frame.response r).stage below = some x) :
    ∃ v' t, r = .ok v' ∧
      ((∃ v p, below = some (.call t (.awaitReplica v p)) ∧ x = .answered v v') ∨
        ∃ p, below = some (.call t (.awaitForward p)) ∧ x = .acked v') := by
  rcases r with e | v'
  · rcases below with _ | ⟨t, pc⟩ | _ | _ <;> cases h
  rcases below with _ | ⟨t, pc⟩ | _ | _
  · cases h
  · cases pc with
    | awaitReplica v p => exact ⟨v', t, rfl, Or.inl ⟨v, p, rfl, (Option.some.inj h).symm⟩⟩
    | awaitForward p => exact ⟨v', t, rfl, Or.inr ⟨p, rfl, (Option.some.inj h).symm⟩⟩
    | _ => cases h
  · cases h
  · cases h

theorem Preserved.carries (pres : S.Preserved hash policy tick K order) (ho : order σ g g')
    (grows : σ.Grows σ') (servers : S.servers g' σ') : (S.inv hash).Carries g σ g' σ' :=
  ⟨servers, fun _ _ _ _ hf hop config howner x hx =>
      pres.grow _ _ _ _ _ _ _ _ howner ho grows (hf hop config howner x hx),
    fun _ hr hop config howner v hv =>
      pres.grow _ _ _ _ _ _ _ _ howner ho grows (hr hop config howner v hv)⟩

/-! ## One step, stage by stage -/

theorem Preserved.frame_committed (pres : S.Preserved hash policy tick K order) {s : ServerId}
    {v : Value} {st : AppState} {rest : List Frame} (servers : S.servers g σ)
    (hK : K σ req op (.call s .commit :: rest))
    (allowed : policy.advance σ op (.call s .commit :: rest) = true) (live : σ.crashed s = false)
    (unpoisoned : σ.poisoned s = false) (locked : op.locked (σ.store s) = some (.ok v, st)) :
    (S.inv hash).frame (tick g σ req op (.call s .commit :: rest) (σ.setStore s st))
      (σ.setStore s st) req op (.call s (if op.replicated then .applied v else .done (.ok v)))
      rest.head? := by
  split_ifs with hop
  · refine frame_some rfl fun _ config howner => ?_
    obtain ⟨config', howner', howns⟩ := (pres.known _ _ _ _ hK).1.routed rfl
    obtain rfl := owner_unique howner howner'
    exact pres.commit _ _ _ _ _ _ _ _ _ hop howner servers hK allowed live unpoisoned howns
      locked
  · exact fun hop' => absurd hop' hop

theorem Preserved.frame_alone (pres : S.Preserved hash policy tick K order) {s : ServerId}
    {v : Value} {below : Option Frame} {config : LocationConfig} (servers : S.servers g σ)
    (placed : Placed hash σ op (.call s (.applied v)) below) (owner : op.owner hash = some config)
    (alone : config.backup = s ∨ σ.view s config.backup = false)
    (frame : (S.inv hash).frame g σ req op (.call s (.applied v)) below) :
    (S.inv hash).frame g σ req op (.call s (.done (.ok v))) below := by
  refine frame_some rfl fun hop config' howner => ?_
  obtain rfl := owner_unique owner howner
  obtain ⟨config', howner', howns⟩ := placed.routed rfl
  obtain rfl := owner_unique owner howner'
  exact pres.alone _ _ _ _ _ _ _ hop owner servers howns alone (frame hop config owner _ rfl)

theorem Preserved.frames_sent (pres : S.Preserved hash policy tick K order) {s dest : ServerId}
    {pc wait : Pc} {request : Request} {below : Option Frame}
    (placed : Placed hash σ op (.call s pc) below) (sends : Sends hash σ op s pc dest request wait)
    (frame : (S.inv hash).frame g σ req op (.call s pc) below) :
    (S.inv hash).frame g σ req op (.request dest request) (some (.call s wait)) ∧
      (S.inv hash).frame g σ req op (.call s wait) below := by
  cases sends with
  | replicate v config owner other alive =>
    obtain ⟨config', howner', howns⟩ := placed.routed rfl
    obtain rfl := owner_unique owner howner'
    obtain rfl : s = config.primary := howns.resolve_right fun hb => other hb.1
    have hsend := fun hop => pres.send _ _ _ _ _ _ hop owner (frame hop config owner _ rfl)
    constructor
    · refine frame_some rfl fun hop config' howner => ?_
      obtain rfl := owner_unique owner howner
      exact (hsend hop).2
    · refine frame_some rfl fun hop config' howner => ?_
      obtain rfl := owner_unique owner howner
      exact (hsend hop).1
  | forward config dest owner located => exact ⟨frame_none (by cases op <;> rfl), frame_none rfl⟩
  | user | poll => exact ⟨frame_none rfl, frame_none rfl⟩

/-- An answer to `user_exists` goes to no call of a replicated operation that would pass it on. -/
theorem frame_found {s : ServerId} {found : Bool} {below : Option Frame}
    (placed : Placed hash σ op (.request s .userExists) below) :
    (S.inv hash).frame g σ req op (.response (.ok (.found found))) below := by
  intro hop config howner x hx
  obtain ⟨v', t, -, ⟨v, p, hbelow, -⟩ | ⟨p, hbelow, -⟩⟩ := stage_response hx
  · rcases placed.fits _ hbelow with hpc | ⟨hpc, -⟩ <;> cases hpc
  · rcases placed.fits _ hbelow with hpc | ⟨-, hforwarded⟩
    · cases hpc
    · cases op with
      | userExists => cases hop
      | _ => cases hforwarded

theorem frame_names {s : ServerId} {all : Multiset String} {below : Option Frame}
    (placed : Placed hash σ op (.request s .listNames) below) :
    (S.inv hash).frame g σ req op (.response (.ok (.names all))) below := by
  intro hop config howner x hx
  obtain ⟨v', t, -, ⟨v, p, hbelow, -⟩ | ⟨p, hbelow, -⟩⟩ := stage_response hx <;>
  · obtain ⟨all, peers, hpc⟩ := placed.fits _ hbelow
    cases hpc

theorem Preserved.frame_replicated (pres : S.Preserved hash policy tick K order) {s : ServerId}
    {v : Value} {r : StateResult Value} {st : AppState} {rest : List Frame}
    (servers : S.servers g σ) (hK : K σ req op (.request s (.replicate v) :: rest))
    (allowed : policy.advance σ op (.request s (.replicate v) :: rest) = true)
    (live : σ.crashed s = false) (locked : op.replicateLocked v (σ.store s) = some (r, st))
    (heard : σ.heard s rest = true)
    (frame : (S.inv hash).frame g σ req op (.request s (.replicate v)) rest.head?) :
    (S.inv hash).frame (tick g σ req op (.request s (.replicate v) :: rest) (σ.setStore s st))
      (σ.setStore s st) req op (.response r) rest.head? := by
  have known := pres.known _ _ _ _ hK
  intro hop config howner x hx
  obtain ⟨v', t, rfl, ⟨v₁, p, hbelow, rfl⟩ | ⟨p, hbelow, rfl⟩⟩ := stage_response hx
  · obtain ⟨rfl, rfl⟩ := Pc.awaitReplica.inj (known.1.fits _ hbelow)
    obtain ⟨rest, rfl⟩ : ∃ lower, rest = .call t (.awaitReplica v₁ p) :: lower := by
      cases rest with
      | nil => cases hbelow
      | cons f lower => exact ⟨lower, by rw [Option.some.inj hbelow]⟩
    obtain ⟨config', howner', rfl, rfl⟩ := known.2.1.routed
    obtain rfl := owner_unique howner howner'
    exact pres.answer _ _ _ _ _ _ _ _ _ hop howner servers hK allowed live heard
      (frame hop config howner _ rfl) locked
  · cases known.1.fits _ hbelow

theorem frame_responded {s : ServerId} {r : StateResult Value} {below : Option Frame}
    (placed : Placed hash σ op (.call s (.done r)) below)
    (frame : (S.inv hash).frame g σ req op (.call s (.done r)) below) :
    (S.inv hash).frame g σ req op (.response r) below := by
  intro hop config howner x hx
  obtain ⟨v', t, rfl, ⟨v, p, hbelow, rfl⟩ | ⟨p, hbelow, rfl⟩⟩ := stage_response hx
  · rcases placed.fits _ hbelow with hpc | ⟨⟨q, hpc⟩, -⟩ <;> cases hpc
  · exact frame hop config howner _ rfl

theorem Preserved.frame_resumed (pres : S.Preserved hash policy tick K order) {s p : ServerId}
    {pc : Pc} {r : StateResult Value} {below : Option Frame} (servers : S.servers g σ)
    (live : σ.crashed s = false) (awaits : pc.awaits = some p)
    (answer : Placed hash σ op (.response r) (some (.call s pc)))
    (placed : Placed hash σ op (.call s pc) below)
    (frame : (S.inv hash).frame g σ req op (.response r) (some (.call s pc)))
    (caller : (S.inv hash).frame g σ req op (.call s pc) below) :
    (S.inv hash).frame g σ req op (.call s (pc.resume r)) below := by
  intro hop config howner x hx
  cases resume_cases answer awaits with
  | user p found => cases found <;> cases hx
  | poll => cases hx
  | forward p =>
    rcases r with e | v
    · cases hx
    · cases hx
      exact frame hop config howner _ rfl
  | replica v p =>
    rcases r with e | v'
    · cases hx
    · cases hx
      obtain ⟨config', howner', rfl, rfl⟩ := placed.routed
      obtain rfl := owner_unique howner howner'
      exact pres.finish _ _ _ _ _ _ _ hop howner servers live (caller hop config howner _ rfl)
        (frame hop config howner _ rfl)

theorem Preserved.frames (pres : S.Preserved hash policy tick K order) {stack stack' : List Frame}
    (h : Advance hash σ op stack σ' stack') (servers : S.servers g σ)
    (frame : Frames ((S.inv hash).frame g σ req op) stack) (hK : K σ req op stack)
    (allowed : policy.advance σ op stack = true) :
    Frames ((S.inv hash).frame (tick g σ req op stack σ') σ' req op) stack' := by
  have known := pres.known σ req op stack hK
  have hcarries := pres.carries (pres.advance _ _ _ _ _ _ _ servers frame hK allowed h).1
    (grows_advance h) (pres.advance _ _ _ _ _ _ _ servers frame hK allowed h).2
  have hmono : ∀ {rest : List Frame}, Frames ((S.inv hash).frame g σ req op) rest →
      Frames ((S.inv hash).frame (tick g σ req op stack σ') σ' req op) rest :=
    frames_mono (hcarries.frame req op)
  cases h with
  | authority s config rest live owner auth =>
    exact ⟨frame_none (by cases op <;> rfl), hmono frame.2⟩
  | elsewhere | polls | checked | refused | userAuthority | userElsewhere | userFound
  | userUnknown | rejected | polledOwn | panic | started | handlerPanic =>
    exact ⟨frame_none rfl, hmono frame.2⟩
  | committed s v state rest live locked unpoisoned =>
    exact ⟨pres.frame_committed servers hK allowed live unpoisoned locked, hmono frame.2⟩
  | alone s v config rest live owner alone =>
    exact hmono ⟨pres.frame_alone servers known.1 owner alone frame.1, frame.2⟩
  | sent s pc dest request wait rest live sends alive =>
    obtain ⟨hrequest, hwait⟩ := pres.frames_sent known.1 sends frame.1
    exact hmono ⟨hrequest, hwait, frame.2⟩
  | unsent s pc dest request wait rest live sends failed =>
    exact hmono ⟨(pres.frames_sent known.1 sends frame.1).2, frame.2⟩
  | polled s all rest live =>
    refine ⟨fun _ config howner => ?_, hmono frame.2⟩
    have hnone : op.owner hash = none := known.1.routed
    simp [hnone] at howner
  | answeredUser s username rest live user => exact hmono ⟨frame_found known.1, frame.2⟩
  | answeredNames s rest live => exact hmono ⟨frame_names known.1, frame.2⟩
  | replicated s v r state rest live locked unpoisoned heard =>
    exact ⟨pres.frame_replicated servers hK allowed live locked heard frame.1, hmono frame.2⟩
  | responded s r caller rest live => exact hmono ⟨frame_responded known.1 frame.1, frame.2⟩
  | unheard | unheardRead | unheardReplica => exact hmono frame.2
  | resumed s pc p r rest live awaits =>
    exact hmono ⟨pres.frame_resumed servers live awaits known.1 known.2.1 frame.1 frame.2.1,
      frame.2.2⟩

theorem Preserved.inv (pres : S.Preserved hash policy tick K order) :
    (S.inv hash).Preserved hash policy tick K where
  still := pres.still
  weaken g σ req op f below h hop config howner x hx := h hop config howner x (stage_weaken hx)
  submit _ _ _ _ _ _ := frame_none rfl
  reply g σ req op s r servers live h hop config howner v hr := by
    subst hr
    exact h hop config howner _ rfl
  giveUp g σ req op s pc p upper lower servers hK live awaits failed h := by
    cases pc with
    | awaitReplica v q =>
      obtain rfl : q = p := Option.some.inj awaits
      obtain ⟨config', howner', rfl, rfl⟩ := (frames_lower (pres.known _ _ _ _ hK)).1.routed
      refine frame_some rfl fun hop config howner => ?_
      obtain rfl := owner_unique howner howner'
      exact pres.giveUp _ _ _ _ _ _ hop howner servers live failed (h hop config howner _ rfl)
    | userAwait | awaitForward | awaitPoll => exact frame_none rfl
    | _ => cases awaits
  suspect g σ s p servers other allowed :=
    pres.carries (pres.refl σ g) (grows_suspect σ s p) (pres.suspect _ _ _ _ servers other allowed)
  crash g σ s servers allowed :=
    pres.carries (pres.refl σ g) (grows_crash σ s) (pres.crash _ _ _ servers allowed)
  advance g σ req op stack σ' stack' servers frame hK allowed h := by
    obtain ⟨ho, hservers⟩ := pres.advance _ _ _ _ _ _ _ servers frame hK allowed h
    exact ⟨pres.carries ho (grows_advance h) hservers, pres.frames h servers frame hK allowed⟩

end Stages

end MiniDiscord.Cluster
