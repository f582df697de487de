import MiniDiscord.Cluster.OneCrash
import MiniDiscord.Cluster.Primaries
import MiniDiscord.Linear

/-!
# Requests to the cluster in one order

Every request that is routed by a key takes effect at once, at the server that answers for its
channel or its user, without failures the primary: one central store, asked in this order, gives the
answers. A request that waits for its user has passed checks that still hold when it goes on, since
users and channels are never removed. A server that crashes at rest takes nothing with it, and a
call that was waiting for it starts over.
-/

namespace MiniDiscord.Cluster

open DiscordStateops

/-! ## Where a request takes effect -/

/-- The answer that a step settles, read off the stack before and after it. -/
def takesEffect (op : Op) : List Frame → List Frame → Option (StateResult Value)
  | .call _ .check :: _, .call _ (.done r) :: _ => some r
  | .call _ .userLocal :: _, .call _ (.done r) :: _ => some r
  | .call _ .commit :: _, .call _ (.done r) :: _ => some r
  | .call _ .commit :: _, .call _ (.applied v) :: _ => some (.ok v)
  | .request _ .userExists :: _, .response (.ok (.found b)) :: _ =>
    if op.forwardedAs = .userExists then some (.ok (.found b))
    else if b then none else some (.error unknownUser)
  | _, _ => none

/-- What takes effect at an event. -/
def effectAt (w : World) (e : Event) (w' : World) : Option (Entry Op (StateResult Value)) :=
  match e with
  | .advance i => do
    let j ← w.jobs[i]?
    let j' ← w'.jobs[i]?
    let r ← takesEffect j.op j.stack j'.stack
    some ⟨j.req, j.op, r⟩
  | _ => none

/-- What has taken effect along the events, in this order. -/
def effects (hash : String → ℕ) (es : List Event) : List (Entry Op (StateResult Value)) :=
  Run.record (World.step hash) (fun entries w e w' => entries ++ (effectAt w e w').toList)
    [] .init es

/-- The call has not taken effect. -/
def Pc.before : Pc → Bool
  | .start | .check | .userStart | .userLocal | .userRoute | .userAwait _ | .commit | .route
  | .awaitForward _ => true
  | _ => false

/-- The request that the stack is about has not taken effect. -/
def before : List Frame → Bool
  | .call _ pc :: _ => pc.before
  | .request _ .forwarded :: _ | .request _ .userExists :: _ => true
  | .response (.ok (.found true)) :: .call _ (.userAwait _) :: _ => true
  | _ => false

variable {hash : String → ℕ} {σ σ' : Servers} {op : Op} {req : ℕ} {stack stack' : List Frame}
  {config : LocationConfig} {holder : LocationConfig → ServerId} {s p : ServerId}
  {st st' : AppState} {v : Value} {r : StateResult Value} {c u t : String} {w w' : World}
  {x : Update} {entries : List (Entry Op (StateResult Value))}

/-! ## What is known of a request on its way -/

/-- The answer that was settled, or the refusal of a backup that has the join or the leave
already. -/
def Told (loose : Prop) (entries : List (Entry Op (StateResult Value))) (req : ℕ) (op : Op)
    (r : StateResult Value) : Prop :=
  ⟨req, op, r⟩ ∈ entries ∨
    loose ∧ (∃ u c, op = .joinChannel u c ∨ op = .leaveChannel u c) ∧
      ∃ v e, r = .error e ∧ ⟨req, op, .ok v⟩ ∈ entries

/-- The change was made with this result. -/
def Made (op : Op) (v : Value) : Prop := ∃ st st', op.locked st = some (.ok v, st')

/-- What a frame says about the central store. `holder` is the server that answers for a key. -/
def Fact (hash : String → ℕ) (holder : LocationConfig → ServerId) (loose : Prop)
    (entries : List (Entry Op (StateResult Value))) (st : AppState) (req : ℕ) (op : Op) :
    Frame → Option Frame → Prop
  | .call _ .userStart, _ | .call _ .userRoute, _ | .call _ (.userAwait _), _ =>
    op.checks st = .ok ()
  | .call s .userLocal, _ => op.checks st = .ok () ∧
    ∃ u, op.username? = some u ∧ s = holder (userOwner hash u)
  | .call _ .commit, _ => op.checks st = .ok () ∧ ¬ op.Absent st
  | .call _ (.applied v), _ | .call _ (.awaitReplica v _), _ | .request _ (.replicate v), _ =>
    ⟨req, op, .ok v⟩ ∈ entries ∧ Made op v
  | .call _ (.done r), _ => op.owner hash ≠ none → Told loose entries req op r
  | .request dest .userExists, _ => ∃ u, op.username? = some u ∧
      (dest = (userOwner hash u).primary ∨ dest = holder (userOwner hash u))
  | .response r, some (.call _ (.userAwait _)) =>
    (r = .ok (.found true) → ¬ op.Absent st) ∧
      (r = .ok (.found false) → ⟨req, op, .error unknownUser⟩ ∈ entries)
  | .response r, some (.call _ (.awaitForward _))
  | .response r, some (.call _ (.awaitReplica _ _)) => Told loose entries req op r
  | _, _ => True

variable {loose : Prop} {entries' : List (Entry Op (StateResult Value))} {f : Frame}
  {below : Option Frame}

theorem told_later (sub : entries ⊆ entries') (h : Told loose entries req op r) :
    Told loose entries' req op r := by
  rcases h with h | ⟨hloose, hop, v, e, hr, h⟩
  · exact Or.inl (sub h)
  · exact Or.inr ⟨hloose, hop, v, e, hr, sub h⟩

theorem fact_later (sub : entries ⊆ entries')
    (h : Fact hash holder loose entries st req op f below) :
    Fact hash holder loose entries' (x.apply st) req op f below := by
  rcases f with ⟨s, pc⟩ | ⟨dest, request⟩ | r
  · cases pc with
    | userStart | userRoute | userAwait => exact checks_apply h
    | userLocal => exact ⟨checks_apply h.1, h.2⟩
    | commit => exact ⟨checks_apply h.1, present_apply h.2⟩
    | applied | awaitReplica => exact ⟨sub h.1, h.2⟩
    | done r => exact fun howner => told_later sub (h howner)
    | _ => trivial
  · cases request with
    | replicate => exact ⟨sub h.1, h.2⟩
    | _ => exact h
  · rcases below with _ | ⟨_, pc⟩ | _ | _
    · trivial
    · cases pc with
      | userAwait => exact ⟨fun hr => present_apply (h.1 hr), fun hr => sub (h.2 hr)⟩
      | awaitForward | awaitReplica => exact told_later sub h
      | _ => trivial
    · trivial
    · trivial

/-- The answer of a backup to a replicate request. -/
def Accepts (loose : Prop) (op : Op) (v : Value) (r : StateResult Value) : Prop :=
  r = .ok v ∨ loose ∧ (∃ u c, op = .joinChannel u c ∨ op = .leaveChannel u c) ∧ ∃ e, r = .error e

/-- What a step adds to the explanation: the central store gives the answer that is settled, if
there is one, and changes as the primaries do. -/
structure Explains (hash : String → ℕ) (holder : LocationConfig → ServerId) (loose : Prop)
    (entries : List (Entry Op (StateResult Value))) (st : AppState) (req : ℕ) (op : Op)
    (σ' : Servers) (stack' : List Frame) (settled : Option (StateResult Value)) (x : Update) :
    Prop where
  happens : Happens central st (settled.map (Entry.mk req op)) (x.apply st)
  held : Held hash holder σ' (x.apply st)
  facts : Frames (Fact hash holder loose (entries ++ (settled.map (Entry.mk req op)).toList)
    (x.apply st) req op) stack'

theorem explains_nothing (held : Held hash holder σ st)
    (facts : Frames (Fact hash holder loose entries st req op) stack') :
    ∃ x, Explains hash holder loose entries st req op σ stack' none x :=
  ⟨.keep, rfl, held, by simpa [Update.apply] using facts⟩

/-- The central store gives the answer, and stays as it is. -/
theorem explains_read (held : Held hash holder σ st) (answer : central op st = some (r, st))
    (facts : ∀ entries', entries ⊆ entries' → ⟨req, op, r⟩ ∈ entries' →
      Frames (Fact hash holder loose entries' st req op) stack') :
    ∃ x, Explains hash holder loose entries st req op σ stack' (some r) x :=
  ⟨.keep, answer, held, facts _ (List.subset_append_left _ _) (by simp)⟩

theorem fact_giveUp {pc : Pc} (awaits : pc.awaits = some p)
    (h : Fact hash holder loose entries st req op (.call s pc) below) :
    Fact hash holder loose entries st req op (.call s pc.giveUp) below := by
  cases pc with
  | userAwait => exact h
  | awaitReplica => exact fun _ => Or.inl h.1
  | awaitForward | awaitPoll => trivial
  | _ => cases awaits

theorem fact_weaken {g : Frame} (h : Fact hash holder loose entries st req op f (some g)) :
    Fact hash holder loose entries st req op f none := by
  rcases f with ⟨s, pc⟩ | ⟨dest, request⟩ | r
  · cases pc <;> exact h
  · cases request <;> exact h
  · trivial

theorem facts_later (sub : entries ⊆ entries')
    (h : Frames (Fact hash holder loose entries st req op) stack) :
    Frames (Fact hash holder loose entries' (x.apply st) req op) stack :=
  frames_mono (fun _ _ => fact_later sub) h

/-- The last lock of an operation at its primary. -/
theorem explains_locked {state : AppState} (held : Held hash holder σ st)
    (owner : op.owner hash = some config)
    (locked : op.locked (σ.store (holder config)) = some (r, state))
    (checks : op.checks st = .ok ()) (present : ¬ op.Absent st)
    (facts : ∀ (x : Update) entries', entries ⊆ entries' → ⟨req, op, r⟩ ∈ entries' →
      Frames (Fact hash holder loose entries' (x.apply st) req op) stack') :
    ∃ x, Explains hash holder loose entries st req op (σ.setStore (holder config) state) stack'
      (some r) x := by
  obtain ⟨x, rfl, hlocked, hheld⟩ := held.locked owner locked
  exact ⟨x, (central_locked checks present).trans hlocked, hheld,
    facts x _ (List.subset_append_left _ _) (by simp)⟩

theorem forwardedAs_of_entry (hentry : op.entry ≠ .commit) : op.forwardedAs ≠ .userExists := by
  intro hforwarded
  cases op <;> first | exact absurd rfl hentry | cases hforwarded

/-! ## One step, stage by stage -/

theorem fact_entry : Fact hash holder loose entries st req op (.call s op.entry) below := by
  cases op with
  | leaveChannel | sendMessage => trivial
  | joinChannel => rfl
  | _ => exact ⟨rfl, fun habsent => habsent.1 rfl⟩

theorem explained_refused {e : StateError} {rest : List Frame} (held : Held hash holder σ st)
    (owner : op.owner hash = some config)
    (checks : op.checks (σ.store (holder config)) = .error e)
    (facts : Frames (Fact hash holder loose entries st req op) rest) :
    ∃ x, Explains hash holder loose entries st req op σ (.call s (.done (.error e)) :: rest)
      (some (.error e)) x := by
  have hchecks : op.checks st = .error e := (held.checks owner).trans checks
  refine explains_read held (central_refused hchecks) fun entries' sub settled => ?_
  exact ⟨fun _ => Or.inl settled, facts_later (x := .keep) sub facts⟩

theorem explained_unknown {rest : List Frame} (held : Held hash holder σ st)
    (checks : op.checks st = .ok ()) (absent : op.Absent st)
    (facts : Frames (Fact hash holder loose entries st req op) rest) :
    ∃ x, Explains hash holder loose entries st req op σ
      (.call s (.done (.error unknownUser)) :: rest) (some (.error unknownUser)) x := by
  refine explains_read held (central_unknown checks absent) fun entries' sub settled => ?_
  exact ⟨fun _ => Or.inl settled, facts_later (x := .keep) sub facts⟩

/-- The last lock of an operation, by the server that answers for its key. -/
theorem explained_locked {rest : List Frame} {state : AppState} (held : Held hash holder σ st)
    (owner : op.owner hash = some config)
    (locked : op.locked (σ.store (holder config)) = some (r, state))
    (facts : Frames (Fact hash holder loose entries st req op)
      (.call (holder config) .commit :: rest))
    (f : Frame) (told : ∀ (x : Update) entries', ⟨req, op, r⟩ ∈ entries' →
      Fact hash holder loose entries' (x.apply st) req op f rest.head?) :
    ∃ x, Explains hash holder loose entries st req op (σ.setStore (holder config) state)
      (f :: rest) (some r) x :=
  explains_locked held owner locked facts.1.1 facts.1.2
    fun x entries' sub settled => ⟨told x entries' settled, facts_later sub facts.2⟩

theorem explained_committed {rest : List Frame} {state : AppState} (held : Held hash holder σ st)
    (owner : op.owner hash = some config)
    (locked : op.locked (σ.store (holder config)) = some (.ok v, state))
    (facts : Frames (Fact hash holder loose entries st req op)
      (.call (holder config) .commit :: rest)) :
    ∃ x, Explains hash holder loose entries st req op (σ.setStore (holder config) state)
      (.call (holder config) (if op.replicated then .applied v else .done (.ok v)) :: rest)
      (takesEffect op (.call (holder config) .commit :: rest)
        (.call (holder config) (if op.replicated then .applied v else .done (.ok v)) :: rest))
      x := by
  split_ifs
  · exact explained_locked held owner locked facts _
      fun x entries' settled => ⟨settled, _, _, locked⟩
  · exact explained_locked held owner locked facts _
      fun x entries' settled => fun _ => Or.inl settled

/-- What is sent, and what waits for the answer. -/
theorem facts_sent {dest : ServerId} {request : Request} {pc wait : Pc} (sound : σ.Sound)
    (sends : Sends hash σ op s pc dest request wait)
    (fact : Fact hash σ.authority loose entries st req op (.call s pc) below) :
    Fact hash σ.authority loose entries st req op (.request dest request) (some (.call s wait)) ∧
      Fact hash σ.authority loose entries st req op (.call s wait) below := by
  cases sends with
  | user username dest user located => exact ⟨⟨username, user, located_asked sound located⟩, fact⟩
  | replicate => exact ⟨fact, fact⟩
  | forward config dest owner located =>
    refine ⟨?_, trivial⟩
    cases op with
    | userExists u =>
      obtain rfl := Option.some.inj owner
      exact ⟨u, rfl, located_asked sound located⟩
    | _ => trivial
  | poll => exact ⟨trivial, trivial⟩

theorem takesEffect_sends {dest : ServerId} {request : Request} {pc wait : Pc} {f : Frame}
    {rest rest' : List Frame} (sends : Sends hash σ op s pc dest request wait) :
    takesEffect op (.call s pc :: rest) (f :: rest') = none := by
  cases sends <;> rfl

theorem explained_panic {pc : Pc} {rest : List Frame} (held : Held hash holder σ' st)
    (facts : Frames (Fact hash holder loose entries st req op) rest) :
    ∃ x, Explains hash holder loose entries st req op σ' (.call s .panicked :: rest)
      (takesEffect op (.call s pc :: rest) (.call s .panicked :: rest)) x := by
  have hnone : takesEffect op (.call s pc :: rest) (.call s .panicked :: rest) = none := by
    cases pc <;> rfl
  rw [hnone]
  exact explains_nothing held ⟨trivial, facts⟩

theorem explained_handlerPanic {request : Request} {rest : List Frame}
    (held : Held hash holder σ' st)
    (facts : Frames (Fact hash holder loose entries st req op) rest) :
    ∃ x, Explains hash holder loose entries st req op σ' (.call s .panicked :: rest)
      (takesEffect op (.request s request :: rest) (.call s .panicked :: rest)) x := by
  have hnone : takesEffect op (.request s request :: rest) (.call s .panicked :: rest) = none := by
    cases request <;> rfl
  rw [hnone]
  exact explains_nothing held ⟨trivial, facts⟩

/-- The answer to a call that waits for its user. -/
theorem explained_found {dest : ServerId} {rest : List Frame} (held : Held hash holder σ st)
    (hentry : op.entry ≠ .commit) (user : op.username? = some u)
    (facts : Frames (Fact hash holder loose entries st req op)
      (.call s (.userAwait dest) :: rest)) :
    ∃ x, Explains hash holder loose entries st req op σ
      (.response (.ok (.found (DiscordStateops.userExists u
        (σ.store (holder (userOwner hash u)))))) :: .call s (.userAwait dest) :: rest)
      (takesEffect op (.request (holder (userOwner hash u)) .userExists ::
          .call s (.userAwait dest) :: rest)
        (.response (.ok (.found (DiscordStateops.userExists u
          (σ.store (holder (userOwner hash u)))))) :: .call s (.userAwait dest) :: rest)) x := by
  have hother := forwardedAs_of_entry hentry
  have habsent : op.Absent st ↔ u ∉ (σ.store (holder (userOwner hash u))).users := by
    rw [absent_iff hentry user, held.users]
  by_cases hu : u ∈ (σ.store (holder (userOwner hash u))).users
  · simp only [DiscordStateops.userExists, hu, takesEffect, if_neg hother, decide_true, if_true]
    refine explains_nothing held ⟨⟨fun _ => ?_, (fun h => by cases h)⟩, facts⟩
    rwa [habsent, not_not]
  · simp only [DiscordStateops.userExists, hu, takesEffect, if_neg hother, decide_false,
      Bool.false_eq_true, if_false]
    refine explains_read held (central_unknown facts.1 (habsent.mpr hu))
      fun entries' sub settled => ⟨⟨(fun h => by cases h), fun _ => settled⟩, ?_⟩
    exact facts_later (x := .keep) sub facts

/-- The server that answers for a user answers `user_exists`, of an operation that waits for its
user or of the client's own request. -/
theorem explained_answeredUser {rest : List Frame} (live : σ.crashed s = false)
    (known : Known hash σ req op (.request s .userExists :: rest))
    (standing : Frames (Standing σ) (.request s .userExists :: rest))
    (held : Held hash σ.authority σ st) (user : op.username? = some u)
    (facts : Frames (Fact hash σ.authority loose entries st req op)
      (.request s .userExists :: rest)) :
    ∃ x, Explains hash σ.authority loose entries st req op σ
      (.response (.ok (.found (DiscordStateops.userExists u (σ.store s)))) :: rest)
      (takesEffect op (.request s .userExists :: rest)
        (.response (.ok (.found (DiscordStateops.userExists u (σ.store s)))) :: rest)) x := by
  obtain ⟨u', huser, hasked⟩ := facts.1
  obtain rfl := Option.some.inj (user.symm.trans huser)
  obtain rfl := asked_authority live hasked
  rcases rest with _ | ⟨⟨t, pc⟩ | _ | _, rest⟩
  · exact absurd (live.symm.trans standing.1) nofun
  · rcases known.1.fits _ rfl with rfl | ⟨rfl, hforwarded⟩
    · exact explained_found held known.2.1.reached user facts.2
    · -- the operation is `user_exists` itself
      cases op with
      | userExists u' =>
        cases user
        refine explains_read held ?_ fun entries' sub settled =>
          ⟨Or.inl settled, facts_later (x := .keep) sub facts.2⟩
        simp only [central, DiscordStateops.userExists, held.users u]
      | _ => cases hforwarded
  · exact (known.1.fits _ rfl).elim
  · exact (known.1.fits _ rfl).elim

theorem fact_names {all : Multiset String}
    (placed : Placed hash σ op (.request s .listNames) below) :
    Fact hash holder loose entries st req op (.response (.ok (.names all))) below := by
  rcases below with _ | ⟨t, pc⟩ | _ | _
  · trivial
  · obtain ⟨all, peers, rfl⟩ := placed.fits _ rfl
    trivial
  · trivial
  · trivial

/-- The backup follows a change that has taken effect already. -/
theorem explained_replicated {rest : List Frame} {state : AppState} (live : σ.crashed s = false)
    (known : Known hash σ req op (.request s (.replicate v) :: rest))
    (standing : Frames (Standing σ) (.request s (.replicate v) :: rest))
    (held : Held hash σ.authority σ st)
    (locked : op.replicateLocked v (σ.store s) = some (r, state))
    (facts : Frames (Fact hash σ.authority loose entries st req op)
      (.request s (.replicate v) :: rest))
    (accepts : ∀ config, op.owner hash = some config → σ.crashed config.primary = false →
      s = config.backup → Made op v → Accepts loose op v r) :
    ∃ x, Explains hash σ.authority loose entries st req op (σ.setStore s state)
      (.response r :: rest) none x := by
  obtain ⟨config, howner, rfl⟩ := known.1.routed
  obtain ⟨x, rfl, hx⟩ := effect_update hash (replicate_effect locked)
  obtain ⟨settled, made⟩ := facts.1
  obtain ⟨rest, rfl, hprimary⟩ := standing_replicate howner known standing live
  have hauthority : σ.authority config = config.primary := by
    simp [Servers.authority, hprimary]
  have htold : Told loose entries req op r := by
    rcases accepts config howner hprimary rfl made with rfl | ⟨hloose, hop, e, rfl⟩
    · exact Or.inl settled
    · exact Or.inr ⟨hloose, hop, v, e, rfl, settled⟩
  refine explains_nothing (held.replicate (hx.imp_right (·.trans howner)) ?_) ⟨htold, facts.2⟩
  rw [hauthority]
  exact owner_ne howner

theorem fact_responded {caller : Frame} {rest : List Frame}
    (known : Known hash σ req op (.call s (.done r) :: caller :: rest))
    (fact : Fact hash holder loose entries st req op (.call s (.done r)) (some caller)) :
    Fact hash holder loose entries st req op (.response r) (some caller) := by
  rcases caller with ⟨t, pc⟩ | _ | _
  · obtain ⟨⟨p, rfl⟩, -⟩ := (known.1.fits _ rfl).resolve_left fun h => by cases h
    obtain ⟨config, howner, -⟩ := known.2.1.routed
    exact fact (by simp [howner])
  · trivial
  · trivial

theorem fact_resumed {pc : Pc} (awaits : pc.awaits = some p)
    (answer : Placed hash σ op (.response r) (some (.call s pc)))
    (fact : Fact hash holder loose entries st req op (.response r) (some (.call s pc)))
    (caller : Fact hash holder loose entries st req op (.call s pc) below) :
    Fact hash holder loose entries st req op (.call s (pc.resume r)) below := by
  cases resume_cases answer awaits with
  | user p found =>
    cases found with
    | true => exact ⟨caller, fact.1 rfl⟩
    | false => exact fun _ => Or.inl (fact.2 rfl)
  | replica | forward => exact fun _ => fact
  | poll => trivial

/-- **One step.** The central store does what takes effect, and nothing else happens to it. -/
theorem explained_advance (h : Advance hash σ op stack σ' stack') (sound : σ.Sound)
    (known : Known hash σ req op stack) (standing : Frames (Standing σ) stack)
    (held : Held hash σ.authority σ st)
    (facts : Frames (Fact hash σ.authority loose entries st req op) stack)
    (accepts : ∀ config v rest r state, op.owner hash = some config →
      σ.crashed config.primary = false → stack = .request config.backup (.replicate v) :: rest →
      Made op v → op.replicateLocked v (σ.store config.backup) = some (r, state) →
      Accepts loose op v r) :
    ∃ x, Explains hash σ.authority loose entries st req op σ' stack'
      (takesEffect op stack stack') x := by
  cases h with
  | authority s config rest live owner auth => exact explains_nothing held ⟨fact_entry, facts.2⟩
  | checked s rest live checks =>
    obtain ⟨config, howner, rfl⟩ := routed_authority sound live (known.1.routed rfl)
    exact explains_nothing held ⟨(held.checks howner).trans checks, facts.2⟩
  | refused s e rest live checks =>
    obtain ⟨config, howner, rfl⟩ := routed_authority sound live (known.1.routed rfl)
    exact explained_refused held howner checks facts.2
  | userAuthority s username rest live user auth =>
    have howner := owns_authority sound live (authoritative_iff.mp auth)
    exact explains_nothing held ⟨⟨facts.1, username, user, howner⟩, facts.2⟩
  | userElsewhere s username rest live user auth =>
    exact explains_nothing held ⟨facts.1, facts.2⟩
  | userFound s username rest live user found =>
    obtain ⟨hchecks, u, huser, rfl⟩ := facts.1
    obtain rfl := Option.some.inj (user.symm.trans huser)
    refine explains_nothing held ⟨⟨hchecks, ?_⟩, facts.2⟩
    rw [absent_iff known.1.reached user, held.users]
    exact not_not_intro found
  | userUnknown s username rest live user missing =>
    obtain ⟨hchecks, u, huser, rfl⟩ := facts.1
    obtain rfl := Option.some.inj (user.symm.trans huser)
    have habsent : op.Absent st := by
      rwa [absent_iff known.1.reached user, held.users]
    exact explained_unknown held hchecks habsent facts.2
  | committed s v state rest live locked =>
    obtain ⟨config, howner, rfl⟩ := routed_authority sound live (known.1.routed rfl)
    exact explained_committed held howner locked facts
  | rejected s e state rest live locked =>
    obtain ⟨config, howner, rfl⟩ := routed_authority sound live (known.1.routed rfl)
    exact explained_locked held howner locked facts _ fun x entries' settled => fun _ =>
      Or.inl settled
  | alone s v config rest live owner alone =>
    exact explains_nothing held ⟨fun _ => Or.inl facts.1.1, facts.2⟩
  | sent s pc dest request wait rest live sends alive =>
    obtain ⟨hrequest, hwait⟩ := facts_sent sound sends facts.1
    rw [takesEffect_sends sends]
    exact explains_nothing held ⟨hrequest, hwait, facts.2⟩
  | unsent s pc dest request wait rest live sends failed =>
    rw [takesEffect_sends sends]
    exact explains_nothing held ⟨(facts_sent sound sends facts.1).2, facts.2⟩
  | polled s all rest live =>
    exact explains_nothing held ⟨fun hroute => absurd known.1.routed hroute, facts.2⟩
  | panic s pc σ' rest live poisons unapplied =>
    have hstore : σ'.store = σ.store := by
      rcases poisons with rfl | ⟨rfl, -⟩ <;> rfl
    exact explained_panic (held.same hstore) facts.2
  | handlerPanic s request σ' rest live poisons =>
    have hstore : σ'.store = σ.store := by
      rcases poisons with rfl | ⟨rfl, -⟩ <;> rfl
    exact explained_handlerPanic (held.same hstore) facts.2
  | answeredUser s username rest live user =>
    exact explained_answeredUser live known standing held user facts
  | answeredNames s rest live => exact explains_nothing held ⟨fact_names known.1, facts.2⟩
  | replicated s v r state rest live locked =>
    refine explained_replicated live known standing held locked facts ?_
    rintro config howner hprimary rfl made
    exact accepts config v rest r state howner hprimary rfl made locked
  | responded s r caller rest live =>
    exact explains_nothing held ⟨fact_responded known facts.1, facts.2⟩
  | unheard | unheardRead | unheardReplica =>
    rename_i unheard
    simp [standing_heard sound standing] at unheard
  | resumed s pc p r rest live awaits =>
    exact explains_nothing held ⟨fact_resumed awaits known.1 facts.1 facts.2.1, facts.2.2⟩
  | _ => exact explains_nothing held ⟨trivial, facts.2⟩

/-! ## At most once -/

theorem before_resume {pc : Pc} {rest : List Frame}
    (h : before (.call s (pc.resume r) :: rest) = true) :
    before (.response r :: .call s pc :: rest) = true := by
  unfold Pc.resume at h
  split at h <;> first | rfl | cases h

theorem before_response {rest : List Frame}
    (other : ∀ s p lower, rest = .call s (.userAwait p) :: lower → r ≠ .ok (.found true)) :
    before (.response r :: rest) = false := by
  unfold before
  split
  · rename_i heq
    cases heq
  · rename_i heq
    cases heq
  · rename_i heq
    cases heq
  · rename_i heq
    cases heq
    exact absurd rfl (other _ _ _ rfl)
  · rfl

/-- An answer is settled by a request that has not taken effect, and then it has. -/
theorem before_advance (h : Advance hash σ op stack σ' stack') (sound : σ.Sound)
    (known : Known hash σ req op stack) (standing : Frames (Standing σ) stack) :
    (before stack' = true → before stack = true) ∧
      ∀ r, takesEffect op stack stack' = some r → before stack = true ∧ before stack' = false := by
  cases h with
  | authority | elsewhere | checked | userAuthority | userElsewhere | userFound | started =>
    exact ⟨fun _ => rfl, nofun⟩
  | refused | userUnknown | rejected => exact ⟨nofun, fun _ _ => ⟨rfl, rfl⟩⟩
  | committed s v state rest live locked =>
    refine ⟨fun _ => rfl, fun _ _ => ⟨rfl, ?_⟩⟩
    split_ifs <;> rfl
  | sent s pc dest request wait rest live sends alive =>
    cases sends with
    | user | forward => exact ⟨fun _ => rfl, nofun⟩
    | replicate | poll => exact ⟨nofun, nofun⟩
  | unsent s pc dest request wait rest live sends failed =>
    cases sends with
    | user | forward => exact ⟨fun _ => rfl, nofun⟩
    | replicate | poll => exact ⟨nofun, nofun⟩
  | panic s pc σ' rest live poisons unapplied =>
    refine ⟨nofun, fun r h => ?_⟩
    cases pc <;> cases h
  | handlerPanic s request σ' rest live poisons =>
    refine ⟨nofun, fun r h => ?_⟩
    cases request <;> cases h
  | answeredUser s username rest live user =>
    refine ⟨fun _ => rfl, fun r h => ⟨rfl, before_response ?_⟩⟩
    rintro t p lower rfl hfound
    have hother : op.forwardedAs ≠ .userExists := forwardedAs_of_entry known.2.1.reached
    rw [hfound] at h
    simp [takesEffect, hother] at h
  | replicated s v r state rest live locked =>
    refine ⟨fun h => ?_, nofun⟩
    rw [before_response] at h
    · cases h
    · rintro t p lower rfl
      cases known.1.fits _ rfl
  | responded s r caller rest live =>
    refine ⟨fun h => ?_, nofun⟩
    rw [before_response] at h
    · cases h
    · rintro t p lower hlower
      obtain ⟨rfl, -⟩ := List.cons.inj hlower
      obtain ⟨⟨p', hp⟩, -⟩ := (known.1.fits _ rfl).resolve_left nofun
      cases hp
  | unheard | unheardRead | unheardReplica =>
    rename_i unheard
    simp [standing_heard sound standing] at unheard
  | resumed s pc p r rest live awaits => exact ⟨before_resume, nofun⟩
  | _ => exact ⟨nofun, nofun⟩

/-- A call that gives up has taken effect if it had. -/
theorem before_giveUp {pc : Pc} {upper lower : List Frame}
    (known : Known hash σ req op (upper ++ .call s pc :: lower)) (awaits : pc.awaits = some p)
    (own : upper = [] ∨ ∃ request, upper = [.request p request])
    (h : before (.call s pc.giveUp :: lower) = true) :
    before (upper ++ .call s pc :: lower) = true := by
  rcases own with rfl | ⟨request, rfl⟩
  · cases pc with
    | userAwait | awaitForward => rfl
    | awaitReplica | awaitPoll => cases h
    | _ => cases awaits
  · have hfits := known.1.fits _ rfl
    cases pc with
    | userAwait | awaitForward =>
      cases request with
      | forwarded | userExists => rfl
      | listNames => obtain ⟨all, peers, hpc⟩ := hfits; cases hpc
      | replicate => cases hfits
    | awaitReplica | awaitPoll => cases h
    | _ => cases awaits

/-! ## Backups that accept -/

theorem made_unit (made : Made op v) (replicated : op.replicated = true)
    (other : ∀ c u t, op ≠ .sendMessage c u t) : v = .unit := by
  obtain ⟨st, st', locked⟩ := made
  cases locked_effect locked with
  | read _ _ _ reads => cases reads.symm.trans replicated
  | created | joined | left => rfl
  | appended c u t => exact absurd rfl (other c u t)

theorem replicate_unit {v' : Value} (locked : op.replicateLocked v st = some (.ok v', st'))
    (replicated : op.replicated = true) (other : ∀ c u t, op ≠ .sendMessage c u t) :
    v' = .unit := by
  cases replicate_effect locked with
  | read _ _ _ reads => cases reads.symm.trans replicated
  | created | joined | left => rfl
  | appended c u t => exact absurd rfl (other c u t)

theorem replicate_accepts {rest : List Frame} (replicated : op.replicated = true)
    (named : op.named = true) (made : Made op v)
    (new : ∀ u, op = .createUser u → u ∉ (σ.store s).users)
    (strict : loose ∨ inOrder σ op (.request s (.replicate v) :: rest) = true)
    (locked : op.replicateLocked v (σ.store s) = some (r, st')) : Accepts loose op v r := by
  by_cases hsend : ∃ c u t, op = .sendMessage c u t
  · obtain ⟨c, u, t, rfl⟩ := hsend
    obtain ⟨id, ch, -, hr, -⟩ := replicate_send locked
    exact Or.inl hr
  · have other : ∀ c u t, op ≠ .sendMessage c u t := fun c u t hop => hsend ⟨c, u, t, hop⟩
    by_cases hchannel : ∃ u c, op = .joinChannel u c ∨ op = .leaveChannel u c
    · rcases strict with hloose | order
      · cases r with
        | error e => exact Or.inr ⟨hloose, hchannel, e, rfl⟩
        | ok v' =>
          rw [made_unit made replicated other, replicate_unit locked replicated other]
          exact Or.inl rfl
      · obtain ⟨v', rfl⟩ := replicate_ok named order new locked
        rw [made_unit made replicated other, replicate_unit locked replicated other]
        exact Or.inl rfl
    · have order : inOrder σ op (.request s (.replicate v) :: rest) = true := by
        cases op with
        | joinChannel u c => exact absurd ⟨u, c, Or.inl rfl⟩ hchannel
        | leaveChannel u c => exact absurd ⟨u, c, Or.inr rfl⟩ hchannel
        | _ => rfl
      obtain ⟨v', rfl⟩ := replicate_ok named order new locked
      rw [made_unit made replicated other, replicate_unit locked replicated other]
      exact Or.inl rfl

/-! ## The explanation -/

/-- The entries explain what the clients were told, and what the servers hold that answer. -/
structure Explanation (hash : String → ℕ) (loose : Prop)
    (entries : List (Entry Op (StateResult Value))) (w : World) (st : AppState) : Prop where
  history : History central centralInit entries st
  held : Held hash w.servers.authority w.servers st
  facts : ∀ j ∈ w.jobs,
    Frames (Fact hash w.servers.authority loose entries st j.req j.op) j.stack
  told : ∀ x ∈ w.returned, x.op.owner hash ≠ none → Told loose entries x.req x.op x.result
  once : (entries.map Entry.call).Nodup
  fresh : ∀ j ∈ w.jobs, j.attached = true → before j.stack = true →
    j.req ∉ entries.map Entry.call
  asked : ∀ x ∈ entries, ∃ j ∈ w.jobs, j.attached = true ∧ j.req = x.call ∧ j.op = x.op
  numbered : (w.jobs.filter Job.attached).map Job.req = List.range w.nextReq

theorem explanation_init : Explanation hash loose [] .init centralInit where
  history := .nil
  held := mirrors_init.held
  facts := by simp [World.init]
  told := by simp [World.init]
  once := List.nodup_nil
  fresh := by simp [World.init]
  asked := by simp
  numbered := rfl

variable {j j' : Job} {pre post : List Job}

theorem Explanation.call_lt (h : Explanation hash loose entries w st) :
    ∀ x ∈ entries, x.call < w.nextReq := by
  intro x hx
  obtain ⟨j, hj, hattached, hreq, -⟩ := h.asked x hx
  have hmem : j.req ∈ (w.jobs.filter Job.attached).map Job.req :=
    List.mem_map_of_mem (List.mem_filter.mpr ⟨hj, hattached⟩)
  rw [h.numbered, hreq] at hmem
  exact List.mem_range.mp hmem

/-- The job of a request in another state. -/
structure SameRequest (j j' : Job) : Prop where
  req : j'.req = j.req
  op : j'.op = j.op
  attached : j'.attached = j.attached

theorem numbered_replace (jobs : w.jobs = pre ++ j :: post) (same : SameRequest j j') :
    ((pre ++ j' :: post).filter Job.attached).map Job.req =
      (w.jobs.filter Job.attached).map Job.req := by
  cases hattached : j.attached <;> simp [jobs, same.attached, hattached, same.req]

theorem asked_replace {y : Entry Op (StateResult Value)} (jobs : w.jobs = pre ++ j :: post)
    (same : SameRequest j j')
    (h : ∃ k ∈ w.jobs, k.attached = true ∧ k.req = y.call ∧ k.op = y.op) :
    ∃ k ∈ pre ++ j' :: post, k.attached = true ∧ k.req = y.call ∧ k.op = y.op := by
  obtain ⟨k, hk, hattached, hreq, hop⟩ := h
  rw [jobs] at hk
  simp only [List.mem_append, List.mem_cons] at hk
  rcases hk with hk | rfl | hk
  · exact ⟨k, by simp [hk], hattached, hreq, hop⟩
  · exact ⟨j', by simp, same.attached.trans hattached, same.req.trans hreq,
      same.op.trans hop⟩
  · exact ⟨k, by simp [hk], hattached, hreq, hop⟩

/-- Two requests have two numbers. -/
theorem Explanation.others (h : Explanation hash loose entries w st)
    (jobs : w.jobs = pre ++ j :: post) (attached : j.attached = true) {k : Job}
    (hk : k ∈ pre ++ post) (hattached : k.attached = true) : k.req ≠ j.req := by
  have hnodup : ((pre ++ j :: post).filter Job.attached).map Job.req |>.Nodup := by
    rw [← jobs, h.numbered]
    exact List.nodup_range
  simp only [List.filter_append, List.filter_cons, attached, if_true, List.map_append,
    List.map_cons, List.nodup_append, List.nodup_cons, List.mem_map, List.mem_cons,
    List.mem_filter] at hnodup
  intro heq
  rcases List.mem_append.mp hk with hk | hk
  · exact hnodup.2.2 _ ⟨k, ⟨hk, hattached⟩, rfl⟩ _ (Or.inl rfl) heq
  · exact hnodup.2.1.1 ⟨k, ⟨hk, hattached⟩, heq⟩

theorem explanation_submit (h : Explanation hash loose entries w st) (s : ServerId) (op : Op) :
    Explanation hash loose entries { w with
      jobs := w.jobs ++ [⟨w.nextReq, op, s, true, [.call s .start]⟩], nextReq := w.nextReq + 1 }
      st := by
  refine ⟨h.history, h.held, fun k hk => ?_, h.told, h.once, fun k hk hattached hbefore => ?_,
    fun x hx => ?_, ?_⟩
  · rcases List.mem_append.mp hk with hk | hk
    · exact h.facts k hk
    · obtain rfl := List.mem_singleton.mp hk
      exact ⟨trivial, trivial⟩
  · rcases List.mem_append.mp hk with hk | hk
    · exact h.fresh k hk hattached hbefore
    · obtain rfl := List.mem_singleton.mp hk
      intro hmem
      obtain ⟨x, hx, hcall⟩ := List.mem_map.mp hmem
      exact (h.call_lt x hx).ne hcall
  · obtain ⟨k, hk, hreq⟩ := h.asked x hx
    exact ⟨k, List.mem_append_left _ hk, hreq⟩
  · simp [h.numbered, List.filter_append, List.range_succ]

theorem mem_replaced {k : Job} (jobs : w.jobs = pre ++ j :: post) (hk : k ∈ pre ++ j' :: post) :
    k ∈ pre ++ post ∧ k ∈ w.jobs ∨ k = j' := by
  rw [jobs]
  simp only [List.mem_append, List.mem_cons] at hk ⊢
  tauto

theorem explanation_reply (h : Explanation hash loose entries w st)
    (jobs : w.jobs = pre ++ j :: post) (stack : j.stack = [.call s (.done r)]) :
    Explanation hash loose entries { w with
      jobs := pre ++ { j with stack := [] } :: post,
      returned := w.returned ++ [⟨j.req, j.op, r⟩] } st := by
  have hj : j ∈ w.jobs := by simp [jobs]
  refine ⟨h.history, h.held, fun k hk => ?_, fun x hx hroute => ?_, h.once,
    fun k hk hattached hbefore => ?_, fun x hx => asked_replace jobs ⟨rfl, rfl, rfl⟩ (h.asked x hx),
    (numbered_replace jobs (⟨rfl, rfl, rfl⟩ : SameRequest j { j with stack := [] })).trans
      h.numbered⟩
  · rcases mem_replaced jobs hk with ⟨-, hk⟩ | rfl
    · exact h.facts k hk
    · trivial
  · rcases List.mem_append.mp hx with hx | hx
    · exact h.told x hx hroute
    · obtain rfl := List.mem_singleton.mp hx
      have hfacts := h.facts j hj
      rw [stack] at hfacts
      exact hfacts.1 hroute
  · rcases mem_replaced jobs hk with ⟨-, hk⟩ | rfl
    · exact h.fresh k hk hattached hbefore
    · cases hbefore

theorem explanation_advance (h : Explanation hash loose entries w st)
    (jobs : w.jobs = pre ++ j :: post) (attached : j.attached = true)
    {settled : Option (StateResult Value)} (same : σ'.authority = w.servers.authority)
    (explains : Explains hash w.servers.authority loose entries st j.req j.op σ' stack' settled x)
    (kept : before stack' = true → before j.stack = true)
    (ends : ∀ r, settled = some r → before j.stack = true ∧ before stack' = false) :
    Explanation hash loose (entries ++ (settled.map (Entry.mk j.req j.op)).toList)
      { w with servers := σ', jobs := pre ++ { j with stack := stack' } :: post } (x.apply st) := by
  have hj : j ∈ w.jobs := by simp [jobs]
  have hsub : entries ⊆ entries ++ (settled.map (Entry.mk j.req j.op)).toList :=
    List.subset_append_left _ _
  refine ⟨h.history.happens explains.happens, same ▸ explains.held, fun k hk => ?_,
    fun y hy hroute => told_later hsub (h.told y hy hroute), ?_, fun k hk hattached hbefore => ?_,
    fun y hy => ?_,
    (numbered_replace jobs (⟨rfl, rfl, rfl⟩ : SameRequest j { j with stack := stack' })).trans
      h.numbered⟩
  · rw [same]
    rcases mem_replaced jobs hk with ⟨-, hk⟩ | rfl
    · exact facts_later hsub (h.facts k hk)
    · exact explains.facts
  · cases settled with
    | none => simpa using h.once
    | some r =>
      have hfresh := h.fresh j hj attached (ends r rfl).1
      simp only [Option.map_some, Option.toList_some, List.map_append, List.map_cons, List.map_nil]
      exact List.nodup_append'.mpr ⟨h.once, List.nodup_singleton _, by simpa using hfresh⟩
  · rcases mem_replaced jobs hk with ⟨hother, hk⟩ | rfl
    · have hfresh := h.fresh k hk hattached hbefore
      have hne := h.others jobs attached hother hattached
      cases settled with
      | none => simpa using hfresh
      | some r => simpa [hne] using hfresh
    · cases settled with
      | none => simpa using h.fresh j hj attached (kept hbefore)
      | some r => cases hbefore.symm.trans (ends r rfl).2
  · rcases List.mem_append.mp hy with hy | hy
    · exact asked_replace jobs ⟨rfl, rfl, rfl⟩ (h.asked y hy)
    · cases settled with
      | none => simp at hy
      | some r =>
        obtain rfl := List.mem_singleton.mp hy
        exact ⟨{ j with stack := stack' }, by simp, attached, rfl, rfl⟩

/-- Nobody is told anything by a call that gives up: it goes on, or starts over. -/
theorem explanation_giveUp {pc : Pc} {upper lower : List Frame}
    (h : Explanation hash loose entries w st) (jobs : w.jobs = pre ++ j :: post)
    (stack : j.stack = upper ++ .call s pc :: lower) (awaits : pc.awaits = some p)
    (kept : before (.call s pc.giveUp :: lower) = true → before j.stack = true) :
    Explanation hash loose entries { w with
      jobs := pre ++ { j with stack := .call s pc.giveUp :: lower } :: post ++
        [{ j with attached := false, stack := upper }] } st := by
  have hj : j ∈ w.jobs := by simp [jobs]
  have hfacts := h.facts j hj
  rw [stack] at hfacts
  have hlower := frames_lower hfacts
  refine ⟨h.history, h.held, fun k hk => ?_, h.told, h.once, fun k hk hattached hbefore => ?_,
    fun x hx => ?_, ?_⟩
  · rcases List.mem_append.mp hk with hk | hk
    · rcases mem_replaced jobs hk with ⟨-, hk⟩ | rfl
      · exact h.facts k hk
      · exact ⟨fact_giveUp awaits hlower.1, hlower.2⟩
    · obtain rfl := List.mem_singleton.mp hk
      exact frames_upper (fun _ _ => fact_weaken) hfacts
  · rcases List.mem_append.mp hk with hk | hk
    · rcases mem_replaced jobs hk with ⟨-, hk⟩ | rfl
      · exact h.fresh k hk hattached hbefore
      · exact h.fresh j hj hattached (kept hbefore)
    · obtain rfl := List.mem_singleton.mp hk
      cases hattached
  · obtain ⟨k, hk, hasked⟩ := asked_replace jobs
      (⟨rfl, rfl, rfl⟩ : SameRequest j { j with stack := .call s pc.giveUp :: lower })
      (h.asked x hx)
    exact ⟨k, List.mem_append_left _ hk, hasked⟩
  · have hnumbered := numbered_replace jobs
      (⟨rfl, rfl, rfl⟩ : SameRequest j { j with stack := .call s pc.giveUp :: lower })
    rw [List.filter_append, List.map_append, hnumbered]
    simpa using h.numbered

/-- The servers change, and not what is held by those that answer. -/
theorem explanation_servers (h : Explanation hash loose entries w st)
    (held : Held hash σ'.authority σ' st)
    (facts : ∀ j ∈ w.jobs, Frames (Fact hash σ'.authority loose entries st j.req j.op) j.stack) :
    Explanation hash loose entries { w with servers := σ' } st :=
  ⟨h.history, held, facts, h.told, h.once, h.fresh, h.asked, h.numbered⟩

/-! ## Along a run -/

variable {condition : Servers → Op → List Frame → Bool} {ok : World → Event → Prop}
  {es : List Event} {e : Event}

theorem failureFree_up (run : Reaches hash (failureFree.where' condition) es w) :
    w.servers.Up ∧ ∀ j ∈ w.jobs, Rooted j.stack :=
  (failureFree_invariant (P := fun _ => True) run trivial (fun _ _ _ _ => trivial)
    (fun _ _ _ _ _ _ _ _ _ _ _ _ _ _ => trivial) fun _ _ _ _ _ _ _ _ _ => trivial).2

theorem effects_snoc (run : Run.Exec (World.step hash) ok .init es w)
    (taken : w.step hash e = some w') :
    effects hash (es ++ [e]) = effects hash es ++ (effectAt w e w').toList :=
  Run.record_snoc run taken

theorem effects_prefix (run : Run.Exec (World.step hash) ok .init es w) (es' : List Event) :
    effects hash es <+: effects hash (es ++ es') := by
  rw [effects, effects, Run.record_append run]
  exact record_prefix effectAt _ w es'

theorem effectAt_advance {j' : Job} {servers : Servers} {returned : List Reply} {n : ℕ}
    (jobs : w.jobs = pre ++ j :: post) :
    effectAt w (.advance pre.length) ⟨servers, pre ++ j' :: post, n, returned⟩ =
      (takesEffect j.op j.stack j'.stack).map (Entry.mk j.req j.op) := by
  simp only [effectAt, jobs, List.getElem?_append_right (le_refl pre.length), Nat.sub_self,
    List.getElem?_cons_zero, Option.bind_eq_bind, Option.bind_some]
  cases takesEffect j.op j.stack j'.stack <;> rfl

/-- What is asked of a run: one crash at rest, no backup that refuses a user or a message, and the
servers that answer from then on hold what the crashed one held. -/
structure Orderly (hash : String → ℕ) (loose : Prop) (ok : World → Event → Prop) : Prop where
  calm : ∀ w e, ok w e → AtRest oneCrash w e
  strict : ∀ w i j, ok w (.advance i) → w.jobs[i]? = some j →
    loose ∨ inOrder w.servers j.op j.stack = true
  rest : ∀ es w s st, Run.Exec (World.step hash) ok .init es w → ok w (.crash s) →
    Held hash w.servers.authority w.servers st →
    Held hash (w.servers.crash s).authority (w.servers.crash s) st

theorem explanation (orderly : Orderly hash loose ok)
    (run : Run.Exec (World.step hash) ok .init es w) :
    ∃ st, Explanation hash loose (effects hash es) w st := by
  refine run.history (P := fun es w => ∃ st, Explanation hash loose (effects hash es) w st)
    ⟨centralInit, explanation_init⟩ ?_
  rintro es w e w' prefix_run ⟨st, h⟩ allowed taken
  have hrun := oneCrash_crashStop orderly.calm prefix_run
  have hsound := sound hrun
  rw [effects_snoc prefix_run taken]
  cases step_cases taken with
  | submitted s op live => exact ⟨st, by simpa [effectAt] using explanation_submit h s op⟩
  | advanced j pre post σ' stack' jobs hadvance =>
    have hj : j ∈ w.jobs := by simp [jobs]
    have hknown := known es w hrun j hj
    obtain ⟨hstanding, hidle⟩ := standing orderly.calm prefix_run j hj
    have hattached : j.attached = true := by
      by_contra hnot
      exact idle_stuck hadvance (hidle (by simpa using hnot))
    have hsame : σ'.authority = w.servers.authority := authority_congr (advance_view hadvance).2
    obtain ⟨x, explains⟩ := explained_advance hadvance hsound hknown hstanding h.held
      (h.facts j hj) fun config v rest r state howner hprimary hstack made locked => by
        have hnames := checked hrun j hj
        have hstrict := orderly.strict _ _ j allowed (by simp [jobs])
        rw [hstack] at hnames hknown hstrict
        refine replicate_accepts hknown.1.reached hnames.1 made (fun u hop => ?_) hstrict locked
        rw [hop] at howner
        obtain rfl : userOwner hash u = config := Option.some.inj howner
        exact ahead_new (ahead orderly.calm prefix_run u) hprimary hj hop (by rw [hstack]; rfl)
    obtain ⟨kept, ends⟩ := before_advance hadvance hsound hknown hstanding
    rw [effectAt_advance jobs]
    exact ⟨_, explanation_advance h jobs hattached hsame explains kept ends⟩
  | replied j pre post s r jobs stack live attached =>
    have hnone : takesEffect j.op j.stack [] = none := by rw [stack]; rfl
    rw [effectAt_advance jobs, hnone]
    exact ⟨st, by simpa using explanation_reply h jobs stack⟩
  | gaveUp j pre post s p pc upper lower jobs stack live awaits failed =>
    have hj : j ∈ w.jobs := by simp [jobs]
    have hknown := known es w hrun j hj
    have hstanding := (standing orderly.calm prefix_run j hj).1
    rw [stack] at hknown hstanding
    have hown := standing_upper hstanding awaits (hsound.marked s p failed)
    have hkept : before (.call s pc.giveUp :: lower) = true → before j.stack = true := fun h => by
      rw [stack]
      exact before_giveUp hknown awaits hown h
    exact ⟨st, by simpa [effectAt] using explanation_giveUp h jobs stack awaits hkept⟩
  | hungUp => cases (orderly.calm _ _ allowed).1
  | suspected s p other live =>
    have hservers : Explanation hash loose (effects hash es)
        { w with servers := w.servers.suspect s p } st :=
      explanation_servers h (h.held.same rfl) h.facts
    exact ⟨st, by simpa [effectAt] using hservers⟩
  | crashed s live =>
    have hquiet : w.Quiet := (orderly.calm _ _ allowed).2 s rfl
    have hheld := orderly.rest es w s st prefix_run allowed h.held
    have hfacts : ∀ j ∈ w.jobs, Frames (Fact hash (w.servers.crash s).authority loose
        (effects hash es) st j.req j.op) j.stack := fun j hj => by
      rcases hquiet j hj with hstack | ⟨t, hstack⟩ <;> rw [hstack]
      · trivial
      · exact ⟨trivial, trivial⟩
    exact ⟨st, by simpa [effectAt] using explanation_servers h hheld hfacts⟩

/-! ## The result -/

/-- One order explains the requests of a run. Where `loose`, a join or a leave that took effect may
be answered with the error of the backup. -/
structure OneOrder (hash : String → ℕ) (holder : LocationConfig → ServerId) (loose : Prop)
    (es : List Event) (w : World) : Prop where
  /-- one central store, asked in this order, answers so, and holds what the holders hold -/
  central : ∃ st, History central centralInit (effects hash es) st ∧ Held hash holder w.servers st
  told : ∀ x ∈ w.returned, x.op.owner hash ≠ none →
    Told loose (effects hash es) x.req x.op x.result
  once : ((effects hash es).map Entry.call).Nodup
  asked : ∀ x ∈ effects hash es, ∃ j ∈ w.jobs, j.req = x.call ∧ j.op = x.op
  /-- what happens later comes later -/
  final : ∀ es', effects hash es <+: effects hash (es ++ es')

theorem one_order (orderly : Orderly hash loose ok)
    (run : Run.Exec (World.step hash) ok .init es w) :
    OneOrder hash w.servers.authority loose es w := by
  obtain ⟨st, h⟩ := explanation orderly run
  refine ⟨⟨st, h.history, h.held⟩, h.told, h.once, fun x hx => ?_, effects_prefix run⟩
  obtain ⟨j, hj, -, hasked⟩ := h.asked x hx
  exact ⟨j, hj, hasked⟩

theorem failureFree_orderly (free : ∀ w e, ok w e → failureFree.allows w e = true)
    (strict : ∀ w i j, ok w (.advance i) → w.jobs[i]? = some j →
      loose ∨ inOrder w.servers j.op j.stack = true) : Orderly hash loose ok where
  calm w e allowed := by
    have hfree := free w e allowed
    refine ⟨?_, ?_⟩
    · cases e with
      | advance i => simp [Policy.allows, oneCrash, crashStop]
      | hangUp | suspect | crash => cases hfree
      | _ => rfl
    · rintro s rfl
      cases hfree
  strict := strict
  rest _ w s _ _ allowed := by cases free w (.crash s) allowed

/-- Without failures the primaries answer. -/
theorem failureFree_authority (free : ∀ w e, ok w e → failureFree.allows w e = true)
    (run : Run.Exec (World.step hash) ok .init es w) :
    w.servers.authority = LocationConfig.primary :=
  up_authority (failureFree_up (failureFree_where (run.mono free))).1

theorem failureFree_order (free : ∀ w e, ok w e → failureFree.allows w e = true)
    (strict : ∀ w i j, ok w (.advance i) → w.jobs[i]? = some j →
      loose ∨ inOrder w.servers j.op j.stack = true)
    (run : Run.Exec (World.step hash) ok .init es w) :
    OneOrder hash LocationConfig.primary loose es w :=
  failureFree_authority free run ▸ one_order (failureFree_orderly free strict) run

/-- **Requests in one order.** Without failures, all requests but the listings of all servers, sent
to any servers by any number of clients and interleaved in any way, are explained by one order: a
central store gives their answers in this order, each request is in it at most once and only after
it was sent, and what was told is in it. The answer to a join or a leave alone may be the refusal of
a backup that has it already, though it took effect. -/
theorem requests_linearizable (run : Reaches hash failureFree es w) :
    OneOrder hash LocationConfig.primary True es w :=
  failureFree_order (fun _ _ h => h) (fun _ _ _ _ _ => Or.inl trivial) run

/-- `alice` is registered at `B`. -/
def aliceAtB (key : String) : ℕ := if key = "alice" then 1 else 0

/-- A join at `A` is under way before its user is registered at `B`, and finds the user. -/
def joinsEarly : List Event :=
  asks .A (.joinChannel "alice" "#cs249") 0 2 ++ asks .B (.createUser "alice") 1 6 ++ steps 0 8

theorem requests_linearizable_early : ∃ w, Reaches aliceAtB failureFree joinsEarly w ∧
    OneOrder aliceAtB LocationConfig.primary True joinsEarly w ∧
    w.returned.map Reply.result = [.ok .unit, .ok .unit] ∧
    effects aliceAtB joinsEarly =
      [⟨1, .createUser "alice", .ok .unit⟩, ⟨0, .joinChannel "alice" "#cs249", .ok .unit⟩] := by
  obtain ⟨w, run, hw⟩ := Run.exec_of_test
    (fun w : World => w.returned.map Reply.result = [.ok .unit, .ok .unit])
    (by decide : (outcome aliceAtB failureFree .init joinsEarly).any _ = true)
  exact ⟨w, run, requests_linearizable run, of_decide_eq_true hw, by decide⟩

end MiniDiscord.Cluster
