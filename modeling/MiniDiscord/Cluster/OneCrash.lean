import MiniDiscord.Cluster.Acknowledged
import MiniDiscord.Cluster.Owing

/-!
# One crash at rest

A server crashes while no request is in flight, and only it is marked failed, by each other server
at any later moment. So no call ever runs at the crashed server, and what is sent to it before the
sender has marked it stays there for good.
-/

namespace MiniDiscord.Cluster

open DiscordStateops

/-- At most one server crashes, only a crashed server is marked failed, and every client waits for
its answer. -/
def oneCrash : Policy := { crashStop with hangUp := false }

/-- The event is allowed, and a server crashes only while no request is in flight. -/
def AtRest (policy : Policy) (w : World) (e : Event) : Prop :=
  policy.allows w e = true ∧ ∀ s, e = .crash s → w.Quiet

instance (w : World) : Decidable w.Quiet :=
  inferInstanceAs (Decidable (∀ j ∈ w.jobs, j.stack = [] ∨ ∃ s, j.stack = [.call s .panicked]))

instance (policy : Policy) (w : World) (e : Event) : Decidable (AtRest policy w e) :=
  inferInstanceAs (Decidable (_ ∧ ∀ s, e = .crash s → w.Quiet))

variable {hash : String → ℕ} {σ σ' : Servers} {op : Op} {req : ℕ} {stack stack' : List Frame}
  {config : LocationConfig} {s p : ServerId} {pc pc' : Pc} {f : Frame} {below : Option Frame}
  {upper lower : List Frame} {v : Value} {u : String} {w w' : World} {e : Event} {es : List Event}
  {ok : World → Event → Prop}

/-! ## Who answers for a key -/

theorem authority_congr (crashed : σ'.crashed = σ.crashed) : σ'.authority = σ.authority := by
  funext config
  rw [Servers.authority, Servers.authority, crashed]

theorem up_authority (up : σ.Up) : σ.authority = LocationConfig.primary := by
  funext config
  simp [Servers.authority, up.crashed]

/-- A running server that takes itself for authoritative is. -/
theorem owns_authority (sound : σ.Sound) (live : σ.crashed s = false) (h : σ.Owns config s) :
    s = σ.authority config := by
  rcases h with rfl | ⟨rfl, hview⟩
  · simp [Servers.authority, live]
  · simp [Servers.authority, sound.marked _ _ hview]

theorem routed_authority (sound : σ.Sound) (live : σ.crashed s = false)
    (h : ∃ config, op.owner hash = some config ∧ σ.Owns config s) :
    ∃ config, op.owner hash = some config ∧ s = σ.authority config :=
  h.imp fun _ => And.imp_right (owns_authority sound live)

theorem located_asked (sound : σ.Sound) (h : Located σ s config p) :
    p = config.primary ∨ p = σ.authority config :=
  h.imp And.left fun ⟨hp, hview⟩ => by
    simp [Servers.authority, sound.marked _ _ hview, hp]

/-- A running server that is asked for a key answers for it. -/
theorem asked_authority (live : σ.crashed p = false)
    (h : p = config.primary ∨ p = σ.authority config) : p = σ.authority config := by
  rcases h with rfl | h
  · simp [Servers.authority, live]
  · exact h

/-! ## Where a frame can stand -/

/-- A call runs on a running server, a request to the crashed server has nothing on top, and an
answer comes from a running server. -/
def Standing (σ : Servers) : Frame → Option Frame → Prop
  | .call s pc, none => σ.crashed s = false ∨ pc = .panicked
  | .request p _, none => σ.crashed p = true
  | .call s _, some (.call _ pc) => σ.crashed s = false ∧ pc.awaits = some s
  | .request p _, some (.call _ pc) => pc.awaits = some p
  | .response _, some (.call _ pc) => ∃ p, pc.awaits = some p ∧ σ.crashed p = false
  | _, _ => False

/-- A job that nobody waits for is over, or it is a request to the crashed server. -/
def Idle (σ : Servers) (stack : List Frame) : Prop :=
  stack = [] ∨ ∃ p request, stack = [.request p request] ∧ σ.crashed p = true

theorem standing_congr (crashed : σ'.crashed = σ.crashed) (h : Standing σ f below) :
    Standing σ' f below := by
  unfold Standing at h ⊢
  rwa [crashed]

theorem standing_call (live : σ.crashed s = false) (h : Standing σ (.call s pc) below) :
    Standing σ (.call s pc') below := by
  rcases below with _ | ⟨t, pc''⟩ | _ | _
  · exact Or.inl live
  · exact ⟨live, h.2⟩
  · exact h.elim
  · exact h.elim

theorem standing_started {request : Request} (live : σ.crashed s = false)
    (h : Standing σ (.request s request) below) : Standing σ (.call s pc) below := by
  rcases below with _ | ⟨t, pc'⟩ | _ | _
  · exact Or.inl live
  · exact ⟨live, h⟩
  · exact h.elim
  · exact h.elim

theorem standing_response {request : Request} {r : StateResult Value} (live : σ.crashed s = false)
    (h : Standing σ (.request s request) below) : Standing σ (.response r) below := by
  rcases below with _ | ⟨t, pc⟩ | _ | _
  · exact absurd (live.symm.trans h) (by simp)
  · exact ⟨s, h, live⟩
  · exact h
  · exact h

theorem sends_awaits {dest : ServerId} {request : Request} {wait : Pc}
    (sends : Sends hash σ op s pc dest request wait) : wait.awaits = some dest := by
  cases sends <;> rfl

theorem standing_advance (h : Advance hash σ op stack σ' stack')
    (standing : Frames (Standing σ) stack) : Frames (Standing σ') stack' := by
  have hkept : ∀ {rest}, Frames (Standing σ) rest → Frames (Standing σ') rest :=
    frames_mono fun _ _ => standing_congr (advance_view h).2
  cases h with
  | sent s pc dest request wait rest live sends alive =>
    exact ⟨sends_awaits sends, standing_call live standing.1, standing.2⟩
  | panic s pc σ' rest live poisons =>
    exact ⟨standing_congr (by rcases poisons with rfl | ⟨rfl, -⟩ <;> rfl)
      (standing_call live standing.1), hkept standing.2⟩
  | handlerPanic s request σ' rest live poisons =>
    exact ⟨standing_congr (by rcases poisons with rfl | ⟨rfl, -⟩ <;> rfl)
      (standing_started live standing.1), hkept standing.2⟩
  | started s rest live =>
    exact ⟨standing_started live standing.1, standing.2⟩
  | answeredUser s username rest live | answeredNames s rest live =>
    exact ⟨standing_response live standing.1, standing.2⟩
  | replicated s v r state rest live =>
    exact ⟨standing_response live standing.1, hkept standing.2⟩
  | responded s r caller rest live =>
    refine ⟨?_, standing.2⟩
    rcases caller with ⟨t, pc⟩ | _ | _
    · exact ⟨s, standing.1.2, live⟩
    · exact standing.1.elim
    · exact standing.1.elim
  | resumed s pc p r rest live awaits =>
    exact ⟨standing_call live standing.2.1, standing.2.2⟩
  | committed s v state rest live | rejected s e state rest live =>
    exact ⟨standing_call live standing.1, hkept standing.2⟩
  | unheard | unheardRead => exact standing.2
  | unheardReplica => exact hkept standing.2
  | _ => exact ⟨standing_call (by assumption) standing.1, standing.2⟩

theorem standing_waits (awaits : pc.awaits = some p) (h : Standing σ (.call s pc) below) :
    σ.crashed s = false := by
  rcases below with _ | ⟨t, pc'⟩ | _ | _
  · refine h.resolve_right ?_
    rintro rfl
    cases awaits
  · exact h.1
  · exact h.elim
  · exact h.elim

/-- A call that waits runs on a running server, which nobody has marked failed. -/
theorem standing_heard (sound : σ.Sound) {rest : List Frame}
    (standing : Frames (Standing σ) (f :: rest)) (s : ServerId) : σ.heard s rest = true := by
  by_contra h
  obtain ⟨t, pc, lower, rfl, hview⟩ := unheard_cases (Bool.eq_false_of_not_eq_true h)
  obtain ⟨p, hawaits⟩ : ∃ p, pc.awaits = some p := by
    rcases f with _ | _ | _
    · exact ⟨_, standing.1.2⟩
    · exact ⟨_, standing.1⟩
    · obtain ⟨p, hp, -⟩ := standing.1
      exact ⟨p, hp⟩
  have hlive := standing_waits hawaits standing.2.1
  simp [sound.marked s t hview] at hlive

/-- Nobody handles a request that nobody waits for. -/
theorem standing_asked (standing : Frames (Standing σ) stack)
    (h : Advance hash σ op stack σ' stack') (dest : ServerId) (request : Request) :
    stack ≠ [.request dest request] := by
  rintro rfl
  have hlive : σ.crashed dest = false := by cases h <;> assumption
  exact absurd (hlive.symm.trans standing.1) nofun

/-- A running backup handles what a running primary waits for. -/
theorem standing_replicate {rest : List Frame} (owner : op.owner hash = some config)
    (known : Known hash σ req op (.request config.backup (.replicate v) :: rest))
    (standing : Frames (Standing σ) (.request config.backup (.replicate v) :: rest))
    (live : σ.crashed config.backup = false) :
    ∃ rest', rest = .call config.primary (.awaitReplica v config.backup) :: rest' ∧
      σ.crashed config.primary = false := by
  rcases rest with _ | ⟨⟨t, pc⟩ | _ | _, rest⟩
  · exact absurd (live.symm.trans standing.1) nofun
  · obtain rfl : pc = .awaitReplica v config.backup := known.1.fits _ rfl
    obtain ⟨config', howner, rfl, -⟩ := known.2.1.routed
    obtain rfl := owner_unique owner howner
    exact ⟨rest, rfl, standing_waits rfl standing.2.1⟩
  · exact standing.1.elim
  · exact standing.1.elim

/-- A call that waits for the crashed server has only its own request on top. -/
theorem standing_upper (standing : Frames (Standing σ) (upper ++ .call s pc :: lower))
    (awaits : pc.awaits = some p) (crashed : σ.crashed p = true) :
    upper = [] ∨ ∃ request, upper = [.request p request] := by
  rcases List.eq_nil_or_concat upper with rfl | ⟨above, f, rfl⟩
  · exact Or.inl rfl
  · rw [List.concat_eq_append, List.append_assoc] at standing
    have hf : Standing σ f (some (.call s pc)) := (frames_lower standing).1
    rcases f with ⟨t, pc'⟩ | ⟨q, request⟩ | r
    · obtain ⟨hlive, hawaits⟩ := hf
      obtain rfl := Option.some.inj (awaits.symm.trans hawaits)
      simp [crashed] at hlive
    · obtain rfl := Option.some.inj (awaits.symm.trans hf)
      rcases List.eq_nil_or_concat above with rfl | ⟨above, g, rfl⟩
      · exact Or.inr ⟨request, rfl⟩
      · -- nothing stands on a request
        rw [List.concat_eq_append, List.append_assoc] at standing
        have hg : Standing σ g (some (.request p request)) := (frames_lower standing).1
        cases g <;> exact hg.elim
    · obtain ⟨q, hawaits, hlive⟩ := hf
      obtain rfl := Option.some.inj (awaits.symm.trans hawaits)
      simp [crashed] at hlive

theorem idle_congr (crashed : σ'.crashed = σ.crashed) (h : Idle σ stack) : Idle σ' stack := by
  unfold Idle at h ⊢
  rwa [crashed]

theorem idle_stuck (h : Advance hash σ op stack σ' stack') : ¬ Idle σ stack := by
  rintro (rfl | ⟨p, request, rfl, hcrashed⟩)
  · cases h
  · have hlive : σ.crashed p = false := by cases h <;> assumption
    simp [hcrashed] at hlive

/-! ## Along a run -/

theorem oneCrash_crashStop (calm : ∀ w e, ok w e → AtRest oneCrash w e)
    (run : Run.Exec (World.step hash) ok .init es w) : Reaches hash crashStop es w :=
  run.mono fun w e h => by
    cases e with
    | hangUp i => rfl
    | _ => exact (calm w _ h).1

theorem quiet_standing (quiet : w.Quiet) {j : Job} (hj : j ∈ w.jobs) :
    Frames (Standing σ) j.stack := by
  rcases quiet j hj with hstack | ⟨t, hstack⟩
  · rw [hstack]
    trivial
  · rw [hstack]
    exact ⟨Or.inr rfl, trivial⟩

theorem standing (calm : ∀ w e, ok w e → AtRest oneCrash w e)
    (run : Run.Exec (World.step hash) ok .init es w) : ∀ j ∈ w.jobs,
      Frames (Standing w.servers) j.stack ∧ (j.attached = false → Idle w.servers j.stack) := by
  refine run.history (P := fun _ w => ∀ j ∈ w.jobs,
    Frames (Standing w.servers) j.stack ∧ (j.attached = false → Idle w.servers j.stack))
    (by simp [World.init]) ?_
  intro es w e w' prefix_run h allowed taken
  have hsound := sound (oneCrash_crashStop calm prefix_run)
  cases step_cases taken with
  | submitted s op live =>
    intro k hk
    rcases List.mem_append.mp hk with hk | hk
    · exact h k hk
    · obtain rfl := List.mem_singleton.mp hk
      exact ⟨⟨Or.inl live, trivial⟩, by simp⟩
  | advanced j pre post σ' stack' jobs hadvance =>
    have hcrashed := (advance_view hadvance).2
    obtain ⟨hstanding, hidle⟩ := h j (by simp [jobs])
    have hother : ∀ k ∈ w.jobs,
        Frames (Standing σ') k.stack ∧ (k.attached = false → Idle σ' k.stack) := fun k hk =>
      (h k hk).imp (frames_mono fun _ _ => standing_congr hcrashed) fun hk hattached =>
        idle_congr hcrashed (hk hattached)
    intro k hk
    simp only [List.mem_append, List.mem_cons] at hk
    rcases hk with hk | rfl | hk
    · exact hother k (by simp [jobs, hk])
    · exact ⟨standing_advance hadvance hstanding,
        fun hattached => absurd (hidle hattached) (idle_stuck hadvance)⟩
    · exact hother k (by simp [jobs, hk])
  | replied j pre post s r jobs stack live attached =>
    intro k hk
    simp only [List.mem_append, List.mem_cons] at hk
    rcases hk with hk | rfl | hk
    · exact h k (by simp [jobs, hk])
    · exact ⟨trivial, fun _ => Or.inl rfl⟩
    · exact h k (by simp [jobs, hk])
  | gaveUp j pre post s p pc upper lower jobs stack live awaits failed =>
    have hcrashed := hsound.marked s p failed
    obtain ⟨hstanding, hidle⟩ := h j (by simp [jobs])
    rw [stack] at hstanding hidle
    have hlower := frames_lower hstanding
    have hupper := standing_upper hstanding awaits hcrashed
    intro k hk
    simp only [List.mem_append, List.mem_cons, List.not_mem_nil, or_false] at hk
    rcases hk with (hk | rfl | hk) | rfl
    · exact h k (by simp [jobs, hk])
    · refine ⟨⟨standing_call live hlower.1, hlower.2⟩, fun hattached => ?_⟩
      rcases hidle hattached with hnil | ⟨q, request, hone, -⟩
      · simp at hnil
      · rcases hupper with rfl | ⟨request', rfl⟩ <;> cases hone
    · exact h k (by simp [jobs, hk])
    · rcases hupper with rfl | ⟨request, rfl⟩
      · exact ⟨trivial, fun _ => Or.inl rfl⟩
      · exact ⟨⟨hcrashed, trivial⟩, fun _ => Or.inr ⟨p, request, rfl, hcrashed⟩⟩
  | hungUp => cases (calm _ _ allowed).1
  | suspected s p other live => exact h
  | crashed s live =>
    have hquiet : w.Quiet := (calm _ _ allowed).2 s rfl
    refine fun j hj => ⟨quiet_standing hquiet hj, fun hattached => ?_⟩
    rcases (h j hj).2 hattached with hnil | ⟨p, request, hone, -⟩
    · exact Or.inl hnil
    · rcases hquiet j hj with hnil | ⟨t, hpanicked⟩
      · exact Or.inl hnil
      · cases hone.symm.trans hpanicked

/-! ## Users on their way to the backup -/

/-- While the primary runs, it has each user that the backup has or is about to get, and no user is
about to get there twice. -/
def Ahead (config : LocationConfig) (u : String) (w : World) : Prop :=
  w.servers.crashed config.primary = false →
    registered (w.servers.store config.backup) u + w.owing (.createUser u) ≤
      registered (w.servers.store config.primary) u

theorem registered_le (st : AppState) (u : String) : registered st u ≤ 1 := by
  unfold registered
  split_ifs <;> omega

theorem ahead_new {j : Job} (h : Ahead config u w) (live : w.servers.crashed config.primary = false)
    (hj : j ∈ w.jobs) (hop : j.op = .createUser u) (htop : toReplicate j.stack = some v) :
    u ∉ (w.servers.store config.backup).users := by
  intro hmem
  have hahead := h live
  have hone := registered_le (w.servers.store config.primary) u
  have hle : owed (.createUser u) j.op j.stack ≤ w.owing (.createUser u) := owed_le_owing hj
  rw [owed, if_pos hop, pending_toReplicate, htop] at hle
  rw [registered, if_pos hmem] at hahead
  simp only [Option.isSome_some, if_true] at hle
  omega

theorem pending_upper (upper lower : List Frame) : pending upper ≤ pending (upper ++ lower) := by
  unfold pending
  split <;> simp

/-- A call that gives up has nothing on its way: only its request may have. -/
theorem owed_giveUp (wanted op : Op) (awaits : pc.awaits = some p) :
    owed wanted op upper + owed wanted op (.call s pc.giveUp :: lower) ≤
      owed wanted op (upper ++ .call s pc :: lower) := by
  have hupper := pending_upper upper (.call s pc :: lower)
  have hlower : pending (.call s pc.giveUp :: lower) = 0 := by
    cases pc with
    | userAwait | awaitReplica | awaitForward | awaitPoll => rfl
    | _ => cases awaits
  simp only [owed, hlower]
  split_ifs <;> omega

theorem ahead_advance {j : Job} {pre post : List Job} (h : Ahead (userOwner hash u) u w)
    (sound : w.servers.Sound) (known : Known hash w.servers j.req j.op j.stack)
    (jobs : w.jobs = pre ++ j :: post) (hadvance : Advance hash w.servers j.op j.stack σ' stack') :
    Ahead (userOwner hash u) u
      { w with servers := σ', jobs := pre ++ { j with stack := stack' } :: post } := by
  intro live
  rw [(advance_view hadvance).2] at live
  have hahead := h live
  have hreplace := owing_replace (.createUser u) { j with stack := stack' } σ' w.returned jobs
  by_cases hop : j.op = .createUser u
  · have hne := userOwner_ne hash u
    have hone := registered_le (σ'.store (userOwner hash u).backup) u
    have halone : ∀ s, w.servers.crashed s = false → w.servers.Owns (userOwner hash u) s →
        s = (userOwner hash u).primary := fun s hs howns => by
      simpa [Servers.authority, live] using owns_authority sound hs howns
    rw [hop] at hadvance known
    simp only [owed, hop, if_true, pending_toReplicate] at hreplace ⊢
    rcases advance_changes hadvance halone known rfl rfl with ⟨hstore, hchange⟩ |
      ⟨v, state, locked, rfl, hbefore, hafter⟩ | ⟨v, r, state, rest, hstack, locked, rfl, hafter⟩
    · rw [hstore]
      rcases hchange with hsame | ⟨hnone, -⟩
      · rw [hsame] at hreplace
        omega
      · simp only [hnone, Option.isSome_none, Bool.false_eq_true, if_false] at hreplace
        omega
    · obtain ⟨hnew, hadded⟩ := createUser_ok locked
      simp only [hbefore, hafter, registered, setStore_store, Function.update_self,
        Function.update_of_ne hne.symm, hadded, hnew, Finset.mem_insert_self, if_true, if_false,
        Option.isSome_some, Option.isSome_none, Bool.false_eq_true] at hahead hreplace ⊢
      omega
    · have hbefore : toReplicate j.stack = some v := by rw [hstack]; rfl
      have hnew := ahead_new h live (by simp [jobs]) hop hbefore
      simp only [hbefore, hafter, setStore_store, Function.update_self,
        Function.update_of_ne hne, Option.isSome_some, Option.isSome_none, if_true,
        Bool.false_eq_true, if_false] at hone hreplace ⊢
      simp only [registered, if_neg hnew] at hahead
      simp only [registered] at hone ⊢
      omega
  · simp only [owed, if_neg hop] at hreplace ⊢
    rw [advance_registered hadvance hop, advance_registered hadvance hop]
    omega

theorem ahead (calm : ∀ w e, ok w e → AtRest oneCrash w e)
    (run : Run.Exec (World.step hash) ok .init es w) (u : String) :
    Ahead (userOwner hash u) u w := by
  refine run.history (P := fun _ w => Ahead (userOwner hash u) u w) ?_ ?_
  · simp [Ahead, World.init, World.owing, registered]
  intro es w e w' prefix_run h allowed taken
  have hrun := oneCrash_crashStop calm prefix_run
  cases step_cases taken with
  | submitted s op live => simpa [Ahead, World.owing, owed, pending] using h
  | advanced j pre post σ' stack' jobs hadvance =>
    exact ahead_advance h (sound hrun) (known es w hrun j (by simp [jobs])) jobs hadvance
  | replied j pre post s r jobs stack live attached =>
    intro live
    have hahead := h live
    have hreplace := owing_replace (.createUser u) { j with stack := [] } w.servers
      (w.returned ++ [⟨j.req, j.op, r⟩]) jobs
    simp only [owed, stack, pending, ite_self] at hreplace ⊢
    omega
  | gaveUp j pre post s p pc upper lower jobs stack live awaits failed =>
    intro live
    have hahead := h live
    have hgiveUp : owed (.createUser u) j.op upper +
        owed (.createUser u) j.op (.call s pc.giveUp :: lower) ≤
          owed (.createUser u) j.op (upper ++ .call s pc :: lower) := owed_giveUp _ _ awaits
    rw [World.owing, jobs] at hahead
    simp only [World.owing, List.map_append, List.map_cons, List.map_nil, List.sum_append,
      List.sum_cons, List.sum_nil, stack] at hahead ⊢
    omega
  | hungUp => cases (calm _ _ allowed).1
  | suspected s p other live => exact h
  | crashed s live =>
    intro hlive
    refine h ?_
    simp only [crash_crashed, Function.update_apply] at hlive
    split_ifs at hlive
    exact hlive

end MiniDiscord.Cluster
