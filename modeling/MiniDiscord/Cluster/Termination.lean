import MiniDiscord.Cluster.Stranded
import MiniDiscord.Forever

/-!
# Whether a request comes to an end

Forwarding, re-forwarding and retrying go on for ever only where a call finds both owners of its key
marked failed: it gets `None`, starts again, and finds them marked failed again. A client's request
that is spared this, and the panics of its own server, is answered.
-/

namespace MiniDiscord.Cluster

open DiscordStateops

/-- The job whose stack an event is about. -/
def Event.job : Event → Option ℕ
  | .advance i | .giveUp i _ | .hangUp i => some i
  | _ => none

/-- At this moment an event of job `i` is taken. -/
def Moved (event : ℕ → Option Event) (i t : ℕ) : Prop := (event t).bind Event.job = some i

/-- The client's call is alone on the stack of job `i`, and can take a step. -/
def OwnStep (hash : String → ℕ) (w : World) (i : ℕ) : Prop :=
  (w.step hash (.advance i)).isSome = true ∧
    ∃ j s pc, w.jobs[i]? = some j ∧ j.stack = [.call s pc]

/-- What the client's call of job `i` can do by itself is done in the end, and a call that waits
does not wait for ever on a peer that it takes to be alive: the request makes progress, or the peer
is marked failed. A crashed server need not do anything, and an answer need not arrive. -/
structure Fair (hash : String → ℕ) (world : ℕ → World) (event : ℕ → Option Event) (i : ℕ) :
    Prop where
  steps : ∀ t, (∀ t' ≥ t, OwnStep hash (world t') i) → ∃ t' ≥ t, event t' = some (.advance i)
  none : ∀ k, Run.WeaklyFair (World.step hash) world event (.giveUp i k)
  answered : ∀ t j s pc p, (world t).jobs[i]? = some j → .call s pc ∈ j.stack →
    pc.awaits = some p → ∃ t' ≥ t, Moved event i t' ∨ (world t').servers.view s p = false ∨
      (world t').servers.crashed s = true

/-- Each step of the calls of job `i` meets the condition. -/
def EachStep (condition : Servers → Op → List Frame → Bool) (world : ℕ → World)
    (event : ℕ → Option Event) (i : ℕ) : Prop :=
  ∀ t j, event t = some (.advance i) → (world t).jobs[i]? = some j →
    condition (world t).servers j.op j.stack = true

/-- The same for the steps of the client's own call alone. -/
def ownCarriesOn (hash : String → ℕ) (σ : Servers) (op : Op) (stack : List Frame) : Bool :=
  stack.length ≠ 1 || carriesOn hash σ op stack

/-- Job `i` can still answer its client. -/
def Pending (w : World) (i : ℕ) (job : Job) : Prop :=
  ∃ stack, w.jobs[i]? = some { job with stack } ∧ Continues job.home stack

/-- What is left to be done in job `i`. -/
def World.patience (hash : String → ℕ) (w : World) (i : ℕ) : ℕ :=
  (w.jobs[i]?).elim 0 fun j => weigh (Cluster.patience hash w.servers j.op) j.stack

variable {hash : String → ℕ} {w w' : World} {e : Event} {i : ℕ} {j job : Job} {op : Op}
  {stack : List Frame} {world : ℕ → World} {event : ℕ → Option Event} {home : ServerId}

theorem reaches_forever (run : Run.Forever (World.step hash) .init world event) (t : ℕ) :
    ∃ es, Reaches hash anyFailure es (world t) := by
  obtain ⟨es, hes⟩ := run.exec t
  refine ⟨es, hes.mono fun w e _ => ?_⟩
  cases e with
  | advance i => simp [Policy.allows, anyFailure]
  | _ => rfl

/-! ## Steps of others -/

theorem job_replaced (pre post : List Job) (j j' : Job) (h : pre.length ≠ i) :
    (pre ++ j' :: post)[i]? = (pre ++ j :: post)[i]? := by
  rw [← set_split pre post j j', List.getElem?_set_ne h]

/-- A job is left alone by the steps of others. -/
theorem job_unmoved (h : Step hash w e w') (other : e.job ≠ some i) (found : w.jobs[i]? = some j) :
    w'.jobs[i]? = some j := by
  have hi : i < w.jobs.length := (List.getElem?_eq_some_iff.mp found).1
  cases h with
  | submitted s op live => exact (List.getElem?_append_left hi).trans found
  | advanced k pre post σ' stack' jobs | replied k pre post s r jobs | hungUp k pre post jobs =>
    have hne : pre.length ≠ i := fun heq => other (congrArg some heq)
    rw [jobs] at found
    exact (job_replaced pre post k _ hne).trans found
  | gaveUp k pre post s p pc upper lower jobs =>
    have hne : pre.length ≠ i := fun heq => other (congrArg some heq)
    rw [jobs] at found hi
    have hlen :
        i < (pre ++ { k with stack := Frame.call s pc.giveUp :: lower } :: post).length := by
      simpa using hi
    exact (List.getElem?_append_left hlen).trans ((job_replaced pre post k _ hne).trans found)
  | suspected | crashed => exact found

theorem weigh_mono {weight weight' : Frame → ℕ} (h : ∀ f, weight' f ≤ weight f)
    (stack : List Frame) : weigh weight' stack ≤ weigh weight stack := by
  induction stack with
  | nil => exact le_refl _
  | cons f rest ih =>
    rw [weigh_cons, weigh_cons]
    exact Nat.add_le_add (h f) ih

/-- Whatever happens to the servers, no call has more to do than before. -/
theorem patience_step (h : Step hash w e w') (op : Op) (f : Frame) :
    patience hash w'.servers op f ≤ patience hash w.servers op f := by
  cases h with
  | advanced j pre post σ' stack' jobs advance =>
    rw [patience_view (advance_view advance).1]
  | suspected s p other live => exact patience_suspect
  | crashed s live =>
    have hview : (w.servers.crash s).view = w.servers.view := rfl
    rw [patience_view hview]
  | _ => exact le_refl _

theorem pending_unmoved (h : Step hash w e w') (other : e.job ≠ some i)
    (pending : Pending w i job) :
    Pending w' i job ∧ w'.patience hash i ≤ w.patience hash i := by
  obtain ⟨stack, found, hcontinues⟩ := pending
  have found' := job_unmoved h other found
  refine ⟨⟨stack, found', hcontinues⟩, ?_⟩
  rw [World.patience, World.patience, found, found']
  exact weigh_mono (patience_step h job.op) stack

/-! ## Steps of the job -/

/-- What an event of job `i` does while the client stays. -/
inductive JobStep (hash : String → ℕ) (w : World) (i : ℕ) (j : Job) (w' : World) : Event → Prop
  | advanced (stack' : List Frame)
      (advance : Advance hash w.servers j.op j.stack w'.servers stack')
      (computes : w.servers.advance hash j.op j.stack = some (w'.servers, stack'))
      (after : w'.jobs[i]? = some { j with stack := stack' }) : JobStep hash w i j w' (.advance i)
  | replied (s : ServerId) (r : StateResult Value) (stack : j.stack = [.call s (.done r)])
      (after : w'.jobs[i]? = some { j with stack := [] })
      (returned : ⟨j.req, j.op, r⟩ ∈ w'.returned) : JobStep hash w i j w' (.advance i)
  | gaveUp (s p : ServerId) (pc : Pc) (upper lower : List Frame)
      (stack : j.stack = upper ++ .call s pc :: lower) (awaits : pc.awaits = some p)
      (failed : w.servers.view s p = false) (servers : w'.servers = w.servers)
      (after : w'.jobs[i]? = some { j with stack := .call s pc.giveUp :: lower }) :
      JobStep hash w i j w' (.giveUp i upper.length)

theorem job_step (h : Step hash w e w') (found : w.jobs[i]? = some j) (moved : e.job = some i)
    (stays : e ≠ .hangUp i) : JobStep hash w i j w' e := by
  have hsplit : ∀ {pre post k}, w.jobs = pre ++ k :: post → pre.length = i → k = j := by
    rintro pre post k jobs rfl
    simpa [jobs] using found
  cases h with
  | advanced k pre post σ' stack' jobs advance computes =>
    obtain rfl : pre.length = i := Option.some.inj moved
    obtain rfl := hsplit jobs rfl
    exact .advanced stack' advance computes (by simp)
  | replied k pre post s r jobs stack =>
    obtain rfl : pre.length = i := Option.some.inj moved
    obtain rfl := hsplit jobs rfl
    exact .replied s r stack (by simp) (by simp)
  | gaveUp k pre post s p pc upper lower jobs stack live awaits failed =>
    obtain rfl : pre.length = i := Option.some.inj moved
    obtain rfl := hsplit jobs rfl
    exact .gaveUp s p pc upper lower stack awaits failed rfl (by simp)
  | hungUp k pre post =>
    obtain rfl : pre.length = i := Option.some.inj moved
    exact absurd rfl stays
  | submitted | suspected | crashed => cases moved

/-- **One step.** A pending job answers its client or stays pending, and it never has more to do
than before. Its own steps leave it less. -/
theorem pending_step {es : List Event} (run : Reaches hash anyFailure es w)
    (pending : Pending w i job) (taken : w.step hash e = some w') (stays : e ≠ .hangUp i)
    (goes_on : ∀ j, e = .advance i → w.jobs[i]? = some j →
      carriesOn hash w.servers j.op j.stack = true) :
    (∃ r, ⟨job.req, job.op, r⟩ ∈ w'.returned) ∨
      Pending w' i job ∧ w'.patience hash i ≤ w.patience hash i ∧
        (e.job = some i → w'.patience hash i < w.patience hash i) := by
  by_cases hmoved : e.job = some i
  swap
  · obtain ⟨hpending, hle⟩ := pending_unmoved (step_cases taken) hmoved pending
    exact Or.inr ⟨hpending, hle, fun h => absurd h hmoved⟩
  obtain ⟨stack, found, hcontinues⟩ := pending
  have hmem := List.mem_of_getElem? found
  have hknown := known es w run _ hmem
  -- only a strict decrease is left to show
  suffices h : (∃ r, ⟨job.req, job.op, r⟩ ∈ w'.returned) ∨
      Pending w' i job ∧ w'.patience hash i < w.patience hash i from
    h.imp_right fun ⟨hpending, hlt⟩ => ⟨hpending, hlt.le, fun _ => hlt⟩
  cases job_step (step_cases taken) found hmoved stays with
  | advanced stack' advance computes after =>
    obtain ⟨hreaches, hsurvives⟩ := Bool.and_eq_true_iff.mp (goes_on _ rfl found)
    have hcontinues' : Continues job.home stack' :=
      advance_continues advance computes hcontinues hknown (view_self run _)
        (fun rest hstack => commit_some run hmem hstack) hsurvives
    refine Or.inr ⟨⟨stack', after, hcontinues'⟩, ?_⟩
    rw [World.patience, World.patience, found, after]
    exact advance_patience advance computes hknown hreaches
  | replied s r _ _ returned => exact Or.inl ⟨r, returned⟩
  | gaveUp s p pc upper lower hstack awaits failed servers after =>
    obtain rfl : stack = upper ++ .call s pc :: lower := hstack
    refine Or.inr ⟨⟨_, after, giveUp_continues hcontinues awaits⟩, ?_⟩
    have hgiveUp : patience hash w.servers job.op (.call s pc.giveUp) <
        patience hash w.servers job.op (.call s pc) := patience_giveUp awaits failed
    simp only [World.patience, found, after, servers, Option.elim_some, weigh_append, weigh_cons]
    omega

/-! ## No call is stuck -/

theorem step_advance (found : w.jobs[i]? = some j) (undone : ∀ s r, j.stack ≠ [.call s (.done r)]) :
    w.step hash (.advance i) = (w.servers.advance hash j.op j.stack).map fun x =>
      { w.setJob i { j with stack := x.2 } with servers := x.1 } := by
  simp only [World.step, found, Option.bind_eq_bind, Option.bind_some]
  cases w.servers.advance hash j.op j.stack <;> rfl

/-- The client's own call can take a step unless it waits. -/
theorem own_step {es : List Event} (run : Reaches hash anyFailure es w) {pc : Pc}
    (found : w.jobs[i]? = some { job with stack := [.call job.home pc] })
    (attached : job.attached = true) (live : w.servers.crashed job.home = false)
    (panicked : pc ≠ .panicked) (awaits : pc.awaits = none) :
    (w.step hash (.advance i)).isSome = true := by
  by_cases hdone : ∃ r, pc = .done r
  · obtain ⟨r, rfl⟩ := hdone
    simp [World.step, found, live, attached]
  · have hundone : ∀ r, pc ≠ .done r := fun r hr => hdone ⟨r, hr⟩
    have hplaced : Placed hash w.servers job.op (.call job.home pc) none :=
      (known es w run _ (List.mem_of_getElem? found)).1
    rw [step_advance found (fun s r h => hundone r (by cases h; rfl)), Option.isSome_map,
      advance_call live hundone, Option.isSome_map]
    exact stepCall_isSome hplaced awaits panicked hundone

/-- **A pending job moves on.** -/
theorem job_goes_on (run : Run.Forever (World.step hash) .init world event)
    (fair : Fair hash world event i) (attached : job.attached = true)
    (running : ∀ t, (world t).servers.crashed job.home = false) {t : ℕ}
    (pending : Pending (world t) i job) : ∃ t' ≥ t, Moved event i t' := by
  by_contra hnever
  push Not at hnever
  obtain ⟨_, found, upper, pc, rfl, hpc, hwaits⟩ := pending
  have hsame : ∀ t' ≥ t, (world t').jobs[i]? =
      some { job with stack := upper ++ [.call job.home pc] } := fun t' later =>
    run.stays (P := fun w => w.jobs[i]? = _) found (fun k hk e m' h he taken =>
      job_unmoved (step_cases taken) (fun hjob => hnever k hk (by simp [Moved, he, hjob])) h) later
  cases hp : pc.awaits with
  | some p =>
    obtain ⟨t₁, hle, hmoved | hfailed | hcrashed⟩ :=
      fair.answered t _ job.home pc p found (by simp) hp
    · exact hnever t₁ hle hmoved
    · -- the peer stays marked failed, and the call can be given `None`
      have henabled : ∀ t' ≥ t₁,
          ((world t').step hash (.giveUp i upper.length)).isSome = true := by
        intro t' later
        have hview : (world t').servers.view job.home p = false :=
          run.stays (P := fun w => w.servers.view job.home p = false) hfailed
            (fun _ _ _ _ h _ taken => (grows_step (step_cases taken)).view _ _ h) later
        simp [World.step, hsame t' (by omega), hp, hview, running t']
      obtain ⟨t₂, hle₂, hevent⟩ := fair.none upper.length t₁ henabled
      exact hnever t₂ (by omega) (by simp [Moved, hevent, Event.job])
    · simp [running] at hcrashed
  | none =>
    obtain rfl : upper = [] := by
      by_contra hne
      simp [hp] at hwaits
      exact hne hwaits
    have henabled : ∀ t' ≥ t, OwnStep hash (world t') i := by
      intro t' later
      obtain ⟨es, hes⟩ := reaches_forever run t'
      exact ⟨own_step hes (hsame t' later) attached (running t') hpc hp, _, _, _,
        hsame t' later, rfl⟩
    obtain ⟨t₂, hle₂, hevent⟩ := fair.steps t henabled
    exact hnever t₂ hle₂ (by simp [Moved, hevent, Event.job])

/-! ## A doomed call -/

/-- The client's call is alone on its stack, and it is doomed. -/
def Hangs (hash : String → ℕ) (w : World) (i : ℕ) (job : Job) : Prop :=
  ∃ pc, w.jobs[i]? = some { job with stack := [.call job.home pc] } ∧
    Doomed hash w.servers job.op job.home pc

/-- What the lowest call computes by itself. -/
theorem own_computes {σ σ' : Servers} {s : ServerId} {pc : Pc} {stack' : List Frame}
    (h : Advance hash σ op [.call s pc] σ' stack')
    (computes : σ.advance hash op [.call s pc] = some (σ', stack')) :
    σ.stepCall hash op s pc = some (σ', stack') := by
  have hundone : ∀ r, pc ≠ .done r := by
    rintro r rfl
    simp [Servers.advance, Servers.stepCall] at computes
  rw [advance_call (advance_live h) hundone] at computes
  simpa using computes

theorem hangs_step (hangs : Hangs hash w i job) (h : Step hash w e w') (stays : e ≠ .hangUp i) :
    Hangs hash w' i job := by
  obtain ⟨pc, found, hdoomed⟩ := hangs
  by_cases hmoved : e.job = some i
  swap
  · exact ⟨pc, job_unmoved h hmoved found, doomed_grows (grows_step h) hdoomed⟩
  cases job_step h found hmoved stays with
  | advanced stack' advance computes after =>
    obtain ⟨hsame, pc', rfl, hdoomed'⟩ := doomed_stepCall hdoomed (own_computes advance computes)
    exact ⟨pc', after, hsame ▸ hdoomed'⟩
  | replied s r stack =>
    cases stack
    rcases hdoomed with hpc | ⟨config, hretries, -⟩
    · cases hpc
    · cases hretries
  | gaveUp s p pc' upper lower stack awaits failed servers after =>
    rcases List.append_eq_singleton_iff.mp stack.symm with ⟨rfl, hcall⟩ | ⟨-, hnil⟩
    · cases hcall
      exact ⟨pc.giveUp, after, servers ▸ doomed_giveUp hdoomed awaits⟩
    · cases hnil

/-- A step of the client's call that does not carry on leaves it hanging. -/
theorem hangs_start {pc : Pc} (h : Step hash w (.advance i) w')
    (found : w.jobs[i]? = some { job with stack := [.call job.home pc] })
    (stops : carriesOn hash w.servers job.op [.call job.home pc] = false) :
    Hangs hash w' i job := by
  cases job_step h found rfl (by simp) with
  | advanced stack' advance computes after =>
    obtain ⟨pc', rfl, hdoomed⟩ := stepCall_doomed (own_computes advance computes) stops
    exact ⟨pc', after, hdoomed⟩
  | replied s r stack =>
    cases stack
    simp [carriesOn, reachesOwner, survives, Pc.routes, Servers.forwardsTo, Op.locks] at stops

/-- A request that can still be answered was not answered yet. -/
theorem unanswered {es : List Event} (run : Reaches hash anyFailure es w)
    (found : w.jobs[i]? = some j) (attached : j.attached = true) (nonempty : j.stack ≠ []) :
    ∀ reply ∈ w.returned, reply.req ≠ j.req := by
  intro reply hreply heq
  have hclaim : j.req ∈ w.jobs.filterMap Job.claim :=
    List.mem_filterMap.mpr ⟨j, List.mem_of_getElem? found, by simp [Job.claim, attached, nonempty]⟩
  have hdisjoint := (List.nodup_append'.mp (claimed_nodup run).1).2.2
  exact hdisjoint (List.mem_map_of_mem hreply) (heq ▸ hclaim)

theorem returned_mono (h : Step hash w e w') {reply : Reply} (hreply : reply ∈ w.returned) :
    reply ∈ w'.returned := by
  cases h with
  | replied => exact List.mem_append_left _ hreply
  | _ => exact hreply

/-! ## The client's job -/

/-- Job `i` is the request that it was, with the client's call at the bottom until it is
answered. -/
def Posed (w : World) (i : ℕ) (job : Job) : Prop :=
  ∃ stack, w.jobs[i]? = some { job with stack } ∧
    (stack = [] ∨ ∃ upper pc, stack = upper ++ [.call job.home pc])

theorem posed_step (posed : Posed w i job) (h : Step hash w e w') (stays : e ≠ .hangUp i) :
    Posed w' i job := by
  obtain ⟨stack, found, hlowest⟩ := posed
  by_cases hmoved : e.job = some i
  swap
  · exact ⟨stack, job_unmoved h hmoved found, hlowest⟩
  cases job_step h found hmoved stays with
  | advanced stack' advance computes after =>
    rcases hlowest with rfl | ⟨upper, pc, rfl⟩
    · exact absurd rfl (advance_ne_nil advance)
    · exact ⟨stack', after, Or.inr (advance_lowest advance)⟩
  | replied s r _ after => exact ⟨[], after, Or.inl rfl⟩
  | gaveUp s p pc upper lower hstack _ _ _ after =>
    obtain rfl : stack = upper ++ .call s pc :: lower := hstack
    rcases hlowest with hnil | ⟨upper', pc', hlowest⟩
    · simp at hnil
    · exact ⟨_, after, Or.inr (giveUp_lowest hlowest)⟩

theorem jobs_length_mono (h : Step hash w e w') : w.jobs.length ≤ w'.jobs.length := by
  cases h with
  | submitted => simp
  | advanced _ _ _ _ _ jobs | replied _ _ _ _ _ jobs | hungUp _ _ _ jobs => simp [jobs]
  | gaveUp _ _ _ _ _ _ _ _ jobs => simp [jobs]
  | suspected | crashed => exact le_refl _

/-! ## Endless runs -/

/-- The client of the request is told a result. -/
def Returns (world : ℕ → World) (req : ℕ) (op : Op) : Prop :=
  ∃ t r, ⟨req, op, r⟩ ∈ (world t).returned

/-- The job of a request that arrives. -/
def World.asked (w : World) (s : ServerId) (op : Op) : Job :=
  ⟨w.nextReq, op, s, true, [.call s .start]⟩

theorem submitted_found {w' : World} {s : ServerId} (h : w.step hash (.submit s op) = some w') :
    w'.jobs[w.jobs.length]? = some (w.asked s op) := by
  cases step_cases h with
  | submitted => simp [World.asked]

theorem pending_next (run : Run.Forever (World.step hash) .init world event)
    (stays : ∀ t, event t ≠ some (.hangUp i)) (goes_on : EachStep (carriesOn hash) world event i)
    (t : ℕ) (pending : Pending (world t) i job) :
    (∃ r, ⟨job.req, job.op, r⟩ ∈ (world (t + 1)).returned) ∨ Pending (world (t + 1)) i job ∧
      (world (t + 1)).patience hash i ≤ (world t).patience hash i ∧
        (Moved event i t → (world (t + 1)).patience hash i < (world t).patience hash i) := by
  cases he : event t with
  | none =>
    rw [run.idle t he]
    exact Or.inr ⟨pending, le_refl _, fun hmoved => by simp [Moved, he] at hmoved⟩
  | some e =>
    obtain ⟨es, hes⟩ := reaches_forever run t
    have hstays : e ≠ .hangUp i := fun h => stays t (he.trans (congrArg some h))
    have hmoved : Moved event i t → e.job = some i := fun h => by simpa [Moved, he] using h
    rcases pending_step hes pending (run.taken t e he) hstays
        (fun j hadvance found => goes_on t j (he.trans (congrArg some hadvance)) found) with
      hanswered | ⟨hpending, hle, hlt⟩
    · exact Or.inl hanswered
    · exact Or.inr ⟨hpending, hle, fun h => hlt (hmoved h)⟩

/-- A pending job whose steps all carry on answers its client. -/
theorem pending_returns (run : Run.Forever (World.step hash) .init world event)
    (attached : job.attached = true) (running : ∀ t, (world t).servers.crashed job.home = false)
    (stays : ∀ t, event t ≠ some (.hangUp i)) (fair : Fair hash world event i)
    (goes_on : EachStep (carriesOn hash) world event i) {t : ℕ}
    (pending : Pending (world t) i job) :
    Returns world job.req job.op := by
  obtain ⟨t', -, r, hreply⟩ : ∃ t' > t, ∃ r, ⟨job.req, job.op, r⟩ ∈ (world t').returned :=
    Run.reaches_goal (fun t => (world t).patience hash i) (pending_next run stays goes_on)
      (fun t => job_goes_on run fair attached running) pending
  exact ⟨t', r, hreply⟩

/-- A client whose call hangs is never told a result. -/
theorem hangs_unanswered (run : Run.Forever (World.step hash) .init world event)
    (attached : job.attached = true) (stays : ∀ t, event t ≠ some (.hangUp i)) {t : ℕ}
    (hangs : Hangs hash (world t) i job) : ¬ Returns world job.req job.op := by
  rintro ⟨t₁, r, hreply⟩
  have hlate : ⟨job.req, job.op, r⟩ ∈ (world (max t t₁)).returned :=
    run.stays (P := fun w => _ ∈ w.returned) hreply
      (fun _ _ _ _ h _ taken => returned_mono (step_cases taken) h) (le_max_right t t₁)
  obtain ⟨pc, found, -⟩ : Hangs hash (world (max t t₁)) i job :=
    run.stays (P := fun w => Hangs hash w i job) hangs
      (fun k _ e _ h he taken => hangs_step h (step_cases taken)
        fun heq => stays k (he.trans (congrArg some heq))) (le_max_left t t₁)
  obtain ⟨es, hes⟩ := reaches_forever run (max t t₁)
  exact unanswered hes found attached (List.cons_ne_nil _ _) _ hlate rfl

/-- Before it is submitted, a job takes no step. -/
theorem job_later (run : Run.Forever (World.step hash) .init world event) {t₀ t : ℕ}
    (found : (world t).jobs[(world t₀).jobs.length]? = some j) : t₀ < t := by
  by_contra hle
  have hlength : (world t).jobs.length ≤ (world t₀).jobs.length :=
    run.stays (P := fun w => (world t).jobs.length ≤ w.jobs.length) (le_refl _)
      (fun _ _ _ _ h _ taken => h.trans (jobs_length_mono (step_cases taken))) (by omega)
  have := (List.getElem?_eq_some_iff.mp found).1
  omega

/-- **Requests come to an end**, unless a call finds all that it can forward to marked failed, or
the client's own call panics. One of these in the client's own call, and it never does. -/
theorem request_returns {t₀ : ℕ} (run : Run.Forever (World.step hash) .init world event)
    (submitted : event t₀ = some (.submit home op))
    (running : ∀ t, (world t).servers.crashed home = false)
    (stays : ∀ t, event t ≠ some (.hangUp (world t₀).jobs.length))
    (fair : Fair hash world event (world t₀).jobs.length) :
    (EachStep (carriesOn hash) world event (world t₀).jobs.length →
      Returns world (world t₀).nextReq op) ∧
    (Returns world (world t₀).nextReq op →
      EachStep (ownCarriesOn hash) world event (world t₀).jobs.length) := by
  have found := submitted_found (run.taken t₀ _ submitted)
  constructor
  · intro goes_on
    have hstart : Pending (world (t₀ + 1)) (world t₀).jobs.length ((world t₀).asked home op) :=
      ⟨[.call home .start], found, continues_single (by simp)⟩
    exact pending_returns run rfl running stays fair goes_on hstart
  · intro answered t j hevent hj
    have hposed : Posed (world t) (world t₀).jobs.length ((world t₀).asked home op) :=
      run.stays (P := fun w => Posed w (world t₀).jobs.length ((world t₀).asked home op))
        ⟨[.call home .start], found, Or.inr ⟨[], .start, rfl⟩⟩
        (fun k _ e _ h he taken => posed_step h (step_cases taken)
          fun heq => stays k (he.trans (congrArg some heq))) (job_later run hj)
    obtain ⟨stack, hfound, hlowest⟩ := hposed
    obtain rfl := Option.some.inj (hj.symm.trans hfound)
    by_contra hstops
    obtain ⟨hone, hstops⟩ : stack.length = 1 ∧
        carriesOn hash (world t).servers op stack = false := by
      simpa [ownCarriesOn, World.asked] using hstops
    obtain ⟨pc, rfl⟩ : ∃ pc, stack = [.call home pc] := by
      rcases hlowest with rfl | ⟨upper, pc, rfl⟩
      · cases hone
      · obtain rfl : upper = [] := by simpa using hone
        exact ⟨pc, rfl⟩
    exact hangs_unanswered run rfl stays
      (hangs_start (step_cases (run.taken t _ hevent)) hfound hstops) answered

/-- A job that goes on until it is over is treated fairly. -/
theorem fair_of_end {n : ℕ} (last : ∀ t < n, ∃ t' ≥ t, event t' = some (.advance i))
    (ended : ∀ t ≥ n, ∃ j, (world t).jobs[i]? = some j ∧ j.stack = []) :
    Fair hash world event i := by
  have hadvance : ∀ t ≥ n, ((world t).step hash (.advance i)).isSome = false := by
    intro t ht
    obtain ⟨j, found, hstack⟩ := ended t ht
    simp [World.step, found, hstack, Servers.advance]
  have hgiveUp : ∀ k, ∀ t ≥ n, ((world t).step hash (.giveUp i k)).isSome = false := by
    intro k t ht
    obtain ⟨j, found, hstack⟩ := ended t ht
    simp [World.step, found, hstack]
  refine ⟨fun t henabled => ?_, fun k t henabled => ?_, fun t j s pc p found hcall _ => ?_⟩
  · have := (henabled (max t n) (le_max_left t n)).1
    rw [hadvance _ (le_max_right t n)] at this
    cases this
  · have := henabled (max t n) (le_max_left t n)
    rw [hgiveUp k _ (le_max_right t n)] at this
    cases this
  · by_cases ht : t < n
    · obtain ⟨t', hle, hevent⟩ := last t ht
      exact ⟨t', hle, Or.inl (by simp [Moved, hevent, Event.job])⟩
    · obtain ⟨j', found', hstack⟩ := ended t (by omega)
      obtain rfl := Option.some.inj (found.symm.trans found')
      simp [hstack] at hcall

/-- `C` asks `A`, marks it failed, and asks `B`, which has marked it failed as well. -/
def askedTwice : List Event :=
  asks .C (.createUser "alice") 0 2 ++ [.suspect .C .A, .giveUp 0 1] ++ steps 0 3 ++
    [.suspect .B .A] ++ steps 0 6

abbrev askedTwiceWorld : ℕ → World :=
  Run.unrolled (World.step fun _ => 0) .init fun t => askedTwice[t]?

theorem askedTwice_all {P : World → Prop} (h : ∀ t < 16, P (askedTwiceWorld t)) (t : ℕ) :
    P (askedTwiceWorld t) := by
  have hlength : askedTwice.length = 15 := rfl
  rw [askedTwiceWorld, Run.unrolled_list, hlength]
  exact h _ (by omega)

theorem request_returns_asked_twice :
    ∃ world event, Run.Forever (World.step fun _ => 0) .init world event ∧
      event 0 = some (.submit .C (.createUser "alice")) ∧
      Returns world 0 (.createUser "alice") := by
  have hrun :
      Run.Forever (World.step fun _ => 0) .init askedTwiceWorld fun t => askedTwice[t]? := by
    refine Run.forever_unrolled fun t e he => ?_
    have henabled : ∀ t < 15, (askedTwice[t]?).all
        fun e => ((askedTwiceWorld t).step (fun _ => 0) e).isSome := by decide +kernel
    have ht : t < 15 := (List.getElem?_eq_some_iff.mp he).1
    simpa [he] using henabled t ht
  have hsubmitted : (fun t => askedTwice[t]?) 0 = some (.submit .C (.createUser "alice")) := rfl
  have hrunning : ∀ t, (askedTwiceWorld t).servers.crashed .C = false :=
    askedTwice_all (P := fun w => w.servers.crashed .C = false) (by decide +kernel)
  have hstays : ∀ t, askedTwice[t]? ≠ some (Event.hangUp 0) := fun t ht =>
    absurd (List.mem_of_getElem? ht) (by decide)
  have hfair : Fair (fun _ => 0) askedTwiceWorld (fun t => askedTwice[t]?) 0 := by
    refine fair_of_end (n := 15) (fun t ht => ⟨14, by omega, rfl⟩) fun t ht => ?_
    have hend : askedTwiceWorld t = askedTwiceWorld 15 :=
      Run.unrolled_end (fun k hk => List.getElem?_eq_none hk) ht
    have hover : (askedTwiceWorld 15).jobs[0]?.any (·.stack = []) = true := by decide +kernel
    obtain ⟨j, found, hstack⟩ := (Option.any_eq_true _ _).mp hover
    exact ⟨j, hend ▸ found, of_decide_eq_true hstack⟩
  have hcarriesOn :
      EachStep (carriesOn fun _ => 0) askedTwiceWorld (fun t => askedTwice[t]?) 0 := by
    intro t j hevent found
    have hon : ∀ t < 15, (askedTwiceWorld t).jobs[0]?.all fun j =>
        carriesOn (fun _ => 0) (askedTwiceWorld t).servers j.op j.stack := by decide +kernel
    have ht : t < 15 := (List.getElem?_eq_some_iff.mp hevent).1
    simpa [found] using hon t ht
  exact ⟨_, _, hrun, hsubmitted,
    (request_returns hrun hsubmitted hrunning hstays hfair).1 hcarriesOn⟩

/-- `A` and `B` crash, and `C`, which knows it, is asked for a user of theirs. From then on it
forwards to nobody, is given `None`, and tries again. -/
def asksNobody : ℕ → Option Event
  | 0 => some (.crash .A)
  | 1 => some (.crash .B)
  | 2 => some (.suspect .C .A)
  | 3 => some (.suspect .C .B)
  | 4 => some (.submit .C (.createUser "alice"))
  | t + 5 => if t % 3 = 2 then some (.giveUp 0 0) else some (.advance 0)

abbrev asksNobodyWorld : ℕ → World := Run.unrolled (World.step fun _ => 0) .init asksNobody

/-- `C` is alone, and its call stands at `pc`. -/
structure Retrying (w : World) (pc : Pc) : Prop where
  servers : w.servers =
    (((World.init.servers.crash .A).crash .B).suspect .C .A).suspect .C .B
  found : w.jobs[0]? = some ⟨0, .createUser "alice", .C, true, [.call .C pc]⟩

theorem retrying_advance {pc : Pc} (h : Retrying w pc) (pc' : Pc) (undone : ∀ r, pc ≠ .done r)
    (computes : w.servers.advance (fun _ => 0) (.createUser "alice") [.call .C pc] =
      some (w.servers, [.call .C pc'])) :
    ∃ w', w.step (fun _ => 0) (.advance 0) = some w' ∧ Retrying w' pc' := by
  have hlength : 0 < w.jobs.length := (List.getElem?_eq_some_iff.mp h.found).1
  have hstep : w.step (fun _ => 0) (.advance 0) = _ :=
    step_advance h.found fun s r hs => undone r (by cases hs; rfl)
  rw [computes, Option.map_some] at hstep
  exact ⟨_, hstep, h.servers, List.getElem?_set_self hlength⟩

theorem retrying_giveUp (h : Retrying w (.awaitForward .B)) :
    ∃ w', w.step (fun _ => 0) (.giveUp 0 0) = some w' ∧ Retrying w' .start := by
  have hlength : 0 < w.jobs.length := (List.getElem?_eq_some_iff.mp h.found).1
  have hlive : w.servers.crashed .C = false := by rw [h.servers]; rfl
  have hview : w.servers.view .C .B = false := by rw [h.servers]; rfl
  have hstep : w.step (fun _ => 0) (.giveUp 0 0) = some { w with
      jobs := w.jobs.set 0 ⟨0, .createUser "alice", .C, true, [.call .C .start]⟩ ++
        [⟨0, .createUser "alice", .C, false, []⟩] } := by
    simp [World.step, World.setJob, h.found, Pc.awaits, Pc.giveUp, hlive, hview]
  refine ⟨_, hstep, h.servers, ?_⟩
  rw [List.getElem?_append_left (by simpa using hlength)]
  exact List.getElem?_set_self hlength

/-- The three places of the loop. -/
def loopPc (n : ℕ) : Pc :=
  if n % 3 = 0 then .start else if n % 3 = 1 then .route else .awaitForward .B

theorem retrying_next {n : ℕ} (h : Retrying w (loopPc n)) : ∃ e w', asksNobody (n + 5) = some e ∧
    w.step (fun _ => 0) e = some w' ∧ Retrying w' (loopPc (n + 1)) := by
  obtain hn | hn | hn : n % 3 = 0 ∨ n % 3 = 1 ∨ n % 3 = 2 := by omega
  · have hnext : loopPc (n + 1) = .route := by simp [loopPc, Nat.add_mod, hn]
    rw [show loopPc n = .start by simp [loopPc, hn]] at h
    obtain ⟨w', hstep, h'⟩ := retrying_advance h .route (by simp) (by rw [h.servers]; rfl)
    exact ⟨_, w', by simp [asksNobody, hn], hstep, hnext ▸ h'⟩
  · have hnext : loopPc (n + 1) = .awaitForward .B := by simp [loopPc, Nat.add_mod, hn]
    rw [show loopPc n = .route by simp [loopPc, hn]] at h
    obtain ⟨w', hstep, h'⟩ := retrying_advance h (.awaitForward .B) (by simp)
      (by rw [h.servers]; rfl)
    exact ⟨_, w', by simp [asksNobody, hn], hstep, hnext ▸ h'⟩
  · have hnext : loopPc (n + 1) = .start := by simp [loopPc, Nat.add_mod, hn]
    rw [show loopPc n = .awaitForward .B by simp [loopPc, hn]] at h
    obtain ⟨w', hstep, h'⟩ := retrying_giveUp h
    exact ⟨_, w', by simp [asksNobody, hn], hstep, hnext ▸ h'⟩

theorem asksNobody_loops (n : ℕ) : Retrying (asksNobodyWorld (n + 5)) (loopPc n) := by
  induction n with
  | zero => exact ⟨rfl, by decide +kernel⟩
  | succ n ih =>
    obtain ⟨e, w', he, hstep, h'⟩ := retrying_next ih
    have hworld : asksNobodyWorld (n + 1 + 5) = w' := by
      rw [asksNobodyWorld, Nat.add_right_comm, Run.unrolled, he]
      simp [hstep]
    rwa [hworld]

theorem request_hangs :
    ∃ world event, Run.Forever (World.step fun _ => 0) .init world event ∧
      event 4 = some (.submit .C (.createUser "alice")) ∧
      (∀ t, (world t).servers.crashed .C = false) ∧
      (∀ t, event t ≠ some (.hangUp (world 4).jobs.length)) ∧
      Fair (fun _ => 0) world event (world 4).jobs.length ∧
      ¬ Returns world (world 4).nextReq (.createUser "alice") := by
  have hrun : Run.Forever (World.step fun _ => 0) .init asksNobodyWorld asksNobody := by
    refine Run.forever_unrolled fun t e he => ?_
    by_cases ht : t < 5
    · have henabled : ∀ t < 5, (asksNobody t).all
          fun e => ((asksNobodyWorld t).step (fun _ => 0) e).isSome := by decide +kernel
      simpa [he] using henabled t ht
    · obtain ⟨n, rfl⟩ : ∃ n, t = n + 5 := ⟨t - 5, by omega⟩
      obtain ⟨e', w', he', hstep, -⟩ := retrying_next (asksNobody_loops n)
      obtain rfl := Option.some.inj (he.symm.trans he')
      exact Option.isSome_iff_exists.mpr ⟨w', hstep⟩
  have hrunning : ∀ t, (asksNobodyWorld t).servers.crashed .C = false := by
    intro t
    by_cases ht : t < 5
    · have hcrashed : ∀ t < 5, (asksNobodyWorld t).servers.crashed .C = false := by
        decide +kernel
      exact hcrashed t ht
    · obtain ⟨n, rfl⟩ : ∃ n, t = n + 5 := ⟨t - 5, by omega⟩
      rw [(asksNobody_loops n).servers]
      rfl
  have hindex : (asksNobodyWorld 4).jobs.length = 0 := rfl
  have hadvance : ∀ t, asksNobody (3 * t + 5) = some (.advance 0) := fun t => by
    simp [asksNobody]
  have hstays : ∀ t, asksNobody t ≠ some (.hangUp 0) := by
    intro t
    by_cases ht : t < 5
    · have : ∀ t < 5, asksNobody t ≠ some (.hangUp 0) := by decide
      exact this t ht
    · obtain ⟨n, rfl⟩ : ∃ n, t = n + 5 := ⟨t - 5, by omega⟩
      rw [asksNobody]
      split_ifs <;> simp
  have hfair : Fair (fun _ => 0) asksNobodyWorld asksNobody 0 := by
    refine ⟨fun t _ => ⟨3 * t + 5, by omega, hadvance t⟩, fun k t henabled => ?_,
      fun t _ _ _ _ _ _ _ => ⟨3 * t + 5, by omega, Or.inl (by simp [Moved, hadvance, Event.job])⟩⟩
    cases k with
    | zero => exact ⟨3 * t + 2 + 5, by omega, by simp [asksNobody, Nat.add_mod]⟩
    | succ k =>
      -- there is one frame only
      have := henabled (3 * t + 5) (by omega)
      simp [World.step, (asksNobody_loops (3 * t)).found] at this
  have hlost : Hangs (fun _ => 0) (asksNobodyWorld 5) 0
      ⟨0, .createUser "alice", .C, true, [.call .C .start]⟩ := by
    refine ⟨.start, (asksNobody_loops 0).found, Or.inr ⟨⟨.A, .B⟩, rfl, ?_⟩⟩
    rw [(asksNobody_loops 0).servers]
    exact ⟨by decide, by decide, rfl, rfl⟩
  exact ⟨asksNobodyWorld, asksNobody, hrun, rfl, hrunning, hindex ▸ hstays, hindex ▸ hfair,
    hangs_unanswered hrun rfl hstays hlost⟩

end MiniDiscord.Cluster
