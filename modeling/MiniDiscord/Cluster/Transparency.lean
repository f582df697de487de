import MiniDiscord.Cluster.Calls

/-!
# Location transparency

Clients that ask one after the other, each at a server of its choice, are answered as one central
store would answer them, also when a server crashes between two of their requests.
-/

namespace MiniDiscord.Cluster

open DiscordStateops

/-! ## One request after the other -/

def World.Idle (w : World) : Prop := ∀ j ∈ w.jobs, j.stack = []

instance (w : World) : Decidable w.Idle := inferInstanceAs (Decidable (∀ j ∈ w.jobs, j.stack = []))

/-- A request waits until the one before was answered. At most one server crashes, between two
requests, and the running servers mark it failed before the next. -/
def sequential (w : World) : Event → Bool
  | .submit _ _ => w.Idle ∧ w.servers.Settled
  | .crash _ => w.Idle ∧ ∀ s, w.servers.crashed s = false
  | .suspect _ p => w.servers.crashed p
  | .hangUp _ => false
  | .advance _ | .giveUp _ _ => true

abbrev InTurn (hash : String → ℕ) (w : World) (es : List Event) (w' : World) : Prop :=
  Run.Exec (World.step hash) (fun w e => sequential w e = true) w es w'

def submitted (es : List Event) : List Op :=
  es.filterMap fun
    | .submit _ op => some op
    | _ => none

/-- The central store's results for the requests in order, and what it holds then. -/
def serveAll (ops : List Op) : Option (List (StateResult Value) × AppState) :=
  ops.foldlM (fun x op => (central op x.2).map fun y => (x.1 ++ [y.1], y.2)) ([], centralInit)

variable {hash : String → ℕ} {σ σ' : Servers} {op : Op} {stack stack' : List Frame} {w w' : World}
  {st st' : AppState} {rs : List (StateResult Value)} {r r' : StateResult Value} {ops : List Op}
  {s : ServerId} {e : Event} {pre : List Job} {j : Job}

theorem serveAll_append (h : serveAll ops = some (rs, st))
    (answer : central op st = some (r, st')) :
    serveAll (ops ++ [op]) = some (rs ++ [r], st') := by
  rw [serveAll] at h
  simp [serveAll, List.foldlM_append, h, answer]

/-! ## Nobody gives up -/

/-- The peers that a poll has yet to ask. -/
def Pc.polls : Pc → List ServerId
  | .pollOwn peers | .poll _ peers | .awaitPoll _ _ peers => peers
  | _ => []

/-- The peer that is waited for, and those that will be asked next, are not marked failed. -/
def Patient (σ : Servers) : Frame → Prop
  | .call s pc =>
    (∀ p, pc.awaits = some p → σ.view s p = true) ∧ ∀ p ∈ pc.polls, σ.view s p = true
  | _ => True

theorem entry_awaits : op.entry.awaits = none ∧ op.entry.polls = [] := by
  cases op <;> exact ⟨rfl, rfl⟩

theorem resume_awaits (pc : Pc) (r : StateResult Value) :
    (pc.resume r).awaits = none ∧ (pc.resume r).polls ⊆ pc.polls := by
  unfold Pc.resume
  split
  · exact ⟨rfl, nofun⟩
  · exact ⟨rfl, nofun⟩
  · exact ⟨rfl, nofun⟩
  · exact ⟨rfl, nofun⟩
  · exact ⟨rfl, fun p hp => hp⟩
  · exact ⟨rfl, nofun⟩

theorem sends_patient {dest : ServerId} {request : Request} {pc wait : Pc}
    (sends : Sends hash σ op s pc dest request wait) (h : Patient σ (.call s pc))
    (alive : σ.view s dest = true) : Patient σ (.call s wait) := by
  cases sends with
  | user | forward | replicate =>
    exact ⟨fun p hp => Option.some.inj hp ▸ alive, nofun⟩
  | poll all _ peers =>
    exact ⟨fun p hp => Option.some.inj hp ▸ alive,
      fun p hp => h.2 p (List.mem_cons_of_mem _ hp)⟩

theorem sends_alive {dest : ServerId} {request : Request} {pc wait : Pc}
    (once : ∀ s p, σ.crashed s = true → σ.crashed p = true → s = p) (settled : σ.Settled)
    (live : σ.crashed s = false) (sends : Sends hash σ op s pc dest request wait)
    (h : Patient σ (.call s pc)) : σ.view s dest = true := by
  have hlocated : ∀ {config : LocationConfig}, config.primary ≠ config.backup →
      Located σ s config dest → σ.view s dest = true := fun hne hdest => by
    rcases hdest with ⟨rfl, hview⟩ | ⟨rfl, hview⟩
    · exact hview
    · rw [settled _ _ live] at hview ⊢
      by_contra hbackup
      exact hne (once _ _ (by simpa using hview) (by simpa using hbackup))
  cases sends with
  | user username _ user located => exact hlocated (userOwner_ne hash username) located
  | replicate v config owner other alive => exact alive
  | forward config _ owner located => exact hlocated (owner_ne owner) located
  | poll all _ peers => exact h.2 _ (List.mem_cons_self ..)

theorem patient_advance (once : ∀ s p, σ.crashed s = true → σ.crashed p = true → s = p)
    (settled : σ.Settled) (h : Advance hash σ op stack σ' stack')
    (patient : ∀ f ∈ stack, Patient σ f) : ∀ f ∈ stack', Patient σ' f := by
  have hview := (advance_view h).1
  have hsame : ∀ f, Patient σ f → Patient σ' f := fun f hf => by
    cases f with
    | call => exact ⟨hview ▸ hf.1, hview ▸ hf.2⟩
    | request | response => trivial
  refine fun f hf => hsame f ?_
  revert f
  cases h with
  | authority s config rest live owner auth =>
    rw [List.forall_mem_cons] at patient ⊢
    exact ⟨⟨by simp [entry_awaits.1], by simp [entry_awaits.2]⟩, patient.2⟩
  | polls s rest live owner =>
    rw [List.forall_mem_cons] at patient ⊢
    exact ⟨⟨nofun, fun p hp => (mem_alivePeers.mp hp).2⟩, patient.2⟩
  | committed s v state rest live locked =>
    rw [List.forall_mem_cons] at patient ⊢
    refine ⟨?_, patient.2⟩
    split_ifs <;> exact ⟨nofun, nofun⟩
  | polledOwn s peers rest live =>
    rw [List.forall_mem_cons] at patient ⊢
    exact ⟨⟨nofun, patient.1.2⟩, patient.2⟩
  | sent s pc dest request wait rest live sends alive =>
    rw [List.forall_mem_cons] at patient ⊢
    rw [List.forall_mem_cons]
    exact ⟨trivial, sends_patient sends patient.1 alive, patient.2⟩
  | unsent s pc dest request wait rest live sends failed =>
    rw [List.forall_mem_cons] at patient
    simp [sends_alive once settled live sends patient.1] at failed
  | answeredUser | answeredNames | replicated | responded =>
    rw [List.forall_mem_cons] at patient ⊢
    exact ⟨trivial, patient.2⟩
  | unheard | unheardRead | unheardReplica => exact (List.forall_mem_cons.mp patient).2
  | resumed s pc p r rest live awaits =>
    rw [List.forall_mem_cons, List.forall_mem_cons] at patient
    rw [List.forall_mem_cons]
    obtain ⟨hawaits, hpolls⟩ := resume_awaits pc r
    exact ⟨⟨by simp [hawaits], fun p hp => patient.2.1.2 p (hpolls hp)⟩, patient.2.2⟩
  | _ =>
    rw [List.forall_mem_cons] at patient ⊢
    exact ⟨⟨nofun, nofun⟩, patient.2⟩

/-! ## Between two requests, and during one -/

/-- The clients were told what the central store returned. -/
structure Answered (returned : List Reply) (rs : List (StateResult Value)) : Prop where
  numbered : returned.map (·.req) = List.range rs.length
  same : (returned.map fun x => x.result.map Value.asSet) = rs.map fun r => r.map Value.asSet

/-- Everything was answered, and the servers mirror the central store. -/
structure Resting (hash : String → ℕ) (w : World) (rs : List (StateResult Value)) (st : AppState) :
    Prop where
  mirrors : Mirrors hash w.servers st
  idle : w.Idle
  numbered : w.nextReq = rs.length
  answered : Answered w.returned rs

/-- The last request runs towards the result `r` at `s`, and the servers towards `σ'`. The central
store has it done, with the result `r'`. -/
structure Serving (hash : String → ℕ) (w : World) (rs : List (StateResult Value)) (st : AppState)
    (pre : List Job) (j : Job) (s : ServerId) (r r' : StateResult Value) (σ' : Servers) : Prop where
  jobs : w.jobs = pre ++ [j]
  idle : ∀ k ∈ pre, k.stack = []
  leads : Leads hash j.op (w.servers, j.stack) (σ', [.call s (.done r)])
  attached : j.attached = true
  live : w.servers.crashed s = false
  once : ∀ s p, w.servers.crashed s = true → w.servers.crashed p = true → s = p
  settled : w.servers.Settled
  patient : ∀ f ∈ j.stack, Patient w.servers f
  mirrors : Mirrors hash σ' st
  same : r.map Value.asSet = r'.map Value.asSet
  req : j.req = rs.length
  numbered : w.nextReq = rs.length + 1
  answered : Answered w.returned rs

inductive Phase (hash : String → ℕ) (w : World) (ops : List Op) : Prop
  | resting (rs : List (StateResult Value)) (st : AppState) (served : serveAll ops = some (rs, st))
      (resting : Resting hash w rs st)
  | serving (rs : List (StateResult Value)) (st : AppState) (pre : List Job) (j : Job)
      (s : ServerId) (r r' : StateResult Value) (σ' : Servers)
      (served : serveAll ops = some (rs ++ [r'], st))
      (serving : Serving hash w rs st pre j s r r' σ')

theorem answered_snoc {returned : List Reply} {x : Reply} (h : Answered returned rs)
    (req : x.req = rs.length) (same : x.result.map Value.asSet = r.map Value.asSet) :
    Answered (returned ++ [x]) (rs ++ [r]) where
  numbered := by simp [h.numbered, req, List.range_succ]
  same := by simp [h.same, same]

theorem leads_ne_nil {f : Frame} (h : Leads hash op (σ, stack) (σ', [f])) : stack ≠ [] := by
  rintro rfl
  rcases Relation.ReflTransGen.cases_head h with heq | ⟨y, hstep, -⟩
  · cases heq
  · cases hstep

theorem leads_step {σ₁ : Servers} (h : Leads hash op (σ, stack) (σ', [.call s (.done r)]))
    (taken : σ.advance hash op stack = some (σ₁, stack')) :
    Leads hash op (σ₁, stack') (σ', [.call s (.done r)]) := by
  rcases Relation.ReflTransGen.cases_head h with heq | ⟨y, hstep, hrest⟩
  · cases heq
    simp [Servers.advance, Servers.stepCall] at taken
  · cases hstep.symm.trans taken
    exact hrest

theorem serving_busy {r r' : StateResult Value} (h : Serving hash w rs st pre j s r r' σ') :
    ¬ w.Idle := fun idle => leads_ne_nil h.leads (idle j (by simp [h.jobs]))

theorem serving_job {r r' : StateResult Value} (h : Serving hash w rs st pre j s r r' σ')
    {pre' post : List Job} {k : Job} (jobs : w.jobs = pre' ++ k :: post) (busy : k.stack ≠ []) :
    pre' = pre ∧ k = j ∧ post = [] := by
  have hjobs := jobs.symm.trans h.jobs
  induction post using List.reverseRecOn with
  | nil =>
    obtain ⟨rfl, hk⟩ := List.append_inj' hjobs rfl
    exact ⟨rfl, (List.cons.inj hk).1, rfl⟩
  | append_singleton post k' ih =>
    rw [← List.cons_append, ← List.append_assoc] at hjobs
    obtain ⟨hpre, -⟩ := List.append_inj' hjobs rfl
    exact absurd (h.idle k (by simp [← hpre])) busy

/-! ## The steps -/

theorem phase_init : Phase hash .init [] :=
  .resting [] centralInit rfl ⟨mirrors_init, by simp [World.Idle, World.init], rfl, ⟨rfl, rfl⟩⟩

theorem Mirrors.suspect (m : Mirrors hash σ st) (s p : ServerId) :
    Mirrors hash (σ.suspect s p) st :=
  ⟨m.once, m.unpoisoned, m.users, m.channels, m.known_users, m.known_channels, m.tallied⟩

theorem resting_step (h : Resting hash w rs st) (served : serveAll ops = some (rs, st))
    (allowed : sequential w e = true) (step : Step hash w e w') :
    Phase hash w' (ops ++ submitted [e]) := by
  cases step with
  | submitted s op live =>
    obtain ⟨idle, settled⟩ : w.Idle ∧ w.servers.Settled := of_decide_eq_true allowed
    obtain ⟨r, σ', st', ⟨⟨r', hanswer, hsame⟩, hmirrors, -, -⟩, hleads⟩ :=
      leads_done h.mirrors settled op live
    refine .serving rs st' w.jobs _ s r r' σ' (serveAll_append served hanswer)
      ⟨rfl, idle, hleads, rfl,
      live, h.mirrors.once, settled, fun f hf => ?_, hmirrors, hsame, h.numbered, ?_, h.answered⟩
    · obtain rfl := List.mem_singleton.mp hf
      exact ⟨nofun, nofun⟩
    · exact congrArg (· + 1) h.numbered
  | advanced j pre post σ' stack' jobs _ computes =>
    rw [h.idle j (by simp [jobs])] at computes
    cases computes
  | replied j pre post s r jobs stack =>
    rw [h.idle j (by simp [jobs])] at stack
    cases stack
  | gaveUp j pre post s p pc upper lower jobs stack =>
    rw [h.idle j (by simp [jobs])] at stack
    simp at stack
  | hungUp => cases allowed
  | suspected s p other live =>
    refine .resting rs st (by simpa [submitted] using served) ?_
    exact ⟨h.mirrors.suspect s p, h.idle, h.numbered, h.answered⟩
  | crashed s live =>
    obtain ⟨-, hnone⟩ : w.Idle ∧ ∀ s, w.servers.crashed s = false := of_decide_eq_true allowed
    refine .resting rs st (by simpa [submitted] using served) ?_
    exact ⟨h.mirrors.crash hnone s, h.idle, h.numbered, h.answered⟩

theorem serving_step (h : Serving hash w rs st pre j s r r' σ')
    (served : serveAll ops = some (rs ++ [r'], st)) (allowed : sequential w e = true)
    (step : Step hash w e w') : Phase hash w' (ops ++ submitted [e]) := by
  have hserved : serveAll (ops ++ []) = some (rs ++ [r'], st) := by simpa using served
  cases step with
  | submitted s op live =>
    have idle : w.Idle := (of_decide_eq_true (p := w.Idle ∧ w.servers.Settled) allowed).1
    exact absurd idle (serving_busy h)
  | advanced k pre' post σ₁ stack' jobs hadvance computes =>
    have hbusy : k.stack ≠ [] := fun hstack => by
      rw [hstack] at computes
      cases computes
    obtain ⟨rfl, rfl, rfl⟩ := serving_job h jobs hbusy
    obtain ⟨hview, hcrashed⟩ := advance_view hadvance
    exact .serving rs st pre' { k with stack := stack' } s r r' σ' hserved
      ⟨rfl, h.idle, leads_step h.leads computes, h.attached, hcrashed ▸ h.live, hcrashed ▸ h.once,
        fun t p => by rw [hview, hcrashed]; exact h.settled t p,
        patient_advance h.once h.settled hadvance h.patient, h.mirrors, h.same, h.req, h.numbered,
        h.answered⟩
  | replied k pre' post t r₁ jobs stack live attached =>
    obtain ⟨rfl, rfl, rfl⟩ := serving_job h jobs (by simp [stack])
    have hdone := h.leads
    rw [stack] at hdone
    rcases Relation.ReflTransGen.cases_head hdone with heq | ⟨y, hstep, -⟩
    · cases heq
      refine .resting (rs ++ [r']) st hserved ⟨h.mirrors, fun k' hk' => ?_, ?_, ?_⟩
      · rcases List.mem_append.mp hk' with hk' | hk'
        · exact h.idle k' hk'
        · obtain rfl := List.mem_singleton.mp hk'
          rfl
      · simp [h.numbered]
      · exact answered_snoc h.answered h.req h.same
    · simp [Servers.advance, Servers.stepCall] at hstep
  | gaveUp k pre' post t p pc upper lower jobs stack live awaits failed =>
    obtain ⟨rfl, rfl, rfl⟩ := serving_job h jobs (by simp [stack])
    have hpatient := h.patient (.call t pc) (by simp [stack])
    simp [hpatient.1 p awaits] at failed
  | hungUp => cases allowed
  | suspected t p other live =>
    -- `p` has crashed, and `t` marked it failed before the request arrived
    have hp : w.servers.view t p = false := by
      rw [h.settled t p live]
      simpa [sequential] using allowed
    have hsame : w.servers.suspect t p = w.servers := by
      rw [Servers.suspect, ← hp, Function.update_eq_self, Function.update_eq_self]
    rw [hsame]
    exact .serving rs st pre j s r r' σ' hserved
      ⟨h.jobs, h.idle, h.leads, h.attached, h.live, h.once,
      h.settled, h.patient, h.mirrors, h.same, h.req, h.numbered, h.answered⟩
  | crashed t live =>
    have idle : w.Idle :=
      (of_decide_eq_true (p := w.Idle ∧ ∀ s, w.servers.crashed s = false) allowed).1
    exact absurd idle (serving_busy h)

theorem phase_run {es : List Event} (run : InTurn hash .init es w) :
    Phase hash w (submitted es) := by
  refine run.history (P := fun es w => Phase hash w (submitted es)) phase_init ?_
  intro es w e w' _ h allowed taken
  have happend : submitted (es ++ [e]) = submitted es ++ submitted [e] := List.filterMap_append
  rw [happend]
  cases h with
  | resting rs st served resting => exact resting_step resting served allowed (step_cases taken)
  | serving rs st pre j s r r' σ' served serving =>
    exact serving_step serving served allowed (step_cases taken)

/-! ## The last request is answered -/

theorem step_last {y : Servers × List Frame}
    (h : σ.advance hash j.op stack = some y) :
    World.step hash { w with servers := σ, jobs := pre ++ [{ j with stack }] }
        (.advance pre.length) =
      some { w with servers := y.1, jobs := pre ++ [{ j with stack := y.2 }] } := by
  simp only [World.step, List.getElem?_concat_length, Option.bind_eq_bind, Option.bind_some]
  split
  · simp [Servers.advance, Servers.stepCall] at h
  · simp [h, World.setJob]

theorem leads_runs (pre : List Job) {x y : Servers × List Frame} (h : Leads hash j.op x y)
    (w : World) :
    ∃ n, InTurn hash { w with servers := x.1, jobs := pre ++ [{ j with stack := x.2 }] }
      (List.replicate n (.advance pre.length))
      { w with servers := y.1, jobs := pre ++ [{ j with stack := y.2 }] } := by
  induction h with
  | refl => exact ⟨0, .nil⟩
  | tail _ hstep ih =>
    obtain ⟨n, run⟩ := ih
    refine ⟨n + 1, ?_⟩
    rw [List.replicate_succ']
    exact .snoc run rfl (step_last hstep)

theorem leads_crashed {x y : Servers × List Frame} (h : Leads hash op x y) :
    y.1.crashed = x.1.crashed := by
  induction h with
  | refl => rfl
  | tail _ hstep ih => exact (advance_view (advance_cases hstep)).2.trans ih

theorem serving_finishes (h : Serving hash w rs st pre j s r r' σ') :
    ∃ n w', InTurn hash w (List.replicate n (.advance pre.length)) w' ∧
      Answered w'.returned (rs ++ [r']) := by
  obtain ⟨n, run⟩ := leads_runs pre h.leads w
  have hw : { w with servers := w.servers, jobs := pre ++ [{ j with stack := j.stack }] } = w := by
    rw [← h.jobs]
  rw [hw] at run
  have hlive : σ'.crashed s = false := by
    rw [show σ'.crashed = w.servers.crashed from leads_crashed h.leads]
    exact h.live
  refine ⟨n + 1, { w with
    servers := σ'
    jobs := pre ++ [{ j with stack := [] }]
    returned := w.returned ++ [⟨j.req, j.op, r⟩] }, ?_, answered_snoc h.answered h.req h.same⟩
  rw [List.replicate_succ']
  refine .snoc run rfl ?_
  simp [World.step, hlive, h.attached, World.setJob]

/-- **Location transparency.** The requests made so far have results at the central store. Each
answer is the result of its request there, and the request that is not answered yet will be, with
its result, if only the last job takes its steps. -/
theorem location_transparency {es : List Event} (run : InTurn hash .init es w) :
    ∃ rs st, serveAll (submitted es) = some (rs, st) ∧
      w.returned.map (·.req) = List.range w.returned.length ∧
      (w.returned.map fun x => x.result.map Value.asSet) <+:
        (rs.map fun r => r.map Value.asSet) ∧
      ∃ n w', InTurn hash w (List.replicate n (.advance (w.jobs.length - 1))) w' ∧
        Answered w'.returned rs := by
  have hlength : ∀ {rs}, Answered w.returned rs → w.returned.length = rs.length := fun h => by
    simpa using congrArg List.length h.same
  cases phase_run run with
  | resting rs st served h =>
    refine ⟨rs, st, served, ?_, ?_, 0, w, .nil, h.answered⟩
    · rw [h.answered.numbered, hlength h.answered]
    · rw [h.answered.same]
  | serving rs st pre j s r r' σ' served h =>
    obtain ⟨n, w', finish, hanswered⟩ := serving_finishes h
    have hlast : w.jobs.length - 1 = pre.length := by simp [h.jobs]
    refine ⟨rs ++ [r'], st, served, ?_, ?_, n, w', hlast ▸ finish, hanswered⟩
    · rw [h.answered.numbered, hlength h.answered]
    · rw [h.answered.same, List.map_append]
      exact List.prefix_append _ _

/-- `alice` is created, joins and says hello at `C`. Then `A`, the primary of both keys, crashes,
and `C` is asked for the messages and the users. -/
def hello : List Event :=
  asks .C (.createUser "alice") 0 11 ++
    asks .C (.joinChannel "alice" "#cs249") 1 13 ++
    asks .C (.sendMessage "#cs249" "alice" "hello") 2 14 ++
    [.crash .A, .suspect .B .A, .suspect .C .A] ++
    asks .C (.getMessages "#cs249" none none) 3 8 ++
    asks .C .getUsers 4 7

theorem location_transparency_after_crash :
    ∃ w, InTurn (fun _ => 0) .init hello w ∧
      w.returned.map (·.result) = [.ok .unit, .ok .unit, .ok (.messageId "#cs249-0"),
        .ok (.messages [⟨"alice", "hello", "#cs249-0"⟩]), .ok (.sorted ["alice"])] ∧
      ∃ rs st, serveAll (submitted hello) = some (rs, st) ∧
        (w.returned.map fun x => x.result.map Value.asSet) <+:
          (rs.map fun r => r.map Value.asSet) := by
  obtain ⟨w, run, hw⟩ := Run.exec_of_test
    (fun w : World => w.returned.map (·.result) =
      [.ok .unit, .ok .unit, .ok (.messageId "#cs249-0"),
        .ok (.messages [⟨"alice", "hello", "#cs249-0"⟩]), .ok (.sorted ["alice"])])
    (by decide : (Run.run (World.step fun _ => 0) (fun w e => sequential w e = true) .init
      hello).any _ = true)
  obtain ⟨rs, st, served, -, hanswered, -⟩ := location_transparency run
  exact ⟨w, run, of_decide_eq_true hw, rs, st, served, hanswered⟩

end MiniDiscord.Cluster
