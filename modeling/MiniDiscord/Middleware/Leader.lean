import MiniDiscord.Middleware.Priority

/-!
# Who is the leader

The leader is written at the start, by the leader tasks after a failure, and by whatever
announcement arrives. It is right, or a repair is under way: a failure is still to be notified, a
leader task has been woken, or one is about to write the right server. `steady` names the steps that
do not end the last repair, nor make the leader wrong with no repair under way.
-/

namespace MiniDiscord.Middleware

open Peer (Endpoint Line Handler)

variable {config : Config} {id : String} {n n' : Node} {e : Event}

/-! ## Repairs -/

/-- The server that the task is about to make the leader. -/
def Stage.held : Stage → Option String
  | .chosen best | .writing best => some best
  | _ => none

/-- The task will look who is alive, or holds the server that is the highest now. -/
def LeaderTask.repairs (config : Config) (n : Node) (task : LeaderTask) : Bool :=
  task.stage == .woken || task.stage.held.isSome && task.stage.held == n.best config

/-- A timeout task stands between `set_server_state` and `notify_waiters`. -/
def Node.handling (config : Config) (n : Node) : Bool :=
  (serverIds config).any fun peer => (n.serverStates peer).handlers.contains .marked

/-- Another timeout task than the `i`th of the peer stands there. -/
def Node.handlingOther (config : Config) (n : Node) (peer : String) (i : ℕ) : Bool :=
  (serverIds config).any fun other =>
    (List.range (n.serverStates other).handlers.length).any fun k =>
      (n.serverStates other).handlers[k]? == some .marked && (other, k) != (peer, i)

def Node.repairing (config : Config) (n : Node) : Bool :=
  n.handling config || n.leaderTasks.any fun task => task.repairs config n

/-- The target of `main_task` is marked failed. -/
def Node.without (n : Node) (target : String) : Node :=
  n.setServer target { n.serverStates target with isAlive := false }

/-- The steps that leave the leader right or a repair under way. -/
def steady (config : Config) (n : Node) : Event → Bool
  -- `main_task` notifies nobody
  | .giveUp => match n.mainTask with
    | .connecting (target :: _) => n.best config != some target ||
        (n.without target).best config == some n.leader || n.handling config ||
        n.leaderTasks.any fun task => task.stage == .woken
    | _ => true
  -- who is alive may have changed since the task looked
  | .leaderTask i => match n.leaderTasks[i]?.map LeaderTask.stage with
    | some (.writing best) => n.best config == some best || n.repairing config
    | _ => true
  -- only the tasks that wait are woken
  | .peer peer (.notify i) => n.best config == some n.leader || n.handlingOther config peer i ||
      n.leaderTasks.any fun task => task.stage == .waiting || task.repairs config n
  -- an announcement is taken as it comes
  | .peer peer .dispatch => match told (n.serverStates peer) .dispatch with
    | some leader => n.best config == some leader || n.repairing config
    | none => true
  | _ => true

/-- A failure is still to be notified, or a leader task repairs the leader. -/
def Node.Repairing (config : Config) (n : Node) : Prop :=
  (∃ peer, .marked ∈ (n.serverStates peer).handlers) ∨
    ∃ task ∈ n.leaderTasks, task.repairs config n = true

def Node.Sound (config : Config) (n : Node) : Prop :=
  n.best config = some n.leader ∨ n.Repairing config

theorem repairing_handling (h : n.handling config = true) :
    ∃ peer, .marked ∈ (n.serverStates peer).handlers := by
  obtain ⟨peer, -, hmarked⟩ := List.any_eq_true.mp h
  exact ⟨peer, by simpa using hmarked⟩

theorem repairing_iff (h : n.repairing config = true) : n.Repairing config := by
  rcases Bool.or_eq_true_iff.mp h with h | h
  · exact Or.inl (repairing_handling h)
  · exact Or.inr (List.any_eq_true.mp h)

theorem repairs_congr (same : n'.best config = n.best config) (task : LeaderTask) :
    task.repairs config n' = task.repairs config n := by
  unfold LeaderTask.repairs
  rw [same]

/-- What keeps the marks and the repairing tasks keeps the repair under way. -/
theorem Node.Repairing.keep (repairing : n.Repairing config)
    (same : n'.best config = n.best config)
    (marks : ∀ peer, .marked ∈ (n.serverStates peer).handlers →
      .marked ∈ (n'.serverStates peer).handlers)
    (tasks : ∀ task ∈ n.leaderTasks, task.repairs config n = true →
      ∃ task' ∈ n'.leaderTasks, task'.repairs config n = true) : n'.Repairing config := by
  rcases repairing with ⟨peer, hmarked⟩ | ⟨task, htask, hrepairs⟩
  · exact Or.inl ⟨peer, marks peer hmarked⟩
  · obtain ⟨task', htask', hrepairs'⟩ := tasks task htask hrepairs
    exact Or.inr ⟨task', htask', by rwa [repairs_congr same]⟩

/-! ## One step -/

theorem setStage_others {i : ℕ} {task other : LeaderTask} (stage : Stage)
    (there : n.leaderTasks[i]? = some task) (hother : other ∈ n.leaderTasks) :
    other = task ∨ other ∈ (n.setStage i stage).leaderTasks := by
  obtain ⟨k, hk⟩ := List.mem_iff_getElem?.mp hother
  by_cases hki : k = i
  · left
    rw [hki, there] at hk
    exact (Option.some.inj hk).symm
  · right
    refine List.mem_iff_getElem?.mpr ⟨k, ?_⟩
    simp [Node.setStage, Ne.symm hki, hk]

theorem setStage_mem {i : ℕ} {task : LeaderTask} (stage : Stage)
    (there : n.leaderTasks[i]? = some task) :
    { task with stage } ∈ (n.setStage i stage).leaderTasks := by
  refine List.mem_iff_getElem?.mpr ⟨i, ?_⟩
  simp [Node.setStage, there]

theorem setStage_sound {i : ℕ} {task : LeaderTask} {stage : Stage}
    (there : n.leaderTasks[i]? = some task) (sound : n.Sound config)
    (moved : task.repairs config n = true →
      ({ task with stage } : LeaderTask).repairs config n = true ∨
        n.best config = some n.leader) : (n.setStage i stage).Sound config := by
  by_cases hright : n.best config = some n.leader
  · exact Or.inl hright
  · right
    have hrepairing := sound.resolve_left hright
    refine hrepairing.keep rfl (fun _ hmarked => hmarked) fun other hother hrepairs => ?_
    rcases setStage_others stage there hother with rfl | hstays
    · exact ⟨_, setStage_mem stage there, (moved hrepairs).resolve_right hright⟩
    · exact ⟨other, hstays, hrepairs⟩

theorem moves_sound {i : ℕ} {task : LeaderTask} {stage : Stage}
    (there : n.leaderTasks[i]? = some task) (moves : Moves config n task.stage stage)
    (sound : n.Sound config) : (n.setStage i stage).Sound config := by
  refine setStage_sound there sound fun hrepairs => ?_
  obtain ⟨peer, before⟩ := task
  cases moves with
  | quiet lower => cases hrepairs
  | chose best highest =>
    left
    simp [LeaderTask.repairs, Stage.held, highest]
  | kept best same =>
    right
    have hheld : some best = n.best config := by
      simpa [LeaderTask.repairs, Stage.held] using hrepairs
    rw [← hheld, same]
  | differs best other =>
    left
    simpa [LeaderTask.repairs, Stage.held] using hrepairs
  | follows best other => cases hrepairs

theorem setServer_marked {peer other : String} {E : Endpoint} {e : Peer.Event} {k : ℕ}
    (step : Peer.Step (n.serverStates peer) e E)
    (hk : (n.serverStates other).handlers[k]? = some .marked)
    (hne : other = peer → e ≠ .notify k) :
    .marked ∈ ((n.setServer peer E).serverStates other).handlers := by
  by_cases hother : other = peer
  · subst hother
    simpa [Node.setServer] using Peer.step_marked step hk (hne rfl)
  · simpa [Node.setServer, hother] using List.mem_iff_getElem?.mpr ⟨k, hk⟩

theorem setServer_best {peer : String} {E : Endpoint}
    (same : E.isAlive = (n.serverStates peer).isAlive) :
    (n.setServer peer E).best config = n.best config := by
  refine best_congr fun other => ?_
  rw [setServer_isAlive]
  split_ifs with hother
  · rw [hother, same]
    rfl
  · rfl

theorem setServer_repairing {peer : String} {E : Endpoint} {e : Peer.Event}
    (step : Peer.Step (n.serverStates peer) e E) (gone : e ≠ .unreachable)
    (quiet : notifies e = false) (repairing : n.Repairing config) :
    (n.setServer peer E).Repairing config := by
  rcases Peer.step_alive step with hsame | ⟨-, rfl | rfl⟩
  · refine repairing.keep (setServer_best hsame) ?_ fun task htask hrepairs =>
      ⟨task, htask, hrepairs⟩
    intro other hmarked
    obtain ⟨k, hk⟩ := List.mem_iff_getElem?.mp hmarked
    refine setServer_marked step hk ?_
    rintro - rfl
    cases quiet
  · cases step
    exact Or.inl ⟨peer, by simp [Node.setServer]⟩
  · exact absurd rfl gone

theorem setServer_sound {peer : String} {E : Endpoint} {e : Peer.Event}
    (step : Peer.Step (n.serverStates peer) e E) (gone : e ≠ .unreachable)
    (quiet : notifies e = false) (sound : n.Sound config) : (n.setServer peer E).Sound config := by
  rcases sound with hright | hrepairing
  · rcases Peer.step_alive step with hsame | ⟨-, rfl | rfl⟩
    · exact Or.inl (by rw [setServer_best hsame]; exact hright)
    · cases step
      exact Or.inr (Or.inl ⟨peer, by simp [Node.setServer]⟩)
    · exact absurd rfl gone
  · exact Or.inr (setServer_repairing step gone quiet hrepairing)

theorem gaveUp_sound (distinct : (config.map Server.priority).Nodup) {target : String}
    (allowed : n.best config ≠ some target ∨ (n.without target).best config = some n.leader ∨
      n.handling config = true ∨ ∃ task ∈ n.leaderTasks, task.stage = .woken)
    (sound : n.Sound config) : (n.without target).Sound config := by
  have hmarks : ∀ peer, .marked ∈ (n.serverStates peer).handlers →
      .marked ∈ ((n.without target).serverStates peer).handlers := by
    intro peer hmarked
    simp only [Node.without, Node.setServer, Function.update_apply]
    split_ifs with hpeer
    · rwa [← hpeer]
    · exact hmarked
  have hbest : ∀ server, n.best config = some server → server ≠ target →
      (n.without target).best config = some server := by
    intro server hserver hne
    refine best_shrinks distinct hserver ?_ fun other hlives => ?_
    · rw [Node.without, setServer_isAlive, if_neg hne]
      exact (best_highest distinct hserver).alive
    · rw [Node.without, setServer_isAlive] at hlives
      split_ifs at hlives
      exact hlives
  rcases allowed with hother | hnext | hhandling | ⟨task, htask, hwoken⟩
  · rcases sound with hright | ⟨peer, hmarked⟩ | ⟨task, htask, hrepairs⟩
    · exact Or.inl (hbest _ hright fun heq => hother (heq ▸ hright))
    · exact Or.inr (Or.inl ⟨peer, hmarks peer hmarked⟩)
    · refine Or.inr (Or.inr ⟨task, htask, ?_⟩)
      unfold LeaderTask.repairs at hrepairs ⊢
      cases hheld : task.stage.held with
      | none => simpa [hheld] using hrepairs
      | some server =>
        -- a woken task holds nothing
        have hstage : task.stage ≠ .woken := by
          intro hwoken
          rw [hwoken] at hheld
          cases hheld
        have hserver : some server = n.best config := by simpa [hheld, hstage] using hrepairs
        simp [hbest server hserver.symm fun heq => hother (heq ▸ hserver.symm)]
  · exact Or.inl hnext
  · obtain ⟨peer, hmarked⟩ := repairing_handling hhandling
    exact Or.inr (Or.inl ⟨peer, hmarks peer hmarked⟩)
  · exact Or.inr (Or.inr ⟨task, htask, by simp [LeaderTask.repairs, hwoken]⟩)

theorem wake_repairs {task : LeaderTask}
    (h : task.stage = .waiting ∨ task.repairs config n = true) :
    task.wake.repairs config n = true := by
  unfold LeaderTask.wake
  split_ifs with hwaiting
  · rfl
  · exact h.resolve_left hwaiting

theorem notified_sound {peer : String} {i : ℕ} {E : Endpoint}
    (step : Peer.Step (n.serverStates peer) (.notify i) E)
    (allowed : n.best config = some n.leader ∨ n.handlingOther config peer i = true ∨
      ∃ task ∈ n.leaderTasks, task.stage = .waiting ∨ task.repairs config n = true) :
    ((n.setServer peer E).effect (n.serverStates peer) (.notify i)).Sound config := by
  have hsame : E.isAlive = (n.serverStates peer).isAlive := by
    cases step
    rfl
  rcases allowed with hright | hother | ⟨task, htask, hwakes⟩
  · exact Or.inl ((setServer_best hsame).trans hright)
  · refine Or.inr (Or.inl ?_)
    simp only [Node.handlingOther, List.any_eq_true, List.mem_range, Bool.and_eq_true, beq_iff_eq,
      bne_iff_ne] at hother
    obtain ⟨other, -, k, -, hk, hne⟩ := hother
    refine ⟨other, setServer_marked step hk fun hpeer hevent => hne ?_⟩
    rw [hpeer, Peer.Event.notify.inj hevent]
  · refine Or.inr (Or.inr ⟨task.wake, List.mem_map_of_mem htask, ?_⟩)
    have hbest : ((n.setServer peer E).effect (n.serverStates peer) (.notify i)).best config =
        n.best config := setServer_best hsame
    rw [repairs_congr hbest]
    exact wake_repairs hwakes

theorem told_sound {peer leader : String} {E : Endpoint}
    (step : Peer.Step (n.serverStates peer) .dispatch E)
    (announced : told (n.serverStates peer) .dispatch = some leader)
    (allowed : n.best config = some leader ∨ n.repairing config = true) :
    ((n.setServer peer E).effect (n.serverStates peer) .dispatch).Sound config := by
  have hsame : E.isAlive = (n.serverStates peer).isAlive := by
    rcases Peer.step_alive step with hsame | ⟨-, hevent | hevent⟩
    · exact hsame
    · cases hevent
    · cases hevent
  rcases allowed with hright | hrepairing
  · left
    unfold Node.effect
    rw [announced]
    exact (setServer_best hsame).trans hright
  · right
    exact setServer_repairing step (by decide) rfl (repairing_iff hrepairing)

theorem wrote_sound {i : ℕ} {task : LeaderTask} {best : String}
    (there : n.leaderTasks[i]? = some task) (stage : task.stage = .writing best)
    (allowed : n.best config = some best ∨ n.repairing config = true) :
    ({ n.setStage i (.deciding best) with leader := best } : Node).Sound config := by
  by_cases hright : n.best config = some best
  · exact Or.inl hright
  · have hrepairing := repairing_iff (allowed.resolve_left hright)
    refine Or.inr (hrepairing.keep rfl (fun _ hmarked => hmarked) fun other hother hrepairs => ?_)
    rcases setStage_others (.deciding best) there hother with rfl | hstays
    · exfalso
      simp only [LeaderTask.repairs, stage, Stage.held, Option.isSome_some, Bool.true_and,
        Bool.or_eq_true, beq_iff_eq] at hrepairs
      rcases hrepairs with hwoken | hheld
      · cases hwoken
      · exact hright hheld.symm
    · exact ⟨other, hstays, hrepairs⟩

theorem step_sound (distinct : (config.map Server.priority).Nodup) (h : NodeStep config n e n')
    (allowed : steady config n e = true) (sound : n.Sound config) : n'.Sound config := by
  cases h with
  | gaveUp target targets main healthy =>
    refine gaveUp_sound distinct ?_ sound
    simpa [steady, main, or_assoc] using allowed
  | spawned peer holds =>
    rcases sound with hright | hrepairing
    · exact Or.inl hright
    · refine Or.inr (hrepairing.keep rfl (fun _ hmarked => hmarked) fun task htask hrepairs => ?_)
      exact ⟨task, List.mem_append_left _ htask, hrepairs⟩
  | moved i task stage there moves => exact moves_sound there moves sound
  | announced i task E there stage sent =>
    have hne : Peer.Event.announce n.id ≠ .unreachable := by
      intro heq
      cases heq
    have hsound := setServer_sound sent hne rfl sound
    refine setStage_sound there hsound fun hrepairs => ?_
    rcases stage with hstage | hstage
    · simp [LeaderTask.repairs, hstage, Stage.held] at hrepairs
    · simp [LeaderTask.repairs, hstage, Stage.held] at hrepairs
  | wrote i task best there stage =>
    refine wrote_sound there stage ?_
    simpa [steady, there, stage] using allowed
  | peered peer e E permitted step =>
    have hgone : e ≠ .unreachable := by
      rintro rfl
      simp [Node.permits] at permitted
    cases hnotifies : notifies e with
    | true =>
      cases e with
      | notify i =>
        refine notified_sound step ?_
        simpa [steady, or_assoc] using allowed
      | _ => cases hnotifies
    | false =>
      cases htold : told (n.serverStates peer) e with
      | none =>
        have hsound := setServer_sound step hgone hnotifies sound
        unfold Node.effect
        rw [htold, hnotifies]
        exact hsound
      | some leader =>
        cases e with
        | dispatch =>
          refine told_sound step htold ?_
          simpa [steady, htold] using allowed
        | _ => cases htold
  | _ => exact sound

/-! ## Runs of the fleet -/

def announces : Line → Bool
  | .leaderAnnouncement _ _ => true
  | _ => false

/-- An announcement is in the queue, or with the tasks at this end. -/
def announcing (E : Endpoint) : Bool :=
  (E.queue.any fun message => match message with
    | .leaderAnnouncement _ => true
    | _ => false) ||
  (match E.sendTask with
    | .taken (.leaderAnnouncement _) => true
    | .registered line | .writing line => announces line
    | _ => false) ||
  match E.readLoop with
    | .dispatching line => announces line
    | _ => false

/-- No announcement is queued or in flight, and every leader task waits. -/
def Fleet.Quiet (config : Config) (F : Fleet) : Prop :=
  ∀ i ∈ serverIds config, (∀ task ∈ (F.node i).leaderTasks, task.stage = .waiting) ∧
    ∀ j ∈ serverIds config, announcing ((F.node i).serverStates j) = false ∧
      (F.wire i j).any announces = false

instance {config : Config} {F : Fleet} : Decidable (F.Quiet config) := by
  unfold Fleet.Quiet
  infer_instance

/-- The step is steady for the server that takes it. -/
def steadyFleet (config : Config) (F : Fleet) (x : String × Event) : Bool :=
  steady config (F.node x.1) x.2

def anyFleetEvent (_ : Fleet) (_ : String × Event) : Bool := true

variable {capacity : ℕ} {es : List (String × Event)} {F F' : Fleet}

theorem fleet_sound (distinct : (config.map Server.priority).Nodup)
    (unambiguous : Unambiguous config)
    (run : FleetReaches config capacity (steadyFleet config) es F) :
    ∀ i ∈ serverIds config, (F.node i).Sound config := by
  intro i known
  refine fleet_invariant (Q := fun n e => steady config n e = true) i
    (fun _ _ allowed => allowed) run ?_ ?_
  · exact Or.inl (init_best distinct unambiguous (mem_serverIds.mp known))
  · intro n e n' before allowed hstep
    exact step_sound distinct hstep allowed before

/-- When all is quiet, each server's leader is the highest of those it considers alive, unless a
failure is still to be notified. -/
theorem leader_agrees (distinct : (config.map Server.priority).Nodup)
    (unambiguous : Unambiguous config)
    (run : FleetReaches config capacity (steadyFleet config) es F) (quiet : F.Quiet config)
    (known : id ∈ serverIds config) :
    (F.node id).Highest config (F.node id).leader ∨
      ∃ peer, .marked ∈ ((F.node id).serverStates peer).handlers := by
  rcases fleet_sound distinct unambiguous run id known with
    hright | hmarked | ⟨task, htask, hrepairs⟩
  · exact Or.inl (best_highest distinct hright)
  · exact Or.inr hmarked
  · have hwaits := (quiet id known).1 task htask
    simp [LeaderTask.repairs, hwaits, Stage.held] at hrepairs

/-- `B` fails, and `A` takes over: its announcement to `B` is dropped. -/
def failover : List (String × Event) :=
  [("A", .listen), ("B", .connect), ("A", .accept "B"), ("A", .takeReceiver "B"),
    ("A", .spawn "B"), ("A", .leaderTask 0), ("A", .peer "B" .fail),
    ("A", .peer "B" (.notify 0)), ("A", .leaderTask 0), ("A", .leaderTask 0),
    ("A", .leaderTask 0), ("A", .leaderTask 0), ("A", .peer "B" .take), ("A", .peer "B" .number),
    ("A", .peer "B" .check), ("A", .peer "B" .drain)]

theorem leader_agrees_failover : ∃ F,
    FleetReaches [⟨"A", 1⟩, ⟨"B", 2⟩] 1 (steadyFleet [⟨"A", 1⟩, ⟨"B", 2⟩]) failover F ∧
    F.Quiet [⟨"A", 1⟩, ⟨"B", 2⟩] ∧ (F.node "A").leader = "A" ∧
    ((F.node "A").Highest [⟨"A", 1⟩, ⟨"B", 2⟩] (F.node "A").leader ∨
      ∃ peer, .marked ∈ ((F.node "A").serverStates peer).handlers) := by
  obtain ⟨F, run, htest⟩ := Run.exec_of_test
    (fun F : Fleet => F.Quiet [⟨"A", 1⟩, ⟨"B", 2⟩] ∧ (F.node "A").leader = "A")
    (by decide : (Fleet.outcome [⟨"A", 1⟩, ⟨"B", 2⟩] 1 (steadyFleet [⟨"A", 1⟩, ⟨"B", 2⟩])
      failover).any _ = true)
  obtain ⟨hquiet, hleader⟩ := of_decide_eq_true htest
  exact ⟨F, run, hquiet, hleader, leader_agrees (by decide)
    (unambiguous_of_nodup (by decide) (by decide)) run hquiet (by decide)⟩

/-- `B` cannot reach `A`, and keeps it as the leader. -/
theorem leader_unreachable : ∃ F,
    FleetReaches [⟨"A", 2⟩, ⟨"B", 1⟩] 1 anyFleetEvent [("B", .giveUp), ("B", .listen)] F ∧
    F.Quiet [⟨"A", 2⟩, ⟨"B", 1⟩] ∧ (F.node "B").leader = "A" ∧ (F.node "B").isAlive "A" = false ∧
    ¬ (F.node "B").Highest [⟨"A", 2⟩, ⟨"B", 1⟩] (F.node "B").leader := by
  obtain ⟨F, run, htest⟩ := Run.exec_of_test
    (fun F : Fleet => F.Quiet [⟨"A", 2⟩, ⟨"B", 1⟩] ∧ (F.node "B").leader = "A" ∧
      (F.node "B").isAlive "A" = false)
    (by decide : (Fleet.outcome [⟨"A", 2⟩, ⟨"B", 1⟩] 1 anyFleetEvent
      [("B", .giveUp), ("B", .listen)]).any _ = true)
  obtain ⟨hquiet, hleader, hfailed⟩ := of_decide_eq_true htest
  refine ⟨F, run, hquiet, hleader, hfailed, fun highest => ?_⟩
  have halive := highest.alive
  rw [hleader, hfailed] at halive
  cases halive

end MiniDiscord.Middleware
