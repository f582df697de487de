import MiniDiscord.Middleware.Leader

/-!
# What an unsteady step breaks

`steady` excludes no step that the leader could bear: after each one it excludes the leader is wrong
and no repair is under way.
-/

namespace MiniDiscord.Middleware

open Peer (Endpoint Line Handler)

variable {config : Config} {id : String} {n n' : Node} {e : Event}

/-- Failures are handled for connected servers only, and what a leader task holds was the highest of
those alive when it looked. -/
structure Node.Tidy (config : Config) (n : Node) : Prop where
  receivers : ∀ peer ∈ n.receivers, peer ∈ config.map Server.id
  holding : ∀ peer ∈ n.holding, peer ∈ config.map Server.id
  started : ∀ peer ∈ n.started, peer ∈ config.map Server.id
  handlers : ∀ peer, (n.serverStates peer).handlers ≠ [] → peer ∈ n.started
  held : ∀ task ∈ n.leaderTasks, ∀ best, task.stage.held = some best →
    ∀ other ∈ config.map Server.id, n.isAlive other = true →
      priorityOf config other ≤ priorityOf config best

theorem Node.Tidy.init : (Node.init config id).Tidy config := by
  constructor
  · intro peer hpeer
    exact List.mem_toFinset.mp hpeer
  · intro peer hpeer
    cases hpeer
  · intro peer hpeer
    cases hpeer
  · intro peer hhandlers
    exact absurd rfl hhandlers
  · intro task htask
    cases htask

theorem peer_handlers {E E' : Endpoint} {pe : Peer.Event} (h : Peer.Step E pe E')
    (handles : E'.handlers ≠ []) : E.handlers ≠ [] ∨ pe = .fail := by
  cases h with
  | failed => exact Or.inr rfl
  | notified i handler | drainedFailed i handler =>
    exact Or.inl (List.ne_nil_of_mem (List.mem_of_getElem? handler))
  | _ => exact Or.inl handles

theorem step_tidy_handlers (tidy : n.Tidy config) (h : NodeStep config n e n') :
    ∀ peer, (n'.serverStates peer).handlers ≠ [] → peer ∈ n'.started := by
  have hold := tidy.handlers
  cases h with
  | gaveUp target targets main healthy =>
    intro peer hhandlers
    refine hold peer ?_
    by_cases hpeer : peer = target
    · subst hpeer
      simpa [Node.setServer] using hhandlers
    · simpa [Node.setServer, hpeer] using hhandlers
  | spawned p holds => exact fun peer hhandlers => List.mem_append_left _ (hold peer hhandlers)
  | announced i task E there stage sent =>
    intro peer hhandlers
    refine hold peer ?_
    by_cases hpeer : peer = task.peer
    · subst hpeer
      rcases peer_handlers sent (by simpa [Node.setStage, Node.setServer] using hhandlers) with
        hbefore | hfail
      · exact hbefore
      · cases hfail
    · simpa [Node.setStage, Node.setServer, hpeer] using hhandlers
  | peered p pe E permitted step =>
    intro peer hhandlers
    by_cases hpeer : peer = p
    · subst hpeer
      rcases peer_handlers step (by simpa [Node.effect, Node.setServer] using hhandlers) with
        hbefore | rfl
      · exact hold peer hbefore
      · have hstarted := (Bool.and_eq_true_iff.mp permitted).2
        exact List.contains_iff_mem.mp hstarted
    · exact hold peer (by simpa [Node.effect, Node.setServer, hpeer] using hhandlers)
  | _ => exact hold

theorem wake_held (task : LeaderTask) : task.wake.stage.held = task.stage.held := by
  unfold LeaderTask.wake
  split_ifs with hwaiting
  · rw [hwaiting]
    rfl
  · rfl

theorem mem_setStage {i : ℕ} {stage : Stage} {task : LeaderTask}
    (h : task ∈ (n.setStage i stage).leaderTasks) : task ∈ n.leaderTasks ∨
      ∃ before, n.leaderTasks[i]? = some before ∧ task = { before with stage } := by
  obtain ⟨k, hk⟩ := List.mem_iff_getElem?.mp h
  simp only [Node.setStage, List.getElem?_modify] at hk
  by_cases hik : i = k
  · subst hik
    obtain ⟨before, hbefore, rfl⟩ := Option.map_eq_some_iff.mp hk
    exact Or.inr ⟨before, hbefore, by simp⟩
  · exact Or.inl (List.mem_iff_getElem?.mpr ⟨k, by simpa [hik] using hk⟩)

theorem step_holds (h : NodeStep config n e n') {task : LeaderTask} (htask : task ∈ n'.leaderTasks)
    {best : String} (held : task.stage.held = some best) :
    (∃ before ∈ n.leaderTasks, before.stage.held = some best) ∨ n.best config = some best := by
  cases h with
  | spawned p holds =>
    rcases List.mem_append.mp htask with htask | htask
    · exact Or.inl ⟨task, htask, held⟩
    · rw [List.mem_singleton.mp htask] at held
      cases held
  | moved i before stage there moves =>
    rcases mem_setStage htask with hstays | ⟨b, hb, rfl⟩
    · exact Or.inl ⟨task, hstays, held⟩
    · rw [there] at hb
      obtain rfl := Option.some.inj hb
      obtain ⟨peer, old⟩ := before
      cases moves with
      | chose b highest =>
        obtain rfl := Option.some.inj held
        exact Or.inr highest
      | differs b other =>
        exact Or.inl ⟨_, List.mem_iff_getElem?.mpr ⟨i, there⟩, held⟩
      | quiet | kept | follows => cases held
  | announced i before E there stage sent =>
    rcases mem_setStage htask with hstays | ⟨b, hb, rfl⟩
    · exact Or.inl ⟨task, hstays, held⟩
    · cases held
  | wrote i before b there stage =>
    rcases mem_setStage htask with hstays | ⟨b, hb, rfl⟩
    · exact Or.inl ⟨task, hstays, held⟩
    · cases held
  | peered p pe E permitted step =>
    left
    cases hnotifies : notifies pe with
    | true =>
      simp only [Node.effect, hnotifies, if_true] at htask
      obtain ⟨before, hbefore, rfl⟩ := List.mem_map.mp htask
      exact ⟨before, hbefore, wake_held before ▸ held⟩
    | false =>
      simp only [Node.effect, hnotifies, Bool.false_eq_true, if_false] at htask
      exact ⟨task, htask, held⟩
  | _ => exact Or.inl ⟨task, htask, held⟩

theorem Node.Tidy.step (distinct : (config.map Server.priority).Nodup) (tidy : n.Tidy config)
    (h : NodeStep config n e n') : n'.Tidy config where
  receivers := by
    have hold := tidy.receivers
    cases h with
    | tookReceiver p known healthy there =>
      exact fun peer hpeer => hold peer (Finset.mem_of_mem_erase hpeer)
    | _ => exact hold
  holding := by
    have hold := tidy.holding
    cases h with
    | tookReceiver p known healthy there =>
      intro peer hpeer
      rcases List.mem_append.mp hpeer with hpeer | hpeer
      · exact hold peer hpeer
      · exact List.mem_singleton.mp hpeer ▸ tidy.receivers p there
    | spawned p holds => exact fun peer hpeer => hold peer (List.mem_of_mem_erase hpeer)
    | _ => exact hold
  started := by
    have hold := tidy.started
    cases h with
    | spawned p holds =>
      intro peer hpeer
      rcases List.mem_append.mp hpeer with hpeer | hpeer
      · exact hold peer hpeer
      · exact List.mem_singleton.mp hpeer ▸ tidy.holding p holds
    | _ => exact hold
  handlers := step_tidy_handlers tidy h
  held := by
    intro task htask best held other hother lives
    have hlived := step_lives h lives
    rcases step_holds h htask held with ⟨before, hbefore, hheld⟩ | hbest
    · exact tidy.held before hbefore best hheld other hother hlived
    · by_cases hsame : other = best
      · rw [hsame]
      · exact le_of_lt ((best_highest distinct hbest).above other hother hlived hsame)

/-! ## No repair under way -/

theorem not_marked (tidy : n.Tidy config) (h : n.handling config = false) (peer : String) :
    .marked ∉ (n.serverStates peer).handlers := by
  intro hmarked
  have hknown := tidy.started peer (tidy.handlers peer (List.ne_nil_of_mem hmarked))
  have hall := List.any_eq_false.mp h peer (mem_serverIds.mpr hknown)
  exact hall (by simpa using hmarked)

/-- What `repairing` computes is all there is. -/
theorem not_repairing (tidy : n.Tidy config) (h : n.repairing config = false) :
    (∀ peer, .marked ∉ (n.serverStates peer).handlers) ∧
      ∀ task ∈ n.leaderTasks, task.repairs config n = false := by
  obtain ⟨hhandling, htasks⟩ := Bool.or_eq_false_iff.mp h
  refine ⟨not_marked tidy hhandling, fun task htask => ?_⟩
  simpa using List.any_eq_false.mp htasks task htask

theorem peer_marked {E E' : Endpoint} {pe : Peer.Event} (h : Peer.Step E pe E')
    (marked : .marked ∈ E'.handlers) :
    pe = .fail ∨ ∃ k, E.handlers[k]? = some .marked ∧ pe ≠ .notify k := by
  obtain ⟨k, hk⟩ := List.mem_iff_getElem?.mp marked
  cases h with
  | failed => exact Or.inl rfl
  | notified i handler =>
    have hik : i ≠ k := by
      rintro rfl
      rw [List.getElem?_set_self (List.getElem?_eq_some_iff.mp handler).1] at hk
      cases hk
    rw [List.getElem?_set_ne hik] at hk
    exact Or.inr ⟨k, hk, fun hevent => hik (Peer.Event.notify.inj hevent)⟩
  | drainedFailed i handler =>
    have hik : i ≠ k := by
      rintro rfl
      rw [List.getElem?_set_self (List.getElem?_eq_some_iff.mp handler).1] at hk
      cases hk
    rw [List.getElem?_set_ne hik] at hk
    refine Or.inr ⟨k, hk, fun hevent => ?_⟩
    cases hevent
  | _ =>
    refine Or.inr ⟨k, hk, fun hevent => ?_⟩
    cases hevent

/-! ## After an unsteady step -/

theorem gaveUp_unsound (distinct : (config.map Server.priority).Nodup) (tidy : n.Tidy config)
    {target : String} (highest : n.best config = some target)
    (next : (n.without target).best config ≠ some n.leader) (handling : n.handling config = false)
    (tasks : ∀ task ∈ n.leaderTasks, task.stage ≠ .woken) :
    ¬ (n.without target).Sound config := by
  rintro (hright | ⟨peer, hmarked⟩ | ⟨task, htask, hrepairs⟩)
  · exact next hright
  · refine not_marked tidy handling peer ?_
    by_cases hpeer : peer = target
    · subst hpeer
      simpa [Node.without, Node.setServer] using hmarked
    · simpa [Node.without, Node.setServer, hpeer] using hmarked
  · have hwoken : task.stage ≠ .woken := tasks task htask
    have htarget := best_highest distinct highest
    cases hheld : task.stage.held with
    | none => simp [LeaderTask.repairs, hwoken, hheld] at hrepairs
    | some best =>
      have hbest : some best = (n.without target).best config := by
        simpa [LeaderTask.repairs, hwoken, hheld] using hrepairs
      -- the target was alive when the task looked
      have hle := tidy.held task htask best hheld target htarget.known htarget.alive
      have hnext := best_highest distinct hbest.symm
      have halive := hnext.alive
      rw [Node.without, setServer_isAlive] at halive
      split_ifs at halive with hsame
      have hlt := htarget.above best hnext.known halive hsame
      omega

theorem wrote_unsound (tidy : n.Tidy config) {i : ℕ} {best : String}
    (wrong : n.best config ≠ some best) (idle : n.repairing config = false) :
    ¬ ({ n.setStage i (.deciding best) with leader := best } : Node).Sound config := by
  obtain ⟨hmarks, htasks⟩ := not_repairing tidy idle
  rintro (hright | ⟨peer, hmarked⟩ | ⟨task, htask, hrepairs⟩)
  · exact wrong hright
  · exact hmarks peer hmarked
  · rcases mem_setStage htask with hstays | ⟨before, -, rfl⟩
    · have hrepairs : task.repairs config n = true := hrepairs
      rw [htasks task hstays] at hrepairs
      cases hrepairs
    · simp [LeaderTask.repairs, Stage.held] at hrepairs

theorem setServer_marked_before {peer other : String} {E : Endpoint} {pe : Peer.Event}
    (step : Peer.Step (n.serverStates peer) pe E) (silent : pe ≠ .fail)
    (marked : .marked ∈ ((n.setServer peer E).serverStates other).handlers) :
    ∃ k, (n.serverStates other).handlers[k]? = some .marked ∧ (other = peer → pe ≠ .notify k) := by
  by_cases hother : other = peer
  · subst hother
    obtain ⟨k, hk, hne⟩ := (peer_marked step (by simpa [Node.setServer] using marked)).resolve_left
      silent
    exact ⟨k, hk, fun _ => hne⟩
  · obtain ⟨k, hk⟩ := List.mem_iff_getElem?.mp (by simpa [Node.setServer, hother] using marked)
    exact ⟨k, hk, fun hsame => absurd hsame hother⟩

theorem notified_unsound (tidy : n.Tidy config) {peer : String} {i : ℕ} {E : Endpoint}
    (step : Peer.Step (n.serverStates peer) (.notify i) E)
    (wrong : n.best config ≠ some n.leader) (alone : n.handlingOther config peer i = false)
    (tasks : ∀ task ∈ n.leaderTasks, task.stage ≠ .waiting ∧ task.repairs config n = false) :
    ¬ ((n.setServer peer E).effect (n.serverStates peer) (.notify i)).Sound config := by
  have hbest : ((n.setServer peer E).effect (n.serverStates peer) (.notify i)).best config =
      n.best config := by
    refine setServer_best ?_
    cases step
    rfl
  rintro (hright | ⟨other, hmarked⟩ | ⟨task, htask, hrepairs⟩)
  · exact wrong (hbest.symm.trans hright)
  · obtain ⟨k, hk, hne⟩ := setServer_marked_before step (fun hevent => by cases hevent) hmarked
    have hknown := tidy.started other (tidy.handlers other
      (List.ne_nil_of_mem (List.mem_iff_getElem?.mpr ⟨k, hk⟩)))
    have hnone := List.any_eq_false.mp alone other (mem_serverIds.mpr hknown)
    refine hnone (List.any_eq_true.mpr ⟨k, ?_, ?_⟩)
    · exact List.mem_range.mpr (List.getElem?_eq_some_iff.mp hk).1
    · simp only [hk, beq_self_eq_true, Bool.true_and, bne_iff_ne, ne_eq, Prod.mk.injEq, not_and]
      intro hother hki
      exact hne hother (hki ▸ rfl)
  · obtain ⟨before, hbefore, rfl⟩ := List.mem_map.mp htask
    obtain ⟨hwaits, hidle⟩ := tasks before hbefore
    rw [repairs_congr hbest, LeaderTask.wake, if_neg hwaits, hidle] at hrepairs
    cases hrepairs

theorem told_unsound (tidy : n.Tidy config) {peer leader : String} {E : Endpoint}
    (step : Peer.Step (n.serverStates peer) .dispatch E)
    (announced : told (n.serverStates peer) .dispatch = some leader)
    (wrong : n.best config ≠ some leader) (idle : n.repairing config = false) :
    ¬ ((n.setServer peer E).effect (n.serverStates peer) .dispatch).Sound config := by
  obtain ⟨hmarks, htasks⟩ := not_repairing tidy idle
  have hbest : ((n.setServer peer E).effect (n.serverStates peer) .dispatch).best config =
      n.best config := by
    refine setServer_best ?_
    rcases Peer.step_alive step with hsame | ⟨-, hevent | hevent⟩
    · exact hsame
    · cases hevent
    · cases hevent
  rintro (hright | ⟨other, hmarked⟩ | ⟨task, htask, hrepairs⟩)
  · refine wrong (hbest.symm.trans (hright.trans ?_))
    simp [Node.effect, announced]
  · obtain ⟨k, hk, -⟩ := setServer_marked_before step (fun hevent => by cases hevent) hmarked
    exact hmarks other (List.mem_iff_getElem?.mpr ⟨k, hk⟩)
  · rw [repairs_congr hbest, htasks task htask] at hrepairs
    cases hrepairs

/-- A step that is not steady leaves the leader wrong, with no repair under way. -/
theorem unsteady_unsound (distinct : (config.map Server.priority).Nodup) (tidy : n.Tidy config)
    (h : NodeStep config n e n') (unsteady : steady config n e = false) : ¬ n'.Sound config := by
  cases h with
  | gaveUp target targets main healthy =>
    simp only [steady, main, Bool.or_eq_false_iff, bne_eq_false_iff_eq, beq_eq_false_iff_ne,
      List.any_eq_false, beq_iff_eq] at unsteady
    obtain ⟨⟨⟨hhighest, hnext⟩, hhandling⟩, htasks⟩ := unsteady
    exact gaveUp_unsound distinct tidy hhighest hnext hhandling htasks
  | moved i task stage there moves =>
    simp only [steady, there, Option.map_some] at unsteady
    obtain ⟨peer, before⟩ := task
    cases moves <;> cases unsteady
  | announced i task E there stage sent =>
    simp only [steady, there, Option.map_some] at unsteady
    rcases stage with hstage | hstage <;> rw [hstage] at unsteady <;> cases unsteady
  | wrote i task best there stage =>
    simp only [steady, there, Option.map_some, stage, Bool.or_eq_false_iff,
      beq_eq_false_iff_ne] at unsteady
    exact wrote_unsound tidy unsteady.1 unsteady.2
  | peered peer e E permitted step =>
    cases e with
    | notify i =>
      simp only [steady, Bool.or_eq_false_iff, beq_eq_false_iff_ne, List.any_eq_false,
        Bool.or_eq_true, beq_iff_eq, not_or, Bool.not_eq_true] at unsteady
      obtain ⟨⟨hwrong, halone⟩, htasks⟩ := unsteady
      exact notified_unsound tidy step hwrong halone htasks
    | dispatch =>
      cases htold : told (n.serverStates peer) .dispatch with
      | none =>
        simp only [steady, htold] at unsteady
        cases unsteady
      | some leader =>
        simp only [steady, htold, Bool.or_eq_false_iff, beq_eq_false_iff_ne] at unsteady
        exact told_unsound tidy step htold unsteady.1 unsteady.2
    | _ => cases unsteady
  | _ => cases unsteady

/-- Whatever the run before, a step that is not steady leaves its server with the wrong leader, and
with nothing under way that would set it right. -/
theorem fleet_unsteady {capacity : ℕ} {es : List (String × Event)} {F F' : Fleet} {i : String}
    (distinct : (config.map Server.priority).Nodup)
    (run : FleetReaches config capacity anyFleetEvent es F)
    (unsteady : steadyFleet config F (i, e) = false)
    (taken : F.step config capacity (i, e) = some F') : ¬ (F'.node i).Sound config := by
  have htidy : (F.node i).Tidy config := by
    refine fleet_invariant (Q := fun _ _ => True) i (fun _ _ _ => trivial) run .init ?_
    intro n e n' before _ hstep
    exact before.step distinct hstep
  exact unsteady_unsound distinct htidy (fleet_step_cases taken).step unsteady

end MiniDiscord.Middleware
