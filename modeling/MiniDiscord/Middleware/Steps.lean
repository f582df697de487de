import MiniDiscord.Middleware.Spec
import MiniDiscord.Peer.Steps

/-!
# What one step of a server can do

`NodeStep` lists the outcomes of an event, with what is known in each. What a peer's task does to
its entry is a step of one end of the connection.
-/

namespace MiniDiscord.Middleware

open Peer (Endpoint Line Handler)

variable {config : Config} {n n' : Node} {e : Event}

/-- The steps of a leader task that change nothing but where it stands. -/
inductive Moves (config : Config) (n : Node) : Stage → Stage → Prop
  | quiet (lower : priorityOf config n.id ≠ maxPriority config) : Moves config n .starting .waiting
  | chose (best : String) (highest : n.best config = some best) :
      Moves config n .woken (.chosen best)
  | kept (best : String) (same : n.leader = best) : Moves config n (.chosen best) (.deciding best)
  | differs (best : String) (other : n.leader ≠ best) :
      Moves config n (.chosen best) (.writing best)
  | follows (best : String) (other : best ≠ n.id) : Moves config n (.deciding best) .waiting

inductive NodeStep (config : Config) (n : Node) : Event → Node → Prop
  | connected (target : String) (targets : List String)
      (main : n.mainTask = .connecting (target :: targets)) :
      NodeStep config n .connect
        { n with
          mainTask := .connecting targets
          introduced := n.introduced ++ [target]
          dialled := n.dialled ++ [target] }
  | gaveUp (target : String) (targets : List String)
      (main : n.mainTask = .connecting (target :: targets)) (healthy : n.poisoned = false) :
      NodeStep config n .giveUp
        { n.setServer target { n.serverStates target with isAlive := false } with
          mainTask := .connecting targets }
  | listened (main : n.mainTask = .connecting []) :
      NodeStep config n .listen { n with mainTask := .listening }
  | accepted (peer : String) (main : n.mainTask = .listening) :
      NodeStep config n (.accept peer) { n with introduced := n.introduced ++ [peer] }
  | tookReceiver (peer : String) (known : peer ∈ n.introduced) (healthy : n.poisoned = false)
      (there : peer ∈ n.receivers) :
      NodeStep config n (.takeReceiver peer)
        { n with
          introduced := n.introduced.erase peer
          receivers := n.receivers.erase peer
          holding := n.holding ++ [peer] }
  | brokeDown (peer : String) (known : peer ∈ n.introduced) (healthy : n.poisoned = false)
      (gone : peer ∉ n.receivers) :
      NodeStep config n (.takeReceiver peer)
        { n with introduced := n.introduced.erase peer, poisoned := true }
  | spawned (peer : String) (holds : peer ∈ n.holding) :
      NodeStep config n (.spawn peer)
        { n with
          holding := n.holding.erase peer
          started := n.started ++ [peer]
          leaderTasks := n.leaderTasks ++ [⟨peer, .starting⟩] }
  | moved (i : ℕ) (task : LeaderTask) (stage : Stage) (there : n.leaderTasks[i]? = some task)
      (moves : Moves config n task.stage stage) :
      NodeStep config n (.leaderTask i) (n.setStage i stage)
  | announced (i : ℕ) (task : LeaderTask) (E : Endpoint) (there : n.leaderTasks[i]? = some task)
      (stage : task.stage = .starting ∨ task.stage = .deciding n.id)
      (sent : Peer.Step (n.serverStates task.peer) (.announce n.id) E) :
      NodeStep config n (.leaderTask i) ((n.setServer task.peer E).setStage i .waiting)
  | wrote (i : ℕ) (task : LeaderTask) (best : String) (there : n.leaderTasks[i]? = some task)
      (stage : task.stage = .writing best) :
      NodeStep config n (.leaderTask i) { n.setStage i (.deciding best) with leader := best }
  | peered (peer : String) (e : Peer.Event) (E : Endpoint)
      (permitted : n.permits config peer e = true)
      (step : Peer.Step (n.serverStates peer) e E) :
      NodeStep config n (.peer peer e) ((n.setServer peer E).effect (n.serverStates peer) e)

theorem announce_some {peer : String} (h : n.announce peer = some n') :
    ∃ E, Peer.Step (n.serverStates peer) (.announce n.id) E ∧ n' = n.setServer peer E := by
  simp only [Node.announce, Option.bind_eq_bind, Option.bind_eq_some_iff] at h
  obtain ⟨E, hE, h⟩ := h
  obtain rfl := Option.some.inj h
  exact ⟨E, Peer.step_cases hE, rfl⟩

theorem leader_step_cases {i : ℕ} (h : n.leaderStep config i = some n') :
    NodeStep config n (.leaderTask i) n' := by
  simp only [Node.leaderStep, Option.bind_eq_bind, Option.bind_eq_some_iff] at h
  obtain ⟨task, there, h⟩ := h
  cases hstage : task.stage with
  | starting =>
    rw [hstage] at h
    simp only at h
    split_ifs at h with hpoisoned hmax
    · obtain ⟨n₁, hn₁, rfl⟩ := Option.map_eq_some_iff.mp h
      obtain ⟨E, sent, rfl⟩ := announce_some hn₁
      exact .announced i task E there (Or.inl hstage) sent
    · obtain rfl := Option.some.inj h
      exact .moved i task _ there (hstage ▸ .quiet hmax)
  | waiting =>
    rw [hstage] at h
    cases h
  | woken =>
    rw [hstage] at h
    simp only at h
    split_ifs at h with hpoisoned
    obtain ⟨best, highest, rfl⟩ := Option.map_eq_some_iff.mp h
    exact .moved i task _ there (hstage ▸ .chose best highest)
  | chosen best =>
    rw [hstage] at h
    simp only at h
    split_ifs at h with hpoisoned hsame
    · obtain rfl := Option.some.inj h
      exact .moved i task _ there (hstage ▸ .kept best hsame)
    · obtain rfl := Option.some.inj h
      exact .moved i task _ there (hstage ▸ .differs best hsame)
  | writing best =>
    rw [hstage] at h
    simp only at h
    split_ifs at h with hpoisoned
    obtain rfl := Option.some.inj h
    exact .wrote i task best there hstage
  | deciding best =>
    rw [hstage] at h
    simp only at h
    split_ifs at h with hself
    · obtain ⟨n₁, hn₁, rfl⟩ := Option.map_eq_some_iff.mp h
      obtain ⟨E, sent, rfl⟩ := announce_some hn₁
      exact .announced i task E there (Or.inr (hself ▸ hstage)) sent
    · obtain rfl := Option.some.inj h
      exact .moved i task _ there (hstage ▸ .follows best hself)

theorem step_cases (h : n.step config e = some n') : NodeStep config n e n' := by
  cases e with
  | connect =>
    simp only [Node.step] at h
    split at h
    · rename_i target targets hmain
      obtain rfl := Option.some.inj h
      exact .connected target targets hmain
    · cases h
  | giveUp =>
    simp only [Node.step] at h
    split at h
    · rename_i target targets hmain
      split_ifs at h with hpoisoned
      obtain rfl := Option.some.inj h
      exact .gaveUp target targets hmain (Bool.eq_false_of_not_eq_true hpoisoned)
    · cases h
  | listen =>
    simp only [Node.step] at h
    split_ifs at h with hmain
    obtain rfl := Option.some.inj h
    exact .listened hmain
  | accept peer =>
    simp only [Node.step] at h
    split_ifs at h with hmain
    obtain rfl := Option.some.inj h
    exact .accepted peer hmain
  | takeReceiver peer =>
    simp only [Node.step] at h
    split_ifs at h with hknown hthere
    · obtain rfl := Option.some.inj h
      exact .tookReceiver peer hknown.1 hknown.2 hthere
    · obtain rfl := Option.some.inj h
      exact .brokeDown peer hknown.1 hknown.2 hthere
  | spawn peer =>
    simp only [Node.step] at h
    split_ifs at h with hholds
    obtain rfl := Option.some.inj h
    exact .spawned peer hholds
  | leaderTask i => exact leader_step_cases h
  | peer peer e =>
    simp only [Node.step] at h
    split_ifs at h with hpermits
    simp only [Option.bind_eq_bind, Option.bind_eq_some_iff] at h
    obtain ⟨E, hE, h⟩ := h
    obtain rfl := Option.some.inj h
    exact .peered peer e E hpermits (Peer.step_cases hE)

/-! ## The fleet -/

/-- What the event puts on the wire to the peer. -/
def Event.written (peer : String) : Event → List Line
  | .peer p e => if p = peer then e.written else []
  | _ => []

/-- What the event takes from the wire that comes from the peer. -/
def Event.read (peer : String) : Event → List Line
  | .peer p e => if p = peer then e.read else []
  | _ => []

structure FleetStep (config : Config) (capacity : ℕ) (F : Fleet) (i : String) (e : Event)
    (F' : Fleet) : Prop where
  known : i ∈ serverIds config
  step : NodeStep config (F.node i) e (F'.node i)
  others : ∀ j, j ≠ i → F'.node j = F.node j
  wrote : ∀ j, j ≠ i → F'.wire i j = F.wire i j ++ e.written j
  took : ∀ j, j ≠ i → F.wire j i = e.read j ++ F'.wire j i
  untouched : ∀ j k, j ≠ i → k ≠ i → F'.wire j k = F.wire j k
  room : ∀ j, e.written j ≠ [] → (F.wire i j).length < capacity

variable {capacity : ℕ} {F F' : Fleet} {i : String}

theorem fleet_step_quiet (known : i ∈ serverIds config) (step : NodeStep config (F.node i) e n)
    (node : F'.node = Function.update F.node i n) (wire : F'.wire = F.wire)
    (written : ∀ j, e.written j = []) (read : ∀ j, e.read j = []) :
    FleetStep config capacity F i e F' where
  known := known
  step := by simpa [node] using step
  others := fun j hj => by simp [node, hj]
  wrote := fun j _ => by simp [wire, written j]
  took := fun j _ => by simp [wire, read j]
  untouched := fun j k _ _ => by rw [wire]
  room := fun j hwrites => absurd (written j) hwrites

theorem fleet_step_cases (h : F.step config capacity (i, e) = some F') :
    FleetStep config capacity F i e F' := by
  simp only [Fleet.step, Option.bind_eq_bind, Option.bind_eq_some_iff] at h
  obtain ⟨n, hn, h⟩ := h
  split_ifs at h with hknown
  have hstep := step_cases hn
  cases e with
  | connect =>
    simp only at h
    split at h
    · split_ifs at h
      obtain rfl := Option.some.inj h
      exact fleet_step_quiet hknown hstep rfl rfl (fun _ => rfl) fun _ => rfl
    · cases h
  | accept peer =>
    simp only at h
    split_ifs at h
    obtain rfl := Option.some.inj h
    exact fleet_step_quiet hknown hstep rfl rfl (fun _ => rfl) fun _ => rfl
  | peer p pe =>
    cases pe with
    | write line =>
      simp only at h
      split_ifs at h with hroom
      obtain rfl := Option.some.inj h
      refine ⟨hknown, by simpa [Fleet.setWire, Fleet.setNode] using hstep, ?_, ?_, ?_, ?_, ?_⟩
      · intro j hj
        simp [Fleet.setWire, Fleet.setNode, hj]
      · intro j hj
        by_cases hp : p = j
        · subst hp
          simp [Fleet.setWire, Fleet.setNode, Event.written, Peer.Event.written]
        · simp [Fleet.setWire, Fleet.setNode, Event.written, hp, Ne.symm hp]
      · intro j hj
        simp [Fleet.setWire, Fleet.setNode, Event.read, Peer.Event.read, hj]
      · intro j k hj hk
        simp [Fleet.setWire, Fleet.setNode, hj]
      · intro j hwrites
        by_cases hp : p = j
        · exact hp ▸ hroom
        · exact absurd (if_neg hp) hwrites
    | receive line =>
      simp only at h
      split at h
      · rename_i first rest hwire
        split_ifs at h with hfirst
        obtain rfl := Option.some.inj h
        refine ⟨hknown, by simpa [Fleet.setWire, Fleet.setNode] using hstep, ?_, ?_, ?_, ?_, ?_⟩
        · intro j hj
          simp [Fleet.setWire, Fleet.setNode, hj]
        · intro j hj
          by_cases hp : i = p
          · subst hp
            simp [Fleet.setWire, Fleet.setNode, Event.written, Peer.Event.written, hj]
          · simp [Fleet.setWire, Fleet.setNode, Event.written, Peer.Event.written, hp]
        · intro j hj
          by_cases hp : p = j
          · subst hp
            simp [Fleet.setWire, Fleet.setNode, Event.read, Peer.Event.read, hwire, hfirst]
          · simp [Fleet.setWire, Fleet.setNode, Event.read, hp, Ne.symm hp]
        · intro j k hj hk
          by_cases hp : j = p
          · subst hp
            simp [Fleet.setWire, Fleet.setNode, hk]
          · simp [Fleet.setWire, Fleet.setNode, hp]
        · intro j hwrites
          simp [Event.written, Peer.Event.written] at hwrites
      · cases h
    | _ =>
      obtain rfl := Option.some.inj h
      refine fleet_step_quiet hknown hstep rfl rfl (fun j => ?_) fun j => ?_
      · simp [Event.written, Peer.Event.written]
      · simp [Event.read, Peer.Event.read]
  | _ =>
    obtain rfl := Option.some.inj h
    exact fleet_step_quiet hknown hstep rfl rfl (fun _ => rfl) fun _ => rfl

/-- What each server's own steps preserve holds of every server in every run of the fleet. -/
theorem fleet_invariant {P : Node → Prop} {Q : Node → Event → Prop}
    {allowed : Fleet → String × Event → Bool} {es : List (String × Event)} (i : String)
    (permits : ∀ F x, allowed F x = true → Q (F.node x.1) x.2)
    (run : FleetReaches config capacity allowed es F) (start : P (.init config i))
    (preserved : ∀ n e n', P n → Q n e → NodeStep config n e n' → P n') :
    P (F.node i) := by
  refine run.invariant (P := fun F => P (F.node i)) start ?_
  rintro F ⟨k, e⟩ F' before hallowed taken
  have hstep := fleet_step_cases taken
  by_cases hik : i = k
  · subst hik
    exact preserved _ _ _ before (permits _ _ hallowed) hstep.step
  · rw [hstep.others i hik]
    exact before

/-! ## Who is alive -/

theorem setServer_isAlive (n : Node) (peer other : String) (E : Endpoint) :
    (n.setServer peer E).isAlive other = if other = peer then E.isAlive else n.isAlive other := by
  simp only [Node.isAlive, Node.setServer, Function.update_apply]
  split_ifs <;> rfl

/-- `main_task` gives up on a server, or its heartbeats fail; nothing else changes who is alive. -/
theorem step_isAlive (h : NodeStep config n e n') (other : String) :
    n'.isAlive other = n.isAlive other ∨ n'.isAlive other = false ∧
      ((∃ targets, n.mainTask = .connecting (other :: targets)) ∨
        e = .peer other .fail ∧ other ∈ n.started) := by
  cases h with
  | gaveUp target targets main healthy =>
    change (n.setServer target _).isAlive other = _ ∨ (n.setServer target _).isAlive other = _ ∧ _
    rw [setServer_isAlive]
    split_ifs with hother
    · exact Or.inr ⟨rfl, Or.inl ⟨targets, hother ▸ main⟩⟩
    · exact Or.inl rfl
  | announced i task E there stage sent =>
    left
    change (n.setServer task.peer E).isAlive other = _
    rw [setServer_isAlive]
    split_ifs with hother
    · rcases Peer.step_alive sent with hsame | ⟨-, hevent | hevent⟩
      · rw [hsame, hother]
        rfl
      · cases hevent
      · cases hevent
    · rfl
  | peered peer e E permitted step =>
    change (n.setServer peer E).isAlive other = _ ∨ (n.setServer peer E).isAlive other = _ ∧ _
    rw [setServer_isAlive]
    split_ifs with hother
    · subst hother
      rcases Peer.step_alive step with hsame | ⟨hfailed, rfl | rfl⟩
      · exact Or.inl hsame
      · refine Or.inr ⟨hfailed, Or.inr ⟨rfl, ?_⟩⟩
        simpa [Node.permits] using (Bool.and_eq_true_iff.mp permitted).2
      · simp [Node.permits] at permitted
    · exact Or.inl rfl
  | _ => exact Or.inl rfl

theorem step_still_failed (h : NodeStep config n e n') {other : String}
    (failed : n.isAlive other = false) : n'.isAlive other = false := by
  rcases step_isAlive h other with hsame | ⟨hfailed, -⟩
  · rw [hsame, failed]
  · exact hfailed

theorem step_lives (h : NodeStep config n e n') {other : String}
    (lives : n'.isAlive other = true) : n.isAlive other = true := by
  by_contra hdead
  rw [step_still_failed h (Bool.eq_false_of_not_eq_true hdead)] at lives
  cases lives

end MiniDiscord.Middleware
