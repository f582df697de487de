import MiniDiscord.Middleware.Links
import MiniDiscord.Middleware.Mesh
import MiniDiscord.Middleware.Unsteady

/-!
# Whom the servers follow

A server announces itself only when it takes every server of a higher priority for failed, and it
takes nobody back. So whatever is still under way when an announcement arrives, the leader of a
server is justified by what that server or the leader itself takes for failed. Two servers follow
different leaders only while one of the four takes a leader for failed.
-/

namespace MiniDiscord.Peer

/-! ## Announcements at one end -/

def MessageToSend.leader? : MessageToSend → Option String
  | .leaderAnnouncement leader => some leader
  | _ => none

def Line.leader? : Line → Option String
  | .leaderAnnouncement _ leader => some leader
  | _ => none

def SendTask.leader? : SendTask → Option String
  | .taken message => message.leader?
  | .registered line | .writing line => line.leader?
  | _ => none

/-- The end is about to announce the leader. -/
def Endpoint.Announces (E : Endpoint) (leader : String) : Prop :=
  (∃ message ∈ E.queue, message.leader? = some leader) ∨ E.sendTask.leader? = some leader

/-- The end has read an announcement of the leader. -/
def Endpoint.Hears (E : Endpoint) (leader : String) : Prop :=
  ∃ line, E.readLoop = .dispatching line ∧ line.leader? = some leader

variable {E E' : Endpoint} {e : Event} {leader : String} {line : Line}

theorem line_leader (message : MessageToSend) (q : ℕ) :
    (message.line q).leader? = message.leader? := by
  cases message <;> rfl

theorem announces_snoc {message : MessageToSend}
    (h : ∃ m ∈ E.queue ++ [message], m.leader? = some leader) :
    E.Announces leader ∨ message.leader? = some leader := by
  obtain ⟨m, hm, hleader⟩ := h
  rcases List.mem_append.mp hm with hm | hm
  · exact Or.inl (Or.inl ⟨m, hm, hleader⟩)
  · exact Or.inr (List.mem_singleton.mp hm ▸ hleader)

theorem step_announces (h : Step E e E') (announces : E'.Announces leader) :
    E.Announces leader ∨ e = .announce leader := by
  cases h with
  | announced l room =>
    rcases announces with hqueue | htask
    · refine (announces_snoc hqueue).imp_right fun hleader => ?_
      rw [Option.some.inj hleader]
    · exact Or.inl (Or.inr htask)
  | sentRequest | sentPing | ponged | unblocked | answered =>
    left
    rcases announces with hqueue | htask
    · exact (announces_snoc hqueue).resolve_right nofun
    · exact Or.inr htask
  | took message queue task next =>
    left
    rcases announces with ⟨m, hm, hleader⟩ | htask
    · exact Or.inl ⟨m, by simp [next, hm], hleader⟩
    · exact Or.inl ⟨message, by simp [next], htask⟩
  | numbered message task =>
    left
    rcases announces with hqueue | htask
    · exact Or.inl hqueue
    · refine Or.inr ?_
      rw [task]
      exact (line_leader _ _).symm.trans htask
  | checkedAlive line task alive =>
    left
    rcases announces with hqueue | htask
    · exact Or.inl hqueue
    · exact Or.inr (task ▸ htask)
  | checkedFailed | wrote | lost | drained =>
    exact Or.inl (Or.inl (announces.resolve_right nofun))
  | _ => exact Or.inl announces

theorem step_hears (h : Step E e E') (hears : E'.Hears leader) :
    E.Hears leader ∨ ∃ line, e = .receive line ∧ line.leader? = some leader := by
  obtain ⟨line, hloop, hleader⟩ := hears
  cases h with
  | received line' loop =>
    obtain rfl := ReadLoop.dispatching.inj hloop
    exact Or.inr ⟨_, rfl, hleader⟩
  | disconnected | responded | ponged | blocked | heard | spawned | unblocked => cases hloop
  | _ => exact Or.inl ⟨line, hloop, hleader⟩

theorem written_announces (h : Step E (.write line) E') (hleader : line.leader? = some leader) :
    E.Announces leader := by
  cases h with
  | wrote line task => exact Or.inr (by rw [task]; exact hleader)

end MiniDiscord.Peer

namespace MiniDiscord.Middleware

open Peer (Endpoint Line MessageToSend SendTask)

variable {config : Config} {capacity : ℕ} {n n' : Node} {e : Event} {F F' : Fleet} {i : String}
  {server leader : String}

/-! ## The configuration -/

/-- `validate_config` panics at the second server of one priority. -/
def validateConfig (config : Config) : Option (Finset ℕ) :=
  config.foldlM (fun priorities server =>
    if server.priority ∈ priorities then none else some (insert server.priority priorities)) ∅

theorem validateConfig_some {priorities : Finset ℕ} (h : validateConfig config = some priorities) :
    (config.map Server.priority).Nodup ∧
      ∀ p, p ∈ priorities ↔ p ∈ config.map Server.priority := by
  induction config using List.reverseRecOn generalizing priorities with
  | nil =>
    obtain rfl := Option.some.inj h
    simp
  | append_singleton config last ih =>
    simp only [validateConfig, List.foldlM_append, Option.bind_eq_bind, Option.bind_eq_some_iff,
      List.foldlM_cons, List.foldlM_nil] at h
    obtain ⟨before, hbefore, after, hafter, h⟩ := h
    obtain ⟨hnodup, hmem⟩ := ih hbefore
    split_ifs at hafter with hseen
    obtain rfl := Option.some.inj hafter
    obtain rfl := Option.some.inj h
    rw [hmem] at hseen
    constructor
    · rw [List.map_append, List.nodup_append']
      exact ⟨hnodup, List.nodup_singleton _, by simpa [List.disjoint_singleton] using hseen⟩
    · intro p
      simp [hmem, or_comm]

/-! ## Standing -/

/-- No server that `n` considers alive has a higher priority. -/
def Node.Tops (config : Config) (n : Node) (server : String) : Prop :=
  ∀ other ∈ config.map Server.id, n.isAlive other = true →
    priorityOf config other ≤ priorityOf config server

theorem tops_step (h : NodeStep config n e n') (tops : n.Tops config server) :
    n'.Tops config server :=
  fun other hother alive => tops other hother (step_lives h alive)

theorem tops_lower {other : String} (tops : n.Tops config server)
    (known : other ∈ config.map Server.id)
    (higher : priorityOf config server < priorityOf config other) : n.isAlive other = false := by
  by_contra halive
  exact absurd (tops other known (by simpa using halive)) (not_le.mpr higher)

theorem tops_best (distinct : (config.map Server.priority).Nodup)
    (h : n.best config = some server) : server ∈ config.map Server.id ∧ n.Tops config server := by
  have highest := best_highest distinct h
  refine ⟨highest.known, fun other hother alive => ?_⟩
  by_cases hsame : other = server
  · rw [hsame]
  · exact (highest.above other hother alive hsame).le

theorem le_maxPriority {s : Server} (h : s ∈ config) : s.priority ≤ maxPriority config := by
  have hmem : s.priority ∈ config.map Server.priority := List.mem_map_of_mem h
  rw [maxPriority, List.foldl_max_eq_max (List.ne_nil_of_mem hmem)]
  exact (List.le_max_of_mem hmem).trans (le_max_right _ _)

theorem tops_max (n : Node) (greatest : priorityOf config server = maxPriority config) :
    n.Tops config server := by
  intro other hother _
  obtain ⟨s, hs, -, hpriority⟩ := priorityOf_entry hother
  rw [hpriority, greatest]
  exact le_maxPriority hs

/-- Among the alive servers there is one with the highest priority. -/
theorem best_exists (known : server ∈ config.map Server.id) (alive : n.isAlive server = true) :
    ∃ best, n.best config = some best := by
  refine Option.isSome_iff_exists.mp ?_
  rw [Node.best, List.isSome_head?]
  refine List.ne_nil_of_mem (a := server) ?_
  rw [List.mem_reverse, List.mem_insertionSort, List.mem_filter, mem_serverIds]
  exact ⟨known, alive⟩

/-! ## One step of a server -/

/-- The server that a leader task has looked up. -/
def Stage.choice : Stage → Option String
  | .chosen best | .writing best | .deciding best => some best
  | _ => none

theorem step_id (h : NodeStep config n e n') : n'.id = n.id := by
  cases h <;> rfl

theorem wake_choice (task : LeaderTask) : task.wake.stage.choice = task.stage.choice := by
  unfold LeaderTask.wake
  split_ifs with hwaiting
  · rw [hwaiting]
    rfl
  · rfl

theorem step_choice (h : NodeStep config n e n') {task : LeaderTask}
    (htask : task ∈ n'.leaderTasks) {best : String} (choice : task.stage.choice = some best) :
    (∃ before ∈ n.leaderTasks, before.stage.choice = some best) ∨ n.best config = some best := by
  cases h with
  | spawned p holds =>
    rcases List.mem_append.mp htask with htask | htask
    · exact Or.inl ⟨task, htask, choice⟩
    · rw [List.mem_singleton.mp htask] at choice
      cases choice
  | moved i before stage there moves =>
    rcases mem_setStage htask with hstays | ⟨b, hb, rfl⟩
    · exact Or.inl ⟨task, hstays, choice⟩
    · obtain rfl := Option.some.inj (there.symm.trans hb)
      obtain ⟨peer, old⟩ := before
      cases moves with
      | chose b highest => exact Or.inr (Option.some.inj choice ▸ highest)
      | kept | differs => exact Or.inl ⟨_, List.mem_of_getElem? there, choice⟩
      | quiet | follows => cases choice
  | announced i before E there stage sent =>
    rcases mem_setStage htask with hstays | ⟨b, hb, rfl⟩
    · exact Or.inl ⟨task, hstays, choice⟩
    · cases choice
  | wrote i before b there stage =>
    rcases mem_setStage htask with hstays | ⟨b', hb, rfl⟩
    · exact Or.inl ⟨task, hstays, choice⟩
    · refine Or.inl ⟨before, List.mem_of_getElem? there, ?_⟩
      rw [stage]
      exact choice
  | peered p pe E permitted step =>
    left
    cases hnotifies : notifies pe with
    | true =>
      simp only [Node.effect, hnotifies, if_true] at htask
      obtain ⟨before, hbefore, rfl⟩ := List.mem_map.mp htask
      exact ⟨before, hbefore, wake_choice before ▸ choice⟩
    | false =>
      simp only [Node.effect, hnotifies, Bool.false_eq_true, if_false] at htask
      exact ⟨task, htask, choice⟩
  | _ => exact Or.inl ⟨task, htask, choice⟩

theorem leaderStep_starting {k : ℕ} {task : LeaderTask} (there : n.leaderTasks[k]? = some task)
    (stage : task.stage = .starting) (h : n.leaderStep config k = some n') :
    priorityOf config n.id = maxPriority config ∨ n'.serverStates = n.serverStates := by
  simp only [Node.leaderStep, there, Option.bind_eq_bind, Option.bind_some, stage] at h
  split_ifs at h with hpoisoned hmax
  · exact Or.inl hmax
  · obtain rfl := Option.some.inj h
    exact Or.inr rfl

/-- A server announces nobody but itself, and only at the top. -/
theorem announces_own (h : n.step config e = some n') {peer : String}
    (announces : (n'.serverStates peer).Announces leader) :
    (n.serverStates peer).Announces leader ∨ leader = n.id ∧
      (priorityOf config n.id = maxPriority config ∨
        ∃ task ∈ n.leaderTasks, task.stage.choice = some n.id) := by
  cases step_cases h with
  | gaveUp target targets main healthy =>
    left
    by_cases hpeer : peer = target
    · subst hpeer
      simp only [Node.setServer, Function.update_self] at announces
      exact announces
    · simpa [Node.setServer, hpeer] using announces
  | announced k task E there stage sent =>
    by_cases hpeer : peer = task.peer
    · subst hpeer
      have hsent : E.Announces leader := by
        simpa [Node.setStage, Node.setServer] using announces
      rcases Peer.step_announces sent hsent with hbefore | hevent
      · exact Or.inl hbefore
      · obtain rfl := Peer.Event.announce.inj hevent
        rcases stage with hstarting | hdeciding
        · rcases leaderStep_starting there hstarting h with hmax | hsame
          · exact Or.inr ⟨rfl, Or.inl hmax⟩
          · exact Or.inl (hsame ▸ announces)
        · exact Or.inr ⟨rfl, Or.inr ⟨task, List.mem_of_getElem? there, by rw [hdeciding]; rfl⟩⟩
    · left
      simpa [Node.setStage, Node.setServer, hpeer] using announces
  | peered p pe E permitted step =>
    left
    by_cases hpeer : peer = p
    · subst hpeer
      have hsent : E.Announces leader := by
        simpa [Node.effect, Node.setServer] using announces
      refine (Peer.step_announces step hsent).resolve_right ?_
      rintro rfl
      simp [Node.permits] at permitted
    · simpa [Node.effect, Node.setServer, hpeer] using announces
  | _ => exact Or.inl announces

theorem step_leader (h : NodeStep config n e n') : n'.leader = n.leader ∨
    (∃ task ∈ n.leaderTasks, task.stage.choice = some n'.leader) ∨
      ∃ peer ∈ n.started, (n.serverStates peer).Hears n'.leader := by
  cases h with
  | wrote k task best there stage =>
    exact Or.inr (Or.inl ⟨task, List.mem_of_getElem? there, by rw [stage]; rfl⟩)
  | peered p pe E permitted step =>
    cases htold : told (n.serverStates p) pe with
    | none => exact Or.inl (by simp [Node.effect, htold, Node.setServer])
    | some l =>
      right
      right
      cases pe with
      | dispatch =>
        refine ⟨p, ?_, ?_⟩
        · simpa [Node.permits] using (Bool.and_eq_true_iff.mp permitted).2
        · simp only [Node.effect, htold, Option.getD_some]
          simp only [told] at htold
          split at htold
          · rename_i q l' hloop
            exact ⟨_, hloop, htold⟩
          · cases htold
      | _ => cases htold
  | _ => exact Or.inl rfl

theorem step_reads (h : NodeStep config n e n') {peer : String}
    (hears : (n'.serverStates peer).Hears leader) :
    (n.serverStates peer).Hears leader ∨ ∃ line ∈ e.read peer, line.leader? = some leader := by
  rcases step_entry h peer with ⟨hsame, -, -⟩ | ⟨pe, hstep, -, hread⟩
  · exact Or.inl (hsame ▸ hears)
  · refine (Peer.step_hears hstep hears).imp_right ?_
    rintro ⟨line, rfl, hleader⟩
    exact ⟨line, by simp [← hread, Peer.Event.read], hleader⟩

theorem step_written (h : NodeStep config n e n') {peer : String} {line : Line}
    (written : line ∈ e.written peer) (announced : line.leader? = some leader) :
    (n.serverStates peer).Announces leader := by
  rcases step_entry h peer with ⟨-, hnone, -⟩ | ⟨pe, hstep, hwritten, -⟩
  · simp [hnone] at written
  · rw [← hwritten] at written
    cases pe with
    | write line' =>
      obtain rfl := List.mem_singleton.mp written
      exact Peer.written_announces hstep announced
    | _ => cases written

/-! ## The fleet -/

theorem fleet_step_node (taken : F.step config capacity (i, e) = some F') :
    (F.node i).step config e = some (F'.node i) := by
  simp only [Fleet.step, Option.bind_eq_bind, Option.bind_eq_some_iff] at taken
  obtain ⟨n, hn, taken⟩ := taken
  rw [hn]
  split_ifs at taken
  split at taken
  · split at taken
    · split_ifs at taken
      obtain rfl := Option.some.inj taken
      simp [Fleet.setNode]
    · cases taken
  · split_ifs at taken
    obtain rfl := Option.some.inj taken
    simp [Fleet.setNode]
  · split_ifs at taken
    obtain rfl := Option.some.inj taken
    simp [Fleet.setNode, Fleet.setWire]
  · split at taken
    · split_ifs at taken
      obtain rfl := Option.some.inj taken
      simp [Fleet.setNode, Fleet.setWire]
    · cases taken
  · obtain rfl := Option.some.inj taken
    simp [Fleet.setNode]

/-- The server has announced itself, and takes nobody for alive that has a higher priority. -/
def Fleet.Stands (config : Config) (F : Fleet) (i leader : String) : Prop :=
  leader = i ∧ (F.node i).Tops config i

/-- The server follows a leader for which it, or the leader, takes no higher server for alive. -/
def Fleet.Follows (config : Config) (F : Fleet) (i leader : String) : Prop :=
  leader ∈ config.map Server.id ∧
    ((F.node i).Tops config leader ∨ (F.node leader).Tops config leader)

/-- What holds of all announcements and leaders. -/
structure Fleet.Elects (config : Config) (F : Fleet) : Prop where
  own : ∀ i, (F.node i).id = i
  tasks : ∀ i, ∀ task ∈ (F.node i).leaderTasks, ∀ best, task.stage.choice = some best →
    best ∈ config.map Server.id ∧ (F.node i).Tops config best
  sends : ∀ i j leader, ((F.node i).serverStates j).Announces leader → F.Stands config i leader
  wire : ∀ i j, i ≠ j → ∀ line ∈ F.wire i j, ∀ leader, line.leader? = some leader →
    F.Stands config i leader
  hears : ∀ i j, i ≠ j → ∀ leader, ((F.node j).serverStates i).Hears leader →
    F.Stands config i leader
  leads : ∀ i ∈ config.map Server.id, F.Follows config i (F.node i).leader

namespace Fleet.Elects

theorem init (distinct : (config.map Server.priority).Nodup)
    (once : (config.map Server.id).Nodup) : (Fleet.init config).Elects config where
  own _ := rfl
  tasks _ _ htask := absurd htask List.not_mem_nil
  sends _ _ _ announces := by
    rcases announces with ⟨m, hm, -⟩ | htask
    · cases hm
    · cases htask
  wire _ _ _ _ hline := absurd hline List.not_mem_nil
  hears _ _ _ _ hears := by
    obtain ⟨line, hloop, -⟩ := hears
    cases hloop
  leads i known := by
    have hbest := init_best distinct (unambiguous_of_nodup distinct once) known
    obtain ⟨hknown, htops⟩ := tops_best distinct hbest
    exact ⟨hknown, Or.inl htops⟩

theorem fleet_tops (h : FleetStep config capacity F i e F') {k : String}
    (tops : (F.node k).Tops config server) : (F'.node k).Tops config server := by
  by_cases hk : k = i
  · subst hk
    exact tops_step h.step tops
  · rwa [h.others k hk]

theorem fleet_stands (h : FleetStep config capacity F i e F') {k : String}
    (stands : F.Stands config k leader) : F'.Stands config k leader :=
  stands.imp_right (fleet_tops h)

/-- A server that is about to announce itself is at the top. -/
theorem announced (elects : F.Elects config) {k : String}
    (h : priorityOf config k = maxPriority config ∨
      ∃ task ∈ (F.node k).leaderTasks, task.stage.choice = some k) : (F.node k).Tops config k := by
  rcases h with hmax | ⟨task, htask, hchoice⟩
  · exact tops_max _ hmax
  · exact (elects.tasks k task htask k hchoice).2

theorem step_tasks (distinct : (config.map Server.priority).Nodup) (elects : F.Elects config)
    (h : FleetStep config capacity F i e F') {k : String} {task : LeaderTask}
    (htask : task ∈ (F'.node k).leaderTasks) {best : String}
    (choice : task.stage.choice = some best) :
    best ∈ config.map Server.id ∧ (F'.node k).Tops config best := by
  have hold : (∃ before ∈ (F.node k).leaderTasks, before.stage.choice = some best) ∨
      (F.node k).best config = some best := by
    by_cases hk : k = i
    · subst hk
      exact step_choice h.step htask choice
    · rw [h.others k hk] at htask
      exact Or.inl ⟨task, htask, choice⟩
  rcases hold with ⟨before, hbefore, hchoice⟩ | hbest
  · exact (elects.tasks k before hbefore best hchoice).imp_right (fleet_tops h)
  · exact (tops_best distinct hbest).imp_right (fleet_tops h)

theorem step_sends (elects : F.Elects config) (taken : F.step config capacity (i, e) = some F')
    {k j : String} (announces : ((F'.node k).serverStates j).Announces leader) :
    F'.Stands config k leader := by
  have hstep := fleet_step_cases taken
  refine fleet_stands hstep ?_
  by_cases hk : k = i
  · subst hk
    rcases announces_own (fleet_step_node taken) announces with hold | ⟨hself, htop⟩
    · exact elects.sends k j leader hold
    · rw [elects.own k] at hself htop
      exact ⟨hself, elects.announced htop⟩
  · rw [hstep.others k hk] at announces
    exact elects.sends k j leader announces

theorem step_wire (elects : F.Elects config) (h : FleetStep config capacity F i e F')
    {k j : String} (hne : k ≠ j) {line : Line} (hline : line ∈ F'.wire k j)
    (announced : line.leader? = some leader) : F'.Stands config k leader := by
  refine fleet_stands h ?_
  by_cases hk : k = i
  · subst hk
    rw [h.wrote j hne.symm] at hline
    rcases List.mem_append.mp hline with hold | hnew
    · exact elects.wire k j hne line hold leader announced
    · exact elects.sends k j leader (step_written h.step hnew announced)
  · by_cases hj : j = i
    · subst hj
      have hold : line ∈ F.wire k j := by
        rw [h.took k hk]
        exact List.mem_append_right _ hline
      exact elects.wire k j hne line hold leader announced
    · rw [h.untouched k j hk hj] at hline
      exact elects.wire k j hne line hline leader announced

theorem step_hears (elects : F.Elects config) (h : FleetStep config capacity F i e F')
    {k j : String} (hne : k ≠ j) (hears : ((F'.node j).serverStates k).Hears leader) :
    F'.Stands config k leader := by
  refine fleet_stands h ?_
  by_cases hj : j = i
  · subst hj
    rcases step_reads h.step hears with hold | ⟨line, hline, announced⟩
    · exact elects.hears k j hne leader hold
    · refine elects.wire k j hne line ?_ leader announced
      rw [h.took k hne]
      exact List.mem_append_left _ hline
  · rw [h.others j hj] at hears
    exact elects.hears k j hne leader hears

theorem step_leads (elects : F.Elects config) (meshed : F.Meshed config)
    (h : FleetStep config capacity F i e F') {k : String} (known : k ∈ config.map Server.id) :
    F'.Follows config k (F'.node k).leader := by
  refine And.imp_right (Or.imp (fleet_tops h) (fleet_tops h)) ?_
  by_cases hk : k = i
  · subst hk
    rcases step_leader h.step with hleader | ⟨task, htask, hchoice⟩ | ⟨peer, hpeer, hears⟩
    · rw [hleader]
      exact elects.leads k known
    · exact (elects.tasks k task htask _ hchoice).imp_right Or.inl
    · have hconnected : peer ∈ F.peers k := by simp [Fleet.peers, Node.connections, hpeer]
      obtain ⟨hknown, hne⟩ := meshed.known k peer hconnected
      obtain ⟨hself, htops⟩ := elects.hears peer k hne _ hears
      rw [hself]
      exact ⟨hknown, Or.inr htops⟩
  · rw [h.others k hk]
    exact elects.leads k known

theorem step (distinct : (config.map Server.priority).Nodup) (elects : F.Elects config)
    (meshed : F.Meshed config) (taken : F.step config capacity (i, e) = some F') :
    F'.Elects config := by
  have hstep := fleet_step_cases taken
  refine ⟨fun k => ?_, fun _ _ htask _ => elects.step_tasks distinct hstep htask,
    fun _ _ _ => elects.step_sends taken, fun _ _ hne _ hline _ => elects.step_wire hstep hne hline,
    fun _ _ hne _ => elects.step_hears hstep hne, fun _ => elects.step_leads meshed hstep⟩
  by_cases hk : k = i
  · subst hk
    exact (step_id hstep.step).trans (elects.own k)
  · rw [hstep.others k hk]
    exact elects.own k

end Fleet.Elects

theorem fleet_elects {allowed : Fleet → String × Event → Bool} {es : List (String × Event)}
    (distinct : (config.map Server.priority).Nodup) (once : (config.map Server.id).Nodup)
    (run : FleetReaches config capacity allowed es F) : F.Elects config := by
  have hboth := run.invariant (P := fun F => F.Meshed config ∧ F.Elects config)
    ⟨.init once, .init distinct once⟩ fun _ _ _ before _ taken =>
      ⟨before.1.step taken, before.2.step distinct before.1 taken⟩
  exact hboth.2

/-- The server, or the one that it follows, takes `other` for failed. -/
def Fleet.Doubts (F : Fleet) (i other : String) : Prop :=
  (F.node i).isAlive other = false ∨ (F.node (F.node i).leader).isAlive other = false

/-- **Whom the servers follow.** In every run of the configured servers, whatever connections fail,
whoever is taken for failed and whatever is still under way: no mutex is poisoned, every server
finds a best one among those it takes for alive, and follows a configured server; announcements name
the server that sends them. A server of a higher priority than its leader is doubted by a server.
So two servers follow different leaders only while one of them doubts the other's leader. -/
theorem leaders_agree {allowed : Fleet → String × Event → Bool} {es : List (String × Event)}
    {priorities : Finset ℕ} (valid : validateConfig config = some priorities)
    (once : (config.map Server.id).Nodup) (run : FleetReaches config capacity allowed es F) :
    (∀ i ∈ config.map Server.id, (F.node i).poisoned = false ∧ (F.node i).isAlive i = true ∧
      (∃ best, (F.node i).best config = some best) ∧
      (F.node i).leader ∈ config.map Server.id) ∧
    (∀ i j, i ≠ j → ∀ line ∈ F.wire i j, ∀ leader, line.leader? = some leader → leader = i) ∧
    (∀ i ∈ config.map Server.id, ∀ other ∈ config.map Server.id,
      priorityOf config (F.node i).leader < priorityOf config other → F.Doubts i other) ∧
    ∀ i ∈ config.map Server.id, ∀ j ∈ config.map Server.id, (F.node i).leader ≠ (F.node j).leader →
      F.Doubts i (F.node j).leader ∨ F.Doubts j (F.node i).leader := by
  have distinct := (validateConfig_some valid).1
  have meshed := fleet_meshed once run
  have elects := fleet_elects distinct once run
  have hdoubts : ∀ i ∈ config.map Server.id, ∀ other ∈ config.map Server.id,
      priorityOf config (F.node i).leader < priorityOf config other → F.Doubts i other := by
    intro i hi other hother higher
    rcases (elects.leads i hi).2 with htops | htops
    · exact Or.inl (tops_lower htops hother higher)
    · exact Or.inr (tops_lower htops hother higher)
  refine ⟨fun i hi => ?_, fun i j hne line hline leader announced => ?_, hdoubts,
    fun i hi j hj differ => ?_⟩
  · have halive := fleet_own_alive once run i
    exact ⟨meshed.healthy i, halive, best_exists hi halive, (elects.leads i hi).1⟩
  · exact (elects.wire i j hne line hline leader announced).1
  · have hleader := (elects.leads i hi).1
    have hleader' := (elects.leads j hj).1
    rcases lt_trichotomy (priorityOf config (F.node i).leader) (priorityOf config (F.node j).leader)
      with hlower | hsame | hhigher
    · exact Or.inl (hdoubts i hi _ hleader' hlower)
    · exact absurd (priorityOf_inj distinct hleader hleader' hsame) differ
    · exact Or.inr (hdoubts j hj _ hleader hhigher)

/-- `A` took over from `B`, which runs on and follows itself: `A` doubts it. -/
theorem leaders_agree_failover : ∃ F,
    FleetReaches [⟨"A", 1⟩, ⟨"B", 2⟩] 1 anyFleetEvent failover F ∧
    (F.node "A").leader = "A" ∧ (F.node "B").leader = "B" ∧
    (F.Doubts "A" (F.node "B").leader ∨ F.Doubts "B" (F.node "A").leader) := by
  obtain ⟨F, run, htest⟩ := Run.exec_of_test
    (fun F : Fleet => (F.node "A").leader = "A" ∧ (F.node "B").leader = "B")
    (by decide : (Fleet.outcome [⟨"A", 1⟩, ⟨"B", 2⟩] 1 anyFleetEvent failover).any _ = true)
  obtain ⟨hleader, hleader'⟩ := of_decide_eq_true htest
  have valid : validateConfig [⟨"A", 1⟩, ⟨"B", 2⟩] = some {2, 1} := by decide
  have hdiffer := (leaders_agree valid (by decide) run).2.2.2 "A" (by decide) "B" (by decide)
  exact ⟨F, run, hleader, hleader', hdiffer (by rw [hleader, hleader']; decide)⟩

end MiniDiscord.Middleware
