import MiniDiscord.Middleware.Priority
import MiniDiscord.Middleware.Startup

/-!
# Each pair of servers connects once

A server dials the servers with a smaller id, and no two entries of the configuration have one id.
So no connection comes twice, every `peer_task` finds the receiver of its peer, and no server breaks
its mutex. A server is never connected to itself, so it never takes itself for failed.
-/

namespace MiniDiscord.Middleware

variable {config : Config} {capacity : ℕ} {n n' : Node} {e : Event} {F F' : Fleet} {i : String}

/-! ## The peers of a server -/

/-- The peers whose connections the server has, at whatever stage. -/
def Node.connections (n : Node) : List String := n.introduced ++ n.holding ++ n.started

/-- The servers that `main_task` still has to dial. -/
def Node.targets (n : Node) : List String :=
  match n.mainTask with
  | .connecting targets => targets
  | .listening => []

/-- The peers of a server, with those whose connection it has not accepted yet. -/
def Fleet.peers (F : Fleet) (i : String) : List String := F.dialling i ++ (F.node i).connections

/-- The peer that a step of the server adds to its connections. -/
def Node.arrival (n : Node) : Event → List String
  | .connect => n.targets.take 1
  | .accept peer => [peer]
  | _ => []

/-- Every `peer_task` that still has to take its receiver will find it. -/
def Node.Stocked (n : Node) : Prop :=
  n.poisoned = false ∧ ∀ peer ∈ n.introduced, peer ∈ n.receivers

theorem step_connections (h : NodeStep config n e n') (stocked : n.Stocked) :
    n'.connections.Perm (n.arrival e ++ n.connections) := by
  refine List.perm_iff_count.mpr fun peer => ?_
  cases h with
  | connected target targets main =>
    simp only [Node.connections, Node.arrival, Node.targets, main, List.take_succ_cons,
      List.take_zero, List.count_append]
    omega
  | accepted p main =>
    simp only [Node.connections, Node.arrival, List.count_append]
    omega
  | tookReceiver p known healthy there =>
    have hcount := List.perm_iff_count.mp (List.perm_cons_erase known) peer
    simp only [Node.connections, Node.arrival, List.count_append, List.count_cons,
      List.count_nil] at hcount ⊢
    omega
  | brokeDown p known healthy gone => exact absurd (stocked.2 p known) gone
  | spawned p holds =>
    have hcount := List.perm_iff_count.mp (List.perm_cons_erase holds) peer
    simp only [Node.connections, Node.arrival, List.count_append, List.count_cons,
      List.count_nil] at hcount ⊢
    omega
  | _ => rfl

theorem step_suffix (h : NodeStep config n e n') : n'.targets <:+ n.targets := by
  cases h with
  | connected target targets main | gaveUp target targets main =>
    simp only [Node.targets, main]
    exact List.suffix_cons _ _
  | listened main => exact List.nil_suffix
  | _ => exact List.suffix_rfl

theorem step_healthy (h : NodeStep config n e n') (stocked : n.Stocked) : n'.poisoned = false := by
  cases h with
  | brokeDown p known healthy gone => exact absurd (stocked.2 p known) gone
  | _ => exact stocked.1

theorem step_receivers (h : NodeStep config n e n')
    (receivers : ∀ peer ∈ config.map Server.id, peer ∉ n.holding → peer ∉ n.started →
      peer ∈ n.receivers) :
    ∀ peer ∈ config.map Server.id, peer ∉ n'.holding → peer ∉ n'.started → peer ∈ n'.receivers := by
  intro peer hpeer hholding hstarted
  cases h with
  | tookReceiver p known healthy there =>
    simp only [List.mem_append, List.mem_singleton, not_or] at hholding
    exact Finset.mem_erase.mpr ⟨hholding.2, receivers peer hpeer hholding.1 hstarted⟩
  | spawned p holds =>
    simp only [List.mem_append, List.mem_singleton, not_or] at hstarted
    refine receivers peer hpeer (fun hheld => hholding ?_) hstarted.1
    exact (List.mem_erase_of_ne hstarted.2).mpr hheld
  | _ => exact receivers peer hpeer hholding hstarted

/-- The two ends of a connection that the step opens. -/
def Fleet.opened (F : Fleet) (i : String) : Event → String → List String
  | .connect, k => ((F.node i).targets.take 1).flatMap fun target =>
      (if k = i then [target] else []) ++ if k = target then [i] else []
  | _, _ => []

theorem step_dialling (taken : F.step config capacity (i, e) = some F') (k : String) :
    (F'.dialling k ++ if k = i then (F.node i).arrival e else []).Perm
      (F.opened i e k ++ F.dialling k) := by
  simp only [Fleet.step, Option.bind_eq_bind, Option.bind_eq_some_iff] at taken
  obtain ⟨n, hn, taken⟩ := taken
  split_ifs at taken
  refine List.perm_iff_count.mpr fun peer => ?_
  cases e with
  | connect =>
    simp only at taken
    split at taken
    · rename_i target targets main
      split_ifs at taken
      obtain rfl := Option.some.inj taken
      simp only [Fleet.opened, Node.arrival, Node.targets, main, List.take_succ_cons,
        List.take_zero, List.flatMap_cons, List.flatMap_nil, List.append_nil, List.count_append,
        Function.update_apply]
      by_cases hk : k = target
      · subst hk
        simp only [if_true, List.count_append]
        omega
      · simp only [hk, if_false, List.count_nil]
        omega
    · cases taken
  | accept p =>
    simp only at taken
    split_ifs at taken with hdialling
    obtain rfl := Option.some.inj taken
    simp only [Fleet.opened, Node.arrival, List.nil_append, Function.update_apply]
    split_ifs with hk
    · subst hk
      have hcount := List.perm_iff_count.mp (List.perm_cons_erase hdialling) peer
      simp only [List.count_append, List.count_cons, List.count_nil] at hcount ⊢
      omega
    · simp only [List.append_nil]
  | peer p pe =>
    have hsame : F'.dialling = F.dialling := by
      cases pe with
      | write line =>
        simp only at taken
        split_ifs at taken
        obtain rfl := Option.some.inj taken
        rfl
      | receive line =>
        simp only at taken
        split at taken
        · split_ifs at taken
          obtain rfl := Option.some.inj taken
          rfl
        · cases taken
      | _ =>
        obtain rfl := Option.some.inj taken
        rfl
    simp [Fleet.opened, Node.arrival, hsame]
  | _ =>
    obtain rfl := Option.some.inj taken
    simp [Fleet.opened, Node.arrival, Fleet.setNode]

theorem step_peers (taken : F.step config capacity (i, e) = some F')
    (stocked : (F.node i).Stocked) (k : String) :
    (F'.peers k).Perm (F.opened i e k ++ F.peers k) := by
  have hstep := fleet_step_cases taken
  have hnode : (F'.node k).connections.Perm
      ((if k = i then (F.node i).arrival e else []) ++ (F.node k).connections) := by
    by_cases hk : k = i
    · subst hk
      simpa using step_connections hstep.step stocked
    · simp [hk, hstep.others k hk]
  refine (hnode.append_left _).trans ?_
  rw [← List.append_assoc, Fleet.peers, ← List.append_assoc]
  exact (step_dialling taken k).append_right _

/-! ## The mesh -/

/-- What holds of all connections of the fleet. -/
structure Fleet.Meshed (config : Config) (F : Fleet) : Prop where
  once : ∀ i, (F.peers i).Nodup
  known : ∀ i, ∀ peer ∈ F.peers i, peer ∈ config.map Server.id ∧ peer ≠ i
  targets : ∀ i, (F.node i).targets.Nodup
  dials : ∀ i, ∀ target ∈ (F.node i).targets,
    target ∈ config.map Server.id ∧ target < i ∧ target ∉ F.peers i ∧ i ∉ F.peers target
  healthy : ∀ i, (F.node i).poisoned = false
  receivers : ∀ i, ∀ peer ∈ config.map Server.id, peer ∉ (F.node i).holding →
    peer ∉ (F.node i).started → peer ∈ (F.node i).receivers

namespace Fleet.Meshed

theorem init (once : (config.map Server.id).Nodup) : (Fleet.init config).Meshed config where
  once _ := List.nodup_nil
  known _ _ hpeer := absurd hpeer List.not_mem_nil
  targets _ := once.sublist (List.filter_sublist.map Server.id)
  dials i target htarget := by
    obtain ⟨server, hserver, rfl⟩ := List.mem_map.mp htarget
    obtain ⟨hmem, hlt⟩ := List.mem_filter.mp hserver
    exact ⟨List.mem_map_of_mem hmem, of_decide_eq_true hlt, List.not_mem_nil, List.not_mem_nil⟩
  healthy _ := rfl
  receivers _ _ hpeer _ _ := List.mem_toFinset.mpr hpeer

theorem stocked (meshed : F.Meshed config) (i : String) : (F.node i).Stocked := by
  refine ⟨meshed.healthy i, fun peer hpeer => ?_⟩
  have hconnected : peer ∈ F.peers i := by simp [Fleet.peers, Node.connections, hpeer]
  have honce := meshed.once i
  simp only [Fleet.peers, Node.connections, List.nodup_append', List.disjoint_left,
    List.mem_append] at honce
  obtain ⟨-, ⟨⟨-, -, hholding⟩, -, hstarted⟩, -⟩ := honce
  exact meshed.receivers i peer (meshed.known i peer hconnected).1 (hholding hpeer)
    (hstarted (Or.inl hpeer))

theorem opened (meshed : F.Meshed config) {k peer : String} (h : peer ∈ F.opened i e k) :
    ∃ target targets, e = .connect ∧ (F.node i).targets = target :: targets ∧ target < i ∧
      (k = i ∧ peer = target ∨ k = target ∧ peer = i) := by
  cases e with
  | connect =>
    cases htargets : (F.node i).targets with
    | nil => simp [Fleet.opened, htargets] at h
    | cons target targets =>
      obtain ⟨-, hlt, -⟩ := meshed.dials i target (by simp [htargets])
      simp only [Fleet.opened, htargets, List.take_succ_cons, List.take_zero, List.flatMap_cons,
        List.flatMap_nil, List.append_nil, List.mem_append, List.mem_ite_nil_right,
        List.mem_singleton] at h
      exact ⟨target, targets, rfl, rfl, hlt, h⟩
  | _ => cases h

theorem new (meshed : F.Meshed config) (known : i ∈ config.map Server.id) {k peer : String}
    (h : peer ∈ F.opened i e k) : peer ∈ config.map Server.id ∧ peer ≠ k ∧ peer ∉ F.peers k := by
  obtain ⟨target, targets, -, htargets, hlt, ⟨rfl, rfl⟩ | ⟨rfl, rfl⟩⟩ := meshed.opened h
  · obtain ⟨hknown, -, hnew, -⟩ := meshed.dials k peer (by simp [htargets])
    exact ⟨hknown, hlt.ne, hnew⟩
  · obtain ⟨-, -, -, hnew⟩ := meshed.dials peer k (by simp [htargets])
    exact ⟨known, hlt.ne', hnew⟩

theorem opened_nodup (meshed : F.Meshed config) (k : String) : (F.opened i e k).Nodup := by
  cases e with
  | connect =>
    cases htargets : (F.node i).targets with
    | nil => simp [Fleet.opened, htargets]
    | cons target targets =>
      obtain ⟨-, hlt, -⟩ := meshed.dials i target (by simp [htargets])
      simp only [Fleet.opened, htargets, List.take_succ_cons, List.take_zero, List.flatMap_cons,
        List.flatMap_nil, List.append_nil]
      split_ifs with hi ht
      · exact absurd (hi.symm.trans ht) hlt.ne'
      all_goals simp
  | _ => exact List.nodup_nil

theorem suffix (h : FleetStep config capacity F i e F') (k : String) :
    (F'.node k).targets <:+ (F.node k).targets := by
  by_cases hk : k = i
  · subst hk
    exact step_suffix h.step
  · rw [h.others k hk]

/-- A server that was dialled is no target any more. -/
theorem dialled (meshed : F.Meshed config) (h : FleetStep config capacity F i .connect F')
    {target : String} {targets : List String} (first : (F.node i).targets = target :: targets) :
    target ∉ (F'.node i).targets := by
  have hnodup := meshed.targets i
  have hstep := h.step
  generalize F'.node i = n' at hstep ⊢
  cases hstep with
  | connected target' targets' main =>
    have htargets : (F.node i).targets = target' :: targets' := by simp [Node.targets, main]
    rw [htargets] at hnodup first
    obtain ⟨rfl, rfl⟩ := List.cons.inj first
    exact (List.nodup_cons.mp hnodup).1

theorem step (meshed : F.Meshed config) (taken : F.step config capacity (i, e) = some F') :
    F'.Meshed config := by
  have hstep := fleet_step_cases taken
  have hknown := mem_serverIds.mp hstep.known
  have hpeers := step_peers taken (meshed.stocked i)
  have hmem : ∀ {k peer : String}, peer ∈ F'.peers k → peer ∈ F.opened i e k ∨ peer ∈ F.peers k :=
    fun {k peer} hpeer => List.mem_append.mp ((hpeers k).mem_iff.mp hpeer)
  refine ⟨fun k => ?_, fun k peer hpeer => ?_, fun k => ?_, fun k target htarget => ?_, fun k => ?_,
    fun k peer hpeer => ?_⟩
  · rw [(hpeers k).nodup_iff, List.nodup_append']
    exact ⟨meshed.opened_nodup k, meshed.once k, fun peer hpeer => (meshed.new hknown hpeer).2.2⟩
  · rcases hmem hpeer with hnew | hold
    · exact ⟨(meshed.new hknown hnew).1, (meshed.new hknown hnew).2.1⟩
    · exact meshed.known k peer hold
  · exact (meshed.targets k).sublist (suffix hstep k).sublist
  · -- only a connection to the first target is new, and that one is dropped from the targets
    have hbefore := (suffix hstep k).mem htarget
    obtain ⟨hid, hlt, hhere, hthere⟩ := meshed.dials k target hbefore
    refine ⟨hid, hlt, fun hpeer => ?_, fun hpeer => ?_⟩
    · obtain ⟨first, targets, rfl, hfirst, hless, ⟨rfl, rfl⟩ | ⟨rfl, rfl⟩⟩ :=
        meshed.opened ((hmem hpeer).resolve_right hhere)
      · exact meshed.dialled hstep hfirst htarget
      · exact lt_asymm hlt hless
    · obtain ⟨first, targets, rfl, hfirst, hless, ⟨rfl, rfl⟩ | ⟨rfl, rfl⟩⟩ :=
        meshed.opened ((hmem hpeer).resolve_right hthere)
      · exact lt_asymm hlt hless
      · exact meshed.dialled hstep hfirst htarget
  · by_cases hk : k = i
    · subst hk
      exact step_healthy hstep.step (meshed.stocked k)
    · rw [hstep.others k hk]
      exact meshed.healthy k
  · by_cases hk : k = i
    · subst hk
      exact step_receivers hstep.step (meshed.receivers k) peer hpeer
    · rw [hstep.others k hk]
      exact meshed.receivers k peer hpeer

end Fleet.Meshed

/-- In every run of the fleet no two servers connect twice, and no mutex is poisoned. -/
theorem fleet_meshed {allowed : Fleet → String × Event → Bool} {es : List (String × Event)}
    (once : (config.map Server.id).Nodup) (run : FleetReaches config capacity allowed es F) :
    F.Meshed config :=
  run.invariant (P := fun F => F.Meshed config) (.init once) fun _ _ _ before _ taken =>
    before.step taken

/-- No server takes itself for failed. -/
theorem fleet_own_alive {allowed : Fleet → String × Event → Bool} {es : List (String × Event)}
    (once : (config.map Server.id).Nodup) (run : FleetReaches config capacity allowed es F)
    (i : String) : (F.node i).isAlive i = true := by
  have hboth := run.invariant
    (P := fun F => F.Meshed config ∧ (F.node i).isAlive i = true) ⟨.init once, rfl⟩ ?_
  · exact hboth.2
  · rintro F ⟨k, e⟩ F' ⟨meshed, alive⟩ - taken
    have hstep := fleet_step_cases taken
    refine ⟨meshed.step taken, ?_⟩
    by_cases hk : i = k
    · subst hk
      rcases step_isAlive hstep.step i with hsame | ⟨-, ⟨targets, main⟩ | ⟨-, started⟩⟩
      · rw [hsame, alive]
      · have hdials := meshed.dials i i (by simp [Node.targets, main])
        exact absurd hdials.2.1 (lt_irrefl i)
      · have hpeer : i ∈ F.peers i := by simp [Fleet.peers, Node.connections, started]
        exact absurd rfl (meshed.known i i hpeer).2
    · rw [hstep.others i hk]
      exact alive

end MiniDiscord.Middleware
