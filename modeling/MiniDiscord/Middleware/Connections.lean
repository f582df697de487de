import MiniDiscord.Middleware.Steps

/-!
# Connections and the mutex

A `peer_task` takes the receiver of its peer with the lock held, and panics when it is not there:
when the peer is not configured, or was connected before.
-/

namespace MiniDiscord.Middleware

open Peer (Endpoint Line Handler)

variable {config : Config} {id : String} {n n' : Node} {e : Event} {es : List Event}

/-- The peer whose receiver the event takes. -/
def Event.taken : Event → Option String
  | .takeReceiver p => some p
  | _ => none

/-- The peers of the connections that came to take their receiver, in order. -/
def taken (es : List Event) : List String := es.filterMap Event.taken

/-- The peer whose connection the event handles. -/
def Node.about (n : Node) : Event → Option String
  | .accept peer | .takeReceiver peer | .spawn peer | .peer peer _ => some peer
  | .leaderTask i => n.leaderTasks[i]?.map LeaderTask.peer
  | _ => none

/-- Each connection is to a configured server, and the only one to it. -/
def Orderly (config : Config) (peers : List String) : Prop :=
  peers.Nodup ∧ ∀ peer ∈ peers, peer ∈ config.map Server.id

theorem taken_append (e : Event) : taken (es ++ [e]) = taken es ++ e.taken.toList := by
  unfold taken
  rw [List.filterMap_append]
  cases h : e.taken <;> simp [h]

/-- What is left to take, and what taking more has done. -/
structure Node.Taken (config : Config) (n : Node) (peers : List String) : Prop where
  left : n.poisoned = false → ∀ peer,
    peer ∈ n.receivers ↔ peer ∈ config.map Server.id ∧ peer ∉ peers
  healthy : n.poisoned = false ↔ Orderly config peers

theorem step_taken (h : NodeStep config n e n') {peers : List String}
    (before : n.Taken config peers) : n'.Taken config (peers ++ e.taken.toList) := by
  cases h with
  | tookReceiver peer known healthy there =>
    have hleft := before.left healthy
    obtain ⟨hnodup, hconfigured⟩ := before.healthy.mp healthy
    obtain ⟨hpeer, hnew⟩ := (hleft peer).mp there
    have horderly : Orderly config (peers ++ [peer]) := by
      constructor
      · exact List.nodup_append.mpr ⟨hnodup, List.nodup_singleton _, by
          intro a ha b hb hab
          exact hnew (List.mem_singleton.mp hb ▸ hab ▸ ha)⟩
      · intro p hp
        rcases List.mem_append.mp hp with hp | hp
        · exact hconfigured p hp
        · exact List.mem_singleton.mp hp ▸ hpeer
    constructor
    · intro _ p
      change p ∈ n.receivers.erase peer ↔ _ ∧ p ∉ peers ++ [peer]
      rw [Finset.mem_erase, hleft p, List.mem_append, List.mem_singleton]
      tauto
    · exact ⟨fun _ => horderly, fun _ => healthy⟩
  | brokeDown peer known healthy gone =>
    have hleft := before.left healthy
    constructor
    · intro hfalse
      cases hfalse
    · constructor
      · intro hfalse
        cases hfalse
      intro horderly
      exfalso
      change Orderly config (peers ++ [peer]) at horderly
      refine gone ((hleft peer).mpr ⟨?_, ?_⟩)
      · exact horderly.2 peer (List.mem_append_right _ (List.mem_singleton_self _))
      · intro hold
        exact (List.nodup_append.mp horderly.1).2.2 peer hold peer (List.mem_singleton_self _) rfl
  | _ =>
    change Node.Taken config _ (peers ++ [])
    rw [List.append_nil]
    exact ⟨before.left, before.healthy⟩

theorem step_others (h : NodeStep config n e n') {peer other : String}
    (about : n.about e = some peer) (hne : other ≠ peer) :
    n'.serverStates other = n.serverStates other ∧
      (other ∈ n'.receivers ↔ other ∈ n.receivers) := by
  cases h with
  | connected | gaveUp | listened => cases about
  | tookReceiver p known healthy there =>
    obtain rfl := Option.some.inj about
    exact ⟨rfl, by simp [hne]⟩
  | announced i task E there stage sent =>
    have hpeer : task.peer = peer := by simpa [Node.about, there] using about
    exact ⟨by simp [Node.setStage, Node.setServer, hpeer, hne], Iff.rfl⟩
  | peered p e E permitted step =>
    obtain rfl := Option.some.inj about
    exact ⟨by simp [Node.effect, Node.setServer, hne], Iff.rfl⟩
  | _ => exact ⟨rfl, Iff.rfl⟩

theorem reaches_taken (run : Reaches config id es n) : n.Taken config (taken es) := by
  refine run.history (P := fun es n => n.Taken config (taken es)) ?_ ?_
  · constructor
    · simp [Node.init, taken]
    · simp [Node.init, taken, Orderly]
  · intro es m e m' _ before _ step
    rw [taken_append]
    exact step_taken (step_cases step) before

/-- The mutex is poisoned exactly when a connection came that is not configured or not the first to
its peer; and no connection touches the entries of other peers. -/
theorem connections_harmless (run : Reaches config id es n) :
    (n.poisoned = false ↔ Orderly config (taken es)) ∧
      ∀ e n' peer, n.step config e = some n' → n.about e = some peer → ∀ other, other ≠ peer →
        n'.serverStates other = n.serverStates other ∧
          (other ∈ n'.receivers ↔ other ∈ n.receivers) :=
  ⟨(reaches_taken run).healthy, fun _ _ _ step about _ hne =>
    step_others (step_cases step) about hne⟩

/-- `A` accepts `B`, whose tasks then run. -/
def accepts (peer : String) : List Event := [.accept peer, .takeReceiver peer, .spawn peer]

/-- `C` and `B` connect once each, and the entry of `C` is left as it was when `B` does. -/
theorem connections_harmless_once : ∃ es n,
    Reaches [⟨"A", 1⟩, ⟨"B", 2⟩, ⟨"C", 3⟩] "A" es n ∧ taken es = ["C"] ∧
    n.poisoned = false ∧ ∀ n', n.step [⟨"A", 1⟩, ⟨"B", 2⟩, ⟨"C", 3⟩] (.takeReceiver "B") = some n' →
      n'.serverStates "C" = n.serverStates "C" := by
  obtain ⟨n, run, -⟩ := Run.exec_of_test (fun _ : Node => true)
    (by decide : (Node.outcome [⟨"A", 1⟩, ⟨"B", 2⟩, ⟨"C", 3⟩] "A"
      (.listen :: accepts "C" ++ [.accept "B"])).any _ = true)
  obtain ⟨hhealthy, hothers⟩ := connections_harmless run
  refine ⟨_, n, run, by decide, hhealthy.mpr ⟨by decide, by decide⟩, fun n' step => ?_⟩
  exact (hothers _ n' "B" step rfl "C" (by decide)).1

/-- `B` fails, restarts and connects again. -/
def restarted : List Event :=
  .listen :: accepts "B" ++ [.peer "B" .fail, .peer "B" (.notify 0), .peer "B" (.drainFailed 0),
    .accept "B", .takeReceiver "B"]

theorem connection_again_poisons : ∃ es n, Reaches [⟨"A", 1⟩, ⟨"B", 2⟩] "A" es n ∧
    taken es = ["B", "B"] ∧ n.poisoned = true := by
  obtain ⟨n, run, hpoisoned⟩ := Run.exec_of_test Node.poisoned
    (by decide : (Node.outcome [⟨"A", 1⟩, ⟨"B", 2⟩] "A" restarted).any _ = true)
  exact ⟨restarted, n, run, by decide, hpoisoned⟩

end MiniDiscord.Middleware
