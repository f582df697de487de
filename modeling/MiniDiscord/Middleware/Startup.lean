import MiniDiscord.Middleware.Steps

/-!
# When `main_task` returns

`main_task` opens the connections to the servers with a smaller id, and the HTTP server starts when
it returns. Servers with a larger id connect later, if they run at all, and until then they count as
alive. So do the peers whose `peer_task` was spawned and has not run yet.
-/

namespace MiniDiscord.Middleware

open Peer (Endpoint Line Handler)

variable {config : Config} {id : String} {n n' : Node} {e : Event} {es : List Event}

/-- Every other server that counts as alive is connected, and its tasks run. -/
def Node.Monitored (config : Config) (n : Node) : Prop :=
  ∀ server ∈ config, server.id ≠ n.id → n.isAlive server.id = true →
    server.id ∉ n.receivers ∧ server.id ∈ n.started

/-- A server that `main_task` connects to. -/
def Smaller (config : Config) (id peer : String) : Prop :=
  peer < id ∧ ∃ server ∈ config, server.id = peer

/-- What holds of a server from its start. -/
structure Node.Wired (config : Config) (id : String) (n : Node) : Prop where
  own : n.id = id
  targets : ∀ targets, n.mainTask = .connecting targets →
    ∀ target ∈ targets, Smaller config id target
  dialled : ∀ peer ∈ n.dialled, Smaller config id peer
  covered : ∀ server ∈ config, server.id < id → server.id ∈ n.dialled ∨
    n.isAlive server.id = false ∨
      ∃ targets, n.mainTask = .connecting targets ∧ server.id ∈ targets
  taken : ∀ peer, peer ∈ n.holding ∨ peer ∈ n.started → peer ∉ n.receivers
  /-- before the listener runs there are no connections but its own -/
  unheard : n.mainTask ≠ .listening →
    (∀ peer, peer ∈ n.introduced ∨ peer ∈ n.holding ∨ peer ∈ n.started → peer ∈ n.dialled) ∧
      ∀ peer, n.isAlive peer = false → peer < id

theorem Node.Wired.init : (Node.init config id).Wired config id where
  own := rfl
  targets := by
    intro targets main target htarget
    obtain rfl := MainTask.connecting.inj main
    obtain ⟨server, hserver, rfl⟩ := List.mem_map.mp htarget
    obtain ⟨hmem, hlt⟩ := List.mem_filter.mp hserver
    exact ⟨of_decide_eq_true hlt, server, hmem, rfl⟩
  dialled := fun peer hpeer => absurd hpeer List.not_mem_nil
  covered := by
    intro server hserver hlt
    refine Or.inr (Or.inr ⟨_, rfl, ?_⟩)
    exact List.mem_map.mpr ⟨server, List.mem_filter.mpr ⟨hserver, decide_eq_true hlt⟩, rfl⟩
  taken := by
    intro peer hpeer
    simp [Node.init] at hpeer
  unheard := by
    intro _
    constructor
    · intro peer hpeer
      simp [Node.init] at hpeer
    · intro peer hfailed
      cases hfailed

theorem step_targets (wired : n.Wired config id) (h : NodeStep config n e n') :
    ∀ targets, n'.mainTask = .connecting targets →
      ∀ target ∈ targets, Smaller config id target := by
  have hold := wired.targets
  cases h with
  | connected target targets main | gaveUp target targets main healthy =>
    intro targets' main' other hother
    obtain rfl := MainTask.connecting.inj main'
    exact hold _ main other (List.mem_cons_of_mem _ hother)
  | listened main =>
    intro targets main'
    cases main'
  | _ => exact hold

theorem step_dialled (wired : n.Wired config id) (h : NodeStep config n e n') :
    ∀ peer ∈ n'.dialled, Smaller config id peer := by
  have hold := wired.dialled
  cases h with
  | connected target targets main =>
    intro peer hpeer
    rcases List.mem_append.mp hpeer with hpeer | hpeer
    · exact hold peer hpeer
    · rw [List.mem_singleton.mp hpeer]
      exact wired.targets _ main target List.mem_cons_self
  | _ => exact hold

theorem step_covered (wired : n.Wired config id) (h : NodeStep config n e n') :
    ∀ server ∈ config, server.id < id → server.id ∈ n'.dialled ∨ n'.isAlive server.id = false ∨
      ∃ targets, n'.mainTask = .connecting targets ∧ server.id ∈ targets := by
  intro server hserver hlt
  have hold := wired.covered server hserver hlt
  have hstill : n.isAlive server.id = false → n'.isAlive server.id = false := step_still_failed h
  cases h with
  | connected target targets main =>
    rcases hold with hdialled | hfailed | ⟨targets', main', hmem⟩
    · exact Or.inl (List.mem_append_left _ hdialled)
    · exact Or.inr (Or.inl (hstill hfailed))
    · rw [main] at main'
      obtain rfl := MainTask.connecting.inj main'
      rcases List.mem_cons.mp hmem with heq | hmem
      · exact Or.inl (List.mem_append_right _ (List.mem_singleton.mpr heq))
      · exact Or.inr (Or.inr ⟨targets, rfl, hmem⟩)
  | gaveUp target targets main healthy =>
    rcases hold with hdialled | hfailed | ⟨targets', main', hmem⟩
    · exact Or.inl hdialled
    · exact Or.inr (Or.inl (hstill hfailed))
    · rw [main] at main'
      obtain rfl := MainTask.connecting.inj main'
      rcases List.mem_cons.mp hmem with heq | hmem
      · right
        left
        change (n.setServer target _).isAlive server.id = false
        rw [setServer_isAlive, if_pos heq]
      · exact Or.inr (Or.inr ⟨targets, rfl, hmem⟩)
  | listened main =>
    rcases hold with hdialled | hfailed | ⟨targets', main', hmem⟩
    · exact Or.inl hdialled
    · exact Or.inr (Or.inl hfailed)
    · rw [main] at main'
      obtain rfl := MainTask.connecting.inj main'
      cases hmem
  | _ =>
    rcases hold with hdialled | hfailed | htarget
    · exact Or.inl hdialled
    · exact Or.inr (Or.inl (hstill hfailed))
    · exact Or.inr (Or.inr htarget)

theorem step_holding (wired : n.Wired config id) (h : NodeStep config n e n') :
    ∀ peer, peer ∈ n'.holding ∨ peer ∈ n'.started → peer ∉ n'.receivers := by
  have hold := wired.taken
  cases h with
  | tookReceiver peer known healthy there =>
    intro other hother hreceiver
    obtain ⟨hne, hreceiver⟩ := Finset.mem_erase.mp hreceiver
    rcases hother with hother | hother
    · rcases List.mem_append.mp hother with hother | hother
      · exact hold other (Or.inl hother) hreceiver
      · exact hne (List.mem_singleton.mp hother)
    · exact hold other (Or.inr hother) hreceiver
  | spawned peer holds =>
    intro other hother
    rcases hother with hother | hother
    · exact hold other (Or.inl (List.mem_of_mem_erase hother))
    · rcases List.mem_append.mp hother with hother | hother
      · exact hold other (Or.inr hother)
      · rw [List.mem_singleton.mp hother]
        exact hold peer (Or.inl holds)
  | _ => exact hold

theorem step_unheard_tasks (wired : n.Wired config id) (h : NodeStep config n e n')
    (before : n.mainTask ≠ .listening) (peer : String)
    (hpeer : peer ∈ n'.introduced ∨ peer ∈ n'.holding ∨ peer ∈ n'.started) : peer ∈ n'.dialled := by
  have hold := (wired.unheard before).1
  cases h with
  | connected target targets main =>
    rcases hpeer with hpeer | hpeer
    · rcases List.mem_append.mp hpeer with hpeer | hpeer
      · exact List.mem_append_left _ (hold peer (Or.inl hpeer))
      · exact List.mem_append_right _ hpeer
    · exact List.mem_append_left _ (hold peer (Or.inr hpeer))
  | accepted p main => exact absurd main before
  | tookReceiver p known healthy there =>
    rcases hpeer with hpeer | hpeer | hpeer
    · exact hold peer (Or.inl (List.mem_of_mem_erase hpeer))
    · rcases List.mem_append.mp hpeer with hpeer | hpeer
      · exact hold peer (Or.inr (Or.inl hpeer))
      · rw [List.mem_singleton.mp hpeer]
        exact hold p (Or.inl known)
    · exact hold peer (Or.inr (Or.inr hpeer))
  | brokeDown p known healthy gone =>
    rcases hpeer with hpeer | hpeer
    · exact hold peer (Or.inl (List.mem_of_mem_erase hpeer))
    · exact hold peer (Or.inr hpeer)
  | spawned p holds =>
    rcases hpeer with hpeer | hpeer | hpeer
    · exact hold peer (Or.inl hpeer)
    · exact hold peer (Or.inr (Or.inl (List.mem_of_mem_erase hpeer)))
    · rcases List.mem_append.mp hpeer with hpeer | hpeer
      · exact hold peer (Or.inr (Or.inr hpeer))
      · rw [List.mem_singleton.mp hpeer]
        exact hold p (Or.inr (Or.inl holds))
  | _ => exact hold peer hpeer

theorem step_unheard_failed (wired : n.Wired config id) (h : NodeStep config n e n')
    (before : n.mainTask ≠ .listening) (peer : String) (failed : n'.isAlive peer = false) :
    peer < id := by
  obtain ⟨htasks, hfailed⟩ := wired.unheard before
  rcases step_isAlive h peer with hsame | ⟨-, ⟨targets, main⟩ | ⟨-, hstarted⟩⟩
  · exact hfailed peer (hsame ▸ failed)
  · exact (wired.targets _ main peer List.mem_cons_self).1
  · exact (wired.dialled peer (htasks peer (Or.inr (Or.inr hstarted)))).1

theorem step_main (h : NodeStep config n e n') (before : n'.mainTask ≠ .listening) :
    n.mainTask ≠ .listening := by
  cases h with
  | connected target targets main | gaveUp target targets main healthy =>
    rw [main]
    intro hlistening
    cases hlistening
  | listened main => exact absurd rfl before
  | _ => exact before

theorem Node.Wired.step (wired : n.Wired config id) (h : NodeStep config n e n') :
    n'.Wired config id where
  own := by
    have hown := wired.own
    cases h <;> exact hown
  targets := step_targets wired h
  dialled := step_dialled wired h
  covered := step_covered wired h
  taken := step_holding wired h
  unheard := fun before =>
    ⟨step_unheard_tasks wired h (step_main h before),
      step_unheard_failed wired h (step_main h before)⟩

theorem reaches_wired (run : Reaches config id es n) : n.Wired config id :=
  run.invariant .init fun _ _ _ wired _ taken => wired.step (step_cases taken)

/-! ## After `main_task` has returned -/

theorem step_started (h : NodeStep config n e n') {peer : String} (started : peer ∈ n.started) :
    peer ∈ n'.started := by
  cases h with
  | spawned p holds => exact List.mem_append_left _ started
  | _ => exact started

theorem step_monitored (wired : n.Wired config id) (h : NodeStep config n e n')
    (monitored : n.Monitored config) : n'.Monitored config := by
  have hwired := wired.step h
  intro server hserver hne halive
  have hne : server.id ≠ n.id := by rwa [wired.own, ← hwired.own]
  have hstarted := (monitored server hserver hne (step_lives h halive)).2
  have hstill := step_started h hstarted
  exact ⟨hwired.taken _ (Or.inr hstill), hstill⟩

/-- What it takes for the servers that count as alive to be connected when `main_task` returns. -/
theorem returned_monitored (wired : n.Wired config id) (main : n.mainTask = .connecting [])
    (smaller : ∀ server ∈ config, server.id ≤ id)
    (running : ∀ peer ∈ n.dialled, n.isAlive peer = true → peer ∈ n.started) :
    Node.Monitored config { n with mainTask := .listening } := by
  intro server hserver hne halive
  have halive : n.isAlive server.id = true := halive
  have hne : server.id ≠ id := wired.own ▸ hne
  have hlt := lt_of_le_of_ne (smaller server hserver) hne
  have hstarted : server.id ∈ n.started := by
    rcases wired.covered server hserver hlt with hmem | hdead | ⟨targets, main', hmem⟩
    · exact running _ hmem halive
    · rw [hdead] at halive
      cases halive
    · rw [main] at main'
      obtain rfl := MainTask.connecting.inj main'
      cases hmem
  exact ⟨wired.taken _ (Or.inr hstarted), hstarted⟩

/-- The servers whose tasks run were dialled, and so they have smaller ids. -/
theorem monitored_returned (wired : n.Wired config id) (main : n.mainTask ≠ .listening)
    (monitored : Node.Monitored config { n with mainTask := .listening }) :
    (∀ server ∈ config, server.id ≤ id) ∧
      ∀ peer ∈ n.dialled, n.isAlive peer = true → peer ∈ n.started := by
  obtain ⟨htasks, hfailed⟩ := wired.unheard main
  constructor
  · intro server hserver
    by_contra hlarger
    have hne : server.id ≠ n.id := by
      intro heq
      exact hlarger (le_of_eq (heq.trans wired.own))
    have halive : n.isAlive server.id = true := by
      by_contra hdead
      have := hfailed _ (Bool.eq_false_of_not_eq_true hdead)
      exact hlarger (le_of_lt this)
    have hstarted := (monitored server hserver hne halive).2
    have := (wired.dialled _ (htasks _ (Or.inr (Or.inr hstarted)))).1
    exact hlarger (le_of_lt this)
  · intro peer hpeer halive
    obtain ⟨hlt, server, hserver, rfl⟩ := wired.dialled peer hpeer
    have hne : server.id ≠ n.id := by
      rw [wired.own]
      exact ne_of_lt hlt
    exact (monitored server hserver hne halive).2

/-- The servers that count as alive are connected in every state from the return of `main_task` on,
exactly when no configured server has a larger id and the peers that `main_task` connected to have
their tasks running by then. -/
theorem alive_monitored {m m' : Node} (run : Reaches config id es m)
    (returns : m.step config .listen = some m') :
    (∀ es' n, Run.Exec (Node.step config) (fun _ _ => True) m' es' n → n.Monitored config) ↔
      (∀ server ∈ config, server.id ≤ id) ∧
        ∀ peer ∈ m.dialled, m.isAlive peer = true → peer ∈ m.started := by
  have hwired := reaches_wired run
  have hstep := step_cases returns
  have hwired' := hwired.step hstep
  cases hstep with
  | listened main =>
    have hbefore : m.mainTask ≠ .listening := by
      rw [main]
      intro hlistening
      cases hlistening
    constructor
    · intro hall
      exact monitored_returned hwired hbefore (hall [] _ .nil)
    · rintro ⟨hsmaller, hrunning⟩ es' n run'
      have hreturned := returned_monitored hwired main hsmaller hrunning
      have hboth := run'.invariant
        (P := fun n => n.Wired config id ∧ n.Monitored config) ⟨hwired', hreturned⟩
        fun _ _ _ before _ taken => ⟨before.1.step (step_cases taken),
          step_monitored before.1 (step_cases taken) before.2⟩
      exact hboth.2

/-- `B` has connected to `A` and runs its tasks before `main_task` returns. -/
theorem alive_monitored_last : ∃ es m,
    Reaches [⟨"A", 2⟩, ⟨"B", 1⟩] "B" (es ++ [.listen]) m ∧
    ∀ es' n, Run.Exec (Node.step [⟨"A", 2⟩, ⟨"B", 1⟩]) (fun _ _ => True) m es' n →
      n.Monitored [⟨"A", 2⟩, ⟨"B", 1⟩] := by
  obtain ⟨m, run, htest⟩ := Run.exec_of_test
    (fun m : Node => m.mainTask = .connecting [] ∧ ∀ peer ∈ m.dialled, peer ∈ m.started)
    (by decide : (Node.outcome [⟨"A", 2⟩, ⟨"B", 1⟩] "B"
      [.connect, .takeReceiver "A", .spawn "A"]).any _ = true)
  obtain ⟨main, hdialled⟩ := of_decide_eq_true htest
  have returns : m.step [⟨"A", 2⟩, ⟨"B", 1⟩] .listen = some { m with mainTask := .listening } := by
    simp [Node.step, main]
  refine ⟨_, _, .snoc run trivial returns, (alive_monitored run returns).mpr ⟨by decide, ?_⟩⟩
  exact fun peer hpeer _ => hdialled peer hpeer

/-- `A` connects to nobody: the HTTP server starts, and `B` counts as alive without a connection. -/
theorem alive_unconnected : ∃ n, Reaches [⟨"A", 2⟩, ⟨"B", 1⟩] "A" [.listen] n ∧
    n.mainTask = .listening ∧ n.isAlive "B" = true ∧ "B" ∉ n.started ∧
    ¬ n.Monitored [⟨"A", 2⟩, ⟨"B", 1⟩] := by
  obtain ⟨n, run, htest⟩ := Run.exec_of_test
    (fun n : Node => n.mainTask = .listening ∧ n.isAlive "B" = true ∧ "B" ∉ n.started ∧
      n.id = "A")
    (by decide : (Node.outcome [⟨"A", 2⟩, ⟨"B", 1⟩] "A" [.listen]).any _ = true)
  obtain ⟨main, halive, hstarted, hid⟩ := of_decide_eq_true htest
  refine ⟨n, run, main, halive, hstarted, fun monitored => hstarted ?_⟩
  exact (monitored ⟨"B", 1⟩ (by decide) (by rw [hid]; decide) halive).2

end MiniDiscord.Middleware
