import MiniDiscord.Cluster.Replicas

/-!
# Runs without failures

Every server is up and taken to be up, so nobody gives up, and a stack ends in the client's call as
long as it is not empty.
-/

namespace MiniDiscord.Cluster

/-- No server has crashed, and none is marked failed. -/
structure Servers.Up (σ : Servers) : Prop where
  view : ∀ s p, σ.view s p = true
  crashed : ∀ s, σ.crashed s = false

/-- The last frame is a call. -/
def Rooted (stack : List Frame) : Prop :=
  ∀ f, stack.getLast? = some f → ∃ s pc, f = .call s pc

variable {hash : String → ℕ} {σ σ' : Servers} {op : Op} {stack stack' : List Frame}
  {config : LocationConfig} {s : ServerId}

theorem up_primary (up : σ.Up) (h : σ.Owns config s) : s = config.primary :=
  h.resolve_right fun hb => by simp [up.view] at hb

theorem up_advance (up : σ.Up) (h : Advance hash σ op stack σ' stack') : σ'.Up := by
  obtain ⟨hview, hcrashed⟩ := advance_view h
  exact ⟨fun s p => hview ▸ up.view s p, fun s => hcrashed ▸ up.crashed s⟩

theorem rooted_below {f : Frame} {rest : List Frame} (h : Rooted (f :: rest))
    (message : ∀ s pc, f ≠ .call s pc) : rest ≠ [] := by
  rintro rfl
  obtain ⟨s, pc, rfl⟩ := h f rfl
  exact message s pc rfl

theorem rooted_call (s : ServerId) (pc : Pc) {f : Frame} {rest : List Frame}
    (h : Rooted (f :: rest)) : Rooted (.call s pc :: rest) := by
  intro g hg
  cases rest with
  | nil => exact ⟨s, pc, by simpa using hg.symm⟩
  | cons f' rest => exact h g (by simpa using hg)

theorem rooted_message (f : Frame) {rest : List Frame} (h : Rooted rest) (below : rest ≠ []) :
    Rooted (f :: rest) := by
  intro g hg
  cases rest with
  | nil => exact absurd rfl below
  | cons f' rest => exact h g (by simpa using hg)

theorem rooted_tail {f : Frame} {rest : List Frame} (h : Rooted (f :: rest)) : Rooted rest := by
  intro g hg
  cases rest with
  | nil => cases hg
  | cons f' rest => exact h g (by simpa using hg)

theorem rooted_advance (rooted : Rooted stack) (h : Advance hash σ op stack σ' stack') :
    Rooted stack' := by
  cases h with
  | sent s pc dest request wait rest live sends alive =>
    exact rooted_message _ (rooted_call s wait rooted) (List.cons_ne_nil _ _)
  | answeredUser | answeredNames | replicated =>
    exact rooted_message _ (rooted_tail rooted) (rooted_below rooted nofun)
  | responded s r caller rest live =>
    exact rooted_message _ (rooted_tail rooted) (List.cons_ne_nil _ _)
  | resumed s pc p r rest live awaits => exact rooted_call s _ (rooted_tail rooted)
  | unheard | unheardRead | unheardReplica => exact rooted_tail rooted
  | _ => exact rooted_call _ _ rooted

theorem failureFree_where {es : List Event} {w : World} (run : Reaches hash failureFree es w) :
    Reaches hash (failureFree.where' fun _ _ _ => true) es w := by
  refine run.mono fun w e h => ?_
  cases e with
  | advance i => simp [Policy.allows, Policy.where', failureFree]
  | _ => exact h

/-- **The rule.** What holds initially, and is kept when a request arrives, when a stack takes a
step and when a client is answered, holds after every run without failures. -/
theorem failureFree_invariant {condition : Servers → Op → List Frame → Bool} {P : World → Prop}
    {es : List Event} {w : World} (run : Reaches hash (failureFree.where' condition) es w)
    (init : P .init)
    (submit : ∀ (w : World) (s : ServerId) (op : Op), P w → P { w with
      jobs := w.jobs ++ [⟨w.nextReq, op, s, true, [.call s .start]⟩], nextReq := w.nextReq + 1 })
    (advance : ∀ (w : World) (j : Job) (pre post : List Job) (σ' : Servers) (stack' : List Frame),
      P w → w.servers.Up → Known hash w.servers j.req j.op j.stack →
      Frames (fun f _ => Checked j.op f) j.stack → Rooted j.stack →
      condition w.servers j.op j.stack = true → w.jobs = pre ++ j :: post →
      Advance hash w.servers j.op j.stack σ' stack' →
      P { w with servers := σ', jobs := pre ++ { j with stack := stack' } :: post })
    (reply : ∀ (w : World) (j : Job) (pre post : List Job) (s : ServerId) (r : StateResult Value),
      P w → w.jobs = pre ++ j :: post → j.stack = [.call s (.done r)] →
      P { w with
        jobs := pre ++ { j with stack := [] } :: post,
        returned := w.returned ++ [⟨j.req, j.op, r⟩] }) :
    P w ∧ w.servers.Up ∧ ∀ j ∈ w.jobs, Rooted j.stack := by
  refine run.history (P := fun _ w => P w ∧ w.servers.Up ∧ ∀ j ∈ w.jobs, Rooted j.stack)
    ⟨init, ⟨fun _ _ => rfl, fun _ => rfl⟩, by simp [World.init]⟩ ?_
  rintro es w e w' prefix_run ⟨hP, up, rooted⟩ allowed taken
  have hreplace : ∀ {pre post : List Job} {j j' : Job}, w.jobs = pre ++ j :: post →
      Rooted j'.stack → ∀ k ∈ pre ++ j' :: post, Rooted k.stack := fun jobs hj' k hk => by
    simp only [List.mem_append, List.mem_cons] at hk
    rcases hk with hk | rfl | hk
    · exact rooted k (by simp [jobs, hk])
    · exact hj'
    · exact rooted k (by simp [jobs, hk])
  cases step_cases taken with
  | submitted s op live =>
    refine ⟨submit w s op hP, up, fun j hj => ?_⟩
    rcases List.mem_append.mp hj with hj | hj
    · exact rooted j hj
    · obtain rfl := List.mem_singleton.mp hj
      exact fun f hf => ⟨s, .start, by simpa using hf.symm⟩
  | advanced j pre post σ' stack' jobs h =>
    have hj : j ∈ w.jobs := by simp [jobs]
    have hcondition : condition w.servers j.op j.stack = true := by
      simpa [Policy.allows, Policy.where', failureFree, jobs] using allowed
    exact ⟨advance w j pre post σ' stack' hP up (known es w prefix_run j hj)
      (checked prefix_run j hj) (rooted j hj) hcondition jobs h, up_advance up h,
      hreplace jobs (rooted_advance (rooted j hj) h)⟩
  | replied j pre post s r jobs stack live attached =>
    exact ⟨reply w j pre post s r hP jobs stack, up, hreplace jobs fun f hf => by cases hf⟩
  | gaveUp j pre post s p pc upper lower jobs stack live awaits failed =>
    simp [up.view] at failed
  | hungUp | suspected | crashed => cases allowed

end MiniDiscord.Cluster
