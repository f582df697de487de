import MiniDiscord.Cluster.Steps

/-!
# The rule for invariants of all calls

An invariant says something about the servers, something about each frame and the frame below it,
and something about each reply. The rule asks what one step of one stack does to that stack, and
that no step spoils what is known of the other stacks.
-/

namespace MiniDiscord.Cluster

/-! ## Stacks -/

/-- `Φ` holds of every frame and of the frame it returns to. -/
def Frames (Φ : Frame → Option Frame → Prop) : List Frame → Prop
  | [] => True
  | f :: rest => Φ f rest.head? ∧ Frames Φ rest

section Frames

variable {Φ Ψ : Frame → Option Frame → Prop}

@[simp] theorem frames_nil : Frames Φ [] := trivial

@[simp] theorem frames_cons (f : Frame) (rest : List Frame) :
    Frames Φ (f :: rest) ↔ Φ f rest.head? ∧ Frames Φ rest := Iff.rfl

theorem frames_mono (h : ∀ f g, Φ f g → Ψ f g) {stack : List Frame} (hs : Frames Φ stack) :
    Frames Ψ stack := by
  induction stack with
  | nil => trivial
  | cons f rest ih => exact ⟨h _ _ hs.1, ih hs.2⟩

theorem frames_of_all (h : ∀ f g, Φ f g) (stack : List Frame) : Frames Φ stack := by
  induction stack with
  | nil => trivial
  | cons f rest ih => exact ⟨h _ _, ih⟩

theorem frames_mem {stack : List Frame} (hs : Frames Φ stack) {f : Frame} (h : f ∈ stack) :
    ∃ below, Φ f below := by
  induction stack with
  | nil => cases h
  | cons g rest ih =>
    rcases List.mem_cons.mp h with rfl | h
    · exact ⟨_, hs.1⟩
    · exact ih hs.2 h

theorem frames_lower {upper lower : List Frame} (hs : Frames Φ (upper ++ lower)) :
    Frames Φ lower := by
  induction upper with
  | nil => exact hs
  | cons f rest ih => exact ih hs.2

theorem frames_upper (weaken : ∀ f g, Φ f (some g) → Φ f none) {upper lower : List Frame}
    (hs : Frames Φ (upper ++ lower)) : Frames Φ upper := by
  induction upper with
  | nil => trivial
  | cons f rest ih =>
    refine ⟨?_, ih hs.2⟩
    have hf : Φ f (rest ++ lower).head? := hs.1
    cases rest with
    | cons g rest => exact hf
    | nil =>
      cases lower with
      | nil => exact hf
      | cons g lower => exact weaken f g hf

theorem frames_dropLast (weaken : ∀ f g, Φ f (some g) → Φ f none) {stack : List Frame}
    (hs : Frames Φ stack) : Frames Φ stack.dropLast := by
  rcases List.eq_nil_or_concat stack with rfl | ⟨upper, f, rfl⟩
  · trivial
  · simp only [List.concat_eq_append, List.dropLast_concat] at hs ⊢
    exact frames_upper weaken hs

end Frames

/-! ## Invariants -/

/-- How a history variable changes at a step of one stack. -/
abbrev Tick (γ : Type*) : Type _ := γ → Servers → ℕ → Op → List Frame → Servers → γ

/-- Only the steps of jobs are recorded. -/
def jobTick {γ : Type*} (tick : Tick γ) (g : γ) (w : World) (e : Event) (w' : World) : γ :=
  match e with
  | .advance i => (w.jobs[i]?).elim g fun j => tick g w.servers j.req j.op j.stack w'.servers
  | _ => g

/-- No history variable. -/
def noTick : Tick Unit := fun g _ _ _ _ _ => g

structure Inv (γ : Type*) where
  servers : γ → Servers → Prop
  frame : γ → Servers → ℕ → Op → Frame → Option Frame → Prop
  reply : γ → Servers → Reply → Prop

namespace Inv

variable {γ : Type*} (I : Inv γ)

structure Holds (g : γ) (w : World) : Prop where
  servers : I.servers g w.servers
  jobs : ∀ j ∈ w.jobs, Frames (I.frame g w.servers j.req j.op) j.stack
  returned : ∀ r ∈ w.returned, I.reply g w.servers r

/-- What one change of the servers must leave true. -/
structure Carries (g : γ) (σ : Servers) (g' : γ) (σ' : Servers) : Prop where
  servers : I.servers g' σ'
  frame : ∀ req op f below, I.frame g σ req op f below → I.frame g' σ' req op f below
  reply : ∀ r, I.reply g σ r → I.reply g' σ' r

/-- The obligations. `K` is what is known already of every stack in every run. -/
structure Preserved (hash : String → ℕ) (policy : Policy) (tick : Tick γ)
    (K : Servers → ℕ → Op → List Frame → Prop) : Prop where
  still : ∀ g σ req op s r, tick g σ req op [.call s (.done r)] σ = g
  weaken : ∀ g σ req op f below,
    I.frame g σ req op f (some below) → I.frame g σ req op f none
  submit : ∀ g σ req op s, I.servers g σ → I.frame g σ req op (.call s .start) none
  advance : ∀ g σ req op stack σ' stack', I.servers g σ → Frames (I.frame g σ req op) stack →
    K σ req op stack → policy.advance σ op stack = true → Advance hash σ op stack σ' stack' →
    I.Carries g σ (tick g σ req op stack σ') σ' ∧
      Frames (I.frame (tick g σ req op stack σ') σ' req op) stack'
  reply : ∀ g σ req op s r, I.servers g σ → σ.crashed s = false →
    I.frame g σ req op (.call s (.done r)) none → I.reply g σ ⟨req, op, r⟩
  giveUp : ∀ g σ req op s pc p upper lower, I.servers g σ →
    K σ req op (upper ++ .call s pc :: lower) → σ.crashed s = false →
    pc.awaits = some p → σ.view s p = false → I.frame g σ req op (.call s pc) lower.head? →
    I.frame g σ req op (.call s pc.giveUp) lower.head?
  suspect : ∀ g σ s p, I.servers g σ → s ≠ p → policy.suspect σ p = true →
    I.Carries g σ g (σ.suspect s p)
  crash : ∀ g σ s, I.servers g σ → policy.crash σ = true → I.Carries g σ g (σ.crash s)

variable {I} {hash : String → ℕ} {policy : Policy} {tick : Tick γ}
  {K : Servers → ℕ → Op → List Frame → Prop} {g g' : γ}

theorem Holds.carry {w : World} (h : I.Holds g w) {σ' : Servers}
    (hc : I.Carries g w.servers g' σ') : I.Holds g' { w with servers := σ' } where
  servers := hc.servers
  jobs j hj := frames_mono (hc.frame j.req j.op) (h.jobs j hj)
  returned r hr := hc.reply r (h.returned r hr)

theorem Holds.replace {w : World} (h : I.Holds g w) (j' : Job) (added : List Job) {j : Job}
    {pre post : List Job} (jobs : w.jobs = pre ++ j :: post)
    (hj' : Frames (I.frame g w.servers j'.req j'.op) j'.stack)
    (hadded : ∀ k ∈ added, Frames (I.frame g w.servers k.req k.op) k.stack) :
    I.Holds g { w with jobs := pre ++ j' :: post ++ added } where
  servers := h.servers
  returned := h.returned
  jobs k hk := by
    simp only [List.mem_append, List.mem_cons] at hk
    rcases hk with (hk | rfl | hk) | hk
    · exact h.jobs k (by simp [jobs, hk])
    · exact hj'
    · exact h.jobs k (by simp [jobs, hk])
    · exact hadded k hk

theorem step_holds (pres : I.Preserved hash policy tick K) {w w' : World} {e : Event}
    (h : I.Holds g w) (known : ∀ j ∈ w.jobs, K w.servers j.req j.op j.stack)
    (allowed : policy.allows w e = true) (taken : w.step hash e = some w') :
    I.Holds (jobTick tick g w e w') w' := by
  cases step_cases taken with
  | submitted s op live =>
    refine ⟨h.servers, ?_, h.returned⟩
    intro j hj
    rcases List.mem_append.mp hj with hj | hj
    · exact h.jobs j hj
    · obtain rfl := List.mem_singleton.mp hj
      exact ⟨pres.submit _ _ _ _ s h.servers, trivial⟩
  | advanced j pre post σ' stack' jobs advance =>
    have hj : j ∈ w.jobs := by simp [jobs]
    have hallowed : policy.advance w.servers j.op j.stack = true := by
      simpa [Policy.allows, jobs] using allowed
    obtain ⟨hc, hstack⟩ := pres.advance _ _ _ _ _ _ _ h.servers (h.jobs j hj) (known j hj)
      hallowed advance
    simpa [jobTick, jobs] using (h.carry hc).replace { j with stack := stack' } [] jobs hstack
      (by simp)
  | replied j pre post s r jobs stack live attached =>
    have hstack : Frames (I.frame g w.servers j.req j.op) [.call s (.done r)] :=
      stack ▸ h.jobs j (by simp [jobs])
    have hw := h.replace { j with stack := [] } [] jobs trivial (by simp)
    have hstill : jobTick tick g w (.advance pre.length)
        { w with
          jobs := pre ++ { j with stack := [] } :: post
          returned := w.returned ++ [⟨j.req, j.op, r⟩] } = g := by
      simp [jobTick, jobs, stack, pres.still]
    rw [hstill]
    refine ⟨h.servers, by simpa using hw.jobs, ?_⟩
    intro reply hreply
    rcases List.mem_append.mp hreply with hreply | hreply
    · exact h.returned reply hreply
    · obtain rfl := List.mem_singleton.mp hreply
      exact pres.reply _ _ _ _ s r h.servers live hstack.1
  | gaveUp j pre post s p pc upper lower jobs stack live awaits failed =>
    have hstack := h.jobs j (by simp [jobs])
    have hknown := known j (by simp [jobs])
    rw [stack] at hstack hknown
    have hlower := frames_lower hstack
    refine h.replace _ _ jobs ⟨?_, hlower.2⟩ ?_
    · exact pres.giveUp _ _ _ _ s pc p _ _ h.servers hknown live awaits failed hlower.1
    · intro k hk
      obtain rfl := List.mem_singleton.mp hk
      exact frames_upper (pres.weaken _ _ _ _) hstack
  | hungUp j pre post jobs attached =>
    have hstack := h.jobs j (by simp [jobs])
    simpa [jobTick] using h.replace { j with attached := false, stack := j.stack.dropLast } [] jobs
      (frames_dropLast (pres.weaken _ _ _ _) hstack) (by simp)
  | suspected s p other live => exact h.carry (pres.suspect _ _ s p h.servers other allowed)
  | crashed s live => exact h.carry (pres.crash _ _ s h.servers allowed)

/-- What has been recorded along a run from `w`. -/
def ghost (hash : String → ℕ) (tick : Tick γ) (g : γ) (w : World) (es : List Event) : γ :=
  Run.record (World.step hash) (jobTick tick) g w es

/-- **The rule.** An invariant whose obligations are met, once true, stays true along a run. -/
theorem Preserved.holds (pres : I.Preserved hash policy tick K)
    (known : ∀ es w, Reaches hash policy es w → ∀ j ∈ w.jobs, K w.servers j.req j.op j.stack)
    {es es' : List Event} {w w' : World} (reached : Reaches hash policy es w) (start : I.Holds g w)
    (run : Run.Exec (World.step hash) (fun w e => policy.allows w e = true) w es' w') :
    I.Holds (ghost hash tick g w es') w' := by
  refine run.history (P := fun es' w' => I.Holds (ghost hash tick g w es') w') start ?_
  intro es' m e m' prefix_run h allowed taken
  rw [ghost, Run.record_snoc prefix_run taken]
  exact step_holds pres h (known (es ++ es') m (reached.append prefix_run)) allowed taken

theorem Preserved.holds_init (pres : I.Preserved hash policy tick K)
    (known : ∀ es w, Reaches hash policy es w → ∀ j ∈ w.jobs, K w.servers j.req j.op j.stack)
    (init : I.servers g World.init.servers) {es : List Event} {w : World}
    (run : Reaches hash policy es w) : I.Holds (ghost hash tick g World.init es) w :=
  pres.holds known .nil ⟨init, by simp [World.init], by simp [World.init]⟩ run

end Inv

end MiniDiscord.Cluster
