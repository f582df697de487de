import MiniDiscord.Cluster.Replicas

/-!
# The rule for answers

A call answers with what it finds in a store, or with what it was answered. So what holds of every
answer that is found in a store holds of every answer that a client is told.
-/

namespace MiniDiscord.Cluster

open DiscordStateops

/-- The call returns what it is answered with. -/
def Pc.passes : Pc → Bool
  | .awaitForward _ | .awaitReplica _ _ => true
  | _ => false

/-- The answers on their way are `good`. -/
def Passing (good : StateResult Value → Prop) : Frame → Option Frame → Prop
  | .call _ (.done r), _ => good r
  | .call _ (.applied v), _ | .call _ (.awaitReplica v _), _ | .request _ (.replicate v), _ =>
    good (.ok v)
  | .response r, some (.call _ pc) => pc.passes = true → good r
  | _, _ => True

theorem passing_of_all {good : StateResult Value → Prop} (h : ∀ r, good r) (f : Frame)
    (below : Option Frame) : Passing good f below := by
  unfold Passing
  split
  all_goals first | exact h _ | exact fun _ => h _ | trivial

/-- `good` answers are told while the servers are as `servers` says. -/
structure Answering where
  servers : Servers → Prop
  good : ℕ → Op → StateResult Value → Prop

namespace Answering

def inv (A : Answering) : Inv Unit where
  servers _ σ := A.servers σ
  frame _ _ req op f below := Passing (A.good req op) f below
  reply _ _ x := A.good x.req x.op x.result

/-- What is known of every stack in every run, and that its names have been checked. -/
def Vetted (hash : String → ℕ) (σ : Servers) (req : ℕ) (op : Op) (stack : List Frame) : Prop :=
  Known hash σ req op stack ∧ Frames (fun f _ => Checked op f) stack

theorem vetted {hash : String → ℕ} {policy : Policy} (es : List Event) (w : World)
    (run : Reaches hash policy es w) : ∀ j ∈ w.jobs, Vetted hash w.servers j.req j.op j.stack :=
  fun j hj => ⟨known es w run j hj, checked run j hj⟩

/-- The obligations: each place where an answer is found. -/
structure Preserved (A : Answering) (hash : String → ℕ) (policy : Policy) : Prop where
  advance : ∀ σ req op stack σ' stack', A.servers σ → Vetted hash σ req op stack →
    policy.advance σ op stack = true → Advance hash σ op stack σ' stack' → A.servers σ'
  suspect : ∀ σ s p, A.servers σ → s ≠ p → policy.suspect σ p = true → A.servers (σ.suspect s p)
  crash : ∀ σ s, A.servers σ → policy.crash σ = true → A.servers (σ.crash s)
  refused : ∀ σ req op s config e, A.servers σ → σ.crashed s = false →
    op.owner hash = some config → σ.Owns config s → op.checks (σ.store s) = .error e →
    A.good req op (.error e)
  unknown : ∀ req op, op.entry ≠ .commit → (op.entry = .check → op.named = true) →
    A.good req op (.error unknownUser)
  locked : ∀ σ req op s config r st, A.servers σ → σ.crashed s = false →
    op.owner hash = some config → σ.Owns config s → (op.entry = .check → op.named = true) →
    op.locked (σ.store s) = some (r, st) → A.good req op r
  replica : ∀ σ req op v r st s, A.servers σ → op.replicated = true → A.good req op (.ok v) →
    op.replicateLocked v (σ.store s) = some (r, st) → A.good req op r
  found : ∀ req u found, A.good req (.userExists u) (.ok (.found found))
  polled : ∀ req op all, op.owner hash = none →
    A.good req op (.ok (.sorted (dedup (sortNames all))))

variable {A : Answering} {hash : String → ℕ} {policy : Policy} {σ σ' : Servers} {op : Op}
  {good : StateResult Value → Prop}

theorem passing_sent {s dest : ServerId} {pc wait : Pc} {request : Request} {below : Option Frame}
    (sends : Sends hash σ op s pc dest request wait) (h : Passing good (.call s pc) below) :
    Passing good (.request dest request) (some (.call s wait)) ∧
      Passing good (.call s wait) below := by
  cases sends with
  | user | poll => exact ⟨trivial, trivial⟩
  | replicate => exact ⟨h, h⟩
  | forward => cases op <;> exact ⟨trivial, trivial⟩

theorem passing_response {r : StateResult Value} {below : Option Frame}
    (h : ∀ s pc, below = some (.call s pc) → pc.passes = true → good r) :
    Passing good (.response r) below := by
  rcases below with _ | ⟨s, pc⟩ | _ | _
  · trivial
  · exact h s pc rfl
  · trivial
  · trivial

theorem carries (servers : A.servers σ') : A.inv.Carries () σ () σ' :=
  ⟨servers, fun _ _ _ _ h => h, fun _ h => h⟩

theorem Preserved.inv (pres : A.Preserved hash policy) :
    A.inv.Preserved hash policy noTick (Vetted hash) where
  still _ _ _ _ _ _ := rfl
  weaken _ _ _ op f below h := by
    rcases f with ⟨s, pc⟩ | ⟨s, request⟩ | r
    · cases pc <;> exact h
    · cases request <;> exact h
    · trivial
  submit _ _ _ _ _ _ := trivial
  reply _ _ _ _ _ _ _ _ h := h
  giveUp g σ req op s pc p upper lower _ _ _ awaits _ h := by
    cases pc with
    | userAwait | awaitForward | awaitPoll => trivial
    | awaitReplica => exact h
    | _ => cases awaits
  suspect _ σ s p servers other allowed := carries (pres.suspect σ s p servers other allowed)
  crash _ σ s servers allowed := carries (pres.crash σ s servers allowed)
  advance g σ req op stack σ' stack' servers hs vetted allowed h := by
    refine ⟨carries (pres.advance _ _ _ _ _ _ servers vetted allowed h), ?_⟩
    obtain ⟨placed, names⟩ := vetted
    cases h with
    | authority s config rest live owner auth =>
      refine ⟨?_, hs.2⟩
      cases op <;> trivial
    | refused s e rest live checks =>
      obtain ⟨config, owner, owns⟩ := placed.1.routed rfl
      exact ⟨pres.refused _ _ _ _ _ _ servers live owner owns checks, hs.2⟩
    | userUnknown s username rest live user missing =>
      exact ⟨pres.unknown _ _ placed.1.reached names.1, hs.2⟩
    | committed s v state rest live locked =>
      obtain ⟨config, owner, owns⟩ := placed.1.routed rfl
      have hgood := pres.locked _ req _ _ _ _ _ servers live owner owns names.1 locked
      refine ⟨?_, hs.2⟩
      split_ifs <;> exact hgood
    | rejected s e state rest live locked =>
      obtain ⟨config, owner, owns⟩ := placed.1.routed rfl
      exact ⟨pres.locked _ _ _ _ _ _ _ servers live owner owns names.1 locked, hs.2⟩
    | alone s v config rest live owner alone => exact ⟨hs.1, hs.2⟩
    | sent s pc dest request wait rest live sends alive =>
      obtain ⟨hrequest, hwait⟩ := passing_sent sends hs.1
      exact ⟨hrequest, hwait, hs.2⟩
    | unsent s pc dest request wait rest live sends failed =>
      exact ⟨(passing_sent sends hs.1).2, hs.2⟩
    | polled s all rest live => exact ⟨pres.polled _ _ _ placed.1.routed, hs.2⟩
    | answeredUser s username rest live user =>
      refine ⟨passing_response fun t pc hbelow passes => ?_, hs.2⟩
      rcases placed.1.fits _ hbelow with rfl | ⟨rfl, hop⟩
      · cases passes
      · cases op with
        | userExists => exact pres.found _ _ _
        | _ => cases hop
    | answeredNames s rest live =>
      refine ⟨passing_response fun t pc hbelow passes => ?_, hs.2⟩
      obtain ⟨all, peers, rfl⟩ := placed.1.fits _ hbelow
      cases passes
    | replicated s v r state rest live locked =>
      refine ⟨passing_response fun _ _ _ _ => ?_, hs.2⟩
      exact pres.replica _ _ _ _ _ _ _ servers placed.1.reached hs.1 locked
    | responded s r caller rest live => exact ⟨passing_response fun _ _ _ _ => hs.1, hs.2⟩
    | unheard | unheardRead | unheardReplica => exact hs.2
    | resumed s pc p r rest live awaits =>
      refine ⟨?_, hs.2.2⟩
      cases resume_cases placed.1 awaits with
      | user p found =>
        cases found with
        | true => trivial
        | false => exact pres.unknown _ _ placed.2.1.reached names.2.1
      | replica | forward => exact hs.1 rfl
      | poll => trivial
    | _ => exact ⟨trivial, hs.2⟩

end Answering

end MiniDiscord.Cluster
