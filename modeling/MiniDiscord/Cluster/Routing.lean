import MiniDiscord.Cluster.Effect
import MiniDiscord.Cluster.Invariant

/-!
# Where calls and messages can be

Which server runs which part of an operation, and which frame can stand on which: a message is on
top of the call that waits for it, and a call on top of the call that was forwarded.
-/

namespace MiniDiscord.Cluster

open DiscordStateops

/-- `s` is the primary, or the backup after it marked the primary failed. -/
def Servers.Owns (σ : Servers) (config : LocationConfig) (s : ServerId) : Prop :=
  s = config.primary ∨ s = config.backup ∧ σ.view s config.primary = false

theorem authoritative_iff {σ : Servers} {s : ServerId} {config : LocationConfig} :
    σ.authoritative s config = true ↔ σ.Owns config s := by
  simp only [Servers.authoritative, Servers.Owns, Bool.or_eq_true, decide_eq_true_eq,
    Bool.and_eq_true, Bool.not_eq_true', @eq_comm _ s, and_comm]

theorem owner_unique {hash : String → ℕ} {op : Op} {config config' : LocationConfig}
    (h : op.owner hash = some config) (h' : op.owner hash = some config') : config = config' :=
  Option.some.inj (h.symm.trans h')

theorem owner_ne {hash : String → ℕ} {op : Op} {config : LocationConfig}
    (h : op.owner hash = some config) : config.primary ≠ config.backup := by
  cases op with
  | getUsers | getChannels => cases h
  | createUser | userExists =>
    obtain rfl := Option.some.inj h
    exact userOwner_ne hash _
  | _ =>
    obtain rfl := Option.some.inj h
    exact channelOwner_ne hash _

/-- What happens at a server that is authoritative, up to the decision to replicate. -/
def Pc.isLocal : Pc → Bool
  | .check | .userStart | .userLocal | .userRoute | .userAwait _ | .commit | .applied _ => true
  | _ => false

/-- The server that a frame is at. -/
def Routed (hash : String → ℕ) (σ : Servers) (op : Op) : Frame → Prop
  | .call s .route => ∃ config, op.owner hash = some config ∧ s ≠ config.primary
  | .call s (.awaitForward p) => ∃ config, op.owner hash = some config ∧ s ≠ config.primary ∧
      (p = config.primary ∨ p = config.backup ∧ σ.view s config.primary = false)
  | .call s (.awaitReplica _ p) => ∃ config, op.owner hash = some config ∧ s = config.primary ∧
      p = config.backup
  | .call _ (.pollOwn _) | .call _ (.poll _ _) | .call _ (.awaitPoll _ _ _) => op.owner hash = none
  | .call s pc => pc.isLocal = true → ∃ config, op.owner hash = some config ∧ σ.Owns config s
  | .request p .forwarded => ∃ config, op.owner hash = some config ∧
      (p = config.primary ∨ p = config.backup)
  | .request p .userExists => ∃ username, op.username? = some username ∧
      (p = (userOwner hash username).primary ∨ p = (userOwner hash username).backup)
  | .request p (.replicate _) => ∃ config, op.owner hash = some config ∧ p = config.backup
  | _ => True

/-- The operations that get to a frame: only some ask for a user, and only some replicate. -/
def Reached (op : Op) : Frame → Prop
  | .call _ .check | .call _ .userStart | .call _ .userLocal | .call _ .userRoute
  | .call _ (.userAwait _) => op.entry ≠ .commit
  | .call _ (.applied _) | .call _ (.awaitReplica _ _) | .request _ (.replicate _) =>
    op.replicated = true
  | _ => True

/-- Which frame can stand on which. -/
def Fits (op : Op) : Frame → Frame → Prop
  | .call _ pc, .call _ below => pc = .panicked ∨
      (∃ p, below = .awaitForward p) ∧ op.forwardedAs = .forwarded
  | .request dest .forwarded, .call _ below =>
      below = .awaitForward dest ∧ op.forwardedAs = .forwarded
  | .request dest .userExists, .call _ below =>
      below = .userAwait dest ∨ below = .awaitForward dest ∧ op.forwardedAs = .userExists
  | .request dest .listNames, .call _ below => ∃ all peers, below = .awaitPoll all dest peers
  | .request dest (.replicate v), .call _ below => below = .awaitReplica v dest
  | .response r, .call _ (.userAwait _) => ∃ found, r = .ok (.found found)
  | .response r, .call _ (.awaitPoll _ _ _) => ∃ names, r = .ok (.names names)
  | .response _, .call _ below => below.awaits.isSome = true
  | _, _ => False

/-- A frame is where it can be, on top of a frame that it can stand on. -/
structure Placed (hash : String → ℕ) (σ : Servers) (op : Op) (f : Frame) (below : Option Frame) :
    Prop where
  routed : Routed hash σ op f
  reached : Reached op f
  fits : ∀ g, below = some g → Fits op f g

def routing (hash : String → ℕ) : Inv Unit where
  servers _ _ := True
  frame _ σ _ op f below := Placed hash σ op f below
  reply _ _ _ := True

variable {hash : String → ℕ} {σ σ' : Servers} {op : Op}

theorem owns_grows (grows : σ.Grows σ') {config : LocationConfig} {s : ServerId}
    (h : σ.Owns config s) : σ'.Owns config s :=
  h.imp_right (And.imp_right (grows.view s _))

theorem routed_grows (grows : σ.Grows σ') {f : Frame} (h : Routed hash σ op f) :
    Routed hash σ' op f := by
  rcases f with ⟨s, pc⟩ | ⟨p, request⟩ | r
  · cases pc with
    | route | awaitReplica | pollOwn | poll | awaitPoll => exact h
    | awaitForward p =>
      obtain ⟨config, howner, hne, hp⟩ := h
      exact ⟨config, howner, hne, hp.imp_right (And.imp_right (grows.view s _))⟩
    | _ =>
      intro hlocal
      obtain ⟨config, howner, howns⟩ := h hlocal
      exact ⟨config, howner, owns_grows grows howns⟩
  · cases request <;> exact h
  · exact h

theorem sends_placed {s dest : ServerId} {pc wait : Pc} {request : Request} {below : Option Frame}
    (sends : Sends hash σ op s pc dest request wait) (h : Placed hash σ op (.call s pc) below) :
    Placed hash σ op (.request dest request) (some (.call s wait)) ∧
      Routed hash σ op (.call s wait) ∧ Reached op (.call s wait) := by
  have hon : ∀ {below}, Fits op (.request dest request) below →
      ∀ g, some below = some g → Fits op (.request dest request) g := fun h g hg => by
    obtain rfl := Option.some.inj hg
    exact h
  obtain ⟨hrouted, hreached, -⟩ := h
  cases sends with
  | user username dest user located =>
    exact ⟨⟨⟨username, user, located.imp And.left And.left⟩, trivial, hon (Or.inl rfl)⟩,
      fun _ => hrouted rfl, hreached⟩
  | replicate v config owner other alive =>
    obtain ⟨config', howner, howns⟩ := hrouted rfl
    obtain rfl := owner_unique owner howner
    have hs : s = config.primary := howns.resolve_right fun hb => other hb.1
    exact ⟨⟨⟨config, owner, rfl⟩, hreached, hon rfl⟩, ⟨config, owner, hs, rfl⟩, hreached⟩
  | forward config dest owner located =>
    obtain ⟨config', howner, hne⟩ := hrouted
    obtain rfl := owner_unique owner howner
    have hdest : dest = config.primary ∨ dest = config.backup := located.imp And.left And.left
    refine ⟨⟨?_, ?_, hon ?_⟩, ⟨config, owner, hne, located.imp And.left id⟩, trivial⟩
    · cases op with
      | userExists u =>
        obtain rfl := Option.some.inj owner
        exact ⟨u, rfl, hdest⟩
      | _ => exact ⟨config, owner, hdest⟩
    · cases op <;> trivial
    · cases op with
      | userExists u => exact Or.inr ⟨rfl, rfl⟩
      | _ => exact ⟨rfl, rfl⟩
  | poll all p peers => exact ⟨⟨trivial, trivial, hon ⟨all, peers, rfl⟩⟩, hrouted, trivial⟩

theorem fits_call {s t : ServerId} {pc pc' : Pc} {below : Option Frame}
    (h : ∀ g, below = some g → Fits op (.call s pc) g) (hpc : pc ≠ .panicked) :
    ∀ g, below = some g → Fits op (.call t pc') g := by
  intro g hg
  rcases g with ⟨u, pc''⟩ | _ | _
  · exact Or.inr ((h _ hg).resolve_left hpc)
  · exact h _ hg
  · exact h _ hg

theorem fits_panicked {s : ServerId} {f : Frame} {below : Option Frame}
    (h : ∀ g, below = some g → Fits op f g) :
    ∀ g, below = some g → Fits op (.call s .panicked) g := by
  intro g hg
  have hfits := h g hg
  rcases g with ⟨u, pc''⟩ | ⟨dest, request⟩ | r
  · exact Or.inl rfl
  · rcases f with _ | ⟨_, _ | _ | _ | _⟩ | _ <;> exact hfits
  · rcases f with _ | ⟨_, _ | _ | _ | _⟩ | _ <;> exact hfits

theorem fits_found {dest : ServerId} {below : Option Frame} (found : Bool)
    (h : ∀ g, below = some g → Fits op (.request dest .userExists) g) :
    ∀ g, below = some g → Fits op (.response (.ok (.found found))) g := by
  intro g hg
  rcases g with ⟨u, pc⟩ | _ | _
  · rcases h _ hg with rfl | ⟨rfl, -⟩
    · exact ⟨found, rfl⟩
    · rfl
  · exact h _ hg
  · exact h _ hg

theorem fits_names {dest : ServerId} {below : Option Frame} (names : Multiset String)
    (h : ∀ g, below = some g → Fits op (.request dest .listNames) g) :
    ∀ g, below = some g → Fits op (.response (.ok (.names names))) g := by
  intro g hg
  rcases g with ⟨u, pc⟩ | _ | _
  · obtain ⟨all, peers, rfl⟩ := h _ hg
    exact ⟨names, rfl⟩
  · exact h _ hg
  · exact h _ hg

theorem fits_replicated {dest : ServerId} {below : Option Frame} {v : Value}
    (r : StateResult Value) (h : ∀ g, below = some g → Fits op (.request dest (.replicate v)) g) :
    ∀ g, below = some g → Fits op (.response r) g := by
  intro g hg
  rcases g with ⟨u, pc⟩ | _ | _
  · obtain rfl : pc = .awaitReplica v dest := h _ hg
    rfl
  · exact h _ hg
  · exact h _ hg

theorem fits_start {dest s : ServerId} {below : Option Frame}
    (h : ∀ g, below = some g → Fits op (.request dest .forwarded) g) :
    ∀ g, below = some g → Fits op (.call s .start) g := by
  intro g hg
  rcases g with ⟨u, pc⟩ | _ | _
  · obtain ⟨rfl, hop⟩ := h _ hg
    exact Or.inr ⟨⟨dest, rfl⟩, hop⟩
  · exact h _ hg
  · exact h _ hg

theorem fits_done {s : ServerId} {r : StateResult Value} {below : Option Frame}
    (h : ∀ g, below = some g → Fits op (.call s (.done r)) g) :
    ∀ g, below = some g → Fits op (.response r) g := by
  intro g hg
  rcases g with ⟨u, pc⟩ | _ | _
  · obtain ⟨⟨p, rfl⟩, -⟩ := (h _ hg).resolve_left nofun
    rfl
  · exact h _ hg
  · exact h _ hg

/-- A call that something else than a panic stands on waits for an answer. -/
theorem fits_awaits {f : Frame} {t : ServerId} {pc : Pc} (fits : Fits op f (.call t pc))
    (running : ∀ s, f ≠ .call s .panicked) : ∃ p, pc.awaits = some p := by
  rcases f with ⟨s, pc'⟩ | ⟨dest, request⟩ | r
  · rcases fits with rfl | ⟨⟨p, rfl⟩, -⟩
    · exact absurd rfl (running s)
    · exact ⟨p, rfl⟩
  · cases request with
    | forwarded => exact ⟨dest, fits.1 ▸ rfl⟩
    | userExists => rcases fits with rfl | ⟨rfl, -⟩ <;> exact ⟨dest, rfl⟩
    | listNames =>
      obtain ⟨all, peers, rfl⟩ := fits
      exact ⟨dest, rfl⟩
    | replicate v =>
      obtain rfl : pc = .awaitReplica v dest := fits
      exact ⟨dest, rfl⟩
  · cases pc with
    | userAwait p | awaitReplica v p | awaitForward p | awaitPoll all p peers => exact ⟨p, rfl⟩
    | _ => cases fits

/-- An answer that is not heard leaves a call that goes on waiting. -/
theorem unheard_waits {f : Frame} {s : ServerId} {rest : List Frame}
    (known : Frames (Placed hash σ op) (f :: rest)) (unheard : σ.heard s rest = false)
    (running : ∀ s, f ≠ .call s .panicked) :
    ∃ t pc p lower, rest = .call t pc :: lower ∧ pc.awaits = some p ∧ σ.view s t = false := by
  obtain ⟨t, pc, lower, rfl, hview⟩ := unheard_cases unheard
  obtain ⟨p, hp⟩ := fits_awaits (known.1.fits _ rfl) running
  exact ⟨t, pc, p, lower, rfl, hp, hview⟩

/-- The answers that a waiting call goes on with. -/
inductive Resumes : Pc → StateResult Value → Prop
  | user (p : ServerId) (found : Bool) : Resumes (.userAwait p) (.ok (.found found))
  | replica (v : Value) (p : ServerId) (r : StateResult Value) : Resumes (.awaitReplica v p) r
  | forward (p : ServerId) (r : StateResult Value) : Resumes (.awaitForward p) r
  | poll (all : Multiset String) (p : ServerId) (peers : List ServerId) (names : Multiset String) :
      Resumes (.awaitPoll all p peers) (.ok (.names names))

theorem resume_cases {s p : ServerId} {pc : Pc} {r : StateResult Value}
    (answer : Placed hash σ op (.response r) (some (.call s pc))) (awaits : pc.awaits = some p) :
    Resumes pc r := by
  have hfits := answer.fits _ rfl
  cases pc with
  | userAwait p =>
    obtain ⟨found, rfl⟩ := hfits
    exact .user p found
  | awaitReplica v p => exact .replica v p r
  | awaitForward p => exact .forward p r
  | awaitPoll all p peers =>
    obtain ⟨names, rfl⟩ := hfits
    exact .poll all p peers names
  | _ => cases awaits

/-- The call that waits goes on with the answer. -/
theorem placed_resume {s p : ServerId} {pc : Pc} {r : StateResult Value} {below : Option Frame}
    (answer : Placed hash σ op (.response r) (some (.call s pc)))
    (h : Placed hash σ op (.call s pc) below) (awaits : pc.awaits = some p) :
    Placed hash σ op (.call s (pc.resume r)) below := by
  have hfits : ∀ {pc'}, ∀ g, below = some g → Fits op (.call s pc') g :=
    fits_call h.fits (by rintro rfl; cases awaits)
  cases resume_cases answer awaits with
  | user p found =>
    cases found with
    | true => exact ⟨fun _ => h.routed rfl, trivial, hfits⟩
    | false => exact ⟨nofun, trivial, hfits⟩
  | replica | forward => exact ⟨nofun, trivial, hfits⟩
  | poll => exact ⟨h.routed, trivial, hfits⟩

/-- It got `None`, and tries again or goes on. -/
theorem placed_giveUp {s p : ServerId} {pc : Pc} {below : Option Frame}
    (h : Placed hash σ op (.call s pc) below) (awaits : pc.awaits = some p) :
    Placed hash σ op (.call s pc.giveUp) below := by
  have hcall : pc ≠ .panicked := by rintro rfl; cases awaits
  refine ⟨?_, ?_, fits_call h.fits hcall⟩
  · cases pc with
    | userAwait => exact fun _ => h.routed rfl
    | awaitReplica | awaitForward => exact nofun
    | awaitPoll => exact h.routed
    | _ => cases awaits
  · cases pc with
    | userAwait => exact h.reached
    | awaitReplica | awaitForward | awaitPoll => trivial
    | _ => cases awaits

theorem placed_grows (grows : σ.Grows σ') {f : Frame} {below : Option Frame}
    (h : Placed hash σ op f below) : Placed hash σ' op f below :=
  ⟨routed_grows grows h.routed, h.reached, h.fits⟩

theorem routing_carries (grows : σ.Grows σ') : (routing hash).Carries () σ () σ' :=
  ⟨trivial, fun _ _ _ _ => placed_grows grows, fun _ _ => trivial⟩

theorem routing_preserved :
    (routing hash).Preserved hash anyFailure noTick fun _ _ _ _ => True where
  still _ _ _ _ _ _ := rfl
  weaken _ _ _ _ _ _ h := ⟨h.routed, h.reached, nofun⟩
  submit _ _ _ _ _ _ := ⟨nofun, trivial, nofun⟩
  reply _ _ _ _ _ _ _ _ _ := trivial
  giveUp _ _ _ _ _ _ _ _ _ _ _ _ awaits _ h := placed_giveUp h awaits
  suspect g σ s p _ _ _ := routing_carries (grows_suspect σ s p)
  crash g σ s _ _ := routing_carries (grows_crash σ s)
  advance g σ req op stack σ' stack' _ hs _ _ h := by
    refine ⟨routing_carries (grows_advance h), ?_⟩
    have hrest : ∀ {f : Frame} {rest : List Frame}, Frames ((routing hash).frame g σ req op)
        (f :: rest) → Frames ((routing hash).frame g σ' req op) rest :=
      fun hs => frames_mono (fun _ _ => placed_grows (grows_advance h)) hs.2
    cases h with
    | authority s config rest live owner auth =>
      refine ⟨⟨?_, ?_, fits_call hs.1.fits nofun⟩, hrest hs⟩
      · have howns := authoritative_iff.mp auth
        cases op <;> exact fun _ => ⟨config, owner, howns⟩
      · cases op <;> first | trivial | exact nofun
    | elsewhere s config rest live owner auth =>
      refine ⟨⟨⟨config, owner, ?_⟩, trivial, fits_call hs.1.fits nofun⟩, hrest hs⟩
      rintro rfl
      simp [Servers.authoritative] at auth
    | polls s rest live owner => exact ⟨⟨owner, trivial, fits_call hs.1.fits nofun⟩, hrest hs⟩
    | checked s rest live checks =>
      exact ⟨⟨fun _ => hs.1.routed rfl, hs.1.reached, fits_call hs.1.fits nofun⟩, hrest hs⟩
    | refused s e rest live checks =>
      exact ⟨⟨nofun, trivial, fits_call hs.1.fits nofun⟩, hrest hs⟩
    | userAuthority s username rest live user auth | userElsewhere s username rest live user auth =>
      exact ⟨⟨fun _ => hs.1.routed rfl, hs.1.reached, fits_call hs.1.fits nofun⟩, hrest hs⟩
    | userFound s username rest live user found =>
      exact ⟨⟨fun _ => hs.1.routed rfl, trivial, fits_call hs.1.fits nofun⟩, hrest hs⟩
    | userUnknown s username rest live user missing =>
      exact ⟨⟨nofun, trivial, fits_call hs.1.fits nofun⟩, hrest hs⟩
    | committed s v state rest live locked =>
      refine ⟨⟨?_, ?_, fits_call hs.1.fits nofun⟩, hrest hs⟩
      · obtain ⟨config, howner, howns⟩ := hs.1.routed rfl
        split_ifs
        · exact fun _ => ⟨config, howner, howns⟩
        · exact nofun
      · split_ifs with hreplicated
        · exact hreplicated
        · trivial
    | rejected s e state rest live locked =>
      exact ⟨⟨nofun, trivial, fits_call hs.1.fits nofun⟩, hrest hs⟩
    | alone s v config rest live owner alone =>
      exact ⟨⟨nofun, trivial, fits_call hs.1.fits nofun⟩, hrest hs⟩
    | sent s pc dest request wait rest live sends alive =>
      obtain ⟨hrequest, hrouted, hreached⟩ := sends_placed sends hs.1
      refine ⟨hrequest, ⟨hrouted, hreached, fits_call hs.1.fits ?_⟩, hrest hs⟩
      rintro rfl; cases sends
    | unsent s pc dest request wait rest live sends failed =>
      obtain ⟨-, hrouted, hreached⟩ := sends_placed sends hs.1
      refine ⟨⟨hrouted, hreached, fits_call hs.1.fits ?_⟩, hrest hs⟩
      rintro rfl; cases sends
    | polledOwn s peers rest live =>
      exact ⟨⟨hs.1.routed, trivial, fits_call hs.1.fits nofun⟩, hrest hs⟩
    | polled s all rest live => exact ⟨⟨nofun, trivial, fits_call hs.1.fits nofun⟩, hrest hs⟩
    | panic s pc σ' rest live poisons =>
      exact ⟨⟨nofun, trivial, fits_panicked hs.1.fits⟩, hrest hs⟩
    | started s rest live => exact ⟨⟨nofun, trivial, fits_start hs.1.fits⟩, hrest hs⟩
    | answeredUser s username rest live user =>
      exact ⟨⟨trivial, trivial, fits_found _ hs.1.fits⟩, hrest hs⟩
    | answeredNames s rest live =>
      exact ⟨⟨trivial, trivial, fits_names _ hs.1.fits⟩, hrest hs⟩
    | replicated s v r state rest live locked =>
      exact ⟨⟨trivial, trivial, fits_replicated _ hs.1.fits⟩, hrest hs⟩
    | handlerPanic s request σ' rest live poisons =>
      exact ⟨⟨nofun, trivial, fits_panicked hs.1.fits⟩, hrest hs⟩
    | responded s r caller rest live =>
      exact ⟨⟨trivial, trivial, fits_done hs.1.fits⟩, hrest hs⟩
    | unheard | unheardRead | unheardReplica => exact hrest hs
    | resumed s pc p r rest live awaits =>
      exact ⟨placed_resume hs.1 hs.2.1 awaits, hrest hs.2⟩

theorem reaches_any {policy : Policy} {es : List Event} {w : World}
    (run : Reaches hash policy es w) : Reaches hash anyFailure es w := by
  refine run.mono fun m e _ => ?_
  cases e with
  | advance i => simp [Policy.allows, anyFailure]
  | _ => rfl

/-- What is known of every stack in every run. -/
def Known (hash : String → ℕ) (σ : Servers) (_req : ℕ) (op : Op) (stack : List Frame) : Prop :=
  Frames (Placed hash σ op) stack

theorem known {policy : Policy} (es : List Event) (w : World) (run : Reaches hash policy es w) :
    ∀ j ∈ w.jobs, Known hash w.servers j.req j.op j.stack :=
  (routing_preserved.holds_init (g := ()) (fun _ _ _ _ _ => trivial) trivial
    (reaches_any run)).jobs

end MiniDiscord.Cluster
