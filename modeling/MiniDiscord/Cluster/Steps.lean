import MiniDiscord.Cluster.Spec

/-!
# What one step can do

`Advance` and `Step` list the outcomes of a step once, with everything that is known in each. No
later proof unfolds the step functions.
-/

namespace MiniDiscord.Cluster

open DiscordStateops

/-! ## Small facts about the servers -/

section Servers

variable (σ : Servers) (s p : ServerId) (state : AppState)

@[simp] theorem setStore_store : (σ.setStore s state).store = Function.update σ.store s state := rfl
@[simp] theorem setStore_poisoned : (σ.setStore s state).poisoned = σ.poisoned := rfl
@[simp] theorem setStore_view : (σ.setStore s state).view = σ.view := rfl
@[simp] theorem setStore_crashed : (σ.setStore s state).crashed = σ.crashed := rfl
@[simp] theorem poison_store : (σ.poison s).store = σ.store := rfl
@[simp] theorem poison_view : (σ.poison s).view = σ.view := rfl
@[simp] theorem poison_crashed : (σ.poison s).crashed = σ.crashed := rfl
@[simp] theorem suspect_store : (σ.suspect s p).store = σ.store := rfl
@[simp] theorem suspect_poisoned : (σ.suspect s p).poisoned = σ.poisoned := rfl
@[simp] theorem suspect_crashed : (σ.suspect s p).crashed = σ.crashed := rfl
@[simp] theorem crash_store : (σ.crash s).store = σ.store := rfl
@[simp] theorem crash_poisoned : (σ.crash s).poisoned = σ.poisoned := rfl
@[simp] theorem crash_view : (σ.crash s).view = σ.view := rfl
@[simp] theorem crash_crashed : (σ.crash s).crashed = Function.update σ.crashed s true := rfl

@[simp] theorem setStore_self : σ.setStore s (σ.store s) = σ := by
  simp [Servers.setStore]

theorem suspect_view (t q : ServerId) :
    (σ.suspect s p).view t q = if t = s ∧ q = p then false else σ.view t q := by
  simp only [Servers.suspect, Function.update_apply]
  split_ifs <;> simp_all

end Servers

variable {hash : String → ℕ} {σ σ' : Servers} {op : Op} {s : ServerId}

/-- A panic poisons the store if the critical section itself fails, and changes nothing else. -/
def Poisons (σ : Servers) (s : ServerId) (fails : Prop) (σ' : Servers) : Prop :=
  σ' = σ ∨ σ' = σ.poison s ∧ fails

theorem lock_some {β : Type} {f : AppState → Option (β × AppState)} {b : β}
    (h : σ.lock s f = (σ', some b)) :
    ∃ state, f (σ.store s) = some (b, state) ∧ σ' = σ.setStore s state ∧ σ.poisoned s = false := by
  unfold Servers.lock at h
  split at h
  · simp at h
  · rename_i hpoisoned
    split at h
    · simp at h
    · rename_i b' state hf
      simp only [Prod.mk.injEq, Option.some.injEq] at h
      obtain ⟨rfl, rfl⟩ := h
      exact ⟨state, hf, rfl, Bool.eq_false_of_not_eq_true hpoisoned⟩

theorem lock_none {β : Type} {f : AppState → Option (β × AppState)}
    (h : σ.lock s f = (σ', none)) :
    (σ.poisoned s = true ∧ σ' = σ) ∨ f (σ.store s) = none ∧ σ' = σ.poison s := by
  unfold Servers.lock at h
  split at h
  · exact Or.inl ⟨‹_›, (Prod.mk.inj h).1.symm⟩
  · split at h
    · exact Or.inr ⟨‹_›, (Prod.mk.inj h).1.symm⟩
    · simp at h

theorem lock_poisons {β : Type} {f : AppState → Option (β × AppState)} {fails : Prop}
    (h : σ.lock s f = (σ', none)) (hf : f (σ.store s) = none → fails) :
    Poisons σ s fails σ' ∧ (σ.poisoned s = true ∨ fails) :=
  (lock_none h).elim (fun ⟨hp, heq⟩ => ⟨Or.inl heq, Or.inl hp⟩)
    fun ⟨hnone, heq⟩ => ⟨Or.inr ⟨heq, hf hnone⟩, Or.inr (hf hnone)⟩

theorem lock_read {β : Type} {f : AppState → β} {b : β}
    (h : (σ.lock s fun state => some (f state, state)) = (σ', some b)) :
    b = f (σ.store s) ∧ σ' = σ := by
  obtain ⟨state, hf, rfl, -⟩ := lock_some h
  simp only [Option.some.injEq, Prod.mk.injEq] at hf
  obtain ⟨rfl, rfl⟩ := hf
  exact ⟨rfl, setStore_self σ s⟩

/-! ## Names tested before the lock -/

theorem checks_refusal {e : StateError} (h : op.refusal .check = some e) (state : AppState) :
    op.checks state = .error e := by
  cases op <;> simp only [Op.refusal, reduceCtorEq, Option.ite_none_left_eq_some,
    Option.some.injEq] at h
  all_goals
    obtain ⟨hname, rfl⟩ := h
    simp [Op.checks, checkChannel, hname]

theorem locked_refusal {e : StateError} (h : op.refusal .commit = some e) (state : AppState) :
    op.locked state = some (.error e, state) := by
  have hname : ∀ c, ¬ channelNameIsValid c = true →
      checkChannel c state = .error invalidChannelName := fun c hc => by simp [checkChannel, hc]
  cases op <;> simp only [Op.refusal, reduceCtorEq, Option.ite_none_left_eq_some,
    Option.ite_none_right_eq_some, Option.some.injEq] at h <;> obtain ⟨hc, rfl⟩ := h
  case createUser => simp [Op.locked, DiscordStateops.createUser, hc, Except.map]
  case joinChannel => simp [Op.locked, joinChannelLocked, hc, Except.map]
  case listChannelUsers =>
    simp [Op.locked, DiscordStateops.listChannelUsers, hname _ hc, Except.map, Bind.bind,
      Except.bind]
  case getMessages =>
    simp [Op.locked, DiscordStateops.getMessages, hname _ hc, Except.map, Bind.bind, Except.bind]

theorem replicateLocked_refusal {e : StateError} (h : op.replicaRefusal = some e) (v : Value)
    (state : AppState) : op.replicateLocked v state = some (.error e, state) := by
  cases op <;> simp only [Op.replicaRefusal, reduceCtorEq] at h
  case createUser u => exact locked_refusal h state
  case joinChannel u c => exact locked_refusal h state
  case leaveChannel u c =>
    have hchecks : checkChannel c state = .error e := checks_refusal h state
    simp [Op.replicateLocked, DiscordStateops.leaveChannel, hchecks, Except.map]

/-! ## Answers -/

theorem answer_cases (σ : Servers) (s : ServerId) (rest : List Frame) :
    (σ.heard s rest = true ∧ ∀ r, σ.answer s r rest = .response r :: rest) ∨
      σ.heard s rest = false ∧ ∀ r, σ.answer s r rest = rest := by
  cases h : σ.heard s rest
  · exact Or.inr ⟨rfl, fun r => by simp [Servers.answer, h]⟩
  · exact Or.inl ⟨rfl, fun r => by simp [Servers.answer, h]⟩

theorem unheard_cases {rest : List Frame} (h : σ.heard s rest = false) :
    ∃ t pc lower, rest = .call t pc :: lower ∧ σ.view s t = false := by
  unfold Servers.heard at h
  split at h
  · exact ⟨_, _, _, rfl, h⟩
  · cases h

/-! ## Requests sent -/

/-- Where `forward_request` sends: to the primary, unless it is marked failed. -/
def Located (σ : Servers) (s : ServerId) (config : LocationConfig) (dest : ServerId) : Prop :=
  dest = config.primary ∧ σ.view s config.primary = true ∨
    dest = config.backup ∧ σ.view s config.primary = false

/-- `Sends σ op s pc dest request wait`: a call of `op` at `pc` sends `request` to `dest` and then
stands at `wait`. -/
inductive Sends (hash : String → ℕ) (σ : Servers) (op : Op) (s : ServerId) :
    Pc → ServerId → Request → Pc → Prop
  | user (username : String) (dest : ServerId) (user : op.username? = some username)
      (located : Located σ s (userOwner hash username) dest) :
      Sends hash σ op s .userRoute dest .userExists (.userAwait dest)
  | replicate (v : Value) (config : LocationConfig) (owner : op.owner hash = some config)
      (other : s ≠ config.backup) (alive : σ.view s config.backup = true) :
      Sends hash σ op s (.applied v) config.backup (.replicate v) (.awaitReplica v config.backup)
  | forward (config : LocationConfig) (dest : ServerId) (owner : op.owner hash = some config)
      (located : Located σ s config dest) :
      Sends hash σ op s .route dest op.forwardedAs (.awaitForward dest)
  | poll (all : Multiset String) (p : ServerId) (peers : List ServerId) :
      Sends hash σ op s (.poll all (p :: peers)) p .listNames (.awaitPoll all p peers)

/-! ## One step of a stack -/

inductive Advance (hash : String → ℕ) (σ : Servers) (op : Op) :
    List Frame → Servers → List Frame → Prop
  | authority (s : ServerId) (config : LocationConfig) (rest : List Frame)
      (live : σ.crashed s = false) (owner : op.owner hash = some config)
      (auth : σ.authoritative s config = true) :
      Advance hash σ op (.call s .start :: rest) σ (.call s op.entry :: rest)
  | elsewhere (s : ServerId) (config : LocationConfig) (rest : List Frame)
      (live : σ.crashed s = false) (owner : op.owner hash = some config)
      (auth : σ.authoritative s config = false) :
      Advance hash σ op (.call s .start :: rest) σ (.call s .route :: rest)
  | polls (s : ServerId) (rest : List Frame) (live : σ.crashed s = false)
      (owner : op.owner hash = none) :
      Advance hash σ op (.call s .start :: rest) σ (.call s (.pollOwn (σ.alivePeers s)) :: rest)
  | checked (s : ServerId) (rest : List Frame) (live : σ.crashed s = false)
      (checks : op.checks (σ.store s) = .ok ()) :
      Advance hash σ op (.call s .check :: rest) σ (.call s .userStart :: rest)
  | refused (s : ServerId) (e : StateError) (rest : List Frame) (live : σ.crashed s = false)
      (checks : op.checks (σ.store s) = .error e) :
      Advance hash σ op (.call s .check :: rest) σ (.call s (.done (.error e)) :: rest)
  | userAuthority (s : ServerId) (username : String) (rest : List Frame)
      (live : σ.crashed s = false) (user : op.username? = some username)
      (auth : σ.authoritative s (userOwner hash username) = true) :
      Advance hash σ op (.call s .userStart :: rest) σ (.call s .userLocal :: rest)
  | userElsewhere (s : ServerId) (username : String) (rest : List Frame)
      (live : σ.crashed s = false) (user : op.username? = some username)
      (auth : σ.authoritative s (userOwner hash username) = false) :
      Advance hash σ op (.call s .userStart :: rest) σ (.call s .userRoute :: rest)
  | userFound (s : ServerId) (username : String) (rest : List Frame)
      (live : σ.crashed s = false) (user : op.username? = some username)
      (found : username ∈ (σ.store s).users) :
      Advance hash σ op (.call s .userLocal :: rest) σ (.call s .commit :: rest)
  | userUnknown (s : ServerId) (username : String) (rest : List Frame)
      (live : σ.crashed s = false) (user : op.username? = some username)
      (missing : username ∉ (σ.store s).users) :
      Advance hash σ op (.call s .userLocal :: rest) σ
        (.call s (.done (.error unknownUser)) :: rest)
  | committed (s : ServerId) (v : Value) (state : AppState) (rest : List Frame)
      (live : σ.crashed s = false) (locked : op.locked (σ.store s) = some (.ok v, state))
      (unpoisoned : σ.poisoned s = false) :
      Advance hash σ op (.call s .commit :: rest) (σ.setStore s state)
        (.call s (if op.replicated then .applied v else .done (.ok v)) :: rest)
  | rejected (s : ServerId) (e : StateError) (state : AppState) (rest : List Frame)
      (live : σ.crashed s = false) (locked : op.locked (σ.store s) = some (.error e, state)) :
      Advance hash σ op (.call s .commit :: rest) (σ.setStore s state)
        (.call s (.done (.error e)) :: rest)
  | alone (s : ServerId) (v : Value) (config : LocationConfig) (rest : List Frame)
      (live : σ.crashed s = false) (owner : op.owner hash = some config)
      (alone : config.backup = s ∨ σ.view s config.backup = false) :
      Advance hash σ op (.call s (.applied v) :: rest) σ (.call s (.done (.ok v)) :: rest)
  | sent (s : ServerId) (pc : Pc) (dest : ServerId) (request : Request) (wait : Pc)
      (rest : List Frame) (live : σ.crashed s = false)
      (sends : Sends hash σ op s pc dest request wait) (alive : σ.view s dest = true) :
      Advance hash σ op (.call s pc :: rest) σ (.request dest request :: .call s wait :: rest)
  | unsent (s : ServerId) (pc : Pc) (dest : ServerId) (request : Request) (wait : Pc)
      (rest : List Frame) (live : σ.crashed s = false)
      (sends : Sends hash σ op s pc dest request wait) (failed : σ.view s dest = false) :
      Advance hash σ op (.call s pc :: rest) σ (.call s wait :: rest)
  | polledOwn (s : ServerId) (peers : List ServerId) (rest : List Frame)
      (live : σ.crashed s = false) :
      Advance hash σ op (.call s (.pollOwn peers) :: rest) σ
        (.call s (.poll (op.names (σ.store s)) peers) :: rest)
  | polled (s : ServerId) (all : Multiset String) (rest : List Frame)
      (live : σ.crashed s = false) :
      Advance hash σ op (.call s (.poll all []) :: rest) σ
        (.call s (.done (.ok (.sorted (dedup (sortNames all))))) :: rest)
  | panic (s : ServerId) (pc : Pc) (σ' : Servers) (rest : List Frame)
      (live : σ.crashed s = false)
      (poisons : Poisons σ s (pc = .commit ∧ op.locked (σ.store s) = none) σ')
      (unapplied : ∀ v, pc ≠ .applied v) :
      Advance hash σ op (.call s pc :: rest) σ' (.call s .panicked :: rest)
  | started (s : ServerId) (rest : List Frame) (live : σ.crashed s = false) :
      Advance hash σ op (.request s .forwarded :: rest) σ (.call s .start :: rest)
  | answeredUser (s : ServerId) (username : String) (rest : List Frame)
      (live : σ.crashed s = false) (user : op.username? = some username)
      (heard : σ.heard s rest = true) :
      Advance hash σ op (.request s .userExists :: rest) σ
        (.response (.ok (.found (DiscordStateops.userExists username (σ.store s)))) :: rest)
  | answeredNames (s : ServerId) (rest : List Frame) (live : σ.crashed s = false)
      (heard : σ.heard s rest = true) :
      Advance hash σ op (.request s .listNames :: rest) σ
        (.response (.ok (.names (op.names (σ.store s)))) :: rest)
  | replicated (s : ServerId) (v : Value) (r : StateResult Value) (state : AppState)
      (rest : List Frame) (live : σ.crashed s = false)
      (locked : op.replicateLocked v (σ.store s) = some (r, state))
      (unpoisoned : op.replicaRefusal = none → σ.poisoned s = false)
      (heard : σ.heard s rest = true) :
      Advance hash σ op (.request s (.replicate v) :: rest) (σ.setStore s state)
        (.response r :: rest)
  | handlerPanic (s : ServerId) (request : Request) (σ' : Servers) (rest : List Frame)
      (live : σ.crashed s = false)
      (poisons : Poisons σ s (∃ v, request = .replicate v ∧ op.replicateLocked v (σ.store s) = none)
        σ')
      (cause : σ.poisoned s = true ∨
        ∃ v, request = .replicate v ∧ op.replicateLocked v (σ.store s) = none) :
      Advance hash σ op (.request s request :: rest) σ' (.call s .panicked :: rest)
  | responded (s : ServerId) (r : StateResult Value) (caller : Frame) (rest : List Frame)
      (live : σ.crashed s = false) (heard : σ.heard s (caller :: rest) = true) :
      Advance hash σ op (.call s (.done r) :: caller :: rest) σ (.response r :: caller :: rest)
  | unheard (s : ServerId) (r : StateResult Value) (caller : Frame) (rest : List Frame)
      (live : σ.crashed s = false) (unheard : σ.heard s (caller :: rest) = false) :
      Advance hash σ op (.call s (.done r) :: caller :: rest) σ (caller :: rest)
  | unheardRead (s : ServerId) (request : Request) (rest : List Frame)
      (live : σ.crashed s = false) (reads : request = .userExists ∨ request = .listNames)
      (unheard : σ.heard s rest = false) :
      Advance hash σ op (.request s request :: rest) σ rest
  | unheardReplica (s : ServerId) (v : Value) (r : StateResult Value) (state : AppState)
      (rest : List Frame) (live : σ.crashed s = false)
      (locked : op.replicateLocked v (σ.store s) = some (r, state))
      (unpoisoned : op.replicaRefusal = none → σ.poisoned s = false)
      (unheard : σ.heard s rest = false) :
      Advance hash σ op (.request s (.replicate v) :: rest) (σ.setStore s state) rest
  | resumed (s : ServerId) (pc : Pc) (p : ServerId) (r : StateResult Value) (rest : List Frame)
      (live : σ.crashed s = false) (awaits : pc.awaits = some p) :
      Advance hash σ op (.response r :: .call s pc :: rest) σ (.call s (pc.resume r) :: rest)

/-- `forward_request_to` panics, sends, or finds the peer marked failed. -/
theorem forwardRequestTo_cases {dest : ServerId} {request : Request} {pc wait : Pc}
    (rest : List Frame) (live : σ.crashed s = false) (unapplied : s = dest → ∀ v, pc ≠ .applied v)
    (sends : s ≠ dest → Sends hash σ op s pc dest request wait) :
    Advance hash σ op (.call s pc :: rest) σ (σ.forwardRequestTo s dest request wait ++ rest) := by
  unfold Servers.forwardRequestTo
  split_ifs with hself halive
  · exact .panic s pc σ rest live (Or.inl rfl) (unapplied hself)
  · exact .sent s pc dest request wait rest live (sends hself) halive
  · exact .unsent s pc dest request wait rest live (sends hself) (by simpa using halive)

theorem forwardRequest_cases {config : LocationConfig} {request : Request} {pc : Pc}
    {wait : ServerId → Pc} (rest : List Frame) (live : σ.crashed s = false)
    (unapplied : ∀ v, pc ≠ .applied v)
    (sends : ∀ dest, Located σ s config dest → Sends hash σ op s pc dest request (wait dest)) :
    Advance hash σ op (.call s pc :: rest) σ (σ.forwardRequest s config request wait ++ rest) := by
  unfold Servers.forwardRequest
  split_ifs with hself halive
  · exact .panic s pc σ rest live (Or.inl rfl) unapplied
  · exact forwardRequestTo_cases rest live (fun _ => unapplied)
      fun _ => sends _ (Or.inl ⟨rfl, halive⟩)
  · exact forwardRequestTo_cases rest live (fun _ => unapplied)
      fun _ => sends _ (Or.inr ⟨rfl, by simpa using halive⟩)

theorem stepCall_cases {pc : Pc} {frames : List Frame} (rest : List Frame)
    (live : σ.crashed s = false) (h : σ.stepCall hash op s pc = some (σ', frames)) :
    Advance hash σ op (.call s pc :: rest) σ' (frames ++ rest) := by
  cases pc with
  | start =>
    simp only [Servers.stepCall] at h
    split at h
    · rename_i config howner
      cases h
      by_cases hauth : σ.authoritative s config = true
      · simpa [hauth] using Advance.authority s config rest live howner hauth
      · have hauth' : σ.authoritative s config = false := by simpa using hauth
        simpa [hauth'] using Advance.elsewhere s config rest live howner hauth'
    · rename_i howner
      cases h
      exact .polls s rest live howner
  | check =>
    simp only [Servers.stepCall] at h
    split at h
    · cases h
      exact .refused s _ rest live (checks_refusal ‹_› _)
    · split at h <;> cases h <;> rename_i hlock
      · obtain ⟨hchecks, rfl⟩ := lock_read hlock
        exact .checked s rest live hchecks.symm
      · obtain ⟨hchecks, rfl⟩ := lock_read hlock
        exact .refused s _ rest live hchecks.symm
      · exact .panic s _ _ rest live (lock_poisons hlock nofun).1 nofun
  | userStart =>
    simp only [Servers.stepCall, Option.bind_eq_bind, Option.bind_eq_some_iff] at h
    obtain ⟨username, huser, h⟩ := h
    cases h
    by_cases hauth : σ.authoritative s (userOwner hash username) = true
    · simpa [hauth] using Advance.userAuthority s username rest live huser hauth
    · have hauth' : σ.authoritative s (userOwner hash username) = false := by simpa using hauth
      simpa [hauth'] using Advance.userElsewhere s username rest live huser hauth'
  | userLocal =>
    simp only [Servers.stepCall, Option.bind_eq_bind, Option.bind_eq_some_iff] at h
    obtain ⟨username, huser, h⟩ := h
    split at h <;> cases h <;> rename_i hlock
    · obtain ⟨hfound, rfl⟩ := lock_read hlock
      exact .userFound s username rest live huser
        (by simpa [DiscordStateops.userExists] using hfound)
    · obtain ⟨hfound, rfl⟩ := lock_read hlock
      exact .userUnknown s username rest live huser
        (by simpa [DiscordStateops.userExists] using hfound)
    · exact .panic s _ _ rest live (lock_poisons hlock nofun).1 nofun
  | userRoute =>
    simp only [Servers.stepCall, Option.bind_eq_bind, Option.bind_eq_some_iff] at h
    obtain ⟨username, huser, h⟩ := h
    cases h
    exact forwardRequest_cases rest live nofun fun dest hdest => .user username dest huser hdest
  | commit =>
    simp only [Servers.stepCall] at h
    split at h
    · cases h
      have hrejected : Advance hash σ op (.call s .commit :: rest) _ _ :=
        .rejected s _ (σ.store s) rest live (locked_refusal ‹_› _)
      rwa [setStore_self] at hrejected
    · split at h <;> cases h <;> rename_i hlock
      · obtain ⟨state, hlocked, rfl, hpoisoned⟩ := lock_some hlock
        exact .committed s _ state rest live hlocked hpoisoned
      · obtain ⟨state, hlocked, rfl, -⟩ := lock_some hlock
        exact .rejected s _ state rest live hlocked
      · exact .panic s _ _ rest live (lock_poisons hlock fun hnone => ⟨rfl, hnone⟩).1 nofun
  | applied v =>
    simp only [Servers.stepCall, Option.bind_eq_bind, Option.bind_eq_some_iff] at h
    obtain ⟨config, howner, h⟩ := h
    split at h <;> cases h
    · exact .alone s v config rest live howner ‹_›
    · rename_i hother
      simp only [not_or, Bool.not_eq_false] at hother
      exact forwardRequestTo_cases rest live (fun heq => absurd heq.symm hother.1)
        fun hne => .replicate v config howner hne hother.2
  | route =>
    simp only [Servers.stepCall, Option.bind_eq_bind, Option.bind_eq_some_iff] at h
    obtain ⟨config, howner, h⟩ := h
    cases h
    exact forwardRequest_cases rest live nofun fun dest hdest => .forward config dest howner hdest
  | pollOwn peers =>
    simp only [Servers.stepCall] at h
    split at h <;> cases h <;> rename_i hlock
    · obtain ⟨rfl, rfl⟩ := lock_read hlock
      exact .polledOwn s peers rest live
    · exact .panic s _ _ rest live (lock_poisons hlock nofun).1 nofun
  | poll all peers =>
    cases peers with
    | nil => cases h; exact .polled s all rest live
    | cons p peers =>
      cases h; exact forwardRequestTo_cases rest live (fun _ => nofun) fun _ => .poll all p peers
  | userAwait _ | awaitReplica _ _ | awaitForward _ | awaitPoll _ _ _ | done _ | panicked => cases h

theorem receive_cases {request : Request} {rest stack' : List Frame}
    (live : σ.crashed s = false) (h : σ.receive op s rest request = some (σ', stack')) :
    Advance hash σ op (.request s request :: rest) σ' stack' := by
  cases request with
  | forwarded => cases h; exact .started s rest live
  | userExists =>
    simp only [Servers.receive, Option.bind_eq_bind, Option.bind_eq_some_iff] at h
    obtain ⟨username, huser, h⟩ := h
    split at h <;> cases h <;> rename_i hlock
    · obtain ⟨rfl, rfl⟩ := lock_read hlock
      rcases answer_cases σ' s rest with ⟨hheard, heq⟩ | ⟨hheard, heq⟩ <;> rw [heq]
      · exact .answeredUser s username rest live huser hheard
      · exact .unheardRead s _ rest live (Or.inl rfl) hheard
    · obtain ⟨hpoisons, hcause⟩ := lock_poisons hlock nofun
      exact .handlerPanic s _ _ rest live hpoisons hcause
  | listNames =>
    simp only [Servers.receive] at h
    split at h <;> cases h <;> rename_i hlock
    · obtain ⟨rfl, rfl⟩ := lock_read hlock
      rcases answer_cases σ' s rest with ⟨hheard, heq⟩ | ⟨hheard, heq⟩ <;> rw [heq]
      · exact .answeredNames s rest live hheard
      · exact .unheardRead s _ rest live (Or.inr rfl) hheard
    · obtain ⟨hpoisons, hcause⟩ := lock_poisons hlock nofun
      exact .handlerPanic s _ _ rest live hpoisons hcause
  | replicate v =>
    simp only [Servers.receive] at h
    split at h
    · rename_i e hrefusal
      cases h
      have hlocked := replicateLocked_refusal hrefusal v (σ.store s)
      have hopen : op.replicaRefusal = none → σ.poisoned s = false := by simp [hrefusal]
      rcases answer_cases σ s rest with ⟨hheard, heq⟩ | ⟨hheard, heq⟩ <;> rw [heq]
      · simpa only [setStore_self] using
          Advance.replicated s v _ (σ.store s) rest live hlocked hopen hheard
      · simpa only [setStore_self] using
          Advance.unheardReplica s v _ (σ.store s) rest live hlocked hopen hheard
    · split at h <;> cases h <;> rename_i hlock
      · obtain ⟨state, hlocked, rfl, hpoisoned⟩ := lock_some hlock
        rcases answer_cases (σ.setStore s state) s rest with ⟨hheard, heq⟩ | ⟨hheard, heq⟩ <;>
          rw [heq]
        · exact .replicated s v _ state rest live hlocked (fun _ => hpoisoned) hheard
        · exact .unheardReplica s v _ state rest live hlocked (fun _ => hpoisoned) hheard
      · have hfails : op.replicateLocked v (σ.store s) = none →
            ∃ v', Request.replicate v = .replicate v' ∧ op.replicateLocked v' (σ.store s) = none :=
          fun hnone => ⟨v, rfl, hnone⟩
        obtain ⟨hpoisons, hcause⟩ := lock_poisons hlock hfails
        exact .handlerPanic s _ _ rest live hpoisons hcause

theorem advance_cases {stack stack' : List Frame}
    (h : σ.advance hash op stack = some (σ', stack')) : Advance hash σ op stack σ' stack' := by
  unfold Servers.advance at h
  split at h
  · split at h
    · cases h
    · rename_i hlive
      have hlive := Bool.eq_false_of_not_eq_true hlive
      cases h
      rcases answer_cases σ _ (_ :: _) with ⟨hheard, heq⟩ | ⟨hheard, heq⟩ <;> rw [heq]
      · exact .responded _ _ _ _ hlive hheard
      · exact .unheard _ _ _ _ hlive hheard
  · split at h
    · simp at h
    · rename_i hlive
      simp only [Option.bind_eq_bind, Option.bind_eq_some_iff, Option.some.injEq, Prod.mk.injEq,
        Prod.exists] at h
      obtain ⟨σ₁, frames, hcall, rfl, rfl⟩ := h
      exact stepCall_cases _ (Bool.eq_false_of_not_eq_true hlive) hcall
  · split at h
    · simp at h
    · exact receive_cases (Bool.eq_false_of_not_eq_true ‹_›) h
  · split at h
    · cases h
    · rename_i hlive
      simp only [Bool.or_eq_true, not_or, Bool.not_eq_true, Option.isNone_eq_false_iff,
        Option.isSome_iff_exists] at hlive
      obtain ⟨hlive, p, hp⟩ := hlive
      cases h
      exact .resumed _ _ p _ _ hlive hp
  · cases h

/-- A step leaves every store as it was, or it is a local operation or a replicate request. -/
theorem advance_store {stack stack' : List Frame} (h : Advance hash σ op stack σ' stack') :
    σ'.store = σ.store ∨
    (∃ s r state rest, stack = .call s .commit :: rest ∧
      op.locked (σ.store s) = some (r, state) ∧ σ' = σ.setStore s state) ∨
    ∃ s v r state rest, stack = .request s (.replicate v) :: rest ∧
      op.replicateLocked v (σ.store s) = some (r, state) ∧ σ' = σ.setStore s state := by
  cases h with
  | committed s v state rest live locked | rejected s e state rest live locked =>
    exact Or.inr (Or.inl ⟨s, _, state, rest, rfl, locked, rfl⟩)
  | replicated s v r state rest live locked | unheardReplica s v r state rest live locked =>
    exact Or.inr (Or.inr ⟨s, v, r, state, _, rfl, locked, rfl⟩)
  | panic s pc σ' rest live poisons | handlerPanic s request σ' rest live poisons =>
    rcases poisons with rfl | ⟨rfl, -⟩ <;> exact Or.inl rfl
  | _ => exact Or.inl rfl

theorem advance_live {pc : Pc} {rest stack' : List Frame}
    (h : Advance hash σ op (.call s pc :: rest) σ' stack') : σ.crashed s = false := by
  cases h <;> assumption

theorem advance_view {stack stack' : List Frame} (h : Advance hash σ op stack σ' stack') :
    σ'.view = σ.view ∧ σ'.crashed = σ.crashed := by
  cases h with
  | panic s pc σ' rest live poisons | handlerPanic s request σ' rest live poisons =>
    rcases poisons with rfl | ⟨rfl, -⟩ <;> exact ⟨rfl, rfl⟩
  | _ => exact ⟨rfl, rfl⟩

/-! ## One step of the system -/

inductive Step (hash : String → ℕ) (w : World) : Event → World → Prop
  | submitted (s : ServerId) (op : Op) (live : w.servers.crashed s = false) :
      Step hash w (.submit s op)
        { w with
          jobs := w.jobs ++ [⟨w.nextReq, op, s, true, [.call s .start]⟩],
          nextReq := w.nextReq + 1 }
  | advanced (j : Job) (pre post : List Job) (σ' : Servers) (stack' : List Frame)
      (jobs : w.jobs = pre ++ j :: post) (advance : Advance hash w.servers j.op j.stack σ' stack')
      (computes : w.servers.advance hash j.op j.stack = some (σ', stack')) :
      Step hash w (.advance pre.length)
        { w with servers := σ', jobs := pre ++ { j with stack := stack' } :: post }
  | replied (j : Job) (pre post : List Job) (s : ServerId) (r : StateResult Value)
      (jobs : w.jobs = pre ++ j :: post) (stack : j.stack = [.call s (.done r)])
      (live : w.servers.crashed s = false) (attached : j.attached = true) :
      Step hash w (.advance pre.length)
        { w with
          jobs := pre ++ { j with stack := [] } :: post,
          returned := w.returned ++ [⟨j.req, j.op, r⟩] }
  | gaveUp (j : Job) (pre post : List Job) (s p : ServerId) (pc : Pc) (upper lower : List Frame)
      (jobs : w.jobs = pre ++ j :: post) (stack : j.stack = upper ++ .call s pc :: lower)
      (live : w.servers.crashed s = false) (awaits : pc.awaits = some p)
      (failed : w.servers.view s p = false) :
      Step hash w (.giveUp pre.length upper.length)
        { w with
          jobs := pre ++ { j with stack := .call s pc.giveUp :: lower } :: post ++
            [{ j with attached := false, stack := upper }] }
  | hungUp (j : Job) (pre post : List Job) (jobs : w.jobs = pre ++ j :: post)
      (attached : j.attached = true) :
      Step hash w (.hangUp pre.length)
        { w with jobs := pre ++ { j with attached := false, stack := j.stack.dropLast } :: post }
  | suspected (s p : ServerId) (other : s ≠ p) (live : w.servers.crashed s = false) :
      Step hash w (.suspect s p) { w with servers := w.servers.suspect s p }
  | crashed (s : ServerId) (live : w.servers.crashed s = false) :
      Step hash w (.crash s) { w with servers := w.servers.crash s }

theorem exists_split {α : Type} {l : List α} {i : ℕ} {a : α} (h : l[i]? = some a) :
    ∃ pre post, l = pre ++ a :: post ∧ pre.length = i := by
  obtain ⟨hi, rfl⟩ := List.getElem?_eq_some_iff.mp h
  exact ⟨l.take i, l.drop (i + 1), by simp, by simp; omega⟩

theorem set_split {α : Type} (pre post : List α) (a b : α) :
    (pre ++ a :: post).set pre.length b = pre ++ b :: post := by simp

theorem step_cases {w w' : World} {e : Event} (h : w.step hash e = some w') : Step hash w e w' := by
  cases e with
  | submit s op =>
    simp only [World.step] at h
    split at h <;> cases h
    exact .submitted s op (Bool.eq_false_of_not_eq_true ‹_›)
  | advance i =>
    simp only [World.step, Option.bind_eq_bind, Option.bind_eq_some_iff] at h
    obtain ⟨j, hj, h⟩ := h
    obtain ⟨pre, post, hjobs, rfl⟩ := exists_split hj
    split at h
    · rename_i s r hstack
      split at h <;> cases h
      rename_i hlive
      simp only [Bool.or_eq_true, not_or, Bool.not_eq_true] at hlive
      obtain ⟨hlive, hattached⟩ := hlive
      simpa only [World.setJob, hjobs, set_split] using
        Step.replied j pre post s r hjobs hstack hlive (by simpa using hattached)
    · simp only [Option.bind_eq_some_iff, Prod.exists, Option.some.injEq] at h
      obtain ⟨σ', stack', hadvance, rfl⟩ := h
      simpa only [World.setJob, hjobs, set_split] using
        Step.advanced j pre post σ' stack' hjobs (advance_cases hadvance) hadvance
  | giveUp i k =>
    simp only [World.step, Option.bind_eq_bind, Option.bind_eq_some_iff] at h
    obtain ⟨j, hj, h⟩ := h
    obtain ⟨pre, post, hjobs, rfl⟩ := exists_split hj
    split at h
    · rename_i s pc lower hdrop
      simp only [Option.bind_eq_some_iff] at h
      obtain ⟨p, hp, h⟩ := h
      split at h <;> cases h
      rename_i hlive
      simp only [Bool.or_eq_true, not_or, Bool.not_eq_true] at hlive
      have hk : (j.stack.take k).length = k := by
        have := congrArg List.length hdrop
        simp at this ⊢
        omega
      have hstack : j.stack = j.stack.take k ++ .call s pc :: lower := by
        rw [← hdrop, List.take_append_drop]
      have hstep : Step hash w _ _ :=
        .gaveUp j pre post s p pc _ lower hjobs hstack hlive.1 hp hlive.2
      simpa only [World.setJob, hjobs, set_split, hk] using hstep
    · cases h
  | hangUp i =>
    simp only [World.step, Option.bind_eq_bind, Option.bind_eq_some_iff] at h
    obtain ⟨j, hj, h⟩ := h
    obtain ⟨pre, post, hjobs, rfl⟩ := exists_split hj
    split at h <;> cases h
    simpa only [World.setJob, hjobs, set_split] using Step.hungUp j pre post hjobs ‹_›
  | suspect s p =>
    simp only [World.step] at h
    split at h <;> cases h
    rename_i hlive
    simp only [not_or, Bool.not_eq_true] at hlive
    exact .suspected s p hlive.1 hlive.2
  | crash s =>
    simp only [World.step] at h
    split at h <;> cases h
    exact .crashed s (Bool.eq_false_of_not_eq_true ‹_›)

end MiniDiscord.Cluster
