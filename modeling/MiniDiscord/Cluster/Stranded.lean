import MiniDiscord.Cluster.ClientCall

/-!
# Calls that never return

A call that has panicked never returns, and neither does one that finds both owners of its key
marked failed: it is given `None`, starts again, and is sent nowhere again, since no mark is ever
taken back.
-/

namespace MiniDiscord.Cluster

open DiscordStateops

/-- Both owners are marked failed at a server that is neither of them. -/
structure Servers.Lost (σ : Servers) (s : ServerId) (config : LocationConfig) : Prop where
  primary : s ≠ config.primary
  backup : s ≠ config.backup
  primary_failed : σ.view s config.primary = false
  backup_failed : σ.view s config.backup = false

/-- The owners between which the call goes round: `forward_request`, `None`, and the retry. -/
def Pc.retries (hash : String → ℕ) (op : Op) : Pc → Option LocationConfig
  | .start | .route | .awaitForward _ => op.owner hash
  | .userStart | .userRoute | .userAwait _ => op.username?.map (userOwner hash)
  | _ => none

def Doomed (hash : String → ℕ) (σ : Servers) (op : Op) (s : ServerId) (pc : Pc) : Prop :=
  pc = .panicked ∨ ∃ config, pc.retries hash op = some config ∧ σ.Lost s config

variable {hash : String → ℕ} {σ σ' : Servers} {op : Op} {s p : ServerId} {pc : Pc}
  {config : LocationConfig} {frames : List Frame} {request : Request} {wait : ServerId → Pc}

theorem doomed_grows (grows : σ.Grows σ') (h : Doomed hash σ op s pc) : Doomed hash σ' op s pc :=
  h.imp_right fun ⟨config, hretries, lost⟩ => ⟨config, hretries, lost.primary, lost.backup,
    grows.view s _ lost.primary_failed, grows.view s _ lost.backup_failed⟩

theorem lost_authoritative (lost : σ.Lost s config) : σ.authoritative s config = false :=
  authoritative_false_iff.mpr ⟨lost.primary, fun h => absurd h lost.backup⟩

/-- `forward_request` sends nothing, and the call waits for the backup. -/
theorem lost_forward (lost : σ.Lost s config) :
    σ.forwardRequest s config request wait = [.call s (wait config.backup)] := by
  simp [Servers.forwardRequest, Servers.forwardRequestTo, lost.primary, lost.backup,
    lost.primary_failed, lost.backup_failed]

/-- A doomed call takes doomed steps. -/
theorem doomed_stepCall (h : Doomed hash σ op s pc)
    (step : σ.stepCall hash op s pc = some (σ', frames)) :
    σ' = σ ∧ ∃ pc', frames = [.call s pc'] ∧ Doomed hash σ op s pc' := by
  rcases h with rfl | ⟨config, hretries, lost⟩
  · cases step
  cases pc with
  | start =>
    have howner : op.owner hash = some config := hretries
    simp only [Servers.stepCall, howner, lost_authoritative lost] at step
    cases step
    exact ⟨rfl, .route, rfl, Or.inr ⟨config, howner, lost⟩⟩
  | route =>
    have howner : op.owner hash = some config := hretries
    simp only [Servers.stepCall, howner, Option.bind_eq_bind, Option.bind_some,
      lost_forward lost] at step
    cases step
    exact ⟨rfl, .awaitForward config.backup, rfl, Or.inr ⟨config, howner, lost⟩⟩
  | userStart =>
    obtain ⟨username, huser, rfl⟩ := Option.map_eq_some_iff.mp hretries
    simp only [Servers.stepCall, huser, Option.bind_eq_bind, Option.bind_some,
      lost_authoritative lost] at step
    cases step
    exact ⟨rfl, .userRoute, rfl, Or.inr ⟨_, hretries, lost⟩⟩
  | userRoute =>
    obtain ⟨username, huser, rfl⟩ := Option.map_eq_some_iff.mp hretries
    simp only [Servers.stepCall, huser, Option.bind_eq_bind, Option.bind_some,
      lost_forward lost] at step
    cases step
    exact ⟨rfl, .userAwait (userOwner hash username).backup, rfl, Or.inr ⟨_, hretries, lost⟩⟩
  | awaitForward | userAwait => cases step
  | _ => cases hretries

/-- A doomed call that is given `None` starts again. -/
theorem doomed_giveUp (h : Doomed hash σ op s pc) (awaits : pc.awaits = some p) :
    Doomed hash σ op s pc.giveUp := by
  rcases h with rfl | ⟨config, hretries, lost⟩
  · cases awaits
  · cases pc with
    | awaitForward | userAwait => exact Or.inr ⟨config, hretries, lost⟩
    | awaitReplica | awaitPoll => cases hretries
    | _ => cases awaits

/-! ## How a call gets there -/

theorem forward_doomed (config : LocationConfig)
    (h : σ.location s config = s ∨ σ.view s (σ.location s config) = false)
    (retries : ∀ p, (wait p).retries hash op = some config) :
    ∃ pc', σ.forwardRequest s config request wait = [.call s pc'] ∧ Doomed hash σ op s pc' := by
  by_cases hprimary : s = config.primary
  · exact ⟨.panicked, by rw [Servers.forwardRequest, if_pos hprimary], Or.inl rfl⟩
  rw [forwardRequest_location hprimary]
  by_cases hself : s = σ.location s config
  · exact ⟨.panicked, by rw [Servers.forwardRequestTo, if_pos hself], Or.inl rfl⟩
  have hfailed : σ.view s (σ.location s config) = false := h.resolve_left fun h => hself h.symm
  have hview : σ.view s config.primary = false := by
    by_contra halive
    rw [Servers.location, if_pos (by simpa using halive)] at hfailed
    exact halive hfailed
  have hlocation : σ.location s config = config.backup := by simp [Servers.location, hview]
  rw [hlocation] at hself hfailed ⊢
  exact ⟨wait config.backup, by simp [Servers.forwardRequestTo, hself, hfailed],
    Or.inr ⟨config, retries _, hprimary, hself, hview, hfailed⟩⟩

theorem lock_poisoned {β : Type} (g : AppState → Option (β × AppState))
    (poisoned : σ.poisoned s = true) : σ.lock s g = (σ, none) := by
  rw [Servers.lock, if_pos poisoned]

theorem stops_cases (stops : carriesOn hash σ op [.call s pc] = false) :
    (∃ config, pc.routes hash op = some config ∧ σ.view s (σ.location s config) = false) ∨
      σ.forwardsTo hash op s pc = some s ∨ op.locks pc = true ∧ σ.poisoned s = true := by
  rcases Bool.and_eq_false_iff.mp stops with hreaches | hsurvives
  · cases hroutes : pc.routes hash op with
    | none => simp [reachesOwner, hroutes] at hreaches
    | some config =>
      exact Or.inl ⟨config, rfl, by simpa [reachesOwner, hroutes] using hreaches⟩
  · refine Or.inr ?_
    by_contra hnot
    simp only [not_or, not_and, Bool.not_eq_true] at hnot
    rw [survives_iff.mpr hnot] at hsurvives
    cases hsurvives

/-- A step of the client's call that does not carry on dooms the call. -/
theorem stepCall_doomed (h : σ.stepCall hash op s pc = some (σ', frames))
    (stops : carriesOn hash σ op [.call s pc] = false) :
    ∃ pc', frames = [.call s pc'] ∧ Doomed hash σ' op s pc' := by
  have hstops := stops_cases stops
  cases pc with
  | route =>
    simp only [Servers.stepCall, Option.bind_eq_bind, Option.bind_eq_some_iff] at h
    obtain ⟨config, howner, h⟩ := h
    cases h
    refine forward_doomed config ?_ fun _ => howner
    simpa [Pc.routes, Servers.forwardsTo, Op.locks, howner, or_comm] using hstops
  | userRoute =>
    simp only [Servers.stepCall, Option.bind_eq_bind, Option.bind_eq_some_iff] at h
    obtain ⟨username, huser, h⟩ := h
    cases h
    refine forward_doomed (userOwner hash username) ?_ fun _ => by
      simp [Pc.retries, huser]
    simpa [Pc.routes, Servers.forwardsTo, Op.locks, huser, or_comm] using hstops
  | check | commit =>
    obtain ⟨hvalid, hpoisoned⟩ : op.refusal _ = none ∧ σ.poisoned s = true := by
      simpa [Pc.routes, Servers.forwardsTo, Op.locks] using hstops
    simp only [Servers.stepCall, hvalid, lock_poisoned _ hpoisoned] at h
    cases h
    exact ⟨.panicked, rfl, Or.inl rfl⟩
  | pollOwn =>
    have hpoisoned : σ.poisoned s = true := by
      simpa [Pc.routes, Servers.forwardsTo, Op.locks] using hstops
    simp only [Servers.stepCall, lock_poisoned _ hpoisoned] at h
    cases h
    exact ⟨.panicked, rfl, Or.inl rfl⟩
  | userLocal =>
    have hpoisoned : σ.poisoned s = true := by
      simpa [Pc.routes, Servers.forwardsTo, Op.locks] using hstops
    simp only [Servers.stepCall, Option.bind_eq_bind, Option.bind_eq_some_iff,
      lock_poisoned _ hpoisoned] at h
    obtain ⟨username, -, h⟩ := h
    cases h
    exact ⟨.panicked, rfl, Or.inl rfl⟩
  | poll all peers =>
    cases peers with
    | nil => simp [Pc.routes, Servers.forwardsTo, Op.locks] at hstops
    | cons p peers =>
      obtain rfl : p = s := by simpa [Pc.routes, Servers.forwardsTo, Op.locks] using hstops
      simp only [Servers.stepCall, Servers.forwardRequestTo, if_true] at h
      cases h
      exact ⟨.panicked, rfl, Or.inl rfl⟩
  | applied v =>
    obtain ⟨config, hconfig, hself⟩ : ∃ config, op.owner hash = some config ∧
        (if config.backup = s ∨ σ.view s config.backup = false then none
          else some config.backup) = some s := by
      simpa [Pc.routes, Servers.forwardsTo, Op.locks, Option.bind_eq_some_iff] using hstops
    split_ifs at hself with hbackup
    exact absurd (Or.inl (Option.some.inj hself)) hbackup
  | _ => simp [Pc.routes, Servers.forwardsTo, Op.locks] at hstops

end MiniDiscord.Cluster
