import MiniDiscord.Cluster.FailureFree

/-!
# Changes on their way

What of a replicated operation is at the primary only, and what one step does to it.
-/

namespace MiniDiscord.Cluster

open DiscordStateops

/-- What the operation returned, while its change is at the primary only. -/
def toReplicate : List Frame → Option Value
  | .call _ (.applied v) :: _ | .request _ (.replicate v) :: _ => some v
  -- the backup panicked over the request, and the primary waits for good
  | .call _ .panicked :: .call _ (.awaitReplica v _) :: _ => some v
  | _ => none

/-- Whether the change that a stack is about is at the primary only. -/
def pending : List Frame → ℕ
  | .call _ (.applied _) :: _ | .request _ (.replicate _) :: _ => 1
  -- the backup panicked over the request, and the primary waits for good
  | .call _ .panicked :: .call _ (.awaitReplica _ _) :: _ => 1
  | _ => 0

variable {hash : String → ℕ} {σ σ' : Servers} {op : Op} {req : ℕ} {stack stack' : List Frame}
  {config : LocationConfig} {s : ServerId}

theorem pending_toReplicate : pending stack = if (toReplicate stack).isSome then 1 else 0 := by
  unfold pending toReplicate
  split <;> simp_all

theorem toReplicate_call {pc : Pc} {rest : List Frame} (unapplied : ∀ v, pc ≠ .applied v)
    (running : pc ≠ .panicked) : toReplicate (.call s pc :: rest) = none := by
  unfold toReplicate
  split <;> simp_all

theorem toReplicate_panicked {pc : Pc} {rest : List Frame}
    (known : Known hash σ req op (.call s pc :: rest)) (unapplied : ∀ v, pc ≠ .applied v) :
    toReplicate (.call s .panicked :: rest) = toReplicate (.call s pc :: rest) := by
  by_cases hpc : pc = .panicked
  · rw [hpc]
  · rw [toReplicate_call unapplied hpc]
    rcases rest with _ | ⟨⟨t, below⟩ | _ | _, rest⟩
    · rfl
    · obtain ⟨⟨p, rfl⟩, -⟩ := (known.1.fits _ rfl).resolve_left hpc
      rfl
    · rfl
    · rfl

theorem toReplicate_unheard {f : Frame} (known : Known hash σ req op (f :: stack))
    (unheard : σ.heard s stack = false) (running : ∀ s, f ≠ .call s .panicked) :
    toReplicate stack = none := by
  obtain ⟨t, pc, p, lower, rfl, awaits, -⟩ := unheard_waits known unheard running
  exact toReplicate_call (by rintro v rfl; cases awaits) (by rintro rfl; cases awaits)

/-- While the primary alone answers for the key, a step is the primary's commit, or the backup
handles a replicate request, or nothing is replicated. What is on its way stays so, unless the
backup is marked failed or nobody waits. -/
theorem advance_changes (h : Advance hash σ op stack σ' stack')
    (alone : ∀ s, σ.crashed s = false → σ.Owns config s → s = config.primary)
    (known : Known hash σ req op stack) (owner : op.owner hash = some config)
    (replicated : op.replicated = true) :
    (σ'.store = σ.store ∧ (toReplicate stack' = toReplicate stack ∨ toReplicate stack' = none ∧
        ((∃ s v rest, stack = .call s (.applied v) :: rest ∧ σ.view s config.backup = false) ∨
          ∃ s request, stack = [.request s request]))) ∨
      (∃ v state, op.locked (σ.store config.primary) = some (.ok v, state) ∧
        σ' = σ.setStore config.primary state ∧ toReplicate stack = none ∧
        toReplicate stack' = some v) ∨
      ∃ v r state rest, stack = .request config.backup (.replicate v) :: rest ∧
        op.replicateLocked v (σ.store config.backup) = some (r, state) ∧
        σ' = σ.setStore config.backup state ∧ toReplicate stack' = none := by
  have howner : ∀ {config'}, op.owner hash = some config' → config = config' := owner_unique owner
  cases h with
  | authority s config' rest live owner auth =>
    refine Or.inl ⟨rfl, Or.inl ?_⟩
    cases op <;> rfl
  | committed s v state rest live locked =>
    obtain ⟨config', howner', howns⟩ := known.1.routed rfl
    obtain rfl := howner howner'
    obtain rfl := alone s live howns
    exact Or.inr (Or.inl ⟨v, state, locked, rfl, rfl, by simp [replicated, toReplicate]⟩)
  | rejected s e state rest live locked =>
    obtain rfl : state = σ.store s := effect_error (locked_effect locked)
    exact Or.inl ⟨by simp, Or.inl rfl⟩
  | alone s v config' rest live owner' halone =>
    obtain rfl := howner owner'
    obtain ⟨config', howner', howns⟩ := known.1.routed rfl
    obtain rfl := howner howner'
    obtain rfl := alone s live howns
    have hview := halone.resolve_left (owner_ne owner).symm
    exact Or.inl ⟨rfl, Or.inr ⟨rfl, Or.inl ⟨_, v, rest, rfl, hview⟩⟩⟩
  | sent s pc dest request wait rest live sends alive =>
    refine Or.inl ⟨rfl, Or.inl ?_⟩
    cases sends with
    | forward config' dest owner' located => cases op <;> rfl
    | _ => rfl
  | unsent s pc dest request wait rest live sends failed =>
    refine Or.inl ⟨rfl, Or.inl ?_⟩
    cases sends with
    | replicate v config' owner' other alive => simp [alive] at failed
    | _ => rfl
  | panic s pc σ' rest live poisons unapplied =>
    rcases poisons with rfl | ⟨rfl, -⟩ <;>
      exact Or.inl ⟨rfl, Or.inl (toReplicate_panicked known unapplied)⟩
  | handlerPanic s request σ' rest live poisons =>
    have hsame : toReplicate (.call s .panicked :: rest) =
        toReplicate (.request s request :: rest) ∨ rest = [] := by
      rcases rest with _ | ⟨⟨t, below⟩ | _ | _, rest⟩
      · exact Or.inr rfl
      · refine Or.inl ?_
        have hfits := known.1.fits _ rfl
        cases request with
        | forwarded => obtain ⟨rfl, -⟩ := hfits; rfl
        | userExists => rcases hfits with rfl | ⟨rfl, -⟩ <;> rfl
        | listNames => obtain ⟨all, peers, rfl⟩ := hfits; rfl
        | replicate v => obtain rfl := hfits; rfl
      · cases request <;> exact (known.1.fits _ rfl).elim
      · cases request <;> exact (known.1.fits _ rfl).elim
    refine Or.inl ⟨?_, hsame.imp id ?_⟩
    · rcases poisons with rfl | ⟨rfl, -⟩ <;> rfl
    · rintro rfl
      exact ⟨rfl, Or.inr ⟨s, request, rfl⟩⟩
  | replicated s v r state rest live locked =>
    obtain ⟨config', howner', rfl⟩ := known.1.routed
    obtain rfl := howner howner'
    exact Or.inr (Or.inr ⟨v, r, state, rest, rfl, locked, rfl, rfl⟩)
  | resumed s pc p r rest live awaits =>
    have hwaiting : ∀ v, pc ≠ .applied v := by rintro v rfl; cases awaits
    have hrunning : pc ≠ .panicked := by rintro rfl; cases awaits
    have hbelow : Known hash σ req op (.call s pc :: rest) := known.2
    have hresume : toReplicate (.call s (pc.resume r) :: rest) = none := by
      by_cases hpanic : pc.resume r = .panicked
      · rw [hpanic, toReplicate_panicked hbelow hwaiting, toReplicate_call hwaiting hrunning]
      · refine toReplicate_call (fun v => ?_) hpanic
        unfold Pc.resume
        split <;> nofun
    exact Or.inl ⟨rfl, Or.inl hresume⟩
  | unheard s r caller rest live unheard =>
    exact Or.inl ⟨rfl, Or.inl (toReplicate_unheard known unheard nofun)⟩
  | unheardRead s request rest live reads unheard =>
    refine Or.inl ⟨rfl, Or.inl ((toReplicate_unheard known unheard nofun).trans ?_)⟩
    rcases reads with rfl | rfl <;> rfl
  | unheardReplica s v r state rest live locked unpoisoned unheard =>
    obtain ⟨config', howner', rfl⟩ := known.1.routed
    obtain rfl := howner howner'
    exact Or.inr (Or.inr ⟨v, r, state, _, rfl, locked, rfl,
      toReplicate_unheard known unheard nofun⟩)
  | _ => exact Or.inl ⟨rfl, Or.inl rfl⟩

/-- A step without failures: nothing is replicated, or the primary commits, or the backup handles a
replicate request. -/
theorem advance_replicates (h : Advance hash σ op stack σ' stack') (up : σ.Up)
    (known : Known hash σ req op stack) (rooted : Rooted stack)
    (owner : op.owner hash = some config) (replicated : op.replicated = true) :
    (σ'.store = σ.store ∧ toReplicate stack' = toReplicate stack) ∨
      (∃ v state, op.locked (σ.store config.primary) = some (.ok v, state) ∧
        σ' = σ.setStore config.primary state ∧ toReplicate stack = none ∧
        toReplicate stack' = some v) ∨
      ∃ v r state rest, stack = .request config.backup (.replicate v) :: rest ∧
        op.replicateLocked v (σ.store config.backup) = some (r, state) ∧
        σ' = σ.setStore config.backup state ∧ toReplicate stack' = none := by
  refine (advance_changes h (fun s _ => up_primary up) known owner replicated).imp_left ?_
  refine And.imp_right fun hchange => hchange.resolve_right ?_
  rintro ⟨-, ⟨s, v, rest, -, hview⟩ | ⟨s, request, rfl⟩⟩
  · simp [up.view] at hview
  · exact absurd rfl (rooted_below rooted nofun)

/-- A step without failures: the stores and what is owed stay as they are, or the primary commits,
or the backup handles a replicate request. -/
theorem advance_pending (h : Advance hash σ op stack σ' stack') (up : σ.Up)
    (known : Known hash σ req op stack) (rooted : Rooted stack)
    (owner : op.owner hash = some config) (replicated : op.replicated = true) :
    (σ'.store = σ.store ∧ pending stack' = pending stack) ∨
      (∃ v state, op.locked (σ.store config.primary) = some (.ok v, state) ∧
        σ' = σ.setStore config.primary state ∧ pending stack = 0 ∧ pending stack' = 1) ∨
      ∃ v r state rest, stack = .request config.backup (.replicate v) :: rest ∧
        op.replicateLocked v (σ.store config.backup) = some (r, state) ∧
        σ' = σ.setStore config.backup state ∧ pending stack = 1 ∧ pending stack' = 0 := by
  simp only [pending_toReplicate]
  rcases advance_replicates h up known rooted owner replicated with ⟨hstore, hsame⟩ |
    ⟨v, state, locked, rfl, hbefore, hafter⟩ | ⟨v, r, state, rest, rfl, locked, rfl, hafter⟩
  · exact Or.inl ⟨hstore, by rw [hsame]⟩
  · exact Or.inr (Or.inl ⟨v, state, locked, rfl, by simp [hbefore], by simp [hafter]⟩)
  · exact Or.inr (Or.inr ⟨v, r, state, rest, rfl, locked, rfl, rfl, by simp [hafter]⟩)

end MiniDiscord.Cluster
