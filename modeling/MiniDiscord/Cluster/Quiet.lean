import MiniDiscord.Cluster.Linearizable
import MiniDiscord.Cluster.Placement
import MiniDiscord.Cluster.Unwrap

/-!
# Servers at rest

A panic without failures leaves a request that waits for good. So when no request is in flight no
store is poisoned, and if no backup has rejected a join or a leave, the servers mirror the central
store that explains the requests.
-/

namespace MiniDiscord.Cluster

open DiscordStateops

variable {hash : String → ℕ} {σ σ' : Servers} {op : Op} {req : ℕ} {stack stack' : List Frame}
  {config : LocationConfig} {s : ServerId} {st st' : AppState} {c : String} {w : World}
  {es : List Event}

/-! ## Panics -/

/-- A handler panicked, and the call below never gets its answer. -/
def Stuck (stack : List Frame) : Prop :=
  ∃ s caller rest, stack = .call s .panicked :: caller :: rest

theorem stuck_advance (h : Advance hash σ op stack σ' stack') (stuck : Stuck stack) :
    Stuck stack' := by
  obtain ⟨s, caller, rest, rfl⟩ := stuck
  cases h with
  | panic => exact ⟨s, caller, rest, rfl⟩
  | sent _ _ _ _ _ _ _ sends => cases sends
  | unsent _ _ _ _ _ _ _ sends => cases sends

/-- A store is poisoned by a local operation that fails, or by a handler. -/
theorem advance_poisoned (h : Advance hash σ op stack σ' stack') (rooted : Rooted stack) :
    σ'.poisoned = σ.poisoned ∨ Stuck stack' ∨
      ∃ s rest, stack = .call s .commit :: rest ∧ op.locked (σ.store s) = none := by
  cases h with
  | panic s pc σ' rest live poisons unapplied =>
    rcases poisons with rfl | ⟨rfl, rfl, hnone⟩
    · exact Or.inl rfl
    · exact Or.inr (Or.inr ⟨s, rest, rfl, hnone⟩)
  | handlerPanic s request σ' rest live poisons =>
    rcases rest with _ | ⟨caller, rest⟩
    · exact absurd rfl (rooted_below rooted nofun)
    · exact Or.inr (Or.inl ⟨s, caller, rest, rfl⟩)
  | _ => exact Or.inl rfl

theorem poisoned_stuck (run : Reaches hash failureFree es w) :
    ∀ s, w.servers.poisoned s = true → ∃ j ∈ w.jobs, Stuck j.stack := by
  refine run.history (P := fun _ w =>
    ∀ s, w.servers.poisoned s = true → ∃ j ∈ w.jobs, Stuck j.stack) (fun s h => by cases h) ?_
  intro es w e w' prefix_run h allowed taken s hs
  obtain ⟨up, rooted⟩ := failureFree_up (failureFree_where prefix_run)
  cases step_cases taken with
  | submitted t op live =>
    obtain ⟨j, hj, hstuck⟩ := h s hs
    exact ⟨j, List.mem_append_left _ hj, hstuck⟩
  | advanced j pre post σ' stack' jobs hadvance =>
    have hj : j ∈ w.jobs := by simp [jobs]
    have hkept : (∃ k ∈ w.jobs, Stuck k.stack) →
        ∃ k ∈ pre ++ { j with stack := stack' } :: post, Stuck k.stack := by
      rintro ⟨k, hk, hstuck⟩
      rw [jobs] at hk
      simp only [List.mem_append, List.mem_cons] at hk
      rcases hk with hk | rfl | hk
      · exact ⟨k, by simp [hk], hstuck⟩
      · exact ⟨{ k with stack := stack' }, by simp, stuck_advance hadvance hstuck⟩
      · exact ⟨k, by simp [hk], hstuck⟩
    rcases advance_poisoned hadvance (rooted j hj) with hsame | hstuck |
      ⟨t, rest, hstack, hnone⟩
    · exact hkept (h s (hsame ▸ hs))
    · exact ⟨{ j with stack := stack' }, by simp, hstuck⟩
    · have hsome := commit_some prefix_run hj hstack
      simp [hnone] at hsome
  | replied j pre post t r jobs stack live attached =>
    obtain ⟨k, hk, hstuck⟩ := h s hs
    rw [jobs] at hk
    simp only [List.mem_append, List.mem_cons] at hk
    rcases hk with hk | rfl | hk
    · exact ⟨k, by simp [hk], hstuck⟩
    · obtain ⟨t', caller, rest, hstack⟩ := hstuck
      rw [stack] at hstack
      cases hstack
    · exact ⟨k, by simp [hk], hstuck⟩
  | gaveUp j pre post t p pc upper lower jobs stack live awaits failed => simp [up.view] at failed
  | hungUp | suspected | crashed => cases allowed

theorem quiet_unpoisoned (run : Reaches hash failureFree es w) (quiet : w.Quiet) (s : ServerId) :
    w.servers.poisoned s = false := by
  by_contra hpoisoned
  obtain ⟨j, hj, t, caller, rest, hstack⟩ := poisoned_stuck run s (by simpa using hpoisoned)
  rcases quiet j hj with hnil | ⟨t', hone⟩
  · cases hnil.symm.trans hstack
  · cases hone.symm.trans hstack

/-! ## The mirror -/

theorem channel_ext (exist : HasChannel st c ↔ HasChannel st' c)
    (members : st.members c = st'.members c) (history : st.history c = st'.history c)
    (nextId : st.nextId c = st'.nextId c) : st.channel c = st'.channel c := by
  cases hfound : st.channel c with
  | none =>
    cases hfound' : st'.channel c with
    | none => rfl
    | some ch' =>
      obtain ⟨ch, hch⟩ := exist.mpr ⟨ch', hfound'⟩
      cases hfound.symm.trans hch
  | some ch =>
    obtain ⟨ch', hfound'⟩ := exist.mp ⟨ch, hfound⟩
    simp only [AppState.members, AppState.history, AppState.nextId,
      channelOrNew_of_channel hfound, channelOrNew_of_channel hfound'] at members history nextId
    rw [hfound']
    cases ch
    cases ch'
    simp_all

theorem quiet_members (run : Reaches hash (failureFree.where' inOrder) es w) (quiet : w.Quiet)
    (c : String) : (w.servers.store (channelOwner hash c).backup).members c =
      (w.servers.store (channelOwner hash c).primary).members c := by
  ext u
  have hpresent := settling run c u
  simp only [Settling, quiet_owing quiet, present] at hpresent
  split_ifs at hpresent <;> simp_all

theorem failureFree_of_allows {condition : Servers → Op → List Frame → Bool} {e : Event}
    (allowed : (failureFree.where' condition).allows w e = true) :
    failureFree.allows w e = true := by
  cases e with
  | advance i => simp [Policy.allows, failureFree]
  | _ => exact allowed

theorem failureFree_of_where {condition : Servers → Op → List Frame → Bool}
    (run : Reaches hash (failureFree.where' condition) es w) : Reaches hash failureFree es w :=
  run.mono fun _ _ => failureFree_of_allows

theorem quiet_channel (run : Reaches hash (failureFree.where' inOrder) es w) (quiet : w.Quiet)
    (held : HeldBy (channelOwner hash c) s) : (w.servers.store s).channel c =
      (w.servers.store (channelOwner hash c).primary).channel c := by
  rcases held with rfl | rfl
  · rfl
  · have hrun := failureFree_of_where run
    obtain ⟨hhistory, hnext⟩ := quiet_messages hrun quiet c
    exact channel_ext (quiet_channels hrun quiet c) (quiet_members run quiet c) hhistory hnext

theorem mirrors_of_primaries (run : Reaches hash (failureFree.where' inOrder) es w)
    (quiet : w.Quiet) (primaries : Primaries hash w.servers st) : Mirrors hash w.servers st := by
  have hrun := failureFree_of_where run
  have hup := (failureFree_up run).1
  have hown := own_keys (reaches_any hrun)
  have husers : ∀ u s, HeldBy (userOwner hash u) s →
      (u ∈ st.users ↔ u ∈ (w.servers.store s).users) := by
    rintro u s (rfl | rfl)
    · exact primaries.users u
    · exact (primaries.users u).trans (quiet_users hrun quiet u).symm
  refine ⟨fun s p hs => ?_, quiet_unpoisoned hrun quiet, fun u s _ => husers u s,
    fun c s _ held => (primaries.channels c).trans (quiet_channel run quiet held).symm,
    fun s u hu => ?_, fun s c ch found => ?_, primaries.tallied⟩
  · cases (hup.crashed s).symm.trans hs
  · exact (husers u s ((hown s).users u hu)).mpr hu
  · refine ⟨ch, ?_⟩
    rw [primaries.channels c, ← quiet_channel run quiet ((hown s).channels c ch found)]
    exact found

end MiniDiscord.Cluster
