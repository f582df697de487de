import MiniDiscord.Cluster.Patience
import MiniDiscord.Cluster.Unwrap

/-!
# The call that answers the client

The lowest call of a stack stays where it is, whatever becomes of the calls on top of it. It goes on
as long as none of its own steps panics, and then it can always take its next step.
-/

namespace MiniDiscord.Cluster

open DiscordStateops

/-- The lowest call is one at `s`. It has not panicked, and it waits for what is on top of it. -/
def Continues (s : ServerId) (stack : List Frame) : Prop :=
  ∃ upper pc, stack = upper ++ [.call s pc] ∧ pc ≠ .panicked ∧
    (upper ≠ [] → pc.awaits.isSome = true)

/-- Whether the next step locks the store. A name that is refused by itself is refused before. -/
def Op.locks (op : Op) : Pc → Bool
  | .check => (op.refusal .check).isNone
  | .commit => (op.refusal .commit).isNone
  | .userLocal | .pollOwn _ => true
  | _ => false

/-- The next step does not panic, if it is one of the lowest call. -/
def survives (hash : String → ℕ) (σ : Servers) (op : Op) : List Frame → Bool
  | [.call s pc] => σ.forwardsTo hash op s pc ≠ some s && !(op.locks pc && σ.poisoned s)
  | _ => true

/-- No call is about to forward while all that it can forward to are marked failed, and the client's
own call does not panic. -/
def carriesOn (hash : String → ℕ) (σ : Servers) (op : Op) (stack : List Frame) : Bool :=
  reachesOwner hash σ op stack && survives hash σ op stack

variable {hash : String → ℕ} {σ σ' : Servers} {op : Op} {s p dest : ServerId} {pc wait : Pc}
  {config : LocationConfig} {stack stack' upper lower frames rest : List Frame} {f : Frame}
  {request : Request}

/-! ## One step of the lowest call -/

theorem continues_single (h : pc ≠ .panicked) : Continues s [.call s pc] :=
  ⟨[], pc, rfl, h, fun hne => absurd rfl hne⟩

theorem continues_forward (other : dest ≠ s) (awaits : wait.awaits = some p) :
    Continues s (σ.forwardRequestTo s dest request wait) := by
  have hwait : wait ≠ .panicked := by rintro rfl; cases awaits
  rw [Servers.forwardRequestTo, if_neg other.symm]
  split_ifs
  · exact ⟨[.request dest request], wait, rfl, hwait, fun _ => by rw [awaits]; rfl⟩
  · exact continues_single hwait

theorem forwardRequest_location (primary : s ≠ config.primary) (wait : ServerId → Pc) :
    σ.forwardRequest s config request wait =
      σ.forwardRequestTo s (σ.location s config) request (wait (σ.location s config)) := by
  rw [Servers.forwardRequest, if_neg primary]
  rfl

/-- Whoever picks another server is not the primary. -/
theorem location_primary (self : σ.view s s = true) (other : σ.location s config ≠ s) :
    s ≠ config.primary := by
  rintro rfl
  exact other (by rw [Servers.location, if_pos self])

theorem continues_route (self : σ.view s s = true) (other : σ.location s config ≠ s)
    {wait : ServerId → Pc} (awaits : ∀ p, (wait p).awaits = some p) :
    Continues s (σ.forwardRequest s config request wait) := by
  rw [forwardRequest_location (location_primary self other)]
  exact continues_forward other (awaits _)

theorem lock_unpoisoned {β : Type} {g : AppState → Option (β × AppState)}
    (unpoisoned : σ.poisoned s = false) (some : (g (σ.store s)).isSome = true) :
    (σ.lock s g).2.isSome = true := by
  obtain ⟨⟨b, st⟩, hg⟩ := Option.isSome_iff_exists.mp some
  simp [Servers.lock, unpoisoned, hg]

theorem survives_iff : survives hash σ op [.call s pc] = true ↔
    σ.forwardsTo hash op s pc ≠ some s ∧ (op.locks pc = true → σ.poisoned s = false) := by
  cases hlocks : op.locks pc <;> simp [survives, hlocks]

/-- A step of the lowest call that neither forwards to its own server nor meets a poisoned mutex
leaves a call behind. -/
theorem stepCall_continues (h : σ.stepCall hash op s pc = some (σ', frames))
    (self : σ.view s s = true) (locked : pc = .commit → (op.locked (σ.store s)).isSome = true)
    (survives : survives hash σ op [.call s pc] = true) : Continues s frames := by
  obtain ⟨hother, hunpoisoned⟩ := survives_iff.mp survives
  cases pc with
  | start =>
    simp only [Servers.stepCall] at h
    split at h <;> cases h
    · refine continues_single ?_
      split_ifs
      · cases op <;> simp [Op.entry]
      · simp
    · exact continues_single (by simp)
  | check =>
    cases hrefusal : op.refusal .check with
    | some e =>
      simp only [Servers.stepCall, hrefusal] at h
      cases h
      exact continues_single (by simp)
    | none =>
      have hlock := lock_unpoisoned (g := fun state => some (op.checks state, state))
        (hunpoisoned (by simp [Op.locks, hrefusal])) rfl
      simp only [Servers.stepCall, hrefusal] at h
      split at h <;> cases h
      · exact continues_single (by simp)
      · exact continues_single (by simp)
      · rename_i hfails
        simp [hfails] at hlock
  | userStart =>
    simp only [Servers.stepCall, Option.bind_eq_bind, Option.bind_eq_some_iff] at h
    obtain ⟨username, -, h⟩ := h
    cases h
    refine continues_single ?_
    split_ifs <;> simp
  | userLocal =>
    simp only [Servers.stepCall, Option.bind_eq_bind, Option.bind_eq_some_iff] at h
    obtain ⟨username, -, h⟩ := h
    have hlock := lock_unpoisoned
      (g := fun state => some (DiscordStateops.userExists username state, state))
      (hunpoisoned rfl) rfl
    split at h <;> cases h
    · exact continues_single (by simp)
    · exact continues_single (by simp)
    · rename_i hfails
      simp [hfails] at hlock
  | userRoute =>
    simp only [Servers.stepCall, Option.bind_eq_bind, Option.bind_eq_some_iff] at h
    obtain ⟨username, huser, h⟩ := h
    cases h
    refine continues_route self (fun heq => hother ?_) fun _ => rfl
    simp [Servers.forwardsTo, Pc.routes, huser, heq]
  | commit =>
    cases hrefusal : op.refusal .commit with
    | some e =>
      simp only [Servers.stepCall, hrefusal] at h
      cases h
      exact continues_single (by simp)
    | none =>
      have hlock := lock_unpoisoned (hunpoisoned (by simp [Op.locks, hrefusal])) (locked rfl)
      simp only [Servers.stepCall, hrefusal] at h
      split at h <;> cases h
      · refine continues_single ?_
        split_ifs <;> simp
      · exact continues_single (by simp)
      · rename_i hfails
        simp [hfails] at hlock
  | applied v =>
    simp only [Servers.stepCall, Option.bind_eq_bind, Option.bind_eq_some_iff] at h
    obtain ⟨config, howner, h⟩ := h
    split at h <;> cases h
    · exact continues_single (by simp)
    · rename_i hbackup
      exact continues_forward (fun heq => hbackup (Or.inl heq)) rfl
  | route =>
    simp only [Servers.stepCall, Option.bind_eq_bind, Option.bind_eq_some_iff] at h
    obtain ⟨config, howner, h⟩ := h
    cases h
    refine continues_route self (fun heq => hother ?_) fun _ => rfl
    simp [Servers.forwardsTo, Pc.routes, howner, heq]
  | pollOwn peers =>
    have hlock := lock_unpoisoned (g := fun state => some (op.names state, state))
      (hunpoisoned rfl) rfl
    simp only [Servers.stepCall] at h
    split at h <;> cases h
    · exact continues_single (by simp)
    · rename_i hfails
      simp [hfails] at hlock
  | poll all peers =>
    cases peers with
    | nil => cases h; exact continues_single (by simp)
    | cons p peers =>
      cases h
      exact continues_forward (fun heq => hother (by rw [← heq]; rfl)) rfl
  | _ => cases h

/-- A call that neither waits nor is over can take its next step, whatever the servers hold. -/
theorem stepCall_isSome (placed : Placed hash σ op (.call s pc) none) (awaits : pc.awaits = none)
    (panicked : pc ≠ .panicked) (undone : ∀ r, pc ≠ .done r) :
    (σ.stepCall hash op s pc).isSome = true := by
  have huser : op.entry ≠ .commit → ∃ u, op.username? = some u := by
    cases op with
    | joinChannel u c | leaveChannel u c | sendMessage c u t => exact fun _ => ⟨u, rfl⟩
    | _ => exact fun h => absurd rfl h
  cases pc with
  | start | pollOwn =>
    simp only [Servers.stepCall]
    split <;> rfl
  | check | commit =>
    simp only [Servers.stepCall]
    split
    · rfl
    · split <;> rfl
  | userStart | userRoute =>
    obtain ⟨u, hu⟩ := huser placed.reached
    simp [Servers.stepCall, hu]
  | userLocal =>
    obtain ⟨u, hu⟩ := huser placed.reached
    simp only [Servers.stepCall, hu, Option.bind_eq_bind, Option.bind_some]
    split <;> rfl
  | applied v =>
    obtain ⟨config, howner, -⟩ := placed.routed rfl
    simp only [Servers.stepCall, howner, Option.bind_eq_bind, Option.bind_some]
    split_ifs <;> rfl
  | route =>
    obtain ⟨config, howner, -⟩ := placed.routed
    simp [Servers.stepCall, howner]
  | poll all peers => cases peers <;> rfl
  | done r => exact absurd rfl (undone r)
  | panicked => exact absurd rfl panicked
  | _ => cases awaits

/-! ## One step of the stack -/

/-- A step leaves the frames below alone, or gives an answer to the first of them. -/
theorem advance_rest (h : Advance hash σ op (f :: rest) σ' stack') :
    (∃ frames, stack' = frames ++ rest) ∨
      ∃ r s pc lower, f = .response r ∧ rest = .call s pc :: lower ∧
        stack' = .call s (pc.resume r) :: lower := by
  cases h with
  | sent => exact Or.inl ⟨[_, _], rfl⟩
  | unheard | unheardRead | unheardReplica => exact Or.inl ⟨[], rfl⟩
  | resumed s pc p r lower => exact Or.inr ⟨r, s, pc, lower, rfl, rfl, rfl⟩
  | _ => exact Or.inl ⟨[_], rfl⟩

/-- An answer that a call can get is one that it takes. -/
theorem resume_ne {r : StateResult Value} (fits : Fits op (.response r) (.call s pc)) :
    pc.resume r ≠ .panicked := by
  cases pc with
  | userAwait p =>
    obtain ⟨found, rfl⟩ := fits
    cases found <;> exact nofun
  | awaitPoll all p peers =>
    obtain ⟨names, rfl⟩ := fits
    exact nofun
  | awaitReplica | awaitForward => exact nofun
  | _ => cases fits

theorem giveUp_ne (awaits : pc.awaits = some p) : pc.giveUp ≠ .panicked := by
  cases pc with
  | userAwait | awaitReplica | awaitForward | awaitPoll => exact nofun
  | _ => cases awaits

theorem advance_continues (h : Advance hash σ op stack σ' stack')
    (computes : σ.advance hash op stack = some (σ', stack')) (continues : Continues s stack)
    (known : Frames (Placed hash σ op) stack) (self : σ.view s s = true)
    (locked : ∀ rest, stack = .call s .commit :: rest → (op.locked (σ.store s)).isSome = true)
    (survives : survives hash σ op stack = true) : Continues s stack' := by
  obtain ⟨upper, pc, rfl, hpc, hwaits⟩ := continues
  cases upper with
  | nil =>
    -- the lowest call itself takes the step
    have hundone : ∀ r, pc ≠ .done r := by
      rintro r rfl
      simp [Servers.advance, Servers.stepCall] at computes
    have hlive := advance_live h
    rw [List.nil_append, advance_call hlive hundone] at computes
    obtain ⟨⟨σ₁, frames⟩, hstep, heq⟩ := Option.map_eq_some_iff.mp computes
    obtain ⟨rfl, rfl⟩ := Prod.mk.inj heq
    rw [List.append_nil]
    exact stepCall_continues hstep self (fun hcommit => locked [] (by rw [hcommit]; rfl)) survives
  | cons f upper =>
    have hawaits := hwaits (List.cons_ne_nil f upper)
    rcases advance_rest h with ⟨frames, rfl⟩ | ⟨r, t, pc', lower, rfl, hrest, rfl⟩
    · exact ⟨frames ++ upper, pc, by simp, hpc, fun _ => hawaits⟩
    · cases upper with
      | nil =>
        obtain ⟨hcall, rfl⟩ := List.cons.inj hrest
        cases hcall
        exact continues_single (resume_ne (known.1.fits _ rfl))
      | cons g upper =>
        obtain ⟨rfl, rfl⟩ := List.cons.inj hrest
        exact ⟨_ :: upper, pc, rfl, hpc, fun _ => hawaits⟩

/-- The lowest frame is the one that is given `None`, or it is below that. -/
theorem lowest_below {upper upper' lower : List Frame} {f g : Frame}
    (h : upper ++ f :: lower = upper' ++ [g]) :
    lower = [] ∧ f = g ∨ ∃ lower', lower = lower' ++ [g] ∧ upper' = upper ++ f :: lower' := by
  rcases List.eq_nil_or_concat lower with rfl | ⟨lower', g', rfl⟩
  · exact Or.inl ⟨rfl, by simpa using (List.append_inj' h rfl).2⟩
  · have hlast : (upper ++ f :: lower') ++ [g'] = upper' ++ [g] := by simpa using h
    obtain ⟨hupper, hg⟩ := List.append_inj' hlast rfl
    obtain rfl : g' = g := by simpa using hg
    exact Or.inr ⟨lower', List.concat_eq_append, hupper.symm⟩

theorem giveUp_continues {t : ServerId} (continues : Continues s (upper ++ .call t pc :: lower))
    (awaits : pc.awaits = some p) : Continues s (.call t pc.giveUp :: lower) := by
  obtain ⟨upper', pc', hstack, hpc', hwaits⟩ := continues
  rcases lowest_below hstack with ⟨rfl, hcall⟩ | ⟨lower', rfl, rfl⟩
  · cases hcall
    exact continues_single (giveUp_ne awaits)
  · exact ⟨.call t pc.giveUp :: lower', pc', by simp, hpc', fun _ => hwaits (by simp)⟩

/-! ## Where the lowest call is -/

theorem advance_top (h : Advance hash σ op (.call s pc :: rest) σ' stack') :
    (∃ upper pc', stack' = upper ++ .call s pc' :: rest) ∨ rest ≠ [] := by
  cases h with
  | responded | unheard => exact Or.inr (List.cons_ne_nil _ _)
  | sent => exact Or.inl ⟨[_], _, rfl⟩
  | _ => exact Or.inl ⟨[], _, rfl⟩

theorem advance_lowest (h : Advance hash σ op (upper ++ [.call s pc]) σ' stack') :
    ∃ upper' pc', stack' = upper' ++ [.call s pc'] := by
  cases upper with
  | nil => exact (advance_top h).resolve_right fun hne => hne rfl
  | cons f upper =>
    rcases advance_rest h with ⟨frames, rfl⟩ | ⟨r, t, pc', lower, -, hrest, rfl⟩
    · exact ⟨frames ++ upper, pc, by simp⟩
    · cases upper with
      | nil =>
        obtain ⟨hcall, rfl⟩ := List.cons.inj hrest
        cases hcall
        exact ⟨[], _, rfl⟩
      | cons g upper =>
        obtain ⟨-, rfl⟩ := List.cons.inj hrest
        exact ⟨_ :: upper, pc, rfl⟩

theorem giveUp_lowest {t : ServerId} {pc' : Pc} {upper' : List Frame}
    (h : upper ++ .call t pc :: lower = upper' ++ [.call s pc']) :
    ∃ upper'' pc'', .call t pc.giveUp :: lower = upper'' ++ [.call s pc''] := by
  rcases lowest_below h with ⟨rfl, hcall⟩ | ⟨lower', rfl, -⟩
  · cases hcall
    exact ⟨[], _, rfl⟩
  · exact ⟨.call t pc.giveUp :: lower', pc', rfl⟩

/-- No server marks itself failed. -/
theorem view_self {policy : Policy} {es : List Event} {w : World} (run : Reaches hash policy es w)
    (s : ServerId) : w.servers.view s s = true := by
  refine run.invariant (P := fun w => w.servers.view s s = true) rfl ?_
  intro w e w' h _ taken
  cases step_cases taken with
  | advanced j pre post σ' stack' jobs advance =>
    exact (congrFun (congrFun (advance_view advance).1 s) s).trans h
  | suspected t p other live =>
    simp only [suspect_view]
    rw [if_neg]
    · exact h
    · rintro ⟨rfl, rfl⟩
      exact other rfl
  | _ => exact h

end MiniDiscord.Cluster
