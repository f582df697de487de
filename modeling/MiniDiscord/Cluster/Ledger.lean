import MiniDiscord.Cluster.Requests

/-!
# Which request changed what

A run with a ledger: every step that leaves a store different from what it was is written down,
with the request on whose behalf it was taken.
-/

namespace MiniDiscord.Cluster

open DiscordStateops

/-- One change of one store. -/
structure Change where
  req : ℕ
  server : ServerId
  /-- made by a replicate request -/
  replica : Bool
  old : AppState
  new : AppState
deriving DecidableEq

/-- Whether the step is that of a message. -/
def isMessage : List Frame → Bool
  | .request _ _ :: _ => true
  | _ => false

def recording : Tick (List Change) := fun ledger σ req _ stack σ' =>
  ledger ++ ([.A, .B, .C].filter fun s => σ.store s ≠ σ'.store s).map fun s =>
    ⟨req, s, isMessage stack, σ.store s, σ'.store s⟩

def traced (hash : String → ℕ) : World × List Change → Event → Option (World × List Change) :=
  Run.withHistory (World.step hash) (jobTick recording)

/-- The events lead from the initial world to `w`, and the ledger is what they changed. -/
abbrev Traces (hash : String → ℕ) (ok : World × List Change → Event → Prop) (es : List Event)
    (w : World) (ledger : List Change) : Prop :=
  Run.Exec (traced hash) ok (World.init, []) es (w, ledger)

variable {hash : String → ℕ} {σ σ' : Servers} {req : ℕ} {op : Op} {stack : List Frame}
  {ledger : List Change}

theorem recording_same (h : σ'.store = σ.store) :
    recording ledger σ req op stack σ' = ledger := by
  simp [recording, h]

theorem recording_setStore (s : ServerId) (state : AppState) :
    recording ledger σ req op stack (σ.setStore s state) = ledger ++
      if state = σ.store s then [] else [⟨req, s, isMessage stack, σ.store s, state⟩] := by
  have hchanged : ([.A, .B, .C] : List ServerId).filter
      (fun t => σ.store t ≠ (σ.setStore s state).store t) =
        if state = σ.store s then [] else [s] := by
    by_cases h : state = σ.store s
    · simp [h]
    · cases s <;> simp [Function.update_apply, h, Ne.symm h]
  rw [recording, hchanged]
  split_ifs <;> simp

theorem ledger_req_lt {ok : World × List Change → Event → Prop} {policy : Policy} {es : List Event}
    {w : World} (run : Traces hash ok es w ledger)
    (allowed : ∀ x e, ok x e → policy.allows x.1 e = true) :
    ∀ change ∈ ledger, change.req < w.nextReq := by
  refine run.history (P := fun _ x => ∀ change ∈ x.2, change.req < x.1.nextReq) (by simp) ?_
  rintro es x e x' prefix_run h - taken
  obtain ⟨taken, heq⟩ := Run.withHistory_taken taken
  have hreq := job_req_lt (prefix_run.forget allowed)
  have hmono := nextReq_mono (step_cases taken)
  have hold : ∀ change ∈ x.2, change.req < x'.1.nextReq :=
    fun change hchange => lt_of_lt_of_le (h change hchange) hmono
  rw [heq]
  cases e with
  | advance i =>
    simp only [jobTick]
    cases hj : x.1.jobs[i]? with
    | none => exact hold
    | some j =>
      intro change hchange
      rcases List.mem_append.mp hchange with hchange | hchange
      · exact hold change hchange
      · obtain ⟨s, -, rfl⟩ := List.mem_map.mp hchange
        exact lt_of_lt_of_le (hreq j (List.mem_of_getElem? hj)) hmono
  | _ => exact hold

end MiniDiscord.Cluster
