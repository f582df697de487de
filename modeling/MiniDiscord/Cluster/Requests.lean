import Mathlib.Algebra.GroupWithZero.Nat
import MiniDiscord.Cluster.Routing

/-!
# Counting over all calls

A request is answered at most once. A weight of frames is summed up over all stacks, and each step
changes the sum by what it does to one stack.
-/

namespace MiniDiscord.Cluster

variable {hash : String → ℕ} {w w' : World} {e : Event}

/-! ## At most one answer -/

/-- The request that a job can still answer. -/
def Job.claim (j : Job) : Option ℕ := if j.attached ∧ j.stack ≠ [] then some j.req else none

/-- The requests that were answered or still can be. -/
def World.claimed (w : World) : List ℕ := w.returned.map Reply.req ++ w.jobs.filterMap Job.claim

theorem claimed_replace {pre post : List Job} {j j' : Job}
    (h : j'.claim = none ∨ j'.claim = j.claim) :
    ((pre ++ j' :: post).filterMap Job.claim).Sublist ((pre ++ j :: post).filterMap Job.claim) := by
  simp only [List.filterMap_append]
  refine (List.Sublist.refl _).append ?_
  rcases h with h | h
  · rw [List.filterMap_cons_none h]
    simp only [List.filterMap_cons]
    split
    · exact .refl _
    · exact List.sublist_cons_self _ _
  · simp only [List.filterMap_cons, h]
    exact .refl _

theorem advance_ne_nil {σ σ' : Servers} {op : Op} {stack stack' : List Frame}
    (h : Advance hash σ op stack σ' stack') : stack ≠ [] := by
  cases h <;> exact List.cons_ne_nil _ _

theorem claimed_step (h : Step hash w e w') :
    w'.claimed.Subperm (w.claimed ++ List.range' w.nextReq (w'.nextReq - w.nextReq)) := by
  cases h with
  | submitted s op live => simp [World.claimed, Job.claim, List.Subperm.refl]
  | advanced j pre post σ' stack' jobs advance =>
    have hclaim : ({ j with stack := stack' } : Job).claim = none ∨
        ({ j with stack := stack' } : Job).claim = j.claim := by
      have := advance_ne_nil advance
      by_cases hnil : stack' = [] <;> simp [Job.claim, hnil, this]
    simp only [World.claimed, jobs, Nat.sub_self, List.range'_zero, List.append_nil]
    exact ((List.Sublist.refl _).append (claimed_replace hclaim)).subperm
  | replied j pre post s r jobs stack live attached =>
    have hnone : ({ j with stack := [] } : Job).claim = none := by simp [Job.claim]
    have hsome : j.claim = some j.req := by simp [Job.claim, attached, stack]
    simp only [World.claimed, jobs, Nat.sub_self, List.range'_zero, List.append_nil,
      List.map_append, List.map_cons, List.map_nil, List.filterMap_append,
      List.filterMap_cons_none hnone,
      List.filterMap_cons_some hsome, List.append_assoc, List.singleton_append]
    exact (List.perm_middle.symm.append_left _).subperm
  | gaveUp j pre post s p pc upper lower jobs stack live awaits failed =>
    have hclaim : ({ j with stack := .call s pc.giveUp :: lower } : Job).claim = none ∨
        ({ j with stack := .call s pc.giveUp :: lower } : Job).claim = j.claim := by
      simp [Job.claim, stack]
    have hnone : ({ j with attached := false, stack := upper } : Job).claim = none := by
      simp [Job.claim]
    simp only [World.claimed, jobs, Nat.sub_self, List.range'_zero, List.append_nil,
      List.filterMap_append (l := _ ++ _ :: _), List.filterMap_cons_none hnone, List.filterMap_nil]
    exact ((List.Sublist.refl _).append (claimed_replace hclaim)).subperm
  | hungUp j pre post jobs attached =>
    have hnone : ({ j with attached := false, stack := j.stack.dropLast } : Job).claim = none := by
      simp [Job.claim]
    simp only [World.claimed, jobs, Nat.sub_self, List.range'_zero, List.append_nil]
    exact ((List.Sublist.refl _).append (claimed_replace (Or.inl hnone))).subperm
  | suspected s p other live | crashed s live => simp [World.claimed, List.Subperm.refl]

theorem nextReq_mono (h : Step hash w e w') : w.nextReq ≤ w'.nextReq := by
  cases h <;> simp

theorem claimed_nodup {policy : Policy} {es : List Event} (run : Reaches hash policy es w) :
    w.claimed.Nodup ∧ ∀ r ∈ w.claimed, r < w.nextReq := by
  refine run.invariant (P := fun w => w.claimed.Nodup ∧ ∀ r ∈ w.claimed, r < w.nextReq)
    (by simp [World.claimed, World.init]) ?_
  rintro w e w' ⟨hnodup, hlt⟩ - taken
  have hstep := step_cases taken
  have hsub := claimed_step hstep
  have hmono := nextReq_mono hstep
  constructor
  · obtain ⟨l, hperm, hsub⟩ := hsub
    refine hperm.nodup_iff.mp (List.Nodup.sublist hsub (List.nodup_append'.mpr ?_))
    refine ⟨hnodup, List.nodup_range', ?_⟩
    intro r hr hrange
    have := hlt r hr
    have := (List.mem_range'_1.mp hrange).1
    omega
  · intro r hr
    rcases List.mem_append.mp (hsub.subset hr) with hr | hr
    · have := hlt r hr
      omega
    · have := (List.mem_range'_1.mp hr).2
      omega

theorem answered_once {policy : Policy} {es : List Event} (run : Reaches hash policy es w) :
    (w.returned.map Reply.req).Nodup :=
  (List.nodup_append'.mp (claimed_nodup run).1).1

theorem job_req_lt {policy : Policy} {es : List Event} (run : Reaches hash policy es w) :
    ∀ j ∈ w.jobs, j.req < w.nextReq := by
  refine run.invariant (P := fun w => ∀ j ∈ w.jobs, j.req < w.nextReq) (by simp [World.init]) ?_
  intro w e w' h _ taken
  have hmem : ∀ {pre post : List Job} {j : Job}, w.jobs = pre ++ j :: post →
      (∀ k ∈ pre, k.req < w.nextReq) ∧ j.req < w.nextReq ∧ ∀ k ∈ post, k.req < w.nextReq :=
    fun jobs => by simpa [jobs, or_imp, forall_and] using h
  cases step_cases taken with
  | submitted s op live =>
    intro j hj
    rcases List.mem_append.mp hj with hj | hj
    · exact Nat.lt_succ_of_lt (h j hj)
    · obtain rfl := List.mem_singleton.mp hj
      exact Nat.lt_succ_self _
  | advanced j pre post σ' stack' jobs advance =>
    simpa [or_imp, forall_and] using hmem jobs
  | replied j pre post s r jobs stack live attached =>
    simpa [or_imp, forall_and] using hmem jobs
  | gaveUp j pre post s p pc upper lower jobs stack live awaits failed =>
    obtain ⟨hpre, hj, hpost⟩ := hmem jobs
    simpa [or_imp, forall_and, hj] using ⟨hpre, hpost⟩
  | hungUp j pre post jobs attached => simpa [or_imp, forall_and] using hmem jobs
  | suspected s p other live | crashed s live => exact h

theorem returned_req_lt {policy : Policy} {es : List Event} (run : Reaches hash policy es w) :
    ∀ r ∈ w.returned, r.req < w.nextReq := fun r hr =>
  (claimed_nodup run).2 r.req (List.mem_append_left _ (List.mem_map_of_mem hr))

/-! ## Weights -/

/-- The sum of a weight over the frames of one stack. -/
def weigh (weight : Frame → ℕ) (stack : List Frame) : ℕ := (stack.map weight).sum

/-- The sum over the frames of all stacks. -/
def World.total (weight : ℕ → Op → Frame → ℕ) (w : World) : ℕ :=
  (w.jobs.map fun j => weigh (weight j.req j.op) j.stack).sum

section Weights

variable {weight : ℕ → Op → Frame → ℕ}

@[simp] theorem weigh_nil (f : Frame → ℕ) : weigh f [] = 0 := rfl

@[simp] theorem weigh_cons (f : Frame → ℕ) (frame : Frame) (rest : List Frame) :
    weigh f (frame :: rest) = f frame + weigh f rest := by simp [weigh]

@[simp] theorem weigh_append (f : Frame → ℕ) (upper lower : List Frame) :
    weigh f (upper ++ lower) = weigh f upper + weigh f lower := by simp [weigh]

theorem weigh_dropLast_le (f : Frame → ℕ) (stack : List Frame) :
    weigh f stack.dropLast ≤ weigh f stack := by
  rcases List.eq_nil_or_concat stack with rfl | ⟨upper, frame, rfl⟩
  · exact le_refl _
  · simp

variable {servers : Servers} {n : ℕ} {returned : List Reply} {j j' : Job} {pre post : List Job}

theorem total_replace (jobs : w.jobs = pre ++ j :: post) :
    World.total weight ⟨servers, pre ++ j' :: post, n, returned⟩ +
      weigh (weight j.req j.op) j.stack = w.total weight +
        weigh (weight j'.req j'.op) j'.stack := by
  simp only [World.total, jobs, List.map_append, List.map_cons, List.sum_append, List.sum_cons]
  omega

theorem total_submitted :
    World.total weight ⟨servers, w.jobs ++ [j], n, returned⟩ =
      w.total weight + weigh (weight j.req j.op) j.stack := by
  simp [World.total]

theorem total_gaveUp {f f' : Frame} {upper lower : List Frame} (jobs : w.jobs = pre ++ j :: post)
    (stack : j.stack = upper ++ f :: lower) :
    World.total weight ⟨servers, pre ++ { j with stack := f' :: lower } :: post ++
      [{ j with attached := false, stack := upper }], n, returned⟩ + weight j.req j.op f =
      w.total weight + weight j.req j.op f' := by
  simp only [World.total, jobs, stack, List.map_append, List.map_cons, List.map_nil,
    List.sum_append, List.sum_cons, List.sum_nil, weigh_cons, weigh_append]
  omega

theorem total_hungUp (jobs : w.jobs = pre ++ j :: post) :
    World.total weight ⟨servers, pre ++ { j with attached := false, stack := j.stack.dropLast } ::
      post, n, returned⟩ ≤ w.total weight := by
  refine Nat.le_of_add_le_add_right (b := weigh (weight j.req j.op) j.stack) ?_
  rw [total_replace jobs]
  exact Nat.add_le_add_left (weigh_dropLast_le _ _) _

end Weights

end MiniDiscord.Cluster
