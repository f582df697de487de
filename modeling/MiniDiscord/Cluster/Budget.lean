import Mathlib.Algebra.Order.BigOperators.Group.List
import Mathlib.Tactic.Ring
import MiniDiscord.Cluster.Ledger

/-!
# The rule for what one request can do

A request starts with a budget, which its calls and messages carry on, and pays for what it
changes and for the errors it is answered with. If no step spends more than it has, then no request
does.
-/

namespace MiniDiscord.Cluster

open DiscordStateops

/-- What the calls and messages of a request are worth, and what its changes and its errors cost.
The worth may depend on which servers have crashed. -/
structure Budget where
  /-- the operations counted -/
  mine : Op → Bool
  /-- a call at `s` up to its commit -/
  early : (ServerId → Bool) → ServerId → ℕ
  /-- a forwarded request to `p` -/
  asked : (ServerId → Bool) → ServerId → ℕ
  /-- a call at `s` that waits for the answer of `p` -/
  waits : ServerId → ServerId → ℕ
  /-- a call at `s` that has committed -/
  applied : ServerId → ℕ
  /-- a replicate request -/
  replica : ℕ
  error : ℕ
  cost : Change → ℤ
  limit : ℕ

/-- Before the commit, and not waiting for an answer to the operation itself. -/
def Pc.early : Pc → Bool
  | .start | .check | .userStart | .userLocal | .userRoute | .userAwait _ | .commit | .route => true
  | _ => false

namespace Budget

def weight (b : Budget) (crashed : ServerId → Bool) : Frame → ℕ
  | .call s (.awaitForward p) => b.waits s p
  | .call s (.applied _) => b.applied s
  | .call _ (.done (.error _)) | .response (.error _) => b.error
  | .call s pc => if pc.early then b.early crashed s else 0
  | .request p .forwarded => b.asked crashed p
  | .request _ (.replicate _) => b.replica
  | _ => 0

/-! ## One stack -/

/-- No step but a commit and a replicate request can cost anything. -/
structure Fair (b : Budget) (σ : Servers) (config : LocationConfig) : Prop where
  started : ∀ s, σ.crashed s = false → b.early σ.crashed s ≤ b.asked σ.crashed s
  forward : ∀ s p, σ.crashed s = false → s ≠ config.primary →
    (p = config.primary ∨ p = config.backup ∧ σ.view s config.primary = false) →
    b.asked σ.crashed p + b.waits s p ≤ b.early σ.crashed s
  refused : ∀ s, σ.crashed s = false → b.error ≤ b.early σ.crashed s
  sent : b.replica ≤ b.applied config.primary

variable {b : Budget} {hash : String → ℕ} {σ σ' : Servers} {req : ℕ} {op : Op}
  {stack stack' : List Frame} {config : LocationConfig} {crashed : ServerId → Bool}

theorem weight_early {s : ServerId} {pc : Pc} (h : pc.early = true) :
    b.weight crashed (.call s pc) = b.early crashed s := by
  cases pc <;> first | rfl | cases h

theorem weight_entry {s : ServerId} : b.weight crashed (.call s op.entry) = b.early crashed s := by
  cases op <;> rfl

theorem weight_response {s : ServerId} {r : StateResult Value} :
    b.weight crashed (.response r) = b.weight crashed (.call s (.done r)) := by
  cases r <;> rfl

theorem weigh_top {f f' : Frame} {rest : List Frame}
    (h : b.weight crashed f' ≤ b.weight crashed f) :
    weigh (b.weight crashed) (f' :: rest) ≤ weigh (b.weight crashed) (f :: rest) := by
  rw [weigh_cons, weigh_cons]
  exact Nat.add_le_add_right h _

theorem weigh_tail {f : Frame} {rest : List Frame} :
    weigh (b.weight crashed) rest ≤ weigh (b.weight crashed) (f :: rest) := by
  rw [weigh_cons]
  exact Nat.le_add_left _ _

theorem weight_giveUp {s p : ServerId} {pc : Pc} (awaits : pc.awaits = some p)
    (h : ¬ ∃ q, pc = .awaitForward q) :
    b.weight crashed (.call s pc.giveUp) = b.weight crashed (.call s pc) := by
  cases pc with
  | awaitForward q => exact absurd ⟨q, rfl⟩ h
  | userAwait | awaitReplica | awaitPoll => rfl
  | _ => cases awaits

/-- An answer gets no heavier on its way. -/
theorem weigh_resume {s p : ServerId} {pc : Pc} {r : StateResult Value} {rest : List Frame}
    {below : Option Frame} (answer : Placed hash σ op (.response r) (some (.call s pc)))
    (waits : Placed hash σ op (.call s pc) below) (awaits : pc.awaits = some p)
    (owned : op.owner hash ≠ none) (refused : b.error ≤ b.early crashed s) :
    weigh (b.weight crashed) (.call s (pc.resume r) :: rest) ≤
      weigh (b.weight crashed) (.response r :: .call s pc :: rest) := by
  cases resume_cases answer awaits with
  | user p found =>
    cases found with
    | true => simp [weight, Pc.early, Pc.resume]
    | false =>
      simp [weight, Pc.early, Pc.resume]
      omega
  | replica | forward =>
    simp only [weigh_cons, Pc.resume, weight_response (s := s)]
    omega
  | poll => exact absurd waits.routed owned

theorem forwardedAs_of_replicated (h : op.replicated = true) : op.forwardedAs = .forwarded := by
  cases op <;> first | rfl | cases h

/-- A step keeps to the budget, or it is a commit, or a replicate request. -/
theorem advance_budget (h : Advance hash σ op stack σ' stack') (known : Known hash σ req op stack)
    (replicated : op.replicated = true) (owner : op.owner hash = some config)
    (fair : b.Fair σ config) :
    (σ'.store = σ.store ∧
        weigh (b.weight σ.crashed) stack' ≤ weigh (b.weight σ.crashed) stack) ∨
      (∃ s v state rest, stack = .call s .commit :: rest ∧ stack' = .call s (.applied v) :: rest ∧
        σ.crashed s = false ∧ σ.Owns config s ∧ op.locked (σ.store s) = some (.ok v, state) ∧
        σ' = σ.setStore s state) ∨
      ∃ v r state rest, stack = .request config.backup (.replicate v) :: rest ∧
        weigh (b.weight σ.crashed) stack' ≤ weigh (b.weight σ.crashed) (.response r :: rest) ∧
        op.replicateLocked v (σ.store config.backup) = some (r, state) ∧
        σ' = σ.setStore config.backup state := by
  have howner : ∀ {config'}, op.owner hash = some config' → config = config' := owner_unique owner
  have hnames : op.owner hash ≠ none := by simp [owner]
  cases h with
  | authority s config' rest live owner auth =>
    exact Or.inl ⟨rfl, weigh_top weight_entry.le⟩
  | elsewhere | checked | userAuthority | userElsewhere | userFound => exact Or.inl ⟨rfl, le_refl _⟩
  | polls s rest live owner => exact absurd owner hnames
  | polledOwn | polled => exact absurd known.1.routed hnames
  | refused s e rest live | userUnknown s username rest live =>
    exact Or.inl ⟨rfl, weigh_top (fair.refused s live)⟩
  | committed s v state rest live locked =>
    obtain ⟨config', howner', howns⟩ := known.1.routed rfl
    obtain rfl := howner howner'
    exact Or.inr (Or.inl ⟨s, v, state, rest, rfl, by simp [replicated], live, howns, locked, rfl⟩)
  | rejected s e state rest live locked =>
    obtain rfl : state = σ.store s := effect_error (locked_effect locked)
    exact Or.inl ⟨by simp, weigh_top (fair.refused s live)⟩
  | alone => exact Or.inl ⟨rfl, weigh_top (Nat.zero_le _)⟩
  | panic s pc σ' rest live poisons | handlerPanic s request σ' rest live poisons =>
    rcases poisons with rfl | ⟨rfl, -⟩ <;> exact Or.inl ⟨rfl, weigh_top (Nat.zero_le _)⟩
  | answeredUser | answeredNames => exact Or.inl ⟨rfl, le_refl _⟩
  | sent s pc dest request wait rest live sends alive =>
    refine Or.inl ⟨rfl, ?_⟩
    cases sends with
    | user => simp [weight, Pc.early]
    | replicate v config' owner' other alive =>
      obtain rfl := howner owner'
      obtain ⟨config', howner', howns⟩ := known.1.routed rfl
      obtain rfl := howner howner'
      obtain rfl : s = config.primary := howns.resolve_right fun hb => other hb.1
      have := fair.sent
      simp [weight, Pc.early]
      omega
    | forward config' dest owner' located =>
      obtain ⟨config'', howner'', hne⟩ := known.1.routed
      obtain rfl := howner owner'
      obtain rfl := howner howner''
      have := fair.forward s dest live hne (located.imp And.left id)
      simp [weight, Pc.early, forwardedAs_of_replicated replicated]
      omega
    | poll => exact absurd known.1.routed hnames
  | unsent s pc dest request wait rest live sends failed =>
    refine Or.inl ⟨rfl, ?_⟩
    cases sends with
    | user => exact le_refl _
    | replicate v config' owner' other alive => simp [failed] at alive
    | forward config' dest owner' located =>
      obtain ⟨config'', howner'', hne⟩ := known.1.routed
      obtain rfl := howner owner'
      obtain rfl := howner howner''
      have := fair.forward s dest live hne (located.imp And.left id)
      simp [weight, Pc.early]
      omega
    | poll => exact absurd known.1.routed hnames
  | started s rest live =>
    exact Or.inl ⟨rfl, weigh_top (fair.started s live)⟩
  | replicated s v r state rest live locked =>
    obtain ⟨config', howner', rfl⟩ := known.1.routed
    obtain rfl := howner howner'
    exact Or.inr (Or.inr ⟨v, r, state, rest, rfl, le_refl _, locked, rfl⟩)
  | responded s r caller rest live =>
    exact Or.inl ⟨rfl, weigh_top (weight_response (s := s)).le⟩
  | unheard | unheardRead => exact Or.inl ⟨rfl, weigh_tail⟩
  | unheardReplica s v r state rest live locked =>
    obtain ⟨config', howner', rfl⟩ := known.1.routed
    obtain rfl := howner howner'
    exact Or.inr (Or.inr ⟨v, r, state, _, rfl, weigh_tail, locked, rfl⟩)
  | resumed s pc p r rest live awaits =>
    exact Or.inl ⟨rfl, weigh_resume known.1 known.2.1 awaits hnames (fair.refused s live)⟩

/-! ## The system -/

/-- The weight of the frames of one request. -/
def own (b : Budget) (req : ℕ) (crashed : ServerId → Bool) (req' : ℕ) (op : Op) : Frame → ℕ :=
  if req' = req ∧ b.mine op = true then b.weight crashed else fun _ => 0

theorem weigh_own {req' : ℕ} : weigh (b.own req crashed req' op) stack =
    if req' = req ∧ b.mine op = true then weigh (b.weight crashed) stack else 0 := by
  unfold own
  split_ifs
  · rfl
  · simp [weigh]

/-- What the calls and messages of a request are worth together. -/
def holdings (b : Budget) (req : ℕ) (w : World) : ℕ := w.total (b.own req w.servers.crashed)

/-- What the changes of a request cost. -/
def spent (b : Budget) (req : ℕ) (ledger : List Change) : ℤ :=
  (ledger.map fun change => if change.req = req then b.cost change else 0).sum

/-- The errors that a request was answered with. -/
def failures (b : Budget) (req : ℕ) (returned : List Reply) : ℕ :=
  returned.countP fun r => r.req = req && b.mine r.op && !r.result.isOk

def balance (b : Budget) (req : ℕ) (w : World) (ledger : List Change) : ℤ :=
  b.holdings req w + b.spent req ledger + b.error * b.failures req w.returned

/-- The obligations. `K` is what is known of every stack in every run. -/
structure Keeps (b : Budget) (hash : String → ℕ) (policy : Policy)
    (ok : World × List Change → Event → Prop) (K : Servers → ℕ → Op → List Frame → Prop) :
    Prop where
  allowed : ∀ x e, ok x e → policy.allows x.1 e = true
  known : ∀ es w, Reaches hash policy es w → ∀ j ∈ w.jobs, K w.servers j.req j.op j.stack
  replicated : ∀ op, b.mine op = true → op.replicated = true
  submit : ∀ crashed s, b.early crashed s ≤ b.limit
  fair : ∀ σ req op stack config, K σ req op stack → b.mine op = true →
    op.owner hash = some config → b.Fair σ config
  commit : ∀ σ req op config s v state rest, K σ req op (.call s .commit :: rest) →
    b.mine op = true → op.owner hash = some config → σ.crashed s = false → σ.Owns config s →
    op.locked (σ.store s) = some (.ok v, state) →
    b.applied s + (if state = σ.store s then 0 else b.cost ⟨req, s, false, σ.store s, state⟩) ≤
      b.early σ.crashed s
  replicate : ∀ σ req op config v r state rest,
    K σ req op (.request config.backup (.replicate v) :: rest) → b.mine op = true →
    op.owner hash = some config →
    policy.advance σ op (.request config.backup (.replicate v) :: rest) = true →
    op.replicateLocked v (σ.store config.backup) = some (r, state) →
    b.weight σ.crashed (.response r) + (if state = σ.store config.backup then 0
      else b.cost ⟨req, config.backup, true, σ.store config.backup, state⟩) ≤ b.replica
  other : ∀ req op s replica r st st', b.mine op = false → Effect op st r st' → st' ≠ st →
    b.cost ⟨req, s, replica, st, st'⟩ = 0
  retry : ∀ w ledger pre j post upper lower config s p,
    ok (w, ledger) (.giveUp pre.length upper.length) → K w.servers j.req j.op j.stack →
    w.jobs = pre ++ j :: post →
    j.stack = upper ++ .call s (.awaitForward p) :: lower → b.mine j.op = true →
    j.op.owner hash = some config → s ≠ config.primary →
    (p = config.primary ∨ p = config.backup ∧ w.servers.view s config.primary = false) →
    w.servers.view s p = false → b.early w.servers.crashed s ≤ b.waits s p ∨
      b.balance j.req w ledger + b.early w.servers.crashed s ≤ b.limit
  crash : ∀ σ s t, policy.crash σ = true →
    b.early (σ.crash s).crashed t ≤ b.early σ.crashed t ∧
      b.asked (σ.crash s).crashed t ≤ b.asked σ.crashed t

variable {policy : Policy} {ok : World × List Change → Event → Prop}
  {K : Servers → ℕ → Op → List Frame → Prop} {w w' : World} {ledger : List Change} {es : List Event}

theorem balance_new (keeps : b.Keeps hash policy ok K) (run : Traces hash ok es w ledger)
    (h : w.nextReq ≤ req) : b.balance req w ledger = 0 := by
  have hrun : Reaches hash policy es w := run.forget keeps.allowed
  have hjobs : b.holdings req w = 0 := by
    refine List.sum_eq_zero fun n hn => ?_
    obtain ⟨j, hj, rfl⟩ := List.mem_map.mp hn
    have := job_req_lt hrun j hj
    have hne : j.req ≠ req := by omega
    rw [weigh_own, if_neg fun h => hne h.1]
  have hspent : b.spent req ledger = 0 := by
    refine List.sum_eq_zero fun n hn => ?_
    obtain ⟨change, hchange, rfl⟩ := List.mem_map.mp hn
    have := ledger_req_lt run keeps.allowed change hchange
    exact if_neg (by omega)
  have hfailures : b.failures req w.returned = 0 := by
    refine List.countP_eq_zero.mpr fun r hr => ?_
    have := returned_req_lt hrun r hr
    have hne : r.req ≠ req := by omega
    simp [hne]
  simp [balance, hjobs, hspent, hfailures]

theorem spent_append (changes : List Change) :
    b.spent req (ledger ++ changes) = b.spent req ledger + b.spent req changes := by
  simp [spent]

theorem spent_recording (req req' : ℕ) (s : ServerId) (state : AppState) :
    b.spent req (recording ledger σ req' op stack (σ.setStore s state)) = b.spent req ledger +
      if req' = req then
        if state = σ.store s then 0
        else b.cost ⟨req', s, isMessage stack, σ.store s, state⟩
      else 0 := by
  rw [recording_setStore, spent_append]
  congr 1
  by_cases hstate : state = σ.store s <;> simp [spent, hstate]

/-- A step of a stack keeps the request that it belongs to within its budget. -/
theorem balance_advance (keeps : b.Keeps hash policy ok K) {j : Job} {pre post : List Job}
    (hK : K w.servers j.req j.op j.stack) (known : Known hash w.servers j.req j.op j.stack)
    (jobs : w.jobs = pre ++ j :: post)
    (allowed : policy.advance w.servers j.op j.stack = true)
    (h : Advance hash w.servers j.op j.stack σ' stack') (req : ℕ) :
    b.balance req ⟨σ', pre ++ { j with stack := stack' } :: post, w.nextReq, w.returned⟩
      (recording ledger w.servers j.req j.op j.stack σ') ≤ b.balance req w ledger := by
  have hcrashed : σ'.crashed = w.servers.crashed := (advance_view h).2
  have htotal :
      b.holdings req ⟨σ', pre ++ { j with stack := stack' } :: post, w.nextReq, w.returned⟩ +
      weigh (b.own req w.servers.crashed j.req j.op) j.stack =
      b.holdings req w + weigh (b.own req w.servers.crashed j.req j.op) stack' := by
    unfold holdings
    rw [hcrashed]
    exact total_replace jobs
  -- what is left to show is about this stack alone
  suffices hstack : (weigh (b.own req w.servers.crashed j.req j.op) stack' : ℤ) +
      b.spent req (recording ledger w.servers j.req j.op j.stack σ') ≤
      weigh (b.own req w.servers.crashed j.req j.op) j.stack + b.spent req ledger by
    simp only [balance]
    omega
  rw [weigh_own, weigh_own]
  by_cases hmine : b.mine j.op = true
  · have hreplicated := keeps.replicated j.op hmine
    obtain ⟨config, howner⟩ : ∃ config, j.op.owner hash = some config := by
      cases hop : j.op <;> first | exact ⟨_, rfl⟩ | simp [hop, Op.replicated] at hreplicated
    have hfair := keeps.fair _ _ _ _ _ hK hmine howner
    rcases advance_budget h known hreplicated howner hfair with ⟨hstore, hle⟩ |
      ⟨s, v, state, rest, heq, rfl, live, howns, locked, rfl⟩ |
      ⟨v, r, state, rest, heq, hle, locked, rfl⟩
    · rw [recording_same hstore]
      split_ifs <;> omega
    · rw [heq] at hK
      have := keeps.commit _ _ _ _ _ _ _ _ hK hmine howner live howns locked
      rw [spent_recording, heq]
      by_cases hreq : j.req = req
      · simp [hreq, hmine, weight, Pc.early, isMessage] at this ⊢
        omega
      · simp [hreq]
    · rw [heq] at allowed hK
      have := keeps.replicate _ _ _ _ _ _ _ _ hK hmine howner allowed locked
      rw [spent_recording, heq]
      by_cases hreq : j.req = req
      · simp [hreq, hmine, weight, isMessage] at this hle ⊢
        omega
      · simp [hreq]
  · have hfree : ∀ {s r state}, Effect j.op (w.servers.store s) r state →
        b.spent req (recording ledger w.servers j.req j.op j.stack (w.servers.setStore s state)) =
          b.spent req ledger := fun {s r state} heffect => by
      rw [spent_recording]
      split_ifs with hreq hstate
      · omega
      · rw [keeps.other _ _ _ _ _ _ _ (by simpa using hmine) heffect hstate]
        omega
      · omega
    rcases advance_store h with hstore | ⟨s, r, st, rest, -, locked, rfl⟩ |
      ⟨s, v, r, st, rest, -, locked, rfl⟩
    · rw [recording_same hstore]
      simp [hmine]
    · rw [hfree (locked_effect locked)]
      simp [hmine]
    · rw [hfree (replicate_effect locked)]
      simp [hmine]

theorem weight_crash (keeps : b.Keeps hash policy ok K) (s : ServerId)
    (h : policy.crash σ = true) (f : Frame) :
    b.weight (σ.crash s).crashed f ≤ b.weight σ.crashed f := by
  rcases f with ⟨t, pc⟩ | ⟨p, request⟩ | r
  · rcases pc.early.eq_false_or_eq_true with hpc | hpc
    · rw [weight_early hpc, weight_early hpc]
      exact (keeps.crash σ s t h).1
    · cases pc with
      | done r => cases r <;> exact le_refl _
      | start | check | userStart | userLocal | userRoute | userAwait | commit | route => cases hpc
      | _ => exact le_refl _
  · cases request with
    | forwarded => exact (keeps.crash σ s p h).2
    | _ => exact le_refl _
  · cases r <;> exact le_refl _

theorem total_le {weight weight' : ℕ → Op → Frame → ℕ}
    (h : ∀ req op f, weight req op f ≤ weight' req op f) : w.total weight ≤ w.total weight' := by
  refine List.sum_le_sum fun j _ => List.sum_le_sum fun f _ => h j.req j.op f

theorem failures_append {r : Reply} {returned : List Reply} :
    b.failures req (returned ++ [r]) = b.failures req returned +
      if r.req = req ∧ b.mine r.op = true ∧ r.result.isOk = false then 1 else 0 := by
  simp [failures, List.countP_append, List.countP_cons, and_assoc]

theorem balance_submitted (keeps : b.Keeps hash policy ok K) (run : Traces hash ok es w ledger)
    (h : b.balance req w ledger ≤ b.limit) (s : ServerId) (op : Op) :
    b.balance req { w with
      jobs := w.jobs ++ [⟨w.nextReq, op, s, true, [.call s .start]⟩], nextReq := w.nextReq + 1 }
      ledger ≤ b.limit := by
  have htotal : b.holdings req { w with
      jobs := w.jobs ++ [⟨w.nextReq, op, s, true, [.call s .start]⟩], nextReq := w.nextReq + 1 } =
      b.holdings req w + weigh (b.own req w.servers.crashed w.nextReq op) [.call s .start] :=
    total_submitted
  by_cases hreq : w.nextReq = req
  · have hnew := balance_new keeps run hreq.le
    have hlimit := keeps.submit w.servers.crashed s
    have hstart : weigh (b.own req w.servers.crashed w.nextReq op) [.call s .start] ≤
        b.early w.servers.crashed s := by
      rw [weigh_own]
      split_ifs
      · simp [weight, Pc.early]
      · exact Nat.zero_le _
    simp only [balance] at hnew ⊢
    omega
  · rw [weigh_own, if_neg fun h => hreq h.1] at htotal
    simp only [balance] at h ⊢
    omega

theorem balance_replied {j : Job} {pre post : List Job} {s : ServerId} {r : StateResult Value}
    (jobs : w.jobs = pre ++ j :: post) (stack : j.stack = [.call s (.done r)]) :
    b.balance req ⟨w.servers, pre ++ { j with stack := [] } :: post, w.nextReq,
      w.returned ++ [⟨j.req, j.op, r⟩]⟩ ledger ≤ b.balance req w ledger := by
  have htotal : b.holdings req
      ⟨w.servers, pre ++ { j with stack := [] } :: post, w.nextReq,
        w.returned ++ [⟨j.req, j.op, r⟩]⟩ +
        weigh (b.own req w.servers.crashed j.req j.op) j.stack = b.holdings req w :=
    total_replace jobs
  have hfailures : b.failures req (w.returned ++ [⟨j.req, j.op, r⟩]) =
      b.failures req w.returned +
        if j.req = req ∧ b.mine j.op = true ∧ r.isOk = false then 1 else 0 := failures_append
  simp only [balance, hfailures]
  rw [stack, weigh_own] at htotal
  by_cases hmine : j.req = req ∧ b.mine j.op = true
  · rw [if_pos hmine] at htotal
    rcases r with e | v
    · have hpay : (b.error : ℤ) * ((b.failures req w.returned + 1 : ℕ) : ℤ) =
          b.error * b.failures req w.returned + b.error := by
        push_cast
        ring
      rw [if_pos ⟨hmine.1, hmine.2, rfl⟩, hpay]
      simp only [weigh_cons, weigh_nil, weight] at htotal
      omega
    · rw [if_neg fun h => Bool.noConfusion h.2.2, Nat.add_zero]
      omega
  · rw [if_neg hmine] at htotal
    rw [if_neg fun h => hmine ⟨h.1, h.2.1⟩]
    simp only [Nat.add_zero] at htotal ⊢
    omega

theorem balance_gaveUp (keeps : b.Keeps hash policy ok K) (run : Traces hash ok es w ledger)
    (h : b.balance req w ledger ≤ b.limit) {j : Job} {pre post : List Job} {s p : ServerId}
    {pc : Pc}
    {upper lower : List Frame} (allowed : ok (w, ledger) (.giveUp pre.length upper.length))
    (jobs : w.jobs = pre ++ j :: post) (stack : j.stack = upper ++ .call s pc :: lower)
    (awaits : pc.awaits = some p) (failed : w.servers.view s p = false) :
    b.balance req ⟨w.servers, pre ++ { j with stack := .call s pc.giveUp :: lower } ::
      post ++ [{ j with attached := false, stack := upper }], w.nextReq, w.returned⟩ ledger ≤
        b.limit := by
  have hrun : Reaches hash policy es w := run.forget keeps.allowed
  have hj : j ∈ w.jobs := by simp [jobs]
  have hknown := Cluster.known es w hrun j hj
  rw [stack] at hknown
  have hplaced := (frames_lower hknown).1
  have htotal : b.holdings req ⟨w.servers, pre ++ { j with stack := .call s pc.giveUp :: lower } ::
      post ++ [{ j with attached := false, stack := upper }], w.nextReq, w.returned⟩ +
        b.own req w.servers.crashed j.req j.op (.call s pc) =
      b.holdings req w + b.own req w.servers.crashed j.req j.op (.call s pc.giveUp) :=
    total_gaveUp jobs stack
  simp only [balance] at h ⊢
  by_cases hmine : j.req = req ∧ b.mine j.op = true
  · obtain ⟨rfl, hmine⟩ := hmine
    by_cases hforward : ∃ q, pc = .awaitForward q
    · -- only a forwarded request is asked again, at what the conditions of the run leave for it
      obtain ⟨q, rfl⟩ := hforward
      obtain rfl : q = p := Option.some.inj awaits
      obtain ⟨config, howner, hne, hq⟩ := hplaced.routed
      have hretry := keeps.retry w ledger pre j post upper lower config s q allowed
        (keeps.known es w hrun j hj) jobs stack hmine howner hne hq failed
      have hwaits : b.own j.req w.servers.crashed j.req j.op (.call s (.awaitForward q)) =
          b.waits s q := by simp [own, hmine, weight]
      have hearly : b.own j.req w.servers.crashed j.req j.op
          (.call s (Pc.awaitForward q).giveUp) = b.early w.servers.crashed s := by
        simp [own, hmine, weight, Pc.giveUp, Pc.early]
      rw [hwaits, hearly] at htotal
      simp only [balance] at hretry
      omega
    · have hsame : b.own j.req w.servers.crashed j.req j.op (.call s pc.giveUp) =
          b.own j.req w.servers.crashed j.req j.op (.call s pc) := by
        simp [own, hmine, weight_giveUp awaits hforward]
      rw [hsame] at htotal
      omega
  · simp only [own, if_neg hmine] at htotal
    omega

/-- **One step.** No request gets over its limit. -/
theorem balance_step (keeps : b.Keeps hash policy ok K) {e : Event}
    (run : Traces hash ok es w ledger) (h : ∀ req, b.balance req w ledger ≤ b.limit)
    (allowed : ok (w, ledger) e) (taken : w.step hash e = some w') (req : ℕ) :
    b.balance req w' (jobTick recording ledger w e w') ≤ b.limit := by
  have hrun : Reaches hash policy es w := run.forget keeps.allowed
  have hallowed := keeps.allowed _ _ allowed
  have hbalance := h req
  cases step_cases taken with
  | submitted s op live => exact balance_submitted keeps run hbalance s op
  | advanced j pre post σ' stack' jobs advance =>
    have hj : j ∈ w.jobs := by simp [jobs]
    have hadvance : policy.advance w.servers j.op j.stack = true := by
      simpa [Policy.allows, jobs] using hallowed
    have hle : _ ≤ b.balance req w ledger :=
      balance_advance keeps (keeps.known es w hrun j hj) (Cluster.known es w hrun j hj) jobs
        hadvance
        advance req
    simpa [jobTick, jobs] using hle.trans hbalance
  | replied j pre post s r jobs stack live attached =>
    have hledger : jobTick recording ledger w (.advance pre.length)
        ⟨w.servers, pre ++ { j with stack := [] } :: post, w.nextReq,
          w.returned ++ [⟨j.req, j.op, r⟩]⟩ = ledger := by
      simp [jobTick, jobs, recording_same]
    rw [hledger]
    exact (balance_replied jobs stack).trans hbalance
  | gaveUp j pre post s p pc upper lower jobs stack live awaits failed =>
    exact balance_gaveUp keeps run hbalance allowed jobs stack awaits failed
  | hungUp j pre post jobs attached =>
    have htotal : b.holdings req { w with
        jobs := pre ++ { j with attached := false, stack := j.stack.dropLast } :: post } ≤
        b.holdings req w := total_hungUp jobs
    simp only [balance, jobTick] at hbalance ⊢
    omega
  | suspected s p other live => exact hbalance
  | crashed s live =>
    have htotal : b.holdings req { w with servers := w.servers.crash s } ≤ b.holdings req w := by
      refine total_le fun req' op f => ?_
      unfold own
      split_ifs
      · exact weight_crash keeps s hallowed f
      · exact le_refl _
    simp only [balance, jobTick] at hbalance ⊢
    omega

/-- **The rule.** No request of any run gets over its limit. -/
theorem Keeps.balance_le (keeps : b.Keeps hash policy ok K) (run : Traces hash ok es w ledger)
    (req : ℕ) : b.balance req w ledger ≤ b.limit := by
  have hrun := run.history (P := fun _ x => ∀ req, b.balance req x.1 x.2 ≤ b.limit)
    (fun req => by simp [balance, holdings, spent, failures, World.total, World.init])
    fun es x e x' prefix_run h allowed taken => by
      obtain ⟨taken, heq⟩ := Run.withHistory_taken taken
      rw [heq]
      exact balance_step keeps prefix_run h allowed taken
  exact hrun req

end Budget

end MiniDiscord.Cluster
