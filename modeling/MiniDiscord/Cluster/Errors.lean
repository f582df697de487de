import MiniDiscord.Cluster.Budget
import MiniDiscord.Cluster.Replicas

/-!
# What an error says

The primary changes its store first and answers with what the backup said, so an error does not
mean that nothing happened. It does when every backup accepts what it is sent, and when no request
is retried that may have been applied.
-/

namespace MiniDiscord.Cluster

open DiscordStateops

/-- The backup has room for the replicated change. -/
def accepted (σ : Servers) (op : Op) (stack : List Frame) : Bool :=
  inOrder σ op stack && match op, stack with
    | .createUser u, .request s (.replicate _) :: _ => u ∉ (σ.store s).users
    | _, _ => true

/-- A request is worth one as long as a server that runs can still apply it or reject it. Applying
it costs one, and so does an error. -/
def attempts : Budget where
  mine := Op.replicated
  early crashed s := (!crashed s).toNat
  asked crashed p := (!crashed p).toNat
  waits _ _ := 0
  applied _ := 0
  replica := 0
  error := 1
  cost change := if change.replica then 0 else 1
  limit := 1

/-- Each change of a primary pays for one replica of it. -/
def copies : Budget where
  mine := Op.replicated
  early _ _ := 0
  asked _ _ := 0
  waits _ _ := 0
  applied _ := 1
  replica := 1
  error := 0
  cost change := if change.replica then 1 else -1
  limit := 0

/-- A running server may still apply the request by this call or message, or it is an error that is
still to be told. -/
def Frame.undecided (crashed : ServerId → Bool) : Frame → Bool
  | .call _ (.done (.error _)) | .response (.error _) => true
  | .call s pc => pc.early && !crashed s
  | .request p .forwarded => !crashed p
  | _ => false

/-- The request has changed no store and was not answered, and nothing of it is left that may change
one or tell an error. -/
def Unmade (x : World × List Change) (req : ℕ) : Prop :=
  (∀ j ∈ x.1.jobs, j.req = req → ∀ f ∈ j.stack, f.undecided x.1.servers.crashed = false) ∧
    (∀ change ∈ x.2, change.req ≠ req) ∧ ∀ r ∈ x.1.returned, r.req ≠ req

instance (x : World × List Change) (req : ℕ) : Decidable (Unmade x req) :=
  inferInstanceAs (Decidable (_ ∧ _ ∧ _))

/-- A forwarded request that may change something is retried only as if it were new. -/
def retriesFresh (x : World × List Change) : Event → Bool
  | .giveUp i k => (x.1.jobs[i]?).all fun j => match j.stack.drop k with
    | .call _ (.awaitForward _) :: _ => !j.op.replicated || Unmade x j.req
    | _ => true
  | _ => true

variable {hash : String → ℕ} {op : Op} {st st' : AppState} {v : Value}

theorem effect_ne (h : Effect op st (.ok v) st') (replicated : op.replicated = true)
    (other : ∀ c u t, op ≠ .sendMessage c u t) : st' ≠ st := by
  intro heq
  cases h with
  | read _ _ _ reads => simp [reads] at replicated
  | created u _ new =>
    have husers : insert u st.users = st.users := congrArg AppState.users heq
    exact new (husers ▸ Finset.mem_insert_self u _)
  | joined u c _ valid new =>
    have hmembers := congrArg (AppState.members · c) heq
    simp only [AppState.members, channelOrNew_setChannel, if_true] at hmembers new
    exact new (hmembers ▸ Finset.mem_insert_self u _)
  | left u c _ ch found member =>
    have hmembers := congrArg (AppState.members · c) heq
    simp only [AppState.members, channelOrNew_setChannel, if_true,
      channelOrNew_of_channel found] at hmembers
    exact Finset.notMem_erase u ch.users (by rw [hmembers]; exact member)
  | appended c u t => exact other c u t rfl

theorem locked_ne (replicated : op.replicated = true) (h : op.locked st = some (.ok v, st')) :
    st' ≠ st := by
  by_cases other : ∀ c u t, op ≠ .sendMessage c u t
  · exact effect_ne (locked_effect h) replicated other
  · push Not at other
    obtain ⟨c, u, t, rfl⟩ := other
    rintro rfl
    have := (locked_send_nextId h).2
    omega

/-! ## The two budgets -/

/-- What a run of this section may do. -/
def Careful (x : World × List Change) (e : Event) : Prop :=
  (anyFailure.where' accepted).allows x.1 e = true ∧ retriesFresh x e = true

instance (x : World × List Change) (e : Event) : Decidable (Careful x e) :=
  inferInstanceAs (Decidable (_ ∧ _))

/-- The names of a replicated operation have been checked. -/
def NamesChecked (_σ : Servers) (_req : ℕ) (op : Op) (stack : List Frame) : Prop :=
  Frames (fun f _ => Checked op f) stack

theorem replicate_accepted {σ : Servers} {req : ℕ} {s : ServerId} {rest : List Frame}
    {r : StateResult Value} (names : NamesChecked σ req op (.request s (.replicate v) :: rest))
    (allowed : accepted σ op (.request s (.replicate v) :: rest) = true)
    (h : op.replicateLocked v (σ.store s) = some (r, st)) : ∃ v', r = .ok v' := by
  obtain ⟨horder, hnew⟩ := Bool.and_eq_true_iff.mp allowed
  refine replicate_ok names.1 horder ?_ h
  rintro u rfl
  exact of_decide_eq_true hnew

theorem attempts_decided {crashed : ServerId → Bool} {f : Frame}
    (h : f.undecided crashed = false) : attempts.weight crashed f = 0 := by
  rcases f with ⟨s, pc⟩ | ⟨p, request⟩ | r
  · cases pc with
    | done r =>
      rcases r with e | v
      · cases h
      · rfl
    | start | check | userStart | userLocal | userRoute | userAwait | commit | route =>
      exact congrArg Bool.toNat h
    | _ => rfl
  · cases request with
    | forwarded => exact congrArg Bool.toNat h
    | _ => rfl
  · rcases r with e | v
    · cases h
    · rfl

theorem attempts_unmade {w : World} {ledger : List Change} {req : ℕ} (h : Unmade (w, ledger) req) :
    attempts.holdings req w = 0 := by
  refine List.sum_eq_zero fun n hn => ?_
  obtain ⟨j, hj, rfl⟩ := List.mem_map.mp hn
  rw [Budget.weigh_own]
  split_ifs with hown
  · refine List.sum_eq_zero fun n hn => ?_
    obtain ⟨f, hf, rfl⟩ := List.mem_map.mp hn
    exact attempts_decided (h.1 j hj hown.1 f hf)
  · rfl

theorem retried_fresh {w : World} {ledger : List Change} {pre post : List Job} {j : Job}
    {upper lower : List Frame} {s p : ServerId} (jobs : w.jobs = pre ++ j :: post)
    (stack : j.stack = upper ++ .call s (.awaitForward p) :: lower)
    (replicated : j.op.replicated = true)
    (h : retriesFresh (w, ledger) (.giveUp pre.length upper.length) = true) :
    attempts.balance j.req w ledger = 0 := by
  simp only [retriesFresh, jobs, List.getElem?_append_right (le_refl _), Nat.sub_self,
    List.getElem?_cons_zero, Option.all_some, stack, List.drop_left, replicated, Bool.not_true,
    Bool.false_or, decide_eq_true_eq] at h
  have hholdings := attempts_unmade h
  obtain ⟨-, hledger, hreturned⟩ := h
  have hspent : attempts.spent j.req ledger = 0 := by
    refine List.sum_eq_zero fun n hn => ?_
    obtain ⟨change, hchange, rfl⟩ := List.mem_map.mp hn
    exact if_neg (hledger change hchange)
  have hfailures : attempts.failures j.req w.returned = 0 := by
    refine List.countP_eq_zero.mpr fun r hr => ?_
    simp [hreturned r hr]
  simp [Budget.balance, hholdings, hspent, hfailures]

theorem attempts_keeps :
    attempts.Keeps hash (anyFailure.where' accepted) Careful NamesChecked where
  allowed _ _ h := h.1
  known _ _ run := checked run
  replicated _ h := h
  submit crashed s := by
    show (!crashed s).toNat ≤ 1
    cases crashed s <;> simp
  fair σ req op stack config _ _ _ := by
    refine ⟨fun _ _ => le_refl _, fun s p live _ _ => ?_, fun s live => ?_, le_refl _⟩
    · show (!σ.crashed p).toNat + 0 ≤ (!σ.crashed s).toNat
      rw [live]
      cases σ.crashed p <;> simp
    · show 1 ≤ (!σ.crashed s).toNat
      simp [live]
  commit σ req op config s v state rest _ hmine _ live _ locked := by
    rw [if_neg (locked_ne hmine locked)]
    simp [attempts, live]
  replicate σ req op config v r state rest names _ _ allowed locked := by
    obtain ⟨v', rfl⟩ :=
      replicate_accepted names (by simpa [Policy.where', anyFailure] using allowed) locked
    split_ifs <;> simp [attempts, Budget.weight]
  other req op s replica r st st' hmine h hne := by
    cases h with
    | refused => exact absurd rfl hne
    | read => exact absurd rfl hne
    | created | joined | left | appended => cases hmine
  retry w ledger pre j post upper lower config s p allowed _ jobs stack hmine _ _ _ _ := by
    right
    rw [retried_fresh jobs stack hmine allowed.2]
    show (0 : ℤ) + ((!w.servers.crashed s).toNat : ℤ) ≤ 1
    cases w.servers.crashed s <;> simp
  crash σ s t _ := by
    show (!(σ.crash s).crashed t).toNat ≤ (!σ.crashed t).toNat ∧
      (!(σ.crash s).crashed t).toNat ≤ (!σ.crashed t).toNat
    rw [crash_crashed, Function.update_apply]
    split_ifs <;> simp

theorem copies_keeps : copies.Keeps hash (anyFailure.where' accepted) Careful NamesChecked where
  allowed _ _ h := h.1
  known _ _ run := checked run
  replicated _ h := h
  submit _ _ := le_refl _
  fair _ _ _ _ _ _ _ _ :=
    ⟨fun _ _ => le_refl _, fun _ _ _ _ _ => le_refl _, fun _ _ => le_refl _, le_refl _⟩
  commit σ req op config s v state rest _ hmine _ live _ locked := by
    rw [if_neg (locked_ne hmine locked)]
    simp [copies]
  replicate σ req op config v r state rest names _ _ allowed locked := by
    split_ifs <;> cases r <;> simp [copies, Budget.weight]
  other req op s replica r st st' hmine h hne := by
    cases h with
    | refused => exact absurd rfl hne
    | read => exact absurd rfl hne
    | created | joined | left | appended => cases hmine
  retry _ _ _ _ _ _ _ _ _ _ _ _ _ _ _ _ _ _ _ := Or.inl (le_refl _)
  crash _ _ _ _ := ⟨le_refl _, le_refl _⟩

/-! ## Errors -/

theorem spent_attempts (req : ℕ) (ledger : List Change) : attempts.spent req ledger =
    ledger.countP fun change => change.req = req && !change.replica := by
  induction ledger with
  | nil => rfl
  | cons change ledger ih =>
    have hcons : attempts.spent req (change :: ledger) =
        (if change.req = req then if change.replica then 0 else 1 else 0) +
          attempts.spent req ledger := by simp [Budget.spent, attempts]
    rw [hcons, ih, List.countP_cons]
    by_cases hreq : change.req = req <;> cases change.replica <;> simp [hreq, add_comm]

theorem spent_copies (req : ℕ) (ledger : List Change) : copies.spent req ledger =
    (ledger.countP fun change => change.req = req && change.replica : ℤ) -
      ledger.countP fun change => change.req = req && !change.replica := by
  induction ledger with
  | nil => rfl
  | cons change ledger ih =>
    have hcons : copies.spent req (change :: ledger) =
        (if change.req = req then if change.replica then 1 else -1 else 0) +
          copies.spent req ledger := by simp [Budget.spent, copies]
    rw [hcons, ih, List.countP_cons, List.countP_cons]
    by_cases hreq : change.req = req <;> cases change.replica <;> simp [hreq]
    all_goals omega

/-- **An error means nothing happened.** Let every replicate request that is handled be accepted,
and let no forwarded request be retried that may have been applied. Then a request that is answered
with an error has changed no store. -/
theorem error_changes_nothing {es : List Event} {w : World} {ledger : List Change}
    (run : Traces hash Careful es w ledger) :
    ∀ r ∈ w.returned, r.op.replicated = true → (∃ e, r.result = .error e) →
      ∀ change ∈ ledger, change.req ≠ r.req := by
  rintro r hr hreplicated ⟨e, he⟩ change hchange hreq
  have hattempts : _ ≤ (1 : ℤ) := attempts_keeps.balance_le run r.req
  have hcopies : _ ≤ (0 : ℤ) := copies_keeps.balance_le run r.req
  have hfailed : 0 < attempts.failures r.req w.returned :=
    List.countP_pos_iff.mpr ⟨r, hr, by simp [attempts, hreplicated, he, Except.isOk, Except.toBool]⟩
  have hone : attempts.error = 1 := rfl
  rw [Budget.balance, spent_attempts, hone] at hattempts
  rw [Budget.balance, spent_copies] at hcopies
  have hown : ledger.countP (fun change => change.req = r.req && !change.replica) = 0 := by omega
  have hreplica : ledger.countP (fun change => change.req = r.req && change.replica) = 0 := by
    have hzero : copies.error = 0 := rfl
    rw [hzero] at hcopies
    omega
  have h₁ := List.countP_eq_zero.mp hown change hchange
  have h₂ := List.countP_eq_zero.mp hreplica change hchange
  simp_all

/-- `bob` was never created, and joins `#cs249` at `A`. -/
def unknownJoin : List Event := asks .A (.joinChannel "bob" "#cs249") 0 4

theorem error_changes_nothing_unknown :
    ∃ w ledger, Traces (fun _ => 0) Careful unknownJoin w ledger ∧
      ⟨0, .joinChannel "bob" "#cs249", .error unknownUser⟩ ∈ w.returned ∧
      ∀ change ∈ ledger, change.req ≠ 0 := by
  obtain ⟨⟨w, ledger⟩, run, hw⟩ := Run.exec_of_test
    (fun x : World × List Change =>
      ⟨0, .joinChannel "bob" "#cs249", .error unknownUser⟩ ∈ x.1.returned)
    (by decide : (Run.run (traced fun _ => 0) Careful (World.init, []) unknownJoin).any _ = true)
  have hreply := of_decide_eq_true hw
  exact ⟨w, ledger, run, hreply, error_changes_nothing run _ hreply rfl ⟨_, rfl⟩⟩

/-- `alice` leaves and joins again, and the second replica overtakes the first. -/
def overtaken : List Event :=
  aliceJoins ++ asks .A (.leaveChannel "alice" "#cs249") 2 6 ++
    asks .A (.joinChannel "alice" "#cs249") 3 8

/-- The join is answered with an error, and `alice` is in the channel. -/
theorem error_after_change :
    ∃ w ledger,
      Traces (fun _ => 0) (fun x e => failureFree.allows x.1 e = true) overtaken w ledger ∧
      ⟨3, .joinChannel "alice" "#cs249", .error alreadyMember⟩ ∈ w.returned ∧
      ∃ change ∈ ledger, change.req = 3 ∧ change.server = .A ∧
        "alice" ∉ change.old.members "#cs249" ∧ "alice" ∈ change.new.members "#cs249" := by
  obtain ⟨⟨w, ledger⟩, run, hw⟩ := Run.exec_of_test
    (fun x : World × List Change =>
      ⟨3, .joinChannel "alice" "#cs249", .error alreadyMember⟩ ∈ x.1.returned ∧
      ∃ change ∈ x.2, change.req = 3 ∧ change.server = .A ∧
        "alice" ∉ change.old.members "#cs249" ∧ "alice" ∈ change.new.members "#cs249")
    (by decide : (Run.run (traced fun _ => 0) (fun x e => failureFree.allows x.1 e = true)
      (World.init, []) overtaken).any _ = true)
  exact ⟨w, ledger, run, of_decide_eq_true hw⟩

end MiniDiscord.Cluster
