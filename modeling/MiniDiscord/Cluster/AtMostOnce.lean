import MiniDiscord.Cluster.Acknowledged
import MiniDiscord.Cluster.Budget

/-!
# How often a send takes effect

A server whose forwarded request gets no answer asks again, at the backup. The primary applies a
request no more than once and the backup no more than once, but the backup may get the primary's
message too.
-/

namespace MiniDiscord.Cluster

open DiscordStateops

/-- The messages that one change added to a channel. -/
def Change.added (c : String) (change : Change) : ℤ :=
  (change.new.history c).size - (change.old.history c).size

/-- The messages that the selected changes added to a channel. -/
def added (c : String) (select : Change → Bool) (ledger : List Change) : ℤ :=
  ((ledger.filter select).map (Change.added c)).sum

def isSend (c : String) : Op → Bool
  | .sendMessage c' _ _ => c' = c
  | _ => false

/-- A send is worth one as long as the primary runs and can still apply it. -/
def atPrimary (config : LocationConfig) (c : String) : Budget where
  mine := isSend c
  early crashed _ := (!crashed config.primary).toNat
  asked crashed _ := (!crashed config.primary).toNat
  waits _ _ := 0
  applied _ := 0
  replica := 0
  error := 0
  cost change := if change.server = config.primary then change.added c else 0
  limit := 1

/-- A send is worth one as long as the backup can still apply it itself: when it is on its way to
the primary, the call that waits for the primary may come back to the backup. -/
def atBackup (config : LocationConfig) (c : String) : Budget where
  mine := isSend c
  early _ s := if s = config.primary then 0 else 1
  asked _ p := if p = config.primary then 0 else 1
  waits s p := if s ≠ config.primary ∧ p = config.primary then 1 else 0
  applied _ := 0
  replica := 0
  error := 0
  cost change :=
    if change.server = config.backup ∧ change.replica = false then change.added c else 0
  limit := 1

/-- A send is worth one as long as the primary can still apply it, or its replicate request is to
be handled. -/
def atReplica (config : LocationConfig) (c : String) : Budget where
  mine := isSend c
  early crashed _ := (!crashed config.primary).toNat
  asked crashed _ := (!crashed config.primary).toNat
  waits _ _ := 0
  applied s := if s = config.primary then 1 else 0
  replica := 1
  error := 0
  cost change :=
    if change.server = config.backup ∧ change.replica = true then change.added c else 0
  limit := 1

variable {hash : String → ℕ} {op : Op} {c : String} {st st' : AppState} {r : StateResult Value}
  {σ : Servers} {config : LocationConfig}

theorem isSend_replicated (h : isSend c op = true) : op.replicated = true := by
  cases op <;> first | rfl | cases h

theorem isSend_owner (h : isSend c op = true) (owner : op.owner hash = some config) :
    config = channelOwner hash c := by
  cases op with
  | sendMessage c' u t =>
    obtain rfl : c' = c := of_decide_eq_true h
    exact (Option.some.inj owner).symm
  | _ => cases h

theorem added_effect (h : Effect op st r st') (req : ℕ) (s : ServerId) (replica : Bool) :
    Change.added c ⟨req, s, replica, st, st'⟩ ≤ 1 := by
  by_cases other : ∀ u t, op ≠ .sendMessage c u t
  · simp [Change.added, (effect_history h other).1]
  · push Not at other
    obtain ⟨u, t, rfl⟩ := other
    cases h with
    | refused | read => simp [Change.added]
    | appended _ _ _ id _ ch next found =>
      have hsize := KeySet.size_insert ch.messages ⟨u, t, id⟩
      have hone := Bool.toNat_le (ch.messages.insert ⟨u, t, id⟩).2
      simp only [Change.added, AppState.history, channelOrNew_setChannel, if_true,
        channelOrNew_of_channel found]
      omega

theorem added_other (h : Effect op st r st') (other : isSend c op = false) (req : ℕ) (s : ServerId)
    (replica : Bool) : Change.added c ⟨req, s, replica, st, st'⟩ = 0 := by
  have hother : ∀ u t, op ≠ .sendMessage c u t := by
    rintro u t rfl
    simp [isSend] at other
  simp [Change.added, (effect_history h hother).1]

def Trusted (σ : Servers) (_req : ℕ) (_op : Op) (_stack : List Frame) : Prop := σ.Sound

def Failing (x : World × List Change) (e : Event) : Prop := crashStop.allows x.1 e = true

instance (x : World × List Change) (e : Event) : Decidable (Failing x e) :=
  inferInstanceAs (Decidable (_ = true))

theorem retried_crashed (sound : σ.Sound) {s p : ServerId}
    (route : p = config.primary ∨ p = config.backup ∧ σ.view s config.primary = false)
    (failed : σ.view s p = false) : σ.crashed config.primary = true := by
  rcases route with rfl | ⟨-, hprimary⟩
  · exact sound.marked _ _ failed
  · exact sound.marked _ _ hprimary

theorem charge_le (h : Effect op st r st') (req : ℕ) (s : ServerId) (replica : Bool)
    (charged : Prop)
    [Decidable charged] : (if st' = st then 0 else
      if charged then Change.added c ⟨req, s, replica, st, st'⟩ else 0) ≤
      if charged then (1 : ℤ) else 0 := by
  have := added_effect (c := c) h req s replica
  split_ifs <;> omega

theorem running_crash (σ : Servers) (s t : ServerId) :
    (!(σ.crash s).crashed t).toNat ≤ (!σ.crashed t).toNat := by
  rw [crash_crashed, Function.update_apply]
  split_ifs <;> simp

theorem atPrimary_keeps (c : String) : (atPrimary (channelOwner hash c) c).Keeps hash crashStop
    Failing Trusted where
  allowed _ _ h := h
  known _ _ run _ _ := sound run
  replicated _ := isSend_replicated
  submit crashed s := Bool.toNat_le _
  fair _ _ _ _ _ _ _ _ :=
    ⟨fun _ _ => le_refl _, fun _ _ _ _ _ => le_refl _, fun _ _ => Nat.zero_le _, le_refl _⟩
  commit σ req op config s v state rest _ hmine howner live howns locked := by
    obtain rfl := isSend_owner hmine howner
    have hne := channelOwner_ne hash c
    rcases howns with rfl | ⟨rfl, -⟩
    · simpa [atPrimary, live] using charge_le (locked_effect locked) req _ false True
    · simp [atPrimary, hne.symm]
  replicate σ req op config v r state rest _ hmine howner _ locked := by
    obtain rfl := isSend_owner hmine howner
    have hne := channelOwner_ne hash c
    cases r <;> simp [atPrimary, Budget.weight, hne.symm]
  other req op s replica r st st' hmine h _ := by
    simp [atPrimary, added_other h hmine]
  retry w ledger pre j post upper lower config s p _ sound _ _ hmine howner _ route failed := by
    left
    obtain rfl := isSend_owner hmine howner
    simp [atPrimary, retried_crashed sound route failed]
  crash σ s t _ := ⟨running_crash σ s _, running_crash σ s _⟩

theorem atBackup_keeps (c : String) : (atBackup (channelOwner hash c) c).Keeps hash crashStop
    Failing Trusted where
  allowed _ _ h := h
  known _ _ run _ _ := sound run
  replicated _ := isSend_replicated
  submit crashed s := by
    simp only [atBackup]
    split_ifs <;> simp
  fair σ req op stack config _ hmine howner := by
    obtain rfl := isSend_owner hmine howner
    refine ⟨fun _ _ => le_refl _, fun s p _ hs hp => ?_, fun _ _ => Nat.zero_le _, le_refl _⟩
    simp only [atBackup, hs]
    split_ifs <;> simp_all
  commit σ req op config s v state rest _ hmine howner live howns locked := by
    obtain rfl := isSend_owner hmine howner
    have hne := channelOwner_ne hash c
    rcases howns with rfl | ⟨rfl, -⟩
    · simp [atBackup, hne]
    · simpa [atBackup, hne.symm] using charge_le (locked_effect locked) req _ false True
  replicate σ req op config v r state rest _ hmine howner _ locked := by
    cases r <;> simp [atBackup, Budget.weight]
  other req op s replica r st st' hmine h _ := by
    simp [atBackup, added_other h hmine]
  retry w ledger pre j post upper lower config s p _ sound _ _ hmine howner hs route failed := by
    left
    obtain rfl := isSend_owner hmine howner
    have hp : p = (channelOwner hash c).primary := by
      rcases route with hp | ⟨rfl, hprimary⟩
      · exact hp
      · exact sound.once _ _ (sound.marked _ _ failed) (sound.marked _ _ hprimary)
    simp [atBackup, hs, hp]
  crash σ s t _ := ⟨le_refl _, le_refl _⟩

theorem atReplica_keeps (c : String) : (atReplica (channelOwner hash c) c).Keeps hash crashStop
    Failing Trusted where
  allowed _ _ h := h
  known _ _ run _ _ := sound run
  replicated _ := isSend_replicated
  submit crashed s := Bool.toNat_le _
  fair σ req op stack config _ hmine howner := by
    obtain rfl := isSend_owner hmine howner
    exact ⟨fun _ _ => le_refl _, fun _ _ _ _ _ => le_refl _, fun _ _ => Nat.zero_le _,
      by simp [atReplica]⟩
  commit σ req op config s v state rest _ hmine howner live howns locked := by
    obtain rfl := isSend_owner hmine howner
    have hne := channelOwner_ne hash c
    rcases howns with rfl | ⟨rfl, -⟩
    · simp [atReplica, live]
    · simp [atReplica, hne.symm]
  replicate σ req op config v r state rest _ hmine howner _ locked := by
    obtain rfl := isSend_owner hmine howner
    have hcharge :=
      charge_le (c := c) (replicate_effect locked) req (channelOwner hash c).backup true
      True
    cases r <;> simpa [atReplica, Budget.weight] using hcharge
  other req op s replica r st st' hmine h _ := by
    simp [atReplica, added_other h hmine]
  retry w ledger pre j post upper lower config s p _ sound _ _ hmine howner _ route failed := by
    left
    obtain rfl := isSend_owner hmine howner
    simp [atReplica, retried_crashed sound route failed]
  crash σ s t _ := ⟨running_crash σ s _, running_crash σ s _⟩

/-! ## Sends -/

theorem spent_added {b : Budget} {select : Change → Bool} {req : ℕ}
    (h : ∀ change, b.cost change = if select change then change.added c else 0)
    (ledger : List Change) :
    b.spent req ledger = added c (fun change => change.req = req && select change) ledger := by
  induction ledger with
  | nil => rfl
  | cons change ledger ih =>
    have hcons : b.spent req (change :: ledger) =
        (if change.req = req then if select change then change.added c else 0 else 0) +
          b.spent req ledger := by simp [Budget.spent, h]
    rw [hcons, ih]
    by_cases hreq : change.req = req <;> cases hselect : select change <;>
      simp [added, hreq, hselect]

theorem added_le {b : Budget} {select : Change → Bool} {es : List Event} {w : World}
    {ledger : List Change} (keeps : b.Keeps hash crashStop Failing Trusted) (limit : b.limit = 1)
    (h : ∀ change, b.cost change = if select change then change.added c else 0)
    (run : Traces hash Failing es w ledger) (req : ℕ) :
    added c (fun change => change.req = req && select change) ledger ≤ 1 := by
  have hbalance := keeps.balance_le run req
  rw [Budget.balance, spent_added h, limit] at hbalance
  push_cast at hbalance
  have : 0 ≤ (b.error : ℤ) * b.failures req w.returned :=
    Int.mul_nonneg (Int.natCast_nonneg _) (Int.natCast_nonneg _)
  omega

/-- **How often a send takes effect.** With at most one crash, a send adds no more than one message
at the primary. At the backup it adds no more than one as a replica of what the primary did, and no
more than one when it is retried there. -/
theorem send_effects {es : List Event} {w : World} {ledger : List Change}
    (run : Traces hash Failing es w ledger) (c : String) (req : ℕ) :
    added c (fun change => change.req = req && change.server = (channelOwner hash c).primary)
        ledger ≤ 1 ∧
      added c (fun change => change.req = req &&
        (change.server = (channelOwner hash c).backup && change.replica)) ledger ≤ 1 ∧
      added c (fun change => change.req = req &&
        (change.server = (channelOwner hash c).backup && !change.replica)) ledger ≤ 1 := by
  refine ⟨?_, ?_, ?_⟩
  · exact added_le (atPrimary_keeps c) rfl (fun change => by simp [atPrimary]) run req
  · exact added_le (atReplica_keeps c) rfl (fun change => by simp [atReplica]) run req
  · exact added_le (atBackup_keeps c) rfl (fun change => by simp [atBackup]) run req

/-- `C` forwards a send to `A`, which has it at `B` when it crashes. `C` asks again, at `B`. -/
def askedAgain : List Event :=
  aliceJoins ++ asks .C (.sendMessage "#cs249" "alice" "m0") 2 10 ++
    [.crash .A, .suspect .B .A, .suspect .C .A, .giveUp 2 2] ++ steps 2 12

theorem send_effects_asked_again :
    ∃ w ledger, Traces (fun _ => 0) Failing askedAgain w ledger ∧
      added "#cs249" (fun change => change.req = 2 && (change.server = .B && change.replica))
        ledger ≤ 1 ∧
      added "#cs249" (fun change => change.req = 2 && (change.server = .B && !change.replica))
        ledger ≤ 1 := by
  obtain ⟨⟨w, ledger⟩, run, -⟩ := Run.exec_of_test (fun _ : World × List Change => true)
    (by decide : (Run.run (traced fun _ => 0) Failing (World.init, []) askedAgain).any _ = true)
  exact ⟨w, ledger, run, (send_effects run "#cs249" 2).2⟩

/-- `C` never crashes, and its one request is two messages at `B`. -/
theorem send_applied_twice :
    ∃ w ledger, Traces (fun _ => 0) Failing askedAgain w ledger ∧ w.servers.crashed .C = false ∧
      added "#cs249" (fun change => change.req = 2 && change.server = .B) ledger = 2 ∧
      ((w.servers.store .B).history "#cs249").elems =
        [⟨"alice", "m0", "#cs249-0"⟩, ⟨"alice", "m0", "#cs249-1"⟩] := by
  obtain ⟨⟨w, ledger⟩, run, hw⟩ := Run.exec_of_test
    (fun x : World × List Change => x.1.servers.crashed .C = false ∧
      added "#cs249" (fun change => change.req = 2 && change.server = .B) x.2 = 2 ∧
      ((x.1.servers.store .B).history "#cs249").elems =
        [⟨"alice", "m0", "#cs249-0"⟩, ⟨"alice", "m0", "#cs249-1"⟩])
    (by decide : (Run.run (traced fun _ => 0) Failing (World.init, []) askedAgain).any _ = true)
  exact ⟨w, ledger, run, of_decide_eq_true hw⟩

end MiniDiscord.Cluster
