import MiniDiscord.Cluster.Routing

/-!
# What a replicate request meets at the backup

A backup rejects a replicated join of a member, a replicated leave of somebody else, and a user it
already has. Nothing else makes it answer with an error.
-/

namespace MiniDiscord.Cluster

open DiscordStateops

/-! ## Names are checked before a change is replicated -/

/-- The checks of names that an operation passes before it changes anything. -/
def Op.named : Op → Bool
  | .createUser u => u ≠ ""
  | .joinChannel _ c | .leaveChannel _ c | .sendMessage c _ _ => channelNameIsValid c
  | _ => true

/-- The names have been checked by an operation that got this far. -/
def Checked (op : Op) : Frame → Prop
  | .call _ .userStart | .call _ .userLocal | .call _ .userRoute | .call _ (.userAwait _)
  | .call _ .commit => op.entry = .check → op.named = true
  | .call _ (.applied _) | .request _ (.replicate _) => op.named = true
  | _ => True

def checking : Inv Unit where
  servers _ _ := True
  frame _ _ _ op f _ := Checked op f
  reply _ _ _ := True

variable {hash : String → ℕ} {σ σ' : Servers} {op : Op} {st st' : AppState} {v : Value}
  {r : StateResult Value}

theorem checks_named (h : op.checks st = .ok ()) : op.entry = .check → op.named = true := by
  intro hentry
  cases op with
  | leaveChannel | sendMessage => exact (checkChannel_ok.mp h).1
  | _ => cases hentry

theorem locked_named (checked : op.entry = .check → op.named = true)
    (replicated : op.replicated = true) (h : op.locked st = some (.ok v, st')) :
    op.named = true := by
  cases op with
  | createUser u =>
    by_contra hempty
    obtain rfl : u = "" := by simpa [Op.named] using hempty
    cases h
  | joinChannel u c =>
    cases locked_effect h with
    | read _ _ _ reads => cases reads
    | joined _ _ _ valid new => exact valid
  | leaveChannel | sendMessage => exact checked rfl
  | _ => cases replicated

theorem checked_sent {s dest : ServerId} {pc wait : Pc} {request : Request}
    (sends : Sends hash σ op s pc dest request wait) (h : Checked op (.call s pc)) :
    Checked op (.request dest request) ∧ Checked op (.call s wait) := by
  cases sends with
  | user | poll => exact ⟨trivial, h⟩
  | replicate => exact ⟨h, trivial⟩
  | forward => cases op <;> exact ⟨trivial, trivial⟩

theorem checking_carries : checking.Carries () σ () σ' :=
  ⟨trivial, fun _ _ _ _ h => h, fun _ _ => trivial⟩

theorem checking_preserved : checking.Preserved hash anyFailure noTick (Known hash) where
  still _ _ _ _ _ _ := rfl
  weaken _ _ _ _ _ _ h := h
  submit _ _ _ _ _ _ := trivial
  reply _ _ _ _ _ _ _ _ _ := trivial
  giveUp g σ req op s pc p upper lower _ _ _ awaits _ h := by
    cases pc with
    | userAwait => exact h
    | awaitReplica | awaitForward | awaitPoll => trivial
    | _ => cases awaits
  suspect _ _ _ _ _ _ _ := checking_carries
  crash _ _ _ _ _ := checking_carries
  advance g σ req op stack σ' stack' _ hs known _ h := by
    refine ⟨checking_carries, ?_⟩
    cases h with
    | authority s config rest live owner auth =>
      refine ⟨?_, hs.2⟩
      cases op <;> first | trivial | exact nofun
    | checked s rest live checks => exact ⟨checks_named checks, hs.2⟩
    | userAuthority | userElsewhere | userFound => exact ⟨hs.1, hs.2⟩
    | committed s v state rest live locked =>
      refine ⟨?_, hs.2⟩
      split_ifs with hreplicated
      · exact locked_named hs.1 hreplicated locked
      · trivial
    | sent s pc dest request wait rest live sends alive =>
      exact ⟨(checked_sent sends hs.1).1, (checked_sent sends hs.1).2, hs.2⟩
    | unsent s pc dest request wait rest live sends failed =>
      exact ⟨(checked_sent sends hs.1).2, hs.2⟩
    | resumed s pc p r rest live awaits =>
      refine ⟨?_, hs.2.2⟩
      cases resume_cases known.1 awaits with
      | user p found =>
        cases found with
        | true => exact hs.2.1
        | false => trivial
      | replica | forward | poll => trivial
    | unheard | unheardRead | unheardReplica => exact hs.2
    | responded | replicated => exact ⟨trivial, hs.2⟩
    | _ => exact ⟨trivial, hs.2⟩

/-- The names of every replicated operation have been checked. -/
theorem checked {policy : Policy} {es : List Event} {w : World} (run : Reaches hash policy es w) :
    ∀ j ∈ w.jobs, Frames (fun f _ => Checked j.op f) j.stack :=
  (checking_preserved.holds_init (g := ()) known trivial (reaches_any run)).jobs

/-! ## Requests that are accepted -/

/-- A replicated join finds the user absent, and a replicated leave finds it present. -/
def inOrder (σ : Servers) (op : Op) (stack : List Frame) : Bool :=
  match op, stack with
  | .joinChannel u c, .request s (.replicate _) :: _ => u ∉ (σ.store s).members c
  | .leaveChannel u c, .request s (.replicate _) :: _ => u ∈ (σ.store s).members c
  | _, _ => true

theorem replicate_ok {s : ServerId} {rest : List Frame} (named : op.named = true)
    (order : inOrder σ op (.request s (.replicate v) :: rest) = true)
    (new : ∀ u, op = .createUser u → u ∉ (σ.store s).users)
    (h : op.replicateLocked v (σ.store s) = some (r, st')) : ∃ v', r = .ok v' := by
  cases op with
  | createUser u =>
    have hnonempty : u ≠ "" := by simpa [Op.named] using named
    have hlocked : (createUser u (σ.store s)).1 = .ok () := by
      simp [createUser, hnonempty, new u rfl]
    simp only [Op.replicateLocked, hlocked] at h
    cases h
    exact ⟨.unit, rfl⟩
  | joinChannel u c =>
    have habsent : u ∉ ((σ.store s).channelOrNew c).users := of_decide_eq_true order
    have hvalid : channelNameIsValid c = true := named
    have hlocked : (joinChannel u c (fun _ => true) (σ.store s)).1 = .ok () := by
      simp [joinChannel, joinChannelLocked, orInsert_snd, hvalid, habsent]
    simp only [Op.replicateLocked, hlocked] at h
    cases h
    exact ⟨.unit, rfl⟩
  | leaveChannel u c =>
    have hmember : u ∈ (σ.store s).members c := of_decide_eq_true order
    have hvalid : channelNameIsValid c = true := named
    cases hfound : (σ.store s).channel c with
    | none => simp [AppState.members, AppState.channelOrNew, hfound, Channel.new] at hmember
    | some ch =>
      rw [AppState.members, channelOrNew_of_channel hfound] at hmember
      have hchecks : checkChannel c (σ.store s) = .ok () := checkChannel_ok.mpr ⟨hvalid, ch, hfound⟩
      simp only [Op.replicateLocked, leaveChannel, hchecks, leaveChannelLocked, hfound, hmember,
        not_true_eq_false, if_false, Bool.not_true, Bool.false_eq_true, Option.map_some] at h
      cases h
      exact ⟨.unit, rfl⟩
  | sendMessage c u t =>
    obtain ⟨id, ch, -, hr, -, -⟩ := replicate_send h
    exact ⟨v, hr⟩
  | _ => cases v <;> cases h

end MiniDiscord.Cluster
