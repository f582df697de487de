import MiniDiscord.Cluster.Requests
import MiniDiscord.Cluster.SelfForward

/-!
# How long a request can go on

Each call has a rank that its own steps lower. A peer that is marked failed sends calls back to
their start, but each peer is marked only once at each server, and a request is forwarded only to
servers that can forward it less often.
-/

namespace MiniDiscord.Cluster

open DiscordStateops

/-! ## The measure -/

/-- How often an operation can still be forwarded: from the primary never, from the backup only to
the primary. -/
def hops (config : LocationConfig) (s : ServerId) : ℕ :=
  if s = config.primary then 0 else if s = config.backup then 1 else 2

/-- What a request that is forwarded for one of the last `n` times is worth. -/
def hopCost : ℕ → ℕ
  | 0 => 0
  | n + 1 => 4 * hopCost n + 96

def Op.hopCost (hash : String → ℕ) (op : Op) (s : ServerId) : ℕ :=
  match op.owner hash with
  | some config => Cluster.hopCost (hops config s)
  | none => 0

/-- The steps left to a call, if no peer that it sends to fails. A call that waits for a peer marked
failed will start again. -/
def Pc.rank (alive : ServerId → Bool) (c : ℕ) : Pc → ℕ
  | .start => c + 23
  | .check => 15
  | .userStart => 14
  | .userRoute => 12
  | .userAwait p => if alive p then 8 else 15
  | .userLocal => 9
  | .commit => 8
  | .applied _ => 6
  | .awaitReplica _ _ => 3
  | .route => c + 4
  | .awaitForward p => if alive p then 3 else c + 24
  | .pollOwn peers => 4 * peers.length + 4
  | .poll _ peers => 4 * peers.length + 3
  | .awaitPoll _ _ peers => 4 * peers.length + 4
  | .done _ => 2
  | .panicked => 0

/-- The servers that `s` takes to be alive. -/
def Servers.alive (σ : Servers) (s : ServerId) : ℕ := [ServerId.A, .B, .C].countP (σ.view s)

/-- Each peer that is still to be marked failed can cost a call one start. -/
def patience (hash : String → ℕ) (σ : Servers) (op : Op) : Frame → ℕ
  | .call _ .panicked => 0
  | .call s pc => pc.rank (σ.view s) (op.hopCost hash s) + (op.hopCost hash s + 24) * σ.alive s
  | .request p .forwarded => 4 * op.hopCost hash p + 96
  | .request _ _ => 2
  | .response _ => 1

/-- A call that is about to forward finds an owner that is marked alive. -/
def reachesOwner (hash : String → ℕ) (σ : Servers) (op : Op) : List Frame → Bool
  | .call s pc :: _ => (pc.routes hash op).all fun config => σ.view s (σ.location s config)
  | _ => true

variable {hash : String → ℕ} {σ σ' : Servers} {op : Op} {s p dest : ServerId} {pc : Pc}
  {config : LocationConfig} {stack stack' : List Frame} {f : Frame}

/-! ## Hops -/

theorem hopCost_mono : Monotone hopCost :=
  monotone_nat_of_le_succ fun n => by
    rw [hopCost]
    omega

theorem hops_lt (located : Located σ s config dest) (primary : s ≠ config.primary)
    (other : dest ≠ s) : hops config dest < hops config s := by
  unfold hops
  rw [if_neg primary]
  rcases located with ⟨rfl, -⟩ | ⟨rfl, -⟩
  · rw [if_pos rfl]
    split_ifs <;> omega
  · rw [if_neg other.symm, if_pos rfl]
    split_ifs <;> omega

theorem hopCost_owner (owner : op.owner hash = some config) (s : ServerId) :
    op.hopCost hash s = hopCost (hops config s) := by
  rw [Op.hopCost, owner]

/-- A forwarded request is paid for by the hop that it takes. -/
theorem hopCost_forward (owner : op.owner hash = some config) (located : Located σ s config dest)
    (primary : s ≠ config.primary) (other : dest ≠ s) :
    4 * op.hopCost hash dest + 96 ≤ op.hopCost hash s := by
  rw [hopCost_owner owner, hopCost_owner owner]
  exact hopCost_mono (hops_lt located primary other)

/-! ## One frame -/

theorem alive_le (σ : Servers) (s : ServerId) : σ.alive s ≤ 3 := List.countP_le_length

theorem rank_alive (alive alive' : ServerId → Bool) (c : ℕ) (pc : Pc) :
    pc.rank alive' c ≤ pc.rank alive c + (c + 24) := by
  cases pc with
  | userAwait | awaitForward =>
    simp only [Pc.rank]
    split_ifs <;> omega
  | _ => simp only [Pc.rank]; omega

theorem rank_pos (alive : ServerId → Bool) (c : ℕ) (h : pc ≠ .panicked) : 2 ≤ pc.rank alive c := by
  cases pc with
  | panicked => exact absurd rfl h
  | userAwait | awaitForward =>
    simp only [Pc.rank]
    split_ifs <;> omega
  | _ => simp only [Pc.rank]; omega

theorem patience_call (h : pc ≠ .panicked) : patience hash σ op (.call s pc) =
    pc.rank (σ.view s) (op.hopCost hash s) + (op.hopCost hash s + 24) * σ.alive s := by
  cases pc with
  | panicked => exact absurd rfl h
  | _ => rfl

theorem patience_call_le (hash : String → ℕ) (σ : Servers) (op : Op) (s : ServerId) (pc : Pc) :
    patience hash σ op (.call s pc) ≤
    pc.rank (σ.view s) (op.hopCost hash s) + (op.hopCost hash s + 24) * σ.alive s := by
  cases pc with
  | panicked => exact Nat.zero_le _
  | _ => exact le_refl _

theorem patience_view (h : σ'.view = σ.view) : patience hash σ' = patience hash σ := by
  funext op f
  rcases f with ⟨s, pc⟩ | ⟨p, request⟩ | r
  · by_cases hpc : pc = .panicked
    · subst hpc; rfl
    · rw [patience_call hpc, patience_call hpc, Servers.alive, Servers.alive, h]
  · cases request <;> rfl
  · rfl

/-- A call that comes closer to its end. -/
theorem patience_lt {pc' : Pc} (h : pc ≠ .panicked)
    (lower : pc'.rank (σ.view s) (op.hopCost hash s) < pc.rank (σ.view s) (op.hopCost hash s)) :
    patience hash σ op (.call s pc') < patience hash σ op (.call s pc) := by
  have := patience_call_le hash σ op s pc'
  rw [patience_call h]
  omega

/-- A mark that is new leaves one peer less. -/
theorem alive_suspect (h : σ.view s p = true) : (σ.suspect s p).alive s + 1 = σ.alive s := by
  cases p <;> simp [Servers.alive, List.countP_cons, suspect_view, h] <;> omega

theorem suspect_other {t : ServerId} (h : t ≠ s ∨ σ.view s p = false) :
    (σ.suspect s p).view t = σ.view t := by
  funext q
  rw [suspect_view]
  split_ifs with hmark
  · obtain ⟨rfl, rfl⟩ := hmark
    exact (h.resolve_left fun hne => hne rfl).symm
  · rfl

theorem patience_suspect : patience hash (σ.suspect s p) op f ≤ patience hash σ op f := by
  rcases f with ⟨t, pc⟩ | ⟨q, request⟩ | r
  · by_cases hpc : pc = .panicked
    · subst hpc; exact le_refl _
    rw [patience_call hpc, patience_call hpc]
    by_cases hnew : t = s ∧ σ.view s p = true
    · -- the mark pays for a new start
      obtain ⟨rfl, halive⟩ := hnew
      have hrank := rank_alive (σ.view t) ((σ.suspect t p).view t) (op.hopCost hash t) pc
      rw [← alive_suspect halive, Nat.mul_add, Nat.mul_one]
      omega
    · have hsame : (σ.suspect s p).view t = σ.view t :=
        suspect_other (by simpa [or_iff_not_imp_left] using hnew)
      rw [Servers.alive, Servers.alive, hsame]
  · cases request <;> exact le_refl _
  · exact le_refl _

theorem patience_giveUp (awaits : pc.awaits = some p) (failed : σ.view s p = false) :
    patience hash σ op (.call s pc.giveUp) < patience hash σ op (.call s pc) := by
  refine patience_lt (by rintro rfl; cases awaits) ?_
  cases pc with
  | userAwait | awaitForward =>
    cases awaits
    simp [Pc.rank, Pc.giveUp, failed]
  | awaitReplica | awaitPoll => simp [Pc.rank, Pc.giveUp]
  | _ => cases awaits

theorem rank_entry (alive : ServerId → Bool) (c : ℕ) (op : Op) : op.entry.rank alive c ≤ 15 := by
  cases op <;> simp [Op.entry, Pc.rank]

/-- No answer makes a call start again. -/
theorem rank_resume (alive : ServerId → Bool) (c : ℕ) (awaits : pc.awaits = some p)
    (r : StateResult Value) : (pc.resume r).rank alive c ≤ pc.rank alive c := by
  cases pc with
  | awaitReplica => simp [Pc.rank, Pc.resume]
  | awaitForward =>
    simp only [Pc.rank, Pc.resume]
    split_ifs <;> omega
  | userAwait =>
    rcases r with e | v
    · exact Nat.zero_le _
    · rcases v with _ | found | _ | _ | _ | _
      case found =>
        cases found <;> simp only [Pc.rank, Pc.resume] <;> split_ifs <;> omega
      all_goals exact Nat.zero_le _
  | awaitPoll =>
    rcases r with e | v
    · exact Nat.zero_le _
    · cases v with
      | names => simp [Pc.rank, Pc.resume]
      | _ => exact Nat.zero_le _
  | _ => cases awaits

theorem request_pos (request : Request) : 2 ≤ patience hash σ op (.request dest request) := by
  cases request with
  | forwarded => exact le_add_left (by omega)
  | _ => exact le_refl _

/-! ## One step -/

theorem advance_call {rest : List Frame} (live : σ.crashed s = false) (h : ∀ r, pc ≠ .done r) :
    σ.advance hash op (.call s pc :: rest) =
      (σ.stepCall hash op s pc).map fun x => (x.1, x.2 ++ rest) := by
  cases pc with
  | done r => exact absurd rfl (h r)
  | _ => simp [Servers.advance, live, Option.map_eq_bind]

theorem location_of_located (h : Located σ s config dest) : σ.location s config = dest := by
  rcases h with ⟨rfl, halive⟩ | ⟨rfl, hfailed⟩
  · rw [Servers.location, if_pos halive]
  · rw [Servers.location, if_neg (by simp [hfailed])]

theorem stepCall_sends {request : Request} {wait : Pc}
    (sends : Sends hash σ op s pc dest request wait) :
    σ.stepCall hash op s pc = some (σ, [.call s .panicked]) ∨
      σ.stepCall hash op s pc = some (σ, σ.forwardRequestTo s dest request wait) := by
  cases sends with
  | user username dest user located =>
    by_cases hprimary : s = (userOwner hash username).primary
    · exact Or.inl (by simp [Servers.stepCall, user, Servers.forwardRequest, hprimary])
    · rw [← location_of_located located]
      exact Or.inr (by
        simp [Servers.stepCall, user, Servers.forwardRequest, hprimary, Servers.location])
  | replicate v config owner other alive =>
    have halone : ¬ (config.backup = s ∨ σ.view s config.backup = false) := by
      simp [other.symm, alive]
    exact Or.inr (by simp [Servers.stepCall, owner, halone])
  | forward config dest owner located =>
    by_cases hprimary : s = config.primary
    · exact Or.inl (by simp [Servers.stepCall, owner, Servers.forwardRequest, hprimary])
    · rw [← location_of_located located]
      exact Or.inr (by
        simp [Servers.stepCall, owner, Servers.forwardRequest, hprimary, Servers.location])
  | poll all p peers => exact Or.inr rfl

/-- A request is sent to another server: the call panics before it sends one to its own. -/
theorem sent_ne {rest : List Frame} {request : Request} {wait : Pc} (live : σ.crashed s = false)
    (sends : Sends hash σ op s pc dest request wait)
    (computes : σ.advance hash op (.call s pc :: rest) =
      some (σ', .request dest request :: stack')) : dest ≠ s := by
  rintro rfl
  rw [advance_call live (by rintro r rfl; cases sends)] at computes
  rcases stepCall_sends sends with hstep | hstep <;>
    simp [hstep, Servers.forwardRequestTo] at computes

/-- The message and the call that waits for its answer are worth less than the call before. -/
theorem patience_sent {request : Request} {wait : Pc}
    (sends : Sends hash σ op s pc dest request wait) (alive : σ.view s dest = true)
    (known : Routed hash σ op (.call s pc)) (other : dest ≠ s) :
    patience hash σ op (.request dest request) + patience hash σ op (.call s wait) <
      patience hash σ op (.call s pc) := by
  cases sends with
  | user username dest user located =>
    simp only [patience, Pc.rank, alive, if_true]
    omega
  | replicate v config owner =>
    simp only [patience, Pc.rank]
    omega
  | poll all p peers =>
    simp only [patience, Pc.rank, List.length_cons]
    omega
  | forward config dest owner located =>
    obtain ⟨config', howner, hprimary⟩ := known
    obtain rfl := owner_unique owner howner
    have hcost := hopCost_forward owner located hprimary other
    cases hrequest : op.forwardedAs <;> simp only [patience, Pc.rank, alive, if_true] <;> omega

theorem weigh_lt {f f' : Frame} {rest : List Frame} {weight : Frame → ℕ}
    (h : weight f' < weight f) : weigh weight (f' :: rest) < weigh weight (f :: rest) := by
  rw [weigh_cons, weigh_cons]
  exact Nat.add_lt_add_right h _

theorem weigh_drop {rest : List Frame} {weight : Frame → ℕ} (h : 0 < weight f) :
    weigh weight rest < weigh weight (f :: rest) := by
  rw [weigh_cons]
  exact Nat.lt_add_of_pos_left h

/-- Every step of a stack leaves less to be done. -/
theorem advance_patience (h : Advance hash σ op stack σ' stack')
    (computes : σ.advance hash op stack = some (σ', stack'))
    (known : Frames (Placed hash σ op) stack) (reaches : reachesOwner hash σ op stack = true) :
    weigh (patience hash σ' op) stack' < weigh (patience hash σ op) stack := by
  rw [patience_view (advance_view h).1]
  cases h with
  | authority s config rest =>
    refine weigh_lt (patience_lt nofun (lt_of_le_of_lt (rank_entry _ _ op) ?_))
    simp only [Pc.rank]
    omega
  | polls s rest =>
    have : (σ.alivePeers s).length ≤ 3 := List.length_filter_le _ _
    exact weigh_lt (patience_lt nofun (by simp only [Pc.rank]; omega))
  | elsewhere | checked | refused | userAuthority | userElsewhere | userFound | userUnknown
  | rejected | alone | polledOwn | polled =>
    exact weigh_lt (patience_lt nofun (by simp only [Pc.rank]; omega))
  | committed s v state rest =>
    refine weigh_lt (patience_lt nofun ?_)
    split_ifs <;> simp [Pc.rank]
  | sent s pc dest request wait rest live sends alive =>
    have := patience_sent sends alive known.1.routed (sent_ne live sends computes)
    simp only [weigh_cons]
    omega
  | unsent s pc dest request wait rest live sends failed =>
    cases sends with
    | replicate v config owner other alive => rw [alive] at failed; cases failed
    | poll all p peers =>
      refine weigh_lt (patience_lt nofun ?_)
      simp only [Pc.rank, List.length_cons]
      omega
    | user username dest user located =>
      rw [reachesOwner, Pc.routes, user, Option.map_some, Option.all_some,
        location_of_located located, failed] at reaches
      cases reaches
    | forward config dest owner located =>
      rw [reachesOwner, Pc.routes, owner, Option.all_some, location_of_located located, failed]
        at reaches
      cases reaches
  | panic s pc σ' rest =>
    have hpc : pc ≠ .panicked := by
      rintro rfl
      simp [Servers.advance, Servers.stepCall] at computes
    refine weigh_lt ?_
    have := rank_pos (σ.view s) (op.hopCost hash s) hpc
    rw [patience_call hpc, patience]
    omega
  | started s rest =>
    refine weigh_lt ?_
    have := Nat.mul_le_mul_left (op.hopCost hash s + 24) (alive_le σ s)
    simp only [patience, Pc.rank]
    omega
  | handlerPanic s request σ' rest =>
    exact weigh_lt (lt_of_lt_of_le Nat.zero_lt_two (request_pos request))
  | answeredUser | answeredNames | replicated => exact weigh_lt Nat.one_lt_two
  | responded s r caller rest =>
    refine weigh_lt ?_
    simp only [patience, Pc.rank]
    omega
  | unheard s r caller rest =>
    refine weigh_drop ?_
    simp only [patience, Pc.rank]
    omega
  | unheardRead s request rest =>
    exact weigh_drop (lt_of_lt_of_le Nat.zero_lt_two (request_pos request))
  | unheardReplica => exact weigh_drop Nat.zero_lt_two
  | resumed s pc p r rest live awaits =>
    have hpc : pc ≠ .panicked := by rintro rfl; cases awaits
    have hcall := patience_call_le hash σ op s (pc.resume r)
    have hrank := rank_resume (σ.view s) (op.hopCost hash s) awaits r
    have hresponse : patience hash σ op (.response r) = 1 := rfl
    rw [weigh_cons, weigh_cons, weigh_cons, patience_call hpc]
    omega

end MiniDiscord.Cluster
