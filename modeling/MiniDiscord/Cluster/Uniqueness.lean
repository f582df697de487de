import MiniDiscord.Cluster.Replication
import MiniDiscord.Cluster.Requests

/-!
# Who gets a username

With false suspicion both owners of a name can take themselves for authoritative. The history
variable remembers by whose request the name got into each of the two stores.
-/

namespace MiniDiscord.Cluster

open DiscordStateops

/-- The requests that created the name at its primary and at its backup, and whether it got to the
backup as a replica. -/
structure Creators where
  primary : Option ℕ
  backup : Option ℕ
  replica : Bool

def creators (config : LocationConfig) (u : String) : Tick Creators := fun g σ req op stack σ' =>
  match stack with
  | .call s .commit :: _ =>
    if op = .createUser u ∧ u ∉ (σ.store s).users ∧ u ∈ (σ'.store s).users then
      if s = config.primary then { g with primary := some req }
      else { g with backup := some req }
    else g
  | .request s (.replicate _) :: _ =>
    if op = .createUser u ∧ u ∉ (σ.store s).users ∧ u ∈ (σ'.store s).users then
      { g with replica := true }
    else g
  | _ => g

/-- A creator is never replaced. -/
structure Creators.Le (g g' : Creators) : Prop where
  primary : ∀ r, g.primary = some r → g'.primary = some r
  backup : ∀ r, g.backup = some r → g'.backup = some r
  replica : g.replica = true → g'.replica = true

/-- The request created the name where it lasts, or where the other owner was marked failed. -/
def Creators.Won (config : LocationConfig) (g : Creators) (σ : Servers) (req : ℕ) : Prop :=
  g.primary = some req ∧ (g.replica = true ∨ σ.view config.primary config.backup = false) ∨
    g.backup = some req ∧ σ.view config.backup config.primary = false

def naming (config : LocationConfig) (u : String) : Stages Creators where
  servers g σ := (g.primary ≠ none → u ∈ (σ.store config.primary).users) ∧
    (g.backup ≠ none ∨ g.replica = true → u ∈ (σ.store config.backup).users) ∧
    (g.backup = none ∨ g.replica = false)
  stage g σ req op _ x := op = .createUser u → match x with
    | .applied s _ => s = config.primary ∧ g.primary = some req ∨
        s = config.backup ∧ g.backup = some req ∧ σ.view config.backup config.primary = false
    | .awaiting _ => g.primary = some req
    | .requested _ => True
    | .answered _ _ => g.replica = true
    | .acked _ => g.Won config σ req

variable {hash : String → ℕ} {u : String} {g g' : Creators} {σ σ' : Servers} {op : Op}
  {config : LocationConfig} {req : ℕ}

theorem created_effect {st st' : AppState} {r : StateResult Value}
    (h : Effect (.createUser u) st r st') :
    st' = st ∧ (∃ e, r = .error e) ∨ r = .ok .unit ∧ u ∉ st.users ∧ u ∈ st'.users := by
  cases h with
  | refused _ _ e => exact Or.inl ⟨rfl, e, rfl⟩
  | read _ _ _ reads => cases reads
  | created _ _ new => exact Or.inr ⟨rfl, new, Finset.mem_insert_self _ _⟩

theorem creators_same {stack : List Frame} (h : σ'.store = σ.store) :
    creators config u g σ req op stack σ' = g := by
  have hnot : ∀ s, ¬ (op = .createUser u ∧ u ∉ (σ.store s).users ∧ u ∈ (σ'.store s).users) :=
    fun s hs => hs.2.1 (h ▸ hs.2.2)
  unfold creators
  split
  · exact if_neg (hnot _)
  · exact if_neg (hnot _)
  · rfl

theorem creators_other {stack : List Frame} (h : op ≠ .createUser u) :
    creators config u g σ req op stack σ' = g := by
  unfold creators
  split
  · exact if_neg fun hop => h hop.1
  · exact if_neg fun hop => h hop.1
  · rfl

theorem Creators.le_refl (g : Creators) : g.Le g := ⟨fun _ => id, fun _ => id, id⟩

theorem won_grows (ho : g.Le g') (grows : σ.Grows σ') (h : g.Won config σ req) :
    g'.Won config σ' req :=
  h.imp (And.imp (ho.primary _) (Or.imp ho.replica (grows.view _ _)))
    (And.imp (ho.backup _) (grows.view _ _))

theorem naming_grows (grows : σ.Grows σ') (h : (naming config u).servers g σ) :
    (naming config u).servers g σ' :=
  ⟨fun hp => grows.users _ (h.1 hp), fun hb => grows.users _ (h.2.1 hb), h.2.2⟩

theorem naming_commit {s : ServerId} {rest : List Frame} {st : AppState} {v : Value}
    (howns : σ.Owns config s) (hne : config.primary ≠ config.backup)
    (servers : (naming config u).servers g σ)
    (locked : (Op.createUser u).locked (σ.store s) = some (.ok v, st)) :
    s = config.primary ∧ g.primary = none ∧
        creators config u g σ req (.createUser u) (.call s .commit :: rest) (σ.setStore s st) =
          { g with primary := some req } ∨
      s = config.backup ∧ g.backup = none ∧ g.replica = false ∧
        creators config u g σ req (.createUser u) (.call s .commit :: rest) (σ.setStore s st) =
          { g with backup := some req } := by
  obtain ⟨hprimary, hbackup, -⟩ := servers
  obtain ⟨-, hnew, hold⟩ := (created_effect (locked_effect locked)).resolve_left (by simp)
  have htick : u ∉ (σ.store s).users ∧ u ∈ ((σ.setStore s st).store s).users := by
    simpa using ⟨hnew, hold⟩
  rcases howns with rfl | ⟨rfl, -⟩
  · refine Or.inl ⟨rfl, ?_, ?_⟩
    · by_contra hg
      exact hnew (hprimary hg)
    · rw [creators, if_pos ⟨rfl, htick⟩, if_pos rfl]
  · refine Or.inr ⟨rfl, ?_, ?_, ?_⟩
    · by_contra hg
      exact hnew (hbackup (Or.inl hg))
    · by_contra hg
      exact hnew (hbackup (Or.inr (by simpa using hg)))
    · rw [creators, if_pos ⟨rfl, htick⟩, if_neg hne.symm]

/-- A replicate request that creates the name finds it created by nobody at the backup. -/
theorem naming_replicate (req : ℕ) (rest : List Frame) {st : AppState} {v v' : Value}
    (servers : (naming config u).servers g σ)
    (locked : (Op.createUser u).replicateLocked v (σ.store config.backup) = some (.ok v', st)) :
    g.backup = none ∧ creators config u g σ req (.createUser u)
        (.request config.backup (.replicate v) :: rest) (σ.setStore config.backup st) =
      { g with replica := true } := by
  obtain ⟨-, hbackup, -⟩ := servers
  obtain ⟨-, hnew, hold⟩ := (created_effect (replicate_effect locked)).resolve_left (by simp)
  have htick : u ∉ (σ.store config.backup).users ∧
      u ∈ ((σ.setStore config.backup st).store config.backup).users := by
    simpa using ⟨hnew, hold⟩
  constructor
  · by_contra hg
    exact hnew (hbackup (Or.inl hg))
  · rw [creators, if_pos ⟨rfl, htick⟩]

theorem naming_advance {stack stack' : List Frame} (h : Advance hash σ op stack σ' stack')
    (known : Known hash σ req op stack)
    (servers : (naming (userOwner hash u) u).servers g σ) :
    g.Le (creators (userOwner hash u) u g σ req op stack σ') ∧
      (naming (userOwner hash u) u).servers (creators (userOwner hash u) u g σ req op stack σ')
        σ' := by
  have hgrows := naming_grows (grows_advance h) servers
  have hstay : creators (userOwner hash u) u g σ req op stack σ' = g →
      g.Le (creators (userOwner hash u) u g σ req op stack σ') ∧
      (naming (userOwner hash u) u).servers (creators (userOwner hash u) u g σ req op stack σ')
        σ' := fun heq => by
    rw [heq]; exact ⟨g.le_refl, hgrows⟩
  by_cases hop : op = .createUser u
  · subst hop
    rcases advance_store h with hstore | ⟨s, r, st, rest, rfl, locked, rfl⟩ |
      ⟨s, v, r, st, rest, rfl, locked, rfl⟩
    · exact hstay (creators_same hstore)
    · rcases r with e | v
      · obtain ⟨rfl, -⟩ := (created_effect (locked_effect locked)).resolve_right (by simp)
        exact hstay (creators_same (by simp))
      · obtain ⟨config, howner, howns⟩ := known.1.routed rfl
        obtain rfl : userOwner hash u = config := Option.some.inj howner
        obtain ⟨-, -, hold⟩ := (created_effect (locked_effect locked)).resolve_left (by simp)
        rcases naming_commit howns (userOwner_ne hash u) servers locked with
          ⟨rfl, hnone, heq⟩ | ⟨rfl, hnone, hreplica, heq⟩
        · rw [heq]
          refine ⟨⟨by simp [hnone], fun _ => id, id⟩, fun _ => ?_, hgrows.2⟩
          simpa using hold
        · rw [heq]
          refine ⟨⟨fun _ => id, by simp [hnone], id⟩, hgrows.1, fun _ => ?_, Or.inr hreplica⟩
          simpa using hold
    · rcases r with e | v'
      · obtain ⟨rfl, -⟩ := (created_effect (replicate_effect locked)).resolve_right (by simp)
        exact hstay (creators_same (by simp))
      · obtain ⟨config, howner, rfl⟩ := known.1.routed
        obtain rfl : userOwner hash u = config := Option.some.inj howner
        obtain ⟨-, -, hold⟩ := (created_effect (replicate_effect locked)).resolve_left (by simp)
        obtain ⟨hnone, heq⟩ := naming_replicate req rest servers locked
        rw [heq]
        refine ⟨⟨fun _ => id, fun _ => id, fun _ => rfl⟩, hgrows.1, fun _ => ?_, Or.inl hnone⟩
        simpa using hold
  · exact hstay (creators_other hop)

theorem naming_preserved (u : String) : (naming (userOwner hash u) u).Preserved hash anyFailure
    (creators (userOwner hash u) u) (Known hash) (fun _ => Creators.Le) where
  known _ _ _ _ h := h
  still _ _ _ _ _ _ := rfl
  refl _ := Creators.le_refl
  grow g g' σ σ' req op config x _ ho grows h hop := by
    cases x with
    | applied s v =>
      exact (h hop).imp (And.imp_right (ho.primary _))
        (And.imp_right (And.imp (ho.backup _) (grows.view _ _)))
    | awaiting v => exact ho.primary _ (h hop)
    | requested v => trivial
    | answered v v' => exact ho.replica (h hop)
    | acked v => exact won_grows ho grows (h hop)
  advance _ _ _ _ _ _ _ servers _ known _ h := naming_advance h known servers
  suspect _ σ s p servers _ _ := naming_grows (grows_suspect σ s p) servers
  crash _ σ s servers _ := naming_grows (grows_crash σ s) servers
  commit g σ req op config s v st rest _ howner servers _ _ _ _ howns locked := by
    rintro rfl
    obtain rfl : userOwner hash u = config := Option.some.inj howner
    rcases naming_commit howns (userOwner_ne hash u) servers locked with
      ⟨rfl, -, heq⟩ | ⟨rfl, -, -, heq⟩
    · rw [heq]
      exact Or.inl ⟨rfl, rfl⟩
    · rw [heq]
      exact Or.inr ⟨rfl, rfl, (howns.resolve_left (userOwner_ne hash u).symm).2⟩
  alone g σ req op config s v _ howner _ howns halone h hop := by
    subst hop
    obtain rfl : userOwner hash u = config := Option.some.inj howner
    rcases h rfl with ⟨rfl, hg⟩ | ⟨-, hg, hview⟩
    · exact Or.inl ⟨hg, Or.inr (halone.resolve_left (userOwner_ne hash u).symm)⟩
    · exact Or.inr ⟨hg, hview⟩
  send g σ req op config v _ howner h := by
    refine ⟨fun hop => ?_, fun _ => trivial⟩
    subst hop
    obtain rfl : userOwner hash u = config := Option.some.inj howner
    rcases h rfl with ⟨-, hg⟩ | ⟨heq, -⟩
    · exact hg
    · exact absurd heq (userOwner_ne hash u)
  answer g σ req op config v v' st rest _ howner servers _ _ _ _ _ locked := by
    rintro rfl
    obtain rfl : userOwner hash u = config := Option.some.inj howner
    rw [(naming_replicate req _ servers locked).2]
  finish g σ req op config v v' _ _ _ _ hawaiting hanswered hop :=
    Or.inl ⟨hawaiting hop, Or.inl (hanswered hop)⟩
  giveUp g σ req op config v _ howner _ _ failed h hop := by
    subst hop
    obtain rfl : userOwner hash u = config := Option.some.inj howner
    exact Or.inl ⟨h rfl, Or.inr failed⟩

/-! ## At most one success -/

/-- The requests for an operation that were answered with success. -/
def World.successes (w : World) (op : Op) : List Reply :=
  w.returned.filter fun r => r.op = op ∧ r.result.isOk = true

theorem mem_successes {w : World} {r : Reply} :
    r ∈ w.successes op ↔ r ∈ w.returned ∧ r.op = op ∧ ∃ v, r.result = .ok v := by
  rcases r with ⟨req, op', _ | v⟩ <;> simp [World.successes, Except.isOk, Except.toBool]

theorem successes_won {es : List Event} {w : World} (run : Reaches hash anyFailure es w)
    (u : String) :
    ∃ g : Creators, (g.backup = none ∨ g.replica = false) ∧
      ∀ r ∈ w.successes (.createUser u), g.Won (userOwner hash u) w.servers r.req := by
  have pres : (naming (userOwner hash u) u).Preserved hash anyFailure
      (creators (userOwner hash u) u) (Known hash) fun _ => Creators.Le := naming_preserved u
  have hholds := pres.inv.holds_init (g := ⟨none, none, false⟩) known
    (by simp [Stages.inv, naming]) run
  refine ⟨_, hholds.servers.2.2, fun r hr => ?_⟩
  obtain ⟨hr, hop, v, hv⟩ := mem_successes.mp hr
  obtain ⟨req, op, result⟩ := r
  obtain rfl : op = .createUser u := hop
  exact hholds.returned _ hr rfl _ rfl v hv rfl

theorem successes_length {es : List Event} {w : World} (run : Reaches hash anyFailure es w)
    (reqs : List ℕ) (h : ∀ r ∈ w.successes op, r.req ∈ reqs) :
    (w.successes op).length ≤ reqs.length := by
  have hsub : (w.successes op).Sublist w.returned := List.filter_sublist
  have hnodup := (answered_once run).sublist (hsub.map Reply.req)
  have hsubset : (w.successes op).map Reply.req ⊆ reqs := fun n hn => by
    obtain ⟨r, hr, rfl⟩ := List.mem_map.mp hn
    exact h r hr
  simpa using (hnodup.subperm hsubset).length_le

/-- **Who gets a username.** However the servers suspect each other, no more than two requests for
a name succeed, and no more than one before its two owners have marked each other failed. -/
theorem usernames_unique {es : List Event} {w : World} (run : Reaches hash anyFailure es w)
    (u : String) :
    (w.successes (.createUser u)).length ≤ 2 ∧
      (w.servers.view (userOwner hash u).primary (userOwner hash u).backup = true ∨
          w.servers.view (userOwner hash u).backup (userOwner hash u).primary = true →
        (w.successes (.createUser u)).length ≤ 1) := by
  obtain ⟨g, hreplica, hwon⟩ := successes_won run u
  have hlen : ∀ o : Option ℕ, o.toList.length ≤ 1 := fun o => by cases o <;> simp
  constructor
  · have hmem : ∀ r ∈ w.successes (.createUser u), r.req ∈ g.primary.toList ++ g.backup.toList :=
      fun r hr => by
        rcases hwon r hr with ⟨hg, -⟩ | ⟨hg, -⟩ <;> simp [hg]
    refine (successes_length run _ hmem).trans ?_
    rw [List.length_append]
    exact Nat.add_le_add (hlen _) (hlen _)
  · intro hview
    -- either no success came from the backup, or none from the primary
    by_cases hbackup : ∃ r ∈ w.successes (.createUser u), g.backup = some r.req ∧
        w.servers.view (userOwner hash u).backup (userOwner hash u).primary = false
    · obtain ⟨r₀, -, hg₀, hfailed⟩ := hbackup
      refine (successes_length run g.backup.toList fun r hr => ?_).trans (hlen _)
      rcases hwon r hr with ⟨-, hlasts⟩ | ⟨hg, -⟩
      · have hmarked := hview.resolve_right (by simp [hfailed])
        have hfalse := hreplica.resolve_left (by simp [hg₀])
        simp [hmarked, hfalse] at hlasts
      · simp [hg]
    · refine (successes_length run g.primary.toList fun r hr => ?_).trans (hlen _)
      rcases hwon r hr with ⟨hg, -⟩ | hg
      · simp [hg]
      · exact absurd ⟨r, hr, hg⟩ hbackup

def oneSidedSuspicion : List Event :=
  asks .A (.createUser "alice") 0 6 ++ [.suspect .B .A] ++ asks .B (.createUser "alice") 1 3

/-- `B` takes itself for authoritative, and rejects the name that `A` gave away. -/
theorem usernames_unique_one_sided : ∃ w, Reaches (fun _ => 0) anyFailure oneSidedSuspicion w ∧
    w.returned.length = 2 ∧ (w.successes (.createUser "alice")).length ≤ 1 := by
  obtain ⟨w, run, hw⟩ := Run.exec_of_test
    (fun w : World => w.returned.length = 2 ∧ w.servers.view .A .B = true)
    (by decide : (outcome (fun _ => 0) anyFailure .init oneSidedSuspicion).any _ = true)
  obtain ⟨hlen, hview⟩ := of_decide_eq_true hw
  exact ⟨w, run, hlen, (usernames_unique run "alice").2 (Or.inl hview)⟩

def mutualSuspicion : List Event :=
  [.suspect .A .B, .suspect .B .A] ++ asks .A (.createUser "alice") 0 4 ++
    asks .B (.createUser "alice") 1 4

/-- Both owners give the name away, and neither replicates. -/
theorem username_given_twice : ∃ w, Reaches (fun _ => 0) anyFailure mutualSuspicion w ∧
    (w.successes (.createUser "alice")).length = 2 := by
  obtain ⟨w, run, hw⟩ := Run.exec_of_test
    (fun w : World => (w.successes (.createUser "alice")).length = 2)
    (by decide : (outcome (fun _ => 0) anyFailure .init mutualSuspicion).any _ = true)
  exact ⟨w, run, of_decide_eq_true hw⟩

end MiniDiscord.Cluster
