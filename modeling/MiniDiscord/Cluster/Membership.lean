import MiniDiscord.Cluster.Changes
import MiniDiscord.Cluster.Requests

/-!
# Who is in a channel, at its two servers

Without failures the backup's members differ from the primary's by the joins and leaves that the
backup has still to execute, as long as it rejects none of them.
-/

namespace MiniDiscord.Cluster

open DiscordStateops

/-! ## Changes that the backup has still to make -/

/-- What the backup has still to make of one operation. -/
def owed (wanted op : Op) (stack : List Frame) : ℕ := if op = wanted then pending stack else 0

/-- The calls of one operation whose change is at the primary only. -/
def World.owing (wanted : Op) (w : World) : ℕ := (w.jobs.map fun j => owed wanted j.op j.stack).sum

/-- No request is in flight: each was answered, or its call panicked. -/
def World.Quiet (w : World) : Prop :=
  ∀ j ∈ w.jobs, j.stack = [] ∨ ∃ s, j.stack = [.call s .panicked]

def present (st : AppState) (c u : String) : ℕ := if u ∈ st.members c then 1 else 0

variable {hash : String → ℕ} {σ σ' : Servers} {op : Op} {req : ℕ} {stack stack' : List Frame}
  {config : LocationConfig} {s : ServerId} {st st' : AppState} {v : Value} {r : StateResult Value}
  {c u : String} {w : World}

/-! ## Members -/

theorem members_setChannel {d : String} {ch : Channel} :
    (st.setChannel d ch).members c = if c = d then ch.users else st.members c := by
  unfold AppState.members
  rw [channelOrNew_setChannel]
  split_ifs <;> rfl

theorem effect_present (h : Effect op st (.ok v) st') (c u : String) :
    present st' c u + (if op = .leaveChannel u c then 1 else 0) =
      present st c u + (if op = .joinChannel u c then 1 else 0) := by
  cases h with
  | read _ _ _ reads =>
    have hjoin : op ≠ .joinChannel u c := by rintro rfl; cases reads
    have hleave : op ≠ .leaveChannel u c := by rintro rfl; cases reads
    simp [hjoin, hleave]
  | created => rfl
  | joined u' c' _ valid new =>
    by_cases hc : c = c'
    · subst hc
      by_cases hu : u = u'
      · subst hu
        simp [present, members_setChannel, new]
      · simp [present, members_setChannel, hu, Ne.symm hu]
    · simp [present, members_setChannel, hc, Ne.symm hc]
  | left u' c' _ ch found member =>
    by_cases hc : c = c'
    · subst hc
      have hmembers : st.members c = ch.users := by
        rw [AppState.members, channelOrNew_of_channel found]
      by_cases hu : u = u'
      · subst hu
        simp [present, members_setChannel, hmembers, member]
      · simp [present, members_setChannel, hmembers, hu, Ne.symm hu]
    · simp [present, members_setChannel, hc, Ne.symm hc]
  | appended c' u' t id _ ch next found =>
    by_cases hc : c = c'
    · subst hc
      have hmembers : st.members c = ch.users := by
        rw [AppState.members, channelOrNew_of_channel found]
      simp [present, members_setChannel, hmembers]
    · simp [present, members_setChannel, hc]

theorem advance_present (h : Advance hash σ op stack σ' stack')
    (hjoin : op ≠ .joinChannel u c) (hleave : op ≠ .leaveChannel u c) (s : ServerId) :
    present (σ'.store s) c u = present (σ.store s) c u := by
  rcases advance_effect h s with hs | ⟨r, hr⟩
  · rw [hs]
  · rcases r with e | v
    · rw [effect_error hr]
    · simpa [hjoin, hleave] using effect_present hr c u

/-- A step changes what is owed by as much as it sets the two servers apart. -/
theorem advance_owed (h : Advance hash σ op stack σ' stack') (up : σ.Up)
    (known : Known hash σ req op stack) (names : Frames (fun f _ => Checked op f) stack)
    (rooted : Rooted stack) (order : inOrder σ op stack = true) (c u : String) :
    present (σ'.store (channelOwner hash c).primary) c u + owed (.leaveChannel u c) op stack' +
        (present (σ.store (channelOwner hash c).backup) c u + owed (.joinChannel u c) op stack) =
      present (σ.store (channelOwner hash c).primary) c u + owed (.leaveChannel u c) op stack +
        (present (σ'.store (channelOwner hash c).backup) c u +
          owed (.joinChannel u c) op stack') := by
  by_cases hop : op = .joinChannel u c ∨ op = .leaveChannel u c
  · have hne := channelOwner_ne hash c
    have hcases : op.owner hash = some (channelOwner hash c) ∧ op.replicated = true := by
      rcases hop with rfl | rfl <;> exact ⟨rfl, rfl⟩
    rcases advance_pending h up known rooted hcases.1 hcases.2 with ⟨hstore, hpending⟩ |
      ⟨v, state, locked, rfl, hbefore, hafter⟩ |
      ⟨v, r, state, rest, rfl, locked, rfl, hbefore, hafter⟩
    · simp only [owed, hstore, hpending]
    · have heffect := effect_present (locked_effect locked) c u
      simp only [owed, setStore_store, Function.update_self, Function.update_of_ne hne.symm,
        hbefore, hafter]
      split_ifs at heffect ⊢ <;> omega
    · obtain ⟨v', rfl⟩ : ∃ v', r = .ok v' := by
        refine replicate_ok names.1 order ?_ locked
        rintro u' rfl
        rcases hop with hop | hop <;> cases hop
      have heffect := effect_present (replicate_effect locked) c u
      simp only [owed, setStore_store, Function.update_self, Function.update_of_ne hne, hbefore,
        hafter]
      split_ifs at heffect ⊢ <;> omega
  · push Not at hop
    rw [advance_present h hop.1 hop.2, advance_present h hop.1 hop.2]
    simp only [owed, if_neg hop.1, if_neg hop.2]

theorem owing_replace (wanted : Op) (j' : Job) (servers : Servers) (returned : List Reply) {j : Job}
    {pre post : List Job} (jobs : w.jobs = pre ++ j :: post) :
    World.owing wanted ⟨servers, pre ++ j' :: post, w.nextReq, returned⟩ +
      owed wanted j.op j.stack = w.owing wanted + owed wanted j'.op j'.stack := by
  simp only [World.owing, jobs, List.map_append, List.map_cons, List.sum_append, List.sum_cons]
  omega

/-- The two servers differ by what is owed. -/
def Settling (config : LocationConfig) (c u : String) (w : World) : Prop :=
  present (w.servers.store config.primary) c u + w.owing (.leaveChannel u c) =
    present (w.servers.store config.backup) c u + w.owing (.joinChannel u c)

theorem settling {es : List Event} (run : Reaches hash (failureFree.where' inOrder) es w)
    (c u : String) : Settling (channelOwner hash c) c u w := by
  refine (failureFree_invariant (P := Settling (channelOwner hash c) c u) run ?_ ?_ ?_ ?_).1
  · simp [Settling, World.init, World.owing, present]
  · intro w s op h
    simpa [Settling, World.owing, owed, pending] using h
  · intro w j pre post σ' stack' h up known names rooted order jobs hadvance
    have howed := advance_owed hadvance up known names rooted order c u
    have hleave := owing_replace (.leaveChannel u c) { j with stack := stack' } σ' w.returned jobs
    have hjoin := owing_replace (.joinChannel u c) { j with stack := stack' } σ' w.returned jobs
    simp only [Settling] at h hleave hjoin ⊢
    omega
  · intro w j pre post s r h jobs stack
    have hleave := owing_replace (.leaveChannel u c) { j with stack := [] } w.servers
      (w.returned ++ [⟨j.req, j.op, r⟩]) jobs
    have hjoin := owing_replace (.joinChannel u c) { j with stack := [] } w.servers
      (w.returned ++ [⟨j.req, j.op, r⟩]) jobs
    simp only [Settling, owed, stack, pending, ite_self] at h hleave hjoin ⊢
    omega

/-- **Membership converges.** Let the backup reject no replicated join and no replicated leave.
Then, without failures, a channel has the same members at both its servers whenever no request is
in flight. -/
theorem members_converge {es : List Event} (run : Reaches hash (failureFree.where' inOrder) es w)
    (quiet : w.Quiet) (c : String) :
    (w.servers.store (channelOwner hash c).backup).members c =
      (w.servers.store (channelOwner hash c).primary).members c := by
  have hnone : ∀ wanted, w.owing wanted = 0 := fun wanted => by
    refine List.sum_eq_zero fun n hn => ?_
    obtain ⟨j, hj, rfl⟩ := List.mem_map.mp hn
    rcases quiet j hj with hstack | ⟨s, hstack⟩ <;> simp [owed, hstack, pending]
  ext u
  have hpresent := settling run c u
  simp only [Settling, hnone, present] at hpresent
  split_ifs at hpresent <;> simp_all

theorem members_converge_joined :
    ∃ w, Reaches (fun _ => 0) (failureFree.where' inOrder) aliceJoins w ∧ w.Quiet ∧
      (w.servers.store .A).members "#cs249" = {"alice"} ∧
      (w.servers.store .B).members "#cs249" = (w.servers.store .A).members "#cs249" := by
  obtain ⟨w, run, hw⟩ := Run.exec_of_test
    (fun w : World => (∀ j ∈ w.jobs, j.stack = []) ∧
      (w.servers.store .A).members "#cs249" = {"alice"})
    (by decide : (outcome (fun _ => 0) (failureFree.where' inOrder) .init aliceJoins).any _ = true)
  obtain ⟨hstacks, hmembers⟩ := of_decide_eq_true hw
  have quiet : w.Quiet := fun j hj => Or.inl (hstacks j hj)
  exact ⟨w, run, quiet, hmembers, members_converge run quiet "#cs249"⟩

/-- `alice` leaves and joins again, and `B` handles the join before the leave. -/
def crossed : List Event :=
  aliceJoins ++ asks .A (.leaveChannel "alice" "#cs249") 2 6 ++
    asks .A (.joinChannel "alice" "#cs249") 3 8 ++ steps 2 3

theorem members_diverge :
    ∃ w, Reaches (fun _ => 0) failureFree crossed w ∧ (∀ j ∈ w.jobs, j.stack = []) ∧
      (w.servers.store .A).members "#cs249" = {"alice"} ∧
      (w.servers.store .B).members "#cs249" = ∅ := by
  obtain ⟨w, run, hw⟩ := Run.exec_of_test
    (fun w : World => (∀ j ∈ w.jobs, j.stack = []) ∧
      (w.servers.store .A).members "#cs249" = {"alice"} ∧
      (w.servers.store .B).members "#cs249" = ∅)
    (by decide : (outcome (fun _ => 0) failureFree .init crossed).any _ = true)
  exact ⟨w, run, of_decide_eq_true hw⟩

end MiniDiscord.Cluster
