import MiniDiscord.Cluster.FailureFree

/-!
# When a channel exists at its backup

A channel gets to its backup with the replica of a join. The history variable remembers which
replicated joins were handled, and without failures nothing else makes a channel there.
-/

namespace MiniDiscord.Cluster

open DiscordStateops

/-- The channels that replicated joins were handled for, with the server that handled them. A
server whose store is poisoned handles nothing. -/
def replicatedJoins : Tick (List (ServerId × String)) := fun g σ _ op stack _ =>
  match op, stack with
  | .joinChannel _ c, .request s (.replicate _) :: _ => if σ.poisoned s then g else g ++ [(s, c)]
  | _, _ => g

def HasChannel (st : AppState) (c : String) : Prop := ∃ ch, st.channel c = some ch

/-- A backup has the channels it started with, and those of the replicated joins it handled. -/
def backedUp (hash : String → ℕ) : Inv (List (ServerId × String)) where
  servers g σ := ∀ c, HasChannel (σ.store (channelOwner hash c).backup) c ↔
    HasChannel (initStore (channelOwner hash c).backup) c ∨ ((channelOwner hash c).backup, c) ∈ g
  frame _ _ _ _ _ _ := True
  reply _ _ _ := True

/-- What is known of a stack in a run without failures. -/
structure Calm (hash : String → ℕ) (σ : Servers) (req : ℕ) (op : Op) (stack : List Frame) :
    Prop where
  up : σ.Up
  known : Known hash σ req op stack
  checked : Frames (fun f _ => Checked op f) stack

variable {hash : String → ℕ} {σ σ' : Servers} {op : Op} {req : ℕ} {stack stack' : List Frame}
  {st st' : AppState} {v : Value} {r : StateResult Value} {c : String}
  {g : List (ServerId × String)}

theorem calm (es : List Event) (w : World) (run : Reaches hash failureFree es w) :
    ∀ j ∈ w.jobs, Calm hash w.servers j.req j.op j.stack := by
  have hup := (failureFree_invariant (P := fun _ => True) (failureFree_where run) trivial
    (fun _ _ _ _ => trivial) (fun _ _ _ _ _ _ _ _ _ _ _ _ _ _ => trivial)
    fun _ _ _ _ _ _ _ _ _ => trivial).2.1
  exact fun j hj => ⟨hup, known es w run j hj, checked run j hj⟩

theorem hasChannel_of_member {u : String} (h : u ∈ (st.channelOrNew c).users) :
    HasChannel st c := by
  cases hfound : st.channel c with
  | none => simp [AppState.channelOrNew, hfound, Channel.new] at h
  | some ch => exact ⟨ch, hfound⟩

theorem joined_channel {u : String} (named : (Op.joinChannel u c).named = true)
    (h : (Op.joinChannel u c).replicateLocked v st = some (r, st')) : HasChannel st' c := by
  have hvalid : channelNameIsValid c = true := named
  have hst : st' = (joinChannelLocked u c st).2 := (Prod.mk.inj (Option.some.inj h)).2.symm
  rw [hst, joinChannelLocked, hvalid]
  simp only [Bool.not_true, Bool.false_eq_true, if_false, orInsert_snd]
  split_ifs with hmember
  · rw [orInsert_fst hmember]
    exact hasChannel_of_member hmember
  · rw [orInsert_setChannel]
    exact ⟨_, by rw [channel_setChannel, if_pos rfl]⟩

theorem backedUp_other (h : Advance hash σ op stack σ' stack') (calm : Calm hash σ req op stack)
    (other : ∀ u rest v, op = .joinChannel u c →
      stack ≠ .request (channelOwner hash c).backup (.replicate v) :: rest) :
    HasChannel (σ'.store (channelOwner hash c).backup) c ↔
      HasChannel (σ.store (channelOwner hash c).backup) c := by
  constructor
  · rintro ⟨ch, found⟩
    rcases advance_store h with hstore | ⟨s, r, st, rest, rfl, locked, rfl⟩ |
      ⟨s, v, r, st, rest, rfl, locked, rfl⟩
    · exact ⟨ch, hstore ▸ found⟩
    · by_cases hs : (channelOwner hash c).backup = s
      · rw [setStore_store, hs, Function.update_self] at found
        rcases effect_new_channel (locked_effect locked) found with hold | ⟨u, rfl, -⟩
        · exact hs ▸ hold
        · obtain ⟨config, howner, howns⟩ := calm.known.1.routed rfl
          obtain rfl : channelOwner hash c = config := Option.some.inj howner
          exact absurd (hs.trans (up_primary calm.up howns)) (channelOwner_ne hash c).symm
      · rw [setStore_store, Function.update_of_ne hs] at found
        exact ⟨ch, found⟩
    · by_cases hs : (channelOwner hash c).backup = s
      · subst hs
        rw [setStore_store, Function.update_self] at found
        rcases effect_new_channel (replicate_effect locked) found with hold | ⟨u, rfl, -⟩
        · exact hold
        · exact absurd rfl (other u rest v rfl)
      · rw [setStore_store, Function.update_of_ne hs] at found
        exact ⟨ch, found⟩
  · rintro ⟨ch, found⟩
    rcases advance_effect h (channelOwner hash c).backup with hs | ⟨r, hr⟩
    · exact ⟨ch, hs ▸ found⟩
    · exact effect_channel hr found

theorem replicatedJoins_other {s : ServerId} (other : ∀ u rest v, op = .joinChannel u c →
      stack ≠ .request s (.replicate v) :: rest) :
    (s, c) ∈ replicatedJoins g σ req op stack σ' ↔ (s, c) ∈ g := by
  unfold replicatedJoins
  split
  · rename_i u d t v rest
    have hd : ¬ (s = t ∧ c = d) := by
      rintro ⟨rfl, rfl⟩
      exact other u rest v rfl rfl
    split_ifs <;> simp [hd]
  · rfl

theorem backedUp_join {u : String} {rest : List Frame} (h : Advance hash σ (.joinChannel u c)
      (.request (channelOwner hash c).backup (.replicate v) :: rest) σ' stack')
    (named : (Op.joinChannel u c).named = true) :
    HasChannel (σ'.store (channelOwner hash c).backup) c ↔
      HasChannel (σ.store (channelOwner hash c).backup) c ∨
        σ.poisoned (channelOwner hash c).backup = false := by
  have hvalid : (Op.joinChannel u c).replicaRefusal = none := if_pos named
  cases h with
  | replicated s v r state rest live locked unpoisoned
  | unheardReplica s v r state rest live locked unpoisoned =>
    have hjoined := joined_channel named locked
    rw [setStore_store, Function.update_self]
    exact ⟨fun _ => Or.inr (unpoisoned hvalid), fun _ => hjoined⟩
  | unheardRead s request rest live reads => rcases reads with reads | reads <;> cases reads
  | handlerPanic s request σ' rest live poisons cause =>
    have hpoisoned := cause.resolve_right (by rintro ⟨v, -, hnone⟩; cases hnone)
    rcases poisons with rfl | ⟨rfl, -⟩ <;> simp [hpoisoned]

theorem backedUp_preserved : (backedUp hash).Preserved hash failureFree replicatedJoins
    (Calm hash) where
  still _ _ _ op _ _ := by cases op <;> rfl
  weaken _ _ _ _ _ _ _ := trivial
  submit _ _ _ _ _ _ := trivial
  reply _ _ _ _ _ _ _ _ _ := trivial
  giveUp _ _ _ _ _ _ _ _ _ _ _ _ _ _ _ := trivial
  suspect _ _ _ _ _ _ allowed := by cases allowed
  crash _ _ _ _ allowed := by cases allowed
  advance g σ req op stack σ' stack' servers _ calm _ h := by
    refine ⟨⟨fun c => ?_, fun _ _ _ _ _ => trivial, fun _ _ => trivial⟩,
      frames_of_all (fun _ _ => trivial) _⟩
    by_cases hjoin : ∃ u rest v, op = .joinChannel u c ∧
        stack = .request (channelOwner hash c).backup (.replicate v) :: rest
    · obtain ⟨u, rest, v, rfl, rfl⟩ := hjoin
      have htick : ((channelOwner hash c).backup, c) ∈ replicatedJoins g σ req (.joinChannel u c)
          (.request (channelOwner hash c).backup (.replicate v) :: rest) σ' ↔
          ((channelOwner hash c).backup, c) ∈ g ∨
            σ.poisoned (channelOwner hash c).backup = false := by
        cases hpoisoned : σ.poisoned (channelOwner hash c).backup <;>
          simp [replicatedJoins, hpoisoned]
      rw [backedUp_join h calm.checked.1, servers c, htick, or_assoc]
    · have hother : ∀ u rest v, op = .joinChannel u c →
          stack ≠ .request (channelOwner hash c).backup (.replicate v) :: rest :=
        fun u rest v hop hstack => hjoin ⟨u, rest, v, hop, hstack⟩
      rw [backedUp_other h calm hother, servers c, replicatedJoins_other hother]

/-- **When a replicated message finds its channel.** Without failures, the server that handles it
has the channel if it started with it, or handled the replica of a join of it before, and not
otherwise. -/
theorem replica_channel_exists {es : List Event} {w : World} (run : Reaches hash failureFree es w)
    {j : Job} (job : j ∈ w.jobs) {u t : String} {s : ServerId} {rest : List Frame}
    (op : j.op = .sendMessage c u t) (handles : j.stack = .request s (.replicate v) :: rest) :
    HasChannel (w.servers.store s) c ↔ HasChannel (initStore s) c ∨
      (s, c) ∈ Inv.ghost hash replicatedJoins [] World.init es := by
  have hholds := backedUp_preserved.holds_init (g := []) calm (by simp [backedUp, World.init]) run
  have hknown := (calm es w run j job).known
  rw [handles, op] at hknown
  obtain ⟨config, howner, rfl⟩ := hknown.1.routed
  obtain rfl : channelOwner hash c = config := Option.some.inj howner
  exact hholds.servers c

/-- `alice` joins the new channel `#x`, and a message of hers is on its way to `B`. -/
def joinedBefore : List Event :=
  asks .A (.createUser "alice") 0 6 ++ asks .A (.joinChannel "alice" "#x") 1 8 ++
    asks .A (.sendMessage "#x" "alice" "m0") 2 6

def newChannelSend : Job :=
  ⟨2, .sendMessage "#x" "alice" "m0", .A, true,
    [.request .B (.replicate (.messageId "#x-0")), .call .A (.awaitReplica (.messageId "#x-0") .B)]⟩

theorem replica_channel_exists_joined :
    ∃ w, Reaches (fun _ => 0) failureFree joinedBefore w ∧ newChannelSend ∈ w.jobs ∧
      HasChannel (w.servers.store .B) "#x" := by
  obtain ⟨w, run, hw⟩ := Run.exec_of_test (fun w : World => newChannelSend ∈ w.jobs)
    (by decide : (outcome (fun _ => 0) failureFree .init joinedBefore).any _ = true)
  have hjob := of_decide_eq_true hw
  have hjoined : (ServerId.B, "#x") ∈
      Inv.ghost (fun _ => 0) replicatedJoins [] World.init joinedBefore := by decide
  exact ⟨w, run, hjob, (replica_channel_exists run hjob rfl rfl).mpr (Or.inr hjoined)⟩

/-- The message overtakes the join. -/
def overtakesJoin : List Event :=
  asks .A (.createUser "alice") 0 6 ++ asks .A (.joinChannel "alice" "#x") 1 5 ++
    asks .A (.sendMessage "#x" "alice" "m0") 2 6

/-- `B` has no channel `#x`, and its store is poisoned when it handles the message. -/
theorem replica_without_channel :
    ∃ w, Reaches (fun _ => 0) failureFree overtakesJoin w ∧ newChannelSend ∈ w.jobs ∧
      ¬ HasChannel (w.servers.store .B) "#x" ∧
      ∃ w', w.step (fun _ => 0) (.advance 2) = some w' ∧ w'.servers.poisoned .B = true := by
  obtain ⟨w, run, hw⟩ := Run.exec_of_test
    (fun w : World => newChannelSend ∈ w.jobs ∧ (w.servers.store .B).channel "#x" = none ∧
      (w.step (fun _ => 0) (.advance 2)).any fun w' => w'.servers.poisoned .B)
    (by decide : (outcome (fun _ => 0) failureFree .init overtakesJoin).any _ = true)
  obtain ⟨hjob, hnone, hpoisoned⟩ := of_decide_eq_true hw
  refine ⟨w, run, hjob, ?_, (Option.any_eq_true _ _).mp hpoisoned⟩
  rintro ⟨ch, found⟩
  cases hnone.symm.trans found

end MiniDiscord.Cluster
