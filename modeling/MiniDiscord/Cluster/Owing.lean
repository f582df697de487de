import Mathlib.Algebra.Order.BigOperators.Group.List
import MiniDiscord.Cluster.Membership
import MiniDiscord.Cluster.Mirror
import MiniDiscord.Cluster.NewChannels

/-!
# What the backup has still to do

Without failures the primary is ahead of the backup by the changes that are to be replicated: users,
channels and messages. No order of delivery is asked for here. When nothing is in flight, the two
servers of a key agree.
-/

namespace MiniDiscord.Cluster

open DiscordStateops

variable {hash : String → ℕ} {σ σ' : Servers} {op : Op} {req : ℕ} {stack stack' : List Frame}
  {config : LocationConfig} {s : ServerId} {st st' : AppState} {v : Value} {r : StateResult Value}
  {c u t : String} {w : World}

/-! ## Nothing is on its way -/

theorem quiet_toReplicate (quiet : w.Quiet) : ∀ j ∈ w.jobs, toReplicate j.stack = none := by
  intro j hj
  rcases quiet j hj with hstack | ⟨s, hstack⟩ <;> rw [hstack] <;> rfl

theorem quiet_owing (quiet : w.Quiet) (wanted : Op) : w.owing wanted = 0 := by
  refine List.sum_eq_zero fun n hn => ?_
  obtain ⟨j, hj, rfl⟩ := List.mem_map.mp hn
  rw [owed, pending_toReplicate, quiet_toReplicate quiet j hj]
  exact ite_self _

/-! ## Users -/

def registered (st : AppState) (u : String) : ℕ := if u ∈ st.users then 1 else 0

/-- The owners of a user differ by the `create_user` that is to be replicated. -/
def Registering (config : LocationConfig) (u : String) (w : World) : Prop :=
  registered (w.servers.store config.primary) u =
    registered (w.servers.store config.backup) u + w.owing (.createUser u)

theorem advance_registered (h : Advance hash σ op stack σ' stack') (other : op ≠ .createUser u)
    (s : ServerId) : registered (σ'.store s) u = registered (σ.store s) u := by
  rcases advance_effect h s with hs | ⟨r, hr⟩
  · rw [hs]
  · rcases effect_users hr with hsame | ⟨u', rfl, -, -, hadded⟩
    · rw [registered, registered, hsame]
    · have hu : u ≠ u' := by rintro rfl; exact other rfl
      simp [registered, hadded, hu]

theorem owed_le_owing {wanted : Op} {j : Job} (hj : j ∈ w.jobs) :
    owed wanted j.op j.stack ≤ w.owing wanted :=
  List.single_le_sum (by simp) _ (List.mem_map_of_mem hj)

/-- A user that is on its way is not at the backup yet. -/
theorem registering_new {j : Job} (h : Registering config u w) (hj : j ∈ w.jobs)
    (hop : j.op = .createUser u) (htop : toReplicate j.stack = some v) :
    u ∉ (w.servers.store config.backup).users := by
  intro hmem
  have hle : owed (.createUser u) j.op j.stack ≤ w.owing (.createUser u) := owed_le_owing hj
  rw [owed, if_pos hop, pending_toReplicate, htop] at hle
  simp only [Registering, registered, if_pos hmem, Option.isSome_some, if_true] at h hle
  split_ifs at h <;> omega

theorem createUser_ok (h : (Op.createUser u).locked st = some (.ok v, st')) :
    u ∉ st.users ∧ st'.users = insert u st.users := by
  cases locked_effect h with
  | read _ _ _ reads => cases reads
  | created _ _ new => exact ⟨new, rfl⟩

theorem registering {condition : Servers → Op → List Frame → Bool} {es : List Event}
    (run : Reaches hash (failureFree.where' condition) es w) (u : String) :
    Registering (userOwner hash u) u w := by
  refine (failureFree_invariant (P := Registering (userOwner hash u) u) run ?_ ?_ ?_ ?_).1
  · simp [Registering, World.init, World.owing, registered]
  · intro w s op h
    simpa [Registering, World.owing, owed, pending] using h
  · intro w j pre post σ' stack' h up known names rooted _ jobs hadvance
    have hregistering := h
    have hreplace := owing_replace (.createUser u) { j with stack := stack' } σ' w.returned jobs
    by_cases hop : j.op = .createUser u
    · have hne := userOwner_ne hash u
      rw [hop] at hadvance names known
      simp only [Registering, owed, hop, if_true, pending_toReplicate] at h hreplace ⊢
      rcases advance_replicates hadvance up known rooted rfl rfl with ⟨hstore, hsame⟩ |
        ⟨v, state, locked, rfl, hbefore, hafter⟩ | ⟨v, r, state, rest, hstack, locked, rfl, hafter⟩
      · rw [hstore]
        rw [hsame] at hreplace
        omega
      · obtain ⟨hnew, hadded⟩ := createUser_ok locked
        simp only [hbefore, hafter, registered, setStore_store, Function.update_self,
          Function.update_of_ne hne.symm, hadded, hnew, Finset.mem_insert_self, if_true, if_false,
          Option.isSome_some, Option.isSome_none, Bool.false_eq_true] at h hreplace ⊢
        omega
      · have hbefore : toReplicate j.stack = some v := by rw [hstack]; rfl
        have hnew := registering_new hregistering (by simp [jobs]) hop hbefore
        rw [hstack] at names
        have hnonempty : u ≠ "" := by simpa [Checked, Op.named] using names.1
        have hstate : state.users = insert u (w.servers.store (userOwner hash u).backup).users := by
          simp only [Op.replicateLocked, createUser, hnonempty, hnew, if_false] at locked
          cases locked
          rfl
        simp only [hbefore, hafter, registered, setStore_store, Function.update_self,
          Function.update_of_ne hne, hstate, hnew, Finset.mem_insert_self, if_true, if_false,
          Option.isSome_some, Option.isSome_none, Bool.false_eq_true] at h hreplace ⊢
        omega
    · simp only [Registering, owed, if_neg hop] at h hreplace ⊢
      rw [advance_registered hadvance hop, advance_registered hadvance hop]
      omega
  · intro w j pre post s r h jobs stack
    have hreplace := owing_replace (.createUser u) { j with stack := [] } w.servers
      (w.returned ++ [⟨j.req, j.op, r⟩]) jobs
    simp only [Registering, owed, stack, pending, ite_self] at h hreplace ⊢
    omega

/-! ## Things that are handed on -/

section Hands

variable {ι : Type*} {held : ι → AppState → Prop} {brings : ι → Op → Value → Prop}
  {fit : AppState → Prop} {j : Job} {pre post : List Job}

/-- The operation has brought the thing to the primary, and has not handed it on yet. -/
def Job.Owes (brings : ι → Op → Value → Prop) (j : Job) (i : ι) : Prop :=
  ∃ v, toReplicate j.stack = some v ∧ brings i j.op v

/-- The backup has what the primary has, but for what is on its way. -/
structure Handed (held : ι → AppState → Prop) (brings : ι → Op → Value → Prop)
    (config : LocationConfig) (w : World) : Prop where
  behind : ∀ i, held i (w.servers.store config.backup) → held i (w.servers.store config.primary)
  missing : ∀ i, held i (w.servers.store config.primary) →
    held i (w.servers.store config.backup) ∨ ∃ j ∈ w.jobs, j.Owes brings i
  owed : ∀ j ∈ w.jobs, ∀ i, j.Owes brings i → held i (w.servers.store config.primary)

/-- What is asked of things that operations with the owners `config` bring: at both servers they
add to what is held exactly what they bring. `fit` is what is known of the primary's store. -/
structure Hands (hash : String → ℕ) (config : LocationConfig) (held : ι → AppState → Prop)
    (brings : ι → Op → Value → Prop) (fit : AppState → Prop) : Prop where
  init : ∀ i, held i (initStore config.primary) ↔ held i (initStore config.backup)
  fit_init : fit (initStore config.primary)
  fit_advance : ∀ {σ σ' req op stack stack'}, Advance hash σ op stack σ' stack' → σ.Up →
    Known hash σ req op stack → fit (σ.store config.primary) → fit (σ'.store config.primary)
  owner : ∀ {i op v}, brings i op v → op.owner hash = some config ∧ op.replicated = true
  other : ∀ {op st r st'}, (∀ i v, ¬ brings i op v) → Effect op st r st' →
    ∀ i, held i st' ↔ held i st
  commits : ∀ {i op v v' st st'}, brings i op v → fit st → op.locked st = some (.ok v', st') →
    ∀ i, held i st' ↔ held i st ∨ brings i op v'
  handles : ∀ {op v r primary st st'}, (∀ i, brings i op v → held i primary) →
    (∀ i, held i st → held i primary) → fit primary → op.named = true →
    op.replicateLocked v st = some (r, st') → (∃ i v, brings i op v) →
    ∀ i, held i st' ↔ held i st ∨ brings i op v

theorem owes_middle {i : ι} : (∃ k ∈ pre ++ j :: post, k.Owes brings i) ↔
    j.Owes brings i ∨ ∃ k ∈ pre ++ post, k.Owes brings i := by
  simp only [List.perm_middle.mem_iff, List.exists_mem_cons_iff]

/-- What is to be shown of a step, with the changed request apart. -/
theorem handed_replace {w' : World} {j' : Job} (h : Handed held brings config w)
    (jobs : w.jobs = pre ++ j :: post) (jobs' : w'.jobs = pre ++ j' :: post)
    (behind : ∀ i, held i (w'.servers.store config.backup) →
      held i (w'.servers.store config.primary))
    (missing : ∀ i, held i (w'.servers.store config.primary) →
      held i (w'.servers.store config.backup) ∨ j'.Owes brings i ∨
        ∃ k ∈ pre ++ post, k.Owes brings i)
    (kept : ∀ i, held i (w.servers.store config.primary) →
      held i (w'.servers.store config.primary))
    (owed : ∀ i, j'.Owes brings i → held i (w'.servers.store config.primary)) :
    Handed held brings config w' := by
  refine ⟨behind, fun i hi => ?_, fun k hk i howes => ?_⟩
  · rw [jobs', owes_middle]
    exact missing i hi
  · rw [jobs', List.perm_middle.mem_iff, List.mem_cons] at hk
    rcases hk with rfl | hk
    · exact owed i howes
    · refine kept i (h.owed k ?_ i howes)
      rw [jobs, List.perm_middle.mem_iff]
      exact List.mem_cons_of_mem _ hk

/-- What the primary holds is at the backup, or this request owes it, or another. -/
theorem handed_missing {i : ι} (h : Handed held brings config w)
    (jobs : w.jobs = pre ++ j :: post) (hi : held i (w.servers.store config.primary)) :
    held i (w.servers.store config.backup) ∨ j.Owes brings i ∨
      ∃ k ∈ pre ++ post, k.Owes brings i := by
  rw [← owes_middle, ← jobs]
  exact h.missing i hi

/-- A step that leaves what is held as it is, and what its request owes. -/
theorem handed_keep {w' : World} {j' : Job} (h : Handed held brings config w)
    (jobs : w.jobs = pre ++ j :: post) (jobs' : w'.jobs = pre ++ j' :: post)
    (same : ∀ s i, held i (w'.servers.store s) ↔ held i (w.servers.store s))
    (owes : ∀ i, j'.Owes brings i ↔ j.Owes brings i) : Handed held brings config w' := by
  refine handed_replace h jobs jobs' ?_ ?_ ?_ ?_ <;> simp only [same, owes]
  · exact h.behind
  · exact fun i => handed_missing h jobs
  · exact fun i => id
  · exact h.owed j (by simp [jobs])

/-- The primary commits, and owes to the backup what that brings. -/
theorem handed_commit {v : Value} {state : AppState} (hands : Hands hash config held brings fit)
    (h : Handed held brings config w) (hfit : fit (w.servers.store config.primary))
    (jobs : w.jobs = pre ++ j :: post) (brought : ∃ i v, brings i j.op v)
    (locked : j.op.locked (w.servers.store config.primary) = some (.ok v, state))
    (before : toReplicate j.stack = none) (after : toReplicate stack' = some v) :
    Handed held brings config { w with
      servers := w.servers.setStore config.primary state,
      jobs := pre ++ { j with stack := stack' } :: post } := by
  obtain ⟨i₀, v₀, hi₀⟩ := brought
  have hne := owner_ne (hands.owner hi₀).1
  have hheld := hands.commits hi₀ hfit locked
  have howes : ∀ i, Job.Owes brings { j with stack := stack' } i ↔ brings i j.op v :=
    fun i => by simp [Job.Owes, after]
  have hnone : ∀ i, ¬ j.Owes brings i := fun i => by simp [Job.Owes, before]
  refine handed_replace h jobs rfl ?_ ?_ ?_ ?_ <;>
    simp only [setStore_store, Function.update_self, Function.update_of_ne hne.symm, hheld, howes]
  · exact fun i hi => Or.inl (h.behind i hi)
  · rintro i (hi | hi)
    · exact (handed_missing h jobs hi).imp_right fun hk => Or.inr (hk.resolve_left (hnone i))
    · exact Or.inr (Or.inl hi)
  · exact fun i => Or.inl
  · exact fun i => Or.inr

/-- The backup handles the replicate request, and nothing is owed for it any more. -/
theorem handed_replica {v : Value} {r : StateResult Value} {state : AppState} {rest : List Frame}
    (hands : Hands hash config held brings fit) (h : Handed held brings config w)
    (hfit : fit (w.servers.store config.primary)) (named : j.op.named = true)
    (jobs : w.jobs = pre ++ j :: post) (brought : ∃ i v, brings i j.op v)
    (top : j.stack = .request config.backup (.replicate v) :: rest)
    (locked : j.op.replicateLocked v (w.servers.store config.backup) = some (r, state))
    (after : toReplicate stack' = none) :
    Handed held brings config { w with
      servers := w.servers.setStore config.backup state,
      jobs := pre ++ { j with stack := stack' } :: post } := by
  have hne : config.primary ≠ config.backup := by
    obtain ⟨i₀, v₀, hi₀⟩ := brought
    exact owner_ne (hands.owner hi₀).1
  have htop : toReplicate j.stack = some v := by rw [top]; rfl
  have howed : ∀ i, brings i j.op v → held i (w.servers.store config.primary) :=
    fun i hi => h.owed j (by simp [jobs]) i ⟨v, htop, hi⟩
  have hheld := hands.handles howed h.behind hfit named locked brought
  have hnone : ∀ i, ¬ Job.Owes brings { j with stack := stack' } i := fun i => by
    simp [Job.Owes, after]
  refine handed_replace h jobs rfl ?_ ?_ ?_ ?_ <;>
    simp only [setStore_store, Function.update_self, Function.update_of_ne hne, hheld, hnone]
  · rintro i (hi | hi)
    · exact h.behind i hi
    · exact howed i hi
  · intro i hi
    rcases handed_missing h jobs hi with hbackup | ⟨v', htop', hi'⟩ | hk
    · exact Or.inl (Or.inl hbackup)
    · obtain rfl := Option.some.inj (htop.symm.trans htop')
      exact Or.inl (Or.inr hi')
    · exact Or.inr (Or.inr hk)
  · exact fun i => id
  · exact fun i => False.elim

theorem handed_advance (hands : Hands hash config held brings fit)
    (h : Handed held brings config w) (hfit : fit (w.servers.store config.primary))
    (up : w.servers.Up) (known : Known hash w.servers req j.op j.stack)
    (names : Frames (fun f _ => Checked j.op f) j.stack) (rooted : Rooted j.stack)
    (jobs : w.jobs = pre ++ j :: post) (hadvance : Advance hash w.servers j.op j.stack σ' stack') :
    Handed held brings config
      { w with servers := σ', jobs := pre ++ { j with stack := stack' } :: post } := by
  by_cases hbrings : ∃ i v, brings i j.op v
  · have ⟨_, _, hi₀⟩ := hbrings
    obtain ⟨howner, hreplicated⟩ := hands.owner hi₀
    rcases advance_replicates hadvance up known rooted howner hreplicated with ⟨hstore, hsame⟩ |
      ⟨v, state, locked, rfl, hbefore, hafter⟩ | ⟨v, r, state, rest, hstack, locked, rfl, hafter⟩
    · refine handed_keep h jobs rfl (fun s i => by rw [hstore]) fun i => ?_
      simp only [Job.Owes, hsame]
    · exact handed_commit hands h hfit jobs hbrings locked hbefore hafter
    · rw [hstack] at names
      exact handed_replica hands h hfit names.1 jobs hbrings hstack locked hafter
  · -- the operation brings nothing, so it owes nothing either
    push Not at hbrings
    refine handed_keep h jobs rfl (fun s i => ?_) fun i => ?_
    · rcases advance_effect hadvance s with hs | ⟨r, hr⟩
      · rw [hs]
      · exact hands.other hbrings hr i
    · simp only [Job.Owes, hbrings, and_false, exists_false]

/-- **The rule.** What operations bring to the primary gets to the backup, or is on its way. -/
theorem Hands.handed (hands : Hands hash config held brings fit) {es : List Event}
    (run : Reaches hash failureFree es w) :
    Handed held brings config w ∧ fit (w.servers.store config.primary) := by
  refine (failureFree_invariant (P := fun w => Handed held brings config w ∧
    fit (w.servers.store config.primary)) (failureFree_where run) ?_ ?_ ?_ ?_).1
  · refine ⟨⟨fun i => (hands.init i).mpr, fun i hi => Or.inl ((hands.init i).mp hi), ?_⟩,
      hands.fit_init⟩
    simp [World.init]
  · rintro w s op ⟨h, hfit⟩
    refine ⟨⟨h.behind, fun i hi => (h.missing i hi).imp_right ?_, fun k hk => ?_⟩, hfit⟩
    · rintro ⟨k, hk, howes⟩
      exact ⟨k, List.mem_append_left _ hk, howes⟩
    · rcases List.mem_append.mp hk with hk | hk
      · exact h.owed k hk
      · obtain rfl := List.mem_singleton.mp hk
        rintro i ⟨v, hv, -⟩
        cases hv
  · rintro w j pre post σ' stack' ⟨h, hfit⟩ up known names rooted _ jobs hadvance
    exact ⟨handed_advance hands h hfit up known names rooted jobs hadvance,
      hands.fit_advance hadvance up known hfit⟩
  · rintro w j pre post s r ⟨h, hfit⟩ jobs stack
    refine ⟨handed_keep h jobs rfl (fun _ _ => Iff.rfl) fun i => ?_, hfit⟩
    simp only [Job.Owes, stack, toReplicate]

theorem Handed.agree (h : Handed held brings config w) (quiet : w.Quiet) (i : ι) :
    held i (w.servers.store config.backup) ↔ held i (w.servers.store config.primary) := by
  refine ⟨h.behind i, fun hi => (h.missing i hi).resolve_right ?_⟩
  rintro ⟨j, hj, v, hv, -⟩
  rw [quiet_toReplicate quiet j hj] at hv
  cases hv

end Hands

/-! ## Channels -/

theorem effect_hasChannel (h : Effect op st r st') (other : ∀ u, op ≠ .joinChannel u c) :
    HasChannel st' c ↔ HasChannel st c := by
  constructor
  · rintro ⟨ch, found⟩
    rcases effect_new_channel h found with hold | ⟨u, hop, -⟩
    · exact hold
    · exact absurd hop (other u)
  · rintro ⟨ch, found⟩
    exact effect_channel h found

theorem initStore_owners (hash : String → ℕ) (c : String) :
    (initStore (channelOwner hash c).primary).channel c =
      (initStore (channelOwner hash c).backup).channel c :=
  (initStore_channel (Or.inl rfl)).trans (initStore_channel (Or.inr rfl)).symm

theorem channel_hands (c : String) : Hands hash (channelOwner hash c)
    (fun _ : Unit => fun st => HasChannel st c) (fun _ op _ => ∃ u, op = .joinChannel u c)
    fun _ => True where
  init _ := by simp only [HasChannel, initStore_owners hash c]
  fit_init := trivial
  fit_advance _ _ _ _ := trivial
  owner := by
    rintro _ op _ ⟨u, rfl⟩
    exact ⟨rfl, rfl⟩
  other hop heffect _ := effect_hasChannel heffect fun u hu => hop () .unit ⟨u, hu⟩
  commits := by
    rintro _ op v v' st st' ⟨u, rfl⟩ - locked _
    refine ⟨fun _ => Or.inr ⟨u, rfl⟩, fun _ => ?_⟩
    cases locked_effect locked with
    | read _ _ _ reads => cases reads
    | joined _ _ _ valid new => exact ⟨_, by rw [channel_setChannel, if_pos rfl]⟩
  handles := by
    rintro op v r primary st st' - - - named locked ⟨_, v', u, rfl⟩ _
    exact ⟨fun _ => Or.inr ⟨u, rfl⟩, fun _ => joined_channel named locked⟩

/-! ## Messages -/

theorem message_hands (c : String) : Hands hash (channelOwner hash c)
    (fun (m : Message) st => m ∈ st.history c)
    (fun m op v => op = .sendMessage c m.username m.text ∧ v = .messageId m.messageId)
    (Tallied c) where
  init m := by simp only [AppState.history, AppState.channelOrNew, initStore_owners hash c]
  fit_init := ⟨by simp, by simp⟩
  fit_advance h up known := tallied_advance h up known
  owner := by
    rintro m op v ⟨rfl, -⟩
    exact ⟨rfl, rfl⟩
  other hop heffect m := by
    have hhistory := effect_history (c := c) heffect fun u t hu =>
      hop ⟨u, t, ""⟩ (.messageId "") ⟨hu, rfl⟩
    rw [hhistory.1]
  commits := by
    rintro m₀ op v v' st st' ⟨rfl, -⟩ tallied locked m
    obtain ⟨rfl, -⟩ := locked_send_nextId locked
    have hkey : Message.key (Message.from' m₀.username m₀.text c (st.nextId c)) = st.nextId c :=
      Message.key_eq rfl
    rw [(tallied_send tallied locked).1, KeySet.mem_insert, hkey]
    refine or_congr_right ⟨?_, ?_⟩
    · rintro ⟨rfl, -⟩
      exact ⟨rfl, rfl⟩
    · rintro ⟨hop, hv⟩
      obtain ⟨-, hu, ht⟩ := Op.sendMessage.inj hop
      refine ⟨?_, tallied.fresh⟩
      cases m
      simp_all [Message.from']
  handles := by
    rintro op v r primary st st' howed hbehind - - locked ⟨m₀, v', rfl, -⟩ m
    obtain ⟨id, ch, rfl, -, found, rfl⟩ := replicate_send locked
    have hhistory : st.history c = ch.messages := by
      rw [AppState.history, channelOrNew_of_channel found]
    have hnew : (⟨m₀.username, m₀.text, id⟩ : Message) ∈ primary.history c :=
      howed _ ⟨rfl, rfl⟩
    simp only [AppState.history, channelOrNew_setChannel, if_true]
    rw [← AppState.history, hhistory, KeySet.mem_insert]
    constructor
    · rintro (hm | ⟨rfl, -⟩)
      · exact Or.inl hm
      · exact Or.inr ⟨rfl, rfl⟩
    · rintro (hm | ⟨hop, hid⟩)
      · exact Or.inl hm
      · obtain ⟨-, hu, ht⟩ := Op.sendMessage.inj hop
        obtain rfl : (⟨m₀.username, m₀.text, id⟩ : Message) = m := by
          cases m
          simp_all
        by_cases hhas : ch.messages.HasKey (Message.key ⟨m₀.username, m₀.text, id⟩)
        · -- the backup has a message under this number, which is this one: both are at the primary
          obtain ⟨m', hold, hk⟩ := hhas
          obtain rfl := KeySet.eq_of_key (hbehind m' (hhistory ▸ hold)) hnew hk
          exact Or.inl hold
        · exact Or.inr ⟨rfl, hhas⟩

/-- The backup's counter counts its messages. -/
theorem backup_counted {es : List Event} (run : Reaches hash failureFree es w) (c : String) :
    (w.servers.store (channelOwner hash c).backup).nextId c =
      ((w.servers.store (channelOwner hash c).backup).history c).size := by
  refine (failureFree_invariant (P := fun w =>
    (w.servers.store (channelOwner hash c).backup).nextId c =
      ((w.servers.store (channelOwner hash c).backup).history c).size)
    (failureFree_where run) ?_ (fun _ _ _ h => h) ?_ fun _ _ _ _ _ _ h _ _ => h).1
  · simp [World.init]
  · intro w j pre post σ' stack' h up known names rooted _ jobs hadvance
    by_cases other : ∀ u t, j.op ≠ .sendMessage c u t
    · rcases advance_effect hadvance (channelOwner hash c).backup with hs | ⟨r, hr⟩
      · simpa only [hs] using h
      · obtain ⟨hhistory, hnext⟩ := effect_history (c := c) hr other
        simpa only [hhistory, hnext] using h
    · push Not at other
      obtain ⟨u, t, hop⟩ := other
      rw [hop] at hadvance known
      rcases advance_replicates hadvance up known rooted rfl rfl with ⟨hstore, -⟩ |
        ⟨v, state, -, rfl, -⟩ | ⟨v, r, state, rest, -, locked, rfl, -⟩
      · simpa only [hstore] using h
      · simpa [Function.update_of_ne (channelOwner_ne hash c).symm] using h
      · obtain ⟨id, ch, -, -, found, rfl⟩ := replicate_send locked
        have hch := channelOrNew_of_channel found
        simp only [AppState.nextId, AppState.history, hch] at h
        simp only [setStore_store, Function.update_self, AppState.nextId, AppState.history,
          channelOrNew_setChannel, if_true]
        rw [KeySet.size_insert, h]

/-! ## Nothing in flight -/

theorem getMessages_same (channels : HasChannel st c ↔ HasChannel st' c)
    (histories : st.history c = st'.history c) (limit offset : Option ℕ) :
    getMessages c limit offset st = getMessages c limit offset st' := by
  cases hfound : st.channel c with
  | none =>
    have hfound' : st'.channel c = none := by
      by_contra hsome
      obtain ⟨ch, hch⟩ := channels.mpr (Option.ne_none_iff_exists'.mp hsome)
      cases hfound.symm.trans hch
    simp [getMessages, checkChannel, channelExists, hfound, hfound']
  | some ch =>
    obtain ⟨ch', hfound'⟩ := channels.mp ⟨ch, hfound⟩
    refine getMessages_eq hfound hfound' ?_ limit offset
    simpa [AppState.history, channelOrNew_of_channel hfound, channelOrNew_of_channel hfound']
      using histories

theorem quiet_users {es : List Event} (run : Reaches hash failureFree es w) (quiet : w.Quiet)
    (u : String) : u ∈ (w.servers.store (userOwner hash u).backup).users ↔
      u ∈ (w.servers.store (userOwner hash u).primary).users := by
  have hregistering := registering (failureFree_where run) u
  simp only [Registering, quiet_owing quiet, registered, Nat.add_zero] at hregistering
  split_ifs at hregistering <;> simp_all

theorem quiet_messages {es : List Event} (run : Reaches hash failureFree es w) (quiet : w.Quiet)
    (c : String) :
    (w.servers.store (channelOwner hash c).backup).history c =
        (w.servers.store (channelOwner hash c).primary).history c ∧
      (w.servers.store (channelOwner hash c).backup).nextId c =
        (w.servers.store (channelOwner hash c).primary).nextId c := by
  obtain ⟨handed, htallied⟩ := (message_hands c).handed run
  have hhistory := KeySet.ext_mem (handed.agree quiet)
  exact ⟨hhistory, by rw [backup_counted run c, htallied.counted, hhistory]⟩

theorem quiet_channels {es : List Event} (run : Reaches hash failureFree es w) (quiet : w.Quiet)
    (c : String) : HasChannel (w.servers.store (channelOwner hash c).backup) c ↔
      HasChannel (w.servers.store (channelOwner hash c).primary) c :=
  ((channel_hands c).handed run).1.agree quiet ()

/-- **Replicas agree.** Without failures, and in whatever order the replicate requests were handled,
the two owners of a name know the same user, have the same channel with the same messages, and go
on from the same number, whenever no request is in flight. -/
theorem replicas_agree {es : List Event} (run : Reaches hash failureFree es w) (quiet : w.Quiet) :
    (∀ u, userExists u (w.servers.store (userOwner hash u).backup) =
      userExists u (w.servers.store (userOwner hash u).primary)) ∧
    ∀ c, channelExists c (w.servers.store (channelOwner hash c).backup) =
        channelExists c (w.servers.store (channelOwner hash c).primary) ∧
      (w.servers.store (channelOwner hash c).backup).nextId c =
        (w.servers.store (channelOwner hash c).primary).nextId c ∧
      ∀ limit offset, getMessages c limit offset (w.servers.store (channelOwner hash c).backup) =
        getMessages c limit offset (w.servers.store (channelOwner hash c).primary) := by
  refine ⟨fun u => ?_, fun c => ?_⟩
  · simp only [userExists, quiet_users run quiet u]
  · have hchannels := quiet_channels run quiet c
    obtain ⟨hhistory, hnext⟩ := quiet_messages run quiet c
    refine ⟨?_, hnext, getMessages_same hchannels hhistory⟩
    rw [Bool.eq_iff_iff, channelExists_iff, channelExists_iff]
    exact hchannels

/-- `alice` sends two messages to the new channel `#x`, and the second one gets to `B` first. -/
def overtaking : List Event :=
  asks .A (.createUser "alice") 0 6 ++ asks .A (.joinChannel "alice" "#x") 1 8 ++
    asks .A (.sendMessage "#x" "alice" "m0") 2 6 ++
    asks .A (.sendMessage "#x" "alice" "m1") 3 9 ++ steps 2 3

theorem replicas_agree_overtaking :
    ∃ w, Reaches (fun _ => 0) failureFree overtaking w ∧ w.Quiet ∧
      getMessages "#x" none none (w.servers.store .B) =
        .ok [⟨"alice", "m1", "#x-1"⟩, ⟨"alice", "m0", "#x-0"⟩] := by
  obtain ⟨w, run, hw⟩ := Run.exec_of_test
    (fun w : World => (∀ j ∈ w.jobs, j.stack = []) ∧
      getMessages "#x" none none (w.servers.store .A) =
        .ok [⟨"alice", "m1", "#x-1"⟩, ⟨"alice", "m0", "#x-0"⟩])
    (by decide : (outcome (fun _ => 0) failureFree .init overtaking).any _ = true)
  obtain ⟨hstacks, hmessages⟩ := of_decide_eq_true hw
  have quiet : w.Quiet := fun j hj => Or.inl (hstacks j hj)
  have hagree := ((replicas_agree run quiet).2 "#x").2.2 none none
  exact ⟨w, run, quiet, hagree.trans hmessages⟩

end MiniDiscord.Cluster
