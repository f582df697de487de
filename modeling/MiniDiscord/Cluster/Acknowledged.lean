import MiniDiscord.Cluster.Replication
import MiniDiscord.Cluster.Requests

/-!
# Acknowledged operations last

`create_user` and `send_message` only ever add to a store. With at most one crash, and only a
crashed server marked failed, an operation that was answered with success is in the store of its
primary and in that of its backup, but for a server that was marked failed.
-/

namespace MiniDiscord.Cluster

open DiscordStateops

/-! ## What an operation leaves in a store -/

/-- The store shows what the operation added when it returned `v`. Joins and leaves can be undone,
and nothing is said of them. -/
def Op.Applied : Op → Value → AppState → Prop
  | .createUser u, _, st => u ∈ st.users
  | .sendMessage c u t, .messageId id, st => ⟨u, t, id⟩ ∈ st.history c
  | _, _, _ => True

/-- A send gets a number that no message of the channel has. -/
def Op.Fresh : Op → AppState → Prop
  | .sendMessage c _ _, st => ¬ (st.history c).HasKey (st.nextId c)
  | _, _ => True

instance (op : Op) (st : AppState) : Decidable (op.Fresh st) := by
  cases op <;> unfold Op.Fresh <;> infer_instance

section Applied

variable {op op' : Op} {v v' : Value} {st st' : AppState} {r : StateResult Value}

theorem applied_new (h : Effect op st r st') (ha : op'.Applied v st') :
    op'.Applied v st ∨ op' = op ∧ ∃ v', r = .ok v' ∧ ∀ st, op.Applied v' st → op.Applied v st := by
  cases op' with
  | createUser u =>
    rcases effect_users h with hu | ⟨u', rfl, rfl, -, hu⟩
    · have hmem : u ∈ st'.users := ha
      rw [hu] at hmem
      exact Or.inl hmem
    · have hmem : u ∈ st'.users := ha
      rw [hu, Finset.mem_insert] at hmem
      rcases hmem with rfl | hmem
      · exact Or.inr ⟨rfl, _, rfl, fun _ h => h⟩
      · exact Or.inl hmem
  | sendMessage c u t =>
    cases v with
    | messageId id =>
      by_cases other : ∀ u t, op ≠ .sendMessage c u t
      · have hmem : ⟨u, t, id⟩ ∈ st'.history c := ha
        rw [(effect_history h other).1] at hmem
        exact Or.inl hmem
      · push Not at other
        obtain ⟨u', t', rfl⟩ := other
        cases h with
        | refused | read => exact Or.inl ha
        | appended _ _ _ id' _ ch next found =>
          have hmem : ⟨u, t, id⟩ ∈ (st.setChannel c { ch with
            messages := (ch.messages.insert ⟨u', t', id'⟩).1, nextMessageId := next }).history c :=
              ha
          simp only [AppState.history, channelOrNew_setChannel, if_true, KeySet.mem_insert] at hmem
          rcases hmem with hmem | ⟨heq, -⟩
          · refine Or.inl ?_
            rw [← channelOrNew_of_channel found] at hmem
            exact hmem
          · cases heq
            exact Or.inr ⟨rfl, _, rfl, fun _ h => h⟩
    | _ => exact Or.inl trivial
  | _ => exact Or.inl trivial

theorem applied_created {u : String} (h : Effect (.createUser u) st (.ok v) st') :
    u ∈ st'.users := by
  cases h with
  | read _ _ _ reads => cases reads
  | created => exact Finset.mem_insert_self _ _

theorem applied_commit (h : op.locked st = some (.ok v, st')) (fresh : op.Fresh st) :
    op.Applied v st' := by
  cases op with
  | createUser u => exact applied_created (locked_effect h)
  | sendMessage c u t =>
    obtain ⟨ch, found, -, rfl, rfl⟩ := locked_send h
    simp only [Op.Fresh, AppState.history, AppState.nextId, channelOrNew_of_channel found] at fresh
    simp only [Op.Applied, AppState.history, channelOrNew_setChannel, if_true]
    exact KeySet.mem_insert_self (by rwa [Message.key_eq rfl])
  | _ => trivial

theorem applied_answer (h : op.replicateLocked v st = some (.ok v', st')) {st₁ : AppState}
    (ha : op.Applied v st₁) : op.Applied v' st₁ := by
  cases op with
  | createUser u => exact ha
  | sendMessage c u t =>
    obtain ⟨id, ch, rfl, hr, -, -⟩ := replicate_send h
    obtain rfl := Except.ok.inj hr
    exact ha
  | _ => trivial

theorem applied_replicate (h : op.replicateLocked v st = some (.ok v', st')) {st₁ : AppState}
    (ha : op.Applied v st₁)
    (behind : ∀ c u t, op = .sendMessage c u t → ∀ m ∈ st.history c, m ∈ st₁.history c) :
    op.Applied v st' := by
  cases op with
  | createUser u => exact applied_created (replicate_effect h)
  | sendMessage c u t =>
    obtain ⟨id, ch, rfl, -, found, rfl⟩ := replicate_send h
    simp only [Op.Applied, AppState.history, channelOrNew_setChannel, if_true]
    have hch : st.history c = ch.messages := by
      rw [AppState.history, channelOrNew_of_channel found]
    by_cases hkey : ch.messages.HasKey (Message.key ⟨u, t, id⟩)
    · obtain ⟨m, hm, hk⟩ := hkey
      have hm' : m ∈ st₁.history c := behind c u t rfl m (hch ▸ hm)
      obtain rfl := KeySet.eq_of_key hm' ha hk
      exact KeySet.mem_insert_of_mem hm
    · exact KeySet.mem_insert_self hkey
  | _ => trivial

end Applied

/-! ## What a step does to the stores -/

section Stores

variable {hash : String → ℕ} {σ σ' : Servers} {op : Op} {stack stack' : List Frame}

theorem applied_grows {op : Op} {v : Value} {s : ServerId} (h : σ.Grows σ')
    (ha : op.Applied v (σ.store s)) : op.Applied v (σ'.store s) := by
  cases op with
  | createUser u => exact h.users s ha
  | sendMessage c u t =>
    cases v with
    | messageId id => exact h.history s c _ ha
    | _ => trivial
  | _ => trivial

theorem primary_history (h : Advance hash σ op stack σ' stack') {req : ℕ}
    (known : Known hash σ req op stack) (c : String) :
    ((σ'.store (channelOwner hash c).primary).history c =
        (σ.store (channelOwner hash c).primary).history c ∧
      (σ'.store (channelOwner hash c).primary).nextId c =
        (σ.store (channelOwner hash c).primary).nextId c) ∨
    ∃ u t v st rest, op = .sendMessage c u t ∧
      stack = .call (channelOwner hash c).primary .commit :: rest ∧
      op.locked (σ.store (channelOwner hash c).primary) = some (.ok v, st) ∧
      σ' = σ.setStore (channelOwner hash c).primary st := by
  by_cases other : ∀ u t, op ≠ .sendMessage c u t
  · left
    rcases advance_effect h (channelOwner hash c).primary with hs | ⟨r, hr⟩
    · rw [hs]; exact ⟨rfl, rfl⟩
    · exact effect_history hr other
  · push Not at other
    obtain ⟨u, t, rfl⟩ := other
    rcases advance_store h with hstore | ⟨s, r, st, rest, rfl, locked, rfl⟩ |
      ⟨s, v, r, st, rest, rfl, locked, rfl⟩
    · rw [hstore]; exact Or.inl ⟨rfl, rfl⟩
    · by_cases hs : (channelOwner hash c).primary = s
      · subst hs
        cases r with
        | error e =>
          rw [locked_send_error locked, setStore_self]
          exact Or.inl ⟨rfl, rfl⟩
        | ok v => exact Or.inr ⟨u, t, v, st, rest, rfl, rfl, locked, rfl⟩
      · simp [hs]
    · obtain ⟨config, howner, rfl⟩ := known.1.routed
      obtain rfl : channelOwner hash c = config := Option.some.inj howner
      simp [channelOwner_ne hash c]

end Stores

/-! ## The invariant -/

/-- Only a crashed server is marked failed, and at most one server has crashed. -/
structure Servers.Sound (σ : Servers) : Prop where
  marked : ∀ s p, σ.view s p = false → σ.crashed p = true
  once : ∀ s p, σ.crashed s = true → σ.crashed p = true → s = p

/-- Some server has marked `p` failed. -/
def Servers.Marked (σ : Servers) (p : ServerId) : Prop := ∃ s, σ.view s p = false

/-- The primary's messages are numbered by its counter. -/
def Servers.Numbered (hash : String → ℕ) (σ : Servers) : Prop :=
  ∀ c, ∀ m ∈ (σ.store (channelOwner hash c).primary).history c,
    ∃ n < (σ.store (channelOwner hash c).primary).nextId c, m.messageId = formatMessageId c n

/-- As long as it has not marked the primary failed, the backup shows nothing that the primary does
not. -/
def Servers.Behind (hash : String → ℕ) (σ : Servers) : Prop :=
  ∀ op v config, Op.owner hash op = some config → σ.view config.backup config.primary = true →
    op.Applied v (σ.store config.backup) → op.Applied v (σ.store config.primary)

/-- The operation is in the stores of both its owners, but for one that was marked failed. -/
def Servers.Safe (σ : Servers) (config : LocationConfig) (op : Op) (v : Value) : Prop :=
  (op.Applied v (σ.store config.primary) ∨ σ.Marked config.primary) ∧
    (op.Applied v (σ.store config.backup) ∨ σ.Marked config.backup)

/-- What the stores show of an operation at each stage. The successes of the `tracked` operations
are to last. -/
def lasting (hash : String → ℕ) (tracked : Op → Prop) : Stages Unit where
  servers _ σ := σ.Numbered hash ∧ σ.Behind hash
  stage _ σ _ op config
    | .applied s v => s = config.primary ∨ tracked op → op.Applied v (σ.store s)
    | .awaiting v | .requested v => op.Applied v (σ.store config.primary)
    | .answered v v' => (op.Applied v (σ.store config.primary) ∧
        op.Applied v (σ.store config.backup)) ∧ ∀ st, op.Applied v st → op.Applied v' st
    | .acked v => tracked op → σ.Safe config op v

variable {hash : String → ℕ} {tracked : Op → Prop} {σ σ' : Servers} {op : Op}

theorem safe_grows (h : σ.Grows σ') {config : LocationConfig} {v : Value}
    (hs : σ.Safe config op v) : σ'.Safe config op v := by
  have hmarked : ∀ p, σ.Marked p → σ'.Marked p := fun p ⟨s, hs⟩ => ⟨s, h.view s p hs⟩
  exact hs.imp (Or.imp (applied_grows h) (hmarked _)) (Or.imp (applied_grows h) (hmarked _))

theorem numbered_advance {stack stack' : List Frame} {req : ℕ}
    (h : Advance hash σ op stack σ' stack') (known : Known hash σ req op stack)
    (numbered : σ.Numbered hash) : σ'.Numbered hash := by
  intro c m hm
  rcases primary_history h known c with ⟨hhist, hnext⟩ | ⟨u, t, v, st, rest, rfl, rfl, locked, rfl⟩
  · rw [hhist] at hm
    rw [hnext]
    exact numbered c m hm
  · obtain ⟨ch, found, -, rfl, rfl⟩ := locked_send locked
    simp only [setStore_store, Function.update_self, AppState.history, AppState.nextId,
      channelOrNew_setChannel, if_true, KeySet.mem_insert] at hm ⊢
    rcases hm with hm | ⟨rfl, -⟩
    · rw [← channelOrNew_of_channel found] at hm
      obtain ⟨n, hn, hid⟩ := numbered c m hm
      rw [AppState.nextId, channelOrNew_of_channel found] at hn
      exact ⟨n, by omega, hid⟩
    · exact ⟨ch.nextMessageId, by omega, rfl⟩

theorem numbered_fresh (numbered : σ.Numbered hash) {config : LocationConfig}
    (owner : op.owner hash = some config) : op.Fresh (σ.store config.primary) := by
  cases op with
  | sendMessage c u t =>
    obtain rfl : channelOwner hash c = config := Option.some.inj owner
    rintro ⟨m, hm, hkey⟩
    obtain ⟨n, hn, hid⟩ := numbered c m hm
    rw [Message.key_eq hid] at hkey
    omega
  | _ => trivial

/-- A replicate request is for something that the primary shows. -/
theorem behind_advance {stack stack' : List Frame} {req : ℕ}
    (h : Advance hash σ op stack σ' stack') (known : Known hash σ req op stack)
    (behind : σ.Behind hash)
    (requested : ∀ s v rest config, stack = .request s (.replicate v) :: rest →
      op.owner hash = some config → op.Applied v (σ.store config.primary)) : σ'.Behind hash := by
  intro op' v config howner htrusts ha
  rw [(advance_view h).1] at htrusts
  -- what the backup already showed is at the primary; a new entry is this step's
  have hold : op'.Applied v (σ.store config.backup) → op'.Applied v (σ'.store config.primary) :=
    fun ha => applied_grows (grows_advance h) (behind op' v config howner htrusts ha)
  rcases advance_store h with hstore | ⟨s, r, st, rest, rfl, locked, rfl⟩ |
    ⟨s, v', r, st, rest, rfl, locked, rfl⟩
  · exact hold (hstore ▸ ha)
  · by_cases hs : config.backup = s
    · subst hs
      simp only [setStore_store, Function.update_self] at ha
      rcases applied_new (locked_effect locked) ha with ha | ⟨rfl, -⟩
      · exact hold ha
      · obtain ⟨config', howner', howns⟩ := known.1.routed rfl
        obtain rfl := owner_unique howner howner'
        rcases howns with hs | ⟨-, hview⟩
        · exact absurd hs.symm (owner_ne howner)
        · simp [htrusts] at hview
    · simp only [setStore_store, Function.update_of_ne hs] at ha
      exact hold ha
  · by_cases hs : config.backup = s
    · subst hs
      simp only [setStore_store, Function.update_self] at ha
      rcases applied_new (replicate_effect locked) ha with ha | ⟨rfl, v'', rfl, himp⟩
      · exact hold ha
      · have hprimary : op'.Applied v' (σ.store config.primary) :=
          requested _ _ _ _ rfl howner
        exact applied_grows (grows_advance h) (himp _ (applied_answer locked hprimary))
    · simp only [setStore_store, Function.update_of_ne hs] at ha
      exact hold ha

theorem sound_advance (h : Advance hash σ op stack σ' stack') (sound : σ.Sound) : σ'.Sound := by
  obtain ⟨hview, hcrashed⟩ := advance_view h
  exact ⟨by rw [hview, hcrashed]; exact sound.marked, by rw [hcrashed]; exact sound.once⟩

theorem sound_suspect {s p : ServerId} (sound : σ.Sound) (crashed : σ.crashed p = true) :
    (σ.suspect s p).Sound := by
  refine ⟨fun t q hq => ?_, sound.once⟩
  rw [suspect_view] at hq
  split_ifs at hq with heq
  · exact heq.2 ▸ crashed
  · exact sound.marked t q hq

theorem sound_crash {s : ServerId} (sound : σ.Sound) (none : ∀ t, σ.crashed t = false) :
    (σ.crash s).Sound := by
  have honly : ∀ t, (σ.crash s).crashed t = true → t = s := fun t ht => by
    by_contra hne
    simp [Function.update_of_ne hne, none] at ht
  refine ⟨fun t q hq => ?_, fun t q ht hq => by rw [honly t ht, honly q hq]⟩
  have := sound.marked t q hq
  simp [none q] at this

theorem crashStop_crash {condition : Servers → Op → List Frame → Bool}
    (allowed : (crashStop.where' condition).crash σ = true) (t : ServerId) :
    σ.crashed t = false := by
  simp only [Policy.where', crashStop, Bool.and_eq_true, Bool.not_eq_true'] at allowed
  cases t
  exacts [allowed.1.1, allowed.1.2, allowed.2]

theorem sound_where {condition : Servers → Op → List Frame → Bool} {es : List Event} {w : World}
    (run : Reaches hash (crashStop.where' condition) es w) : w.servers.Sound := by
  refine run.invariant (P := fun w => w.servers.Sound) ⟨nofun, nofun⟩ ?_
  intro w e w' sound allowed taken
  cases step_cases taken with
  | advanced j pre post σ' stack' jobs advance => exact sound_advance advance sound
  | suspected s p other live => exact sound_suspect sound allowed
  | crashed s live => exact sound_crash sound (crashStop_crash allowed)
  | _ => exact sound

theorem sound {es : List Event} {w : World} (run : Reaches hash crashStop es w) :
    w.servers.Sound :=
  have unrestricted : Reaches hash (crashStop.where' fun _ _ _ => true) es w := run
  sound_where unrestricted

/-- The stages of one operation follow from each other in every run. Only the commit of a tracked
operation at the backup needs more: that the policy lets it take fresh numbers only. -/
theorem lasting_preserved {policy : Policy}
    (fresh : ∀ σ op config s v st rest, Op.owner hash op = some config → tracked op →
      s ≠ config.primary → policy.advance σ op (.call s .commit :: rest) = true →
      σ.poisoned s = false → op.locked (σ.store s) = some (.ok v, st) → op.Fresh (σ.store s)) :
    (lasting hash tracked).Preserved hash policy noTick (Known hash) fun _ _ _ => True where
  known _ _ _ _ h := h
  still _ _ _ _ _ _ := rfl
  refl _ _ := trivial
  grow _ _ _ _ _ op config x _ _ grows h := by
    cases x with
    | applied s v => exact fun hs => applied_grows grows (h hs)
    | awaiting v | requested v => exact applied_grows grows h
    | answered v v' => exact ⟨h.1.imp (applied_grows grows) (applied_grows grows), h.2⟩
    | acked v => exact fun ht => safe_grows grows (h ht)
  advance _ σ _ op _ _ _ servers frame known _ h := by
    refine ⟨trivial, numbered_advance h known servers.1, behind_advance h known servers.2 ?_⟩
    rintro s v rest config rfl howner
    exact frame.1 known.1.reached config howner _ rfl
  suspect _ σ s p servers _ _ := by
    refine ⟨servers.1, fun op v config howner htrusts => servers.2 op v config howner ?_⟩
    rw [suspect_view] at htrusts
    split_ifs at htrusts
    exact htrusts
  crash _ _ _ servers _ := servers
  commit _ σ _ op config s v st rest _ howner servers _ allowed _ hpoisoned _ locked := by
    intro hs
    simp only [setStore_store, Function.update_self]
    refine applied_commit locked ?_
    by_cases hprimary : s = config.primary
    · exact hprimary ▸ numbered_fresh servers.1 howner
    · exact fresh σ op config s v st rest howner (hs.resolve_left hprimary) hprimary allowed
        hpoisoned locked
  alone _ σ _ op config s v _ howner _ howns halone h := by
    intro ht
    have ha := h (Or.inr ht)
    rcases howns with rfl | ⟨rfl, hview⟩
    · exact ⟨Or.inl ha, Or.inr ⟨_, halone.resolve_left (owner_ne howner).symm⟩⟩
    · exact ⟨Or.inr ⟨_, hview⟩, Or.inl ha⟩
  send _ _ _ _ _ _ _ _ h := ⟨h (Or.inl rfl), h (Or.inl rfl)⟩
  answer _ σ _ op config v v' st rest _ howner servers _ _ _ heard hprimary locked := by
    refine ⟨⟨?_, ?_⟩, fun _ => applied_answer locked⟩
    · rwa [setStore_store, Function.update_of_ne (owner_ne howner)]
    · -- the backup trusts the primary, so it has nothing else under this number
      rw [setStore_store, Function.update_self]
      refine applied_replicate locked hprimary ?_
      rintro c u t rfl m hm
      exact servers.2 (.sendMessage c m.username m.text) (.messageId m.messageId) config howner
        heard hm
  finish _ σ _ op config v v' _ _ _ _ _ h :=
    fun _ => ⟨Or.inl (h.2 _ h.1.1), Or.inl (h.2 _ h.1.2)⟩
  giveUp _ _ _ _ _ _ _ _ _ _ failed h := fun _ => ⟨Or.inl h, Or.inr ⟨_, failed⟩⟩

theorem lasting_init (hash : String → ℕ) (tracked : Op → Prop) :
    (lasting hash tracked).servers () World.init.servers := by
  refine ⟨fun c m hm => ?_, fun op v config _ _ ha => ?_⟩
  · simp [World.init] at hm
  · cases op with
    | createUser u => simp [Op.Applied, World.init] at ha
    | sendMessage c u t =>
      cases v with
      | messageId id => simp [Op.Applied, World.init] at ha
      | _ => trivial
    | _ => trivial

/-- What was acknowledged is safe, for the operations that take fresh numbers only. -/
theorem lasting_holds (tracked : Op → Prop) {policy : Policy}
    (fresh : ∀ σ op config s v st rest, Op.owner hash op = some config → tracked op →
      s ≠ config.primary → policy.advance σ op (.call s .commit :: rest) = true →
      σ.poisoned s = false → op.locked (σ.store s) = some (.ok v, st) → op.Fresh (σ.store s))
    {es : List Event} {w : World} (run : Reaches hash policy es w) :
    ((lasting hash tracked).inv hash).Holds () w :=
  (lasting_preserved fresh).inv.holds_init (g := ()) known (lasting_init hash tracked) run

end MiniDiscord.Cluster
