import MiniDiscord.Cluster.Mirror

/-!
# What the servers hold as one central store

For each key one server holds what the central store holds under it, without failures the primary.
A local operation at this server is the same operation at the central store, and what another owner
of the key does is nothing to either.
-/

namespace MiniDiscord.Cluster

open DiscordStateops

variable {hash : String → ℕ} {holder : LocationConfig → ServerId} {σ σ' : Servers} {op : Op}
  {config : LocationConfig} {s : ServerId} {st st' : AppState} {r : StateResult Value}
  {c u : String} {x : Update}

/-! ## The holders of the keys -/

/-- The central store holds what the holder of each key holds under it. -/
structure Held (hash : String → ℕ) (holder : LocationConfig → ServerId) (σ : Servers)
    (st : AppState) : Prop where
  users : ∀ u, u ∈ st.users ↔ u ∈ (σ.store (holder (userOwner hash u))).users
  channels : ∀ c, st.channel c = (σ.store (holder (channelOwner hash c))).channel c
  tallied : ∀ c, Tallied c st

/-- The central store holds what the primaries hold under their keys. -/
abbrev Primaries (hash : String → ℕ) : Servers → AppState → Prop :=
  Held hash LocationConfig.primary

theorem Mirrors.held (m : Mirrors hash σ st) : Held hash σ.authority σ st where
  users u := m.users u _ (authority_live m.once (userOwner_ne hash u)) authority_held
  channels c := m.channels c _ (authority_live m.once (channelOwner_ne hash c)) authority_held
  tallied := m.tallied

theorem Held.agree (h : Held hash holder σ st) (owner : op.owner hash = some config) :
    Agree op (σ.store (holder config)) st := by
  cases op with
  | getUsers | getChannels => cases owner
  | createUser u | userExists u =>
    obtain rfl := Option.some.inj owner
    exact (h.users u).symm
  | joinChannel u c | leaveChannel u c | listChannelUsers c | sendMessage c u t
  | getMessages c limit offset =>
    obtain rfl := Option.some.inj owner
    exact (h.channels c).symm

theorem Held.same (h : Held hash holder σ st) (store : σ'.store = σ.store) :
    Held hash holder σ' st := by
  constructor
  · rw [store]
    exact h.users
  · rw [store]
    exact h.channels
  · exact h.tallied

/-- The change at the holder of its key, and at the central store. -/
theorem Held.commit (h : Held hash holder σ st)
    (hx : x = .keep ∨ x.owner hash = some config) (tallied : ∀ c, Tallied c (x.apply st)) :
    Held hash holder (σ.setStore (holder config) (x.apply (σ.store (holder config))))
      (x.apply st) where
  users u := by
    rw [mem_apply_users, h.users u, setStore_store, Function.update_apply]
    split_ifs with hholder
    · rw [mem_apply_users, hholder]
    · have hu : x ≠ .user u := by
        rintro rfl
        obtain rfl : userOwner hash u = config := Option.some.inj (hx.resolve_left nofun)
        exact hholder rfl
      simp [hu]
  channels c := by
    rw [setStore_store, Function.update_apply]
    by_cases hc : ∃ ch, x = .channel c ch
    · obtain ⟨ch, rfl⟩ := hc
      obtain rfl : channelOwner hash c = config := Option.some.inj (hx.resolve_left nofun)
      rw [if_pos rfl, channel_apply_self, channel_apply_self]
    · have hkeep : ∀ st, (x.apply st).channel c = st.channel c :=
        fun st => channel_apply fun ch hch => hc ⟨ch, hch⟩
      rw [hkeep, h.channels c]
      split_ifs with hholder
      · rw [hkeep, hholder]
      · rfl
  tallied := tallied

/-- Another owner of the key holds other keys only. -/
theorem Held.replicate (h : Held hash holder σ st)
    (hx : x = .keep ∨ x.owner hash = some config) (hne : holder config ≠ s) :
    Held hash holder (σ.setStore s (x.apply (σ.store s))) st where
  users u := by
    rw [h.users u, setStore_store, Function.update_apply]
    split_ifs with hs
    · have hu : x ≠ .user u := by
        rintro rfl
        obtain rfl : userOwner hash u = config := Option.some.inj (hx.resolve_left nofun)
        exact hne hs
      simp [mem_apply_users, hu, hs]
    · rfl
  channels c := by
    rw [h.channels c, setStore_store, Function.update_apply]
    split_ifs with hs
    · have hkeep : (x.apply (σ.store s)).channel c = (σ.store s).channel c := by
        refine channel_apply fun ch => ?_
        rintro rfl
        obtain rfl : channelOwner hash c = config := Option.some.inj (hx.resolve_left nofun)
        exact hne hs
      rw [hkeep, hs]
    · rfl
  tallied := h.tallied

theorem effect_update (hash : String → ℕ) (h : Effect op st r st') :
    ∃ x : Update, st' = x.apply st ∧ (x = .keep ∨ x.owner hash = op.owner hash) := by
  cases h with
  | refused | read => exact ⟨.keep, rfl, Or.inl rfl⟩
  | created u => exact ⟨.user u, rfl, Or.inr rfl⟩
  | joined u c => exact ⟨.channel c _, rfl, Or.inr rfl⟩
  | left u c => exact ⟨.channel c _, rfl, Or.inr rfl⟩
  | appended c => exact ⟨.channel c _, rfl, Or.inr rfl⟩

theorem locked_tallied (h : op.locked st = some (r, st')) (tallied : Tallied c st) :
    Tallied c st' := by
  by_cases other : ∀ u t, op ≠ .sendMessage c u t
  · exact tallied_other tallied (locked_effect h) other
  · push Not at other
    obtain ⟨u, t, rfl⟩ := other
    rcases r with e | v
    · rwa [locked_send_error h]
    · exact (tallied_send tallied h).2

/-- A local operation at the holder is the operation at the central store. -/
theorem Held.locked (h : Held hash holder σ st) (owner : op.owner hash = some config)
    (locked : op.locked (σ.store (holder config)) = some (r, st')) :
    ∃ x : Update, st' = x.apply (σ.store (holder config)) ∧
      op.locked st = some (r, x.apply st) ∧
      Held hash holder (σ.setStore (holder config) st') (x.apply st) := by
  have hroute : op.owner hash ≠ none := by simp [owner]
  obtain ⟨x, rfl, follows⟩ := locked_follows hroute locked
  have hcentral := follows.local' st (h.agree owner)
  refine ⟨x, rfl, hcentral, h.commit ?_ fun c => locked_tallied hcentral (h.tallied c)⟩
  exact follows.owner.imp_right fun hx => hx.1.trans owner

/-! ## Checks that last -/

theorem checks_apply (h : op.checks st = .ok ()) : op.checks (x.apply st) = .ok () := by
  have hlater : ∀ c, checkChannel c st = .ok () → checkChannel c (x.apply st) = .ok () := by
    intro c hc
    obtain ⟨hvalid, ch, found⟩ := checkChannel_ok.mp hc
    refine checkChannel_ok.mpr ⟨hvalid, ?_⟩
    by_cases hx : ∃ ch', x = .channel c ch'
    · obtain ⟨ch', rfl⟩ := hx
      exact ⟨ch', channel_apply_self⟩
    · exact ⟨ch, (channel_apply fun ch' hch => hx ⟨ch', hch⟩).trans found⟩
  cases op with
  | leaveChannel u c => exact hlater c h
  | sendMessage c u t => exact hlater c h
  | _ => rfl

theorem present_apply (h : ¬ op.Absent st) : ¬ op.Absent (x.apply st) := by
  rintro ⟨hentry, u, huser, hu⟩
  exact h ⟨hentry, u, huser, fun hmem => hu (mem_apply_users.mpr (Or.inl hmem))⟩

theorem Held.checks (h : Held hash holder σ st) (owner : op.owner hash = some config) :
    op.checks st = op.checks (σ.store (holder config)) := by
  have hagree := h.agree owner
  cases op with
  | leaveChannel u c | sendMessage c u t =>
    have hsame : (σ.store (holder config)).channel c = st.channel c := hagree
    simp [Op.checks, checkChannel, channelExists, hsame]
  | _ => rfl

theorem absent_iff (hentry : op.entry ≠ .commit) (user : op.username? = some u) :
    op.Absent st ↔ u ∉ st.users := by
  constructor
  · rintro ⟨-, u', huser, hu⟩
    obtain rfl := Option.some.inj (user.symm.trans huser)
    exact hu
  · exact fun hu => ⟨hentry, u, user, hu⟩

end MiniDiscord.Cluster
