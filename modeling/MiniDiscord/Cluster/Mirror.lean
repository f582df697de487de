import MiniDiscord.Cluster.Central

/-!
# Three servers that mirror one store

Between two requests, what the running owners of a key hold under it is what the central store
holds, and no server holds anything that the central store does not.
-/

namespace MiniDiscord.Cluster

open DiscordStateops

def HeldBy (config : LocationConfig) (s : ServerId) : Prop := s = config.primary ∨ s = config.backup

structure Mirrors (hash : String → ℕ) (σ : Servers) (central : AppState) : Prop where
  once : ∀ s p, σ.crashed s = true → σ.crashed p = true → s = p
  unpoisoned : ∀ s, σ.poisoned s = false
  users : ∀ u s, σ.crashed s = false → HeldBy (userOwner hash u) s →
    (u ∈ central.users ↔ u ∈ (σ.store s).users)
  channels : ∀ c s, σ.crashed s = false → HeldBy (channelOwner hash c) s →
    central.channel c = (σ.store s).channel c
  known_users : ∀ s, (σ.store s).users ⊆ central.users
  known_channels : ∀ s c ch, (σ.store s).channel c = some ch → ∃ ch', central.channel c = some ch'
  tallied : ∀ c, Tallied c central

/-- Every running server has marked the crashed one failed, and no other. -/
def Servers.Settled (σ : Servers) : Prop :=
  ∀ s p, σ.crashed s = false → σ.view s p = !σ.crashed p

instance : Fintype ServerId := ⟨{.A, .B, .C}, fun s => by cases s <;> decide⟩

instance (σ : Servers) : Decidable σ.Settled :=
  inferInstanceAs (Decidable (∀ s p, σ.crashed s = false → σ.view s p = !σ.crashed p))

/-- The server that answers for a key. -/
def Servers.authority (σ : Servers) (config : LocationConfig) : ServerId :=
  if σ.crashed config.primary then config.backup else config.primary

variable {hash : String → ℕ} {σ σ' : Servers} {op : Op} {config : LocationConfig}
  {central : AppState} {s : ServerId} {x : Update} {st : AppState} {c d u : String}

theorem Mirrors.agree (m : Mirrors hash σ central) (owner : op.owner hash = some config)
    (live : σ.crashed s = false) (held : HeldBy config s) : Agree op central (σ.store s) := by
  cases op with
  | getUsers | getChannels => cases owner
  | createUser u | userExists u =>
    obtain rfl := Option.some.inj owner
    exact m.users u s live held
  | joinChannel u c | leaveChannel u c | listChannelUsers c | sendMessage c u t
  | getMessages c limit offset =>
    obtain rfl := Option.some.inj owner
    exact m.channels c s live held

theorem authority_held : HeldBy config (σ.authority config) := by
  unfold Servers.authority
  split_ifs
  · exact Or.inr rfl
  · exact Or.inl rfl

theorem authority_live (once : ∀ s p, σ.crashed s = true → σ.crashed p = true → s = p)
    (hne : config.primary ≠ config.backup) : σ.crashed (σ.authority config) = false := by
  unfold Servers.authority
  split_ifs with hprimary
  · by_contra hbackup
    exact hne (once _ _ hprimary (by simpa using hbackup))
  · simpa using hprimary

theorem authoritative_authority (settled : σ.Settled) (live : σ.crashed s = false) :
    σ.authoritative s config = true ↔ s = σ.authority config := by
  rw [authoritative_iff, Servers.Owns, settled s _ live]
  unfold Servers.authority
  cases hprimary : σ.crashed config.primary with
  | false => simp
  | true =>
    have hne : s ≠ config.primary := by rintro rfl; simp [hprimary] at live
    simp [hne]

/-! ## Changes -/

theorem mem_apply_users : u ∈ (x.apply st).users ↔ u ∈ st.users ∨ x = .user u := by
  cases x with
  | keep | channel => simp [Update.apply]
  | user u' => simp [Update.apply, or_comm, eq_comm]

theorem channel_apply_self {ch : Channel} :
    ((Update.channel c ch).apply st).channel c = some ch := by
  rw [Update.apply, channel_setChannel, if_pos rfl]

theorem channel_apply (h : ∀ ch, x ≠ .channel c ch) : (x.apply st).channel c = st.channel c := by
  cases x with
  | keep | user => rfl
  | channel d ch =>
    have hd : c ≠ d := by rintro rfl; exact h ch rfl
    rw [Update.apply, channel_setChannel, if_neg hd]

/-- The same change at every running owner, and at the central store. -/
theorem Mirrors.apply (m : Mirrors hash σ central) (hx : x = .keep ∨ x.owner hash = some config)
    (crashed : σ'.crashed = σ.crashed) (poisoned : σ'.poisoned = σ.poisoned)
    (store : ∀ s, σ'.store s = x.apply (σ.store s) ∨
      σ'.store s = σ.store s ∧ (σ.crashed s = false → ¬ HeldBy config s))
    (tallied : ∀ c, Tallied c (x.apply central)) : Mirrors hash σ' (x.apply central) where
  once := by rw [crashed]; exact m.once
  unpoisoned := by rw [poisoned]; exact m.unpoisoned
  users u s live held := by
    rw [crashed] at live
    have hsame := m.users u s live held
    rcases store s with hs | ⟨hs, hnot⟩
    · rw [hs, mem_apply_users, mem_apply_users, hsame]
    · have hu : x ≠ .user u := by
        rintro rfl
        obtain rfl : userOwner hash u = config := Option.some.inj (hx.resolve_left nofun)
        exact hnot live held
      rw [hs, mem_apply_users, hsame]
      simp [hu]
  channels c s live held := by
    rw [crashed] at live
    have hsame := m.channels c s live held
    by_cases hc : ∃ ch, x = .channel c ch
    · obtain ⟨ch, rfl⟩ := hc
      obtain rfl : channelOwner hash c = config := Option.some.inj (hx.resolve_left nofun)
      rcases store s with hs | ⟨hs, hnot⟩
      · rw [hs, channel_apply_self, channel_apply_self]
      · exact absurd held (hnot live)
    · have hkeep : ∀ st, (x.apply st).channel c = st.channel c :=
        fun st => channel_apply fun ch hch => hc ⟨ch, hch⟩
      rcases store s with hs | ⟨hs, -⟩
      · rw [hs, hkeep, hkeep, hsame]
      · rw [hs, hkeep, hsame]
  known_users s u hu := by
    rw [mem_apply_users]
    rcases store s with hs | ⟨hs, -⟩
    · rw [hs, mem_apply_users] at hu
      exact hu.imp_left (m.known_users s ·)
    · rw [hs] at hu
      exact Or.inl (m.known_users s hu)
  known_channels s c ch found := by
    by_cases hc : ∃ ch, x = .channel c ch
    · obtain ⟨ch', rfl⟩ := hc
      exact ⟨ch', channel_apply_self⟩
    · have hkeep : ∀ st, (x.apply st).channel c = st.channel c :=
        fun st => channel_apply fun ch hch => hc ⟨ch, hch⟩
      rw [hkeep]
      rcases store s with hs | ⟨hs, -⟩
      · rw [hs, hkeep] at found
        exact m.known_channels s c ch found
      · rw [hs] at found
        exact m.known_channels s c ch found
  tallied := tallied

theorem Mirrors.crash (m : Mirrors hash σ central) (none : ∀ p, σ.crashed p = false)
    (s : ServerId) : Mirrors hash (σ.crash s) central where
  once t p ht hp := by
    simp only [crash_crashed, Function.update_apply, none] at ht hp
    split_ifs at ht hp with h h'
    rw [h, h']
  unpoisoned := m.unpoisoned
  users u t _ := m.users u t (none t)
  channels c t _ := m.channels c t (none t)
  known_users := m.known_users
  known_channels := m.known_channels
  tallied := m.tallied

/-! ## The start -/

theorem createChannel_channel : (createChannel d st).2.channel c =
    if c = d ∧ st.channel d = none then some .new else st.channel c := by
  unfold createChannel
  cases hd : st.channel d with
  | some ch => simp [channelExists, hd]
  | none => simp [channelExists, hd, channel_setChannel]

@[simp] theorem new_channel : AppState.new.channel c = none := rfl

theorem centralInit_channel : centralInit.channel c =
    if c = "#cs249" ∨ c = "#distributed" ∨ c = "#systems" then some .new else none := by
  simp only [centralInit, createChannel_channel, new_channel]
  split_ifs <;> simp_all

theorem initStore_channel (held : HeldBy (channelOwner hash c) s) :
    (initStore s).channel c = centralInit.channel c := by
  have hcases : c = "#cs249" ∨ c = "#distributed" ∨ c = "#systems" ∨
      (c ≠ "#cs249" ∧ c ≠ "#distributed" ∧ c ≠ "#systems") := by tauto
  rcases hcases with rfl | rfl | rfl | ⟨h₁, h₂, h₃⟩
  · rcases held with rfl | rfl <;> rfl
  · rcases held with rfl | rfl <;> rfl
  · rcases held with rfl | rfl <;> rfl
  · cases s <;> simp [initStore, createChannel_channel, centralInit_channel, h₁, h₂, h₃]

theorem initStore_known {ch : Channel} (found : (initStore s).channel c = some ch) :
    ∃ ch', centralInit.channel c = some ch' := by
  rw [centralInit_channel]
  cases s <;> simp only [initStore, createChannel_channel, new_channel] at found <;>
    split_ifs at found ⊢ <;> simp_all

theorem mirrors_init : Mirrors hash World.init.servers centralInit where
  once s p h := by cases h
  unpoisoned _ := rfl
  users u s _ _ := by
    have hcentral : centralInit.users = ∅ := rfl
    simp [World.init, hcentral]
  channels c s _ held := (initStore_channel held).symm
  known_users s := by simp [World.init]
  known_channels s c ch found := initStore_known found
  tallied c := by
    have hnew : centralInit.channelOrNew c = .new := by
      rw [AppState.channelOrNew, centralInit_channel]
      split_ifs <;> rfl
    refine ⟨fun m hm => ?_, ?_⟩
    · rw [AppState.history, hnew] at hm
      simp [Channel.new] at hm
    · rw [AppState.nextId, AppState.history, hnew]
      rfl

end MiniDiscord.Cluster
