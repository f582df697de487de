import MiniDiscord.Cluster.Mirror

/-!
# Where data is

Every user and every channel is at one of its two owners, whatever the servers believe of each
other: a forwarded operation is routed again where it arrives, and an operation runs its local part
at an owner only.
-/

namespace MiniDiscord.Cluster

open DiscordStateops

/-- A server holds no key of other owners. -/
structure OwnKeys (hash : String → ℕ) (s : ServerId) (st : AppState) : Prop where
  users : ∀ u ∈ st.users, HeldBy (userOwner hash u) s
  channels : ∀ c ch, st.channel c = some ch → HeldBy (channelOwner hash c) s

variable {hash : String → ℕ} {σ σ' : Servers} {op : Op} {config : LocationConfig} {s : ServerId}
  {st st' : AppState} {r : StateResult Value} {req : ℕ} {stack stack' : List Frame}

theorem owns_held (h : σ.Owns config s) : HeldBy config s := h.imp_right And.left

theorem createChannel_ownKeys {d : String} (own : OwnKeys hash s st)
    (held : HeldBy (channelOwner hash d) s) : OwnKeys hash s (createChannel d st).2 := by
  constructor
  · intro u hu
    unfold createChannel at hu
    split_ifs at hu <;> exact own.users u hu
  · intro c ch found
    rw [createChannel_channel] at found
    split_ifs at found with hc
    · rw [hc.1]
      exact held
    · exact own.channels c ch found

theorem ownKeys_init (hash : String → ℕ) (s : ServerId) : OwnKeys hash s (initStore s) := by
  have hnew : OwnKeys hash s .new := by
    constructor
    · intro u hu
      simp [AppState.new] at hu
    · intro c ch found
      simp at found
  cases s with
  | A => exact createChannel_ownKeys (createChannel_ownKeys hnew (Or.inr rfl)) (Or.inl rfl)
  | B => exact createChannel_ownKeys (createChannel_ownKeys hnew (Or.inr rfl)) (Or.inl rfl)
  | C => exact createChannel_ownKeys (createChannel_ownKeys hnew (Or.inr rfl)) (Or.inl rfl)

theorem effect_ownKeys (h : Effect op st r st')
    (held : ∀ config, op.owner hash = some config → HeldBy config s) (own : OwnKeys hash s st) :
    OwnKeys hash s st' := by
  constructor
  · intro u hu
    rcases effect_users h with hsame | ⟨u', rfl, -, -, hadded⟩
    · rw [hsame] at hu
      exact own.users u hu
    · rw [hadded] at hu
      rcases Finset.mem_insert.mp hu with rfl | hu
      · exact held _ rfl
      · exact own.users u hu
  · intro c ch found
    rcases effect_new_channel h found with ⟨ch', hold⟩ | ⟨u, rfl, -⟩
    · exact own.channels c ch' hold
    · exact held _ rfl

/-- A store is changed by its own operations only: at an owner that is authoritative, or by a
replicate request at the backup. -/
theorem advance_held (h : Advance hash σ op stack σ' stack') (known : Known hash σ req op stack)
    (s : ServerId) :
    σ'.store s = σ.store s ∨ ∃ r, Effect op (σ.store s) r (σ'.store s) ∧
      ∀ config, op.owner hash = some config → HeldBy config s := by
  rcases advance_store h with hstore | ⟨t, r, st, rest, rfl, locked, rfl⟩ |
    ⟨t, v, r, st, rest, rfl, locked, rfl⟩
  · exact Or.inl (by rw [hstore])
  · by_cases hs : s = t
    · subst hs
      refine Or.inr ⟨r, by simpa using locked_effect locked, ?_⟩
      intro config owner
      obtain ⟨config', owner', owns⟩ := known.1.routed rfl
      rw [owner_unique owner owner']
      exact owns_held owns
    · exact Or.inl (by simp [hs])
  · by_cases hs : s = t
    · subst hs
      refine Or.inr ⟨r, by simpa using replicate_effect locked, ?_⟩
      intro config owner
      obtain ⟨config', owner', rfl⟩ := known.1.routed
      rw [owner_unique owner owner']
      exact Or.inr rfl
    · exact Or.inl (by simp [hs])

def placement (hash : String → ℕ) : Inv Unit where
  servers _ σ := ∀ s, OwnKeys hash s (σ.store s)
  frame _ _ _ _ _ _ := True
  reply _ _ _ := True

theorem placement_preserved :
    (placement hash).Preserved hash anyFailure noTick (Known hash) where
  still _ _ _ _ _ _ := rfl
  weaken _ _ _ _ _ _ h := h
  submit _ _ _ _ _ _ := trivial
  reply _ _ _ _ _ _ _ _ _ := trivial
  giveUp _ _ _ _ _ _ _ _ _ _ _ _ _ _ _ := trivial
  suspect _ _ _ _ h _ _ := ⟨h, fun _ _ _ _ => id, fun _ => id⟩
  crash _ _ _ h _ := ⟨h, fun _ _ _ _ => id, fun _ => id⟩
  advance _ σ _ op _ σ' _ own _ known _ h := by
    refine ⟨⟨?_, fun _ _ _ _ => id, fun _ => id⟩, frames_of_all (fun _ _ => trivial) _⟩
    intro s
    rcases advance_held h known s with hs | ⟨r, heffect, hheld⟩
    · rw [hs]
      exact own s
    · exact effect_ownKeys heffect hheld (own s)

theorem own_keys {es : List Event} {w : World} (run : Reaches hash anyFailure es w)
    (s : ServerId) : OwnKeys hash s (w.servers.store s) :=
  (placement_preserved.holds_init (g := ()) known (ownKeys_init hash) run).servers s

theorem replicate_dest {es : List Event} {w : World} (run : Reaches hash anyFailure es w) {j : Job}
    (hj : j ∈ w.jobs) {dest : ServerId} {v : Value}
    (sent : .request dest (.replicate v) ∈ j.stack) :
    ∃ config, j.op.owner hash = some config ∧ dest = config.backup := by
  obtain ⟨upper, lower, hstack⟩ := List.append_of_mem sent
  have hknown : Known hash w.servers j.req j.op j.stack := known es w run j hj
  rw [hstack] at hknown
  exact (frames_lower hknown).1.routed

/-- **Data placement.** Whatever fails, and whatever the servers believe of each other: users and
channels are at their owners, and replicate requests go to the backup of the key they carry. -/
theorem data_placement {es : List Event} {w : World} (run : Reaches hash anyFailure es w) :
    (∀ s, ∀ u ∈ (w.servers.store s).users, HeldBy (userOwner hash u) s) ∧
      (∀ s c ch, (w.servers.store s).channel c = some ch → HeldBy (channelOwner hash c) s) ∧
      ∀ j ∈ w.jobs, ∀ dest v, .request dest (.replicate v) ∈ j.stack →
        ∃ config, j.op.owner hash = some config ∧ dest = config.backup := by
  refine ⟨?_, ?_, ?_⟩
  · intro s u hu
    exact (own_keys run s).users u hu
  · intro s c ch found
    exact (own_keys run s).channels c ch found
  · intro j hj dest v sent
    exact replicate_dest run hj sent

/-- `alice` is created at `A` and, because `B` wrongly marks `A` failed, created again at `B`; the
request to replicate a second user is on its way. -/
def misled : List Event :=
  asks .A (.createUser "alice") 0 2 ++ [.suspect .B .A] ++ asks .B (.createUser "alice") 1 4 ++
    asks .A (.createUser "bob") 2 3

theorem data_placement_misled :
    ∃ w, Reaches (fun _ => 0) anyFailure misled w ∧ w.servers.view .B .A = false ∧
      "alice" ∈ (w.servers.store .B).users ∧ HeldBy (userOwner (fun _ => 0) "alice") .B ∧
      ∃ j ∈ w.jobs, .request .B (.replicate .unit) ∈ j.stack ∧
        j.op.owner (fun _ => 0) = some ⟨.A, .B⟩ := by
  obtain ⟨w, run, hw⟩ := Run.exec_of_test
    (fun w : World => w.servers.view .B .A = false ∧ "alice" ∈ (w.servers.store .B).users ∧
      ∃ j ∈ w.jobs, .request .B (.replicate .unit) ∈ j.stack ∧
        j.op.owner (fun _ => 0) = some ⟨.A, .B⟩)
    (by decide : (outcome (fun _ => 0) anyFailure .init misled).any _ = true)
  obtain ⟨hview, halice, hsent⟩ := of_decide_eq_true hw
  exact ⟨w, run, hview, halice, (data_placement run).1 .B "alice" halice, hsent⟩

end MiniDiscord.Cluster
