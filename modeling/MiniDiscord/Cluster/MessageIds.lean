import MiniDiscord.Cluster.Acknowledged

/-!
# Message ids across a failover

A backup that takes over goes on counting from the number of messages it has, which may be a
number in use. As long as that does not happen an acknowledged id belongs to one request for good.
-/

namespace MiniDiscord.Cluster

open DiscordStateops

/-! ## Who an id belongs to -/

/-- No backup commits a message under a number that a message of the channel has already. A send is
rejected under a poisoned mutex, and if the user is no member. -/
def freshNumber (hash : String → ℕ) (σ : Servers) (op : Op) (stack : List Frame) : Bool :=
  match op, stack with
  | .sendMessage c u _, .call s .commit :: _ =>
    s = (channelOwner hash c).primary || σ.poisoned s || u ∉ (σ.store s).members c ||
      decide ( ¬ ((σ.store s).history c).HasKey ((σ.store s).nextId c))
  | _, _ => true

/-- The request that last took an id of the channel, at either server. -/
def senders (c : String) : Tick (String → Option ℕ) := fun g σ req _ stack σ' => match stack with
  | .call s .commit :: _ =>
    if (σ'.store s).nextId c = (σ.store s).nextId c then g
    else Function.update g (formatMessageId c ((σ.store s).nextId c)) (some req)
  | _ => g

def Owned (g : String → Option ℕ) (req : ℕ) (v : Value) : Prop :=
  ∃ id, v = .messageId id ∧ g id = some req

/-- An id changes hands only at the backup, after the primary crashed, and only an id that no
message at the backup has. -/
def Senders (hash : String → ℕ) (c : String) (σ : Servers) (g g' : String → Option ℕ) : Prop :=
  ∀ id r, g id = some r → g' id = some r ∨
    σ.crashed (channelOwner hash c).primary = true ∧ ¬ σ.Marked (channelOwner hash c).backup ∧
      ∀ m ∈ (σ.store (channelOwner hash c).backup).history c, m.messageId ≠ id

def owned (hash : String → ℕ) (c : String) : Stages (String → Option ℕ) where
  servers g σ := σ.Sound ∧ (lasting hash fun _ => True).servers () σ ∧
    (σ.crashed (channelOwner hash c).primary = false → ∀ id r, g id = some r →
      ∃ n < (σ.store (channelOwner hash c).primary).nextId c, id = formatMessageId c n)
  stage g σ req op config x := (lasting hash fun _ => True).stage () σ req op config x ∧
    ∀ u t, op = .sendMessage c u t → match x with
      | .applied s v => s = config.primary ∧ (σ.crashed config.primary = true ∨ Owned g req v) ∨
          s = config.backup ∧ Owned g req v
      | .awaiting v | .requested v | .answered _ v =>
          σ.crashed config.primary = true ∨ Owned g req v
      | .acked v => Owned g req v

variable {hash : String → ℕ} {c : String} {g g' : String → Option ℕ} {σ σ' : Servers} {op : Op}
  {req : ℕ}

theorem senders_same {stack : List Frame}
    (h : ∀ s rest, stack = .call s .commit :: rest →
      (σ'.store s).nextId c = (σ.store s).nextId c) :
    senders c g σ req op stack σ' = g := by
  unfold senders
  split
  · exact if_pos (h _ _ rfl)
  · rfl

theorem senders_send (req : ℕ) (rest : List Frame) {s : ServerId} {u t : String} {v : Value}
    {st : AppState} (locked : (Op.sendMessage c u t).locked (σ.store s) = some (.ok v, st)) :
    senders c g σ req (.sendMessage c u t) (.call s .commit :: rest) (σ.setStore s st) =
      Function.update g (formatMessageId c ((σ.store s).nextId c)) (some req) := by
  have hnext := (locked_send_nextId locked).2
  rw [senders, if_neg]
  simp [hnext]

theorem owned_update (id : String) : Owned (Function.update g id (some req)) req (.messageId id) :=
  ⟨id, rfl, Function.update_self ..⟩

theorem owned_keep {v : Value} (ho : Senders hash c σ g g') (h : Owned g req v)
    (kept : σ.crashed (channelOwner hash c).primary = true →
      ¬ σ.Marked (channelOwner hash c).backup →
      ∀ id, v = .messageId id → ∃ m ∈ (σ.store (channelOwner hash c).backup).history c,
        m.messageId = id) : Owned g' req v := by
  obtain ⟨id, rfl, hid⟩ := h
  rcases ho id req hid with hid' | ⟨hcrashed, hmarked, hother⟩
  · exact ⟨id, rfl, hid'⟩
  · obtain ⟨m, hm, hmid⟩ := kept hcrashed hmarked id rfl
    exact absurd hmid (hother m hm)

theorem owned_or_crashed {v : Value} (ho : Senders hash c σ g g') (grows : σ.Grows σ')
    (h : σ.crashed (channelOwner hash c).primary = true ∨ Owned g req v) :
    σ'.crashed (channelOwner hash c).primary = true ∨ Owned g' req v := by
  rcases hcrashed : σ.crashed (channelOwner hash c).primary with _ | _
  · rw [hcrashed] at h
    exact Or.inr (owned_keep ho (h.resolve_left (by simp)) fun h => by simp [hcrashed] at h)
  · exact Or.inl (grows.crashed _ hcrashed)

theorem freshNumber_fresh {config : LocationConfig} {s : ServerId} {v : Value} {st : AppState}
    {rest : List Frame} (owner : op.owner hash = some config) (other : s ≠ config.primary)
    (h : freshNumber hash σ op (.call s .commit :: rest) = true) (unpoisoned : σ.poisoned s = false)
    (locked : op.locked (σ.store s) = some (.ok v, st)) : op.Fresh (σ.store s) := by
  cases op with
  | sendMessage c u t =>
    obtain rfl : channelOwner hash c = config := Option.some.inj owner
    obtain ⟨ch, found, member, -⟩ := locked_send locked
    have hmember : u ∈ (σ.store s).members c := by
      rwa [AppState.members, channelOrNew_of_channel found]
    have hfresh : ¬ ((σ.store s).history c).HasKey ((σ.store s).nextId c) := by
      simpa [freshNumber, other, unpoisoned, hmember] using h
    exact hfresh
  | _ => trivial

theorem lasting_fresh (hash : String → ℕ) : (lasting hash fun _ => True).Preserved hash
    (crashStop.where' (freshNumber hash)) noTick (Known hash) fun _ _ _ => True :=
  lasting_preserved fun σ op _ s _ _ rest owner _ other h unpoisoned locked => by
    have hfresh : freshNumber hash σ op (.call s .commit :: rest) = true := by
      simpa [Policy.where', crashStop] using h
    exact freshNumber_fresh owner other hfresh unpoisoned locked

theorem owned_grow {config : LocationConfig} {x : Stage} (owner : op.owner hash = some config)
    (ho : Senders hash c σ g g') (grows : σ.Grows σ')
    (h : (owned hash c).stage g σ req op config x) :
    (owned hash c).stage g' σ' req op config x := by
  obtain ⟨hlasting, h⟩ := h
  refine ⟨(lasting_fresh hash).grow () () σ σ' req op config x owner trivial grows hlasting, ?_⟩
  rintro u t rfl
  obtain rfl : channelOwner hash c = config := Option.some.inj owner
  have hx := h u t rfl
  cases x with
  | applied s v =>
    rcases hx with ⟨rfl, hx⟩ | ⟨rfl, hx⟩
    · exact Or.inl ⟨rfl, owned_or_crashed ho grows hx⟩
    · refine Or.inr ⟨rfl, owned_keep ho hx ?_⟩
      rintro - - id rfl
      exact ⟨_, hlasting (Or.inr trivial), rfl⟩
  | awaiting v | requested v | answered _ v => exact owned_or_crashed ho grows hx
  | acked v =>
    refine owned_keep ho hx ?_
    rintro - hmarked id rfl
    exact ⟨_, (hlasting trivial).2.resolve_right hmarked, rfl⟩

/-- A send takes an id that nobody owns, or that nobody can be told of any more. -/
theorem owned_send {s : ServerId} {rest : List Frame} {u t : String} {v : Value} {st : AppState}
    (known : Known hash σ req (.sendMessage c u t) (.call s .commit :: rest))
    (live : σ.crashed s = false)
    (allowed : freshNumber hash σ (.sendMessage c u t) (.call s .commit :: rest) = true)
    (unpoisoned : σ.poisoned s = false) (servers : (owned hash c).servers g σ)
    (locked : (Op.sendMessage c u t).locked (σ.store s) = some (.ok v, st)) :
    Senders hash c σ g
        (senders c g σ req (.sendMessage c u t) (.call s .commit :: rest) (σ.setStore s st)) ∧
      (σ.crashed (channelOwner hash c).primary = false → ∀ id r,
        senders c g σ req (.sendMessage c u t) (.call s .commit :: rest) (σ.setStore s st) id =
          some r →
        ∃ n < ((σ.setStore s st).store (channelOwner hash c).primary).nextId c,
          id = formatMessageId c n) := by
  obtain ⟨sound, -, hids⟩ := servers
  obtain ⟨config, howner, howns⟩ := known.1.routed rfl
  obtain rfl : channelOwner hash c = config := Option.some.inj howner
  have hnext := (locked_send_nextId locked).2
  rw [senders_send req rest locked]
  rcases howns with rfl | ⟨rfl, hview⟩
  · refine ⟨fun id r hid => Or.inl ?_, fun _ id r hid => ?_⟩
    · rw [Function.update_of_ne, hid]
      rintro rfl
      obtain ⟨n, hn, heq⟩ := hids live _ r hid
      have := formatMessageId_inj.mp heq
      omega
    · rw [setStore_store, Function.update_self, hnext]
      by_cases heq : id = formatMessageId c
          ((σ.store (channelOwner hash c).primary).nextId c)
      · exact ⟨_, Nat.lt_succ_self _, heq⟩
      · rw [Function.update_of_ne heq] at hid
        obtain ⟨n, hn, rfl⟩ := hids live id r hid
        exact ⟨n, Nat.lt_succ_of_lt hn, rfl⟩
  · have hcrashed := sound.marked _ _ hview
    refine ⟨fun id r hid => ?_, fun hlive => by simp [hcrashed] at hlive⟩
    by_cases heq : id = formatMessageId c ((σ.store (channelOwner hash c).backup).nextId c)
    · refine Or.inr ⟨hcrashed, ?_, fun m hm hmid => ?_⟩
      · rintro ⟨t, ht⟩
        exact channelOwner_ne hash c (sound.once _ _ hcrashed (sound.marked _ _ ht))
      · have hfresh := freshNumber_fresh howner (channelOwner_ne hash c).symm allowed unpoisoned
          locked
        exact hfresh ⟨m, hm, Message.key_eq (hmid.trans heq)⟩
    · exact Or.inl (by rw [Function.update_of_ne heq, hid])

theorem owned_advance {stack stack' : List Frame} (h : Advance hash σ op stack σ' stack')
    (known : Known hash σ req op stack) (allowed : freshNumber hash σ op stack = true)
    (servers : (owned hash c).servers g σ) :
    Senders hash c σ g (senders c g σ req op stack σ') ∧
      (σ'.crashed (channelOwner hash c).primary = false → ∀ id r,
        senders c g σ req op stack σ' id = some r →
        ∃ n < (σ'.store (channelOwner hash c).primary).nextId c, id = formatMessageId c n) := by
  have hids := servers.2.2
  have hcrashed := (advance_view h).2
  have hnext : (σ.store (channelOwner hash c).primary).nextId c ≤
      (σ'.store (channelOwner hash c).primary).nextId c := by
    rcases primary_history h known c with ⟨-, hnext⟩ | ⟨u, t, v, st, rest, rfl, rfl, locked, rfl⟩
    · exact hnext.ge
    · simp [(locked_send_nextId locked).2]
  have hstay : senders c g σ req op stack σ' = g →
      Senders hash c σ g (senders c g σ req op stack σ') ∧
      (σ'.crashed (channelOwner hash c).primary = false → ∀ id r,
        senders c g σ req op stack σ' id = some r →
        ∃ n < (σ'.store (channelOwner hash c).primary).nextId c, id = formatMessageId c n) := by
    intro heq
    rw [heq, hcrashed]
    refine ⟨fun id r hid => Or.inl hid, fun hlive id r hid => ?_⟩
    obtain ⟨n, hn, rfl⟩ := hids hlive id r hid
    exact ⟨n, hn.trans_le hnext, rfl⟩
  rcases advance_store h with hstore | ⟨s, r, st, rest, rfl, locked, rfl⟩ |
    ⟨s, v, r, st, rest, rfl, locked, rfl⟩
  · exact hstay (senders_same fun _ _ _ => by rw [hstore])
  · by_cases other : ∀ u t, op ≠ .sendMessage c u t
    · refine hstay (senders_same fun s' rest' heq => ?_)
      cases heq
      simpa using (effect_history (locked_effect locked) other).2
    · push Not at other
      obtain ⟨u, t, rfl⟩ := other
      rcases r with e | v
      · refine hstay (senders_same fun s' rest' heq => ?_)
        cases heq
        simp [locked_send_error locked]
      · cases hpoisoned : σ.poisoned s with
        | false => exact owned_send known (advance_live h) allowed hpoisoned servers locked
        | true => exact hstay (senders_same fun _ _ _ => by rw [poisoned_store h hpoisoned])
  · exact hstay (senders_same nofun)

theorem owned_preserved (hash : String → ℕ) (c : String) : (owned hash c).Preserved hash
    (crashStop.where' (freshNumber hash)) (senders c) (Known hash) (Senders hash c) where
  known _ _ _ _ h := h
  still _ _ _ _ _ _ := rfl
  refl _ _ _ _ hid := Or.inl hid
  grow _ _ _ _ _ _ _ _ owner := owned_grow owner
  advance g σ req op stack σ' stack' servers frame known allowed h := by
    have hlasting := (lasting_fresh hash).advance () σ req op stack σ' stack' servers.2.1
      (frames_mono (fun _ _ hf hop config howner x hx => (hf hop config howner x hx).1) frame)
      known allowed h
    have hcond : freshNumber hash σ op stack = true := by
      simpa [Policy.where', crashStop] using allowed
    obtain ⟨horder, hids⟩ := owned_advance h known hcond servers
    exact ⟨horder, sound_advance h servers.1, hlasting.2, hids⟩
  suspect _ σ s p servers other allowed :=
    ⟨sound_suspect servers.1 allowed,
      (lasting_fresh hash).suspect () σ s p servers.2.1 other allowed, servers.2.2⟩
  crash _ σ s servers allowed :=
    ⟨sound_crash servers.1 (crashStop_crash allowed),
      (lasting_fresh hash).crash () σ s servers.2.1 allowed,
      fun _ => servers.2.2 (crashStop_crash allowed _)⟩
  commit g σ req op config s v st rest hop owner servers known allowed live unpoisoned howns
      locked := by
    refine ⟨(lasting_fresh hash).commit () σ req op config s v st rest hop owner servers.2.1 known
      allowed live unpoisoned howns locked, ?_⟩
    rintro u t rfl
    rw [senders_send req rest locked, (locked_send_nextId locked).1]
    rcases howns with rfl | ⟨rfl, -⟩
    · exact Or.inl ⟨rfl, Or.inr (owned_update _)⟩
    · exact Or.inr ⟨rfl, owned_update _⟩
  alone g σ req op config s v hop owner servers howns halone h := by
    refine ⟨(lasting_fresh hash).alone () σ req op config s v hop owner servers.2.1 howns halone
      h.1, fun u t heq => ?_⟩
    rcases h.2 u t heq with ⟨rfl, hcrashed | ho⟩ | ⟨-, ho⟩
    · have hbackup := servers.1.marked _ _ (halone.resolve_left (owner_ne owner).symm)
      exact absurd (servers.1.once _ _ hcrashed hbackup) (owner_ne owner)
    · exact ho
    · exact ho
  send g σ req op config v hop owner h := by
    have hsend := (lasting_fresh hash).send () σ req op config v hop owner h.1
    have ho : ∀ u t, op = .sendMessage c u t → σ.crashed config.primary = true ∨ Owned g req v := by
      intro u t heq
      rcases h.2 u t heq with ⟨-, ho⟩ | ⟨hprimary, -⟩
      · exact ho
      · exact absurd hprimary (owner_ne owner)
    exact ⟨⟨hsend.1, ho⟩, hsend.2, ho⟩
  answer g σ req op config v v' st rest hop owner servers known allowed live heard h locked := by
    refine ⟨(lasting_fresh hash).answer () σ req op config v v' st rest hop owner servers.2.1 known
      allowed live heard h.1 locked, ?_⟩
    rintro u t rfl
    obtain ⟨id, ch, rfl, hr, -, -⟩ := replicate_send locked
    obtain rfl := Except.ok.inj hr
    exact h.2 u t rfl
  finish g σ req op config v v' hop owner servers live hawaiting hanswered := by
    refine ⟨(lasting_fresh hash).finish () σ req op config v v' hop owner servers.2.1 live
      hawaiting.1 hanswered.1, fun u t heq => (hanswered.2 u t heq).resolve_left (by simp [live])⟩
  giveUp g σ req op config v hop owner servers live failed h := by
    refine ⟨(lasting_fresh hash).giveUp () σ req op config v hop owner servers.2.1 live failed h.1,
      fun u t heq => (h.2 u t heq).resolve_left (by simp [live])⟩

/-! ## Acknowledged messages -/

/-- The server that answers for a channel: its primary until some server has marked it failed. -/
def Servers.Authority (σ : Servers) (config : LocationConfig) (s : ServerId) : Prop :=
  s = config.primary ∧ ¬ σ.Marked config.primary ∨ s = config.backup ∧ σ.Marked config.primary

/-- **Acknowledged messages.** Let no backup commit a message under a number that a message of the
channel has. Then no two requests are answered with one id, and what the authority stores under an
id that was answered is the message of that request. -/
theorem acknowledged_messages {es : List Event} {w : World}
    (run : Reaches hash (crashStop.where' (freshNumber hash)) es w) (c : String) :
    (w.returned.Pairwise fun r r' => ∀ u t u' t' id, r.op = .sendMessage c u t →
      r'.op = .sendMessage c u' t' → r.result = .ok (.messageId id) →
      r'.result ≠ .ok (.messageId id)) ∧
    ∀ r ∈ w.returned, ∀ u t v, r.op = .sendMessage c u t → r.result = .ok v →
      ∃ id, v = .messageId id ∧ ∀ s, w.servers.Authority (channelOwner hash c) s →
        ∀ m : Message, m ∈ (w.servers.store s).history c ∧ m.messageId = id ↔ m = ⟨u, t, id⟩ := by
  obtain ⟨g, hholds⟩ : ∃ g, ((owned hash c).inv hash).Holds g w :=
    ⟨_, (owned_preserved hash c).inv.holds_init (g := fun _ => none) known
      ⟨⟨nofun, nofun⟩, lasting_init hash _, fun _ _ _ h => by cases h⟩ run⟩
  have hacked : ∀ r ∈ w.returned, ∀ u t v, r.op = .sendMessage c u t → r.result = .ok v →
      Owned g r.req v ∧ w.servers.Safe (channelOwner hash c) (.sendMessage c u t) v := by
    rintro ⟨req, op, result⟩ hr u t v rfl hv
    obtain ⟨hlasting, ho⟩ := hholds.returned _ hr rfl _ rfl v hv
    exact ⟨ho u t rfl, hlasting trivial⟩
  constructor
  · refine (List.pairwise_map.mp (answered_once run)).imp_of_mem ?_
    intro r r' hr hr' hne u t u' t' id hop hop' hid hid'
    obtain ⟨⟨id₁, heq₁, ho⟩, -⟩ := hacked r hr u t _ hop hid
    obtain ⟨⟨id₂, heq₂, ho'⟩, -⟩ := hacked r' hr' u' t' _ hop' hid'
    cases heq₁
    cases heq₂
    exact hne (Option.some.inj (ho.symm.trans ho'))
  · intro r hr u t v hop hv
    obtain ⟨⟨id, rfl, -⟩, hprimary, hbackup⟩ := hacked r hr u t v hop hv
    have sound := hholds.servers.1
    refine ⟨id, rfl, fun s hs m => ?_⟩
    have hstored : ⟨u, t, id⟩ ∈ (w.servers.store s).history c := by
      rcases hs with ⟨rfl, hmarked⟩ | ⟨rfl, a, ha⟩
      · exact hprimary.resolve_right hmarked
      · refine hbackup.resolve_right ?_
        rintro ⟨b, hb⟩
        exact channelOwner_ne hash c (sound.once _ _ (sound.marked _ _ ha) (sound.marked _ _ hb))
    constructor
    · rintro ⟨hm, hid⟩
      exact eq_of_messageId hm hstored hid
    · rintro rfl
      exact ⟨hstored, rfl⟩

/-- A message is sent at `A` and one at `B`, which takes over from `A` between them. -/
def failover : List Event :=
  aliceJoins ++ asks .A (.sendMessage "#cs249" "alice" "m0") 2 9 ++
    [.crash .A, .suspect .B .A] ++ asks .B (.sendMessage "#cs249" "alice" "m1") 3 7

theorem acknowledged_messages_failover :
    ∃ w, Reaches (fun _ => 0) (crashStop.where' (freshNumber fun _ => 0)) failover w ∧
      ⟨2, .sendMessage "#cs249" "alice" "m0", .ok (.messageId "#cs249-0")⟩ ∈ w.returned ∧
      ⟨3, .sendMessage "#cs249" "alice" "m1", .ok (.messageId "#cs249-1")⟩ ∈ w.returned ∧
      ⟨"alice", "m0", "#cs249-0"⟩ ∈ (w.servers.store .B).history "#cs249" := by
  obtain ⟨w, run, hw⟩ := Run.exec_of_test
    (fun w : World => w.servers.view .B .A = false ∧
      ⟨2, .sendMessage "#cs249" "alice" "m0", .ok (.messageId "#cs249-0")⟩ ∈ w.returned ∧
      ⟨3, .sendMessage "#cs249" "alice" "m1", .ok (.messageId "#cs249-1")⟩ ∈ w.returned)
    (by decide : (outcome (fun _ => 0) (crashStop.where' (freshNumber fun _ => 0)) .init
      failover).any _ = true)
  obtain ⟨hview, hm0, hm1⟩ := of_decide_eq_true hw
  obtain ⟨id, hid, hstored⟩ := (acknowledged_messages run "#cs249").2 _ hm0 _ _ _ rfl rfl
  cases hid
  exact ⟨w, run, hm0, hm1, ((hstored .B (Or.inr ⟨rfl, .B, hview⟩) _).mpr rfl).1⟩

/-- The first message's replica is lost with `A`, and the second one's is not. `B` counts one
message, and takes the number of that message for the next. -/
def gap : List Event :=
  aliceJoins ++ asks .A (.sendMessage "#cs249" "alice" "m0") 2 6 ++
    asks .A (.sendMessage "#cs249" "alice" "m1") 3 9 ++
    [.crash .A, .suspect .B .A] ++ asks .B (.sendMessage "#cs249" "alice" "m2") 4 7

theorem message_id_reused :
    ∃ w, Reaches (fun _ => 0) crashStop gap w ∧
      ⟨3, .sendMessage "#cs249" "alice" "m1", .ok (.messageId "#cs249-1")⟩ ∈ w.returned ∧
      ⟨4, .sendMessage "#cs249" "alice" "m2", .ok (.messageId "#cs249-1")⟩ ∈ w.returned ∧
      ((w.servers.store .B).history "#cs249").elems = [⟨"alice", "m1", "#cs249-1"⟩] := by
  obtain ⟨w, run, hw⟩ := Run.exec_of_test
    (fun w : World =>
      ⟨3, .sendMessage "#cs249" "alice" "m1", .ok (.messageId "#cs249-1")⟩ ∈ w.returned ∧
      ⟨4, .sendMessage "#cs249" "alice" "m2", .ok (.messageId "#cs249-1")⟩ ∈ w.returned ∧
      ((w.servers.store .B).history "#cs249").elems = [⟨"alice", "m1", "#cs249-1"⟩])
    (by decide : (outcome (fun _ => 0) crashStop .init gap).any _ = true)
  exact ⟨w, run, of_decide_eq_true hw⟩

end MiniDiscord.Cluster
