import MiniDiscord.Cluster.FailureFree

/-!
# Message replication converges in any order

A primary and a backup that agree on a channel, sends at the one, and their replicate requests at
the other: in any order, each as often as it pleases, and at any time after its send.
-/

namespace MiniDiscord.Cluster

open DiscordStateops

/-! ## The primary's counter -/

/-- The messages of the channel are numbered from zero on, and the counter counts them. -/
structure Tallied (c : String) (st : AppState) : Prop where
  numbered : ∀ m ∈ st.history c, ∃ n < st.nextId c, m.messageId = formatMessageId c n
  counted : st.nextId c = (st.history c).size

variable {hash : String → ℕ} {st st' : AppState} {c u t : String} {v : Value}

theorem Tallied.fresh (h : Tallied c st) : ¬ (st.history c).HasKey (st.nextId c) := by
  rintro ⟨m, hm, hkey⟩
  obtain ⟨n, hn, hid⟩ := h.numbered m hm
  rw [Message.key_eq hid] at hkey
  omega

theorem tallied_send (h : Tallied c st)
    (locked : (Op.sendMessage c u t).locked st = some (.ok v, st')) :
    st'.history c = ((st.history c).insert (Message.from' u t c (st.nextId c))).1 ∧
      Tallied c st' := by
  obtain ⟨ch, found, -, rfl, rfl⟩ := locked_send locked
  have hfresh := h.fresh
  have hch : st.channelOrNew c = ch := channelOrNew_of_channel found
  have hhistory : (st.setChannel c { ch with
      messages := (ch.messages.insert (Message.from' u t c ch.nextMessageId)).1,
      nextMessageId := ch.nextMessageId + 1 }).history c =
        ((st.history c).insert (Message.from' u t c (st.nextId c))).1 := by
    simp only [AppState.history, AppState.nextId, channelOrNew_setChannel, if_true, hch]
  have hnext : (st.setChannel c { ch with
      messages := (ch.messages.insert (Message.from' u t c ch.nextMessageId)).1,
      nextMessageId := ch.nextMessageId + 1 }).nextId c = st.nextId c + 1 := by
    simp only [AppState.nextId, channelOrNew_setChannel, if_true, hch]
  refine ⟨hhistory, ⟨fun m hm => ?_, ?_⟩⟩
  · rw [hhistory, KeySet.mem_insert] at hm
    rw [hnext]
    rcases hm with hm | ⟨rfl, -⟩
    · obtain ⟨n, hn, hid⟩ := h.numbered m hm
      exact ⟨n, by omega, hid⟩
    · exact ⟨st.nextId c, Nat.lt_succ_self _, rfl⟩
  · have hkey : Message.key (Message.from' u t c (st.nextId c)) = st.nextId c := Message.key_eq rfl
    rw [hhistory, hnext, KeySet.size_insert, KeySet.insert_snd, hkey, h.counted]
    simp [← h.counted, hfresh]

theorem tallied_other {op : Op} {r : StateResult Value} (h : Tallied c st)
    (heffect : Effect op st r st')
    (other : ∀ u t, op ≠ .sendMessage c u t) : Tallied c st' := by
  obtain ⟨hhistory, hnext⟩ := effect_history heffect other
  exact ⟨by rw [hhistory, hnext]; exact h.numbered, by rw [hhistory, hnext]; exact h.counted⟩

theorem tallied_advance {σ σ' : Servers} {req : ℕ} {op : Op} {stack stack' : List Frame}
    (h : Advance hash σ op stack σ' stack') (up : σ.Up) (known : Known hash σ req op stack)
    (tallied : Tallied c (σ.store (channelOwner hash c).primary)) :
    Tallied c (σ'.store (channelOwner hash c).primary) := by
  by_cases other : ∀ u t, op ≠ .sendMessage c u t
  · rcases advance_effect h (channelOwner hash c).primary with hs | ⟨r, hr⟩
    · rwa [hs]
    · exact tallied_other tallied hr other
  · push Not at other
    obtain ⟨u, t, rfl⟩ := other
    rcases advance_store h with hstore | ⟨s, r, st, rest, rfl, locked, rfl⟩ |
      ⟨s, v, r, st, rest, rfl, locked, rfl⟩
    · rwa [hstore]
    · obtain ⟨config, howner, howns⟩ := known.1.routed rfl
      obtain rfl : channelOwner hash c = config := Option.some.inj howner
      obtain rfl := up_primary up howns
      rw [setStore_store, Function.update_self]
      rcases r with e | v
      · rwa [locked_send_error locked]
      · exact (tallied_send tallied locked).2
    · obtain ⟨config, howner, rfl⟩ := known.1.routed
      obtain rfl : channelOwner hash c = config := Option.some.inj howner
      rwa [setStore_store, Function.update_of_ne (channelOwner_ne hash c)]

theorem tallied {es : List Event} {w : World} (run : Reaches hash failureFree es w) (c : String) :
    Tallied c (w.servers.store (channelOwner hash c).primary) := by
  refine (failureFree_invariant
    (P := fun w => Tallied c (w.servers.store (channelOwner hash c).primary))
    (failureFree_where run) ?_ (fun _ _ _ h => h) ?_ fun _ _ _ _ _ _ h _ _ => h).1
  · exact ⟨by simp [World.init], by simp [World.init]⟩
  · exact fun w j pre post σ' stack' h up known _ _ _ _ hadvance =>
      tallied_advance hadvance up known h

/-! ## Sends and deliveries -/

/-- What the primary and the backup of a channel hold, which messages were sent, and for which of
them a replicate request was handled. -/
structure Pair where
  primary : AppState
  backup : AppState
  sent : List Message
  delivered : List Message

inductive PairEvent
  | send (username text : String)
  /-- the replicate request of the `k`-th message is handled -/
  | deliver (k : ℕ)

/-- A send that fails is not one of these. The users were found, wherever they are known. -/
def Pair.step (c : String) (x : Pair) : PairEvent → Option Pair
  | .send u t => match sendMessage c u t (fun _ => true) x.primary with
    | some (.ok id, primary) => some { x with primary, sent := x.sent ++ [⟨u, t, id⟩] }
    | _ => none
  | .deliver k => do
    let m ← x.sent[k]?
    let (_, backup) ← replicateSendMessage c m.username m.text m.messageId x.backup
    some { x with backup, delivered := x.delivered ++ [m] }

def Pair.start (σ : Servers) (config : LocationConfig) : Pair :=
  ⟨σ.store config.primary, σ.store config.backup, [], []⟩

/-- The invariant of partial deliveries. -/
structure Pair.Replaying (c : String) (x : Pair) : Prop where
  exists_primary : ∃ ch, x.primary.channel c = some ch
  exists_backup : ∃ ch, x.backup.channel c = some ch
  tallied : Tallied c x.primary
  behind : ∀ m ∈ x.backup.history c, m ∈ x.primary.history c
  counted : x.backup.nextId c = (x.backup.history c).size
  sent : ∀ m ∈ x.sent, m ∈ x.primary.history c
  missing : ∀ m ∈ x.primary.history c, m ∈ x.backup.history c ∨ m ∈ x.sent
  delivered : ∀ m ∈ x.delivered, m ∈ x.backup.history c

variable {x x' : Pair}

theorem sendMessage_locked {id : String}
    (h : sendMessage c u t (fun _ => true) st = some (.ok id, st')) :
    (Op.sendMessage c u t).locked st = some (.ok (.messageId id), st') := by
  unfold sendMessage at h
  split at h
  · cases h
  · simp only [Bool.not_true, Bool.false_eq_true, if_false] at h
    simp [Op.locked, h, Except.map]

theorem insertMessage_some {messages : MessageSet} {m : Message}
    (h : ∀ m' ∈ messages, m'.getNumericMessageId.isSome = true)
    (hm : m.getNumericMessageId.isSome = true) :
    insertMessage messages m = some (messages.insert m) := by
  rw [insertMessage, if_pos]
  right
  rw [List.all_cons, hm, Bool.true_and, List.all_eq_true]
  exact h

theorem Tallied.numeric (h : Tallied c st) {m : Message} (hm : m ∈ st.history c) :
    m.getNumericMessageId.isSome = true := by
  obtain ⟨n, -, hid⟩ := h.numbered m hm
  simp [Message.getNumericMessageId, hid]

theorem Pair.Replaying.handles (h : x.Replaying c) {m : Message} (hm : m ∈ x.sent) :
    ∃ st, replicateSendMessage c m.username m.text m.messageId x.backup =
        some (.ok m.messageId, st) ∧
      st.history c = ((x.backup.history c).insert m).1 ∧
      st.nextId c = x.backup.nextId c + ((x.backup.history c).insert m).2.toNat ∧
      ∃ ch, st.channel c = some ch := by
  obtain ⟨ch, found⟩ := h.exists_backup
  have hch : x.backup.channelOrNew c = ch := channelOrNew_of_channel found
  have hhistory : x.backup.history c = ch.messages := by rw [AppState.history, hch]
  have hinsert : insertMessage ch.messages m = some (ch.messages.insert m) := by
    refine insertMessage_some (fun m' hm' => ?_) (h.tallied.numeric (h.sent m hm))
    exact h.tallied.numeric (h.behind m' (hhistory ▸ hm'))
  refine ⟨x.backup.setChannel c { ch with
    messages := (ch.messages.insert m).1,
    nextMessageId := ch.nextMessageId + (ch.messages.insert m).2.toNat }, ?_, ?_, ?_, ?_⟩
  · simp [replicateSendMessage, found, hinsert]
  · simp only [AppState.history, channelOrNew_setChannel, if_true, hch]
  · simp only [AppState.history, AppState.nextId, channelOrNew_setChannel, if_true, hch]
  · exact ⟨_, by rw [channel_setChannel, if_pos rfl]⟩

theorem replaying_send (h : x.Replaying c) (taken : x.step c (.send u t) = some x') :
    x'.Replaying c := by
  simp only [Pair.step] at taken
  split at taken
  · rename_i id primary hsend
    cases taken
    have hlocked := sendMessage_locked hsend
    obtain ⟨hhistory, htallied⟩ := tallied_send h.tallied hlocked
    obtain ⟨ch, found⟩ := h.exists_primary
    have hid : id = formatMessageId c (x.primary.nextId c) :=
      Value.messageId.inj (locked_send_nextId hlocked).1
    have hm : Message.from' u t c (x.primary.nextId c) = ⟨u, t, id⟩ := by rw [hid, Message.from']
    have hfresh : ¬ (x.primary.history c).HasKey (Message.key ⟨u, t, id⟩) := by
      rw [Message.key_eq hid]
      exact h.tallied.fresh
    rw [hm] at hhistory
    refine ⟨effect_channel (locked_effect hlocked) found, h.exists_backup, htallied, ?_,
      h.counted, ?_,
      ?_, h.delivered⟩
    · intro m hmem
      rw [hhistory]
      exact KeySet.mem_insert_of_mem (h.behind m hmem)
    · intro m hmem
      rw [hhistory]
      rcases List.mem_append.mp hmem with hmem | hmem
      · exact KeySet.mem_insert_of_mem (h.sent m hmem)
      · obtain rfl := List.mem_singleton.mp hmem
        exact KeySet.mem_insert_self hfresh
    · intro m hmem
      rw [hhistory, KeySet.mem_insert] at hmem
      rcases hmem with hmem | ⟨rfl, -⟩
      · exact (h.missing m hmem).imp_right (List.mem_append_left _)
      · exact Or.inr (List.mem_append_right _ (List.mem_singleton_self _))
  · cases taken

theorem replaying_deliver {k : ℕ} (h : x.Replaying c) (taken : x.step c (.deliver k) = some x') :
    x'.Replaying c := by
  simp only [Pair.step, Option.bind_eq_bind, Option.bind_eq_some_iff] at taken
  obtain ⟨m, hm, ⟨r, backup⟩, hreplicate, heq⟩ := taken
  cases heq
  have hsent : m ∈ x.sent := List.mem_of_getElem? hm
  obtain ⟨st, hst, hhistory, hnext, hexists⟩ := h.handles hsent
  obtain ⟨-, rfl⟩ := Prod.mk.inj (Option.some.inj (hst.symm.trans hreplicate))
  have hkept : ∀ m' ∈ x.backup.history c, m' ∈ st.history c := fun m' hmem => by
    rw [hhistory]
    exact KeySet.mem_insert_of_mem hmem
  refine ⟨h.exists_primary, hexists, h.tallied, ?_, ?_, h.sent, ?_, ?_⟩
  · intro m' hmem
    rw [hhistory, KeySet.mem_insert] at hmem
    rcases hmem with hmem | ⟨rfl, -⟩
    · exact h.behind m' hmem
    · exact h.sent m' hsent
  · show st.nextId c = (st.history c).size
    rw [hnext, hhistory, KeySet.size_insert, h.counted]
  · exact fun m' hmem => (h.missing m' hmem).imp_left (hkept m')
  · intro m' hmem
    rcases List.mem_append.mp hmem with hmem | hmem
    · exact hkept m' (h.delivered m' hmem)
    · obtain rfl := List.mem_singleton.mp hmem
      show m' ∈ st.history c
      rw [hhistory]
      by_cases hkey : (x.backup.history c).HasKey m'.key
      · -- the backup has a message under this number, which is this one: both are at the primary
        obtain ⟨m'', hold, hk⟩ := hkey
        obtain rfl := KeySet.eq_of_key (h.behind m'' hold) (h.sent m' hsent) hk
        exact KeySet.mem_insert_of_mem hold
      · exact KeySet.mem_insert_self hkey

theorem getMessages_eq {ch ch' : Channel} (found : st.channel c = some ch)
    (found' : st'.channel c = some ch') (h : ch.messages = ch'.messages) (limit offset : Option ℕ) :
    getMessages c limit offset st = getMessages c limit offset st' := by
  have hchecks : checkChannel c st = checkChannel c st' := by
    simp [checkChannel, channelExists, found, found']
  simp only [getMessages, hchecks, found, found', h]

/-- **Messages converge.** A channel is the same at its primary and its backup, after a run without
failures. However sends and deliveries follow, the backup has messages of the primary only, counts
them, and can handle the next replicate request. Once every message was delivered both servers
answer the same. -/
theorem messages_converge {es : List Event} {w : World} (run : Reaches hash failureFree es w)
    (exists_primary : ∃ ch, (w.servers.store (channelOwner hash c).primary).channel c = some ch)
    (equal : (w.servers.store (channelOwner hash c).backup).channel c =
      (w.servers.store (channelOwner hash c).primary).channel c)
    {events : List PairEvent}
    (replay : Run.Exec (Pair.step c) (fun _ _ => True) (.start w.servers (channelOwner hash c))
      events x) :
    (∀ m ∈ x.backup.history c, m ∈ x.primary.history c) ∧
    x.backup.nextId c = (x.backup.history c).size ∧
    (∀ m ∈ x.sent, ∃ st, replicateSendMessage c m.username m.text m.messageId x.backup =
      some (.ok m.messageId, st)) ∧
    ((∀ m ∈ x.sent, m ∈ x.delivered) →
      x.backup.history c = x.primary.history c ∧ x.backup.nextId c = x.primary.nextId c ∧
      ∀ limit offset, getMessages c limit offset x.backup =
        getMessages c limit offset x.primary) := by
  have hstart : (Pair.start w.servers (channelOwner hash c)).Replaying c := by
    have hsame : (w.servers.store (channelOwner hash c).backup).channelOrNew c =
        (w.servers.store (channelOwner hash c).primary).channelOrNew c := by
      rw [AppState.channelOrNew, AppState.channelOrNew, equal]
    have hhistory : (w.servers.store (channelOwner hash c).backup).history c =
        (w.servers.store (channelOwner hash c).primary).history c := congrArg Channel.messages hsame
    have hnext : (w.servers.store (channelOwner hash c).backup).nextId c =
        (w.servers.store (channelOwner hash c).primary).nextId c :=
      congrArg Channel.nextMessageId hsame
    have htallied := tallied run c
    refine ⟨exists_primary, equal ▸ exists_primary, htallied, ?_, ?_, by simp [Pair.start], ?_,
      by simp [Pair.start]⟩
    · exact fun m hm => hhistory ▸ hm
    · exact hnext.trans (htallied.counted.trans (congrArg KeySet.size hhistory.symm))
    · exact fun m hm => Or.inl (hhistory ▸ hm)
  have h : x.Replaying c := replay.invariant hstart fun x e x' h _ taken => by
    cases e with
    | send u t => exact replaying_send h taken
    | deliver k => exact replaying_deliver h taken
  refine ⟨h.behind, h.counted, fun m hm => ?_, fun hall => ?_⟩
  · obtain ⟨st, hst, -⟩ := h.handles hm
    exact ⟨st, hst⟩
  · have hhistory : x.backup.history c = x.primary.history c := by
      refine KeySet.ext_mem fun m => ⟨h.behind m, fun hm => ?_⟩
      exact (h.missing m hm).elim id fun hsent => h.delivered m (hall m hsent)
    obtain ⟨ch, found⟩ := h.exists_primary
    obtain ⟨ch', found'⟩ := h.exists_backup
    refine ⟨hhistory, ?_, getMessages_eq found' found ?_⟩
    · rw [h.counted, h.tallied.counted, hhistory]
    · simpa [AppState.history, channelOrNew_of_channel found, channelOrNew_of_channel found']
        using hhistory

theorem aliceJoins_runs : (outcome (fun _ => 0) failureFree .init aliceJoins).isSome = true := by
  decide

/-- `alice` is a member of `#cs249` at both its servers. -/
def aliceJoined : World := (outcome (fun _ => 0) failureFree .init aliceJoins).get aliceJoins_runs

/-- The second message gets to the backup first, and once more after the other one. -/
def reversed : List PairEvent :=
  [.send "alice" "m0", .send "alice" "m1", .deliver 1, .deliver 0, .deliver 1]

theorem messages_converge_reversed :
    ∃ x, Run.Exec (Pair.step "#cs249") (fun _ _ => True)
        (.start aliceJoined.servers (channelOwner (fun _ => 0) "#cs249")) reversed x ∧
      x.sent = [⟨"alice", "m0", "#cs249-0"⟩, ⟨"alice", "m1", "#cs249-1"⟩] ∧
      x.backup.history "#cs249" = x.primary.history "#cs249" := by
  obtain ⟨x, replay, hx⟩ := Run.exec_of_test
    (fun x : Pair => x.sent = [⟨"alice", "m0", "#cs249-0"⟩, ⟨"alice", "m1", "#cs249-1"⟩] ∧
      ∀ m ∈ x.sent, m ∈ x.delivered)
    (by decide : (Run.run (Pair.step "#cs249") (fun _ _ => True)
      (.start aliceJoined.servers (channelOwner (fun _ => 0) "#cs249")) reversed).any _ = true)
  obtain ⟨hsent, hall⟩ := of_decide_eq_true hx
  have run : Reaches (fun _ => 0) failureFree aliceJoins aliceJoined := Run.exec_get aliceJoins_runs
  have hfound : ((aliceJoined.servers.store .A).channel "#cs249").isSome = true := by decide
  have hequal : (aliceJoined.servers.store .B).channel "#cs249" =
      (aliceJoined.servers.store .A).channel "#cs249" := by decide
  have hconverge := messages_converge run (Option.isSome_iff_exists.mp hfound) hequal replay
  exact ⟨x, replay, hsent, (hconverge.2.2.2 hall).1⟩

end MiniDiscord.Cluster
