import MiniDiscord.Cluster.Acknowledged
import MiniDiscord.Cluster.Convergence
import MiniDiscord.Page

/-!
# The history at the primary

A primary is asked to replicate nothing for its own channels, so it is the only one that gives out
their numbers at its store, whatever the servers believe of each other.
-/

namespace MiniDiscord.Cluster

open DiscordStateops

variable {hash : String → ℕ} {σ σ' : Servers} {op : Op} {req : ℕ} {stack stack' : List Frame}
  {st st' : AppState} {r : StateResult Value} {c u t : String} {v : Value}

/-! ## Names of channels -/

/-- Every channel has a valid name. -/
def ValidNames (st : AppState) : Prop :=
  ∀ c ch, st.channel c = some ch → channelNameIsValid c = true

theorem createChannel_validNames (valid : channelNameIsValid c = true) (h : ValidNames st) :
    ValidNames (createChannel c st).2 := by
  unfold createChannel
  split_ifs
  · exact h
  · intro d ch found
    rw [channel_setChannel] at found
    split_ifs at found with hd
    · rw [hd]
      exact valid
    · exact h d ch found

theorem validNames_init (s : ServerId) : ValidNames (initStore s) := by
  have hnew : ValidNames .new := by
    intro c ch found
    cases found
  cases s with
  | A => exact createChannel_validNames (by decide) (createChannel_validNames (by decide) hnew)
  | B => exact createChannel_validNames (by decide) (createChannel_validNames (by decide) hnew)
  | C => exact createChannel_validNames (by decide) (createChannel_validNames (by decide) hnew)

theorem effect_validNames (h : Effect op st r st') (valid : ValidNames st) : ValidNames st' := by
  intro c ch found
  cases h with
  | refused | read | created => exact valid c ch found
  | joined u d _ hvalid new =>
    rw [channel_setChannel] at found
    split_ifs at found with hc
    · rw [hc]
      exact hvalid
    · exact valid c ch found
  | left u d _ ch' found' member =>
    rw [channel_setChannel] at found
    split_ifs at found with hc
    · rw [hc]
      exact valid d ch' found'
    · exact valid c ch found
  | appended d u t id _ ch' next found' =>
    rw [channel_setChannel] at found
    split_ifs at found with hc
    · rw [hc]
      exact valid d ch' found'
    · exact valid c ch found

/-! ## The log of a channel -/

theorem history_eq {ch : Channel} (found : st.channel c = some ch) :
    st.history c = ch.messages ∧ st.nextId c = ch.nextMessageId := by
  rw [AppState.history, AppState.nextId, channelOrNew_of_channel found]
  exact ⟨rfl, rfl⟩

/-- The keys of a tallied channel count from zero. -/
theorem Tallied.keys (h : Tallied c st) :
    (st.history c).elems.map Message.key = List.range (st.nextId c) := by
  have hsorted : ((st.history c).elems.map Message.key).Pairwise (· < ·) :=
    List.pairwise_map.mpr (st.history c).sorted
  have hnodup : ((st.history c).elems.map Message.key).Nodup := hsorted.imp ne_of_lt
  have hsub : (st.history c).elems.map Message.key ⊆ List.range (st.nextId c) := by
    intro k hk
    obtain ⟨m, hm, rfl⟩ := List.mem_map.mp hk
    obtain ⟨n, hn, hid⟩ := h.numbered m hm
    rw [Message.key_eq hid]
    exact List.mem_range.mpr hn
  have hlength : (List.range (st.nextId c)).length ≤
      ((st.history c).elems.map Message.key).length := by
    rw [List.length_range, List.length_map]
    exact le_of_eq h.counted
  have hperm := (List.subperm_of_subset hnodup hsub).perm_of_length_le hlength
  refine hperm.eq_of_pairwise (fun a b _ _ hab hba => ?_) hsorted List.pairwise_lt_range
  omega

theorem Tallied.ids (h : Tallied c st) :
    (st.history c).elems.map Message.messageId =
      (List.range (st.nextId c)).map (formatMessageId c) := by
  rw [← h.keys, List.map_map]
  refine List.map_congr_left fun m hm => ?_
  obtain ⟨n, -, hid⟩ := h.numbered m hm
  rw [Function.comp_apply, Message.key_eq hid, hid]

/-- A send puts its message at the end. -/
theorem tallied_send_last (h : Tallied c st)
    (locked : (Op.sendMessage c u t).locked st = some (.ok v, st')) :
    (st'.history c).elems =
      (st.history c).elems ++ [Message.from' u t c (st.nextId c)] := by
  have hkey : Message.key (Message.from' u t c (st.nextId c)) = st.nextId c := Message.key_eq rfl
  rw [(tallied_send h locked).1]
  refine KeySet.insert_last fun m hm => ?_
  obtain ⟨n, hn, hid⟩ := h.numbered m hm
  rw [hkey, Message.key_eq hid]
  exact hn

/-! ## The invariant -/

def primaryTallied (hash : String → ℕ) : Inv Unit where
  servers _ σ := (∀ c, Tallied c (σ.store (channelOwner hash c).primary)) ∧
    ∀ s, ValidNames (σ.store s)
  frame _ _ _ _ _ _ := True
  reply _ _ _ := True

theorem advance_primaryTallied (h : Advance hash σ op stack σ' stack')
    (known : Known hash σ req op stack)
    (tallied : Tallied c (σ.store (channelOwner hash c).primary)) :
    Tallied c (σ'.store (channelOwner hash c).primary) := by
  rcases primary_history h known c with ⟨hhistory, hnext⟩ |
    ⟨u, t, v, st, rest, rfl, rfl, locked, rfl⟩
  · constructor
    · rw [hhistory, hnext]
      exact tallied.numbered
    · rw [hhistory, hnext]
      exact tallied.counted
  · rw [setStore_store, Function.update_self]
    exact (tallied_send tallied locked).2

theorem primaryTallied_preserved :
    (primaryTallied hash).Preserved hash anyFailure noTick (Known hash) where
  still _ _ _ _ _ _ := rfl
  weaken _ _ _ _ _ _ h := h
  submit _ _ _ _ _ _ := trivial
  reply _ _ _ _ _ _ _ _ _ := trivial
  giveUp _ _ _ _ _ _ _ _ _ _ _ _ _ _ _ := trivial
  suspect _ _ _ _ h _ _ := ⟨h, fun _ _ _ _ => id, fun _ => id⟩
  crash _ _ _ h _ := ⟨h, fun _ _ _ _ => id, fun _ => id⟩
  advance _ σ _ op _ σ' _ h _ known _ advance := by
    refine ⟨⟨⟨?_, ?_⟩, fun _ _ _ _ => id, fun _ => id⟩, frames_of_all (fun _ _ => trivial) _⟩
    · intro c
      exact advance_primaryTallied advance known (h.1 c)
    · intro s
      rcases advance_effect advance s with hs | ⟨r, heffect⟩
      · rw [hs]
        exact h.2 s
      · exact effect_validNames heffect (h.2 s)

theorem primary_tallied {es : List Event} {w : World} (run : Reaches hash anyFailure es w) :
    (∀ c, Tallied c (w.servers.store (channelOwner hash c).primary)) ∧
      ∀ s, ValidNames (w.servers.store s) := by
  have init : (primaryTallied hash).servers () World.init.servers := by
    constructor
    · intro c
      exact ⟨by simp [World.init], by simp [World.init]⟩
    · exact validNames_init
  exact (primaryTallied_preserved.holds_init (g := ()) known init run).servers

/-! ## Counting sends -/

/-- The step is a `send_message` to the channel that succeeds at its primary. -/
def sendsHere (hash : String → ℕ) (c : String) (σ : Servers) (op : Op) : List Frame → Bool
  | .call s .commit :: _ => match op, (σ.lock s op.locked).2 with
    | .sendMessage d _ _, some (.ok _) => d = c && s = (channelOwner hash c).primary
    | _, _ => false
  | _ => false

def countSends (hash : String → ℕ) (c : String) : Tick ℕ := fun k σ _ op stack _ =>
  k + (sendsHere hash c σ op stack).toNat

/-- How many sends to the channel succeed at its primary along the events. -/
def sends (hash : String → ℕ) (c : String) (w : World) (es : List Event) : ℕ :=
  Inv.ghost hash (countSends hash c) 0 w es

theorem sendsHere_true (h : sendsHere hash c σ op stack = true) :
    ∃ u t v st rest, op = .sendMessage c u t ∧
      stack = .call (channelOwner hash c).primary .commit :: rest ∧
      op.locked (σ.store (channelOwner hash c).primary) = some (.ok v, st) ∧
      (σ.lock (channelOwner hash c).primary op.locked).1 =
        σ.setStore (channelOwner hash c).primary st := by
  unfold sendsHere at h
  split at h
  · rename_i s rest
    split at h
    · rename_i d u t v hlock
      simp only [Bool.and_eq_true, decide_eq_true_eq] at h
      obtain ⟨rfl, rfl⟩ := h
      obtain ⟨st, locked, hσ, -⟩ := lock_some (Prod.ext rfl hlock)
      exact ⟨u, t, v, st, rest, rfl, rfl, locked, hσ⟩
    · cases h
  · cases h

theorem advance_commit {s : ServerId} {rest : List Frame} (valid : op.refusal .commit = none)
    (h : σ.advance hash op (.call s .commit :: rest) = some (σ', stack')) :
    σ' = (σ.lock s op.locked).1 := by
  simp only [Servers.advance, Option.bind_eq_bind] at h
  split at h
  · simp at h
  · obtain ⟨⟨σ₁, frames⟩, hcall, h⟩ := Option.bind_eq_some_iff.mp h
    cases h
    simp only [Servers.stepCall, valid] at hcall
    split at hcall <;> cases hcall <;> rename_i hlock <;> rw [hlock]

/-- A step adds one message to the history if it is a send that succeeds, and none otherwise. -/
theorem advance_history (h : σ.advance hash op stack = some (σ', stack'))
    (known : Known hash σ req op stack)
    (tallied : Tallied c (σ.store (channelOwner hash c).primary)) :
    ∃ added, ((σ'.store (channelOwner hash c).primary).history c).elems =
        ((σ.store (channelOwner hash c).primary).history c).elems ++ added ∧
      added.length = (sendsHere hash c σ op stack).toNat := by
  cases hsends : sendsHere hash c σ op stack with
  | true =>
    obtain ⟨u, t, v, st, rest, rfl, rfl, locked, hlock⟩ := sendsHere_true hsends
    obtain rfl := (advance_commit rfl h).trans hlock
    refine ⟨[Message.from' u t c ((σ.store (channelOwner hash c).primary).nextId c)], ?_, rfl⟩
    rw [setStore_store, Function.update_self]
    exact tallied_send_last tallied locked
  | false =>
    refine ⟨[], ?_, rfl⟩
    rw [List.append_nil]
    rcases primary_history (advance_cases h) known c with ⟨hhistory, -⟩ |
      ⟨u, t, v, st, rest, rfl, rfl, locked, -⟩
    · rw [hhistory]
    · -- the mutex is poisoned, and the call panics
      have hσ := advance_commit rfl h
      have hpoisoned : σ.poisoned (channelOwner hash c).primary = true := by
        by_contra hunpoisoned
        simp [sendsHere, Servers.lock, hunpoisoned, locked] at hsends
      rw [hσ, Servers.lock, if_pos hpoisoned]

theorem run_history {es es' : List Event} {w w' : World} (run : Reaches hash anyFailure es w)
    (later : Run.Exec (World.step hash) (fun w e => anyFailure.allows w e = true) w es' w') :
    ∃ added, ((w'.servers.store (channelOwner hash c).primary).history c).elems =
        ((w.servers.store (channelOwner hash c).primary).history c).elems ++ added ∧
      added.length = sends hash c w es' := by
  refine later.history (P := fun es' w' => ∃ added,
    ((w'.servers.store (channelOwner hash c).primary).history c).elems =
      ((w.servers.store (channelOwner hash c).primary).history c).elems ++ added ∧
    added.length = sends hash c w es') ⟨[], (List.append_nil _).symm, rfl⟩ ?_
  rintro es' m e m' prefix_run ⟨added, hadded, hlength⟩ - taken
  have hreaches := run.append prefix_run
  rw [sends, Inv.ghost, Run.record_snoc prefix_run taken, ← Inv.ghost, ← sends, ← hlength]
  cases step_cases taken with
  | advanced j pre post σ' stack' jobs advance computes =>
    have hj : j ∈ m.jobs := by simp [jobs]
    obtain ⟨last, hlast, hone⟩ :=
      advance_history computes (known _ _ hreaches j hj) ((primary_tallied hreaches).1 c)
    refine ⟨added ++ last, ?_, ?_⟩
    · rw [hlast, hadded, List.append_assoc]
    · simp [jobTick, jobs, countSends, hone]
  | replied j pre post s r jobs stack live attached =>
    refine ⟨added, hadded, ?_⟩
    simp [jobTick, jobs, stack, countSends, sendsHere]
  | submitted | gaveUp | hungUp | suspected | crashed => exact ⟨added, hadded, rfl⟩

theorem channel_stays {ok : World → Event → Prop} {es : List Event} {w w' : World}
    (run : Run.Exec (World.step hash) ok w es w') {s : ServerId} {ch : Channel}
    (found : (w.servers.store s).channel c = some ch) :
    ∃ ch', (w'.servers.store s).channel c = some ch' := by
  refine run.invariant (P := fun w' => ∃ ch', (w'.servers.store s).channel c = some ch')
    ⟨ch, found⟩ ?_
  rintro m e m' ⟨ch', found'⟩ - taken
  cases step_cases taken with
  | advanced j pre post σ' stack' jobs advance =>
    rcases advance_effect advance s with hs | ⟨r, heffect⟩
    · exact ⟨ch', hs ▸ found'⟩
    · exact effect_channel heffect found'
  | submitted | replied | gaveUp | hungUp | suspected | crashed => exact ⟨ch', found'⟩

/-! ## Pages -/

theorem getMessages_page {ch : Channel} (valid : ValidNames st) (found : st.channel c = some ch)
    (limit offset : Option ℕ) :
    getMessages c limit offset st =
      .ok (page ch.messages.elems (limit.getD 20) (offset.getD 0)) := by
  have hchecks : checkChannel c st = .ok () := by
    simp [checkChannel, channelExists, found, valid c ch found]
  simp only [getMessages, hchecks, found]
  rfl

/-- **The history at the primary.** In every run, whichever servers crash and whichever peers are
marked failed, a channel at its primary holds one message for each number below its counter, and
`get_messages` reads them newest first. However the run goes on, a reader who skips as many more
messages as were sent since gets the same page. -/
theorem history_pages {es : List Event} {w : World} (run : Reaches hash anyFailure es w)
    {ch : Channel} (found : (w.servers.store (channelOwner hash c).primary).channel c = some ch) :
    ch.messages.elems.map Message.messageId =
        (List.range ch.nextMessageId).map (formatMessageId c) ∧
      ∀ limit offset : Option ℕ, ∃ messages,
        getMessages c limit offset (w.servers.store (channelOwner hash c).primary) = .ok messages ∧
        messages = (ch.messages.elems.reverse.drop (offset.getD 0)).take (limit.getD 20) ∧
        messages.Pairwise (fun a b => b.key < a.key) ∧
        ∀ es' w', Run.Exec (World.step hash) (fun w e => anyFailure.allows w e = true) w es' w' →
          getMessages c limit (some (offset.getD 0 + sends hash c w es'))
            (w'.servers.store (channelOwner hash c).primary) = .ok messages := by
  obtain ⟨htallied, hvalid⟩ := primary_tallied run
  obtain ⟨hhistory, hnext⟩ := history_eq found
  refine ⟨?_, fun limit offset => ⟨page ch.messages.elems (limit.getD 20) (offset.getD 0),
    getMessages_page (hvalid _) found limit offset, rfl, ?_, ?_⟩⟩
  · have hids := (htallied c).ids
    rwa [hhistory, hnext] at hids
  · exact page_pairwise ch.messages.sorted _ _
  · intro es' w' later
    obtain ⟨added, hadded, hlength⟩ := run_history (c := c) run later
    obtain ⟨ch', found'⟩ := channel_stays later found
    rw [getMessages_page ((primary_tallied (run.append later)).2 _) found',
      ← (history_eq found').1, hadded, hhistory, ← hlength]
    exact congrArg Except.ok (page_append _ _ _ _)

/-- `alice` sends a message at `A`, which `B` takes for failed. -/
def sentOne : List Event :=
  aliceJoins ++ [.suspect .B .A] ++ asks .A (.sendMessage "#cs249" "alice" "m0") 2 7

/-- She sends another one at `B`, which keeps it to itself, and a third one at `A`. `B` writes no
answer to `A`'s replicate requests. -/
def sentMore : List Event :=
  asks .B (.sendMessage "#cs249" "alice" "m1") 3 7 ++
    asks .A (.sendMessage "#cs249" "alice" "m2") 4 7

theorem history_pages_sentMore :
    ∃ w w', Reaches (fun _ => 0) anyFailure sentOne w ∧
      Run.Exec (World.step fun _ => 0) (fun w e => anyFailure.allows w e = true) w sentMore w' ∧
      sends (fun _ => 0) "#cs249" w sentMore = 1 ∧
      getMessages "#cs249" none none (w.servers.store .A) =
        .ok [⟨"alice", "m0", "#cs249-0"⟩] ∧
      getMessages "#cs249" none (some 1) (w'.servers.store .A) =
        .ok [⟨"alice", "m0", "#cs249-0"⟩] := by
  obtain ⟨w, run, hw⟩ := Run.exec_of_test
    (fun w : World => sends (fun _ => 0) "#cs249" w sentMore = 1 ∧
      getMessages "#cs249" none none (w.servers.store .A) = .ok [⟨"alice", "m0", "#cs249-0"⟩] ∧
      ((w.servers.store .A).channel "#cs249").isSome = true ∧
      (outcome (fun _ => 0) anyFailure w sentMore).isSome = true)
    (by decide +kernel : (outcome (fun _ => 0) anyFailure .init sentOne).any _ = true)
  obtain ⟨hsends, hpage, hfound, hlater⟩ := of_decide_eq_true hw
  obtain ⟨ch, found⟩ := Option.isSome_iff_exists.mp hfound
  obtain ⟨messages, hmessages, -, -, hstable⟩ := (history_pages run found).2 none none
  have hsame := hstable sentMore _ (Run.exec_get hlater)
  rw [hsends, ← hmessages] at hsame
  exact ⟨w, _, run, Run.exec_get hlater, hsends, hpage, hsame.trans hpage⟩

end MiniDiscord.Cluster
