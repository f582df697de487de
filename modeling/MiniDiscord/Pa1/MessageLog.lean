import MiniDiscord.Page
import MiniDiscord.Pa1.Membership

/-!
# The messages

One counter numbers the messages of all channels. Only the last section of `send_message` takes a
number, and it stores its message in the same moment.
-/

namespace MiniDiscord.Pa1

variable {state state' : AppState} {i : Section} {c d u t : String} {es : List Event}
  {server server' : Server}

/-- Every number below the counter is taken once. -/
structure AppState.Numbered (state : AppState) : Prop where
  keyed : state.Keyed
  below : ∀ c, ∀ m ∈ state.log c, m.messageId < state.nextMessageId
  sorted : ∀ c, (state.log c).Pairwise fun m m' => m.messageId < m'.messageId
  taken : ∀ id < state.nextMessageId, ∃ c, ∃ m ∈ state.log c, m.messageId = id
  apart : ∀ c d, ∀ m ∈ state.log c, ∀ m' ∈ state.log d, m.messageId = m'.messageId → c = d

/-- All logs stay as they are, or one message with the next number is added to one of them. -/
theorem change_log (h : Change state i state') :
    (state'.log = state.log ∧ state'.nextMessageId = state.nextMessageId) ∨
    ∃ c u t, i = .send c u t ∧
      (∀ d, state'.log d =
        if d = c then state.log c ++ [⟨u, t, state.nextMessageId⟩] else state.log d) ∧
      state'.nextMessageId = state.nextMessageId + 1 := by
  have hsame : ∀ {c channel}, channel.messages = state.log c →
      (state.setChannel c channel).log = state.log := by
    intro c channel hmessages
    funext d
    rw [setChannel_log]
    split_ifs with hd
    · rw [hmessages, hd]
    · rfl
  cases h with
  | kept | inserted => exact Or.inl ⟨rfl, rfl⟩
  | joined u c joined => exact Or.inl ⟨hsame (c := c) rfl, rfl⟩
  | left u c channel joined found =>
    exact Or.inl ⟨hsame (c := c) (log_of_channel found).symm, rfl⟩
  | sent c u t channel found =>
    refine Or.inr ⟨c, u, t, rfl, fun d => ?_, rfl⟩
    rw [setChannel_log, log_of_channel found]
    rfl

theorem change_numbered (h : Change state i state') (numbered : state.Numbered) :
    state'.Numbered := by
  have hkeyed := change_keyed h numbered.keyed
  rcases change_log h with ⟨hlog, hnext⟩ | ⟨c, u, t, -, hlog, hnext⟩
  · refine ⟨hkeyed, ?_, ?_, ?_, ?_⟩
    · rw [hlog, hnext]
      exact numbered.below
    · rw [hlog]
      exact numbered.sorted
    · rw [hlog, hnext]
      exact numbered.taken
    · rw [hlog]
      exact numbered.apart
  · have hmem : ∀ d m', m' ∈ state'.log d →
        m' ∈ state.log d ∨ d = c ∧ m' = ⟨u, t, state.nextMessageId⟩ := by
      intro d m' hm'
      rw [hlog] at hm'
      split_ifs at hm' with hd
      · rcases List.mem_append.mp hm' with hm' | hm'
        · exact Or.inl (hd ▸ hm')
        · exact Or.inr ⟨hd, List.mem_singleton.mp hm'⟩
      · exact Or.inl hm'
    have hkept : ∀ d m', m' ∈ state.log d → m' ∈ state'.log d :=
      fun d _ hm' => ((change_grows h).log d).subset hm'
    refine ⟨hkeyed, fun d m' hm' => ?_, fun d => ?_, fun id hid => ?_, ?_⟩
    · rcases hmem d m' hm' with hm' | ⟨-, rfl⟩
      · have := numbered.below d m' hm'
        omega
      · exact hnext ▸ Nat.lt_succ_self _
    · rw [hlog]
      split_ifs with hd
      · refine List.pairwise_append.mpr ⟨numbered.sorted c, List.pairwise_singleton _ _, ?_⟩
        intro m₁ hm₁ m₂ hm₂
        rw [List.mem_singleton.mp hm₂]
        exact numbered.below c m₁ hm₁
      · exact numbered.sorted d
    · by_cases hlt : id < state.nextMessageId
      · obtain ⟨d, m', hm', hid'⟩ := numbered.taken id hlt
        exact ⟨d, m', hkept d m' hm', hid'⟩
      · refine ⟨c, ⟨u, t, state.nextMessageId⟩, ?_, by dsimp only; omega⟩
        rw [hlog, if_pos rfl]
        simp
    · intro d d' m₁ hm₁ m₂ hm₂ heq
      rcases hmem d m₁ hm₁ with h₁ | ⟨rfl, rfl⟩ <;> rcases hmem d' m₂ hm₂ with h₂ | ⟨rfl, rfl⟩
      · exact numbered.apart d d' m₁ h₁ m₂ h₂ heq
      · exact absurd heq (ne_of_lt (numbered.below d m₁ h₁))
      · exact absurd heq.symm (ne_of_lt (numbered.below d' m₂ h₂))
      · rfl

theorem numbered_preserved : Preserved AppState.Numbered fun _ _ => True where
  keyed _ := AppState.Numbered.keyed
  exec _ _ _ numbered _ change := change_numbered change numbered

theorem numbered_init : AppState.new.Numbered := by
  have hlog : ∀ c, AppState.new.log c = [] := by
    intro c
    simp [AppState.log, AppState.channel, AppState.new, Channel.new]
  exact ⟨keyed_init, by simp [hlog], by simp [hlog], fun _ hid => absurd hid (Nat.not_lt_zero _),
    by simp [hlog]⟩

/-! ## Counting sends -/

/-- The event is the last section of a `send_message` to the channel, and it succeeds. -/
def Server.sendsTo (c : String) (server : Server) (e : Event) : Bool :=
  match server.entering e with
  | some (.send d u t) => d = c && !server.poisoned && match sendLocked d u t server.store with
    | some (.ok _, _) => true
    | _ => false
  | _ => false

/-- How many sends to the channel succeed along the events. -/
def sends (c : String) (server : Server) (es : List Event) : ℕ :=
  Run.record step (fun k server e _ => k + (server.sendsTo c e).toNat) 0 server es

theorem sendLocked_log {r : StateResult ℕ} (h : sendLocked d u t state = some (r, state'))
    (c : String) : ∃ added, state'.log c = state.log c ++ added ∧
      added.length =
        (decide (d = c) && match r with | .ok _ => true | .error _ => false).toNat := by
  rcases send_change h with ⟨rfl, rfl⟩ | ⟨channel, found, -, rfl, rfl⟩
  · exact ⟨[], by simp, by simp⟩
  · rw [setChannel_log]
    by_cases hd : d = c
    · refine ⟨[⟨u, t, state.nextMessageId⟩], ?_, by simp [hd]⟩
      rw [if_pos hd.symm, ← hd, log_of_channel found]
    · exact ⟨[], by simp [Ne.symm hd, AppState.log, AppState.channel], by simp [hd]⟩

theorem step_log {e : Event} (healthy : server.poisoned = false)
    (taken : step server e = some server') : ∃ added,
      server'.store.log c = server.store.log c ++ added ∧
      added.length = (server.sendsTo c e).toNat := by
  cases Pool.step_cases taken with
  | called k => exact ⟨[], by simp, rfl⟩
  | ran n k i next a state call _ runs =>
    have hentering : server.entering (.step n) = some i := by simp [Pool.entering, call]
    cases i with
    | send d u t =>
      have hlocked : sendLocked d u t server.store = some (a, state) := runs
      obtain ⟨added, hadded, hlength⟩ := sendLocked_log hlocked c
      refine ⟨added, hadded, hlength.trans ?_⟩
      simp only [Server.sendsTo, hentering, healthy, hlocked, Bool.not_false, Bool.and_true]
      cases a <;> rfl
    | _ =>
      refine ⟨[], ?_, by simp [Server.sendsTo, hentering]⟩
      rcases change_log (exec_change runs) with ⟨hlog, -⟩ | ⟨d, u, t, hi, -⟩
      · simp [hlog]
      · cases hi
  | failed n k i next call fails =>
    have hentering : server.entering (.step n) = some i := by simp [Pool.entering, call]
    refine ⟨[], by simp, ?_⟩
    cases i with
    | send d u t =>
      have hnone : sendLocked d u t server.store = none := fails.resolve_left (by simp [healthy])
      simp [Server.sendsTo, hentering, hnone]
    | _ => simp [Server.sendsTo, hentering]

/-- The log has grown by the sends since. -/
theorem run_log {es' : List Event} {ok ok' : Server → Event → Prop} (run : Reaches ok es server)
    (later : Run.Exec step ok' server es' server') (c : String) : ∃ added,
      server'.store.log c = server.store.log c ++ added ∧ added.length = sends c server es' := by
  have run₁ : Reaches (fun _ _ => True) es server := run.mono fun _ _ _ => trivial
  refine later.history (P := fun es' server' => ∃ added,
    server'.store.log c = server.store.log c ++ added ∧ added.length = sends c server es')
    ⟨[], (List.append_nil _).symm, rfl⟩ ?_
  rintro es' m e m' prefix_run ⟨added, hadded, hlength⟩ - taken
  have hreaches := run₁.append (prefix_run.mono fun _ _ _ => trivial)
  obtain ⟨last, hlast, hone⟩ := step_log (c := c) (never_poisoned hreaches).2 taken
  refine ⟨added ++ last, by rw [hlast, hadded, List.append_assoc], ?_⟩
  rw [sends, Run.record_snoc prefix_run taken, ← sends, ← hlength, List.length_append, hone]

/-! ## Pages -/

theorem getMessages_page (valid : channelNameIsValid c = true)
    (found : (state.channel c).isSome = true) (limit offset : Option ℕ) :
    (getMessages c limit offset).alone Section.exec state =
      some (.ok (page (state.log c) (limit.getD 20) (offset.getD 0)), state) := by
  obtain ⟨channel, hchannel⟩ := Option.isSome_iff_exists.mp found
  simp [getMessages, valid, channelExists, Program.lock, Program.alone, Section.exec, hchannel,
    messagesLocked, log_of_channel hchannel, page]

theorem getMessages_invalid (invalid : channelNameIsValid c = false) (limit offset : Option ℕ) :
    (getMessages c limit offset).alone Section.exec state =
      some (.error invalidChannelName, state) := by
  simp [getMessages, invalid]

theorem nodup_ids (numbered : state.Numbered) (c : String) :
    ((state.log c).map Message.messageId).Nodup := by
  have hsorted : ((state.log c).map Message.messageId).Pairwise (· < ·) :=
    List.pairwise_map.mpr (numbered.sorted c)
  exact hsorted.imp ne_of_lt

/-- **The message log**, in every run of any calls. Every number below the counter belongs to one
message of one channel, each channel is in the order of the numbers, and a message stays from the
moment its `send_message` returns. A reader who skips as many more messages as were sent since gets
the same page. -/
theorem message_log {ok : Server → Event → Prop} (run : Reaches ok es server) :
    (∀ id < server.store.nextMessageId, ∃ c, ∃ m ∈ server.store.log c, m.messageId = id ∧
      ∀ c', ∀ m' ∈ server.store.log c', m'.messageId = id → c' = c ∧ m' = m) ∧
    (∀ c, (server.store.log c).Pairwise fun m m' => m.messageId < m'.messageId) ∧
    (∀ call ∈ server.calls, ∀ c u t id, call.1 = .sendMessage c u t →
      call.2 = .done (.ok (.messageId id)) →
      ∀ ok' es' server', Run.Exec step ok' server es' server' →
        ⟨u, t, id⟩ ∈ server'.store.log c) ∧
    ∀ c, (server.store.channel c).isSome = true → ∀ limit offset, ∃ r,
      (getMessages c limit offset).alone Section.exec server.store = some (r, server.store) ∧
      ∀ ok' es' server', Run.Exec step ok' server es' server' →
        (getMessages c limit (some (offset.getD 0 + sends c server es'))).alone Section.exec
          server'.store = some (r, server'.store) := by
  have hfine := fine numbered_preserved (fun _ _ _ _ _ => trivial) numbered_init run
  have hnumbered : server.store.Numbered := hfine.inv
  have hgrows : ∀ ok' es' server', Run.Exec step ok' server es' server' →
      server.store.Grows server'.store := fun ok' es' server' later =>
    (Pool.fine_run (fun k state _ => safe_start numbered_preserved k state)
      (fun _ _ _ _ _ => trivial) later hfine).2
  refine ⟨fun id hid => ?_, hnumbered.sorted, ?_, ?_⟩
  · obtain ⟨c, m, hm, rfl⟩ := hnumbered.taken id hid
    refine ⟨c, m, hm, rfl, fun c' m' hm' heq => ?_⟩
    obtain rfl := hnumbered.apart c' c m' hm' m hm heq
    exact ⟨rfl, List.inj_on_of_nodup_map (nodup_ids hnumbered c') hm' hm heq⟩
  · rintro ⟨k, program⟩ hcall c u t id rfl rfl ok' es' server' later
    have hstored : Call.Stored (.sendMessage c u t) (.ok (.messageId id)) server.store :=
      hfine.calls _ hcall server.store (grows_refl _) hnumbered
    exact ((hgrows ok' es' server' later).log c).subset hstored
  · intro c found limit offset
    cases hvalid : channelNameIsValid c with
    | false =>
      exact ⟨_, getMessages_invalid hvalid limit offset,
        fun _ _ _ _ => getMessages_invalid hvalid limit _⟩
    | true =>
      refine ⟨_, getMessages_page hvalid found limit offset, fun ok' es' server' later => ?_⟩
      obtain ⟨added, hadded, hlength⟩ := run_log run later c
      rw [getMessages_page hvalid ((hgrows ok' es' server' later).channels c found), hadded,
        Option.getD_some, ← hlength, page_append]

/-- `alice` sends a message to `#a`. -/
def talk : List Event :=
  [.call (.createUser "alice"), .step 0, .step 0, .call (.joinChannel "alice" "#a"), .step 1,
    .step 1, .call (.joinChannel "alice" "#b"), .step 2, .step 2,
    .call (.sendMessage "#a" "alice" "m0"), .step 3, .step 3, .step 3]

/-- She sends one to `#b` and one more to `#a`, which overtakes it. -/
def talkMore : List Event :=
  [.call (.sendMessage "#b" "alice" "m1"), .step 4, .step 4,
    .call (.sendMessage "#a" "alice" "m2"), .step 5, .step 5, .step 5, .step 4]

theorem message_log_talk :
    ∃ server server', Reaches (fun _ _ => True) talk server ∧
      Run.Exec step (fun _ _ => True) server talkMore server' ∧ sends "#a" server talkMore = 1 ∧
      (getMessages "#a" none none).alone Section.exec server.store =
        some (.ok [⟨"alice", "m0", 0⟩], server.store) ∧
      (getMessages "#a" none (some 1)).alone Section.exec server'.store =
        some (.ok [⟨"alice", "m0", 0⟩], server'.store) := by
  obtain ⟨server, run, h⟩ := Run.exec_of_test
    (fun server : Server => (server.store.channel "#a").isSome = true ∧
      sends "#a" server talkMore = 1 ∧
      (getMessages "#a" none none).alone Section.exec server.store =
        some (.ok [⟨"alice", "m0", 0⟩], server.store) ∧
      (Run.run step (fun _ _ => True) server talkMore).isSome = true)
    (by decide +kernel : (Run.run step (fun _ _ => True) .init talk).any _ = true)
  obtain ⟨found, hsends, hpage, hlater⟩ := of_decide_eq_true h
  obtain ⟨r, hr, hsame⟩ := (message_log run).2.2.2 "#a" found none none
  have hafter := hsame _ _ _ (Run.exec_get hlater)
  obtain rfl : r = .ok [⟨"alice", "m0", 0⟩] :=
    (Prod.mk.inj (Option.some.inj (hr.symm.trans hpage))).1
  rw [hsends] at hafter
  exact ⟨server, _, run, Run.exec_get hlater, hsends, hpage, hafter⟩

end MiniDiscord.Pa1
