import MiniDiscord.Cluster.Passing
import MiniDiscord.Cluster.Users
import MiniDiscord.Page

/-!
# What an operation answers

The values and the errors that a request can be answered with, whatever fails meanwhile. What a peer
answers is passed on as it is, so all servers have to keep to them.
-/

namespace MiniDiscord.Cluster

open DiscordStateops

/-! ## Values and errors -/

/-- What an operation returns. Names are in order and each is there once; the newest message comes
first, and there are no more messages than asked for. -/
def Op.Returns : Op → Value → Prop
  | .createUser u, .unit => u ≠ ""
  | .userExists _, .found _ => True
  | .getUsers, .sorted all | .getChannels, .sorted all => all.Pairwise (· < ·)
  | .joinChannel _ c, .unit | .leaveChannel _ c, .unit => channelNameIsValid c = true
  | .listChannelUsers c, .names all => channelNameIsValid c = true ∧ all.Nodup
  | .sendMessage c _ _, .messageId id =>
    channelNameIsValid c = true ∧ ∃ n, id = formatMessageId c n
  | .getMessages c limit _, .messages all => channelNameIsValid c = true ∧
    all.length ≤ limit.getD 20 ∧ all.Pairwise fun m m' => m'.key < m.key
  | _, _ => False

/-- The errors that an operation returns, by whether its name is valid. -/
def Op.errors : Op → List StateError
  | .createUser u => if u = "" then [emptyUsername] else [duplicateUser]
  | .userExists _ | .getUsers | .getChannels => []
  | .joinChannel _ c =>
    unknownUser :: if channelNameIsValid c then [alreadyMember] else [invalidChannelName]
  | .leaveChannel _ c =>
    if channelNameIsValid c then [unknownChannel, unknownUser, notAMember]
    else [invalidChannelName]
  | .listChannelUsers c | .getMessages c _ _ =>
    if channelNameIsValid c then [unknownChannel] else [invalidChannelName]
  | .sendMessage c _ _ =>
    if channelNameIsValid c then [unknownChannel, unknownUser, notAMemberForbidden]
    else [invalidChannelName]

def Op.Answers (op : Op) : StateResult Value → Prop
  | .ok v => op.Returns v
  | .error e => e ∈ op.errors

variable {hash : String → ℕ} {σ σ' : Servers} {op : Op} {st st' : AppState} {v : Value}
  {r : StateResult Value} {c u : String}

/-! ## What one store answers -/

theorem checkChannel_error {e : StateError} (h : checkChannel c st = .error e) :
    e = if channelNameIsValid c then unknownChannel else invalidChannelName := by
  unfold checkChannel at h
  cases hvalid : channelNameIsValid c
  · simp only [hvalid, Bool.not_false, if_true] at h
    simpa using (Except.error.inj h).symm
  · simp only [hvalid, Bool.not_true, Bool.false_eq_true, if_false] at h
    split_ifs at h
    simpa using (Except.error.inj h).symm

theorem checks_answers {e : StateError} (h : op.checks st = .error e) : e ∈ op.errors := by
  cases op with
  | leaveChannel u c | sendMessage c u t =>
    rw [checkChannel_error h]
    cases hvalid : channelNameIsValid c <;> simp [Op.errors, hvalid]
  | _ => cases h

theorem unknownUser_answers (entry : op.entry ≠ .commit)
    (checked : op.entry = .check → op.named = true) : unknownUser ∈ op.errors := by
  cases op with
  | joinChannel u c => exact List.mem_cons_self
  | leaveChannel u c | sendMessage c u t =>
    have hvalid : channelNameIsValid c = true := checked rfl
    simp [Op.errors, hvalid]
  | _ => exact absurd rfl entry

theorem createUser_answers (st : AppState) :
    (Op.createUser u).Answers ((createUser u st).1.map fun _ => .unit) := by
  unfold createUser
  split_ifs with hempty hfound
  · simp [Op.Answers, Op.errors, Except.map, hempty]
  · simp [Op.Answers, Op.errors, Except.map, hempty]
  · exact hempty

theorem joinChannelLocked_answers (st : AppState) :
    (Op.joinChannel u c).Answers ((joinChannelLocked u c st).1.map fun _ => .unit) := by
  unfold joinChannelLocked
  cases hvalid : channelNameIsValid c
  · simp [Op.Answers, Op.errors, Except.map, hvalid]
  · simp only [Bool.not_true, Bool.false_eq_true, if_false]
    split_ifs
    · simp [Op.Answers, Op.errors, Except.map, hvalid]
    · exact hvalid

theorem leaveChannelLocked_answers {r : StateResult Unit} (valid : channelNameIsValid c = true)
    (h : leaveChannelLocked u c st = some (r, st')) :
    (Op.leaveChannel u c).Answers (r.map fun _ => .unit) := by
  unfold leaveChannelLocked at h
  split at h
  · cases h
  · split_ifs at h <;> cases h
    · exact valid
    · simp [Op.Answers, Op.errors, Except.map, valid]

theorem sendMessageLocked_answers {t : String} {r : StateResult String}
    (valid : channelNameIsValid c = true) (h : sendMessageLocked c u t st = some (r, st')) :
    (Op.sendMessage c u t).Answers (r.map .messageId) := by
  simp only [sendMessageLocked, Option.bind_eq_bind, Option.bind_eq_some_iff] at h
  obtain ⟨ch, -, h⟩ := h
  split_ifs at h
  · obtain ⟨⟨messages, didInsert⟩, -, h⟩ := Option.bind_eq_some_iff.mp h
    cases h
    exact ⟨valid, ch.nextMessageId, rfl⟩
  · cases h
    simp [Op.Answers, Op.errors, Except.map, valid]

theorem listChannelUsers_answers (st : AppState) :
    (Op.listChannelUsers c).Answers ((listChannelUsers c st).map .names) := by
  unfold listChannelUsers
  cases hchecks : checkChannel c st with
  | error e =>
    show e ∈ (Op.listChannelUsers c).errors
    rw [checkChannel_error hchecks]
    cases hvalid : channelNameIsValid c <;> simp [Op.errors, hvalid]
  | ok =>
    obtain ⟨hvalid, ch, hfound⟩ := checkChannel_ok.mp hchecks
    rw [hfound]
    exact ⟨hvalid, ch.users.nodup⟩

theorem getMessages_answers (limit offset : Option ℕ) (st : AppState) :
    (Op.getMessages c limit offset).Answers ((getMessages c limit offset st).map .messages) := by
  unfold getMessages
  cases hchecks : checkChannel c st with
  | error e =>
    show e ∈ (Op.getMessages c limit offset).errors
    rw [checkChannel_error hchecks]
    cases hvalid : channelNameIsValid c <;> simp [Op.errors, hvalid]
  | ok =>
    obtain ⟨hvalid, ch, hfound⟩ := checkChannel_ok.mp hchecks
    rw [hfound]
    exact ⟨hvalid, List.length_take_le _ _, page_pairwise ch.messages.sorted _ _⟩

/-- A routed operation is answered by its last lock, once its name has been checked. -/
theorem locked_answers {config : LocationConfig} (routed : op.owner hash = some config)
    (checked : op.entry = .check → op.named = true) (h : op.locked st = some (r, st')) :
    op.Answers r := by
  cases op with
  | createUser u =>
    cases h
    exact createUser_answers st
  | userExists u =>
    cases h
    trivial
  | getUsers | getChannels => cases routed
  | joinChannel u c =>
    cases h
    exact joinChannelLocked_answers st
  | leaveChannel u c =>
    obtain ⟨⟨r, state⟩, hlocked, h⟩ := Option.map_eq_some_iff.mp h
    cases h
    exact leaveChannelLocked_answers (checked rfl) hlocked
  | listChannelUsers c =>
    cases h
    exact listChannelUsers_answers st
  | sendMessage c u t =>
    obtain ⟨⟨r, state⟩, hlocked, h⟩ := Option.map_eq_some_iff.mp h
    cases h
    exact sendMessageLocked_answers (checked rfl) hlocked
  | getMessages c limit offset =>
    cases h
    exact getMessages_answers limit offset st

/-- The backup answers what the primary might have. -/
theorem replicate_answers (returned : op.Returns v)
    (h : op.replicateLocked v st = some (r, st')) : op.Answers r := by
  cases op with
  | createUser u =>
    cases h
    exact createUser_answers st
  | joinChannel u c =>
    cases h
    exact joinChannelLocked_answers st
  | leaveChannel u c =>
    obtain ⟨⟨r, state⟩, hlocked, h⟩ := Option.map_eq_some_iff.mp h
    cases h
    unfold leaveChannel at hlocked
    split at hlocked
    · cases hlocked
      rename_i e hchecks
      exact checks_answers (show (Op.leaveChannel u c).checks st = .error e from hchecks)
    · obtain ⟨hvalid, -⟩ := checkChannel_ok.mp ‹_›
      exact leaveChannelLocked_answers hvalid hlocked
  | sendMessage c u t =>
    obtain ⟨id, ch, -, rfl, -, -⟩ := replicate_send h
    exact returned
  | _ => cases v <;> cases h

/-! ## What clients are told -/

def fitting : Answering where
  servers _ := True
  good _ op r := op.Answers r

theorem fitting_preserved : fitting.Preserved hash anyFailure where
  advance _ _ _ _ _ _ _ _ _ _ := trivial
  suspect _ _ _ _ _ _ := trivial
  crash _ _ _ _ := trivial
  refused _ _ _ _ _ _ _ _ _ _ checks := checks_answers checks
  unknown _ _ entry names := unknownUser_answers entry names
  locked _ _ _ _ _ _ _ _ _ owner _ names locked := locked_answers owner names locked
  replica _ _ _ _ _ _ _ _ _ returns locked := replicate_answers returns locked
  found _ _ _ := trivial
  polled _ op all owner := by
    cases op with
    | getUsers | getChannels => exact strict_dedup_sortNames all
    | _ => cases owner

theorem fits_answers {policy : Policy} {es : List Event} {w : World}
    (run : Reaches hash policy es w) : fitting.inv.Holds () w :=
  fitting_preserved.inv.holds_init (g := ()) Answering.vetted trivial (reaches_any run)

/-- **Every answer is an answer to its request.** Whatever crashes or is marked failed, also
falsely, and whatever is in flight: a client is told a value of its operation or one of its errors,
the same holds of all that servers pass on to each other, and no call panics over the answer it
waits for. -/
theorem replies_answer {policy : Policy} {es : List Event} {w : World}
    (run : Reaches hash policy es w) :
    (∀ x ∈ w.returned, x.op.Answers x.result) ∧
    (∀ j ∈ w.jobs, ∀ s r, .call s (.done r) ∈ j.stack → j.op.Answers r) ∧
    ∀ j ∈ w.jobs, ∀ r s pc rest, j.stack = .response r :: .call s pc :: rest →
      pc.resume r ≠ .panicked := by
  have hfits := fits_answers run
  refine ⟨hfits.returned, fun j hj s r hmem => ?_, fun j hj r s pc rest hstack => ?_⟩
  · obtain ⟨below, hfitting⟩ := frames_mem (hfits.jobs j hj) hmem
    exact hfitting
  · have hplaced := known es w run j hj
    rw [hstack] at hplaced
    have hon : Fits j.op (.response r) (.call s pc) := hplaced.1.fits _ rfl
    cases pc with
    | userAwait p =>
      obtain ⟨found, rfl⟩ := hon
      cases found <;> exact nofun
    | awaitPoll all p peers =>
      obtain ⟨more, rfl⟩ := hon
      exact nofun
    | awaitForward | awaitReplica => exact nofun
    | _ => cases hon

/-- `C` takes `A` to have failed and asks `B`, which does not and asks `A`. -/
def asksAround : List Event :=
  .suspect .C .A :: asks .C (.getMessages "#cs249" (some 3) none) 0 13

theorem replies_answer_around : ∃ w, Reaches (fun _ => 0) anyFailure asksAround w ∧
    ⟨0, .getMessages "#cs249" (some 3) none, .ok (.messages [])⟩ ∈ w.returned ∧
    (Op.getMessages "#cs249" (some 3) none).Answers (.ok (.messages [])) := by
  obtain ⟨w, run, hw⟩ := Run.exec_of_test
    (fun w : World => ⟨0, .getMessages "#cs249" (some 3) none, .ok (.messages [])⟩ ∈ w.returned)
    (by decide : (outcome (fun _ => 0) anyFailure .init asksAround).any _ = true)
  have hreply := of_decide_eq_true hw
  exact ⟨w, run, hreply, (replies_answer run).1 _ hreply⟩

end MiniDiscord.Cluster
