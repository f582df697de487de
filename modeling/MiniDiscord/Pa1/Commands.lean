import MiniDiscord.Pa1.Membership
import MiniDiscord.Pa1.Reference
import MiniDiscord.Pa1.TcpHandlers

/-!
# What a line does

A line that starts with `QUIT` closes the connection, a bare `SEND` or `HISTORY` panics, and every
other line gets a response.
-/

namespace MiniDiscord.Pa1

open Text (trim startsWith splitSpace splitSpace_isSome startsWith_other)

variable {inv : AppState → Prop} {state : AppState} {user : Option String} {line : List Char}
  {α β : Type}

/-! ## Calls that end -/

/-- Alone at the store, the program returns and keeps the invariant. -/
def Ends (inv : AppState → Prop) (t : Op α) (state : AppState) : Prop :=
  ∃ a state', t.alone Section.exec state = some (a, state') ∧ inv state'

variable {t : Op α}

theorem ends_done {a : α} (h : inv state) : Ends inv (.done a) state := ⟨a, state, rfl, h⟩

theorem Ends.bind (h : Ends inv t state) {f : α → Op β}
    (hf : ∀ a state', inv state' → Ends inv (f a) state') : Ends inv (t >>= f) state := by
  obtain ⟨a, state', halone, hinv⟩ := h
  obtain ⟨b, state'', hrest, hinv'⟩ := hf a state' hinv
  refine ⟨b, state'', ?_, hinv'⟩
  rw [Program.alone_bind, halone]
  exact hrest

theorem Ends.of_map {f : α → β} (h : Ends inv (f <$> t) state) : Ends inv t state := by
  obtain ⟨b, state', halone, hinv⟩ := h
  rw [Program.alone_map, Option.map_eq_some_iff] at halone
  obtain ⟨⟨a, state₁⟩, halone, heq⟩ := halone
  obtain rfl : state₁ = state' := congrArg Prod.snd heq
  exact ⟨a, state₁, halone, hinv⟩

/-- The functions that the handlers of commands call. -/
def Call.isCommand : Call → Bool
  | .leaveAllChannels _ _ => false
  | _ => true

/-- Every call of a command ends and keeps the invariant. -/
def CommandsEnd (inv : AppState → Prop) : Prop :=
  ∀ k : Call, k.isCommand = true → ∀ state, inv state → Ends inv k.start state

/-- `leave_channel` and `send_message`, `list_channel_users` and `get_messages` -/
theorem total_checked {c : String} {go : Op (StateResult α)} (goes : go.Total) :
    Program.Total (if (!channelNameIsValid c) = true then .done (.error invalidChannelName)
      else .locked (.channelExists c) fun found =>
        if (!found) = true then .done (.error unknownChannel) else go) := by
  split_ifs
  · trivial
  · intro found
    dsimp only
    split_ifs
    · trivial
    · exact goes

theorem total_start {k : Call} (h : k.isCommand = true) : k.start.Total := by
  cases k with
  | leaveAllChannels => cases h
  | getUsers | userExists | getChannels => exact fun _ => trivial
  | createUser u =>
    have htotal : (createUser u).Total := fun found => by
      cases found with
      | true => trivial
      | false => exact fun _ => trivial
    exact htotal.map _
  | joinChannel u c =>
    have htotal : (joinChannel u c).Total := fun found => by
      cases found with
      | true =>
        change Program.Total (if _ then Program.done _ else _)
        split_ifs
        · trivial
        · exact fun _ => trivial
      | false => trivial
    exact htotal.map _
  | listChannelUsers c =>
    have htotal : (listChannelUsers c).Total :=
      total_checked fun _ => trivial
    exact htotal.map _
  | leaveChannel u c =>
    have htotal : (leaveChannel u c).Total :=
      total_checked fun found => by
        cases found with
        | true => exact fun _ => trivial
        | false => trivial
    exact htotal.map _
  | sendMessage c u t =>
    have htotal : (sendMessage c u t).Total :=
      total_checked fun found => by
        cases found with
        | true => exact fun _ => trivial
        | false => trivial
    exact htotal.map _
  | getMessages c limit offset =>
    have htotal : (getMessages c limit offset).Total :=
      total_checked fun _ => trivial
    exact htotal.map _

theorem keyed_commands : CommandsEnd AppState.Keyed := by
  intro k hk state keyed
  obtain ⟨a, state', halone, keyed', -⟩ :=
    (safe_start keyed_preserved k state).alone (total_start hk) keyed fun _ _ => trivial
  exact ⟨a, state', halone, keyed'⟩

theorem sound_commands : CommandsEnd AppState.Sound := by
  intro k _ state sound
  obtain ⟨state', halone, sound', -⟩ := call_refines sound k
  exact ⟨_, state', halone, sound'⟩

/-! ## Handlers -/

theorem ends_handleRegister (calls : CommandsEnd inv) (h : inv state) :
    Ends inv (handleRegister line) state := by
  unfold handleRegister
  split
  · exact (calls (.createUser _) rfl state h).of_map.bind fun _ _ => ends_done
  · exact ends_done h

theorem ends_handleLogin (calls : CommandsEnd inv) (h : inv state) :
    Ends inv (handleLogin user line) state := by
  unfold handleLogin
  split_ifs
  · exact ends_done h
  · split
    · refine (calls (.userExists _) rfl state h).of_map.bind fun found _ h' => ?_
      cases found <;> exact ends_done h'
    · exact ends_done h

theorem ends_handleLogout (h : inv state) : Ends inv (handleLogout user line) state := by
  unfold handleLogout
  split_ifs
  · exact ends_done h
  · cases user <;> exact ends_done h

theorem ends_handleJoin (calls : CommandsEnd inv) (h : inv state) :
    Ends inv (handleJoin user line) state := by
  unfold handleJoin
  split
  · cases user with
    | none => exact ends_done h
    | some username =>
      exact (calls (.joinChannel username _) rfl state h).of_map.bind fun _ _ => ends_done
  · exact ends_done h

theorem ends_handleLeave (calls : CommandsEnd inv) (h : inv state) :
    Ends inv (handleLeave user line) state := by
  unfold handleLeave
  split
  · cases user with
    | none => exact ends_done h
    | some username =>
      exact (calls (.leaveChannel username _) rfl state h).of_map.bind fun _ _ => ends_done
  · exact ends_done h

theorem ends_handleListChannels (calls : CommandsEnd inv) (h : inv state) :
    Ends inv (handleListChannels line) state := by
  unfold handleListChannels
  split_ifs
  · exact ends_done h
  · exact (calls .getChannels rfl state h).of_map.bind fun _ _ => ends_done

theorem ends_handleListUsers (calls : CommandsEnd inv) (h : inv state) :
    Ends inv (handleListUsers line) state := by
  unfold handleListUsers
  split
  · exact (calls (.listChannelUsers _) rfl state h).of_map.bind fun _ _ => ends_done
  · exact ends_done h

/-- `line.split_once(" ").unwrap()` does not fail. -/
theorem ends_handleSend (calls : CommandsEnd inv) (h : inv state) (space : ' ' ∈ line) :
    Ends inv (handleSend user line) state := by
  obtain ⟨⟨word, parts⟩, hsplit⟩ := Option.isSome_iff_exists.mp (splitSpace_isSome.mpr space)
  simp only [handleSend, hsplit]
  cases splitSpace parts with
  | none => exact ends_done h
  | some cm =>
    cases user with
    | none => exact ends_done h
    | some username =>
      exact (calls (.sendMessage _ username _) rfl state h).of_map.bind fun _ _ => ends_done

theorem ends_handleHistory (calls : CommandsEnd inv) (h : inv state) (space : ' ' ∈ line) :
    Ends inv (handleHistory line) state := by
  obtain ⟨⟨word, parts⟩, hsplit⟩ := Option.isSome_iff_exists.mp (splitSpace_isSome.mpr space)
  have hread : ∀ channel limit, Ends inv (do
      let messages ← getMessages (String.ofList channel) limit none
      return messages.map Reply.history) state := fun channel limit =>
    (calls (.getMessages _ limit none) rfl state h).of_map.bind fun _ _ => ends_done
  simp only [handleHistory, hsplit]
  cases splitSpace parts with
  | none => exact hread _ none
  | some cl =>
    dsimp only
    cases (parseUsize cl.2).filter (· < 2 ^ 64) with
    | none => exact ends_done h
    | some limit => exact hread _ (some limit)

/-! ## Lines -/

theorem processLine_quit (quit : isQuit line = true) :
    processLine user line = .done (.close, user) := by
  have other : ∀ word : String, word.toList.head?.any (· ≠ 'Q') = true →
      startsWith (trim line) word = false := fun _ => startsWith_other quit rfl
  simp (disch := decide) only [processLine, other, Bool.false_eq_true, if_false]
  exact if_pos quit

theorem processLine_bare (bare : isBare line = true) : processLine user line = .panicked := by
  obtain ⟨hword, hspace⟩ := Bool.and_eq_true_iff.mp bare
  have hnone : splitSpace (trim line) = none := by
    rw [← Option.not_isSome_iff_eq_none, splitSpace_isSome]
    exact of_decide_eq_true hspace
  rcases Bool.or_eq_true_iff.mp hword with hsend | hhistory
  · have other : ∀ word : String, word.toList.head?.any (· ≠ 'S') = true →
        startsWith (trim line) word = false := fun _ => startsWith_other hsend rfl
    simp (disch := decide) only [processLine, other, hsend, handleSend, hnone, Bool.false_eq_true,
      if_false, if_true, Program.panicked_map]
  · have other : ∀ word : String, word.toList.head?.any (· ≠ 'H') = true →
        startsWith (trim line) word = false := fun _ => startsWith_other hhistory rfl
    simp (disch := decide) only [processLine, other, hhistory, handleHistory, hnone,
      Bool.false_eq_true, if_false, if_true, Program.panicked_map]

/-- Alone at the store, the line gets a response. -/
def Sends (inv : AppState → Prop) (t : Op (SocketOperation × Option String)) (state : AppState) :
    Prop :=
  ∃ val user' state',
    t.alone Section.exec state = some ((.send val, user'), state') ∧ inv state'

theorem Ends.sends {t : Op α} (h : Ends inv t state) (f : α → Response × Option String) :
    Sends inv ((fun a => (.send (f a).1, (f a).2)) <$> t) state := by
  obtain ⟨a, state', halone, hinv⟩ := h
  refine ⟨(f a).1, (f a).2, state', ?_, hinv⟩
  rw [Program.alone_map, halone]
  rfl

theorem sends_ite {b : Prop} [Decidable b] {t t' : Op (SocketOperation × Option String)}
    (h : b → Sends inv t state) (h' : ¬ b → Sends inv t' state) :
    Sends inv (if b then t else t') state := by
  split_ifs with hb
  · exact h hb
  · exact h' hb

theorem processLine_sends (user : Option String) (calls : CommandsEnd inv) (h : inv state)
    (bare : isBare line = false) (quit : isQuit line = false) :
    Sends inv (processLine user line) state := by
  have space : (startsWith (trim line) "SEND" || startsWith (trim line) "HISTORY") = true →
      ' ' ∈ trim line := by
    intro hword
    simpa [isBare, hword] using bare
  refine sends_ite (fun _ => (ends_handleRegister calls h).sends fun val => (val, user)) fun _ => ?_
  refine sends_ite (fun _ => (ends_handleLogin calls h).sends id) fun _ => ?_
  refine sends_ite (fun _ => (ends_handleLogout h).sends id) fun _ => ?_
  refine sends_ite (fun _ => (ends_handleJoin calls h).sends fun val => (val, user)) fun _ => ?_
  refine sends_ite (fun _ => (ends_handleLeave calls h).sends fun val => (val, user)) fun _ => ?_
  refine sends_ite (fun _ => (ends_handleListChannels calls h).sends fun val => (val, user))
    fun _ => ?_
  refine sends_ite (fun _ => (ends_handleListUsers calls h).sends fun val => (val, user))
    fun _ => ?_
  refine sends_ite (fun hsend => ?_) fun _ => sends_ite (fun hhistory => ?_) fun _ => ?_
  · exact (ends_handleSend calls h (space (by simp [hsend]))).sends fun val => (val, user)
  · exact (ends_handleHistory calls h (space (by simp [hhistory]))).sends fun val => (val, user)
  · refine sends_ite (fun hquit => ?_) fun _ => ⟨_, _, state, rfl, h⟩
    exact absurd hquit (by simpa [isQuit] using quit)

end MiniDiscord.Pa1
