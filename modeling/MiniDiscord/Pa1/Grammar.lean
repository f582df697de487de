import MiniDiscord.Pa1.Commands

/-!
# The grammar of the commands

`process_socket` looks at the beginning of a line only, and each handler splits the line for itself
and looks at everything but the first word. So a keyword may be prolonged: `REGISTERED bob`
registers `bob`, and `QUIT now` closes the connection. Apart from this, from what `handle_history`
trims, and from a `SEND` or `HISTORY` with nothing after it, the handlers accept what their error
messages ask for.
-/

namespace MiniDiscord.Pa1

open Text

/-! ## The documented forms -/

inductive Command
  | register (username : List Char)
  | login (username : List Char)
  | logout
  | join (channel : List Char)
  | leave (channel : List Char)
  | listChannels
  | listUsers (channel : List Char)
  | send (channel message : List Char)
  | history (channel : List Char) (limit : Option ℕ)
  | quit
deriving DecidableEq

def Command.keyword : Command → String
  | register _ => "REGISTER"
  | login _ => "LOGIN"
  | logout => "LOGOUT"
  | join _ => "JOIN"
  | leave _ => "LEAVE"
  | listChannels => "LIST CHANNELS"
  | listUsers _ => "LIST USERS"
  | send _ _ => "SEND"
  | history _ _ => "HISTORY"
  | quit => "QUIT"

/-- An argument between two spaces. -/
def Word (text : List Char) : Prop := text ≠ [] ∧ ' ' ∉ text

/-- What stands after the keyword. The message is the rest of the line. -/
inductive Args : Command → List Char → Prop
  | register {u : List Char} (word : Word u) : Args (.register u) (' ' :: u)
  | login {u : List Char} (word : Word u) : Args (.login u) (' ' :: u)
  | logout : Args .logout []
  | join {c : List Char} (word : Word c) : Args (.join c) (' ' :: c)
  | leave {c : List Char} (word : Word c) : Args (.leave c) (' ' :: c)
  | listChannels : Args .listChannels []
  | listUsers {c : List Char} (word : Word c) : Args (.listUsers c) (' ' :: c)
  | send {c : List Char} (m : List Char) (word : Word c) : Args (.send c m) (' ' :: c ++ ' ' :: m)
  | history {c : List Char} (word : Word c) : Args (.history c none) (' ' :: c)
  | historyLimit {c limit : List Char} {n : ℕ} (word : Word c)
      (number : (parseUsize limit).filter (· < 2 ^ 64) = some n) :
      Args (.history c (some n)) (' ' :: c ++ ' ' :: limit)
  | quit : Args .quit []

/-- The text is exactly of the form of the command. -/
def Form (text : List Char) (cmd : Command) : Prop :=
  ∃ args, Args cmd args ∧ text = cmd.keyword.toList ++ args

/-- What the command does for the user of the session. -/
def Command.run (user : Option String) : Command → Op (SocketOperation × Option String)
  | register u => (fun response => (.send response, user)) <$> do
    let result ← createUser (String.ofList u)
    return result.map fun () => .register (String.ofList u)
  | login u => (fun result => (.send result.1, result.2)) <$>
    if user.isSome then return (.error alreadyLoggedIn, user)
    else do
      if !(← userExists (String.ofList u)) then
        return (.error unknownUserBadRequest, user)
      else return (.ok (.login (String.ofList u)), some (String.ofList u))
  | logout => match user with
    | none => return (.send (.error notLoggedIn), none)
    | some username => return (.send (.ok (.logout username)), none)
  | join c => match user with
    | none => return (.send (.error notLoggedIn), none)
    | some username => (fun response => (.send response, some username)) <$> do
      let result ← joinChannel username (String.ofList c)
      return result.map fun () => .join (String.ofList c) username
  | leave c => match user with
    | none => return (.send (.error notLoggedIn), none)
    | some username => (fun response => (.send response, some username)) <$> do
      let result ← leaveChannel username (String.ofList c)
      return result.map fun () => .leave (String.ofList c) username
  | listChannels => (fun response => (.send response, user)) <$> do
    let channels ← getChannels
    return .ok (.listChannels channels)
  | listUsers c => (fun response => (.send response, user)) <$> do
    let users ← listChannelUsers (String.ofList c)
    return users.map (.listUsers (String.ofList c))
  | send c m => match user with
    | none => return (.send (.error notLoggedIn), none)
    | some username => (fun response => (.send response, some username)) <$> do
      let messageId ← sendMessage (String.ofList c) username (String.ofList m)
      return messageId.map .send
  | history c limit => (fun response => (.send response, user)) <$> do
    let messages ← getMessages (String.ofList c) limit none
    return messages.map .history
  | quit => return (.close, user)

/-! ## The choice of a handler -/

variable {user : Option String} {line text word u c m x args rest : List Char} {cmd : Command}
  {state : AppState}

/-- What `process_socket` calls for a line that begins with the keyword. -/
def Command.handler (user : Option String) (text : List Char) :
    Command → Op (SocketOperation × Option String)
  | register _ => (fun response => (.send response, user)) <$> handleRegister text
  | login _ => (fun result => (.send result.1, result.2)) <$> handleLogin user text
  | logout => (fun result => (.send result.1, result.2)) <$> handleLogout user text
  | join _ => (fun response => (.send response, user)) <$> handleJoin user text
  | leave _ => (fun response => (.send response, user)) <$> handleLeave user text
  | listChannels => (fun response => (.send response, user)) <$> handleListChannels text
  | listUsers _ => (fun response => (.send response, user)) <$> handleListUsers text
  | send _ _ => (fun response => (.send response, user)) <$> handleSend user text
  | history _ _ => (fun response => (.send response, user)) <$> handleHistory text
  | quit => return (.close, user)

/-- One command of each kind, in the order in which `process_socket` tries them. -/
def kinds : List Command :=
  [.register [], .login [], .logout, .join [], .leave [], .listChannels, .listUsers [], .send [] [],
    .history [] none, .quit]

/-- The same, with other arguments. -/
def Command.kind : Command → Command
  | register _ => register []
  | login _ => login []
  | join _ => join []
  | leave _ => leave []
  | listUsers _ => listUsers []
  | send _ _ => send [] []
  | history _ _ => history [] none
  | cmd => cmd

theorem kind_mem (cmd : Command) : cmd.kind ∈ kinds := by
  cases cmd <;> simp [Command.kind, kinds]

theorem kind_keyword (cmd : Command) : cmd.kind.keyword = cmd.keyword := by
  cases cmd <;> rfl

theorem kind_handler (cmd : Command) : cmd.kind.handler user text = cmd.handler user text := by
  cases cmd <;> rfl

theorem find_cons {α β : Type} (f : α → Bool) (g : α → β) (b : β) (a : α) (l : List α) :
    ((a :: l).find? f).elim b g = if f a then g a else (l.find? f).elim b g := by
  rw [List.find?_cons]
  cases f a <;> rfl

theorem processLine_find : processLine user line =
    (kinds.find? fun cmd => startsWith (trim line) cmd.keyword).elim
      (return (.send (.error unknownCommand), user)) fun cmd => cmd.handler user (trim line) := by
  simp only [kinds, find_cons]
  rfl

/-- No keyword begins another one. -/
theorem kind_unique {cmd cmd' : Command} (h : cmd ∈ kinds) (h' : cmd' ∈ kinds)
    (starts : startsWith text cmd.keyword = true) (starts' : startsWith text cmd'.keyword = true) :
    cmd = cmd' := by
  have hfree : ∀ cmd ∈ kinds, ∀ cmd' ∈ kinds, cmd.keyword.toList <+: cmd'.keyword.toList →
      cmd = cmd' := by decide
  have hprefix : cmd.keyword.toList <+: text := List.isPrefixOf_iff_prefix.mp starts
  have hprefix' : cmd'.keyword.toList <+: text := List.isPrefixOf_iff_prefix.mp starts'
  rcases List.prefix_or_prefix_of_prefix hprefix hprefix' with hle | hle
  · exact hfree cmd h cmd' h' hle
  · exact (hfree cmd' h' cmd h hle).symm

theorem processLine_handler (starts : startsWith (trim line) cmd.keyword = true) :
    processLine user line = cmd.handler user (trim line) := by
  rw [← kind_keyword] at starts
  rw [processLine_find, ← kind_handler]
  cases hfind : kinds.find? fun cmd => startsWith (trim line) cmd.keyword with
  | none => exact absurd starts (List.find?_eq_none.mp hfind _ (kind_mem cmd))
  | some cmd' =>
    have hstarts : startsWith (trim line) cmd'.keyword = true := by
      simpa using List.find?_some hfind
    obtain rfl : cmd' = cmd.kind :=
      kind_unique (List.mem_of_find?_eq_some hfind) (kind_mem cmd) hstarts starts
    rfl

theorem processLine_unknown (h : ∀ cmd : Command, startsWith (trim line) cmd.keyword = false) :
    processLine user line = .done (.send (.error unknownCommand), user) := by
  have hnone : (kinds.find? fun cmd => startsWith (trim line) cmd.keyword) = none :=
    List.find?_eq_none.mpr fun cmd _ => by simp [h cmd]
  rw [processLine_find, hnone]
  rfl

/-! ## What the server takes a line for -/

/-- `handle_history` trims the channel if no limit follows it. -/
def Command.trimmed : Command → Command
  | history c none => history (trim c) none
  | cmd => cmd

/-- The server takes the text for the command: whatever comes right after the keyword, and after
`QUIT` anything, is passed over. -/
structure Taken (text : List Char) (cmd : Command) (x args : List Char) : Prop where
  parts : text = cmd.keyword.toList ++ x ++ args
  whole : ' ' ∉ x ∨ cmd = .quit
  args : Args cmd args

theorem splitOn_two (hw : ' ' ∉ word) (hu : ' ' ∉ u) :
    (word ++ ' ' :: u).splitOn ' ' = [word, u] := by
  rw [splitOn_word hw, List.splitOn_eq_singleton hu]

theorem splitOn_keyword {k : String} (hk : ' ' ∉ k.toList) (hx : ' ' ∉ x) (hu : ' ' ∉ u) :
    (k.toList ++ x ++ ' ' :: u).splitOn ' ' = [k.toList ++ x, u] :=
  splitOn_two (by simp [hk, hx]) hu

theorem splitOn_first {k : String} (hk : ' ' ∉ k.toList) :
    (k.toList ++ ' ' :: rest).splitOn ' ' = k.toList :: rest.splitOn ' ' := splitOn_word hk

/-- Whatever is added to the keyword, the handler does what it does for the keyword. -/
theorem handler_prolonged (whole : ' ' ∉ x ∨ cmd = .quit) (hargs : Args cmd args) :
    cmd.handler user (cmd.keyword.toList ++ x ++ args) = cmd.trimmed.run user := by
  cases whole with
  | inr hquit =>
    subst hquit
    cases hargs
    rfl
  | inl hx =>
    cases hargs with
    | @register u hu =>
      have hsplit := splitOn_keyword (k := "REGISTER") (by decide) hx hu.2
      simp only [Command.handler, Command.keyword, handleRegister, hsplit]
      rfl
    | @login u hu =>
      have hsplit := splitOn_keyword (k := "LOGIN") (by decide) hx hu.2
      rw [Command.handler, Command.keyword, handleLogin, hsplit]
      cases user <;> rfl
    | logout =>
      have hsplit : ("LOGOUT".toList ++ x).splitOn ' ' = ["LOGOUT".toList ++ x] :=
        List.splitOn_eq_singleton (by simp [hx])
      simp only [Command.handler, Command.keyword, handleLogout, List.append_nil, hsplit]
      cases user <;> rfl
    | @join c hc =>
      have hsplit := splitOn_keyword (k := "JOIN") (by decide) hx hc.2
      simp only [Command.handler, Command.keyword, handleJoin, hsplit]
      cases user <;> rfl
    | @leave c hc =>
      have hsplit := splitOn_keyword (k := "LEAVE") (by decide) hx hc.2
      simp only [Command.handler, Command.keyword, handleLeave, hsplit]
      cases user <;> rfl
    | listChannels =>
      have hsplit : ("LIST CHANNELS".toList ++ x).splitOn ' ' =
          ["LIST".toList, "CHANNELS".toList ++ x] := by
        rw [← List.splitOn_eq_singleton (show ' ' ∉ "CHANNELS".toList ++ x by simp [hx])]
        exact splitOn_first (k := "LIST") (by decide)
      simp only [Command.handler, Command.keyword, handleListChannels, List.append_nil, hsplit]
      rfl
    | @listUsers c hc =>
      have hsplit : ("LIST USERS".toList ++ x ++ ' ' :: c).splitOn ' ' =
          ["LIST".toList, "USERS".toList ++ x, c] := by
        rw [← splitOn_keyword (k := "USERS") (by decide) hx hc.2]
        exact splitOn_first (k := "LIST") (by decide)
      simp only [Command.handler, Command.keyword, handleListUsers, hsplit]
      rfl
    | @send c m hc =>
      have hword : ' ' ∉ "SEND".toList ++ x := by simp [hx]
      simp only [Command.handler, Command.keyword, handleSend, List.cons_append,
        splitSpace_word hword, splitSpace_word hc.2]
      cases user <;> rfl
    | @history c hc =>
      have hword : ' ' ∉ "HISTORY".toList ++ x := by simp [hx]
      simp only [Command.handler, Command.keyword, handleHistory, splitSpace_word hword,
        splitSpace_none hc.2]
      rfl
    | @historyLimit c limit n hc number =>
      have hword : ' ' ∉ "HISTORY".toList ++ x := by simp [hx]
      simp only [Command.handler, Command.keyword, handleHistory, List.cons_append,
        splitSpace_word hword, splitSpace_word hc.2, number]
      rfl
    | quit => rfl

theorem processLine_taken (h : Taken (trim line) cmd x args) :
    processLine user line = cmd.trimmed.run user := by
  have starts : startsWith (trim line) cmd.keyword = true :=
    startsWith_iff.mpr ⟨x ++ args, by rw [h.parts, List.append_assoc]⟩
  rw [processLine_handler starts, h.parts, handler_prolonged h.whole h.args]

/-! ## Lines that are refused -/

/-- Whatever others do meanwhile, nothing is changed, and an error is answered. -/
def Refuses (user : Option String) : Op (SocketOperation × Option String) → Prop
  | .done (.send (.error _), user') => user' = user
  | .locked i next => (∀ state, ∃ a, i.exec state = some (a, state)) ∧ ∀ a, Refuses user (next a)
  | _ => False

theorem Refuses.alone {t : Op (SocketOperation × Option String)} (h : Refuses user t)
    (state : AppState) :
    ∃ e, t.alone Section.exec state = some ((.send (.error e), user), state) := by
  induction t with
  | done result =>
    obtain ⟨op, user'⟩ := result
    cases op with
    | close => exact h.elim
    | send val =>
      cases val with
      | ok reply => exact h.elim
      | error e =>
        obtain rfl : user' = user := h
        exact ⟨e, rfl⟩
  | panicked => exact h.elim
  | locked i next ih =>
    obtain ⟨a, hexec⟩ := h.1 state
    rw [Program.alone_locked next hexec]
    exact ih a (h.2 a)

/-- A command that is about a channel can succeed only if its name begins with `#`. -/
def Command.channel : Command → Option (List Char)
  | join c | leave c | listUsers c | send c _ | history c _ => some c
  | _ => none

def Command.CanSucceed (cmd : Command) : Prop := ∀ c ∈ cmd.channel, c.head? = some '#'

theorem channelNameIsValid_ofList :
    channelNameIsValid (String.ofList c) = true ↔ c.head? = some '#' := by
  simp [channelNameIsValid]

theorem refuses_channel (h : ¬ cmd.CanSucceed) : Refuses user (cmd.run user) := by
  obtain ⟨c, hc, hhead⟩ : ∃ c ∈ cmd.channel, c.head? ≠ some '#' := by
    simpa [Command.CanSucceed] using h
  have hinvalid : channelNameIsValid (String.ofList c) = false :=
    Bool.eq_false_iff.mpr (mt channelNameIsValid_ofList.mp hhead)
  cases cmd with
  | join c' =>
    cases hc
    cases user with
    | none => rfl
    | some username =>
      have hjoin : joinChannel username (String.ofList c) =
          .locked (.userExists username) fun found =>
            if found then .done (.error invalidChannelName)
            else .done (.error unknownUserBadRequest) := by
        simp only [joinChannel, userExists, Program.lock_bind, hinvalid]
        congr 1
        funext found
        cases found <;> rfl
      simp only [Command.run, hjoin]
      refine ⟨fun state => ⟨_, rfl⟩, fun found => ?_⟩
      cases found <;> rfl
  | leave c' | send c' m =>
    cases hc
    cases user with
    | none => rfl
    | some username => simp [Command.run, leaveChannel, sendMessage, hinvalid, Refuses, Except.map]
  | listUsers c' | history c' limit =>
    cases hc
    simp [Command.run, listChannelUsers, getMessages, hinvalid, Refuses, Except.map]
  | _ => cases hc

theorem argument_cases {k : String} (hk : ' ' ∉ k.toList) (last : ∀ front, rest ≠ front ++ [' ']) :
    (∃ x u, rest = x ++ ' ' :: u ∧ ' ' ∉ x ∧ Word u) ∨
      ∀ w u, (k.toList ++ rest).splitOn ' ' ≠ [w, u] := by
  rcases first_word rest with hrest | ⟨x, parts, rfl, hx⟩
  · refine Or.inr fun w u h => ?_
    rw [List.splitOn_eq_singleton (by simp [hk, hrest])] at h
    simp at h
  · rcases first_word parts with hparts | ⟨w, rest', rfl, hw⟩
    · refine Or.inl ⟨x, parts, rfl, hx, fun hnil => last x (by rw [hnil]), hparts⟩
    · refine Or.inr fun w' u h => ?_
      rw [← List.append_assoc, splitOn_word (by simp [hk, hx]), splitOn_word hw] at h
      simp at h

theorem handleLogin_error (h : ∀ w u, text.splitOn ' ' ≠ [w, u]) :
    handleLogin none text = .done (.error invalidLogin, none) := by
  unfold handleLogin
  split
  · contradiction
  · split
    · exact absurd ‹_› (h _ _)
    · rfl

theorem send_refuses (hx : ' ' ∉ x) (h : ∀ c m, rest = c ++ ' ' :: m → ¬ Word c) :
    Refuses user ((Command.send [] []).handler user ("SEND".toList ++ (x ++ ' ' :: rest))) := by
  have hword : ' ' ∉ "SEND".toList ++ x := by simp [hx]
  have hempty : channelNameIsValid (String.ofList []) = false := by decide
  simp only [Command.handler, handleSend, ← List.append_assoc, splitSpace_word hword]
  rcases first_word rest with hrest | ⟨c, m, rfl, hc⟩
  · simp only [splitSpace_none hrest]
    rfl
  · obtain rfl : c = [] := by
      by_contra hne
      exact h c m rfl ⟨hne, hc⟩
    simp only [splitSpace_word hc]
    cases user with
    | none => rfl
    | some username => simp [sendMessage, hempty, Refuses, Except.map]

theorem history_refuses (hx : ' ' ∉ x) (hrest : ¬ Word rest)
    (h : ∀ c limit n, rest = c ++ ' ' :: limit →
      (parseUsize limit).filter (· < 2 ^ 64) = some n → ¬ Word c) (nonempty : rest ≠ []) :
    Refuses user
      ((Command.history [] none).handler user ("HISTORY".toList ++ (x ++ ' ' :: rest))) := by
  have hword : ' ' ∉ "HISTORY".toList ++ x := by simp [hx]
  have hempty : channelNameIsValid (String.ofList []) = false := by decide
  simp only [Command.handler, handleHistory, ← List.append_assoc, splitSpace_word hword]
  rcases first_word rest with hspace | ⟨c, limit, rfl, hc⟩
  · exact absurd ⟨nonempty, hspace⟩ hrest
  · simp only [splitSpace_word hc]
    cases number : (parseUsize limit).filter (· < 2 ^ 64) with
    | none => rfl
    | some n =>
      obtain rfl : c = [] := by
        by_contra hne
        exact h c limit n rfl number ⟨hne, hc⟩
      simp [getMessages, hempty, Refuses, Except.map]

/-- A text that is taken for no command. -/
theorem handler_refuses (last : ∀ front, cmd.keyword.toList ++ rest ≠ front ++ [' '])
    (space : cmd.kind = .send [] [] ∨ cmd.kind = .history [] none → ' ' ∈ rest)
    (h : ∀ cmd' x args, ¬ Taken (cmd.keyword.toList ++ rest) cmd' x args) :
    Refuses user (cmd.handler user (cmd.keyword.toList ++ rest)) := by
  have hlast : ∀ front, rest ≠ front ++ [' '] := by
    rintro front rfl
    exact last _ (List.append_assoc ..).symm
  have htaken : ∀ cmd' x args, cmd'.keyword = cmd.keyword → rest = x ++ args →
      (' ' ∉ x ∨ cmd' = .quit) → ¬ Args cmd' args := by
    intro cmd' x args hkeyword hrest whole hargs
    exact h cmd' x args ⟨by rw [hrest, hkeyword, List.append_assoc], whole, hargs⟩
  cases cmd with
  | register u =>
    rcases argument_cases (k := "REGISTER") (by decide) hlast with ⟨x, u', rfl, hx, hu⟩ | hsplit
    · exact absurd (.register hu) (htaken (.register u') x _ rfl rfl (Or.inl hx))
    · simp only [Command.handler, Command.keyword, handleRegister]
      rfl
  | login u =>
    rcases argument_cases (k := "LOGIN") (by decide) hlast with ⟨x, u', rfl, hx, hu⟩ | hsplit
    · exact absurd (.login hu) (htaken (.login u') x _ rfl rfl (Or.inl hx))
    · cases user with
      | none =>
        change Refuses none (_ <$> handleLogin none ("LOGIN".toList ++ rest))
        rw [handleLogin_error hsplit]
        rfl
      | some => rfl
  | logout =>
    rcases first_word rest with hrest | ⟨x, parts, rfl, hx⟩
    · exact absurd .logout (htaken .logout rest [] rfl (by simp) (Or.inl hrest))
    · have hsplit : ("LOGOUT".toList ++ (x ++ ' ' :: parts)).splitOn ' ' =
          ("LOGOUT".toList ++ x) :: parts.splitOn ' ' := by
        rw [← List.append_assoc, splitOn_word (by simp [hx])]
      have hlength : (("LOGOUT".toList ++ x) :: parts.splitOn ' ').length ≠ 1 := by simp
      simp only [Command.handler, Command.keyword, handleLogout, hsplit, if_pos hlength]
      rfl
  | join c =>
    rcases argument_cases (k := "JOIN") (by decide) hlast with ⟨x, c', rfl, hx, hc⟩ | hsplit
    · exact absurd (.join hc) (htaken (.join c') x _ rfl rfl (Or.inl hx))
    · simp only [Command.handler, Command.keyword, handleJoin]
      rfl
  | leave c =>
    rcases argument_cases (k := "LEAVE") (by decide) hlast with ⟨x, c', rfl, hx, hc⟩ | hsplit
    · exact absurd (.leave hc) (htaken (.leave c') x _ rfl rfl (Or.inl hx))
    · simp only [Command.handler, Command.keyword, handleLeave]
      rfl
  | listChannels =>
    rcases first_word rest with hrest | ⟨x, parts, rfl, hx⟩
    · exact absurd .listChannels (htaken .listChannels rest [] rfl (by simp) (Or.inl hrest))
    · have hsplit : ("LIST CHANNELS".toList ++ (x ++ ' ' :: parts)).splitOn ' ' =
          "LIST".toList :: ("CHANNELS".toList ++ x) :: parts.splitOn ' ' := by
        rw [← splitOn_word (by simp [hx]), List.append_assoc]
        exact splitOn_first (k := "LIST") (by decide)
      have hlength :
          ("LIST".toList :: ("CHANNELS".toList ++ x) :: parts.splitOn ' ').length ≠ 2 := by simp
      simp only [Command.handler, Command.keyword, handleListChannels, hsplit, if_pos hlength]
      rfl
  | listUsers c =>
    have hfirst : ("LIST USERS".toList ++ rest).splitOn ' ' =
        "LIST".toList :: ("USERS".toList ++ rest).splitOn ' ' :=
      splitOn_first (k := "LIST") (by decide)
    rcases argument_cases (k := "USERS") (by decide) hlast with ⟨x, c', rfl, hx, hc⟩ | hsplit
    · exact absurd (.listUsers hc) (htaken (.listUsers c') x _ rfl rfl (Or.inl hx))
    · have hthree : ∀ l w u, ("LIST USERS".toList ++ rest).splitOn ' ' ≠ [l, w, u] := by
        intro l w u heq
        rw [hfirst] at heq
        exact hsplit w u (List.cons.inj heq).2
      simp only [Command.handler, Command.keyword, handleListUsers]
      rfl
  | send c m =>
    obtain ⟨x, parts, rfl, hx⟩ := List.eq_append_cons_of_mem (space (Or.inl rfl))
    refine send_refuses hx fun c' m' heq word => ?_
    subst heq
    exact htaken (.send c' m') x _ rfl rfl (Or.inl hx) (.send m' word)
  | history c limit =>
    obtain ⟨x, parts, rfl, hx⟩ := List.eq_append_cons_of_mem (space (Or.inr rfl))
    refine history_refuses hx (fun word => ?_) (fun c' limit' n heq number word => ?_) ?_
    · exact htaken (.history parts none) x _ rfl rfl (Or.inl hx) (.history word)
    · subst heq
      exact htaken (.history c' (some n)) x _ rfl rfl (Or.inl hx) (.historyLimit word number)
    · exact fun hnil => hlast x (by rw [hnil])
  | quit => exact absurd .quit (htaken .quit rest [] rfl (by simp) (Or.inr rfl))

theorem isBare_iff : isBare line = true ↔
    (startsWith (trim line) "SEND" = true ∨ startsWith (trim line) "HISTORY" = true) ∧
      ' ' ∉ trim line := by
  simp [isBare]

theorem line_cases (user : Option String) (line : List Char) :
    (∃ cmd x args, Taken (trim line) cmd x args) ∨ isBare line = true ∨
      Refuses user (processLine user line) := by
  by_cases htaken : ∃ cmd x args, Taken (trim line) cmd x args
  · exact Or.inl htaken
  by_cases bare : isBare line = true
  · exact Or.inr (Or.inl bare)
  refine Or.inr (Or.inr ?_)
  by_cases hstarts : ∃ cmd : Command, startsWith (trim line) cmd.keyword = true
  · obtain ⟨cmd, starts⟩ := hstarts
    obtain ⟨rest, hrest⟩ := startsWith_iff.mp starts
    have hspace : cmd.kind = .send [] [] ∨ cmd.kind = .history [] none → ' ' ∈ rest := by
      intro hkind
      by_contra hnone
      refine bare (isBare_iff.mpr ?_)
      rcases hkind with hkind | hkind
      · have hkeyword : cmd.keyword = "SEND" := by rw [← kind_keyword, hkind]; rfl
        rw [hkeyword] at starts hrest
        exact ⟨Or.inl starts, by simp [hrest, hnone]⟩
      · have hkeyword : cmd.keyword = "HISTORY" := by rw [← kind_keyword, hkind]; rfl
        rw [hkeyword] at starts hrest
        exact ⟨Or.inr starts, by simp [hrest, hnone]⟩
    rw [processLine_handler starts, hrest]
    refine handler_refuses (fun front hfront => ?_) hspace fun cmd' x args h => ?_
    · have hlast := trim_last (hrest.trans hfront)
      exact absurd hlast (by decide)
    · exact htaken ⟨cmd', x, args, hrest ▸ h⟩
  · rw [processLine_unknown fun cmd => Bool.eq_false_iff.mpr fun h => hstarts ⟨cmd, h⟩]
    rfl

/-! ## Commands that succeed -/

/-- After some calls, the command of some session is not answered with an error. -/
def Succeeds (cmd : Command) : Prop :=
  ∃ ks rs state user op user' state', callsAlone ks .new = some (rs, state) ∧
    (∀ u ∈ user, u ∈ state.users) ∧
    (cmd.run user).alone Section.exec state = some ((op, user'), state') ∧
    ∀ e, op ≠ .send (.error e)

theorem succeeds_call {α : Type} (ks : List Call) (user : Option String) (k : Call)
    {f : α → Value} {g : α → Reply} {t : Op (StateResult α)}
    (hrun : cmd.run user = (fun response => (.send response, user)) <$> do
      let result ← t
      return result.map g)
    (hstart : k.start = (·.map f) <$> t)
    (member : ∀ u ∈ user, u ∈ (Reference.new.calls ks).2.users)
    (succeeds : ∃ v, ((Reference.new.calls ks).2.call k).1 = .ok v) : Succeeds cmd := by
  obtain ⟨v, succeeds⟩ := succeeds
  obtain ⟨state, hcalls, sound, href⟩ := calls_refine sound_init ks
  have hnew : AppState.new.reference = Reference.new := rfl
  rw [hnew] at href
  obtain ⟨state', halone, -⟩ := call_refines sound k
  rw [href, succeeds, hstart, Program.alone_map, Option.map_eq_some_iff] at halone
  obtain ⟨⟨result, state₁⟩, halone, heq⟩ := halone
  cases result with
  | error e => cases congrArg Prod.fst heq
  | ok a =>
    refine ⟨ks, _, state, user, .send (.ok (g a)), user, state₁, hcalls, ?_, ?_, by simp⟩
    · have husers : state.users = (Reference.new.calls ks).2.users := congrArg Reference.users href
      rwa [husers]
    · rw [hrun, Program.alone_map, Program.alone_bind, halone]
      rfl

/-- Someone is registered, and a member of the channel. -/
def someMember (c : List Char) : List Call :=
  [.createUser "alice", .joinChannel "alice" (String.ofList c)]

theorem someMember_reference (valid : channelNameIsValid (String.ofList c) = true) :
    (Reference.new.calls (someMember c)).2 =
      ⟨{"alice"}, {String.ofList c},
        Function.update (fun _ => ∅) (String.ofList c) {"alice"}, fun _ => [], 0⟩ := by
  simp [someMember, Reference.calls, Reference.call, Reference.createUser, Reference.joinChannel,
    Reference.write, Reference.new, Except.map, valid]

theorem someMember_checkChannel (valid : channelNameIsValid (String.ofList c) = true) :
    (Reference.new.calls (someMember c)).2.checkChannel (String.ofList c) = .ok () := by
  simp [someMember_reference valid, Reference.checkChannel, valid]

theorem someMember_user (valid : channelNameIsValid (String.ofList c) = true) :
    ∀ u ∈ some "alice", u ∈ (Reference.new.calls (someMember c)).2.users := by
  simp [someMember_reference valid]

theorem succeeds (h : cmd.CanSucceed) : Succeeds cmd := by
  have hvalid : ∀ c ∈ cmd.channel, channelNameIsValid (String.ofList c) = true :=
    fun c hc => channelNameIsValid_ofList.mpr (h c hc)
  cases cmd with
  | register u =>
    exact succeeds_call [] none (.createUser (String.ofList u)) rfl rfl (by simp)
      ⟨_, rfl⟩
  | login u =>
    obtain ⟨state, hcalls, -, href⟩ := calls_refine sound_init [.createUser (String.ofList u)]
    have husers : state.users = {String.ofList u} := congrArg Reference.users href
    refine ⟨_, _, state, none, .send (.ok (.login (String.ofList u))), some (String.ofList u),
      state, hcalls, by simp, ?_, by simp⟩
    simp [Command.run, userExists, husers]
  | logout =>
    obtain ⟨state, hcalls, -, href⟩ := calls_refine sound_init [.createUser "alice"]
    have husers : state.users = {"alice"} := congrArg Reference.users href
    exact ⟨_, _, state, some "alice", _, _, state, hcalls, by simp [husers], rfl, by simp⟩
  | join c =>
    refine succeeds_call [.createUser "alice"] (some "alice")
      (.joinChannel "alice" (String.ofList c)) rfl rfl (by rintro _ ⟨⟩; decide) ⟨.unit, ?_⟩
    simp [Reference.calls, Reference.call, Reference.createUser, Reference.joinChannel,
      Reference.write, Reference.new, Except.map, hvalid c rfl]
  | leave c =>
    refine succeeds_call (someMember c) (some "alice") (.leaveChannel "alice" (String.ofList c)) rfl
      rfl (someMember_user (hvalid c rfl)) ⟨.unit, ?_⟩
    have hchannel := someMember_checkChannel (hvalid c rfl)
    rw [Reference.call, leaveChannel_map, hchannel, someMember_reference (hvalid c rfl)]
    simp [Reference.checkUser, Reference.write, bind, Except.bind]
  | listChannels => exact ⟨[], _, _, none, _, _, _, rfl, by simp, rfl, by simp⟩
  | listUsers c =>
    refine succeeds_call (someMember c) (some "alice") (.listChannelUsers (String.ofList c)) rfl rfl
      (someMember_user (hvalid c rfl)) ?_
    rw [Reference.call, someMember_checkChannel (hvalid c rfl)]
    exact ⟨_, rfl⟩
  | send c m =>
    refine succeeds_call (someMember c) (some "alice")
      (.sendMessage (String.ofList c) "alice" (String.ofList m)) rfl rfl
      (someMember_user (hvalid c rfl)) ⟨.messageId 0, ?_⟩
    have hchannel := someMember_checkChannel (hvalid c rfl)
    rw [Reference.call, Reference.sendMessage, hchannel, someMember_reference (hvalid c rfl)]
    simp [Reference.checkUser, Reference.write, bind, Except.bind, Except.map]
  | history c limit =>
    refine succeeds_call (someMember c) (some "alice")
      (.getMessages (String.ofList c) limit none) rfl rfl (someMember_user (hvalid c rfl)) ?_
    rw [Reference.call, someMember_checkChannel (hvalid c rfl)]
    exact ⟨_, rfl⟩
  | quit => exact ⟨[], _, _, none, .close, none, _, rfl, by simp, rfl, by simp⟩

/-! ## The forms that are read as they should be -/

/-- The line does what its form says; a line of no form is refused. -/
structure Obeys (user : Option String) (line : List Char) : Prop where
  performs : ∀ cmd, Form (trim line) cmd → processLine user line = cmd.run user
  refuses : (∀ cmd, ¬ Form (trim line) cmd) → Refuses user (processLine user line)

/-- The same, alone at the store. -/
structure ObeysAt (user : Option String) (line : List Char) (state : AppState) : Prop where
  performs : ∀ cmd, Form (trim line) cmd →
    (processLine user line).alone Section.exec state = (cmd.run user).alone Section.exec state
  refuses : (∀ cmd, ¬ Form (trim line) cmd) → ∃ e,
    (processLine user line).alone Section.exec state = some ((.send (.error e), user), state)

/-- Something follows the keyword, or whitespace other than a space precedes the channel of a
`HISTORY`, or a `SEND` or `HISTORY` has nothing after it. -/
inductive Misread : List Char → Prop
  | prolonged {text x args : List Char} {cmd : Command} (taken : Taken text cmd x args)
      (more : x ≠ []) (can : cmd.trimmed.CanSucceed) : Misread text
  | padded {c : List Char} (word : Word c) (pad : c.head? ≠ some '#')
      (valid : (trim c).head? = some '#') : Misread ("HISTORY".toList ++ ' ' :: c)
  | bare {text : List Char}
      (word : startsWith text "SEND" = true ∨ startsWith text "HISTORY" = true)
      (nothing : ' ' ∉ text) : Misread text

theorem Obeys.at (h : Obeys user line) (state : AppState) : ObeysAt user line state :=
  ⟨fun cmd form => by rw [h.performs cmd form], fun none => (h.refuses none).alone state⟩

theorem Form.taken (h : Form text cmd) : ∃ args, Taken text cmd [] args := by
  obtain ⟨args, hargs, heq⟩ := h
  exact ⟨args, by rw [heq, List.append_nil], by simp, hargs⟩

theorem Form.kind (h : Form text cmd) {cmd' : Command}
    (starts : startsWith text cmd'.keyword = true) : cmd.kind = cmd'.kind := by
  obtain ⟨args, -, heq⟩ := h
  have hstarts : startsWith text cmd.kind.keyword = true := by
    rw [kind_keyword]
    exact startsWith_iff.mpr ⟨args, heq⟩
  rw [← kind_keyword] at starts
  exact kind_unique (kind_mem cmd) (kind_mem cmd') hstarts starts

/-- Nothing but the arguments follows the keyword of a form. -/
theorem Taken.exact (h : Taken text cmd x args) {cmd' : Command} (form : Form text cmd') :
    x = [] := by
  have hkind : cmd'.kind = cmd.kind :=
    form.kind (startsWith_iff.mpr ⟨x ++ args, by rw [h.parts, List.append_assoc]⟩)
  have hkeyword : cmd'.keyword = cmd.keyword := by rw [← kind_keyword, hkind, kind_keyword]
  obtain ⟨args', hargs', heq⟩ := form
  have hrest : x ++ args = args' := by
    rw [h.parts, hkeyword, List.append_assoc] at heq
    exact List.append_cancel_left heq
  have hhead : args' = [] ∨ ∃ rest, args' = ' ' :: rest := by
    cases hargs' <;> simp
  rcases h.whole with hx | rfl
  · rcases hhead with rfl | ⟨rest, rfl⟩
    · exact (List.append_eq_nil_iff.mp hrest).1
    · cases x with
      | nil => rfl
      | cons d x' =>
        obtain rfl : d = ' ' := (List.cons.inj hrest).1
        exact absurd List.mem_cons_self hx
  · have hquit : cmd' = .quit := by
      cases cmd' <;> first | rfl | cases hkind
    subst hquit
    cases hargs'
    exact (List.append_eq_nil_iff.mp hrest).1

theorem bare_no_form (word : startsWith text "SEND" = true ∨ startsWith text "HISTORY" = true)
    (nothing : ' ' ∉ text) : ¬ Form text cmd := by
  intro form
  have hspace : ∀ cmd', startsWith text (Command.keyword cmd') = true →
      (∀ args, Args cmd args → cmd.kind = cmd'.kind → ' ' ∈ args) → False := by
    intro cmd' starts hargs
    have hkind := form.kind starts
    obtain ⟨args, hform, heq⟩ := form
    exact nothing (by rw [heq]; exact List.mem_append_right _ (hargs args hform hkind))
  rcases word with hsend | hhistory
  · refine hspace (.send [] []) hsend fun args hargs hkind => ?_
    cases hargs <;> first | exact List.mem_cons_self | cases hkind
  · refine hspace (.history [] none) hhistory fun args hargs hkind => ?_
    cases hargs <;> first | exact List.mem_cons_self | cases hkind

/-- A channel that `handle_history` trims for nothing. -/
theorem trimmed_run (form : Form (trim line) cmd) (h : ¬ Misread (trim line)) :
    cmd.trimmed.run user = cmd.run user := by
  obtain ⟨args, hargs, heq⟩ := form
  cases hargs with
  | @history c word =>
    change (Command.history (trim c) none).run user = (Command.history c none).run user
    by_cases hhead : c.head? = some '#'
    · have hlast : ∀ d ∈ c.getLast?, isWhitespace d = false := by
        intro d hd
        obtain ⟨front, rfl⟩ := List.getLast?_eq_some_iff.mp hd
        have hfront : trim line = "HISTORY".toList ++ ' ' :: front ++ [d] := by
          rw [heq, List.append_assoc]
          rfl
        exact trim_last hfront
      have hfirst : ∀ d ∈ c.head?, isWhitespace d = false := by
        rw [hhead]
        rintro d ⟨⟩
        decide
      rw [trim_eq_self hfirst hlast]
    · have htrim : (trim c).head? ≠ some '#' := fun valid => h (heq ▸ .padded word hhead valid)
      have hinvalid : ∀ c' : List Char, c'.head? ≠ some '#' →
          channelNameIsValid (String.ofList c') = false :=
        fun c' hc' => Bool.eq_false_iff.mpr (mt channelNameIsValid_ofList.mp hc')
      simp only [Command.run, getMessages, hinvalid c hhead, hinvalid (trim c) htrim]
      rfl
  | _ => rfl

theorem obeys (h : ¬ Misread (trim line)) (user : Option String) : Obeys user line where
  performs cmd form := by
    obtain ⟨args, taken⟩ := form.taken
    rw [processLine_taken taken, trimmed_run form h]
  refuses none := by
    rcases line_cases user line with ⟨cmd, x, args, taken⟩ | bare | hrefuses
    · rw [processLine_taken taken]
      refine refuses_channel fun can => h (.prolonged taken ?_ can)
      rintro rfl
      exact none cmd ⟨args, taken.args, by rw [taken.parts, List.append_nil]⟩
    · obtain ⟨word, nothing⟩ := isBare_iff.mp bare
      exact absurd (.bare word nothing) h
    · exact hrefuses

theorem misread (h : Misread (trim line)) : ∃ ks rs state user,
    callsAlone ks .new = some (rs, state) ∧ (∀ u ∈ user, u ∈ state.users) ∧
      ¬ ObeysAt user line state := by
  generalize htext : trim line = text at h
  cases h with
  | @prolonged _ x args cmd taken more can =>
    obtain ⟨ks, rs, state, user, op, user', state', hcalls, member, halone, hop⟩ := succeeds can
    refine ⟨ks, rs, state, user, hcalls, member, fun h => ?_⟩
    obtain ⟨e, hrefused⟩ := h.refuses fun cmd' form => more (taken.exact (htext ▸ form))
    rw [processLine_taken (htext ▸ taken), halone] at hrefused
    exact hop e (congrArg (fun r => r.1.1) (Option.some.inj hrefused))
  | @padded c word pad valid =>
    have can : (Command.history (trim c) none).CanSucceed := by rintro _ ⟨⟩; exact valid
    have hform : Form (trim line) (.history c none) := ⟨_, .history word, htext⟩
    obtain ⟨args, taken⟩ := hform.taken
    obtain ⟨ks, rs, state, user, op, user', state', hcalls, member, halone, hop⟩ := succeeds can
    refine ⟨ks, rs, state, user, hcalls, member, fun h => ?_⟩
    have hfails : ¬ (Command.history c none).CanSucceed := fun hc => pad (hc c rfl)
    have hrefuses : Refuses user ((Command.history c none).run user) := refuses_channel hfails
    obtain ⟨e, hrefused⟩ := hrefuses.alone state
    have hperforms := h.performs _ hform
    rw [processLine_taken taken, hrefused] at hperforms
    exact hop e (congrArg (fun r => r.1.1) (Option.some.inj (halone.symm.trans hperforms)))
  | bare word nothing =>
    refine ⟨[], [], .new, none, rfl, by simp, fun h => ?_⟩
    obtain ⟨e, hrefused⟩ := h.refuses fun cmd form => bare_no_form word nothing (htext ▸ form)
    rw [processLine_bare (isBare_iff.mpr (by rw [htext]; exact ⟨word, nothing⟩))] at hrefused
    cases hrefused

/-- **The server accepts what its grammar says**, in whatever way it is interleaved with others,
unless the line is one of those that it misreads; and each of those it misreads in some session. -/
theorem grammar (line : List Char) :
    ((∀ user, Obeys user line) ↔ ¬ Misread (trim line)) ∧
      (Misread (trim line) → ∃ ks rs state user, callsAlone ks .new = some (rs, state) ∧
        (∀ u ∈ user, u ∈ state.users) ∧ ¬ ObeysAt user line state) := by
  refine ⟨⟨fun h hmisread => ?_, obeys⟩, misread⟩
  obtain ⟨ks, rs, state, user, -, -, hnot⟩ := misread hmisread
  exact hnot ((h user).at state)

/-- `REGISTERED bob` is of no form, and registers `bob`. -/
theorem registered_bob : (∀ cmd, ¬ Form (trim "REGISTERED bob".toList) cmd) ∧ ∃ state,
    (processLine none "REGISTERED bob".toList).alone Section.exec .new =
      some ((.send (.ok (.register "bob")), none), state) ∧ "bob" ∈ state.users := by
  have htrim : trim "REGISTERED bob".toList = "REGISTERED bob".toList := by decide
  have taken : Taken "REGISTERED bob".toList (.register "bob".toList) "ED".toList " bob".toList :=
    ⟨rfl, Or.inl (by decide), .register ⟨by decide, by decide⟩⟩
  refine ⟨fun cmd form => absurd (taken.exact (htrim ▸ form)) (by decide), ?_⟩
  rw [processLine_taken (htrim.symm ▸ taken)]
  exact ⟨_, rfl, by decide⟩

end MiniDiscord.Pa1
