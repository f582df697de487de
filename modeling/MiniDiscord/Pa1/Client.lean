import MiniDiscord.Pa1.Socket
import MiniDiscord.Run

/-!
# The client and its connection

The loop of `client/src/main.rs` and `process_socket`, with the bytes that are under way between
them. The client takes the typed line for a `QUIT` if nothing else is in it, and waits for a
response otherwise.
-/

namespace MiniDiscord.Pa1

open Text (trim isWhitespace trim_append_whitespace)
open Wire (splitOnce splitOnce_some splitOnce_none splitOnce_eq_none splitOnce_line first_line)

/-! ## The two sides -/

inductive ClientPhase
  /-- in `read_line` -/
  | typing
  /-- `while !cur_line.contains("\n")` -/
  | waiting
  | gone
deriving DecidableEq

structure Client where
  phase : ClientPhase
  curLine : List Char
deriving DecidableEq

structure Link where
  client : Client
  socket : Socket
  /-- the bytes under way to the server -/
  toServer : List UInt8
  toClient : List UInt8

def Link.start (store : AppState) : Link := ⟨⟨.typing, []⟩, .start store, [], []⟩

inductive LinkEvent
  /-- what `read_line` gives: a line with its newline, or what there is before the end of input -/
  | input (text : List Char)
  /-- the write of the input fails -/
  | inputLost
  | clientRead (n : ℕ)
  | clientLine
  | serverRead (n : ℕ)
  | serverEof (order : HashOrder)
  | serverHandle
  | serverWrite (succeeds : Bool)

def Socket.isOver (socket : Socket) : Bool :=
  match socket.phase with
  | .ended _ => true
  | _ => false

variable (print : Json → List Char) (order : VecOrder)

/-- `format!("{}\n", to_send.to_string()).as_bytes()` -/
def responseBytes (val : Response) : List UInt8 := Utf8.encode (print (respond order val) ++ ['\n'])

def quit : List Char := ['Q', 'U', 'I', 'T']

def Link.step (link : Link) : LinkEvent → Option Link
  | .input text =>
    if link.client.phase = .typing ∧ '\n' ∉ text.dropLast then
      some { link with
        client := ⟨if trim text = quit then .gone else .waiting, link.client.curLine⟩,
        toServer := link.toServer ++ Utf8.encode text }
    else none
  | .inputLost =>
    if link.client.phase = .typing ∧ link.socket.isOver then
      some { link with client := ⟨.gone, link.client.curLine⟩ }
    else none
  | .clientRead n =>
    if link.client.phase = .waiting ∧ '\n' ∉ link.client.curLine ∧ n ≤ link.toClient.length ∧
        n ≤ 1024 ∧ (n = 0 → link.toClient = [] ∧ link.socket.isOver) then
      match Utf8.decode (link.toClient.take n) with
      | none => some { link with client := ⟨.gone, link.client.curLine⟩ }
      | some text => some { link with
          client := ⟨.waiting, link.client.curLine ++ text⟩, toClient := link.toClient.drop n }
    else none
  | .clientLine =>
    if link.client.phase = .waiting then do
      let (_, rest) ← splitOnce link.client.curLine
      some { link with client := ⟨.typing, rest⟩ }
    else none
  | .serverRead n =>
    if n ≤ link.toServer.length then do
      let socket ← link.socket.step (.read (link.toServer.take n))
      some { link with socket, toServer := link.toServer.drop n }
    else none
  | .serverEof order =>
    if link.client.phase = .gone ∧ link.toServer = [] then do
      let socket ← link.socket.step (.eof order)
      some { link with socket }
    else none
  | .serverHandle => do
    let socket ← link.socket.step .handle
    some { link with socket }
  | .serverWrite true =>
    match link.socket.phase with
    | .writing val rest => some { link with
        socket := link.socket.written val rest,
        toClient := link.toClient ++ responseBytes print order val }
    | _ => none
  | .serverWrite false =>
    if link.client.phase = .gone then do
      let socket ← link.socket.step (.write false)
      some { link with socket }
    else none

/-- The client waits for a response line, none is under way to it, and the server has closed the
connection or has answered all lines that it got or will still get. -/
def Link.stranded (link : Link) : Bool :=
  link.client.phase = .waiting && '\n' ∉ link.client.curLine && Utf8.newline ∉ link.toClient &&
    match link.socket.phase with
    | .ended _ => true
    | .writing _ _ => false
    | .reading curLine => '\n' ∉ curLine && Utf8.newline ∉ link.toServer

/-! ## Agreement -/

/-- The line that is handled next. -/
def Socket.nextLine (socket : Socket) : Option (List Char) :=
  match socket.phase with
  | .reading curLine => (splitOnce curLine).map Prod.fst
  | _ => none

/-- The server answers the line, or both sides take it for a `QUIT`. -/
def agreed (line : List Char) : Bool :=
  !isBare line && (!isQuit line || trim line = quit)

/-- Every input is a whole line or a `QUIT`; while the client waits, the server's reads end between
characters, and it handles only lines on which both sides agree. -/
def agrees (link : Link) : LinkEvent → Prop
  | .input text => '\n' ∈ text ∨ trim text = quit
  | .serverRead n =>
    link.client.phase = .waiting → (Utf8.decode (link.toServer.take n)).isSome = true
  | .serverHandle =>
    link.client.phase = .waiting → ∀ line ∈ link.socket.nextLine, agreed line = true
  | _ => True

instance (link : Link) (e : LinkEvent) : Decidable (agrees link e) := by
  cases e <;> unfold agrees <;> infer_instance

/-- Where the one line is that the client waits for. -/
inductive InStep (link : Link) : Prop
  | typing (client : link.client = ⟨.typing, []⟩) (server : link.socket.phase = .reading [])
      (up : link.toServer = []) (down : link.toClient = [])
  | sent (line curLine : List Char) (client : link.client = ⟨.waiting, []⟩)
      (server : link.socket.phase = .reading curLine)
      (up : Utf8.encode curLine ++ link.toServer = Utf8.encode (line ++ ['\n']))
      (one : '\n' ∉ line) (stays : trim line ≠ quit) (down : link.toClient = [])
  | answering (val : Response) (client : link.client = ⟨.waiting, []⟩)
      (server : link.socket.phase = .writing val []) (up : link.toServer = [])
      (down : link.toClient = [])
  | answered (text curLine : List Char) (client : link.client = ⟨.waiting, curLine⟩)
      (server : link.socket.phase = .reading []) (up : link.toServer = [])
      (down : Utf8.encode curLine ++ link.toClient = Utf8.encode (text ++ ['\n']))
      (one : '\n' ∉ text)
  | gone (client : link.client.phase = .gone)

variable {print order} {link link' : Link} {e : LinkEvent}
  {line line' rest curLine text : List Char} {bytes : List UInt8} {state state' : AppState}
  {α : Type}

/-! ## One line under way -/

theorem line_arrives (whole : Utf8.encode curLine ++ bytes = Utf8.encode (line ++ ['\n']))
    (one : '\n' ∉ line) (first : splitOnce curLine = some (line', rest)) :
    line' = line ∧ rest = [] ∧ bytes = [] := by
  obtain ⟨more, htext, rfl⟩ := Utf8.encode_of_prefix whole
  obtain ⟨rfl, hline'⟩ := splitOnce_some first
  rw [List.append_assoc, List.cons_append] at htext
  obtain ⟨rfl, hrest⟩ := first_line htext one hline'
  obtain ⟨rfl, rfl⟩ := List.append_eq_nil_iff.mp hrest.symm
  exact ⟨rfl, rfl, rfl⟩

theorem line_under_way (whole : Utf8.encode curLine ++ bytes = Utf8.encode (line ++ ['\n'])) :
    '\n' ∈ curLine ∨ Utf8.newline ∈ bytes := by
  obtain ⟨more, htext, rfl⟩ := Utf8.encode_of_prefix whole
  rw [Utf8.newline_mem_encode, ← List.mem_append, ← htext]
  simp

theorem input_line (whole : '\n' ∈ text) (last : '\n' ∉ text.dropLast) :
    ∃ line, text = line ++ ['\n'] ∧ '\n' ∉ line := by
  have hne : text ≠ [] := List.ne_nil_of_mem whole
  have htext := List.dropLast_append_getLast hne
  have hlast : text.getLast hne = '\n' := by
    rw [← htext, List.mem_append, List.mem_singleton] at whole
    exact (whole.resolve_left last).symm
  exact ⟨text.dropLast, by rw [← hlast, htext], last⟩

/-! ## Steps -/

theorem inStep_input (h : InStep link) (allowed : agrees link (.input text))
    (taken : link.step print order (.input text) = some link') : InStep link' := by
  simp only [Link.step] at taken
  split_ifs at taken with hguard hquit
  · cases taken
    exact .gone rfl
  · cases taken
    obtain ⟨line, rfl, hline⟩ := input_line (allowed.resolve_right hquit) hguard.2
    rw [trim_append_whitespace rfl] at hquit
    cases h with
    | typing client server up down =>
      exact .sent line [] (by rw [client]) server (by rw [up]; rfl) hline hquit down
    | sent line' curLine client => simp [client] at hguard
    | answering val client => simp [client] at hguard
    | answered text curLine client => simp [client] at hguard
    | gone client => simp [client] at hguard

theorem inStep_clientRead {n : ℕ} (h : InStep link)
    (taken : link.step print order (.clientRead n) = some link') : InStep link' := by
  simp only [Link.step] at taken
  split_ifs at taken with hguard
  obtain ⟨hphase, -, hlength, -, hempty⟩ := hguard
  split at taken
  · cases taken
    exact .gone rfl
  · rename_i text hdecode
    cases taken
    -- a read of length 0 needs a server that is over
    have hread : link.toClient = [] → link.socket.isOver = true := by
      intro hnil
      rw [hnil] at hlength
      exact (hempty (Nat.le_zero.mp hlength)).2
    cases h with
    | typing client => simp [client] at hphase
    | sent line curLine client server up one stays down =>
      simp [Socket.isOver, server] at hread
      exact absurd down hread
    | answering val client server up down =>
      simp [Socket.isOver, server] at hread
      exact absurd down hread
    | answered text' curLine client server up down one =>
      refine .answered text' (curLine ++ text) (by rw [client]) server up ?_ one
      rw [Utf8.encode_append, Utf8.encode_of_decode hdecode, List.append_assoc,
        List.take_append_drop, down]
    | gone client => simp [client] at hphase

theorem inStep_clientLine (h : InStep link)
    (taken : link.step print order .clientLine = some link') : InStep link' := by
  simp only [Link.step] at taken
  split_ifs at taken with hphase
  obtain ⟨⟨line, rest⟩, hfirst, hlink'⟩ := Option.bind_eq_some_iff.mp taken
  cases hlink'
  cases h with
  | typing client => simp [client] at hphase
  | sent line' curLine client => simp [client, splitOnce] at hfirst
  | answering val client => simp [client, splitOnce] at hfirst
  | answered text curLine client server up down one =>
    rw [client] at hfirst
    obtain ⟨-, rfl, hdown⟩ := line_arrives down one hfirst
    exact .typing rfl server up hdown
  | gone client => simp [client] at hphase

theorem inStep_serverRead {n : ℕ} (h : InStep link) (allowed : agrees link (.serverRead n))
    (taken : link.step print order (.serverRead n) = some link') : InStep link' := by
  simp only [Link.step] at taken
  split_ifs at taken
  obtain ⟨socket, hread, hlink'⟩ := Option.bind_eq_some_iff.mp taken
  cases hlink'
  cases h with
  | typing client server up => simp [Socket.step, server, up] at hread
  | sent line curLine client server up one stays down =>
    obtain ⟨text, hdecode⟩ := Option.isSome_iff_exists.mp (allowed (by rw [client]))
    simp only [Socket.step, server] at hread
    split_ifs at hread
    cases hread
    refine .sent line (curLine ++ text) client ?_ ?_ one stays down
    · simp only [Socket.receive, hdecode]
    · rw [Utf8.encode_append, Utf8.encode_of_decode hdecode, List.append_assoc,
        List.take_append_drop, up]
  | answering val client server => simp [Socket.step, server] at hread
  | answered text curLine client server up => simp [Socket.step, server, up] at hread
  | gone client => exact .gone client

theorem agreed_answers (h : agreed line = true) (stays : trim line ≠ quit) :
    isBare line = false ∧ isQuit line = false := by
  simpa [agreed, stays] using h

theorem inStep_serverHandle (h : InStep link) (keyed : link.socket.store.Keyed)
    (allowed : agrees link .serverHandle)
    (taken : link.step print order .serverHandle = some link') : InStep link' := by
  obtain ⟨socket, hhandle, hlink'⟩ := Option.bind_eq_some_iff.mp taken
  cases hlink'
  cases h with
  | typing client server => simp [Socket.step, server, splitOnce] at hhandle
  | sent line curLine client server up one stays down =>
    simp only [Socket.step, server, Option.map_eq_some_iff] at hhandle
    obtain ⟨⟨line', rest⟩, hfirst, rfl⟩ := hhandle
    obtain ⟨rfl, rfl, hup⟩ := line_arrives up one hfirst
    obtain ⟨hbare, hquit⟩ :=
      agreed_answers (allowed (by rw [client]) line' (by simp [Socket.nextLine, server, hfirst]))
        stays
    obtain ⟨val, user, store, -, hsends⟩ := handleLine_sends keyed_commands keyed hbare hquit
    exact .answering val client (by rw [hsends]) hup down
  | answering val client server => simp [Socket.step, server] at hhandle
  | answered text curLine client server => simp [Socket.step, server, splitOnce] at hhandle
  | gone client => exact .gone client

theorem inStep_serverWrite (printed : ∀ v, '\n' ∉ print v) (h : InStep link)
    (taken : link.step print order (.serverWrite true) = some link') : InStep link' := by
  simp only [Link.step] at taken
  split at taken
  · rename_i val rest hphase
    cases taken
    cases h with
    | typing client server => simp [server] at hphase
    | sent line curLine client server => simp [server] at hphase
    | answering val' client server up down =>
      obtain ⟨rfl, rfl⟩ := Phase.writing.inj (server.symm.trans hphase)
      refine .answered (print (respond order val')) [] client rfl up ?_ (printed _)
      rw [down]
      rfl
    | answered text curLine client server => simp [server] at hphase
    | gone client => exact .gone client
  · cases taken

theorem inStep_step (printed : ∀ v, '\n' ∉ print v) (h : InStep link)
    (keyed : link.socket.store.Keyed) (allowed : agrees link e)
    (taken : link.step print order e = some link') : InStep link' := by
  cases e with
  | input text => exact inStep_input h allowed taken
  | inputLost =>
    simp only [Link.step] at taken
    split_ifs at taken
    cases taken
    exact .gone rfl
  | clientRead n => exact inStep_clientRead h taken
  | clientLine => exact inStep_clientLine h taken
  | serverRead n => exact inStep_serverRead h allowed taken
  | serverHandle => exact inStep_serverHandle h keyed allowed taken
  | serverEof order' =>
    simp only [Link.step] at taken
    split_ifs at taken with hgone
    obtain ⟨socket, -, hlink'⟩ := Option.bind_eq_some_iff.mp taken
    cases hlink'
    exact .gone hgone.1
  | serverWrite succeeds =>
    cases succeeds with
    | true => exact inStep_serverWrite printed h taken
    | false =>
      simp only [Link.step] at taken
      split_ifs at taken with hgone
      obtain ⟨socket, -, hlink'⟩ := Option.bind_eq_some_iff.mp taken
      cases hlink'
      exact .gone hgone

/-! ## The store -/

theorem keyed_alone {t : Op α} {a : α} (h : t.alone Section.exec state = some (a, state'))
    (keyed : state.Keyed) : state'.Keyed :=
  Program.alone_invariant h keyed fun _ _ _ _ keyed hexec => change_keyed (exec_change hexec) keyed

theorem keyed_socket {socket socket' : Socket} {e : SocketEvent} (keyed : socket.store.Keyed)
    (taken : socket.step e = some socket') : socket'.store.Keyed := by
  cases socket_step_cases taken with
  | handled curLine line rest =>
    unfold Socket.handleLine
    split
    · exact keyed
    · exact keyed_alone ‹_› keyed
    · exact keyed_alone ‹_› keyed
  | received curLine bytes =>
    unfold Socket.receive
    split <;> exact keyed
  | closed curLine e why order =>
    unfold Socket.unexpectedClose
    split
    · exact keyed
    · split
      · exact keyed
      · exact keyed_alone ‹_› keyed
  | wrote | failed => exact keyed

/-- The server takes a step of its own, or none. -/
theorem link_socket (taken : link.step print order e = some link') :
    link'.socket = link.socket ∨ ∃ e', link.socket.step e' = some link'.socket := by
  cases e with
  | input | inputLost =>
    simp only [Link.step] at taken
    split_ifs at taken <;> cases taken <;> exact Or.inl rfl
  | clientRead n =>
    simp only [Link.step] at taken
    split_ifs at taken
    split at taken <;> cases taken <;> exact Or.inl rfl
  | clientLine =>
    simp only [Link.step] at taken
    split_ifs at taken
    obtain ⟨lr, -, hlink'⟩ := Option.bind_eq_some_iff.mp taken
    cases hlink'
    exact Or.inl rfl
  | serverRead | serverEof =>
    simp only [Link.step] at taken
    split_ifs at taken
    obtain ⟨socket, hstep, hlink'⟩ := Option.bind_eq_some_iff.mp taken
    cases hlink'
    exact Or.inr ⟨_, hstep⟩
  | serverHandle =>
    obtain ⟨socket, hstep, hlink'⟩ := Option.bind_eq_some_iff.mp taken
    cases hlink'
    exact Or.inr ⟨_, hstep⟩
  | serverWrite succeeds =>
    cases succeeds with
    | true =>
      simp only [Link.step] at taken
      split at taken
      · rename_i val rest hphase
        cases taken
        exact Or.inr ⟨.write true, by simp [Socket.step, hphase]⟩
      · cases taken
    | false =>
      simp only [Link.step] at taken
      split_ifs at taken
      obtain ⟨socket, hstep, hlink'⟩ := Option.bind_eq_some_iff.mp taken
      cases hlink'
      exact Or.inr ⟨_, hstep⟩

theorem keyed_link (keyed : link.socket.store.Keyed)
    (taken : link.step print order e = some link') : link'.socket.store.Keyed := by
  rcases link_socket taken with hsame | ⟨e', hstep⟩
  · rwa [hsame]
  · exact keyed_socket keyed hstep

/-! ## The result -/

theorem inStep_not_stranded (h : InStep link) : link.stranded = false := by
  cases h with
  | typing client => simp [Link.stranded, client]
  | sent line curLine client server up =>
    rcases line_under_way up with hnewline | hnewline <;>
      simp [Link.stranded, client, server, hnewline]
  | answering val client server => simp [Link.stranded, server]
  | answered text curLine client server up down =>
    rcases line_under_way down with hnewline | hnewline <;>
      simp [Link.stranded, client, hnewline]
  | gone client => simp [Link.stranded, client]

theorem inStep_run (printed : ∀ v, '\n' ∉ print v) {ok : Server → Event → Prop} {es₀ : List Event}
    {server : Server} (reached : Reaches ok es₀ server) {es : List LinkEvent}
    (run : Run.Exec (Link.step print order) agrees (.start server.store) es link) :
    InStep link := by
  have hinv : InStep link ∧ link.socket.store.Keyed := by
    refine run.invariant (P := fun link => InStep link ∧ link.socket.store.Keyed) ?_ ?_
    · exact ⟨.typing rfl rfl rfl rfl, (never_poisoned reached).1⟩
    · exact fun m e m' ⟨h, keyed⟩ allowed taken =>
        ⟨inStep_step printed h keyed allowed taken, keyed_link keyed taken⟩
  exact hinv.1

/-- **Client and server stay in step**, whatever is typed and however the bytes come, in every run
whose steps agree. -/
theorem in_step (printed : ∀ v, '\n' ∉ print v) {ok : Server → Event → Prop} {es₀ : List Event}
    {server : Server} (reached : Reaches ok es₀ server) {es : List LinkEvent}
    (run : Run.Exec (Link.step print order) agrees (.start server.store) es link) :
    link.stranded = false :=
  inStep_not_stranded (inStep_run printed reached run)

/-- `HELLO` is answered. -/
def hello : List LinkEvent :=
  [.input "HELLO\n".toList, .serverRead 6, .serverHandle, .serverWrite true, .clientRead 57]

/-- What the server answers it with. -/
def unknownText : List Char :=
  "\x7b\"code\":400,\"reason\":\"Unknown command\",\"status\":\"error\"\x7d".toList

theorem in_step_hello : ∃ link,
    Run.Exec (Link.step (fun _ => unknownText) sorted) agrees (.start .new) hello link ∧
      link.client.curLine = unknownText ++ ['\n'] ∧ link.stranded = false := by
  obtain ⟨link, run, h⟩ := Run.exec_of_test
    (fun link : Link => link.client.curLine = unknownText ++ ['\n'])
    (by decide +kernel : (Run.run (Link.step (fun _ => unknownText) sorted) agrees
      (.start .new) hello).any _ = true)
  have reached : Reaches (fun _ _ => True) [] .init := .nil
  exact ⟨link, run, of_decide_eq_true h, in_step (fun _ => by decide) reached run⟩

/-- The client waits for an answer to `QUIT now`, and the server closes the connection. -/
def quitNow : List LinkEvent := [.input "QUIT now\n".toList, .serverRead 9, .serverHandle]

theorem stranded_quit : ∃ link,
    Run.Exec (Link.step (fun _ => unknownText) sorted) (fun _ _ => True) (.start .new) quitNow
      link ∧ link.client.phase = .waiting ∧ link.socket.phase = .ended .quit ∧
      link.stranded = true := by
  obtain ⟨link, run, h⟩ := Run.exec_of_test
    (fun link : Link => link.client.phase = .waiting ∧ link.socket.phase = .ended .quit ∧
      link.stranded = true)
    (by decide +kernel : (Run.run (Link.step (fun _ => unknownText) sorted) (fun _ _ => True)
      (.start .new) quitNow).any _ = true)
  exact ⟨link, run, of_decide_eq_true h⟩

/-- A step on which the two sides do not agree leaves the client waiting for ever. -/
theorem disagreement_strands (printed : ∀ v, '\n' ∉ print v) {ok : Server → Event → Prop}
    {es₀ : List Event} {server : Server} (reached : Reaches ok es₀ server) {es : List LinkEvent}
    (run : Run.Exec (Link.step print order) agrees (.start server.store) es link)
    (disagree : ¬ agrees link e) (taken : link.step print order e = some link') :
    link'.stranded = true := by
  have h : InStep link := inStep_run printed reached run
  cases e with
  | input text =>
    obtain ⟨hline, hquit⟩ := not_or.mp disagree
    simp only [Link.step, if_neg hquit] at taken
    split_ifs at taken with hguard
    cases taken
    cases h with
    | typing client server up down =>
      have hbytes : Utf8.newline ∉ Utf8.encode text := mt Utf8.newline_mem_encode.mp hline
      simp [Link.stranded, client, server, up, down, hbytes]
    | sent line curLine client => simp [client] at hguard
    | answering val client => simp [client] at hguard
    | answered text curLine client => simp [client] at hguard
    | gone client => simp [client] at hguard
  | serverRead n =>
    obtain ⟨hwaiting, hdecode⟩ := Classical.not_imp.mp disagree
    rw [Option.not_isSome_iff_eq_none] at hdecode
    simp only [Link.step] at taken
    split_ifs at taken
    obtain ⟨socket, hread, hlink'⟩ := Option.bind_eq_some_iff.mp taken
    cases hlink'
    cases h with
    | typing client => simp [client] at hwaiting
    | sent line curLine client server up one stays down =>
      simp only [Socket.step, server] at hread
      split_ifs at hread
      cases hread
      simp [Link.stranded, Socket.receive, hdecode, Socket.panic, client, down]
    | answering val client server => simp [Socket.step, server] at hread
    | answered text curLine client server up => simp [Socket.step, server, up] at hread
    | gone client => simp [client] at hwaiting
  | serverHandle =>
    obtain ⟨hwaiting, hlines⟩ := Classical.not_imp.mp disagree
    obtain ⟨socket, hhandle, hlink'⟩ := Option.bind_eq_some_iff.mp taken
    cases hlink'
    cases h with
    | typing client => simp [client] at hwaiting
    | sent line curLine client server up one stays down =>
      simp only [Socket.step, server, Option.map_eq_some_iff] at hhandle
      obtain ⟨⟨line', rest⟩, hfirst, rfl⟩ := hhandle
      obtain ⟨rfl, -, -⟩ := line_arrives up one hfirst
      have hdisagree : isBare line' = true ∨ isQuit line' = true := by
        simpa [Socket.nextLine, server, hfirst, agreed, stays, or_iff_not_imp_left] using hlines
      rcases hdisagree with hbare | hquit
      · simp [Link.stranded, handleLine_bare hbare, Socket.panic, client, down]
      · simp [Link.stranded, handleLine_quit hquit, client, down]
    | answering val client server => simp [Socket.step, server] at hhandle
    | answered text curLine client server => simp [Socket.step, server, splitOnce] at hhandle
    | gone client => simp [client] at hwaiting
  | inputLost | clientRead | clientLine | serverEof | serverWrite => exact absurd trivial disagree

end MiniDiscord.Pa1
