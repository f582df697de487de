import MiniDiscord.Pa1.Commands
import MiniDiscord.Wire.Framing

/-!
# One connection

`process_socket` as a machine: one event for each read, each line that is handled, and each response
that is written. No other client uses the store meanwhile, so a handler runs alone.
-/

namespace MiniDiscord.Pa1

open Wire (splitOnce)

/-! ## The machine -/

inductive Ending
  /-- a `QUIT` line -/
  | quit
  /-- a read of length 0 -/
  | eof
  | readError
  | panicked
deriving DecidableEq

inductive Phase
  | reading (curLine : List Char)
  /-- The line has been handled; `cur_line` is to be what comes after it. -/
  | writing (val : Response) (rest : List Char)
  | ended (why : Ending)
deriving DecidableEq

structure Socket where
  store : AppState
  /-- who is logged in -/
  user : Option String
  phase : Phase
  /-- the responses that have been written -/
  sent : List Response

def Socket.start (store : AppState) : Socket := ⟨store, none, .reading [], []⟩

inductive SocketEvent
  | read (bytes : List UInt8)
  | eof (order : HashOrder)
  | readError (order : HashOrder)
  | handle
  | write (succeeds : Bool)

namespace Socket

def panic (socket : Socket) : Socket := { socket with phase := .ended .panicked }

/-- `cur_line.push_str(std::str::from_utf8(&buf[0..n]).unwrap())` -/
def receive (socket : Socket) (curLine : List Char) (bytes : List UInt8) : Socket :=
  match Utf8.decode bytes with
  | none => socket.panic
  | some text => { socket with phase := .reading (curLine ++ text) }

/-- `handle_unexpected_close`, and out of the loop -/
def unexpectedClose (socket : Socket) (why : Ending) (order : HashOrder) : Socket :=
  match socket.user with
  | none => { socket with phase := .ended why }
  | some username => match (leaveAllChannels username order).alone Section.exec socket.store with
    | none => socket.panic
    | some ((), store) => { socket with store, phase := .ended why }

def handleLine (socket : Socket) (line rest : List Char) : Socket :=
  match (processLine socket.user line).alone Section.exec socket.store with
  | none => socket.panic
  | some ((.close, user), store) => { socket with store, user, phase := .ended .quit }
  | some ((.send val, user), store) => { socket with store, user, phase := .writing val rest }

def written (socket : Socket) (val : Response) (rest : List Char) : Socket :=
  { socket with phase := .reading rest, sent := socket.sent ++ [val] }

def step (socket : Socket) (e : SocketEvent) : Option Socket :=
  match socket.phase, e with
  | .reading curLine, .handle =>
    (splitOnce curLine).map fun (line, rest) => socket.handleLine line rest
  | .reading curLine, .read bytes =>
    if '\n' ∉ curLine ∧ bytes ≠ [] ∧ bytes.length ≤ 1024 then some (socket.receive curLine bytes)
    else none
  | .reading curLine, .eof order =>
    if '\n' ∉ curLine then some (socket.unexpectedClose .eof order) else none
  | .reading curLine, .readError order =>
    if '\n' ∉ curLine then some (socket.unexpectedClose .readError order) else none
  | .writing val rest, .write true => some (socket.written val rest)
  | .writing _ _, .write false => some socket.panic
  | _, _ => none

end Socket

variable {socket socket' : Socket} {e : SocketEvent} {state state' : AppState}
  {user : Option String} {line rest curLine : List Char}

/-- What a step does, and when it can. -/
inductive Socket.Step (socket : Socket) : SocketEvent → Socket → Prop
  | handled (curLine line rest : List Char) (phase : socket.phase = .reading curLine)
      (first : splitOnce curLine = some (line, rest)) :
      Step socket .handle (socket.handleLine line rest)
  | received (curLine : List Char) (bytes : List UInt8) (phase : socket.phase = .reading curLine)
      (unfinished : '\n' ∉ curLine) :
      Step socket (.read bytes) (socket.receive curLine bytes)
  | closed (curLine : List Char) (e : SocketEvent) (why : Ending) (order : HashOrder)
      (phase : socket.phase = .reading curLine) (unexpected : why ≠ .quit)
      (event : e = .eof order ∨ e = .readError order) :
      Step socket e (socket.unexpectedClose why order)
  | wrote (val : Response) (rest : List Char) (phase : socket.phase = .writing val rest) :
      Step socket (.write true) (socket.written val rest)
  | failed (val : Response) (rest : List Char) (phase : socket.phase = .writing val rest) :
      Step socket (.write false) socket.panic

theorem socket_step_cases (h : socket.step e = some socket') : socket.Step e socket' := by
  unfold Socket.step at h
  split at h
  · rename_i curLine hphase
    obtain ⟨⟨line, rest⟩, hfirst, rfl⟩ := Option.map_eq_some_iff.mp h
    exact .handled curLine line rest hphase hfirst
  · rename_i curLine bytes hphase
    split_ifs at h with hread
    cases h
    exact .received curLine bytes hphase hread.1
  · rename_i curLine order hphase
    split_ifs at h
    cases h
    exact .closed curLine _ .eof order hphase nofun (Or.inl rfl)
  · rename_i curLine order hphase
    split_ifs at h
    cases h
    exact .closed curLine _ .readError order hphase nofun (Or.inr rfl)
  · rename_i val rest hphase
    cases h
    exact .wrote val rest hphase
  · rename_i val rest hphase
    cases h
    exact .failed val rest hphase
  · cases h

/-! ## Lines -/

variable {inv : AppState → Prop}

/-- A line ends the connection or gets a response, whatever comes after it. -/
theorem handleLine_outcome (socket : Socket) (line : List Char) :
    (∃ store user why, ∀ rest, socket.handleLine line rest =
      { socket with store := store, user := user, phase := .ended why }) ∨
    ∃ store user val, ∀ rest, socket.handleLine line rest =
      { socket with store := store, user := user, phase := .writing val rest } := by
  cases halone : (processLine socket.user line).alone Section.exec socket.store with
  | none =>
    refine Or.inl ⟨socket.store, socket.user, .panicked, fun rest => ?_⟩
    simp only [Socket.handleLine, halone, Socket.panic]
  | some outcome =>
    obtain ⟨⟨op, user⟩, store⟩ := outcome
    cases op with
    | close =>
      refine Or.inl ⟨store, user, .quit, fun rest => ?_⟩
      simp only [Socket.handleLine, halone]
    | send val =>
      refine Or.inr ⟨store, user, val, fun rest => ?_⟩
      simp only [Socket.handleLine, halone]

theorem handleLine_quit (quit : isQuit line = true) :
    socket.handleLine line rest = { socket with phase := .ended .quit } := by
  simp only [Socket.handleLine, processLine_quit quit, Program.alone_done]

theorem handleLine_bare (bare : isBare line = true) :
    socket.handleLine line rest = socket.panic := by
  simp only [Socket.handleLine, processLine_bare bare, Program.alone_panicked]

/-- Every other line gets a response, whatever comes after it. -/
theorem handleLine_sends (calls : CommandsEnd inv) (h : inv socket.store)
    (bare : isBare line = false) (quit : isQuit line = false) : ∃ val user store, inv store ∧
      ∀ rest, socket.handleLine line rest =
        { socket with store := store, user := user, phase := .writing val rest } := by
  obtain ⟨val, user, store, halone, hinv⟩ := processLine_sends socket.user calls h bare quit
  refine ⟨val, user, store, hinv, fun rest => ?_⟩
  simp only [Socket.handleLine, halone]

end MiniDiscord.Pa1
