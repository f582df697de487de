import MiniDiscord.Pa1.Socket
import MiniDiscord.Run

/-!
# The loops of one connection

While every write succeeds, the machine has one way to go with the bytes that it reads: the loops of
`process_socket` as functions.
-/

namespace MiniDiscord.Pa1

open Wire (splitOnce splitOnce_some splitOnce_none splitOnce_eq_none splitOnce_line)

variable {socket socket' : Socket} {e : SocketEvent} {store : AppState} {es : List SocketEvent}
  {reads : List (List UInt8)} {bytes : List UInt8} {curLine line rest text : List Char}

/-! ## The loops -/

/-- The inner loop: handles the lines of `cur_line` and writes their responses. -/
def Socket.answer (socket : Socket) (curLine : List Char) : Socket :=
  match _h : splitOnce curLine with
  | none => { socket with phase := .reading curLine }
  | some (line, rest) => match (socket.handleLine line rest).phase with
    | .writing val _ => ((socket.handleLine line rest).written val rest).answer rest
    | _ => socket.handleLine line rest
termination_by curLine.length
decreasing_by
  have := congrArg List.length (splitOnce_some _h).1
  simp at this
  omega

/-- Up to the next read. -/
def Socket.settle (socket : Socket) : Socket :=
  match socket.phase with
  | .reading curLine => socket.answer curLine
  | .writing val rest => (socket.written val rest).answer rest
  | .ended _ => socket

/-- One turn of the outer loop. -/
def Socket.process (socket : Socket) (bytes : List UInt8) : Socket :=
  match socket.phase with
  | .reading curLine => (socket.receive curLine bytes).settle
  | _ => socket

def Socket.processAll (socket : Socket) (reads : List (List UInt8)) : Socket :=
  reads.foldl Socket.process socket

theorem processAll_snoc :
    socket.processAll (reads ++ [bytes]) = (socket.processAll reads).process bytes := by
  rw [Socket.processAll, List.foldl_append]
  rfl

theorem answer_none (h : splitOnce curLine = none) :
    socket.answer curLine = { socket with phase := .reading curLine } := by
  unfold Socket.answer
  split
  · rfl
  · rename_i hsome
    rw [h] at hsome
    cases hsome

theorem answer_some (h : splitOnce curLine = some (line, rest)) :
    socket.answer curLine = (socket.handleLine line rest).settle := by
  conv_lhs => unfold Socket.answer
  split
  · rename_i hnone
    rw [h] at hnone
    cases hnone
  · rename_i line' rest' hsome
    rw [h] at hsome
    cases hsome
    rcases handleLine_outcome socket line with ⟨store, user, why, houtcome⟩ |
      ⟨store, user, val, houtcome⟩
    · simp only [houtcome, Socket.settle]
    · simp only [houtcome, Socket.settle]

/-- What phase the connection was in does not matter for what comes next. -/
theorem answer_phase (socket : Socket) (curLine : List Char) (p : Phase) :
    { socket with phase := p }.answer curLine = socket.answer curLine := by
  cases hsplit : splitOnce curLine with
  | none => rw [answer_none hsplit, answer_none hsplit]
  | some lr =>
    have hsame : { socket with phase := p }.handleLine lr.1 lr.2 = socket.handleLine lr.1 lr.2 := by
      unfold Socket.handleLine Socket.panic
      rfl
    rw [answer_some hsplit, answer_some hsplit, hsame]

theorem settle_reading (phase : socket.phase = .reading curLine) :
    socket.settle = socket.answer curLine := by
  rw [Socket.settle, phase]

theorem settle_ended {why : Ending} (phase : socket.phase = .ended why) :
    socket.settle = socket := by
  rw [Socket.settle, phase]

theorem settle_unfinished (phase : socket.phase = .reading curLine) (h : '\n' ∉ curLine) :
    socket.settle = socket := by
  rw [settle_reading phase, answer_none (splitOnce_eq_none h), ← phase]

/-! ## Runs -/

/-- The connection stays open, and the writes succeed. -/
def regular (_ : Socket) : SocketEvent → Prop
  | .read _ | .handle | .write true => True
  | _ => False

def readsOf (es : List SocketEvent) : List (List UInt8) :=
  es.filterMap fun e => match e with
    | .read bytes => some bytes
    | _ => none

/-- All bytes are read and all lines are handled, or the connection has ended. -/
def Socket.AtRest (socket : Socket) (unread : List (List UInt8)) : Prop :=
  match socket.phase with
  | .reading curLine => '\n' ∉ curLine ∧ unread = []
  | .writing _ _ => False
  | .ended _ => True

/-- What a connection comes to that reads these bytes. -/
def Served (store : AppState) (reads : List (List UInt8)) (socket : Socket) : Prop :=
  ∃ es unread, Run.Exec Socket.step regular (.start store) es socket ∧
    reads = readsOf es ++ unread ∧ socket.AtRest unread

theorem readsOf_append (es es' : List SocketEvent) :
    readsOf (es ++ es') = readsOf es ++ readsOf es' := List.filterMap_append

theorem processAll_ended {why : Ending} (phase : socket.phase = .ended why)
    (reads : List (List UInt8)) : socket.processAll reads = socket := by
  induction reads with
  | nil => rfl
  | cons bytes reads ih =>
    rw [Socket.processAll, List.foldl_cons, Socket.process, phase]
    exact ih

/-- The machine is where the loops are, up to the lines that it has still to handle. -/
theorem run_settles (run : Run.Exec Socket.step regular (.start store) es socket) :
    socket.settle = (Socket.start store).processAll (readsOf es) := by
  refine run.history (P := fun es socket =>
    socket.settle = (Socket.start store).processAll (readsOf es)) ?_ ?_
  · exact settle_unfinished rfl (by simp)
  · intro es m e m' _ ih allowed taken
    rw [readsOf_append]
    cases socket_step_cases taken with
    | handled curLine line rest phase first =>
      rw [settle_reading phase, answer_some first] at ih
      rw [ih]
      exact congrArg _ (List.append_nil _).symm
    | received curLine bytes phase unfinished =>
      have hprocess : m.process bytes = (m.receive curLine bytes).settle := by
        rw [Socket.process, phase]
      rw [settle_unfinished phase unfinished] at ih
      exact hprocess.symm.trans ((congrArg (·.process bytes) ih).trans processAll_snoc.symm)
    | closed curLine e why order phase unexpected event =>
      rcases event with rfl | rfl <;> exact allowed.elim
    | wrote val rest phase =>
      have hsettle : m.settle = (m.written val rest).settle := by
        rw [Socket.settle, phase]
        rfl
      rw [← hsettle, ih]
      exact congrArg _ (List.append_nil _).symm
    | failed => exact allowed.elim

theorem served_eq (served : Served store reads socket) :
    socket = (Socket.start store).processAll reads := by
  obtain ⟨es, unread, run, rfl, rest⟩ := served
  have hsettle := run_settles run
  unfold Socket.AtRest at rest
  split at rest
  · rename_i curLine phase
    obtain ⟨unfinished, rfl⟩ := rest
    rw [List.append_nil, ← hsettle, settle_unfinished phase unfinished]
  · exact rest.elim
  · rename_i why phase
    rw [Socket.processAll, List.foldl_append, ← Socket.processAll, ← Socket.processAll, ← hsettle,
      settle_ended phase, processAll_ended phase]

theorem answer_run (socket : Socket) (curLine : List Char)
    (phase : socket.phase = .reading curLine) :
    ∃ es, Run.Exec Socket.step regular socket es (socket.answer curLine) ∧ readsOf es = [] ∧
      (socket.answer curLine).AtRest [] := by
  induction hn : curLine.length using Nat.strong_induction_on generalizing socket curLine with
  | h n ih =>
    cases hsplit : splitOnce curLine with
    | none =>
      rw [answer_none hsplit, ← phase]
      refine ⟨[], .nil, rfl, ?_⟩
      rw [Socket.AtRest, phase]
      exact ⟨splitOnce_none hsplit, rfl⟩
    | some lr =>
      obtain ⟨line, rest⟩ := lr
      have handles : Run.Exec Socket.step regular socket [.handle] (socket.handleLine line rest) :=
        .snoc .nil trivial (by simp [Socket.step, phase, hsplit])
      rw [answer_some hsplit]
      rcases handleLine_outcome socket line with ⟨store, user, why, houtcome⟩ |
        ⟨store, user, val, houtcome⟩
      · rw [houtcome] at handles ⊢
        exact ⟨[.handle], handles, rfl, trivial⟩
      · have hlt : rest.length < n := by
          have hlength := congrArg List.length (splitOnce_some hsplit).1
          simp only [List.length_append, List.length_cons] at hlength
          omega
        rw [houtcome] at handles ⊢
        have writes : Run.Exec Socket.step regular socket ([.handle] ++ [.write true])
            (Socket.written { socket with store, user, phase := .writing val rest } val rest) :=
          handles.snoc trivial rfl
        obtain ⟨es, run, hreads, hrest⟩ := ih rest.length hlt
          (Socket.written { socket with store, user, phase := .writing val rest } val rest) rest
          rfl rfl
        refine ⟨[.handle] ++ [.write true] ++ es, writes.append run, ?_, hrest⟩
        rw [readsOf_append, hreads]
        rfl

theorem settle_run (socket : Socket) :
    ∃ es, Run.Exec Socket.step regular socket es socket.settle ∧ readsOf es = [] ∧
      socket.settle.AtRest [] := by
  cases phase : socket.phase with
  | reading curLine =>
    rw [settle_reading phase]
    exact answer_run socket curLine phase
  | writing val rest =>
    have hsettle : socket.settle = (socket.written val rest).answer rest := by
      rw [Socket.settle, phase]
    have writes : Run.Exec Socket.step regular socket ([] ++ [.write true])
        (socket.written val rest) := .snoc .nil trivial (by simp [Socket.step, phase])
    obtain ⟨es, run, hreads, hrest⟩ := answer_run (socket.written val rest) rest rfl
    rw [hsettle]
    refine ⟨_, writes.append run, ?_, hrest⟩
    rw [readsOf_append, hreads]
    rfl
  | ended why =>
    rw [settle_ended phase]
    refine ⟨[], .nil, rfl, ?_⟩
    rw [Socket.AtRest, phase]
    trivial

/-- The machine gets there. -/
theorem served_processAll (nonempty : ∀ bytes ∈ reads, bytes ≠ [])
    (short : ∀ bytes ∈ reads, bytes.length ≤ 1024) :
    Served store reads ((Socket.start store).processAll reads) := by
  induction reads using List.reverseRecOn with
  | nil => exact ⟨[], [], .nil, rfl, by simp [Socket.AtRest, Socket.processAll, Socket.start]⟩
  | append_singleton reads bytes ih =>
    obtain ⟨es, unread, run, hreads, rest⟩ := ih (fun r hr => nonempty r (by simp [hr]))
      fun r hr => short r (by simp [hr])
    rw [processAll_snoc]
    generalize (Socket.start store).processAll reads = socket at run rest
    unfold Socket.process
    cases hphase : socket.phase with
    | reading curLine =>
      rw [Socket.AtRest, hphase] at rest
      obtain ⟨unfinished, rfl⟩ := rest
      have receives : socket.step (.read bytes) = some (socket.receive curLine bytes) := by
        simp [Socket.step, hphase, unfinished, nonempty bytes (by simp), short bytes (by simp)]
      have run' : Run.Exec Socket.step regular (.start store) (es ++ [.read bytes]) _ :=
        run.snoc trivial receives
      obtain ⟨es', run'', hnone, rest'⟩ := settle_run (socket.receive curLine bytes)
      refine ⟨_, [], run'.append run'', ?_, rest'⟩
      rw [readsOf_append, readsOf_append, hnone, hreads]
      simp [readsOf]
    | writing val rest' =>
      rw [Socket.AtRest, hphase] at rest
      exact rest.elim
    | ended why =>
      refine ⟨es, unread ++ [bytes], run, by rw [hreads, List.append_assoc], ?_⟩
      rw [Socket.AtRest, hphase]
      trivial

end MiniDiscord.Pa1
