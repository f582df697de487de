import Mathlib.Logic.Function.Iterate
import MiniDiscord.Wire.Codec
import MiniDiscord.Wire.Framing

/-!
# The introduction of a peer

On a connection that it accepted, `peer_task` first reads the line in which the peer says who it is.
The loop that waits for this line does not look at the length of a read, so that it goes on reading
for ever once the peer has closed the connection. The loop for the lines after it returns there.
-/

namespace MiniDiscord.Wire

/-! ## The task -/

/-- What comes of a value that is dispatched. The answer to a ping may wait for room in the
queue. -/
inductive Outcome
  | goesOn
  | panics
  | waits
deriving DecidableEq

/-- What `peer_task` meets: `serde_json::from_str`, whether it finds its ends of the channels of the
peer, and what comes of the `n`th value. -/
structure Env where
  parse : List Char → Option Json
  accepts : String → Bool
  handle : ℕ → Received → Outcome

inductive Stage
  | introducing (curLine : List Char)
  /-- `handled` lines have been dispatched. -/
  | reading (curLine : List Char) (handled : ℕ)
  | waiting
  | returned
  | panicked
deriving DecidableEq

/-- After the last of the reads the peer has closed the connection. -/
structure PeerTask where
  unread : List (List UInt8)
  reads : ℕ
  stage : Stage
deriving DecidableEq

namespace PeerTask

/-- The task of a connection that was accepted. -/
def start (reads : List (List UInt8)) : PeerTask := ⟨reads, 0, .introducing []⟩

/-- `socket.read(&mut buf)`: at the end of the stream it gives nothing. -/
def read (task : PeerTask) (stage : List UInt8 → Stage) : PeerTask :=
  ⟨task.unread.tail, task.reads + 1, stage (task.unread.headD [])⟩

end PeerTask

namespace Env

/-- `get("id").unwrap().as_str().unwrap()` of the first line. -/
def introduction (env : Env) (line : List Char) : Option String := do
  let firstMessage ← env.parse line
  (← firstMessage.get? "id").asStr

/-- What is to be dispatched for a line after it. -/
def received (env : Env) (line : List Char) : Option Received := env.parse line >>= peerTask

def outcome (env : Env) (n : ℕ) (line : List Char) : Outcome :=
  match env.received line with
  | none => .panics
  | some received => env.handle n received

/-- One turn of a loop: a read, or a line. -/
def next (env : Env) (task : PeerTask) : PeerTask :=
  match task.stage with
  | .introducing curLine => match splitOnce curLine with
    | none => task.read fun bytes => match Utf8.decode bytes with
      | none => .panicked
      | some text => .introducing (curLine ++ text)
    | some (line, rest) => { task with stage := match env.introduction line with
      | none => .panicked
      | some peerId => if env.accepts peerId then .reading rest 0 else .panicked }
  | .reading curLine n => match splitOnce curLine with
    | none => task.read fun bytes =>
      -- peer disconnected
      if bytes = [] then .returned
      else match Utf8.decode bytes with
        | none => .panicked
        | some text => .reading (curLine ++ text) n
    | some (line, rest) => { task with stage := match env.outcome n line with
      | .goesOn => .reading rest (n + 1)
      | .panics => .panicked
      | .waits => .waiting }
  | _ => task

def run (env : Env) (task : PeerTask) (k : ℕ) : PeerTask := env.next^[k] task

end Env

def PeerTask.Left (task : PeerTask) : Prop := task.stage = .returned ∨ task.stage = .panicked

/-- In the end the task is left, with at most one read more than the stream has. -/
def Leaves (env : Env) (reads : List (List UInt8)) : Prop :=
  ∃ k, ∀ j ≥ k, (env.run (.start reads) j).Left ∧
    (env.run (.start reads) j).reads ≤ reads.length + 1

/-! ## What arrives -/

/-- The text of the reads before the first that is no UTF-8. -/
def decoded : List (List UInt8) → List Char
  | [] => []
  | bytes :: reads => match Utf8.decode bytes with
    | none => []
    | some text => text ++ decoded reads

/-- The loop for the first line has something that ends it. -/
def Introduced (reads : List (List UInt8)) : Prop :=
  Utf8.newline ∈ reads.flatten ∨ ∃ bytes ∈ reads, Utf8.decode bytes = none

/-- From the `n`th line on, the first that does not let the task go on makes it wait. -/
inductive WaitsAt (env : Env) : ℕ → List Char → Prop
  | here {n : ℕ} {line rest : List Char} (whole : '\n' ∉ line)
      (waits : env.outcome n line = .waits) : WaitsAt env n (line ++ '\n' :: rest)
  | later {n : ℕ} {line rest : List Char} (whole : '\n' ∉ line)
      (goes : env.outcome n line = .goesOn) (waits : WaitsAt env (n + 1) rest) :
      WaitsAt env n (line ++ '\n' :: rest)

/-- The first line is an introduction, and the task comes to wait at one of the others. -/
inductive Waits (env : Env) : List Char → Prop
  | intro {line rest : List Char} {peerId : String} (whole : '\n' ∉ line)
      (introduction : env.introduction line = some peerId) (accepts : env.accepts peerId = true)
      (waits : WaitsAt env 0 rest) : Waits env (line ++ '\n' :: rest)

variable {env : Env} {task task' : PeerTask} {unread reads : List (List UInt8)} {bytes : List UInt8}
  {curLine line rest text : List Char} {m n k : ℕ}

theorem waitsAt_none (h : '\n' ∉ text) : ¬ WaitsAt env n text := by
  rintro (⟨-, -⟩ | ⟨-, -, -⟩) <;> simp at h

theorem waitsAt_line (whole : '\n' ∉ line) : WaitsAt env n (line ++ '\n' :: rest) ↔
    env.outcome n line = .waits ∨ env.outcome n line = .goesOn ∧ WaitsAt env (n + 1) rest := by
  constructor
  · intro h
    generalize htext : line ++ '\n' :: rest = text at h
    cases h with
    | here whole' waits =>
      obtain ⟨rfl, rfl⟩ := first_line htext whole whole'
      exact Or.inl waits
    | later whole' goes waits =>
      obtain ⟨rfl, rfl⟩ := first_line htext whole whole'
      exact Or.inr ⟨goes, waits⟩
  · rintro (waits | ⟨goes, waits⟩)
    · exact .here whole waits
    · exact .later whole goes waits

theorem waits_line (whole : '\n' ∉ line) : Waits env (line ++ '\n' :: rest) ↔
    ∃ peerId, env.introduction line = some peerId ∧ env.accepts peerId = true ∧
      WaitsAt env 0 rest := by
  constructor
  · intro h
    generalize htext : line ++ '\n' :: rest = text at h
    cases h with
    | intro whole' introduction accepts waits =>
      obtain ⟨rfl, rfl⟩ := first_line htext whole whole'
      exact ⟨_, introduction, accepts, waits⟩
  · rintro ⟨peerId, introduction, accepts, waits⟩
    exact .intro whole introduction accepts waits

theorem waits_none (h : '\n' ∉ text) : ¬ Waits env text := by
  rintro ⟨-, -, -, -⟩
  simp at h

/-- If there is always room for an answer, the task never waits for it. -/
theorem never_waits (room : ∀ n received, env.handle n received ≠ .waits) : ¬ Waits env text := by
  have hnever : ∀ n text, ¬ WaitsAt env n text := by
    intro n text h
    induction h with
    | here whole waits =>
      unfold Env.outcome at waits
      split at waits
      · cases waits
      · exact room _ _ waits
    | later whole goes waits ih => exact ih
  rintro ⟨-, -, -, waits⟩
  exact hnever 0 _ waits

/-! ## Turns -/

theorem read_cons (m : ℕ) (now : Stage) (stage : List UInt8 → Stage) :
    PeerTask.read ⟨bytes :: unread, m, now⟩ stage = ⟨unread, m + 1, stage bytes⟩ := rfl

theorem run_succ : env.run task (k + 1) = env.run (env.next task) k := rfl

theorem run_add (task : PeerTask) (j k : ℕ) : env.run task (j + k) = env.run (env.run task k) j :=
  Function.iterate_add_apply env.next j k task

/-- A task that is over stays as it is. -/
def PeerTask.Over (task : PeerTask) : Prop := task.Left ∨ task.stage = .waiting

theorem run_over (h : task.Over) (k : ℕ) : env.run task k = task := by
  have hnext : env.next task = task := by
    obtain ⟨unread, reads, stage⟩ := task
    rcases h with (h | h) | h <;> · cases h; rfl
  exact Function.iterate_fixed hnext k

/-- The task comes to its end, and whether it waits is known beforehand. -/
def Settles (env : Env) (task : PeerTask) (bound : ℕ) (waits : Prop) : Prop :=
  ∃ k, (env.run task k).Over ∧ (env.run task k).reads ≤ bound ∧
    ((env.run task k).Left ↔ ¬ waits)

theorem Settles.next {waits waits' : Prop} {bound : ℕ} (h : Settles env (env.next task) bound waits)
    (same : waits' ↔ waits) : Settles env task bound waits' := by
  obtain ⟨k, hover, hreads, hleft⟩ := h
  exact ⟨k + 1, hover, hreads, by rw [same]; exact hleft⟩

theorem settles_left {waits : Prop} {bound : ℕ} (left : task.Left) (reads : task.reads ≤ bound)
    (h : ¬ waits) : Settles env task bound waits :=
  ⟨0, Or.inl left, reads, iff_of_true left h⟩

theorem settles_waiting {waits : Prop} {bound : ℕ} (waiting : task.stage = .waiting)
    (reads : task.reads ≤ bound) (h : waits) : Settles env task bound waits := by
  refine ⟨0, Or.inr waiting, reads, iff_of_false ?_ (not_not.mpr h)⟩
  rintro (hleft | hleft)
  · cases waiting.symm.trans hleft
  · cases waiting.symm.trans hleft

/-! ## The loop for the lines after the first -/

/-- Every line of `cur_line` is dispatched before the next read. -/
theorem settles_lines {bound : ℕ} (hm : m ≤ bound) {tail : List Char}
    (read : ∀ n curLine, '\n' ∉ curLine →
      Settles env ⟨unread, m, .reading curLine n⟩ bound (WaitsAt env n (curLine ++ tail))) :
    Settles env ⟨unread, m, .reading curLine n⟩ bound (WaitsAt env n (curLine ++ tail)) := by
  induction curLine using lines_induction generalizing n with
  | none curLine hnone => exact read n curLine hnone
  | first line rest whole ih =>
    have hnext : env.next ⟨unread, m, .reading (line ++ '\n' :: rest) n⟩ =
        ⟨unread, m, match env.outcome n line with
          | .goesOn => .reading rest (n + 1)
          | .panics => .panicked
          | .waits => .waiting⟩ := by
      simp only [Env.next, splitOnce_line whole]
    have hwaits : WaitsAt env n (line ++ '\n' :: rest ++ tail) ↔
        env.outcome n line = .waits ∨
          env.outcome n line = .goesOn ∧ WaitsAt env (n + 1) (rest ++ tail) := by
      rw [List.append_assoc]
      exact waitsAt_line whole
    refine Settles.next ?_ hwaits
    rw [hnext]
    cases houtcome : env.outcome n line with
    | goesOn =>
      have hrest : Settles env ⟨unread, m, .reading rest (n + 1)⟩ bound
          (WaitsAt env (n + 1) (rest ++ tail)) := ih
      simpa using hrest
    | panics => exact settles_left (Or.inr rfl) hm (by simp)
    | waits => exact settles_waiting rfl hm (Or.inl rfl)

theorem settles_reading (nonempty : ∀ bytes ∈ unread, bytes ≠ []) :
    Settles env ⟨unread, m, .reading curLine n⟩ (m + unread.length + 1)
      (WaitsAt env n (curLine ++ decoded unread)) := by
  induction unread generalizing curLine m n with
  | nil =>
    refine settles_lines (by omega) fun n curLine hnone => ?_
    have hnext : env.next ⟨[], m, .reading curLine n⟩ = ⟨[], m + 1, .returned⟩ := by
      simp only [Env.next, splitOnce_eq_none hnone]
      rfl
    refine Settles.next ?_ Iff.rfl
    rw [hnext]
    exact settles_left (Or.inl rfl) (Nat.le_refl _) (waitsAt_none (by simpa [decoded] using hnone))
  | cons bytes unread ih =>
    obtain ⟨hbytes, hrest⟩ := List.forall_mem_cons.mp nonempty
    refine settles_lines (by omega) fun n curLine hnone => ?_
    have hnext : env.next ⟨bytes :: unread, m, .reading curLine n⟩ =
        ⟨unread, m + 1, match Utf8.decode bytes with
          | none => .panicked
          | some text => .reading (curLine ++ text) n⟩ := by
      simp only [Env.next, splitOnce_eq_none hnone, read_cons, if_neg hbytes]
    refine Settles.next ?_ Iff.rfl
    rw [hnext]
    cases hdecode : Utf8.decode bytes with
    | none =>
      refine settles_left (Or.inr rfl) (by simp) (waitsAt_none ?_)
      simpa [decoded, hdecode] using hnone
    | some text =>
      have hsettles : Settles env ⟨unread, m + 1, .reading (curLine ++ text) n⟩
          (m + 1 + unread.length + 1) (WaitsAt env n (curLine ++ text ++ decoded unread)) :=
        ih hrest
      have hbound : m + (bytes :: unread).length + 1 = m + 1 + unread.length + 1 := by
        rw [List.length_cons]
        omega
      rw [hbound]
      simpa only [decoded, hdecode, List.append_assoc] using hsettles

/-- Where everything that is dispatched lets the task go on, it dispatches what `readLoop` does. -/
theorem run_dispatchLines (goes : ∀ n received, env.handle n received = .goesOn) : ∃ k,
    env.run ⟨unread, m, .reading curLine n⟩ k = ⟨unread, m,
      match dispatchLines env.received curLine with
      | none => .panicked
      | some (values, left) => .reading left (n + values.length)⟩ := by
  induction curLine using lines_induction generalizing n with
  | none curLine hnone =>
    rw [dispatchLines_none hnone]
    exact ⟨0, rfl⟩
  | first line rest whole ih =>
    rw [dispatchLines_line whole]
    have hnext : env.next ⟨unread, m, .reading (line ++ '\n' :: rest) n⟩ =
        ⟨unread, m, match env.received line with
          | none => .panicked
          | some _ => .reading rest (n + 1)⟩ := by
      simp only [Env.next, splitOnce_line whole, Env.outcome]
      cases env.received line with
      | none => rfl
      | some value => simp only [goes]
    cases hreceived : env.received line with
    | none => exact ⟨1, by rw [run_succ, hnext, hreceived]; rfl⟩
    | some value =>
      obtain ⟨k, hk⟩ := @ih (n + 1)
      refine ⟨k + 1, ?_⟩
      rw [run_succ, hnext, hreceived]
      refine hk.trans ?_
      cases dispatchLines env.received rest with
      | none => rfl
      | some result => simp [Nat.add_assoc, Nat.add_comm 1]

def ComesTo (env : Env) (task : PeerTask) (stage : Stage) : Prop :=
  ∃ k, (env.run task k).stage = stage

theorem ComesTo.after {stage : Stage} (first : env.run task k = task')
    (rest : ComesTo env (env.next task') stage) : ComesTo env task stage := by
  obtain ⟨j, hj⟩ := rest
  exact ⟨j + 1 + k, by rwa [run_add, first, run_succ]⟩

theorem run_readLoop (goes : ∀ n received, env.handle n received = .goesOn)
    (nonempty : ∀ bytes ∈ unread, bytes ≠ []) : ComesTo env ⟨unread, m, .reading curLine n⟩
      (if (readLoop env.received curLine unread).isSome then .returned else .panicked) := by
  induction unread generalizing curLine m n with
  | nil =>
    obtain ⟨k, hk⟩ := @run_dispatchLines env [] curLine m n goes
    cases hlines : dispatchLines env.received curLine with
    | none =>
      rw [hlines] at hk
      exact ⟨k, by rw [hk, readLoop, hlines]; rfl⟩
    | some result =>
      obtain ⟨values, left⟩ := result
      rw [hlines] at hk
      refine ComesTo.after hk ⟨0, ?_⟩
      have hnext : env.next ⟨[], m, .reading left (n + values.length)⟩ =
          ⟨[], m + 1, .returned⟩ := by
        simp only [Env.next, splitOnce_eq_none (dispatchLines_rest hlines)]
        rfl
      rw [hnext, readLoop, hlines]
      rfl
  | cons bytes unread ih =>
    obtain ⟨hbytes, hrest⟩ := List.forall_mem_cons.mp nonempty
    obtain ⟨k, hk⟩ := @run_dispatchLines env (bytes :: unread) curLine m n goes
    cases hlines : dispatchLines env.received curLine with
    | none =>
      rw [hlines] at hk
      exact ⟨k, by rw [hk, readLoop, hlines]; rfl⟩
    | some result =>
      obtain ⟨values, left⟩ := result
      rw [hlines] at hk
      have hloop : (readLoop env.received curLine (bytes :: unread)).isSome =
          ((Utf8.decode bytes).bind fun text =>
            readLoop env.received (left ++ text) unread).isSome := by
        simp only [readLoop, hlines, Option.bind_eq_bind, Option.bind_some, if_neg hbytes]
        cases Utf8.decode bytes with
        | none => rfl
        | some text =>
          rw [Option.bind_some, Option.bind_some]
          cases readLoop env.received (left ++ text) unread <;> rfl
      have hnext : env.next ⟨bytes :: unread, m, .reading left (n + values.length)⟩ =
          ⟨unread, m + 1, match Utf8.decode bytes with
            | none => .panicked
            | some text => .reading (left ++ text) (n + values.length)⟩ := by
        simp only [Env.next, splitOnce_eq_none (dispatchLines_rest hlines), read_cons,
          if_neg hbytes]
      refine ComesTo.after hk ?_
      rw [hnext, hloop]
      cases hdecode : Utf8.decode bytes with
      | none => exact ⟨0, rfl⟩
      | some text => exact ih hrest

/-! ## The loop for the first line -/

theorem settles_introduction {tail : List Char} (nonempty : ∀ bytes ∈ unread, bytes ≠ [])
    (arrived : tail = decoded unread) (hnewline : '\n' ∈ curLine) :
    Settles env ⟨unread, m, .introducing curLine⟩ (m + unread.length + 1)
      (Waits env (curLine ++ tail)) := by
  obtain ⟨line, rest, rfl, whole⟩ := List.eq_append_cons_of_mem hnewline
  have hnext : env.next ⟨unread, m, .introducing (line ++ '\n' :: rest)⟩ =
      ⟨unread, m, match env.introduction line with
        | none => .panicked
        | some peerId => if env.accepts peerId then .reading rest 0 else .panicked⟩ := by
    simp only [Env.next, splitOnce_line whole]
  have hwaits : Waits env (line ++ '\n' :: rest ++ tail) ↔ ∃ peerId,
      env.introduction line = some peerId ∧ env.accepts peerId = true ∧
        WaitsAt env 0 (rest ++ tail) := by
    rw [List.append_assoc]
    exact waits_line whole
  refine Settles.next ?_ hwaits
  rw [hnext]
  cases hintro : env.introduction line with
  | none => exact settles_left (Or.inr rfl) (by simp; omega) (by simp)
  | some peerId =>
    cases haccepts : env.accepts peerId with
    | false =>
      exact settles_left (Or.inr (by simp [haccepts])) (by simp; omega) (by simp [haccepts])
    | true =>
      rw [arrived]
      simpa [haccepts] using settles_reading nonempty

theorem settles_introducing (nonempty : ∀ bytes ∈ unread, bytes ≠ [])
    (introduced : '\n' ∈ curLine ++ decoded unread ∨
      ∃ bytes ∈ unread, Utf8.decode bytes = none) :
    Settles env ⟨unread, m, .introducing curLine⟩ (m + unread.length + 1)
      (Waits env (curLine ++ decoded unread)) := by
  by_cases hnewline : '\n' ∈ curLine
  · exact settles_introduction nonempty rfl hnewline
  induction unread generalizing curLine m with
  | nil => simp [decoded, hnewline] at introduced
  | cons bytes unread ih =>
    have hnext : env.next ⟨bytes :: unread, m, .introducing curLine⟩ =
        ⟨unread, m + 1, match Utf8.decode bytes with
          | none => .panicked
          | some text => .introducing (curLine ++ text)⟩ := by
      simp only [Env.next, splitOnce_eq_none hnewline, read_cons]
    refine Settles.next ?_ Iff.rfl
    rw [hnext]
    cases hdecode : Utf8.decode bytes with
    | none =>
      refine settles_left (Or.inr rfl) (by simp) (waits_none ?_)
      simpa [decoded, hdecode] using hnewline
    | some text =>
      have hbound : m + (bytes :: unread).length + 1 = m + 1 + unread.length + 1 := by
        rw [List.length_cons]
        omega
      have hrest := (List.forall_mem_cons.mp nonempty).2
      simp only [decoded, hdecode, ← List.append_assoc, List.exists_mem_cons_iff, reduceCtorEq,
        false_or] at introduced ⊢
      rw [hbound]
      by_cases htext : '\n' ∈ curLine ++ text
      · exact settles_introduction hrest rfl htext
      · exact ih hrest introduced htext

/-- Without a newline the loop for the first line goes on reading. -/
theorem introducing_spins (decodes : ∀ bytes ∈ unread, (Utf8.decode bytes).isSome = true)
    (hnone : '\n' ∉ curLine ++ decoded unread) (k : ℕ) : ∃ unread' text,
    env.run ⟨unread, m, .introducing curLine⟩ k = ⟨unread', m + k, .introducing text⟩ := by
  induction k generalizing unread m curLine with
  | zero => exact ⟨unread, curLine, rfl⟩
  | succ k ih =>
    obtain ⟨hcurLine, harrives⟩ : '\n' ∉ curLine ∧ '\n' ∉ decoded unread := by simpa using hnone
    obtain ⟨text, hdecode⟩ : ∃ text, Utf8.decode (unread.headD []) = some text := by
      cases unread with
      | nil => exact ⟨[], Utf8.decode_encode []⟩
      | cons bytes unread => exact Option.isSome_iff_exists.mp (decodes bytes List.mem_cons_self)
    have hnext : env.next ⟨unread, m, .introducing curLine⟩ =
        ⟨unread.tail, m + 1, .introducing (curLine ++ text)⟩ := by
      simp only [Env.next, splitOnce_eq_none hcurLine, PeerTask.read, hdecode]
    rw [run_succ, hnext, Nat.add_comm k 1, ← Nat.add_assoc]
    refine ih (fun bytes hbytes => decodes bytes (List.mem_of_mem_tail hbytes)) ?_
    cases unread with
    | nil =>
      obtain rfl : [] = text := Option.some.inj ((Utf8.decode_encode []).symm.trans hdecode)
      simpa [decoded] using hcurLine
    | cons bytes unread =>
      have harrived : decoded (bytes :: unread) = text ++ decoded unread := by
        simp only [decoded, show Utf8.decode bytes = some text from hdecode]
      rw [harrived] at hnone
      simpa using hnone

/-! ## The result -/

theorem decodes_of_none (h : ¬ ∃ bytes ∈ reads, Utf8.decode bytes = none) :
    ∀ bytes ∈ reads, (Utf8.decode bytes).isSome = true :=
  fun bytes hbytes => Option.isSome_iff_ne_none.mpr fun hnone => h ⟨bytes, hbytes, hnone⟩

theorem encode_decoded (h : ∀ bytes ∈ reads, (Utf8.decode bytes).isSome = true) :
    Utf8.encode (decoded reads) = reads.flatten := by
  induction reads with
  | nil => rfl
  | cons bytes reads ih =>
    obtain ⟨hbytes, hrest⟩ := List.forall_mem_cons.mp h
    obtain ⟨text, hdecode⟩ := Option.isSome_iff_exists.mp hbytes
    simp only [decoded, hdecode, List.flatten_cons]
    rw [Utf8.encode_append, ih hrest, Utf8.encode_of_decode hdecode]

theorem introduced_iff : Introduced reads ↔
    '\n' ∈ decoded reads ∨ ∃ bytes ∈ reads, Utf8.decode bytes = none := by
  unfold Introduced
  by_cases hbad : ∃ bytes ∈ reads, Utf8.decode bytes = none
  · simp [hbad]
  · rw [← encode_decoded (decodes_of_none hbad), Utf8.newline_mem_encode]

/-- **The handshake ends**, whatever arrives in whatever reads, if and only if the peer has sent a
newline before it closed the connection, or a read that is no UTF-8, and no ping waits for room to
be answered. Without the first of the two the task reads for ever. -/
theorem handshake_ends (env : Env) (nonempty : ∀ bytes ∈ reads, bytes ≠ []) :
    (Leaves env reads ↔ Introduced reads ∧ ¬ Waits env (decoded reads)) ∧
      (¬ Introduced reads → ∀ k, (env.run (.start reads) k).reads = k) := by
  have hspins : ¬ Introduced reads → ∀ k, ∃ unread text,
      env.run (.start reads) k = ⟨unread, 0 + k, .introducing text⟩ := by
    intro h k
    rw [introduced_iff, not_or] at h
    exact introducing_spins (decodes_of_none h.2) (by simpa using h.1) k
  refine ⟨?_, fun h k => ?_⟩
  · by_cases h : Introduced reads
    · obtain ⟨k, hover, hreads, hleft⟩ : Settles env (.start reads) (0 + reads.length + 1)
          (Waits env ([] ++ decoded reads)) :=
        settles_introducing nonempty (by simpa using introduced_iff.mp h)
      rw [Nat.zero_add] at hreads
      have hstays : ∀ j, env.run (.start reads) (j + k) = env.run (.start reads) k := fun j => by
        rw [run_add, run_over hover]
      rw [and_iff_right h]
      refine Iff.trans ?_ hleft
      constructor
      · rintro ⟨k', hall⟩
        rw [← hstays k']
        exact (hall (k' + k) (by omega)).1
      · intro hnow
        refine ⟨k, fun j hj => ?_⟩
        rw [← Nat.sub_add_cancel hj, hstays]
        exact ⟨hnow, hreads⟩
    · refine iff_of_false ?_ fun hboth => h hboth.1
      rintro ⟨k, hall⟩
      obtain ⟨unread, text, hrun⟩ := hspins h k
      have hleft := (hall k (Nat.le_refl k)).1
      rw [hrun] at hleft
      rcases hleft with hleft | hleft <;> cases hleft
  · obtain ⟨unread, text, hrun⟩ := hspins h k
    rw [hrun, Nat.zero_add]

/-! ## A peer that says hello -/

def helloLine : List Char := "\x7b\"id\":\"B\"\x7d".toList

def hello : Env where
  parse line := if line = helloLine then some (.obj [("id", .str "B")]) else none
  accepts peerId := peerId = "B"
  handle _ _ := .goesOn

theorem handshake_ends_hello : Leaves hello [Utf8.encode (helloLine ++ ['\n'])] := by
  have hnewline : Introduced [Utf8.encode (helloLine ++ ['\n'])] := Or.inl (by decide)
  exact (handshake_ends hello (by decide)).1.mpr ⟨hnewline, never_waits nofun⟩

/-- It closes the connection before it has said anything. -/
theorem silent_spins : ¬ Leaves hello [] ∧ ∀ k, (hello.run (.start []) k).reads = k := by
  have hspins : ∀ k, ∃ unread text, hello.run (.start []) k = ⟨unread, 0 + k, .introducing text⟩ :=
    introducing_spins nofun (by simp [decoded])
  constructor
  · rintro ⟨k, hall⟩
    obtain ⟨unread, text, hrun⟩ := hspins k
    have hleft := (hall k (Nat.le_refl k)).1
    rw [hrun] at hleft
    rcases hleft with hleft | hleft <;> cases hleft
  · intro k
    obtain ⟨unread, text, hrun⟩ := hspins k
    rw [hrun, Nat.zero_add]

end MiniDiscord.Wire
