import Mathlib.Data.List.Basic
import MiniDiscord.Pa1.Loop

/-!
# One response for each line

The bytes of a client come in reads that may end anywhere. Where they end between characters, the
connection does the same for every way to cut them: it answers line by line, up to the first `QUIT`.
-/

namespace MiniDiscord.Pa1

open Wire (splitOnce splitOnce_some splitOnce_none splitOnce_eq_none splitOnce_line lines_induction)

variable {socket socket' : Socket} {store : AppState} {user : Option String}
  {reads : List (List UInt8)} {bytes : List UInt8} {line rest text text' : List Char}
  {lines : List (List Char)}

/-! ## Lines -/

/-- The complete lines. -/
def linesOf (text : List Char) : List (List Char) := (text.splitOn '\n').dropLast

/-- What comes after the last newline. -/
def unfinished (text : List Char) : List Char := (text.splitOn '\n').getLastD []

theorem linesOf_none (h : '\n' ∉ text) : linesOf text = [] := by
  rw [linesOf, List.splitOn_eq_singleton h]
  rfl

theorem unfinished_none (h : '\n' ∉ text) : unfinished text = text := by
  rw [unfinished, List.splitOn_eq_singleton h]
  rfl

theorem linesOf_line (h : '\n' ∉ line) : linesOf (line ++ '\n' :: rest) = line :: linesOf rest := by
  rw [linesOf, List.splitOn_append_cons_self_of_not_mem h, List.dropLast_cons_of_ne_nil (by simp)]
  rfl

theorem unfinished_line (h : '\n' ∉ line) :
    unfinished (line ++ '\n' :: rest) = unfinished rest := by
  rw [unfinished, List.splitOn_append_cons_self_of_not_mem h, unfinished]
  cases hsplit : rest.splitOn '\n' with
  | nil => exact absurd hsplit (by simp)
  | cons first others => rfl

theorem linesOf_append (text text' : List Char) : linesOf text <+: linesOf (text ++ text') := by
  induction text using lines_induction with
  | none text h => simp [linesOf_none h]
  | first line rest h ih =>
    rw [List.append_assoc, List.cons_append, linesOf_line h, linesOf_line h]
    exact (List.prefix_cons_inj line).mpr ih

/-! ## Line by line -/

/-- The responses to the lines before the first `QUIT`, the store and who is logged in afterwards;
`none` if a line panics. -/
def answerLines (store : AppState) (user : Option String) :
    List (List Char) → Option (List Response × AppState × Option String)
  | [] => some ([], store, user)
  | line :: lines =>
    if isQuit line then some ([], store, user)
    else match (processLine user line).alone Section.exec store with
      | some ((.send val, user), store) =>
        (answerLines store user lines).map fun (vals, result) => (val :: vals, result)
      | _ => none

def beforeQuit (lines : List (List Char)) : List (List Char) := lines.takeWhile fun l => !isQuit l

theorem answerLines_some (user : Option String) (keyed : store.Keyed)
    (bare : ∀ line ∈ beforeQuit lines, isBare line = false) : ∃ vals store' user',
      answerLines store user lines = some (vals, store', user') ∧
        vals.length = (beforeQuit lines).length := by
  induction lines generalizing store user with
  | nil => exact ⟨[], store, user, rfl, rfl⟩
  | cons line lines ih =>
    cases hquit : isQuit line with
    | true => exact ⟨[], store, user, by simp [answerLines, hquit], by simp [beforeQuit, hquit]⟩
    | false =>
      have hbefore : beforeQuit (line :: lines) = line :: beforeQuit lines := by
        simp [beforeQuit, hquit]
      rw [hbefore] at bare ⊢
      obtain ⟨hbare, hrest⟩ := List.forall_mem_cons.mp bare
      obtain ⟨val, user', store', halone, keyed'⟩ :=
        processLine_sends user keyed_commands keyed hbare hquit
      obtain ⟨vals, store'', user'', hlines, hlength⟩ := ih user' keyed' hrest
      refine ⟨val :: vals, store'', user'', ?_, by simp [hlength]⟩
      simp [answerLines, hquit, halone, hlines]

theorem bare_of_answerLines {result : List Response × AppState × Option String}
    (h : answerLines store user lines = some result) :
    ∀ line ∈ beforeQuit lines, isBare line = false := by
  induction lines generalizing store user result with
  | nil => simp [beforeQuit]
  | cons line lines ih =>
    cases hquit : isQuit line with
    | true => simp [beforeQuit, hquit]
    | false =>
      have hbefore : beforeQuit (line :: lines) = line :: beforeQuit lines := by
        simp [beforeQuit, hquit]
      rw [hbefore, List.forall_mem_cons]
      rw [answerLines, hquit, if_neg Bool.false_ne_true] at h
      split at h
      · rename_i val user' store' halone
        obtain ⟨result', hlines, -⟩ := Option.map_eq_some_iff.mp h
        refine ⟨?_, ih hlines⟩
        by_contra hbare
        rw [processLine_bare (by simpa using hbare)] at halone
        cases halone
      · cases h

/-- What the connection comes to if it answers line by line. -/
def Socket.after (socket : Socket) (text : List Char) :
    List Response × AppState × Option String → Socket := fun (vals, store, user) =>
  ⟨store, user, if (linesOf text).any isQuit then .ended .quit else .reading (unfinished text),
    socket.sent ++ vals⟩

theorem answer_text (socket : Socket) (keyed : socket.store.Keyed) (text : List Char) :
    (∀ result, answerLines socket.store socket.user (linesOf text) = some result →
      socket.answer text = socket.after text result) ∧
    (answerLines socket.store socket.user (linesOf text) = none →
      (socket.answer text).phase = .ended .panicked) := by
  induction text using lines_induction generalizing socket with
  | none text h =>
    rw [linesOf_none h, answer_none (splitOnce_eq_none h)]
    refine ⟨fun result hresult => ?_, nofun⟩
    cases hresult
    simp [Socket.after, linesOf_none h, unfinished_none h]
  | first line rest h ih =>
    rw [linesOf_line h, answer_some (splitOnce_line h)]
    cases hquit : isQuit line with
    | true =>
      rw [handleLine_quit hquit, settle_ended rfl, answerLines, if_pos hquit]
      refine ⟨fun result hresult => ?_, nofun⟩
      cases hresult
      simp [Socket.after, linesOf_line h, hquit]
    | false =>
      rw [answerLines, if_neg (by simp [hquit])]
      cases hbare : isBare line with
      | true =>
        rw [handleLine_bare hbare, processLine_bare hbare]
        exact ⟨nofun, fun _ => rfl⟩
      | false =>
        obtain ⟨val, user, store, halone, keyed'⟩ :=
          processLine_sends socket.user keyed_commands keyed hbare hquit
        have hsettle : (socket.handleLine line rest).settle =
            (Socket.written { socket with store, user } val rest).answer rest := by
          simp only [Socket.handleLine, halone, Socket.settle, Socket.written]
        rw [hsettle, halone]
        obtain ⟨hsome, hnone⟩ :=
          ih (Socket.written { socket with store, user } val rest) keyed'
        refine ⟨fun result hresult => ?_, fun hresult => hnone (Option.map_eq_none_iff.mp hresult)⟩
        obtain ⟨result', hlines, rfl⟩ := Option.map_eq_some_iff.mp hresult
        rw [hsome result' hlines]
        simp [Socket.after, Socket.written, linesOf_line h, unfinished_line h, hquit]

theorem quit_ends (socket : Socket) (keyed : socket.store.Keyed)
    (quit : (linesOf text).any isQuit = true) :
    ∃ why, (socket.answer text).phase = .ended why := by
  obtain ⟨hsome, hnone⟩ := answer_text socket keyed text
  cases hlines : answerLines socket.store socket.user (linesOf text) with
  | none => exact ⟨_, hnone hlines⟩
  | some result =>
    rw [hsome result hlines]
    exact ⟨.quit, if_pos quit⟩

/-! ## More text -/

/-- The rest of the text, once the lines so far are handled. -/
def Socket.feed (socket : Socket) (text : List Char) : Socket :=
  match socket.phase with
  | .reading curLine => socket.answer (curLine ++ text)
  | _ => socket

/-- **Cutting a text anywhere makes no difference.** -/
theorem answer_append (socket : Socket) (text text' : List Char) :
    (socket.answer text).feed text' = socket.answer (text ++ text') := by
  induction text using lines_induction generalizing socket with
  | none text h =>
    rw [answer_none (splitOnce_eq_none h)]
    exact answer_phase socket _ _
  | first line rest h ih =>
    rw [List.append_assoc, List.cons_append, answer_some (splitOnce_line h),
      answer_some (splitOnce_line h)]
    rcases handleLine_outcome socket line with ⟨store, user, why, houtcome⟩ |
      ⟨store, user, val, houtcome⟩
    · rw [houtcome, houtcome, settle_ended rfl]
      rfl
    · rw [houtcome, houtcome]
      exact (ih _).trans (answer_phase
        (Socket.written { socket with store, user } val (rest ++ text')) (rest ++ text')
        (.reading rest))

theorem process_encode (socket : Socket) (text : List Char) :
    socket.process (Utf8.encode text) = socket.feed text := by
  unfold Socket.process Socket.feed
  cases socket.phase with
  | reading curLine =>
    simp only [Socket.receive, Utf8.decode_encode]
    exact answer_phase _ _ _
  | writing | ended => rfl

theorem process_undecodable {curLine : List Char} (phase : socket.phase = .reading curLine)
    (h : Utf8.decode bytes = none) : socket.process bytes = socket.panic := by
  simp only [Socket.process, phase, Socket.receive, h]
  exact settle_ended rfl

theorem process_ended {why : Ending} (phase : socket.phase = .ended why) :
    socket.process bytes = socket := by
  rw [Socket.process, phase]

theorem answer_nil (store : AppState) :
    (Socket.start store).answer [] = .start store :=
  answer_none (splitOnce_eq_none (by simp))

/-! ## Reads -/

/-- A whole `QUIT` line has come. -/
def quitIn (bytes : List UInt8) : Prop :=
  ∃ arrived, Utf8.encode arrived <+: bytes ∧ (linesOf arrived).any isQuit = true

/-- Every read ends between characters, unless a `QUIT` line has come before it. -/
def ReadsWhole (reads : List (List UInt8)) : Prop :=
  ∀ before bytes after, reads = before ++ bytes :: after →
    quitIn before.flatten ∨ ∃ arrived, Utf8.encode arrived = (before ++ [bytes]).flatten

theorem ReadsWhole.init (whole : ReadsWhole (reads ++ [bytes])) : ReadsWhole reads := by
  intro before bytes' after hreads
  exact whole before bytes' (after ++ [bytes]) (by simp [hreads])

theorem readsWhole_snoc (whole : ReadsWhole reads)
    (last : quitIn reads.flatten ∨ ∃ arrived, Utf8.encode arrived = (reads ++ [bytes]).flatten) :
    ReadsWhole (reads ++ [bytes]) := by
  intro before bytes' after hreads
  rcases List.eq_nil_or_concat' after with rfl | ⟨after', last', rfl⟩
  · obtain ⟨rfl, hlast⟩ := List.append_inj' hreads rfl
    rwa [← hlast]
  · rw [← List.cons_append, ← List.append_assoc] at hreads
    exact whole before bytes' after' (List.append_inj' hreads rfl).1

/-- The connection is where it would be had the bytes come at once: as far as they are characters,
or beyond a `QUIT` line. -/
theorem processAll_whole (keyed : store.Keyed) (whole : ReadsWhole reads) : ∃ arrived,
    (Socket.start store).processAll reads = (Socket.start store).answer arrived ∧
    (Utf8.encode arrived = reads.flatten ∨
      Utf8.encode arrived <+: reads.flatten ∧ (linesOf arrived).any isQuit = true) := by
  induction reads using List.reverseRecOn with
  | nil => exact ⟨[], (answer_nil store).symm, Or.inl rfl⟩
  | append_singleton reads bytes ih =>
    obtain ⟨arrived, hprocess, harrived⟩ := ih whole.init
    rw [processAll_snoc, hprocess, List.flatten_append]
    -- after a `QUIT` line nothing is read
    have hafter : (linesOf arrived).any isQuit = true →
        ((Socket.start store).answer arrived).process bytes = (Socket.start store).answer arrived :=
      fun hquit => process_ended (quit_ends (.start store) keyed hquit).choose_spec
    rcases harrived with heq | ⟨hfront, hquit⟩
    · rcases whole reads bytes [] rfl with ⟨early, hearly, hquit⟩ | ⟨arrived', harrived'⟩
      · rw [← heq] at hearly ⊢
        obtain ⟨later, hlater⟩ := hearly
        obtain ⟨later', rfl, -⟩ := Utf8.encode_of_prefix hlater
        have hquit' : (linesOf (early ++ later')).any isQuit = true := by
          rw [List.any_eq_true] at hquit ⊢
          obtain ⟨l, hl, hlq⟩ := hquit
          exact ⟨l, (linesOf_append early later').subset hl, hlq⟩
        exact ⟨early ++ later', hafter hquit', Or.inr ⟨List.prefix_append _ _, hquit'⟩⟩
      · rw [List.flatten_append, ← heq, List.flatten_singleton] at harrived'
        obtain ⟨later, rfl, rfl⟩ := Utf8.encode_of_prefix harrived'.symm
        refine ⟨arrived ++ later, ?_, Or.inl ?_⟩
        · rw [process_encode, answer_append]
        · rw [← heq, Utf8.encode_append, List.flatten_singleton]
    · exact ⟨arrived, hafter hquit, Or.inr ⟨hfront.trans (List.prefix_append _ _), hquit⟩⟩

/-- Conversely, a read that ends inside a character is a panic. -/
theorem whole_of_processAll (keyed : store.Keyed)
    (h : ((Socket.start store).processAll reads).phase ≠ .ended .panicked) : ReadsWhole reads := by
  induction reads using List.reverseRecOn with
  | nil => exact fun before bytes after hreads => by simp at hreads
  | append_singleton reads bytes ih =>
    rw [processAll_snoc] at h
    have whole : ReadsWhole reads := by
      refine ih fun hpanicked => h ?_
      rw [process_ended hpanicked, hpanicked]
    refine readsWhole_snoc whole ?_
    obtain ⟨arrived, hprocess, harrived⟩ := processAll_whole keyed whole
    rw [hprocess] at h
    rcases harrived with heq | ⟨hfront, hquit⟩
    · obtain ⟨hsome, hnone⟩ := answer_text (.start store) keyed arrived
      cases hlines : answerLines (Socket.start store).store (Socket.start store).user
          (linesOf arrived) with
      | none => exact absurd (hnone hlines) (by rwa [process_ended (hnone hlines)] at h)
      | some result =>
        by_cases hquit : (linesOf arrived).any isQuit = true
        · exact Or.inl ⟨arrived, heq ▸ List.prefix_rfl, hquit⟩
        · have hphase : ((Socket.start store).answer arrived).phase =
              .reading (unfinished arrived) := by
            rw [hsome result hlines]
            exact if_neg hquit
          cases hdecode : Utf8.decode bytes with
          | none => exact absurd (by rw [process_undecodable hphase hdecode]; rfl) h
          | some later =>
            refine Or.inr ⟨arrived ++ later, ?_⟩
            rw [Utf8.encode_append, heq, Utf8.encode_of_decode hdecode, List.flatten_append,
              List.flatten_singleton]
    · exact Or.inl ⟨arrived, hfront, hquit⟩

/-! ## The result -/

/-- One response for each line before the first `QUIT`, in order, and the store and the session as
they are after the lines. -/
def Answered (store : AppState) (text : List Char) (socket : Socket) : Prop :=
  ∃ result, answerLines store none (linesOf text) = some result ∧
    result.1.length = (beforeQuit (linesOf text)).length ∧
    socket = (Socket.start store).after text result

/-- **One response for each line.** However the bytes of a text are cut into reads, the connection
comes to rest in one way; it has then answered line by line if and only if no line before the first
`QUIT` is a bare `SEND` or `HISTORY` and every read up to it ends between characters. -/
theorem one_response_per_line {ok : Server → Event → Prop} {es : List Event} {server : Server}
    (run : Reaches ok es server) {text : List Char} (cut : reads.flatten = Utf8.encode text)
    (nonempty : ∀ bytes ∈ reads, bytes ≠ []) (short : ∀ bytes ∈ reads, bytes.length ≤ 1024) :
    (∃ socket, Served server.store reads socket) ∧
    ∀ socket, Served server.store reads socket → (Answered server.store text socket ↔
      (∀ line ∈ beforeQuit (linesOf text), isBare line = false) ∧ ReadsWhole reads) := by
  have keyed : server.store.Keyed := (never_poisoned run).1
  refine ⟨⟨_, served_processAll nonempty short⟩, fun socket served => ?_⟩
  obtain rfl := served_eq served
  constructor
  · rintro ⟨result, hlines, -, hsocket⟩
    refine ⟨bare_of_answerLines hlines, whole_of_processAll keyed ?_⟩
    rw [hsocket, Socket.after]
    split_ifs <;> exact nofun
  · rintro ⟨bare, whole⟩
    obtain ⟨vals, store, user, hlines, hlength⟩ :=
      answerLines_some none keyed bare
    refine ⟨(vals, store, user), hlines, hlength, ?_⟩
    obtain ⟨arrived, hprocess, harrived⟩ := processAll_whole keyed whole
    rw [hprocess, ← (answer_text (.start server.store) keyed text).1 _ hlines]
    rw [cut] at harrived
    rcases harrived with heq | ⟨⟨later, hlater⟩, hquit⟩
    · rw [Utf8.encode_injective heq]
    · obtain ⟨later', rfl, -⟩ := Utf8.encode_of_prefix hlater
      obtain ⟨why, hended⟩ := quit_ends (.start server.store) keyed hquit
      rw [← answer_append, Socket.feed, hended]

/-! ## A name with an accent -/

def beforeAccent : List Char := "REGISTER ".toList

def registersAccent : List Char := beforeAccent ++ ['é', '\n']

/-- Two reads that end between characters. -/
def wholeAccent : List (List UInt8) := [beforeAccent ++ ['é'], ['\n']].map Utf8.encode

/-- Two reads, of which the first ends between the two bytes of `é`. -/
def brokenAccent : List (List UInt8) := [Utf8.encode beforeAccent ++ [0xC3], [0xA9, 0x0A]]

theorem readsWhole_texts (texts : List (List Char)) : ReadsWhole (texts.map Utf8.encode) := by
  intro before bytes after hreads
  obtain ⟨texts₁, texts₂, -, rfl, htexts₂⟩ := List.map_eq_append_iff.mp hreads
  obtain ⟨text, texts₃, -, rfl, -⟩ := List.map_eq_cons_iff.mp htexts₂
  exact Or.inr ⟨(texts₁ ++ [text]).flatten, by
    rw [Utf8.encode_flatten, List.map_append, List.map_singleton]⟩

theorem one_response_per_line_accent : ∃ socket, Served AppState.new wholeAccent socket ∧
    Answered AppState.new registersAccent socket := by
  have run : Reaches (fun _ _ => True) [] .init := .nil
  have cut : wholeAccent.flatten = Utf8.encode registersAccent := by decide
  obtain ⟨⟨socket, served⟩, hiff⟩ := one_response_per_line run cut (by decide) (by decide)
  exact ⟨socket, served, (hiff socket served).mpr ⟨by decide, readsWhole_texts _⟩⟩

theorem no_response_to_accent :
    brokenAccent.flatten = Utf8.encode registersAccent ∧
      (∀ bytes ∈ brokenAccent, bytes ≠ [] ∧ bytes.length ≤ 1024) ∧
      ∃ socket, Served AppState.new brokenAccent socket ∧ socket.sent = [] ∧
        ¬ Answered AppState.new registersAccent socket := by
  have hdecode : Utf8.decode (Utf8.encode beforeAccent ++ [0xC3]) = none :=
    @Utf8.decode_cut beforeAccent 'é' 1 (by decide) (by decide)
  have hphase : (Socket.start .new).phase = .reading [] := rfl
  have hpanic : (Socket.start .new).processAll brokenAccent = (Socket.start .new).panic := by
    rw [Socket.processAll, brokenAccent, List.foldl_cons, process_undecodable hphase hdecode]
    rfl
  refine ⟨by decide, by decide, _, served_processAll (by decide) (by decide), ?_⟩
  rw [hpanic]
  refine ⟨rfl, ?_⟩
  rintro ⟨result, -, -, hsocket⟩
  have hphase := congrArg Socket.phase hsocket
  rw [Socket.after] at hphase
  split_ifs at hphase <;> cases hphase

end MiniDiscord.Pa1
