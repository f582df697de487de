import Mathlib.Data.List.Basic
import MiniDiscord.Json
import MiniDiscord.Utf8

/-!
# One line for each message

`send_message_task` writes each message as one line, and the read loop of `peer_task` takes the
lines apart again. It decodes each read by itself, so it panics at a read that ends inside a
character. A `String` is the list of its characters here, and `serde_json` is given by a printer
and a parser.
-/

namespace MiniDiscord.Wire

variable {V : Type}

/-! ## The two sides -/

/-- `format!("{}\n", message)` for each message, one after the other. -/
def lines (print : V → List Char) (messages : List V) : List Char :=
  messages.flatMap fun m => print m ++ ['\n']

/-- The bytes that `write_all` is given. -/
def written (print : V → List Char) (messages : List V) : List UInt8 :=
  Utf8.encode (lines print messages)

/-- `split_once("\n")` -/
def splitOnce : List Char → Option (List Char × List Char)
  | [] => none
  | c :: rest =>
    if c = '\n' then some ([], rest) else (splitOnce rest).map fun (line, rest) => (c :: line, rest)

theorem splitOnce_some {text line rest : List Char} (h : splitOnce text = some (line, rest)) :
    text = line ++ '\n' :: rest ∧ '\n' ∉ line := by
  induction text generalizing line with
  | nil => cases h
  | cons c text ih =>
    unfold splitOnce at h
    split_ifs at h with hc
    · obtain ⟨rfl, rfl⟩ := Prod.mk.inj (Option.some.inj h)
      simp [hc]
    · obtain ⟨⟨line', rest'⟩, hsplit, heq⟩ := Option.map_eq_some_iff.mp h
      obtain ⟨rfl, rfl⟩ := Prod.mk.inj heq
      obtain ⟨rfl, hline⟩ := ih hsplit
      simp [hline, Ne.symm hc]

theorem splitOnce_none {text : List Char} (h : splitOnce text = none) : '\n' ∉ text := by
  induction text with
  | nil => simp
  | cons c text ih =>
    unfold splitOnce at h
    split_ifs at h with hc
    simp [Ne.symm hc, ih (Option.map_eq_none_iff.mp h)]

/-- Parses and dispatches the lines that `cur_line` has, and leaves the rest in it; `none` is a
panic. -/
def dispatchLines (parse : List Char → Option V) (curLine : List Char) :
    Option (List V × List Char) :=
  match _h : splitOnce curLine with
  | none => some ([], curLine)
  | some (line, rest) => do
    let value ← parse line
    let (values, curLine) ← dispatchLines parse rest
    some (value :: values, curLine)
termination_by curLine.length
decreasing_by
  have := congrArg List.length (splitOnce_some _h).1
  simp at this
  omega

/-- The read loop of `peer_task`: what it dispatched, and what is left of `cur_line`, when it waits
for more. -/
def readLoop (parse : List Char → Option V) (curLine : List Char) :
    List (List UInt8) → Option (List V × List Char)
  | [] => dispatchLines parse curLine
  | read :: reads => do
    let (values, curLine) ← dispatchLines parse curLine
    -- peer disconnected
    if read = [] then some (values, curLine)
    else
      let text ← Utf8.decode read
      let (more, curLine) ← readLoop parse (curLine ++ text) reads
      some (values ++ more, curLine)

/-! ## Lines -/

variable {print : V → List Char} {parse : List Char → Option V} {messages : List V}
  {curLine rest line line' rest' : List Char} {reads : List (List UInt8)}

/-- What the code relies on: a value is printed without a raw newline, and read back. -/
def Printed (print : V → List Char) (parse : List Char → Option V) (messages : List V) : Prop :=
  ∀ m ∈ messages, '\n' ∉ print m ∧ parse (print m) = some m

theorem splitOnce_eq_none (h : '\n' ∉ curLine) : splitOnce curLine = none := by
  cases hsplit : splitOnce curLine with
  | none => rfl
  | some lr =>
    obtain ⟨rfl, -⟩ := splitOnce_some (show splitOnce curLine = some (lr.1, lr.2) from hsplit)
    simp at h

theorem splitOnce_line (h : '\n' ∉ line) :
    splitOnce (line ++ '\n' :: rest) = some (line, rest) := by
  induction line with
  | nil => rfl
  | cons c line ih =>
    obtain ⟨hc, hline⟩ := List.ne_and_not_mem_of_not_mem_cons h
    rw [List.cons_append, splitOnce, if_neg (Ne.symm hc), ih hline]
    rfl

/-- A text has no newline, or a first line. -/
theorem lines_induction {P : List Char → Prop} (none : ∀ text, '\n' ∉ text → P text)
    (first : ∀ line rest, '\n' ∉ line → P rest → P (line ++ '\n' :: rest)) (text : List Char) :
    P text := by
  induction hn : text.length using Nat.strongRecOn generalizing text with
  | ind n ih =>
    by_cases hnewline : '\n' ∈ text
    · obtain ⟨line, rest, rfl, hline⟩ := List.eq_append_cons_of_mem hnewline
      refine first line rest hline (ih rest.length ?_ rest rfl)
      simp only [List.length_append, List.length_cons] at hn
      omega
    · exact none text hnewline

theorem dispatchLines_none (h : '\n' ∉ curLine) :
    dispatchLines parse curLine = some ([], curLine) := by
  unfold dispatchLines
  split
  · rfl
  · rename_i hsome
    rw [splitOnce_eq_none h] at hsome
    cases hsome

theorem first_line (h : line ++ '\n' :: rest = line' ++ '\n' :: rest') (hline : '\n' ∉ line)
    (hline' : '\n' ∉ line') : line = line' ∧ rest = rest' := by
  induction line generalizing line' with
  | nil =>
    cases line' with
    | nil => exact ⟨rfl, List.tail_eq_of_cons_eq h⟩
    | cons c line' =>
      obtain ⟨rfl, -⟩ := List.cons.inj h
      simp at hline'
  | cons c line ih =>
    cases line' with
    | nil =>
      obtain ⟨rfl, -⟩ := List.cons.inj h
      simp at hline
    | cons c' line' =>
      obtain ⟨rfl, htail⟩ := List.cons.inj h
      obtain ⟨rfl, rfl⟩ := ih htail (by simp_all) (by simp_all)
      exact ⟨rfl, rfl⟩

theorem dispatchLines_line (hline : '\n' ∉ line) :
    dispatchLines parse (line ++ '\n' :: rest) =
      (parse line).bind fun m => (dispatchLines parse rest).map fun r => (m :: r.1, r.2) := by
  conv_lhs => unfold dispatchLines
  split
  · rename_i hnone
    exact absurd (splitOnce_none hnone) (by simp)
  · rename_i line' rest' hsome
    obtain ⟨heq, hline'⟩ := splitOnce_some hsome
    obtain ⟨rfl, rfl⟩ := first_line heq hline hline'
    cases parse line with
    | none => rfl
    | some m => cases dispatchLines parse rest <;> rfl

theorem dispatchLines_cons {m : V} (hline : '\n' ∉ print m) (hparse : parse (print m) = some m) :
    dispatchLines parse (print m ++ '\n' :: rest) =
      (dispatchLines parse rest).map fun r => (m :: r.1, r.2) := by
  rw [dispatchLines_line hline, hparse, Option.bind_some]

/-- What is left has no newline. -/
theorem dispatchLines_rest {values : List V}
    (h : dispatchLines parse curLine = some (values, rest)) : '\n' ∉ rest := by
  induction curLine using lines_induction generalizing values with
  | none curLine hnone =>
    rw [dispatchLines_none hnone] at h
    obtain ⟨-, rfl⟩ := Prod.mk.inj (Option.some.inj h)
    exact hnone
  | first line tail hline ih =>
    rw [dispatchLines_line hline, Option.bind_eq_some_iff] at h
    obtain ⟨m, -, h⟩ := h
    obtain ⟨⟨values', rest'⟩, hrest, heq⟩ := Option.map_eq_some_iff.mp h
    obtain ⟨-, rfl⟩ := Prod.mk.inj heq
    exact ih hrest

/-- The lines that have arrived are dispatched, and the rest is the start of a line still to
come. -/
theorem dispatchLines_lines (printed : Printed print parse messages)
    (text : curLine ++ rest = lines print messages) :
    ∃ done todo left, messages = done ++ todo ∧ dispatchLines parse curLine = some (done, left) ∧
      left ++ rest = lines print todo ∧ '\n' ∉ left := by
  induction messages generalizing curLine with
  | nil =>
    obtain ⟨rfl, rfl⟩ := List.append_eq_nil_iff.mp text
    exact ⟨[], [], [], rfl, dispatchLines_none (by simp), rfl, by simp⟩
  | cons m messages ih =>
    by_cases hnewline : '\n' ∈ curLine
    · obtain ⟨hline, hparse⟩ := printed m (by simp)
      -- the first line has arrived whole, and it is the first message's
      obtain ⟨line, tail, rfl, hfirst⟩ := List.eq_append_cons_of_mem hnewline
      have hsame : line ++ '\n' :: (tail ++ rest) = print m ++ '\n' :: lines print messages := by
        simpa [lines] using text
      obtain ⟨rfl, htail⟩ := first_line hsame hfirst hline
      obtain ⟨done, todo, left, rfl, hdispatch, hleft, hnone⟩ :=
        ih (fun m hm => printed m (by simp [hm])) htail
      refine ⟨m :: done, todo, left, rfl, ?_, hleft, hnone⟩
      rw [dispatchLines_cons hline hparse, hdispatch]
      rfl
    · exact ⟨[], m :: messages, curLine, rfl, dispatchLines_none hnewline, text, hnewline⟩

theorem lines_eq_nil {left : List Char} (h : left = lines print messages) (hnone : '\n' ∉ left) :
    left = [] ∧ messages = [] := by
  cases messages with
  | nil => exact ⟨h, rfl⟩
  | cons m messages =>
    rw [h] at hnone
    simp [lines] at hnone

/-! ## Reads -/

theorem readLoop_whole (printed : Printed print parse messages) {texts : List (List Char)}
    (nonempty : ∀ read ∈ texts.map Utf8.encode, read ≠ [])
    (text : curLine ++ texts.flatten = lines print messages) :
    readLoop parse curLine (texts.map Utf8.encode) = some (messages, []) := by
  induction texts generalizing curLine messages with
  | nil =>
    obtain ⟨done, todo, left, rfl, hdispatch, hleft, hnone⟩ := dispatchLines_lines printed text
    rw [List.flatten_nil, List.append_nil] at hleft
    obtain ⟨rfl, rfl⟩ := lines_eq_nil hleft hnone
    simpa [readLoop] using hdispatch
  | cons read texts ih =>
    obtain ⟨done, todo, left, rfl, hdispatch, hleft, hnone⟩ := dispatchLines_lines printed text
    have hmore : readLoop parse (left ++ read) (texts.map Utf8.encode) = some (todo, []) := by
      apply ih (fun m hm => printed m (by simp [hm])) (fun r hr => nonempty r (by simp_all))
      rw [List.append_assoc, ← List.flatten_cons, hleft]
    have hread : Utf8.encode read ≠ [] := nonempty _ (by simp)
    simp [readLoop, hdispatch, hread, hmore]

theorem readLoop_decodes {result : List V × List Char} (nonempty : ∀ read ∈ reads, read ≠ [])
    (h : readLoop parse curLine reads = some result) :
    ∃ texts : List (List Char), reads = texts.map Utf8.encode := by
  induction reads generalizing curLine result with
  | nil => exact ⟨[], rfl⟩
  | cons read reads ih =>
    simp only [readLoop, Option.bind_eq_bind, Option.bind_eq_some_iff] at h
    obtain ⟨⟨values, left⟩, -, h⟩ := h
    rw [if_neg (nonempty read (by simp))] at h
    simp only [Option.bind_eq_some_iff] at h
    obtain ⟨text, hdecode, more, hmore, -⟩ := h
    obtain ⟨texts, rfl⟩ := ih (fun r hr => nonempty r (by simp [hr])) hmore
    exact ⟨text :: texts, by simp [Utf8.encode_of_decode hdecode]⟩

/-- No read ends inside a character: what has been read is at any time the encoding of the first
characters of the text. -/
def EndsBetweenCharacters (text curLine : List Char) (reads : List (List UInt8)) : Prop :=
  ∀ n, ∃ arrived, arrived <+: text ∧
    Utf8.encode arrived = Utf8.encode curLine ++ (reads.take n).flatten

theorem ends_of_texts {text : List Char} {texts : List (List Char)}
    (h : curLine ++ texts.flatten = text) :
    EndsBetweenCharacters text curLine (texts.map Utf8.encode) := by
  intro n
  refine ⟨curLine ++ (texts.take n).flatten, ?_, ?_⟩
  · refine ⟨(texts.drop n).flatten, ?_⟩
    rw [List.append_assoc, ← List.flatten_append, List.take_append_drop, h]
  · rw [Utf8.encode_append, Utf8.encode_flatten, List.map_take]

theorem texts_of_ends {text : List Char} (h : EndsBetweenCharacters text curLine reads) :
    ∃ texts : List (List Char), reads = texts.map Utf8.encode := by
  induction reads generalizing curLine with
  | nil => exact ⟨[], rfl⟩
  | cons read reads ih =>
    obtain ⟨arrived, -, harrived⟩ := h 1
    rw [List.take_succ_cons, List.take_zero, List.flatten_cons, List.flatten_nil,
      List.append_nil] at harrived
    obtain ⟨first, rfl, rfl⟩ := Utf8.encode_of_prefix harrived.symm
    have hrest : EndsBetweenCharacters text (curLine ++ first) reads := by
      intro n
      obtain ⟨arrived, hprefix, heq⟩ := h (n + 1)
      refine ⟨arrived, hprefix, ?_⟩
      rw [heq, List.take_succ_cons, List.flatten_cons, Utf8.encode_append, List.append_assoc]
    obtain ⟨texts, rfl⟩ := ih hrest
    exact ⟨first :: texts, rfl⟩

/-! ## The result -/

/-- **Framing.** The read loop dispatches exactly the messages that were written, each once and in
order and with nothing left over, if and only if no read ends inside a character. -/
theorem framing (printed : Printed print parse messages)
    (cut : Utf8.encode curLine ++ reads.flatten = written print messages)
    (nonempty : ∀ read ∈ reads, read ≠ []) :
    readLoop parse curLine reads = some (messages, []) ↔
      EndsBetweenCharacters (lines print messages) curLine reads := by
  have htext : ∀ texts : List (List Char), reads = texts.map Utf8.encode →
      curLine ++ texts.flatten = lines print messages := by
    rintro texts rfl
    apply Utf8.encode_injective
    rw [Utf8.encode_append, Utf8.encode_flatten]
    exact cut
  constructor
  · intro h
    obtain ⟨texts, hreads⟩ := readLoop_decodes nonempty h
    rw [hreads]
    exact ends_of_texts (htext texts hreads)
  · intro h
    obtain ⟨texts, hreads⟩ := texts_of_ends h
    rw [hreads] at nonempty ⊢
    exact readLoop_whole printed nonempty (htext texts hreads)

/-! ## A name with an accent -/

/-- A request to create the user `é`, as it is printed. -/
def accented : Json :=
  .obj [("is_response", .bool false), ("sequence_number", .num 1), ("type", .str "create_user"),
    ("username", .str "é")]

def beforeAccent : List Char :=
  "\x7b\"is_response\":false,\"sequence_number\":1,\"type\":\"create_user\",\"username\":\"".toList

def afterAccent : List Char := "\"\x7d".toList

def accentedLine : List Char := beforeAccent ++ 'é' :: afterAccent

def parseAccented (line : List Char) : Option Json :=
  if line = accentedLine then some accented else none

theorem accented_printed : Printed (fun _ => accentedLine) parseAccented [accented] := by
  intro m hm
  obtain rfl := List.mem_singleton.mp hm
  exact ⟨by decide, if_pos rfl⟩

theorem framing_accented :
    readLoop parseAccented []
      [Utf8.encode (beforeAccent ++ ['é']), Utf8.encode (afterAccent ++ ['\n'])] =
        some ([accented], []) := by
  have htexts : [] ++ [beforeAccent ++ ['é'], afterAccent ++ ['\n']].flatten =
      lines (fun _ => accentedLine) [accented] := by decide
  exact (framing accented_printed (by decide) (by decide)).mpr (ends_of_texts htexts)

/-- The same line, cut between the two bytes of `é`. -/
def cutAccent : List (List UInt8) :=
  [Utf8.encode beforeAccent ++ [0xC3], 0xA9 :: Utf8.encode (afterAccent ++ ['\n'])]

theorem framing_cut :
    Printed (fun _ => accentedLine) parseAccented [accented] ∧
      cutAccent.flatten = written (fun _ => accentedLine) [accented] ∧
      (∀ read ∈ cutAccent, read ≠ [] ∧ read.length ≤ 1024) ∧
      readLoop parseAccented [] cutAccent = none := by
  refine ⟨accented_printed, by decide, by decide, ?_⟩
  have hdecode : Utf8.decode (Utf8.encode beforeAccent ++ [0xC3]) = none :=
    @Utf8.decode_cut beforeAccent 'é' 1 (by decide) (by decide)
  simp [cutAccent, readLoop, dispatchLines_none, hdecode]

end MiniDiscord.Wire
