import Mathlib.Algebra.Group.Nat.Defs
import Mathlib.Data.Nat.Notation
import MiniDiscord.KeySet

/-!
# Messages and their ids

A message id is `{channel}-{number}`, and messages are ordered by the number alone, which each
comparison reads back out of the id.
-/

namespace MiniDiscord

/-! ## Parsing a number -/

/-- `str::parse::<usize>`: digits, with an optional `+` in front. A `usize` is a natural number
here: a counter that goes up by one a message does not get near `2 ^ 64`. -/
def parseUsize (text : List Char) : Option ℕ :=
  let digits := if text.head? = some '+' then text.tail else text
  if digits ≠ [] ∧ digits.all Char.isDigit then some (Nat.ofDigitChars 10 digits 0) else none

theorem digits_isDigit (n : ℕ) : ∀ c ∈ Nat.toDigits 10 n, c.isDigit = true := fun _ hc =>
  Nat.isDigit_of_mem_toDigits (by omega) (by omega) hc

theorem toDigits_head (n : ℕ) : (Nat.toDigits 10 n).head? ≠ some '+' := by
  intro h
  have := digits_isDigit n '+' (List.mem_of_mem_head? h)
  simp at this

theorem parseUsize_toDigits (n : ℕ) : parseUsize (Nat.toDigits 10 n) = some n := by
  have hall : (Nat.toDigits 10 n).all Char.isDigit = true := by
    simpa using digits_isDigit n
  simp only [parseUsize, if_neg (toDigits_head n), ne_eq, Nat.toDigits_ne_nil, not_false_eq_true,
    hall, and_self, if_true, Nat.ofDigitChars_ten_toDigits]

/-! ## Messages -/

structure Message where
  username : String
  text : String
  messageId : String
deriving DecidableEq, Repr

/-- `format!("{}-{}", channel_name, message_id)` -/
def formatMessageId (channelName : String) (messageId : ℕ) : String :=
  channelName ++ "-" ++ toString messageId

/-- `Message::from` -/
def Message.from' (username text channelName : String) (messageId : ℕ) : Message :=
  ⟨username, text, formatMessageId channelName messageId⟩

/-- The number that `get_numeric_message_id` reads out of an id; `none` where it panics. -/
def numericMessageId (messageId : String) : Option ℕ :=
  (messageId.toList.splitOn '-').getLast?.bind parseUsize

def Message.getNumericMessageId (m : Message) : Option ℕ := numericMessageId m.messageId

theorem dash_not_mem_digits (n : ℕ) : '-' ∉ Nat.toDigits 10 n := by
  intro h
  have := digits_isDigit n '-' h
  simp at this

/-- The number after the last `-` comes back, whatever the channel is called. -/
@[simp] theorem numericMessageId_format (channelName : String) (n : ℕ) :
    numericMessageId (formatMessageId channelName n) = some n := by
  have hlist : (formatMessageId channelName n).toList =
      channelName.toList ++ '-' :: Nat.toDigits 10 n := by
    simp [formatMessageId, String.toList_append, Nat.toString_eq_repr, Nat.toList_repr]
  rw [numericMessageId, hlist, List.splitOn_append_cons_of_beq _ _ (by simp),
    List.splitOn_eq_singleton (dash_not_mem_digits n)]
  simp [parseUsize_toDigits]

@[simp] theorem getNumericMessageId_from (username text channelName : String) (n : ℕ) :
    (Message.from' username text channelName n).getNumericMessageId = some n :=
  numericMessageId_format channelName n

/-- An id has the channel in front of its last `-` and the number behind it. -/
theorem formatMessageId_eq {channelName channelName' : String} {n k : ℕ} :
    formatMessageId channelName n = formatMessageId channelName' k ↔
      channelName = channelName' ∧ n = k := by
  constructor
  · intro h
    obtain rfl : n = k := by simpa using congrArg numericMessageId h
    refine ⟨?_, rfl⟩
    simpa [formatMessageId, String.append_assoc] using h
  · rintro ⟨rfl, rfl⟩
    rfl

theorem formatMessageId_inj {channelName : String} {n k : ℕ} :
    formatMessageId channelName n = formatMessageId channelName k ↔ n = k := by
  simp [formatMessageId_eq]

/-- `get_numeric_message_id` where a `usize` has so many bits: a larger number does not parse. -/
def Message.getNumericMessageIdOf (bits : ℕ) (m : Message) : Option ℕ :=
  m.getNumericMessageId.filter (· < 2 ^ bits)

/-- **Message ids.** Whatever a channel is called, a number that is a `usize` is read back out of
the id that is made with it, and two ids are the same only if the channels and the numbers are. -/
theorem message_ids :
    (∀ username text channelName bits n, n < 2 ^ bits →
      (Message.from' username text channelName n).getNumericMessageIdOf bits = some n) ∧
    ∀ username text channelName n username' text' channelName' k,
      (Message.from' username text channelName n).messageId =
        (Message.from' username' text' channelName' k).messageId →
      channelName = channelName' ∧ n = k := by
  constructor
  · intro username text channelName bits n small
    rw [Message.getNumericMessageIdOf, getNumericMessageId_from, Option.filter_some_pos]
    simpa using small
  · intro username text channelName n username' text' channelName' k h
    exact formatMessageId_eq.mp h

theorem message_ids_dashes :
    ( Message.from' "alice" "hi" "#a-1-2" 7).getNumericMessageIdOf 64 = some 7 ∧
      formatMessageId "#a" 12 ≠ formatMessageId "#a-1" 2 :=
  ⟨message_ids.1 "alice" "hi" "#a-1-2" 64 7 (by decide), fun h =>
    absurd (message_ids.2 "alice" "hi" "#a" 12 "alice" "hi" "#a-1" 2 h).2 (by decide)⟩

/-! ## The ordered set of messages -/

/-- What two messages are compared by. Only ids that parse are ever compared. -/
def Message.key (m : Message) : ℕ := m.getNumericMessageId.getD 0

theorem Message.key_eq {m : Message} {channelName : String} {n : ℕ}
    (h : m.messageId = formatMessageId channelName n) : m.key = n := by
  simp [key, getNumericMessageId, h]

/-- `BTreeSet<Message>` -/
abbrev MessageSet : Type := KeySet Message.key

/-- Two messages under one id are one message. -/
theorem eq_of_messageId {messages : MessageSet} {m m' : Message} (hm : m ∈ messages)
    (hm' : m' ∈ messages) (h : m.messageId = m'.messageId) : m = m' :=
  KeySet.eq_of_key hm hm' (by rw [Message.key, Message.key, Message.getNumericMessageId, h,
    Message.getNumericMessageId])

/-- `BTreeSet::insert`. An insert into an empty set compares nothing; any other insert parses the
ids it compares, and panics if one does not parse. -/
def insertMessage (messages : MessageSet) (m : Message) : Option (MessageSet × Bool) :=
  if messages.elems = [] ∨ (m :: messages.elems).all (·.getNumericMessageId.isSome) then
    some (messages.insert m)
  else none

theorem insertMessage_eq {messages : MessageSet} {m : Message} {r : MessageSet × Bool}
    (h : insertMessage messages m = some r) : r = messages.insert m := by
  unfold insertMessage at h
  split at h
  · exact (Option.some.inj h).symm
  · cases h

end MiniDiscord
