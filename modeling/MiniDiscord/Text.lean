import Mathlib.Data.List.DropRight

/-!
# Words of a line

`str::trim`, `str::starts_with` and `str::split_once(" ")` on the list of a text's characters.
-/

namespace MiniDiscord.Text

/-- `char::is_whitespace`: the Unicode property `White_Space`. -/
def isWhitespace (c : Char) : Bool :=
  let n := c.toNat
  (0x09 ≤ n && n ≤ 0x0D) || n = 0x20 || n = 0x85 || n = 0xA0 || n = 0x1680 ||
    (0x2000 ≤ n && n ≤ 0x200A) || n = 0x2028 || n = 0x2029 || n = 0x202F || n = 0x205F || n = 0x3000

def trim (text : List Char) : List Char := (text.dropWhile isWhitespace).rdropWhile isWhitespace

def startsWith (text : List Char) (word : String) : Bool := word.toList.isPrefixOf text

/-- `split_once(" ")` -/
def splitSpace : List Char → Option (List Char × List Char)
  | [] => none
  | c :: rest =>
    if c = ' ' then some ([], rest) else (splitSpace rest).map fun (word, rest) => (c :: word, rest)

variable {text rest : List Char} {c : Char} {word other : String}

theorem splitSpace_isSome : (splitSpace text).isSome = true ↔ ' ' ∈ text := by
  induction text with
  | nil => simp [splitSpace]
  | cons c text ih =>
    unfold splitSpace
    split_ifs with hc
    · simp [hc]
    · simp [ih, Ne.symm hc]

theorem splitSpace_none (h : ' ' ∉ text) : splitSpace text = none := by
  rw [← Option.not_isSome_iff_eq_none, splitSpace_isSome]
  exact h

theorem splitSpace_word (h : ' ' ∉ text) :
    splitSpace (text ++ ' ' :: rest) = some (text, rest) := by
  induction text with
  | nil => rfl
  | cons c text ih =>
    obtain ⟨hc, htext⟩ := List.ne_and_not_mem_of_not_mem_cons h
    rw [List.cons_append, splitSpace, if_neg (Ne.symm hc), ih htext]
    rfl

theorem splitOn_word (h : ' ' ∉ text) :
    (text ++ ' ' :: rest).splitOn ' ' = text :: rest.splitOn ' ' :=
  List.splitOn_append_cons_self_of_not_mem h _

/-- A text is one word, or has a first one. -/
theorem first_word (text : List Char) :
    ' ' ∉ text ∨ ∃ word rest, text = word ++ ' ' :: rest ∧ ' ' ∉ word := by
  by_cases h : ' ' ∈ text
  · exact Or.inr (List.eq_append_cons_of_mem h)
  · exact Or.inl h

/-- Whitespace at the end does not count. -/
theorem trim_append_whitespace (h : isWhitespace c = true) : trim (text ++ [c]) = trim text := by
  unfold trim
  rw [List.dropWhile_append]
  cases htext : text.dropWhile isWhitespace with
  | nil => simp [h]
  | cons d rest =>
    rw [List.isEmpty_cons, if_neg Bool.false_ne_true, List.rdropWhile_concat_pos _ _ _ h]

theorem trim_last {front : List Char} (h : trim text = front ++ [c]) : isWhitespace c = false := by
  have hne : trim text ≠ [] := by simp [h]
  have hlast : ¬ isWhitespace ((trim text).getLast hne) = true := List.rdropWhile_last_not _ _ hne
  rw [List.getLast_congr hne (by simp) h, List.getLast_append_singleton] at hlast
  simpa using hlast

/-- Nothing is taken off a text without whitespace at its ends. -/
theorem trim_eq_self (first : ∀ c ∈ text.head?, isWhitespace c = false)
    (last : ∀ c ∈ text.getLast?, isWhitespace c = false) : trim text = text := by
  cases text with
  | nil => rfl
  | cons c rest =>
    have hfirst : (c :: rest).dropWhile isWhitespace = c :: rest := by
      rw [List.dropWhile_cons_of_neg]
      simp [first c rfl]
    rw [trim, hfirst, List.rdropWhile_eq_self_iff]
    intro hne
    simp [last _ (List.getLast?_eq_some_getLast hne)]

theorem startsWith_iff : startsWith text word = true ↔ ∃ rest, text = word.toList ++ rest := by
  rw [startsWith, List.isPrefixOf_iff_prefix]
  exact ⟨fun ⟨rest, h⟩ => ⟨rest, h.symm⟩, fun ⟨rest, h⟩ => ⟨rest, h.symm⟩⟩

/-- Words that begin with different characters do not begin the same text. -/
theorem startsWith_other (h : startsWith text word = true) (first : word.toList.head? = some c)
    (apart : other.toList.head?.any (· ≠ c) = true) : startsWith text other = false := by
  unfold startsWith at h ⊢
  obtain ⟨rest, rfl⟩ := List.isPrefixOf_iff_prefix.mp h
  cases hword : word.toList with
  | nil => simp [hword] at first
  | cons d word' =>
    cases hother : other.toList with
    | nil => simp [hother] at apart
    | cons d' other' =>
      have hne : d' ≠ d := by simp_all
      simp [List.isPrefixOf, hne]

end MiniDiscord.Text
