/-!
# UTF-8 over lists of bytes

Lean's encoder and decoder, as functions on lists. No character's bytes begin another character's,
so an encoded text can be cut between characters only.
-/

namespace MiniDiscord.Utf8

def encode (text : List Char) : List UInt8 := text.flatMap String.utf8EncodeChar

/-- `str::from_utf8`; `none` on bytes that are no UTF-8. -/
def decode (bytes : List UInt8) : Option (List Char) :=
  bytes.toByteArray.utf8Decode?.map Array.toList

variable {text text' : List Char} {bytes : List UInt8}

@[simp] theorem encode_nil : encode [] = [] := rfl

theorem encode_append (text text' : List Char) :
    encode (text ++ text') = encode text ++ encode text' :=
  List.flatMap_append

theorem encode_flatten (texts : List (List Char)) :
    encode texts.flatten = (texts.map encode).flatten := by
  induction texts with
  | nil => rfl
  | cons text texts ih =>
    rw [List.flatten_cons, encode_append, ih, List.map_cons, List.flatten_cons]

theorem toByteArray_encode (text : List Char) : (encode text).toByteArray = text.utf8Encode := by
  rw [encode, List.utf8Encode]

@[simp] theorem decode_encode (text : List Char) : decode (encode text) = some text := by
  rw [decode, toByteArray_encode, List.utf8Decode?_utf8Encode]
  rfl

theorem encode_of_decode (h : decode bytes = some text) : encode text = bytes := by
  rw [decode, Option.map_eq_some_iff] at h
  obtain ⟨chars, hchars, rfl⟩ := h
  have hvalid : bytes.toByteArray.utf8Decode?.isSome := by rw [hchars]; rfl
  have hget : bytes.toByteArray.utf8Decode?.get hvalid = chars := by simp [hchars]
  rw [← List.toByteArray_inj, toByteArray_encode, ← hget, ByteArray.utf8Encode_get_utf8Decode?]

theorem encode_injective (h : encode text = encode text') : text = text' := by
  have hdecode := decode_encode text
  rw [h, decode_encode] at hdecode
  exact (Option.some.inj hdecode).symm

/-- Whole characters at the front of an encoded text are the first characters of the text. -/
theorem prefix_of_encode (h : encode text ++ bytes = encode text') : text <+: text' := by
  refine List.isPrefix_of_utf8Encode_append_eq_utf8Encode bytes.toByteArray ?_
  rw [← toByteArray_encode, ← toByteArray_encode, ← h, List.toByteArray_append]

theorem encode_of_prefix (h : encode text ++ bytes = encode text') :
    ∃ rest, text' = text ++ rest ∧ bytes = encode rest := by
  obtain ⟨rest, rfl⟩ := prefix_of_encode h
  rw [encode_append] at h
  exact ⟨rest, rfl, List.append_cancel_left h⟩

theorem decode_cut {c : Char} {k : Nat} (start : 0 < k)
    (cut : k < (String.utf8EncodeChar c).length) :
    decode (encode text ++ (String.utf8EncodeChar c).take k) = none := by
  cases hdecode : decode (encode text ++ (String.utf8EncodeChar c).take k) with
  | none => rfl
  | some whole =>
    obtain ⟨rest, -, hrest⟩ := encode_of_prefix (encode_of_decode hdecode).symm
    have hc : encode [c] = String.utf8EncodeChar c := by simp [encode]
    have hwhole : encode rest ++ (String.utf8EncodeChar c).drop k = encode [c] := by
      rw [← hrest, List.take_append_drop, hc]
    have hprefix : rest <+: [c] := prefix_of_encode hwhole
    have hlength := congrArg List.length hrest
    rw [List.length_take, Nat.min_eq_left (Nat.le_of_lt cut)] at hlength
    rcases List.prefix_cons_iff.mp hprefix with rfl | ⟨tail, rfl, htail⟩
    · rw [encode_nil, List.length_nil] at hlength
      omega
    · rw [List.prefix_nil.mp htail, hc] at hlength
      omega

/-- The byte of the newline. -/
def newline : UInt8 := 0x0A

theorem newline_ofNat {n : Nat} (bound : n < 256) (h : newline = UInt8.ofNat n) : n = 10 := by
  have htoNat := congrArg UInt8.toNat h
  rw [UInt8.toNat_ofNat', Nat.mod_eq_of_lt bound] at htoNat
  exact htoNat.symm

/-- The bytes of a longer character are all from `0x80` on. -/
theorem newline_mem_encodeChar {c : Char} (h : newline ∈ String.utf8EncodeChar c) : c = '\n' := by
  have hbyte : ∀ n, n < 256 → 128 ≤ n → newline ≠ UInt8.ofNat n := fun n bound hn heq => by
    have := newline_ofNat bound heq
    omega
  unfold String.utf8EncodeChar at h
  dsimp only at h
  split at h
  · have hval := newline_ofNat (by omega) (List.mem_singleton.mp h)
    exact Char.ext (UInt32.toNat_inj.mp hval)
  · simp only [apply_ite (newline ∈ ·), List.mem_cons, List.not_mem_nil, or_false] at h
    split at h
    · rcases h with h | h <;> exact absurd h (hbyte _ (by omega) (by omega))
    · split at h
      · rcases h with h | h | h <;> exact absurd h (hbyte _ (by omega) (by omega))
      · rcases h with h | h | h | h <;> exact absurd h (hbyte _ (by omega) (by omega))

theorem newline_mem_encode : newline ∈ encode text ↔ '\n' ∈ text := by
  rw [encode, List.mem_flatMap]
  constructor
  · rintro ⟨c, hc, hnewline⟩
    exact newline_mem_encodeChar hnewline ▸ hc
  · exact fun h => ⟨'\n', h, by decide⟩

end MiniDiscord.Utf8
