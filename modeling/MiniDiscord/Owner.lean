import Mathlib.Data.Nat.Notation
import Mathlib.Tactic.SplitIfs

/-!
# Which two servers hold a key

`init_state` accepts no id but `A`, `B` and `C`. The hash is a parameter: nothing below depends on
which function `DefaultHasher` computes.
-/

namespace MiniDiscord

inductive ServerId
  | A | B | C
deriving DecidableEq, Repr

structure LocationConfig where
  primary : ServerId
  backup : ServerId
deriving DecidableEq, Repr

/-- The three owner pairs. The source's last branch, a panic, is never reached: `h % 3 < 3`. -/
def ownerOfHash (h : ℕ) : LocationConfig :=
  if h % 3 = 0 then ⟨.A, .B⟩
  else if h % 3 = 1 then ⟨.B, .C⟩
  else ⟨.C, .A⟩

variable (hash : String → ℕ)

def userOwner (username : String) : LocationConfig := ownerOfHash (hash username)

def channelOwner (channelName : String) : LocationConfig :=
  if channelName = "#cs249" then ⟨.A, .B⟩
  else if channelName = "#distributed" then ⟨.B, .C⟩
  else if channelName = "#systems" then ⟨.C, .A⟩
  else ownerOfHash (hash channelName)

theorem ownerOfHash_ne (h : ℕ) : (ownerOfHash h).primary ≠ (ownerOfHash h).backup := by
  unfold ownerOfHash
  split_ifs <;> decide

theorem userOwner_ne (username : String) :
    (userOwner hash username).primary ≠ (userOwner hash username).backup := ownerOfHash_ne _

theorem channelOwner_ne (channelName : String) :
    (channelOwner hash channelName).primary ≠ (channelOwner hash channelName).backup := by
  unfold channelOwner
  split_ifs
  · decide
  · decide
  · decide
  · exact ownerOfHash_ne _

end MiniDiscord
