import Mathlib.Data.List.Pairwise
import Mathlib.Data.List.Sort
import Mathlib.Order.Defs.LinearOrder

/-!
# Sets ordered by a key

A set whose order looks at a key only: two elements with one key count as the same element, and
an insert that meets such an element leaves the set as it is.
-/

namespace MiniDiscord

/-- The elements in order, no two with the same key. -/
structure KeySet {α κ : Type*} [LinearOrder κ] (key : α → κ) where
  elems : List α
  sorted : elems.Pairwise fun a b => key a < key b

namespace KeySet

variable {α κ : Type*} [LinearOrder κ] {key : α → κ}

instance [DecidableEq α] : DecidableEq (KeySet key) := fun s t =>
  decidable_of_iff (s.elems = t.elems) ⟨fun h => by cases s; cases t; simpa using h, congrArg _⟩

instance : Membership α (KeySet key) := ⟨fun s a => a ∈ s.elems⟩

theorem mem_elems {s : KeySet key} {a : α} : a ∈ s.elems ↔ a ∈ s := Iff.rfl

def empty : KeySet key := ⟨[], .nil⟩

@[simp] theorem not_mem_empty (a : α) : a ∉ (empty : KeySet key) := List.not_mem_nil

def size (s : KeySet key) : Nat := s.elems.length

@[simp] theorem size_empty : (empty : KeySet key).size = 0 := rfl

/-- Whether an element of the set has this key. -/
def HasKey (s : KeySet key) (k : κ) : Prop := ∃ a ∈ s, key a = k

instance (s : KeySet key) (k : κ) : Decidable (s.HasKey k) :=
  inferInstanceAs (Decidable (∃ a ∈ s.elems, key a = k))

theorem eq_of_key {s : KeySet key} {a b : α} (ha : a ∈ s) (hb : b ∈ s) (h : key a = key b) :
    a = b := by
  by_contra hne
  have hkeys : s.elems.Pairwise fun c d => key c ≠ key d := s.sorted.imp ne_of_lt
  have : Std.Symm fun c d : α => key c ≠ key d := ⟨fun _ _ => Ne.symm⟩
  exact hkeys.forall ha hb hne h

theorem nodup (s : KeySet key) : s.elems.Nodup :=
  s.sorted.imp fun hlt => by rintro rfl; exact lt_irrefl _ hlt

theorem ext_mem {s t : KeySet key} (h : ∀ a, a ∈ s ↔ a ∈ t) : s = t := by
  have hperm : s.elems.Perm t.elems := (List.perm_ext_iff_of_nodup s.nodup t.nodup).mpr h
  have hle : ∀ a b, a ∈ s.elems → b ∈ t.elems → key a < key b → key b < key a → a = b :=
    fun _ _ _ _ hab hba => absurd hab (lt_asymm hba)
  have heq := hperm.eq_of_pairwise hle s.sorted t.sorted
  cases s; cases t; simpa using heq

/-! ## Insert -/

theorem sorted_orderedInsert (s : KeySet key) (m : α) (h : ¬ s.HasKey (key m)) :
    (s.elems.orderedInsert (fun a b => key a ≤ key b) m).Pairwise fun a b => key a < key b := by
  have hle : (s.elems.orderedInsert (fun a b => key a ≤ key b) m).Pairwise
      fun a b => key a ≤ key b := by
    have : IsTrans α fun a b => key a ≤ key b := ⟨fun _ _ _ => le_trans⟩
    have : Std.Total fun a b : α => key a ≤ key b := ⟨fun a b => le_total _ _⟩
    exact (s.sorted.imp le_of_lt).orderedInsert m _
  have hperm := List.perm_orderedInsert (fun a b : α => key a ≤ key b) m s.elems
  have hne : (s.elems.orderedInsert (fun a b => key a ≤ key b) m).Pairwise
      fun a b => key a ≠ key b := by
    refine (hperm.pairwise_iff fun h => Ne.symm h).mpr (List.pairwise_cons.mpr ⟨?_, ?_⟩)
    · intro b hb hkey
      exact h ⟨b, hb, hkey.symm⟩
    · exact s.sorted.imp ne_of_lt
  exact hle.imp₂ (fun _ _ h1 h2 => lt_of_le_of_ne h1 h2) hne

/-- Inserts unless an element with the same key is there, and says whether it did. -/
def insert (s : KeySet key) (m : α) : KeySet key × Bool :=
  if h : s.HasKey (key m) then (s, false) else (⟨_, s.sorted_orderedInsert m h⟩, true)

theorem insert_snd (s : KeySet key) (m : α) : (s.insert m).2 = !decide (s.HasKey (key m)) := by
  unfold insert
  split <;> simp [*]

theorem mem_insert {s : KeySet key} {m a : α} :
    a ∈ (s.insert m).1 ↔ a ∈ s ∨ (a = m ∧ ¬ s.HasKey (key m)) := by
  unfold insert
  split
  · simp [*]
  · simp only [← mem_elems, List.mem_orderedInsert, *, not_false_eq_true, and_true]
    exact or_comm

theorem mem_insert_of_mem {s : KeySet key} {m a : α} (h : a ∈ s) : a ∈ (s.insert m).1 :=
  mem_insert.mpr (Or.inl h)

theorem mem_insert_self {s : KeySet key} {m : α} (h : ¬ s.HasKey (key m)) : m ∈ (s.insert m).1 :=
  mem_insert.mpr (Or.inr ⟨rfl, h⟩)

theorem size_insert (s : KeySet key) (m : α) :
    (s.insert m).1.size = s.size + (s.insert m).2.toNat := by
  unfold insert size
  split <;> simp [List.orderedInsert_length]

theorem orderedInsert_last {elems : List α} {m : α} (h : ∀ a ∈ elems, key a < key m) :
    elems.orderedInsert (fun a b => key a ≤ key b) m = elems ++ [m] := by
  induction elems with
  | nil => rfl
  | cons a elems ih =>
    have hle : ¬ key m ≤ key a := not_le_of_gt (h a List.mem_cons_self)
    rw [List.orderedInsert, if_neg hle, ih fun b hb => h b (List.mem_cons_of_mem a hb)]
    rfl

/-- An element with the greatest key goes to the end. -/
theorem insert_last {s : KeySet key} {m : α} (h : ∀ a ∈ s, key a < key m) :
    (s.insert m).1.elems = s.elems ++ [m] := by
  have hnew : ¬ s.HasKey (key m) := by
    rintro ⟨a, ha, hkey⟩
    exact absurd (h a ha) (not_lt_of_ge (le_of_eq hkey.symm))
  rw [insert, dif_neg hnew]
  exact orderedInsert_last h

end KeySet

end MiniDiscord
