import Mathlib.Data.List.Forall2
import MiniDiscord.Run

/-!
# Histories of a sequential object

An object answers one operation at a time. A list of answered operations is a history of the object
if it gives these answers when it is asked in this order. Concurrent calls are explained by a
history in which each of them has one place, between its beginning and its end.
-/

namespace MiniDiscord

/-- A call by its number, the operation that it took effect as, and the answer. -/
structure Entry (κ α : Type) where
  call : ℕ
  op : κ
  answer : α
deriving DecidableEq

variable {κ σ τ α : Type}

/-- The object gives the answers of the list in this order, and comes from `s` to `s'`. An operation
that fails has no answer. -/
inductive History (object : κ → σ → Option (α × σ)) (s : σ) : List (Entry κ α) → σ → Prop
  | nil : History object s [] s
  | snoc {entries : List (Entry κ α)} {m s' : σ} {e : Entry κ α}
      (before : History object s entries m) (answers : object e.op m = some (e.answer, s')) :
      History object s (entries ++ [e]) s'

variable {object : κ → σ → Option (α × σ)} {object' : κ → τ → Option (α × τ)} {s s' : σ}
  {entries : List (Entry κ α)} {e : Entry κ α}

/-- What the object does at a point where at most one operation takes effect. -/
def Happens (object : κ → σ → Option (α × σ)) (s : σ) : Option (Entry κ α) → σ → Prop
  | none, s' => s' = s
  | some e, s' => object e.op s = some (e.answer, s')

theorem History.happens {m : σ} {point : Option (Entry κ α)} (h : History object s entries m)
    (last : Happens object m point s') : History object s (entries ++ point.toList) s' := by
  cases point with
  | none =>
    obtain rfl : s' = m := last
    simpa using h
  | some e => exact .snoc h last

/-- An object that stands for another one has the same histories. -/
theorem History.represents {P : σ → Prop} {f : σ → τ} (h : History object s entries s')
    (init : P s)
    (step : ∀ k m a m', P m → object k m = some (a, m') → P m' ∧ object' k (f m) = some (a, f m')) :
    P s' ∧ History object' (f s) entries (f s') := by
  induction h with
  | nil => exact ⟨init, .nil⟩
  | snoc before answers ih =>
    obtain ⟨hP, hbefore⟩ := ih
    obtain ⟨hP', hanswers⟩ := step _ _ _ _ hP answers
    exact ⟨hP', .snoc hbefore hanswers⟩

/-- Two lists that correspond entry by entry: where the one object answers, so does the other. -/
theorem History.forall₂ {κ' α' : Type} {object' : κ' → σ → Option (α' × σ)}
    {r : Entry κ α → Entry κ' α' → Prop} {entries' : List (Entry κ' α')}
    (h : History object s entries s') (same : List.Forall₂ r entries entries')
    (step : ∀ e e' m m', r e e' → object e.op m = some (e.answer, m') →
      object' e'.op m = some (e'.answer, m')) : History object' s entries' s' := by
  induction h generalizing entries' with
  | nil =>
    rw [List.forall₂_nil_left_iff.mp same]
    exact .nil
  | snoc before answers ih =>
    have hreverse := List.forall₂_reverse_iff.mpr same
    rw [List.reverse_append, List.reverse_singleton, List.singleton_append] at hreverse
    obtain ⟨e', rest, hr, hrest, heq⟩ := List.forall₂_cons_left_iff.mp hreverse
    obtain rfl : entries' = rest.reverse ++ [e'] := by
      rw [← List.reverse_cons, ← heq, List.reverse_reverse]
    have hbefore := List.forall₂_reverse_iff.mpr hrest
    rw [List.reverse_reverse] at hbefore
    exact .snoc (ih hbefore) (step _ _ _ _ hr answers)

/-- What has taken effect along a run is not changed by what happens later. -/
theorem record_prefix {step : σ → τ → Option σ} (point : σ → τ → σ → Option α) (entries : List α)
    (s : σ) (es : List τ) :
    entries <+: Run.record step (fun entries s e s' => entries ++ (point s e s').toList)
      entries s es := by
  induction es generalizing entries s with
  | nil => exact List.prefix_refl _
  | cons e es ih =>
    unfold Run.record
    cases step s e with
    | none => exact List.prefix_refl _
    | some s' => exact (List.prefix_append _ _).trans (ih _ s')

end MiniDiscord
