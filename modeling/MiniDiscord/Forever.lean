import Mathlib.Data.Nat.Init
import MiniDiscord.Run

/-!
# Runs that go on for ever

At each moment of an endless run one event is taken, or nothing happens. A goal is reached when
something goes on happening, every step that it takes lowers a rank, and no other step raises it.
-/

namespace MiniDiscord.Run

variable {σ ε : Type*}

structure Forever (step : σ → ε → Option σ) (s : σ) (state : ℕ → σ) (event : ℕ → Option ε) :
    Prop where
  init : state 0 = s
  idle : ∀ t, event t = none → state (t + 1) = state t
  taken : ∀ t e, event t = some e → step (state t) e = some (state (t + 1))

/-- Weak fairness: an event that stays enabled is taken in the end. -/
def WeaklyFair (step : σ → ε → Option σ) (state : ℕ → σ) (event : ℕ → Option ε) (e : ε) : Prop :=
  ∀ t, (∀ t' ≥ t, (step (state t') e).isSome = true) → ∃ t' ≥ t, event t' = some e

variable {step : σ → ε → Option σ} {s : σ} {state : ℕ → σ} {event : ℕ → Option ε}

/-- Each state of an endless run ends a finite one. -/
theorem Forever.exec (run : Forever step s state event) (t : ℕ) :
    ∃ es, Exec step (fun _ _ => True) s es (state t) := by
  induction t with
  | zero => exact ⟨[], run.init ▸ .nil⟩
  | succ t ih =>
    obtain ⟨es, hes⟩ := ih
    cases he : event t with
    | none => exact ⟨es, run.idle t he ▸ hes⟩
    | some e => exact ⟨es ++ [e], .snoc hes trivial (run.taken t e he)⟩

/-- What every step from some time on keeps, stays. -/
theorem Forever.stays (run : Forever step s state event) {P : σ → Prop} {t t' : ℕ}
    (start : P (state t)) (preserved : ∀ k ≥ t, ∀ e m', P (state k) → event k = some e →
      step (state k) e = some m' → P m') (later : t ≤ t') : P (state t') := by
  induction t', later using Nat.le_induction with
  | base => exact start
  | succ k hk ih =>
    cases he : event k with
    | none => rwa [run.idle k he]
    | some e => exact preserved k hk e _ ih he (run.taken k e he)

/-! ## Ranks -/

section Rank

variable {pending goal moved : ℕ → Prop} (rank : ℕ → ℕ)

/-- Until the goal is reached the rank does not rise. -/
theorem pending_until
    (step : ∀ t, pending t → goal (t + 1) ∨ pending (t + 1) ∧ rank (t + 1) ≤ rank t) {t t' : ℕ}
    (start : pending t) (later : t ≤ t') :
    (∃ k, t < k ∧ goal k) ∨ pending t' ∧ rank t' ≤ rank t := by
  induction t', later using Nat.le_induction with
  | base => exact Or.inr ⟨start, Nat.le_refl _⟩
  | succ k hk ih =>
    rcases ih with hgoal | ⟨hpending, hrank⟩
    · exact Or.inl hgoal
    · rcases step k hpending with hgoal | ⟨hnext, hle⟩
      · exact Or.inl ⟨k + 1, by omega, hgoal⟩
      · exact Or.inr ⟨hnext, Nat.le_trans hle hrank⟩

/-- **The rule.** What is pending reaches its goal, if it goes on moving and each of its moves
lowers the rank. -/
theorem reaches_goal
    (step : ∀ t, pending t → goal (t + 1) ∨ pending (t + 1) ∧ rank (t + 1) ≤ rank t ∧
      (moved t → rank (t + 1) < rank t))
    (goes_on : ∀ t, pending t → ∃ t' ≥ t, moved t') {t : ℕ} (start : pending t) :
    ∃ t' > t, goal t' := by
  have hstep : ∀ t, pending t → goal (t + 1) ∨ pending (t + 1) ∧ rank (t + 1) ≤ rank t :=
    fun t ht => (step t ht).imp_right fun h => ⟨h.1, h.2.1⟩
  induction hr : rank t using Nat.strong_induction_on generalizing t with
  | _ n ih =>
    obtain ⟨m, hm, hmoved⟩ := goes_on t start
    rcases pending_until rank hstep start hm with ⟨k, hk, hgoal⟩ | ⟨hpending, hrank⟩
    · exact ⟨k, hk, hgoal⟩
    · rcases step m hpending with hgoal | ⟨hnext, -, hlt⟩
      · exact ⟨m + 1, by omega, hgoal⟩
      · obtain ⟨k, hk, hgoal⟩ := ih _ (by have := hlt hmoved; omega) hnext rfl
        exact ⟨k, by omega, hgoal⟩

end Rank

/-! ## Running a given sequence of events -/

/-- The states that the events lead through. An event that is not enabled is left out. -/
def unrolled (step : σ → ε → Option σ) (s : σ) (event : ℕ → Option ε) : ℕ → σ
  | 0 => s
  | t + 1 => match event t with
    | none => unrolled step s event t
    | some e => (step (unrolled step s event t) e).getD (unrolled step s event t)

theorem forever_unrolled
    (enabled : ∀ t e, event t = some e → (step (unrolled step s event t) e).isSome = true) :
    Forever step s (unrolled step s event) event where
  init := rfl
  idle t he := by simp only [unrolled, he]
  taken t e he := by
    obtain ⟨s', hs'⟩ := Option.isSome_iff_exists.mp (enabled t e he)
    simp only [unrolled, he, hs', Option.getD_some]

/-- After the last event nothing changes. -/
theorem unrolled_end {n : ℕ} (last : ∀ t ≥ n, event t = none) {t : ℕ} (later : n ≤ t) :
    unrolled step s event t = unrolled step s event n := by
  induction t, later using Nat.le_induction with
  | base => rfl
  | succ k hk ih => rw [unrolled, last k hk]; exact ih

/-- So the states of a finite sequence are those that it leads through. -/
theorem unrolled_list (es : List ε) (t : ℕ) :
    unrolled step s (fun t => es[t]?) t = unrolled step s (fun t => es[t]?) (min t es.length) := by
  rcases Nat.le_total t es.length with h | h
  · rw [Nat.min_eq_left h]
  · rw [Nat.min_eq_right h]
    exact unrolled_end (fun k hk => List.getElem?_eq_none hk) h

end MiniDiscord.Run
