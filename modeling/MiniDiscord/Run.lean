import Mathlib.Data.List.Induction

/-!
# Runs of a partial step function

`Exec step ok s es s'` is a run: the events `es` lead from `s` to `s'`, and `ok` holds of
every step taken. The rules below turn a fact about one step into a fact about a run.
-/

namespace MiniDiscord.Run

variable {σ ε : Type*}

inductive Exec (step : σ → ε → Option σ) (ok : σ → ε → Prop) (s : σ) : List ε → σ → Prop
  | nil : Exec step ok s [] s
  | snoc {es : List ε} {m s' : σ} {e : ε} (run : Exec step ok s es m) (allowed : ok m e)
      (taken : step m e = some s') : Exec step ok s (es ++ [e]) s'

variable {step : σ → ε → Option σ} {ok ok' : σ → ε → Prop} {s m s' : σ} {es es' : List ε}

theorem Exec.mono (h : ∀ m e, ok m e → ok' m e) (run : Exec step ok s es s') :
    Exec step ok' s es s' := by
  induction run with
  | nil => exact .nil
  | snoc _ allowed taken ih => exact .snoc ih (h _ _ allowed) taken

/-- What every allowed step preserves holds at the end of a run. -/
theorem Exec.invariant {P : σ → Prop} (run : Exec step ok s es s') (init : P s)
    (preserved : ∀ m e m', P m → ok m e → step m e = some m' → P m') : P s' := by
  induction run with
  | nil => exact init
  | snoc _ allowed taken ih => exact preserved _ _ _ ih allowed taken

/-- The same, for a property of the state and of the events that led to it. -/
theorem Exec.history {P : List ε → σ → Prop} (run : Exec step ok s es s') (init : P [] s)
    (preserved : ∀ es m e m', Exec step ok s es m → P es m → ok m e → step m e = some m' →
      P (es ++ [e]) m') : P es s' := by
  induction run with
  | nil => exact init
  | snoc run allowed taken ih => exact preserved _ _ _ _ run ih allowed taken

theorem Exec.append (run : Exec step ok s es m) (run' : Exec step ok m es' s') :
    Exec step ok s (es ++ es') s' := by
  induction run' with
  | nil => simpa using run
  | snoc _ allowed taken ih =>
    rw [← List.append_assoc]
    exact .snoc ih allowed taken

theorem Exec.split (run : Exec step ok s (es ++ es') s') :
    ∃ m, Exec step ok s es m ∧ Exec step ok m es' s' := by
  induction es' using List.reverseRecOn generalizing s' with
  | nil => exact ⟨s', by simpa using run, .nil⟩
  | append_singleton es' e ih =>
    rw [← List.append_assoc] at run
    generalize hes : es ++ es' ++ [e] = all at run
    cases run with
    | nil => simp at hes
    | snoc run allowed taken =>
      obtain ⟨rfl, he⟩ := List.append_inj' hes rfl
      obtain rfl : e = _ := by simpa using he
      obtain ⟨m, first, second⟩ := ih run
      exact ⟨m, first, .snoc second allowed taken⟩

/-! ## Running a given list of events -/

/-- Takes the events in order, and stops at the first that is not allowed or not enabled. -/
def run (step : σ → ε → Option σ) (ok : σ → ε → Prop) [∀ s e, Decidable (ok s e)] (s : σ)
    (es : List ε) : Option σ :=
  es.foldlM (fun s e => if ok s e then step s e else none) s

theorem exec_of_run [∀ s e, Decidable (ok s e)] (h : run step ok s es = some s') :
    Exec step ok s es s' := by
  induction es using List.reverseRecOn generalizing s' with
  | nil =>
    obtain rfl : s = s' := by simpa [run] using h
    exact .nil
  | append_singleton es e ih =>
    simp only [run, List.foldlM_append, List.foldlM_cons, List.foldlM_nil, Option.bind_eq_bind,
      Option.bind_eq_some_iff] at h
    obtain ⟨m, first, m', last, he⟩ := h
    obtain rfl : m' = s' := by simpa using he
    split at last
    · exact .snoc (ih first) ‹_› last
    · simp at last

theorem exec_get [∀ s e, Decidable (ok s e)] (h : (run step ok s es).isSome = true) :
    Exec step ok s es ((run step ok s es).get h) :=
  exec_of_run (Option.some_get h).symm

/-- A test that succeeds on the outcome of `run` gives a run that ends in a state passing it. -/
theorem exec_of_test [∀ s e, Decidable (ok s e)] (test : σ → Bool)
    (h : (run step ok s es).any test = true) : ∃ s', Exec step ok s es s' ∧ test s' = true := by
  obtain ⟨s', hs, ht⟩ := (Option.any_eq_true _ _).mp h
  exact ⟨s', exec_of_run hs, ht⟩

/-! ## History variables -/

/-- What `tick` has recorded along the events, starting from `g`. -/
def record {γ : Type*} (step : σ → ε → Option σ) (tick : γ → σ → ε → σ → γ) :
    γ → σ → List ε → γ
  | g, _, [] => g
  | g, s, e :: es => match step s e with
    | none => g
    | some s' => record step tick (tick g s e s') s' es

variable {γ : Type*} {tick : γ → σ → ε → σ → γ} {g : γ}

theorem record_append (run : Exec step ok s es m) (es' : List ε) :
    record step tick g s (es ++ es') = record step tick (record step tick g s es) m es' := by
  induction run generalizing es' with
  | nil => rfl
  | snoc _ _ taken ih =>
    rw [List.append_assoc, ih, ih]
    simp [record, taken]

theorem record_snoc {e : ε} (run : Exec step ok s es m) (taken : step m e = some s') :
    record step tick g s (es ++ [e]) = tick (record step tick g s es) m e s' := by
  rw [record_append run]
  simp [record, taken]

/-- The system that carries the history variable in its state, so that a run's conditions can look
at it. -/
def withHistory (step : σ → ε → Option σ) (tick : γ → σ → ε → σ → γ) (x : σ × γ) (e : ε) :
    Option (σ × γ) :=
  (step x.1 e).map fun s' => (s', tick x.2 x.1 e s')

theorem withHistory_taken {x x' : σ × γ} {e : ε} (h : withHistory step tick x e = some x') :
    step x.1 e = some x'.1 ∧ x'.2 = tick x.2 x.1 e x'.1 := by
  obtain ⟨s', taken, rfl⟩ := Option.map_eq_some_iff.mp h
  exact ⟨taken, rfl⟩

theorem Exec.forget {x x' : σ × γ} {okx : σ × γ → ε → Prop}
    (run : Exec (withHistory step tick) okx x es x') (h : ∀ x e, okx x e → ok x.1 e) :
    Exec step ok x.1 es x'.1 := by
  induction run with
  | nil => exact .nil
  | snoc _ allowed taken ih => exact .snoc ih (h _ _ allowed) (withHistory_taken taken).1

end MiniDiscord.Run
