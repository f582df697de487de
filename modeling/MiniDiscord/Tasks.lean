import MiniDiscord.Program

/-!
# Tasks that make calls

A front end turns what its clients want into tasks, over the same store as the calls of a pool. If
a task makes one call at most and only presents the answer, each run of the tasks is one of their
calls.
-/

namespace MiniDiscord

namespace Program

variable {ι κ σ α β γ : Type} {Ans : ι → Type} {start : κ → Program ι Ans α}
  {t : Program ι Ans β}

/-- What the task gives its client is decided at once, or it is the answer of one call. -/
inductive Makes (start : κ → Program ι Ans α) (t : Program ι Ans β) : Prop
  | nothing (ends : t.isOver = true)
  | call (k : κ) (present : α → β) (made : t = present <$> start k)

theorem Makes.map (h : t.Makes start) (f : β → γ) : (f <$> t).Makes start := by
  cases h with
  | nothing ends =>
    refine .nothing ?_
    cases t with
    | done | panicked => rfl
    | locked => cases ends
  | call k present made =>
    subst made
    exact .call k (fun a => f (present a)) (Functor.map_map _ _ _)

section Safe

variable {exec : (i : ι) → σ → Option (Ans i × σ)} {R : Protocol ι σ} {post : β → σ → Prop}
  {P : σ → Prop} {s : σ}

theorem Safe.of_map {t : Program ι Ans α} {f : α → β} (h : (f <$> t).Safe exec R post s) :
    t.Safe exec R (fun a => post (f a)) s := by
  induction t generalizing s with
  | done a => exact h
  | panicked => trivial
  | locked i next ih =>
    intro s' grows inv may
    obtain ⟨a, s'', hexec, inv', grows', hnext⟩ := h s' grows inv may
    exact ⟨a, s'', hexec, inv', grows', ih a hnext⟩

/-- What the others keep is still there at the end. -/
theorem Safe.stays (h : t.Safe exec R post s) (init : P s)
    (kept : ∀ s s', R.grows s s' → P s → P s') :
    t.Safe exec R (fun b s => post b s ∧ P s) s := by
  induction t generalizing s with
  | done b => exact fun s' grows inv => ⟨h s' grows inv, kept s s' grows init⟩
  | panicked => trivial
  | locked i next ih =>
    intro s' grows inv may
    obtain ⟨a, s'', hexec, inv', grows', hnext⟩ := h s' grows inv may
    exact ⟨a, s'', hexec, inv', grows', ih a hnext (kept s s'' (R.trans grows grows') init)⟩

end Safe

end Program

namespace Pool

variable {ι κ τ σ α β : Type} {Ans : ι → Type} {exec : (i : ι) → σ → Option (Ans i × σ)}
  {start : κ → Program ι Ans α} {begin : τ → Program ι Ans β}

/-- The calls that the tasks have made, in this order, with what is left of each. -/
inductive Made (start : κ → Program ι Ans α) (begin : τ → Program ι Ans β) :
    List (τ × Program ι Ans β) → List (κ × Program ι Ans α) → Prop
  | nil : Made start begin [] []
  | nothing {tasks : List (τ × Program ι Ans β)} {calls : List (κ × Program ι Ans α)} {t : τ}
      (before : Made start begin tasks calls) (ends : (begin t).isOver = true) :
      Made start begin (tasks ++ [(t, begin t)]) calls
  | call {tasks : List (τ × Program ι Ans β)} {calls : List (κ × Program ι Ans α)} {t : τ} {k : κ}
      {present : α → β} (before : Made start begin tasks calls)
      (made : begin t = present <$> start k) (prog : Program ι Ans α) :
      Made start begin (tasks ++ [(t, present <$> prog)]) (calls ++ [(k, prog)])

/-- The calls of the tasks have the same store. -/
structure Serves (start : κ → Program ι Ans α) (begin : τ → Program ι Ans β)
    (p : Pool ι Ans τ σ β) (q : Pool ι Ans κ σ α) : Prop where
  store : q.store = p.store
  poisoned : q.poisoned = p.poisoned
  made : Made start begin p.calls q.calls

/-- A task is over as it began, or has made a call. -/
inductive Made.At (start : κ → Program ι Ans α) (begin : τ → Program ι Ans β)
    (tasks : List (τ × Program ι Ans β)) (calls : List (κ × Program ι Ans α)) (n : ℕ) (t : τ) :
    Program ι Ans β → Prop
  | nothing (ends : (begin t).isOver = true) : At start begin tasks calls n t (begin t)
  | call (m : ℕ) (k : κ) (present : α → β) (prog : Program ι Ans α)
      (made : begin t = present <$> start k) (found : calls[m]? = some (k, prog))
      (goes : ∀ prog', Made start begin (tasks.set n (t, present <$> prog'))
        (calls.set m (k, prog'))) :
      At start begin tasks calls n t (present <$> prog)

variable {tasks : List (τ × Program ι Ans β)} {calls : List (κ × Program ι Ans α)} {n : ℕ} {t : τ}
  {prog : Program ι Ans β} {p p' : Pool ι Ans τ σ β} {q q' : Pool ι Ans κ σ α}

theorem Made.at (h : Made start begin tasks calls) (task : tasks[n]? = some (t, prog)) :
    Made.At start begin tasks calls n t prog := by
  induction h generalizing prog with
  | nil => cases task
  | nothing before ends ih =>
    rename_i tasks calls t'
    rcases Nat.lt_or_ge n tasks.length with hn | hn
    · rw [List.getElem?_append_left hn] at task
      cases ih task with
      | nothing ends => exact .nothing ends
      | call m k present prog made found goes =>
        refine .call m k present prog made found fun prog' => ?_
        rw [List.set_append_left _ _ hn]
        exact .nothing (goes prog') ends
    · rw [List.getElem?_append_right hn, List.getElem?_singleton] at task
      split_ifs at task
      cases task
      exact .nothing ends
  | call before made prog₁ ih =>
    rename_i tasks calls t' k' present'
    rcases Nat.lt_or_ge n tasks.length with hn | hn
    · rw [List.getElem?_append_left hn] at task
      cases ih task with
      | nothing ends => exact .nothing ends
      | call m k present prog made' found goes =>
        have hm := (List.getElem?_eq_some_iff.mp found).1
        refine .call m k present prog made' ?_ fun prog' => ?_
        · rwa [List.getElem?_append_left hm]
        · rw [List.set_append_left _ _ hn, List.set_append_left _ _ hm]
          exact .call (goes prog') made prog₁
    · rw [List.getElem?_append_right hn, List.getElem?_singleton] at task
      split_ifs at task with hlast
      obtain rfl : n = tasks.length := by omega
      cases task
      refine .call calls.length k' present' prog₁ made List.getElem?_concat_length fun prog' => ?_
      rw [List.set_append_right _ _ (Nat.le_refl _), List.set_append_right _ _ (Nat.le_refl _),
        Nat.sub_self, Nat.sub_self]
      exact .call before made prog'

/-- What the client of a task is given is the answer of its call. -/
theorem Made.answered (h : Made start begin tasks calls) {b : β}
    (task : tasks[n]? = some (t, .done b)) : begin t = .done b ∨ ∃ (m : ℕ) (k : κ) (present : α → β)
      (a : α), begin t = present <$> start k ∧ calls[m]? = some (k, .done a) ∧ b = present a := by
  generalize hprog : Program.done b = prog at task
  cases h.at task with
  | nothing ends => exact Or.inl rfl
  | call m k present prog made found goes =>
    cases prog with
    | done a =>
      cases hprog
      exact Or.inr ⟨m, k, present, a, made, found, rfl⟩
    | panicked | locked => cases hprog

/-- A step of a task is one of its call, with the same section, or none. -/
theorem serves_step (makes : ∀ t, (begin t).Makes start) {e : PoolEvent τ}
    (h : Serves start begin p q) (taken : p.step exec begin e = some p') :
    ∃ q', Serves start begin p' q' ∧ (q' = q ∨ ∃ e', q.step exec start e' = some q' ∧
      ∀ i, q.entering e' = some i → p.entering e = some i) := by
  cases step_cases taken with
  | called t =>
    cases makes t with
    | nothing ends => exact ⟨q, ⟨h.store, h.poisoned, .nothing h.made ends⟩, Or.inl rfl⟩
    | call k present made =>
      refine ⟨{ q with calls := q.calls ++ [(k, start k)] }, ⟨h.store, h.poisoned, ?_⟩,
        Or.inr ⟨.call k, rfl, fun i hi => by cases hi⟩⟩
      rw [made]
      exact .call h.made made _
  | ran n t i next a s call healthy runs =>
    generalize hprog : Program.locked i next = prog at call
    cases h.made.at call with
    | nothing ends =>
      rw [← hprog] at ends
      cases ends
    | call m k present prog made found goes =>
      cases prog with
      | done | panicked => cases hprog
      | locked j next' =>
        cases hprog
        refine ⟨{ q with store := s, calls := q.calls.set m (k, next' a) },
          ⟨rfl, h.poisoned, goes (next' a)⟩, Or.inr ⟨.step m, ?_, fun j' hj => ?_⟩⟩
        · simp [Pool.step, found, h.poisoned, healthy, h.store, runs]
        · simpa [entering, found, call] using hj
  | failed n t i next call fails =>
    generalize hprog : Program.locked i next = prog at call
    cases h.made.at call with
    | nothing ends =>
      rw [← hprog] at ends
      cases ends
    | call m k present prog made found goes =>
      cases prog with
      | done | panicked => cases hprog
      | locked j next' =>
        cases hprog
        refine ⟨{ q with poisoned := true, calls := q.calls.set m (k, .panicked) },
          ⟨h.store, rfl, goes .panicked⟩, Or.inr ⟨.step m, ?_, fun j' hj => ?_⟩⟩
        · rcases fails with hpoisoned | hnone
          · have hq : q.poisoned = true := h.poisoned.trans hpoisoned
            simp [Pool.step, found, hq]
          · cases hq : q.poisoned <;> simp [Pool.step, found, hq, h.store, hnone]
        · simpa [entering, found, call] using hj

/-- **The rule.** A run of the tasks is one of their calls, and the sections run in the same
order at the same store. -/
theorem serves_run (makes : ∀ t, (begin t).Makes start) {P : ι → σ → Prop}
    {es : List (PoolEvent τ)}
    (run : Run.Exec (step exec begin) (fun p e => ∀ i ∈ p.entering e, P i p.store) p es p')
    (h : Serves start begin p q) : ∃ es' q',
      Run.Exec (step exec start) (fun q e => ∀ i ∈ q.entering e, P i q.store) q es' q' ∧
        Serves start begin p' q' := by
  induction run with
  | nil => exact ⟨[], q, .nil, h⟩
  | snoc run allowed taken ih =>
    obtain ⟨es', m, before, hserves⟩ := ih
    obtain ⟨q', hserves', rfl | ⟨e', taken', entering⟩⟩ := serves_step makes hserves taken
    · exact ⟨es', _, before, hserves'⟩
    · refine ⟨es' ++ [e'], q', .snoc before (fun i hi => ?_) taken', hserves'⟩
      rw [hserves.store]
      exact allowed i (entering i hi)

/-- A task may begin where it is safe, and its sections keep all others safe. -/
theorem fine_taken {R : Protocol ι σ} {post : τ → β → σ → Prop} {e : PoolEvent τ}
    (h : p.Fine exec R post)
    (started : ∀ t, e = .call t → (begin t).Safe exec R (post t) p.store)
    (may : ∀ i, p.entering e = some i → R.may i p.store)
    (taken : p.step exec begin e = some p') : p'.Fine exec R post ∧ R.grows p.store p'.store := by
  cases e with
  | call t =>
    cases taken
    refine ⟨⟨h.inv, h.healthy, fun call hcall => ?_⟩, R.refl _⟩
    rcases List.mem_append.mp hcall with hcall | hcall
    · exact h.calls call hcall
    · obtain rfl := List.mem_singleton.mp hcall
      exact started t rfl
  | step n =>
    -- no task begins, so that it does not matter how tasks begin
    have taken' : p.step exec (fun _ => .panicked) (.step n) = some p' := taken
    have hpanicked : ∀ t s, R.inv s → (Program.panicked : Program ι Ans β).Safe exec R (post t) s :=
      fun _ _ _ => trivial
    exact fine_step hpanicked h may taken'

end Pool

end MiniDiscord
