import MiniDiscord.Forever
import MiniDiscord.Program

/-!
# One call among others

What can be said of one call of a pool, whatever the others do between its sections. A program is a
finite tree, so that a call that gets its turns comes to an end. How it ends, and what it has done
by then, is read off the tree.
-/

namespace MiniDiscord

namespace Program

variable {ι σ α β : Type} {Ans : ι → Type}

/-- `Q` holds of every section that the program can enter, and of what it does next. -/
def Everywhere (Q : (i : ι) → (Ans i → Program ι Ans α) → Prop) : Program ι Ans α → Prop
  | locked i next => Q i next ∧ ∀ a, (next a).Everywhere Q
  | _ => True

/-- The program enters sections of `P` only. -/
abbrev Only (P : ι → Prop) (t : Program ι Ans α) : Prop := t.Everywhere fun i _ => P i

/-- The program does not return before it has been in a section of `P`. -/
def Passes (P : ι → Prop) : Program ι Ans α → Prop
  | done _ => False
  | panicked => True
  | locked i next => P i ∨ ∀ a, (next a).Passes P

/-- Whatever others do, the program does not panic if its own sections run only when they may. -/
def Sure (exec : (i : ι) → σ → Option (Ans i × σ)) (R : Protocol ι σ) :
    Program ι Ans α → σ → Prop
  | done _, _ => True
  | panicked, _ => False
  | locked i next, s => ∀ s', R.grows s s' → R.inv s' → R.may i s' →
      ∃ a s'', exec i s' = some (a, s'') ∧ (next a).Sure exec R s''

variable {P : ι → Prop} {t : Program ι Ans α}
  {exec : (i : ι) → σ → Option (Ans i × σ)} {R : Protocol ι σ} {s s' : σ}

theorem Only.map (h : t.Only P) (f : α → β) : (f <$> t).Only P := by
  induction t with
  | done a => trivial
  | panicked => trivial
  | locked i next ih => exact ⟨h.1, fun a => ih a (h.2 a)⟩

theorem Only.bind {f : α → Program ι Ans β} (h : t.Only P) (hf : ∀ a, (f a).Only P) :
    (t >>= f).Only P := by
  induction t with
  | done a => exact hf a
  | panicked => trivial
  | locked i next ih => exact ⟨h.1, fun a => ih a (h.2 a)⟩

theorem Sure.grows (h : t.Sure exec R s) (grows : R.grows s s') : t.Sure exec R s' := by
  cases t with
  | done a => trivial
  | panicked => exact h
  | locked i next => exact fun s'' hs => h s'' (R.trans grows hs)

end Program

namespace Pool

open Run (Forever WeaklyFair)

variable {ι κ σ α : Type} {Ans : ι → Type} {exec : (i : ι) → σ → Option (Ans i × σ)}
  {start : κ → Program ι Ans α} {p p' : Pool ι Ans κ σ α} {e : PoolEvent κ} {n : ℕ} {k : κ}
  {prog : Program ι Ans α} {Q : (i : ι) → (Ans i → Program ι Ans α) → Prop} {P : ι → Prop}
  {R : Protocol ι σ}

/-! ## One step -/

/-- What the event does to the call: nothing, or it is the call's own, and its section runs or
fails. -/
inductive Turn (exec : (i : ι) → σ → Option (Ans i × σ)) (n : ℕ) (p p' : Pool ι Ans κ σ α)
    (e : Option (PoolEvent κ)) : Program ι Ans α → Program ι Ans α → Prop
  | waits (prog : Program ι Ans α) (other : e ≠ some (.step n)) : Turn exec n p p' e prog prog
  | runs (i : ι) (next : Ans i → Program ι Ans α) (a : Ans i) (own : e = some (.step n))
      (healthy : p.poisoned = false) (answer : exec i p.store = some (a, p'.store)) :
      Turn exec n p p' e (.locked i next) (next a)
  | fails (i : ι) (next : Ans i → Program ι Ans α) (own : e = some (.step n))
      (why : p.poisoned = true ∨ exec i p.store = none) :
      Turn exec n p p' e (.locked i next) .panicked

theorem turn_step (taken : p.step exec start e = some p') (call : p.calls[n]? = some (k, prog)) :
    ∃ prog', p'.calls[n]? = some (k, prog') ∧ Turn exec n p p' (some e) prog prog' := by
  have hlt : n < p.calls.length := (List.getElem?_eq_some_iff.mp call).1
  cases step_cases taken with
  | called k' =>
    exact ⟨prog, by rw [List.getElem?_append_left hlt, call], .waits prog nofun⟩
  | ran m k' i next a s call' healthy runs =>
    by_cases hm : m = n
    · subst hm
      obtain ⟨rfl, rfl⟩ := Prod.mk.inj (Option.some.inj (call.symm.trans call'))
      exact ⟨next a, by rw [List.getElem?_set_self hlt], .runs i next a rfl healthy runs⟩
    · exact ⟨prog, by rw [List.getElem?_set_ne hm, call], .waits prog (by simpa using hm)⟩
  | failed m k' i next call' fails =>
    by_cases hm : m = n
    · subst hm
      obtain ⟨rfl, rfl⟩ := Prod.mk.inj (Option.some.inj (call.symm.trans call'))
      exact ⟨.panicked, by rw [List.getElem?_set_self hlt], .fails i next rfl fails⟩
    · exact ⟨prog, by rw [List.getElem?_set_ne hm, call], .waits prog (by simpa using hm)⟩

theorem only_step (started : ∀ k, (start k).Only P) (h : ∀ call ∈ p.calls, call.2.Only P)
    (taken : p.step exec start e = some p') : ∀ call ∈ p'.calls, call.2.Only P := by
  intro call hcall
  cases step_cases taken with
  | called k =>
    rcases List.mem_append.mp hcall with hcall | hcall
    · exact h call hcall
    · obtain rfl := List.mem_singleton.mp hcall
      exact started k
  | ran n k i next a s found =>
    rcases List.mem_or_eq_of_mem_set hcall with hcall | rfl
    · exact h call hcall
    · exact (h _ (List.mem_of_getElem? found)).2 a
  | failed n k i next found =>
    rcases List.mem_or_eq_of_mem_set hcall with hcall | rfl
    · exact h call hcall
    · trivial

/-! ## Endless runs -/

variable {state : ℕ → Pool ι Ans κ σ α} {event : ℕ → Option (PoolEvent κ)} {t t' : ℕ}

theorem turn_next (run : Forever (step exec start) p state event)
    (call : (state t).calls[n]? = some (k, prog)) : ∃ prog',
    (state (t + 1)).calls[n]? = some (k, prog') ∧
      Turn exec n (state t) (state (t + 1)) (event t) prog prog' := by
  cases he : event t with
  | none => exact ⟨prog, by rw [run.idle t he, call], .waits prog nofun⟩
  | some e => exact turn_step (run.taken t e he) call

/-- **The rule.** What every turn keeps, whoever takes it, stays. -/
theorem turns_keep (run : Forever (step exec start) p state event)
    {I : Program ι Ans α → ℕ → Prop} (call : (state t).calls[n]? = some (k, prog)) (init : I prog t)
    (kept : ∀ m ≥ t, ∀ prog prog', I prog m → (state m).calls[n]? = some (k, prog) →
      Turn exec n (state m) (state (m + 1)) (event m) prog prog' → I prog' (m + 1))
    (later : t ≤ t') : ∃ prog', (state t').calls[n]? = some (k, prog') ∧ I prog' t' := by
  induction t', later using Nat.le_induction with
  | base => exact ⟨prog, call, init⟩
  | succ m hm ih =>
    obtain ⟨prog', hcall, hI⟩ := ih
    obtain ⟨prog'', hnext, turn⟩ := turn_next run hcall
    exact ⟨prog'', hnext, kept m hm prog' prog'' hI hcall turn⟩

theorem everywhere_later (run : Forever (step exec start) p state event)
    (call : (state t).calls[n]? = some (k, prog)) (h : prog.Everywhere Q) (later : t ≤ t') :
    ∃ prog', (state t').calls[n]? = some (k, prog') ∧ prog'.Everywhere Q := by
  refine turns_keep run (I := fun prog _ => prog.Everywhere Q) call h ?_ later
  intro m _ prog prog' h _ turn
  cases turn with
  | waits => exact h
  | runs i next a => exact h.2 a
  | fails => trivial

/-- Before it returns, the call has been in a section of `P`. -/
theorem passes_before (run : Forever (step exec start) p state event)
    (call : (state t).calls[n]? = some (k, prog)) (h : prog.Passes P) (later : t ≤ t') {a : α}
    (returned : (state t').calls[n]? = some (k, .done a)) :
    ∃ m i, t ≤ m ∧ m < t' ∧ event m = some (.step n) ∧ (state m).entering (.step n) = some i ∧
      P i ∧ ∃ a, exec i (state m).store = some (a, (state (m + 1)).store) := by
  obtain ⟨prog', hcall, hpasses⟩ := turns_keep run (I := fun prog t' => prog.Passes P ∨
      ∃ m i, t ≤ m ∧ m < t' ∧ event m = some (.step n) ∧ (state m).entering (.step n) = some i ∧
        P i ∧ ∃ a, exec i (state m).store = some (a, (state (m + 1)).store)) call (Or.inl h) (by
    intro m hm prog prog' h hcall turn
    rcases h with h | ⟨m', i, hle, hlt, hrest⟩
    · cases turn with
      | waits => exact Or.inl h
      | fails => exact Or.inl trivial
      | runs i next a own healthy answer =>
        rcases h with hi | hnext
        · have hentering : (state m).entering (.step n) = some i := by simp [entering, hcall]
          exact Or.inr ⟨m, i, hm, Nat.lt_succ_self m, own, hentering, hi, a, answer⟩
        · exact Or.inl (hnext a)
    · exact Or.inr ⟨m', i, hle, Nat.lt_succ_of_lt hlt, hrest⟩) later
  rcases hpasses with hpasses | hpassed
  · rw [returned] at hcall
    cases hcall
    exact hpasses.elim
  · exact hpassed

/-- A call that is sure where it starts does not panic. -/
theorem sure_later (run : Forever (step exec start) p state event)
    (call : (state t).calls[n]? = some (k, prog)) (h : prog.Sure exec R (state t).store)
    (inv : ∀ m ≥ t, R.inv (state m).store) (healthy : ∀ m ≥ t, (state m).poisoned = false)
    (grows : ∀ m ≥ t, ∀ i next, (state m).calls[n]? = some (k, .locked i next) →
      event m ≠ some (.step n) → R.grows (state m).store (state (m + 1)).store)
    (may : ∀ m ≥ t, ∀ i, event m = some (.step n) → (state m).entering (.step n) = some i →
      R.may i (state m).store) (later : t ≤ t') :
    ∃ prog', (state t').calls[n]? = some (k, prog') ∧ prog'.Sure exec R (state t').store := by
  refine turns_keep run (I := fun prog m => prog.Sure exec R (state m).store) call h ?_ later
  intro m hm prog prog' h hcall turn
  have hrun : ∀ i next, prog = .locked i next → event m = some (.step n) →
      ∃ a s, exec i (state m).store = some (a, s) ∧ (next a).Sure exec R s := by
    rintro i next rfl own
    exact h (state m).store (R.refl _) (inv m hm) (may m hm i own (by simp [entering, hcall]))
  cases turn with
  | waits _ other =>
    cases prog with
    | done => trivial
    | panicked => exact h
    | locked i next => exact h.grows (grows m hm i next hcall other)
  | runs i next a own _ answer =>
    obtain ⟨a', s, hexec, hsure⟩ := hrun i next rfl own
    obtain ⟨rfl, rfl⟩ := Prod.mk.inj (Option.some.inj (answer.symm.trans hexec))
    exact hsure
  | fails i next own why =>
    obtain ⟨a', s, hexec, -⟩ := hrun i next rfl own
    rcases why with hpoisoned | hnone
    · rw [healthy m hm] at hpoisoned
      cases hpoisoned
    · rw [hexec] at hnone
      cases hnone

theorem locked_enabled {i : ι} {next : Ans i → Program ι Ans α}
    (call : p.calls[n]? = some (k, .locked i next)) :
    (p.step exec start (.step n)).isSome = true := by
  simp only [step, call]
  split
  · rfl
  · split <;> rfl

/-- **Every call ends**, if it gets its turns. -/
theorem call_ends (run : Forever (step exec start) p state event)
    (fair : WeaklyFair (step exec start) state event (.step n))
    (call : (state t).calls[n]? = some (k, prog)) :
    ∃ t' ≥ t, ∃ ended, (state t').calls[n]? = some (k, ended) ∧ ended.isOver = true := by
  induction prog generalizing t with
  | done a => exact ⟨t, Nat.le_refl t, _, call, rfl⟩
  | panicked => exact ⟨t, Nat.le_refl t, _, call, rfl⟩
  | locked i next ih =>
    -- the first turn after `t`, if the call never stays where it is
    by_cases hturn : ∃ m ≥ t, (state m).calls[n]? = some (k, .locked i next) ∧
        event m = some (.step n)
    · obtain ⟨m, hm, hcall, own⟩ := hturn
      obtain ⟨prog', hnext, turn⟩ := turn_next run hcall
      cases turn with
      | waits _ other => exact absurd own other
      | runs _ _ a =>
        obtain ⟨t', ht', hover⟩ := ih a hnext
        exact ⟨t', by omega, hover⟩
      | fails => exact ⟨m + 1, by omega, _, hnext, rfl⟩
    · have hstays : ∀ t' ≥ t, (state t').calls[n]? = some (k, .locked i next) := by
        intro t' ht'
        obtain ⟨prog', hcall, rfl⟩ := turns_keep run
          (I := fun prog _ => prog = .locked i next) call rfl (by
            rintro m hm _ prog' rfl hcall turn
            cases turn with
            | waits => rfl
            | runs _ _ _ own => exact absurd ⟨m, hm, hcall, own⟩ hturn
            | fails _ _ own => exact absurd ⟨m, hm, hcall, own⟩ hturn) ht'
        exact hcall
      obtain ⟨t', ht', own⟩ := fair t fun t' ht' => locked_enabled (hstays t' ht')
      exact absurd ⟨t', ht', hstays t' ht', own⟩ hturn

end Pool

end MiniDiscord
