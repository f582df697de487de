import Mathlib.Data.List.Basic
import MiniDiscord.Run

/-!
# Programs that share a store under a lock

A program enters critical sections, one after the other. A section runs under the lock at once, and
what comes next depends on the answer. Between two sections of one program those of others may run.

The rule for invariants is that of rely and guarantee: a program is safe at a store if each of its
sections does well at every store that the others may make of it meanwhile.
-/

namespace MiniDiscord

/-- A program over the sections `ι`, with their answers. -/
inductive Program (ι : Type) (Ans : ι → Type) (α : Type) : Type
  | done (a : α)
  | panicked
  | locked (i : ι) (next : Ans i → Program ι Ans α)

/-- What a group of proofs relies on: what holds of the store between sections, how others may
change it, and which sections may run when. -/
structure Protocol (ι σ : Type) where
  inv : σ → Prop
  grows : σ → σ → Prop
  may : ι → σ → Prop
  refl : ∀ s, grows s s
  trans : ∀ {s s' s''}, grows s s' → grows s' s'' → grows s s''

namespace Program

variable {ι κ σ α β γ : Type} {Ans : ι → Type}

def bind (t : Program ι Ans α) (f : α → Program ι Ans β) : Program ι Ans β :=
  match t with
  | done a => f a
  | panicked => panicked
  | locked i next => locked i fun a => (next a).bind f

instance : Monad (Program ι Ans) where
  pure := done
  bind := bind

theorem map_id (t : Program ι Ans α) : id <$> t = t := by
  induction t with
  | done a => rfl
  | panicked => rfl
  | locked i next ih => exact congrArg (locked i) (funext ih)

theorem bind_bind (t : Program ι Ans α) (f : α → Program ι Ans β) (g : β → Program ι Ans γ) :
    t >>= f >>= g = t >>= fun a => f a >>= g := by
  induction t with
  | done a => rfl
  | panicked => rfl
  | locked i next ih => exact congrArg (locked i) (funext ih)

instance : LawfulMonad (Program ι Ans) := .mk' _ map_id (fun _ _ => rfl) bind_bind

/-- The program of one section. -/
def lock (i : ι) : Program ι Ans (Ans i) := locked i done

@[simp] theorem pure_eq (a : α) : (pure a : Program ι Ans α) = done a := rfl

@[simp] theorem done_bind (a : α) (f : α → Program ι Ans β) : done a >>= f = f a := rfl

@[simp] theorem panicked_bind (f : α → Program ι Ans β) : panicked >>= f = panicked := rfl

@[simp] theorem locked_bind (i : ι) (next : Ans i → Program ι Ans α) (f : α → Program ι Ans β) :
    locked i next >>= f = locked i fun a => next a >>= f := rfl

@[simp] theorem lock_bind (i : ι) (f : Ans i → Program ι Ans β) : lock i >>= f = locked i f := rfl

@[simp] theorem done_map (f : α → β) (a : α) : f <$> (done a : Program ι Ans α) = done (f a) := rfl

@[simp] theorem panicked_map (f : α → β) : f <$> (panicked : Program ι Ans α) = panicked := rfl

@[simp] theorem locked_map (f : α → β) (i : ι) (next : Ans i → Program ι Ans α) :
    f <$> locked i next = locked i fun a => f <$> next a := rfl

@[simp] theorem lock_map (i : ι) (f : Ans i → β) :
    f <$> (lock i : Program ι Ans (Ans i)) = locked i fun a => done (f a) := rfl

/-- No section is left. -/
def isOver : Program ι Ans α → Bool
  | locked _ _ => false
  | _ => true

/-! ## Alone -/

variable (exec : (i : ι) → σ → Option (Ans i × σ))

/-- Runs the program with nobody else at the store; `none` if it panics. -/
def alone : Program ι Ans α → σ → Option (α × σ)
  | done a, s => some (a, s)
  | panicked, _ => none
  | locked i next, s => match exec i s with
    | none => none
    | some (a, s') => (next a).alone s'

variable {exec} {s s' : σ} {i : ι} {a : Ans i}

@[simp] theorem alone_done (a : α) (s : σ) :
    (done a : Program ι Ans α).alone exec s = some (a, s) :=
  rfl

@[simp] theorem alone_panicked (s : σ) : (panicked : Program ι Ans α).alone exec s = none := rfl

theorem alone_locked (next : Ans i → Program ι Ans α) (h : exec i s = some (a, s')) :
    (locked i next).alone exec s = (next a).alone exec s' := by
  rw [alone, h]

theorem alone_bind (t : Program ι Ans α) (f : α → Program ι Ans β) (s : σ) :
    (t >>= f).alone exec s = (t.alone exec s).bind fun x => (f x.1).alone exec x.2 := by
  induction t generalizing s with
  | done a => rfl
  | panicked => rfl
  | locked i next ih =>
    rw [locked_bind, alone, alone]
    cases exec i s with
    | none => rfl
    | some x => exact ih x.1 x.2

theorem alone_map (t : Program ι Ans α) (f : α → β) (s : σ) :
    (f <$> t).alone exec s = (t.alone exec s).map fun x => (f x.1, x.2) := by
  induction t generalizing s with
  | done a => rfl
  | panicked => rfl
  | locked i next ih =>
    rw [locked_map, alone, alone]
    cases exec i s with
    | none => rfl
    | some x => exact ih x.1 x.2

theorem alone_invariant {P : σ → Prop} {t : Program ι Ans α} {a : α}
    (h : t.alone exec s = some (a, s'))
    (init : P s) (preserved : ∀ i s a s', P s → exec i s = some (a, s') → P s') : P s' := by
  induction t generalizing s with
  | done b =>
    cases h
    exact init
  | panicked => cases h
  | locked i next ih =>
    cases hexec : exec i s with
    | none => simp [Program.alone, hexec] at h
    | some x =>
      rw [alone_locked next hexec] at h
      exact ih x.1 h (preserved i s x.1 x.2 init hexec)

/-! ## Safe among others -/

/-- Every section that the program enters finds the store as it needs it and leaves it well, and
`post` holds of the result from then on. -/
def Safe (exec : (i : ι) → σ → Option (Ans i × σ)) (R : Protocol ι σ) (post : α → σ → Prop) :
    Program ι Ans α → σ → Prop
  | done a, s => ∀ s', R.grows s s' → R.inv s' → post a s'
  | panicked, _ => True
  | locked i next, s => ∀ s', R.grows s s' → R.inv s' → R.may i s' →
      ∃ a s'', exec i s' = some (a, s'') ∧ R.inv s'' ∧ R.grows s' s'' ∧
        (next a).Safe exec R post s''

variable {R : Protocol ι σ} {post : α → σ → Prop} {t : Program ι Ans α}

theorem Safe.grows (h : t.Safe exec R post s) (grows : R.grows s s') :
    t.Safe exec R post s' := by
  cases t with
  | done a => exact fun s'' hs => h s'' (R.trans grows hs)
  | panicked => trivial
  | locked i next => exact fun s'' hs => h s'' (R.trans grows hs)

theorem Safe.bind {post' : β → σ → Prop} {f : α → Program ι Ans β}
    (h : t.Safe exec R post s) (inv : R.inv s)
    (hf : ∀ a s, R.inv s → post a s → (f a).Safe exec R post' s) :
    (t >>= f).Safe exec R post' s := by
  induction t generalizing s with
  | done a => exact hf a s inv (h s (R.refl s) inv)
  | panicked => trivial
  | locked i next ih =>
    intro s' grows inv' may
    obtain ⟨a, s'', hexec, inv'', grows', hnext⟩ := h s' grows inv' may
    exact ⟨a, s'', hexec, inv'', grows', ih a hnext inv''⟩

theorem Safe.map {post' : β → σ → Prop} {f : α → β} (h : t.Safe exec R post s)
    (hf : ∀ a s, post a s → post' (f a) s) : (f <$> t).Safe exec R post' s := by
  induction t generalizing s with
  | done a => exact fun s' grows inv => hf a s' (h s' grows inv)
  | panicked => trivial
  | locked i next ih =>
    intro s' grows inv may
    obtain ⟨a, s'', hexec, inv', grows', hnext⟩ := h s' grows inv may
    exact ⟨a, s'', hexec, inv', grows', ih a hnext⟩

/-- The program itself never panics. -/
def Total : Program ι Ans α → Prop
  | done _ => True
  | panicked => False
  | locked _ next => ∀ a, (next a).Total

theorem Total.map (h : t.Total) (f : α → β) : (f <$> t).Total := by
  induction t with
  | done a => trivial
  | panicked => exact h
  | locked i next ih => exact fun a => ih a (h a)

/-- A safe program that is alone at the store comes to its end. -/
theorem Safe.alone (h : t.Safe exec R post s) (total : t.Total) (inv : R.inv s)
    (may : ∀ i s, R.may i s) :
    ∃ a s', t.alone exec s = some (a, s') ∧ R.inv s' ∧ R.grows s s' ∧ post a s' := by
  induction t generalizing s with
  | done a => exact ⟨a, s, rfl, inv, R.refl s, h s (R.refl s) inv⟩
  | panicked => exact total.elim
  | locked i next ih =>
    obtain ⟨a, s₁, hexec, inv₁, grows₁, hnext⟩ := h s (R.refl s) inv (may i s)
    obtain ⟨b, s₂, halone, inv₂, grows₂, hpost⟩ := ih a hnext (total a) inv₁
    exact ⟨b, s₂, (alone_locked next hexec).trans halone, inv₂, R.trans grows₁ grows₂, hpost⟩

end Program

/-! ## A pool of calls -/

/-- The store, whether a section panicked on it, and what is left of each call. -/
structure Pool (ι : Type) (Ans : ι → Type) (κ σ α : Type) where
  store : σ
  poisoned : Bool
  calls : List (κ × Program ι Ans α)

inductive PoolEvent (κ : Type)
  | call (k : κ)
  /-- the next section of the `n`th call -/
  | step (n : ℕ)

namespace Pool

variable {ι κ σ α : Type} {Ans : ι → Type} (exec : (i : ι) → σ → Option (Ans i × σ))
  (start : κ → Program ι Ans α)

def step (p : Pool ι Ans κ σ α) : PoolEvent κ → Option (Pool ι Ans κ σ α)
  | .call k => some { p with calls := p.calls ++ [(k, start k)] }
  | .step n => match p.calls[n]? with
    | some (k, .locked i next) =>
      if p.poisoned then some { p with calls := p.calls.set n (k, .panicked) }
      else match exec i p.store with
        | none => some { p with poisoned := true, calls := p.calls.set n (k, .panicked) }
        | some (a, s) => some { p with store := s, calls := p.calls.set n (k, next a) }
    | _ => none

/-- Which section the event runs. -/
def entering (p : Pool ι Ans κ σ α) : PoolEvent κ → Option ι
  | .call _ => none
  | .step n => match p.calls[n]? with
    | some (_, .locked i _) => some i
    | _ => none

variable {exec start} {p p' : Pool ι Ans κ σ α} {R : Protocol ι σ} {post : κ → α → σ → Prop}

inductive Step (exec : (i : ι) → σ → Option (Ans i × σ)) (start : κ → Program ι Ans α)
    (p : Pool ι Ans κ σ α) : PoolEvent κ → Pool ι Ans κ σ α → Prop
  | called (k : κ) : Step exec start p (.call k) { p with calls := p.calls ++ [(k, start k)] }
  | ran (n : ℕ) (k : κ) (i : ι) (next : Ans i → Program ι Ans α) (a : Ans i) (s : σ)
      (call : p.calls[n]? = some (k, .locked i next)) (healthy : p.poisoned = false)
      (runs : exec i p.store = some (a, s)) :
      Step exec start p (.step n) { p with store := s, calls := p.calls.set n (k, next a) }
  | failed (n : ℕ) (k : κ) (i : ι) (next : Ans i → Program ι Ans α)
      (call : p.calls[n]? = some (k, .locked i next))
      (fails : p.poisoned = true ∨ exec i p.store = none) :
      Step exec start p (.step n)
        { p with poisoned := true, calls := p.calls.set n (k, .panicked) }

theorem step_cases {e : PoolEvent κ} (h : p.step exec start e = some p') :
    Step exec start p e p' := by
  cases e with
  | call k =>
    cases h
    exact .called k
  | step n =>
    simp only [step] at h
    split at h
    · rename_i k i next hcall
      split at h
      · rename_i hpoisoned
        cases h
        have hstep : Step exec start p (.step n)
            { p with poisoned := true, calls := p.calls.set n (k, .panicked) } :=
          .failed n k i next hcall (Or.inl hpoisoned)
        rwa [← hpoisoned] at hstep
      · rename_i hhealthy
        split at h <;> cases h
        · exact .failed n k i next hcall (Or.inr ‹_›)
        · exact .ran n k i next _ _ hcall (by simpa using hhealthy) ‹_›
    · cases h

theorem step_entering {e : PoolEvent κ} {i : ι} {a : Ans i} {s : σ}
    (h : p.step exec start e = some p') (entering : p.entering e = some i)
    (healthy : p.poisoned = false) (runs : exec i p.store = some (a, s)) : p'.store = s := by
  cases step_cases h with
  | called => cases entering
  | ran n k j next a' s' call healthy' runs' =>
    simp only [Pool.entering, call, Option.some.injEq] at entering
    subst entering
    exact (Prod.mk.inj (Option.some.inj (runs'.symm.trans runs))).2
  | failed n k j next call fails =>
    simp only [Pool.entering, call, Option.some.injEq] at entering
    subst entering
    simp [healthy, runs] at fails

/-- The invariant holds, no section panicked, and every call does well. -/
structure Fine (exec : (i : ι) → σ → Option (Ans i × σ)) (R : Protocol ι σ)
    (post : κ → α → σ → Prop) (p : Pool ι Ans κ σ α) : Prop where
  inv : R.inv p.store
  healthy : p.poisoned = false
  calls : ∀ call ∈ p.calls, call.2.Safe exec R (post call.1) p.store

theorem fine_step (started : ∀ k s, R.inv s → (start k).Safe exec R (post k) s)
    (h : p.Fine exec R post) {e : PoolEvent κ} (may : ∀ i, p.entering e = some i → R.may i p.store)
    (taken : p.step exec start e = some p') : p'.Fine exec R post ∧ R.grows p.store p'.store := by
  cases step_cases taken with
  | called k =>
    refine ⟨⟨h.inv, h.healthy, fun call hcall => ?_⟩, R.refl _⟩
    rcases List.mem_append.mp hcall with hcall | hcall
    · exact h.calls call hcall
    · obtain rfl := List.mem_singleton.mp hcall
      exact started k _ h.inv
  | ran n k i next a s call healthy runs =>
    have hsafe := h.calls _ (List.mem_of_getElem? call)
    obtain ⟨a', s', hexec, inv', grows, hnext⟩ :=
      hsafe p.store (R.refl _) h.inv (may i (by simp [entering, call]))
    obtain ⟨rfl, rfl⟩ := Prod.mk.inj (Option.some.inj (runs.symm.trans hexec))
    refine ⟨⟨inv', healthy, fun call' hcall' => ?_⟩, grows⟩
    rcases List.mem_or_eq_of_mem_set hcall' with hcall' | rfl
    · exact (h.calls call' hcall').grows grows
    · exact hnext
  | failed n k i next call fails =>
    have hsafe := h.calls _ (List.mem_of_getElem? call)
    obtain ⟨a, s', hexec, -⟩ :=
      hsafe p.store (R.refl _) h.inv (may i (by simp [entering, call]))
    rcases fails with hpoisoned | hnone
    · rw [h.healthy] at hpoisoned
      cases hpoisoned
    · rw [hexec] at hnone
      cases hnone

/-- **The rule.** If every call is safe where it starts, all calls are safe in every run whose
sections run only when they may. -/
theorem fine_run (started : ∀ k s, R.inv s → (start k).Safe exec R (post k) s)
    {ok : Pool ι Ans κ σ α → PoolEvent κ → Prop}
    (may : ∀ p e i, ok p e → p.entering e = some i → R.may i p.store) {es : List (PoolEvent κ)}
    (run : Run.Exec (step exec start) ok p es p') (h : p.Fine exec R post) :
    p'.Fine exec R post ∧ R.grows p.store p'.store :=
  run.invariant (P := fun p' => p'.Fine exec R post ∧ R.grows p.store p'.store) ⟨h, R.refl _⟩
    fun _ _ _ ⟨hm, grows⟩ allowed taken =>
      (fine_step started hm (may _ _ · allowed) taken).imp_right (R.trans grows)

end Pool

end MiniDiscord
