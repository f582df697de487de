import MiniDiscord.Linear
import MiniDiscord.Program

/-!
# Calls that happen at once

A call of a pool takes effect in one of its critical sections if every other section only looks at
the store. When the sections before the last are checks whose answers stay as they are, the call
does in its last section what it would do alone at that moment. So the concurrent calls are
explained by calls that run one after the other.
-/

namespace MiniDiscord

namespace Program

variable {ι κ σ α : Type} {Ans : ι → Type}

def result : Program ι Ans α → Option α
  | done a => some a
  | _ => none

/-- Says of a section, its answer and what the program then has left, which operation takes effect
there, with the answer of the operation. -/
abbrev Point (ι : Type) (Ans : ι → Type) (κ α : Type) : Type :=
  (i : ι) → Ans i → Program ι Ans α → Option (κ × α)

/-- The last section is where the call takes effect. -/
def atEnd (k : κ) : Point ι Ans κ α := fun _ _ rest => rest.result.map fun a => (k, a)

/-- In each section the operation of its point happens, or nothing does. -/
def Atomic (exec : (i : ι) → σ → Option (Ans i × σ)) (R : Protocol ι σ)
    (object : κ → σ → Option (α × σ)) (point : Point ι Ans κ α) (n : ℕ) :
    Program ι Ans α → σ → Prop
  | locked i next, s => ∀ s' a s'', R.grows s s' → R.inv s' → R.may i s' →
      exec i s' = some (a, s'') →
      Happens object s' ((point i a (next a)).map fun x => ⟨n, x.1, x.2⟩) s'' ∧
        (next a).Atomic exec R object point n s''
  | _, _ => True

/-- The section that comes next may run. -/
def MayGoOn (R : Protocol ι σ) : Program ι Ans α → σ → Prop
  | locked i _, s => R.may i s
  | _, _ => True

/-- Every section but the last is a check, and its answer is the same whenever the next section may
run. -/
def Steady (exec : (i : ι) → σ → Option (Ans i × σ)) (R : Protocol ι σ) :
    Program ι Ans α → σ → Prop
  | locked i next, s => ∀ s' a s'', R.grows s s' → R.inv s' → R.may i s' →
      exec i s' = some (a, s'') → (next a).result.isSome = true ∨
        s'' = s' ∧ (next a).Steady exec R s' ∧
          ∀ s₁, R.grows s' s₁ → R.inv s₁ → (next a).MayGoOn R s₁ →
            R.may i s₁ ∧ exec i s₁ = some (a, s₁)
  | done _, _ => True
  | panicked, _ => False

variable {exec : (i : ι) → σ → Option (Ans i × σ)} {R : Protocol ι σ}
  {object : κ → σ → Option (α × σ)} {point : Point ι Ans κ α} {n : ℕ} {t : Program ι Ans α}
  {s s' : σ} {a : α}

@[simp] theorem result_done (a : α) : (done a : Program ι Ans α).result = some a := rfl

@[simp] theorem result_panicked : (panicked : Program ι Ans α).result = none := rfl

@[simp] theorem result_locked (i : ι) (next : Ans i → Program ι Ans α) :
    (locked i next).result = none := rfl

theorem result_eq (h : t.result = some a) : t = done a := by
  cases t with
  | done b => exact congrArg done (Option.some.inj h)
  | panicked | locked => cases h

theorem Atomic.grows (h : t.Atomic exec R object point n s) (grows : R.grows s s') :
    t.Atomic exec R object point n s' := by
  cases t with
  | locked i next => exact fun s₁ a s₂ hs => h s₁ a s₂ (R.trans grows hs)
  | done | panicked => trivial

/-- **Checks that last.** A steady program does in its last section what the whole program does
alone. `t` is the whole program, `u` what is left of it, and they cannot be told apart. -/
theorem Steady.atomic {u : Program ι Ans α} {k : κ} (steady : u.Steady exec R s)
    (whole : object k = t.alone exec)
    (same : ∀ s', R.grows s s' → R.inv s' → u.MayGoOn R s' → t.alone exec s' = u.alone exec s') :
    u.Atomic exec R object (atEnd k) n s := by
  induction u generalizing s with
  | done a => trivial
  | panicked => trivial
  | locked i next ih =>
    intro s' a s'' grows inv may hexec
    have hsame := (same s' grows inv may).trans (alone_locked next hexec)
    rcases steady s' a s'' grows inv may hexec with hover | ⟨rfl, hnext, hstays⟩
    · obtain ⟨r, hr⟩ := Option.isSome_iff_exists.mp hover
      have hdone := result_eq hr
      rw [hdone] at hsame ⊢
      refine ⟨?_, trivial⟩
      change object k s' = some (r, s'')
      rw [whole, hsame, alone_done]
    · refine ⟨?_, ih a hnext fun s₁ grows₁ inv₁ may₁ => ?_⟩
      · cases hr : (next a).result with
        | none => simp [atEnd, hr, Happens]
        | some r =>
          rw [result_eq hr, alone_done] at hsame
          simp [atEnd, hr, Happens, whole, hsame]
      · obtain ⟨may', hexec'⟩ := hstays s₁ grows₁ inv₁ may₁
        rw [same s₁ (R.trans grows grows₁) inv₁ may', alone_locked next hexec']

theorem result_map {β : Type} (t : Program ι Ans α) (f : α → β) :
    (f <$> t).result = t.result.map f := by
  cases t <;> rfl

theorem mayGoOn_map {β : Type} {t : Program ι Ans α} {f : α → β}
    (h : (f <$> t).MayGoOn R s) : t.MayGoOn R s := by
  cases t with
  | locked i next => exact h
  | done | panicked => trivial

theorem Steady.map {β : Type} (h : t.Steady exec R s) (f : α → β) :
    (f <$> t).Steady exec R s := by
  induction t generalizing s with
  | done a => trivial
  | panicked => exact h
  | locked i next ih =>
    rw [locked_map]
    intro s' a s'' grows inv may hexec
    rcases h s' a s'' grows inv may hexec with hover | ⟨rfl, hnext, hstays⟩
    · left
      rwa [result_map, Option.isSome_map]
    · exact Or.inr ⟨rfl, ih a hnext, fun s₁ grows₁ inv₁ may₁ =>
        hstays s₁ grows₁ inv₁ (mayGoOn_map may₁)⟩

theorem Steady.whole {k : κ} (steady : t.Steady exec R s) (whole : object k = t.alone exec) :
    t.Atomic exec R object (atEnd k) n s :=
  steady.atomic whole fun _ _ _ _ => rfl

end Program

namespace Pool

variable {ι κ σ α : Type} {Ans : ι → Type} (exec : (i : ι) → σ → Option (Ans i × σ))
  (start : κ → Program ι Ans α) (point : κ → Program.Point ι Ans κ α)

/-- The operation that takes effect at an event: a call without sections does at once. -/
def entry (p : Pool ι Ans κ σ α) : PoolEvent κ → Option (Entry κ α)
  | .call k => (start k).result.map fun a => ⟨p.calls.length, k, a⟩
  | .step n => match p.calls[n]? with
    | some (k, .locked i next) =>
      if p.poisoned then none
      else match exec i p.store with
        | some (a, _) => (point k i a (next a)).map fun x => ⟨n, x.1, x.2⟩
        | none => none
    | _ => none

/-- What has taken effect along the events, in this order. -/
def history (p : Pool ι Ans κ σ α) (es : List (PoolEvent κ)) : List (Entry κ α) :=
  Run.record (step exec start)
    (fun entries p e _ => entries ++ (p.entry exec start point e).toList) [] p es

variable {exec start point} {p p' : Pool ι Ans κ σ α} {R : Protocol ι σ} {post : κ → α → σ → Prop}
  {object : κ → σ → Option (α × σ)} {es es' : List (PoolEvent κ)} {e : PoolEvent κ}
  {ok : Pool ι Ans κ σ α → PoolEvent κ → Prop} {k : κ} {n : ℕ} {prog : Program ι Ans α}

/-- What has taken effect is not changed by what happens later. -/
theorem history_prefix (run : Run.Exec (step exec start) ok p es p') (es' : List (PoolEvent κ)) :
    p.history exec start point es <+: p.history exec start point (es ++ es') := by
  rw [history, history, Run.record_append run]
  exact record_prefix (fun p e _ => entry exec start point p e) _ p' es'

theorem history_snoc {m : Pool ι Ans κ σ α} (run : Run.Exec (step exec start) ok p es m)
    (taken : step exec start m e = some p') : p.history exec start point (es ++ [e]) =
      p.history exec start point es ++ (m.entry exec start point e).toList :=
  Run.record_snoc run taken

/-! ## The explanation -/

/-- Every call does at once what it does. -/
structure AtOnce (exec : (i : ι) → σ → Option (Ans i × σ)) (start : κ → Program ι Ans α)
    (point : κ → Program.Point ι Ans κ α) (R : Protocol ι σ) (object : κ → σ → Option (α × σ)) :
    Prop where
  atomic : ∀ k n s, R.inv s → (start k).Atomic exec R object (point k) n s
  /-- a call without sections does not look at the store -/
  constant : ∀ k a s, R.inv s → start k = .done a → object k s = some (a, s)

/-- What is left of each call does the rest at once. -/
def AllAtomic (exec : (i : ι) → σ → Option (Ans i × σ)) (point : κ → Program.Point ι Ans κ α)
    (R : Protocol ι σ) (object : κ → σ → Option (α × σ)) (p : Pool ι Ans κ σ α) : Prop :=
  ∀ (n : ℕ) (k : κ) (prog : Program ι Ans α), p.calls[n]? = some (k, prog) →
    prog.Atomic exec R object (point k) n p.store

theorem AllAtomic.set (h : p.AllAtomic exec point R object) (grows : R.grows p.store p'.store)
    (calls : p'.calls = p.calls.set n (k, prog))
    (own : prog.Atomic exec R object (point k) n p'.store) :
    p'.AllAtomic exec point R object := by
  intro m k' prog' hcall
  rw [calls] at hcall
  by_cases hm : n = m
  · subst hm
    rw [List.getElem?_set, if_pos rfl] at hcall
    split_ifs at hcall
    cases hcall
    exact own
  · rw [List.getElem?_set_ne hm] at hcall
    exact (h m k' prog' hcall).grows grows

theorem entry_happens (atOnce : AtOnce exec start point R object) (fine : p.Fine exec R post)
    (calls : p.AllAtomic exec point R object)
    (may : ∀ i, p.entering e = some i → R.may i p.store)
    (grows : R.grows p.store p'.store) (taken : p.step exec start e = some p') :
    Happens object p.store (p.entry exec start point e) p'.store ∧
      p'.AllAtomic exec point R object := by
  cases step_cases taken with
  | called k =>
    constructor
    · cases hr : (start k).result with
      | none => simp [entry, hr, Happens]
      | some a => simp [entry, hr, Happens, atOnce.constant k a _ fine.inv (Program.result_eq hr)]
    · intro n k' prog hcall
      rcases Nat.lt_or_ge n p.calls.length with hn | hn
      · rw [List.getElem?_append_left hn] at hcall
        exact calls n k' prog hcall
      · rw [List.getElem?_append_right hn, List.getElem?_singleton] at hcall
        split_ifs at hcall
        cases hcall
        exact atOnce.atomic k n _ fine.inv
  | ran n k i next a s call healthy runs =>
    obtain ⟨happens, hnext⟩ := calls n k _ call p.store a s (R.refl _) fine.inv
      (may i (by simp [entering, call])) runs
    refine ⟨?_, calls.set grows rfl hnext⟩
    simpa [entry, call, healthy, runs] using happens
  | failed n k i next call fails =>
    refine ⟨?_, calls.set grows (rfl : _ = p.calls.set n (k, .panicked)) trivial⟩
    rcases fails with hpoisoned | hnone
    · simp [entry, call, hpoisoned, Happens]
    · simp [entry, call, hnone, Happens]

/-- **The rule.** If every call is safe and does at once what it does, what has taken effect is a
history of the object. -/
theorem history_run (started : ∀ k s, R.inv s → (start k).Safe exec R (post k) s)
    (atOnce : AtOnce exec start point R object)
    (may : ∀ p e i, ok p e → p.entering e = some i → R.may i p.store)
    (run : Run.Exec (step exec start) ok p es p') (fine : p.Fine exec R post)
    (new : p.calls = []) : History object p.store (p.history exec start point es) p'.store := by
  refine (run.history (P := fun es p' => History object p.store (p.history exec start point es)
      p'.store ∧ p'.Fine exec R post ∧ p'.AllAtomic exec point R object)
    ⟨.nil, fine, fun n k prog hcall => by simp [new] at hcall⟩ ?_).1
  rintro es m e m' before ⟨hhistory, hfine, hcalls⟩ allowed taken
  obtain ⟨hfine', grows⟩ := fine_step started hfine (may m e · allowed) taken
  obtain ⟨happens, hcalls'⟩ :=
    entry_happens atOnce hfine hcalls (may m e · allowed) grows taken
  rw [history_snoc before taken]
  exact ⟨hhistory.happens happens, hfine', hcalls'⟩

theorem calls_later {m : Pool ι Ans κ σ α} (taken : m.step exec start e = some p')
    (call : m.calls[n]? = some (k, prog)) : ∃ prog', p'.calls[n]? = some (k, prog') := by
  have hn := (List.getElem?_eq_some_iff.mp call).1
  cases step_cases taken with
  | called k' => exact ⟨prog, by rw [List.getElem?_append_left hn, call]⟩
  | ran j k' _ next a _ call' _ _ | failed j k' _ next call' _ =>
    by_cases hj : j = n
    · subst hj
      rw [call] at call'
      cases call'
      exact ⟨_, List.getElem?_set_self hn⟩
    · exact ⟨prog, by rw [List.getElem?_set_ne hj, call]⟩

/-- What has taken effect is an operation of a call that has begun. -/
theorem history_begun (run : Run.Exec (step exec start) ok p es p') :
    ∀ x ∈ p.history exec start point es, ∃ k prog, p'.calls[x.call]? = some (k, prog) ∧
      ((start k).result.isSome = true ∧ x.op = k ∨
        ∃ i a rest, point k i a rest = some (x.op, x.answer)) := by
  refine run.history (P := fun es p' => ∀ x ∈ p.history exec start point es, ∃ k prog,
    p'.calls[x.call]? = some (k, prog) ∧ ((start k).result.isSome = true ∧ x.op = k ∨
      ∃ i a rest, point k i a rest = some (x.op, x.answer))) (by simp [history, Run.record]) ?_
  rintro es m e m' before ih - taken x hx
  rw [history_snoc before taken, List.mem_append, Option.mem_toList] at hx
  rcases hx with hx | hx
  · obtain ⟨k, prog, hcall, hop⟩ := ih x hx
    obtain ⟨prog', hcall'⟩ := calls_later taken hcall
    exact ⟨k, prog', hcall', hop⟩
  cases step_cases taken with
  | called k =>
    obtain ⟨a, ha, rfl⟩ := Option.map_eq_some_iff.mp hx
    exact ⟨k, start k, List.getElem?_concat_length, Or.inl ⟨by simp [ha], rfl⟩⟩
  | ran j k i next a s call healthy runs =>
    simp only [entry, call, healthy, Bool.false_eq_true, if_false, runs,
      Option.map_eq_some_iff] at hx
    obtain ⟨y, hy, rfl⟩ := hx
    exact ⟨k, next a, List.getElem?_set_self (List.getElem?_eq_some_iff.mp call).1,
      Or.inr ⟨i, a, next a, hy⟩⟩
  | failed j k i next call fails =>
    rcases fails with hpoisoned | hnone
    · simp [entry, call, hpoisoned] at hx
    · simp [entry, call, hnone] at hx

/-! ## Each call once -/

/-- What has taken effect of the `n`th call. -/
def historyOf (p : Pool ι Ans κ σ α) (es : List (PoolEvent κ)) (n : ℕ)
    (exec : (i : ι) → σ → Option (Ans i × σ)) (start : κ → Program ι Ans α)
    (point : κ → Program.Point ι Ans κ α) : List (Entry κ α) :=
  (p.history exec start point es).filter fun x => x.call = n

theorem historyOf_snoc {m : Pool ι Ans κ σ α} (run : Run.Exec (step exec start) ok p es m)
    (taken : step exec start m e = some p') : p.historyOf (es ++ [e]) n exec start point =
      p.historyOf es n exec start point ++
        (m.entry exec start point e).toList.filter fun x => x.call = n := by
  rw [historyOf, historyOf, history_snoc run taken, List.filter_append]

/-- A call that takes effect at its end has done so once if it has returned, and else not yet. -/
theorem history_once (run : Run.Exec (step exec start) ok p es p') (new : p.calls = []) :
    (∀ n ≥ p'.calls.length, p.historyOf es n exec start point = []) ∧
    ∀ (n : ℕ) (k : κ) (prog : Program ι Ans α), p'.calls[n]? = some (k, prog) →
      point k = Program.atEnd k →
      p.historyOf es n exec start point = (prog.result.map fun a => ⟨n, k, a⟩).toList := by
  refine run.history (P := fun es p' => (∀ n ≥ p'.calls.length,
      p.historyOf es n exec start point = []) ∧
    ∀ (n : ℕ) (k : κ) (prog : Program ι Ans α), p'.calls[n]? = some (k, prog) →
      point k = Program.atEnd k →
      p.historyOf es n exec start point = (prog.result.map fun a => ⟨n, k, a⟩).toList)
    ⟨fun _ _ => rfl, fun n k prog hcall => by simp [new] at hcall⟩ ?_
  rintro es m e m' before ⟨hlater, hcalls⟩ - taken
  have hsnoc : ∀ n, p.historyOf (es ++ [e]) n exec start point =
      p.historyOf es n exec start point ++
        (m.entry exec start point e).toList.filter fun x => x.call = n :=
    fun n => historyOf_snoc before taken
  cases step_cases taken with
  | called k =>
    have hentry : (m.entry exec start point (.call k)).toList =
        ((start k).result.map fun a => ⟨m.calls.length, k, a⟩).toList := rfl
    have hother : ∀ n ≠ m.calls.length,
        (m.entry exec start point (.call k)).toList.filter (fun x => x.call = n) = [] := by
      intro n hn
      rw [hentry]
      cases (start k).result <;> simp [Ne.symm hn]
    refine ⟨fun n hn => ?_, fun n k' prog hcall ordinary => ?_⟩
    · simp only [List.length_append, List.length_singleton] at hn
      rw [hsnoc, hlater n (by omega), hother n (by omega)]
      rfl
    · rcases Nat.lt_or_ge n m.calls.length with hn | hn
      · rw [List.getElem?_append_left hn] at hcall
        rw [hsnoc, hother n (by omega), List.append_nil, hcalls n k' prog hcall ordinary]
      · rw [List.getElem?_append_right hn, List.getElem?_singleton] at hcall
        split_ifs at hcall with h
        obtain rfl : n = m.calls.length := by omega
        cases hcall
        rw [hsnoc, hlater _ (Nat.le_refl _), hentry]
        cases (start k).result <;> simp
  | ran j k i next a s call healthy runs =>
    have hj := (List.getElem?_eq_some_iff.mp call).1
    have hentry : m.entry exec start point (.step j) =
        (point k i a (next a)).map fun x => ⟨j, x.1, x.2⟩ := by
      simp [entry, call, healthy, runs]
    have hother : ∀ n ≠ j,
        (m.entry exec start point (.step j)).toList.filter (fun x => x.call = n) = [] := by
      intro n hn
      rw [hentry]
      cases point k i a (next a) <;> simp [Ne.symm hn]
    refine ⟨fun n hn => ?_, fun n k' prog hcall ordinary => ?_⟩
    · simp only [List.length_set] at hn
      rw [hsnoc, hlater n hn, hother n (by omega)]
      rfl
    · by_cases hn : n = j
      · subst hn
        rw [List.getElem?_set_self hj] at hcall
        cases hcall
        rw [hsnoc, hcalls n k _ call ordinary, hentry, ordinary]
        cases hr : (next a).result <;> simp [Program.atEnd, hr]
      · rw [List.getElem?_set_ne (Ne.symm hn)] at hcall
        rw [hsnoc, hother n hn, List.append_nil, hcalls n k' prog hcall ordinary]
  | failed j k i next call fails =>
    have hj := (List.getElem?_eq_some_iff.mp call).1
    have hentry : m.entry exec start point (.step j) = none := by
      rcases fails with hpoisoned | hnone
      · simp [entry, call, hpoisoned]
      · simp [entry, call, hnone]
    have hsame : ∀ n, p.historyOf (es ++ [.step j]) n exec start point =
        p.historyOf es n exec start point := fun n => by simp [hsnoc, hentry]
    refine ⟨fun n hn => ?_, fun n k' prog hcall ordinary => ?_⟩
    · simp only [List.length_set] at hn
      rw [hsame, hlater n hn]
    · rw [hsame]
      by_cases hn : n = j
      · subst hn
        rw [List.getElem?_set_self hj] at hcall
        cases hcall
        rw [hcalls n k _ call ordinary]
        rfl
      · rw [List.getElem?_set_ne (Ne.symm hn)] at hcall
        exact hcalls n k' prog hcall ordinary

end Pool

end MiniDiscord
